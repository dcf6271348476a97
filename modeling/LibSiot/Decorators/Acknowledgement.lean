/-
Module: LibSiot.Decorators.Acknowledgement
Purpose: `AcknowledgementDecorator` as the source computes it: the buffer of
  unacknowledged bytes, the limit checked after the fact, and auto-acknowledge.
Trusted boundary: human-reviewed model
Main exports: AcknowledgementDecorator, AcknowledgementDecorator.receive,
  AcknowledgementDecorator.acknowledge, acknowledgementDecorator
-/
import LibSiot.Connection

namespace LibSiot

universe u

/-- Fields of class `AcknowledgementDecorator`. -/
structure AcknowledgementDecorator (σ : Type u) where
  wrapped : σ
  owned : Bool
  maxBufferSize : UInt64
  autoack : Bool
  buffer : Bytes
deriving Repr, DecidableEq

/-- What `Receive` throws once the buffer is longer than the limit. -/
def bufferSizeExceeded : ClientConnectionException :=
  { identifier := "buffer size exceeded"
    errmsg := "The specified buffer size has been exceeded" }

namespace AcknowledgementDecorator

variable {σ : Type u}

/-- The constructor. -/
def new (wrapped : σ) (maxBufferSize : UInt64) (own : Bool) :
    AcknowledgementDecorator σ :=
  { wrapped := wrapped, owned := own, maxBufferSize := maxBufferSize,
    autoack := false, buffer := [] }

/-- The length asked of the wrapped connection.  `len` is computed by an
unsigned subtraction that may wrap, and is replaced by 0 when it did. -/
def requestLength (maxlen : UInt64) (buffer : Bytes) : UInt64 :=
  let len := maxlen - buffer.length.toUInt64
  if maxlen.toNat > buffer.length then len else 0

/-- `AcknowledgementDecorator::Receive`. -/
def receive (w : Connection σ) (maxlen : UInt64) (flags : UInt32)
    (a : AcknowledgementDecorator σ) : Outcome (AcknowledgementDecorator σ) Bytes :=
  match w.receive (requestLength maxlen a.buffer) flags a.wrapped with
  | .running => .running
  | .threw error s => .threw error { a with wrapped := s }
  | .returned data s =>
      let buffer := if data.length > 0 then a.buffer ++ data else a.buffer
      if buffer.length > a.maxBufferSize.toNat then
        .threw bufferSizeExceeded { a with wrapped := s, buffer := buffer }
      else if a.autoack then .returned buffer { a with wrapped := s, buffer := [] }
      else .returned buffer { a with wrapped := s, buffer := buffer }

/-- `AcknowledgementDecorator::Acknowledge`. -/
def acknowledge (bytes : UInt64) (a : AcknowledgementDecorator σ) :
    Bool × AcknowledgementDecorator σ :=
  if bytes.toNat > a.buffer.length then (false, a)
  else (true, { a with buffer := a.buffer.drop bytes.toNat })

/-- `AcknowledgementDecorator::SetAutoAck`. -/
def setAutoAck (autoack : Bool) (a : AcknowledgementDecorator σ) :
    AcknowledgementDecorator σ :=
  { a with autoack := autoack }

/-- `AcknowledgementDecorator::IsEOF`. -/
def isEOF (w : Connection σ) (a : AcknowledgementDecorator σ) :
    Bool × AcknowledgementDecorator σ :=
  ((w.isEOF a.wrapped).1 && a.buffer.isEmpty,
    { a with wrapped := (w.isEOF a.wrapped).2 })

end AcknowledgementDecorator

/-- The decorated connection as an object of its own. -/
def acknowledgementDecorator {σ : Type u} (w : Connection σ) :
    Connection (AcknowledgementDecorator σ) where
  receive := AcknowledgementDecorator.receive w
  isEOF := AcknowledgementDecorator.isEOF w

end LibSiot
