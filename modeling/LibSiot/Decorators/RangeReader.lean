/-
Module: LibSiot.Decorators.RangeReader
Purpose: `RangeReaderDecorator` as the source computes it: reads bounded by the
  bytes left in the range, and the draining loop of `Shutdown`.
Trusted boundary: human-reviewed model
Main exports: RangeReaderDecorator, RangeReaderDecorator.receive,
  RangeReaderDecorator.isEOF, RangeReaderDecorator.drain,
  RangeReaderDecorator.shutdown, rangeReaderDecorator
-/
import LibSiot.Connection

namespace LibSiot

universe u

/-- Fields of class `RangeReaderDecorator`. -/
structure RangeReaderDecorator (σ : Type u) where
  wrapped : σ
  owned : Bool
  maxSize : UInt64
  offset : UInt64
deriving Repr, DecidableEq

namespace RangeReaderDecorator

variable {σ : Type u}

/-- The constructor. -/
def new (wrapped : σ) (maxSize : UInt64) (own : Bool) : RangeReaderDecorator σ :=
  { wrapped := wrapped, owned := own, maxSize := maxSize, offset := 0 }

/-- The length asked of the wrapped connection by `Receive(len)`. -/
def requestLength (len maxSize offset : UInt64) : UInt64 :=
  if len = 0 ∨ len > maxSize - offset then maxSize - offset else len

/-- `RangeReaderDecorator::Receive`. -/
def receive (w : Connection σ) (len : UInt64) (flags : UInt32)
    (r : RangeReaderDecorator σ) : Outcome (RangeReaderDecorator σ) Bytes :=
  if r.offset ≥ r.maxSize then .returned [] r
  else
    match w.receive (requestLength len r.maxSize r.offset) flags r.wrapped with
    | .running => .running
    | .threw error s => .threw error { r with wrapped := s }
    | .returned data s =>
        match w.isEOF s with
        | (true, s) => .returned data { r with wrapped := s, offset := r.maxSize }
        | (false, s) =>
            .returned data
              { r with wrapped := s, offset := r.offset + data.length.toUInt64 }

/-- `RangeReaderDecorator::IsEOF`. -/
def isEOF (w : Connection σ) (r : RangeReaderDecorator σ) :
    Bool × RangeReaderDecorator σ :=
  if r.offset ≥ r.maxSize then (true, r)
  else ((w.isEOF r.wrapped).1, { r with wrapped := (w.isEOF r.wrapped).2 })

/-- The loop of `Shutdown` that eats what is left of the range.  `fuel` bounds
the turns of this model; the loop of the source has no bound. -/
def drain (w : Connection σ) :
    Nat → RangeReaderDecorator σ → Outcome (RangeReaderDecorator σ) Unit
  | 0, _ => .running
  | fuel + 1, r =>
      if r.offset ≥ r.maxSize then .returned () r
      else
        match w.isEOF r.wrapped with
        | (true, s) => .returned () { r with wrapped := s }
        | (false, s) =>
            match w.receive (r.maxSize - r.offset) 0 s with
            | .running => .running
            | .threw error s => .threw error { r with wrapped := s }
            | .returned data s =>
                drain w fuel
                  { r with wrapped := s, offset := r.offset + data.length.toUInt64 }

/-- `RangeReaderDecorator::Shutdown` between `Lock()` and `delete this`, over a
connection with this `Shutdown`. -/
def shutdown (w : Connection σ) (wrappedShutdown : σ → Outcome σ Unit) (fuel : Nat)
    (r : RangeReaderDecorator σ) : Outcome (RangeReaderDecorator σ) Unit :=
  match drain w fuel r with
  | .running => .running
  | .threw error r => .threw error r
  | .returned () r =>
      if r.owned then
        match wrappedShutdown r.wrapped with
        | .running => .running
        | .threw error s => .threw error { r with wrapped := s }
        | .returned () s => .returned () { r with wrapped := s }
      else .returned () r

end RangeReaderDecorator

/-- The decorated connection as an object of its own. -/
def rangeReaderDecorator {σ : Type u} (w : Connection σ) :
    Connection (RangeReaderDecorator σ) where
  receive := RangeReaderDecorator.receive w
  isEOF := RangeReaderDecorator.isEOF w

end LibSiot
