/-
Module: LibSiot.FullConnection
Purpose: Class `Connection` with its other direction: `Send`, `SetBlocking` and
  `GetLastUse` beside `Receive` and `IsEOF`, for the two connection classes, for
  each decorator and for stacks of these.
Trusted boundary: human-reviewed model
Main exports: FullConnection, Call, CallResult, FullConnection.answer, fullStack,
  StackState.bottom, Socket, socket, TlsChannel, tlsChannel
-/
import LibSiot.Decorators.Stack
import LibSiot.OpenSSLConnection
import LibSiot.UnixSocketConnection

namespace LibSiot

universe u v w

/-- The state behind a call, put into something that holds it. -/
def Outcome.map {σ : Type u} {τ : Type v} {α : Type w} (f : σ → τ) : Outcome σ α → Outcome τ α
  | .returned value s => .returned value (f s)
  | .threw error s => .threw error (f s)
  | .running => .running

/-- Class `Connection`, for an object with state `σ`. -/
structure FullConnection (σ : Type u) extends Connection σ where
  send : Bytes → UInt32 → σ → Outcome σ Int
  setBlocking : Bool → σ → σ
  getLastUse : σ → UInt64

/-! ### Calls as data -/

/-- The calls on a connection, but for those that end it. -/
inductive Call where
  | read (call : ReadCall)
  | send (data : Bytes) (flags : UInt32)
  | setBlocking (blocking : Bool)
  | getLastUse
deriving Repr, DecidableEq

/-- What these calls give back. -/
inductive CallResult where
  | read (result : ReadResult)
  | sent (count : Int)
  | done
  | lastUse (time : UInt64)
deriving Repr, DecidableEq

/-- One call on a connection. -/
def FullConnection.answer {σ : Type u} (c : FullConnection σ) (call : Call) (s : σ) :
    Outcome σ CallResult :=
  match call with
  | .read call =>
      match c.toConnection.answer call s with
      | .running => .running
      | .threw error s => .threw error s
      | .returned result s => .returned (.read result) s
  | .send data flags =>
      match c.send data flags s with
      | .running => .running
      | .threw error s => .threw error s
      | .returned count s => .returned (.sent count) s
  | .setBlocking blocking => .returned .done (c.setBlocking blocking s)
  | .getLastUse => .returned (.lastUse (c.getLastUse s)) s

/-! ### The decorators -/

/-- What `RangeReaderDecorator::Send` throws. -/
def readOnly : ClientConnectionException :=
  { identifier := "read-only", errmsg := "Write attempted on read-only connection" }

section Decorators

variable {σ : Type u}

namespace LineBufferDecorator

/-- `LineBufferDecorator::Send`. -/
def send (w : FullConnection σ) (data : Bytes) (flags : UInt32) (lb : LineBufferDecorator σ) :
    Outcome (LineBufferDecorator σ) Int :=
  (w.send data flags lb.wrapped).map fun s => { lb with wrapped := s }

/-- `LineBufferDecorator::SetBlocking`. -/
def setBlocking (w : FullConnection σ) (blocking : Bool) (lb : LineBufferDecorator σ) :
    LineBufferDecorator σ :=
  { lb with wrapped := w.setBlocking blocking lb.wrapped }

/-- `LineBufferDecorator::GetLastUse`. -/
def getLastUse (w : FullConnection σ) (lb : LineBufferDecorator σ) : UInt64 :=
  w.getLastUse lb.wrapped

end LineBufferDecorator

namespace RangeReaderDecorator

/-- `RangeReaderDecorator::Send`. -/
def send (_data : Bytes) (_flags : UInt32) (r : RangeReaderDecorator σ) :
    Outcome (RangeReaderDecorator σ) Int :=
  .threw readOnly r

/-- `RangeReaderDecorator::SetBlocking`. -/
def setBlocking (w : FullConnection σ) (blocking : Bool) (r : RangeReaderDecorator σ) :
    RangeReaderDecorator σ :=
  { r with wrapped := w.setBlocking blocking r.wrapped }

/-- `RangeReaderDecorator::GetLastUse`. -/
def getLastUse (w : FullConnection σ) (r : RangeReaderDecorator σ) : UInt64 :=
  w.getLastUse r.wrapped

end RangeReaderDecorator

namespace AcknowledgementDecorator

/-- `AcknowledgementDecorator::Send`. -/
def send (w : FullConnection σ) (data : Bytes) (flags : UInt32)
    (a : AcknowledgementDecorator σ) : Outcome (AcknowledgementDecorator σ) Int :=
  (w.send data flags a.wrapped).map fun s => { a with wrapped := s }

/-- `AcknowledgementDecorator::SetBlocking`. -/
def setBlocking (w : FullConnection σ) (blocking : Bool) (a : AcknowledgementDecorator σ) :
    AcknowledgementDecorator σ :=
  { a with wrapped := w.setBlocking blocking a.wrapped }

/-- `AcknowledgementDecorator::GetLastUse`. -/
def getLastUse (w : FullConnection σ) (a : AcknowledgementDecorator σ) : UInt64 :=
  w.getLastUse a.wrapped

end AcknowledgementDecorator

/-- The outermost handle of a stack, with both directions. -/
def fullStack (w : FullConnection σ) (outOfRange : UInt8) (fuel : Nat) :
    (levels : List Level) → FullConnection (StackState σ levels)
  | [] => w
  | .lineBuffer own :: levels =>
      let below := fullStack w outOfRange fuel levels
      { toConnection := stack w.toConnection outOfRange fuel (.lineBuffer own :: levels)
        send := LineBufferDecorator.send below
        setBlocking := LineBufferDecorator.setBlocking below
        getLastUse := LineBufferDecorator.getLastUse below }
  | .rangeReader maxSize own :: levels =>
      let below := fullStack w outOfRange fuel levels
      { toConnection := stack w.toConnection outOfRange fuel (.rangeReader maxSize own :: levels)
        send := RangeReaderDecorator.send
        setBlocking := RangeReaderDecorator.setBlocking below
        getLastUse := RangeReaderDecorator.getLastUse below }
  | .acknowledgement maxBufferSize own :: levels =>
      let below := fullStack w outOfRange fuel levels
      { toConnection :=
          stack w.toConnection outOfRange fuel (.acknowledgement maxBufferSize own :: levels)
        send := AcknowledgementDecorator.send below
        setBlocking := AcknowledgementDecorator.setBlocking below
        getLastUse := AcknowledgementDecorator.getLastUse below }

/-- The bottom of a stack. -/
def StackState.bottom : {levels : List Level} → StackState σ levels → σ
  | [], s => s
  | _ :: _, st => bottom (StackState.wrapped st)

end Decorators

/-! ### The socket -/

/-- The file status flag that makes calls on the descriptor not wait. -/
def O_NONBLOCK : UInt32 := 0x800

/-- The file status flags that `F_SETFL` changes: `O_APPEND`, `O_NONBLOCK`, `FASYNC`, `O_DIRECT`
and `O_NOATIME`. -/
def settableFlags : UInt32 := 0x400 ||| O_NONBLOCK ||| 0x2000 ||| 0x4000 ||| 0x40000

/-- How one `send` ends: the kernel takes at most `limit` bytes, or the call gives -1. -/
inductive SendResult where
  | bytes (limit : Nat)
  | error
deriving Repr, DecidableEq

/-- One answer of the kernel to `send`, and the time read right before it. -/
structure SendReply where
  result : SendResult
  now : UInt64
deriving Repr, DecidableEq

/-- A `UNIXSocketConnection` with both directions: what the kernel took to send, how the coming
`send` calls are answered, and the status flags of the descriptor. -/
structure Socket where
  reading : UnixSocketConnection
  sent : Bytes
  sendReplies : List SendReply
  statusFlags : UInt32
deriving Repr, DecidableEq

namespace Socket

/-- `UNIXSocketConnection::Send`. -/
def send (data : Bytes) (_flags : UInt32) (s : Socket) : Outcome Socket Int :=
  match s.sendReplies with
  | [] => .running
  | ⟨.bytes limit, now⟩ :: replies =>
      .returned (min limit data.length : Nat)
        { s with
          reading := { s.reading with lastUse := now }
          sent := s.sent ++ data.take limit
          sendReplies := replies }
  | ⟨.error, now⟩ :: replies =>
      .returned (-1)
        { s with reading := { s.reading with lastUse := now }, sendReplies := replies }

/-- `fcntl(socket_, F_SETFL, val)`. -/
def setFlags (val : UInt32) (s : Socket) : Socket :=
  { s with statusFlags := (s.statusFlags &&& ~~~settableFlags) ||| (val &&& settableFlags) }

/-- `UNIXSocketConnection::SetBlocking`.  To block it clears one flag; not to block it sets that
one and clears the others. -/
def setBlocking (blocking : Bool) (s : Socket) : Socket :=
  if blocking then s.setFlags (s.statusFlags &&& ~~~O_NONBLOCK) else s.setFlags O_NONBLOCK

end Socket

/-- The socket connection as an object with both directions. -/
def socket : FullConnection Socket where
  receive maxlen flags s :=
    (UnixSocketConnection.receive maxlen flags s.reading).map fun c => { s with reading := c }
  isEOF s := ((UnixSocketConnection.isEOF s.reading).1,
    { s with reading := (UnixSocketConnection.isEOF s.reading).2 })
  send := Socket.send
  setBlocking := Socket.setBlocking
  getLastUse s := s.reading.lastUse

/-! ### The TLS connection -/

/-- How one `SSL_write` ends: with the number of bytes written, or with a result that is not
positive, of which `SSL_get_error` makes `errv`. -/
inductive SslWriteResult where
  | written (count : Nat) (positive : 0 < count)
  | failed (errv : Nat) (errorString strerror : String)
deriving Repr, DecidableEq

/-- One answer of OpenSSL to `SSL_write`, and the time read right after it. -/
structure SslWriteReply where
  result : SslWriteResult
  now : UInt64
deriving Repr, DecidableEq

/-- An `OpenSSLConnection` with both directions. -/
structure TlsChannel where
  reading : TlsSocket
  sent : Bytes
  writeReplies : List SslWriteReply
deriving Repr, DecidableEq

namespace TlsChannel

/-- The exception `Send` throws when `SSL_write` fails.  At a failing system call it names
`SSL_read`. -/
def sendError (errv : Nat) (errorString strerror : String) : ClientConnectionException :=
  if errv = SSL_ERROR_SYSCALL then
    { identifier := "SSL_read:" ++ strerror, errmsg := strerror }
  else { identifier := "SSL_write:" ++ toString errv, errmsg := errorString }

/-- The time of the last use, set. -/
def used (now : UInt64) (s : TlsChannel) : TlsChannel :=
  { s with
    reading := { s.reading with connection := { s.reading.connection with lastUse := now } } }

/-- `OpenSSLConnection::Send`.  The flags are not looked at. -/
def send (data : Bytes) (_flags : UInt32) (s : TlsChannel) : Outcome TlsChannel Int :=
  match s.writeReplies with
  | [] => .running
  | ⟨.written count _, now⟩ :: replies =>
      .returned count
        { s.used now with sent := s.sent ++ data.take count, writeReplies := replies }
  | ⟨.failed errv errorString strerror, now⟩ :: replies =>
      .threw (sendError errv errorString strerror) { s.used now with writeReplies := replies }

/-- `OpenSSLConnection::SetBlocking`. -/
def setBlocking (blocking : Bool) (s : TlsChannel) : TlsChannel :=
  { s with
    reading := { s.reading with connection := s.reading.connection.setBlocking blocking } }

end TlsChannel

/-- The TLS connection as an object with both directions. -/
def tlsChannel (ssl : OpenSSL) : FullConnection TlsChannel where
  receive maxlen flags s :=
    (TlsSocket.receive ssl maxlen flags s.reading).map fun c => { s with reading := c }
  isEOF s := ((TlsSocket.isEOF s.reading).1, { s with reading := (TlsSocket.isEOF s.reading).2 })
  send := TlsChannel.send
  setBlocking := TlsChannel.setBlocking
  getLastUse s := s.reading.connection.lastUse

end LibSiot
