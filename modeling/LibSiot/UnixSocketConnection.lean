/-
Module: LibSiot.UnixSocketConnection
Purpose: `UNIXSocketConnection::Receive` and `IsEOF` as the source computes
  them, over a kernel that answers each `recv` as a script says.
Trusted boundary: human-reviewed model
Main exports: Errno, RecvReply, UnixSocketConnection,
  UnixSocketConnection.receive, unixSocketConnection
-/
import LibSiot.Connection

namespace LibSiot

/-- The error numbers `Receive` tells apart, and others it does not. -/
inductive Errno where
  | EBADF
  | EINVAL
  | ENOTCONN
  | EAGAIN
  | EINTR
  | ECONNRESET
  | other (code : Nat)
deriving Repr, DecidableEq

/-- The flag that makes `recv` leave the bytes it returns in the socket. -/
def MSG_PEEK : UInt32 := 2

/-- How one `recv` ends: with at most `limit` of the bytes waiting, or with -1
and an error number. -/
inductive RecvResult where
  | bytes (limit : Nat)
  | error (errno : Errno)
deriving Repr, DecidableEq

/-- One answer of the kernel to `recv`, and the time read right after it. -/
structure RecvReply where
  result : RecvResult
  now : UInt64
deriving Repr, DecidableEq

/-- The fields of class `UNIXSocketConnection` that reading uses, and the
kernel behind its descriptor: the bytes the peer sent that were not taken yet,
and how the coming `recv` calls are answered.  A `recv` beyond the script has
not returned. -/
structure UnixSocketConnection where
  input : Bytes
  replies : List RecvReply
  eof : Bool
  lastUse : UInt64
deriving Repr, DecidableEq

namespace UnixSocketConnection

/-- The constructor, at time `now`. -/
def new (input : Bytes) (replies : List RecvReply) (now : UInt64) : UnixSocketConnection :=
  { input := input, replies := replies, eof := false, lastUse := now }

/-- The length of the buffer `Receive` reads into. -/
def bufferLength (maxlen : UInt64) : UInt64 :=
  if maxlen ≤ 0 ∨ maxlen > 65536 then 65536 else maxlen

/-- The bytes one `recv` into a buffer of `len` bytes returns. -/
def recvBytes (limit : Nat) (len : UInt64) (c : UnixSocketConnection) : Bytes :=
  c.input.take (min limit len.toNat)

/-- `UNIXSocketConnection::Receive`. -/
def receive (maxlen : UInt64) (flags : UInt32) (c : UnixSocketConnection) :
    Outcome UnixSocketConnection Bytes :=
  match c.replies with
  | [] => .running
  | ⟨.bytes limit, now⟩ :: replies =>
      let data := recvBytes limit (bufferLength maxlen) c
      .returned data
        { c with
          input := if flags &&& MSG_PEEK = 0 then c.input.drop data.length else c.input
          replies := replies
          lastUse := now }
  | ⟨.error errno, now⟩ :: replies =>
      .returned []
        { c with
          replies := replies
          eof := c.eof || errno ∈ [Errno.EBADF, Errno.EINVAL, Errno.ENOTCONN]
          lastUse := now }

/-- `UNIXSocketConnection::IsEOF`. -/
def isEOF (c : UnixSocketConnection) : Bool × UnixSocketConnection :=
  (c.eof, c)

/-- `UNIXSocketConnection::Shutdown`, as far as reading can tell. -/
def shutdown (c : UnixSocketConnection) : Outcome UnixSocketConnection Unit :=
  .returned () { c with eof := true }

end UnixSocketConnection

/-- The socket connection as an object. -/
def unixSocketConnection : Connection UnixSocketConnection where
  receive := UnixSocketConnection.receive
  isEOF := UnixSocketConnection.isEOF

end LibSiot
