/-
Module: LibSiot.OpenSSLConnection
Purpose: The constructor of `OpenSSLConnection`: the calls into OpenSSL it makes
  in order, and the exception it throws at the first that fails; and its reads,
  over what OpenSSL has decrypted and the records that wait on the socket, one
  event at a time or as a connection that decorators wrap.
Trusted boundary: human-reviewed model
Main exports: SslReplies, OpenSSLConnection.construct, SslHandle, OpenSSL,
  OpenSSLConnection, OpenSSLConnection.receive, OpenSSLConnection.step, TlsSocket,
  opensslConnection
-/
import LibSiot.Connection

namespace LibSiot

/-- What the OpenSSL calls of one constructor return.  `error` is the result of
`ERR_get_error`, asked for when `SSL_new` gives no handle, and `errorString` the
text of `ERR_error_string`. -/
structure SslReplies where
  useCertificateFile : Int := 1
  usePrivateKeyFile : Int := 1
  new : Bool := true
  error : Int := 0
  setFd : Int := 1
  accept : Int := 1
  errorString : String := ""
deriving Repr, DecidableEq

namespace OpenSSLConnection

/-- The constructor `OpenSSLConnection(srv, socketid, peer, context)`. -/
def construct (r : SslReplies) : Except ClientConnectionException Unit :=
  if r.useCertificateFile ≤ 0 then
    .error
      { identifier := "SSL_CTX_use_certificate_file:" ++ toString r.useCertificateFile
        errmsg := r.errorString }
  else if r.usePrivateKeyFile ≤ 0 then
    .error
      { identifier := "SSL_CTX_use_PrivateKey_file:" ++ toString r.usePrivateKeyFile
        errmsg := r.errorString }
  else if r.new = false then
    -- The source names the next call here, `SSL_set_fd`, not `SSL_new`.
    .error { identifier := "SSL_set_fd:" ++ toString r.error, errmsg := r.errorString }
  else if r.setFd ≤ 0 then
    .error { identifier := "SSL_set_fd:" ++ toString r.setFd, errmsg := r.errorString }
  else if r.accept ≤ 0 then
    .error { identifier := "SSL_accept:" ++ toString r.accept, errmsg := r.errorString }
  else .ok ()

/-- The constructor succeeds exactly if every call does. -/
theorem construct_eq_ok {r : SslReplies} :
    construct r = .ok () ↔
      0 < r.useCertificateFile ∧ 0 < r.usePrivateKeyFile ∧ r.new = true ∧ 0 < r.setFd ∧
        0 < r.accept := by
  rw [construct]
  split_ifs with certificate privateKey handle fd handshake
  · simp only [false_iff]
    rintro ⟨positive, _⟩
    omega
  · simp only [false_iff]
    rintro ⟨_, positive, _⟩
    omega
  · simp [handle]
  · simp only [false_iff]
    rintro ⟨_, _, _, positive, _⟩
    omega
  · simp only [false_iff]
    rintro ⟨_, _, _, _, positive⟩
    omega
  · refine ⟨fun _ => ⟨?_, ?_, ?_, ?_, ?_⟩, fun _ => rfl⟩
    · omega
    · omega
    · simpa using handle
    · omega
    · omega

end OpenSSLConnection

/-! ### Reading -/

/-- What OpenSSL keeps for one handle: the bytes it has decrypted and not handed
out, which `SSL_pending` counts, and the records that wait on the socket, the
oldest first. -/
structure SslHandle where
  decrypted : Bytes
  records : List Bytes
deriving Repr, DecidableEq

/-- How one `SSL_read` ends: with bytes in the buffer, or with a result that is
not positive, of which `SSL_get_error` makes `errv`. -/
inductive SslReadResult where
  | bytes (data : Bytes) (positive : data ≠ [])
  | failed (errv : Nat) (errorString strerror : String)
deriving Repr, DecidableEq

/-- OpenSSL as far as reading goes: `SSL_read` into a buffer of the given length.
There is no result while it waits for the socket. -/
structure OpenSSL where
  read : Nat → SslHandle → Option (SslReadResult × SslHandle)

def SSL_ERROR_SYSCALL : Nat := 5

/-- The fields of class `OpenSSLConnection` that reading uses. -/
structure OpenSSLConnection where
  sslHandle : SslHandle
  blocking : Bool
  lastUse : UInt64
deriving Repr, DecidableEq

/-- The arguments of one `Receive`, and the time read in it. -/
structure ReceiveCall where
  maxlen : UInt64
  flags : UInt32
  now : UInt64
deriving Repr, DecidableEq

/-- What happens to a connection that is read: a record reaches the socket, or
some thread calls `Receive`.  The calls hold `ssl_mtx_`, so one follows the
other. -/
inductive TlsEvent where
  | arrival (record : Bytes)
  | receive (call : ReceiveCall)
deriving Repr, DecidableEq

namespace OpenSSLConnection

/-- `OpenSSLConnection::SetBlocking`.  It sets the field only; the socket stays as
it was. -/
def setBlocking (blocking : Bool) (c : OpenSSLConnection) : OpenSSLConnection :=
  { c with blocking := blocking }

/-- The length of the buffer `Receive` reads into. -/
def readLength (pending : Nat) (maxlen : UInt64) : Nat :=
  let len :=
    if pending ≤ 0 then
      if maxlen ≤ 0 ∨ maxlen > 65536 then 65536 else maxlen.toNat
    else pending
  if maxlen > 0 ∧ len > maxlen.toNat then maxlen.toNat else len

/-- The exception `Receive` throws when `SSL_read` fails. -/
def readError (errv : Nat) (errorString strerror : String) : ClientConnectionException :=
  if errv = SSL_ERROR_SYSCALL then
    { identifier := "SSL_read:" ++ strerror, errmsg := strerror }
  else { identifier := "SSL_read:" ++ toString errv, errmsg := errorString }

/-- `OpenSSLConnection::Receive`.  The flags are not looked at. -/
def receive (ssl : OpenSSL) (call : ReceiveCall) (c : OpenSSLConnection) :
    Outcome OpenSSLConnection Bytes :=
  let pending := c.sslHandle.decrypted.length
  if pending = 0 ∧ c.blocking = false then
    -- Whether a record waits on the socket is not asked.
    .returned [] { c with lastUse := call.now }
  else
    match ssl.read (readLength pending call.maxlen) c.sslHandle with
    | none => .running
    | some (.bytes data _, handle) =>
        .returned data { c with sslHandle := handle, lastUse := call.now }
    | some (.failed errv errorString strerror, handle) =>
        .threw (readError errv errorString strerror)
          { c with sslHandle := handle, lastUse := call.now }

/-- A record reaches the socket. -/
def arrive (record : Bytes) (c : OpenSSLConnection) : OpenSSLConnection :=
  { c with sslHandle := { c.sslHandle with records := c.sslHandle.records ++ [record] } }

/-- One event, as a call that returns the bytes read. -/
def step (ssl : OpenSSL) : TlsEvent → OpenSSLConnection → Outcome OpenSSLConnection Bytes
  | .arrival record, c => .returned [] (c.arrive record)
  | .receive call, c => c.receive ssl call

end OpenSSLConnection

/-! ### As a connection -/

/-- What happens to a connection between two reads: a record reaches the socket, or
`SetBlocking` is called. -/
inductive TlsChange where
  | arrival (record : Bytes)
  | setBlocking (blocking : Bool)
deriving Repr, DecidableEq

/-- What precedes one read, since the read before it, and the time read in it. -/
structure TlsReply where
  before : List TlsChange
  now : UInt64
deriving Repr, DecidableEq

/-- An `OpenSSLConnection` with what the coming reads find.  A read beyond that has not
returned. -/
structure TlsSocket where
  connection : OpenSSLConnection
  replies : List TlsReply
deriving Repr, DecidableEq

namespace OpenSSLConnection

/-- One change. -/
def change (c : OpenSSLConnection) : TlsChange → OpenSSLConnection
  | .arrival record => c.arrive record
  | .setBlocking blocking => c.setBlocking blocking

end OpenSSLConnection

namespace TlsSocket

/-- `OpenSSLConnection::Receive`, after what precedes it. -/
def receive (ssl : OpenSSL) (maxlen : UInt64) (flags : UInt32) (s : TlsSocket) :
    Outcome TlsSocket Bytes :=
  match s.replies with
  | [] => .running
  | reply :: replies =>
      let c := reply.before.foldl OpenSSLConnection.change s.connection
      match c.receive ssl ⟨maxlen, flags, reply.now⟩ with
      | .running => .running
      | .threw error c => .threw error { connection := c, replies := replies }
      | .returned data c => .returned data { connection := c, replies := replies }

/-- `IsEOF` is the one of `UNIXSocketConnection`: nothing sets its field, since only the
`Receive` of that class does. -/
def isEOF (s : TlsSocket) : Bool × TlsSocket :=
  (false, s)

end TlsSocket

/-- The TLS connection as an object. -/
def opensslConnection (ssl : OpenSSL) : Connection TlsSocket where
  receive := TlsSocket.receive ssl
  isEOF := TlsSocket.isEOF

end LibSiot
