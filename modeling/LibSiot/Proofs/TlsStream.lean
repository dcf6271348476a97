/-
Module: LibSiot.Proofs.TlsStream
Purpose: Reads of a TLS connection take the decrypted stream in order and lose
  nothing of it, however records arrive between them, whatever lengths they ask
  for, and however often the connection is set to block or not; and what a stack
  over it then gives.
Trusted boundary: none
Main exports: OpenSSL.InOrder, TlsSocket.toCome, TlsSocket.conserves,
  TlsSocket.honours, stack_over_tls
-/
import LibSiot.Proofs.OpenSSLConnection
import LibSiot.Proofs.StackStream

namespace LibSiot

open Stream' (Seq)
open UnixSocketConnection (single)

/-- The bytes of the stream that a handle has, decrypted or in records on the socket. -/
def SslHandle.stream (handle : SslHandle) : Bytes :=
  handle.decrypted ++ handle.records.flatten

/-- What the code relies on: `SSL_read` hands out the front of the stream, no more than the
buffer takes; a call that fails has handed out nothing of it. -/
structure OpenSSL.InOrder (ssl : OpenSSL) : Prop where
  bytes : ∀ {len : Nat} {handle handle' : SslHandle} {data : Bytes} {positive : data ≠ []},
    ssl.read len handle = some (.bytes data positive, handle') →
      data ++ handle'.stream = handle.stream ∧ data.length ≤ len
  failed : ∀ {len errv : Nat} {handle handle' : SslHandle} {errorString strerror : String},
    ssl.read len handle = some (.failed errv errorString strerror, handle') →
      handle'.stream = handle.stream

namespace OpenSSLConnection

/-- A limited read is into a buffer that is no longer than the limit. -/
theorem readLength_le (pending : Nat) {maxlen : UInt64} (limited : maxlen ≠ 0) :
    readLength pending maxlen ≤ maxlen.toNat := by
  have positive : maxlen > 0 := UInt64.pos_iff_ne_zero.mpr limited
  have cut : ∀ len : Nat,
      (if maxlen > 0 ∧ len > maxlen.toNat then maxlen.toNat else len) ≤ maxlen.toNat := by
    intro len
    split
    · exact Nat.le_refl _
    · rename_i short
      rw [not_and, Nat.not_lt] at short
      exact short positive
  exact cut _

variable {ssl : OpenSSL} {c c' : OpenSSLConnection} {call : ReceiveCall}

theorem receive_returned {data : Bytes} (inOrder : ssl.InOrder)
    (returned : c.receive ssl call = .returned data c') :
    data ++ c'.sslHandle.stream = c.sslHandle.stream ∧
      (call.maxlen ≠ 0 → data.length ≤ call.maxlen.toNat) := by
  rw [receive] at returned
  split at returned
  · cases returned
    exact ⟨rfl, fun _ => Nat.zero_le _⟩
  · split at returned
    · cases returned
    · rename_i read
      cases returned
      obtain ⟨split, short⟩ := inOrder.bytes read
      exact ⟨split, fun limited => Nat.le_trans short (readLength_le _ limited)⟩
    · cases returned

theorem receive_threw {error : ClientConnectionException} (inOrder : ssl.InOrder)
    (threw : c.receive ssl call = .threw error c') :
    c'.sslHandle.stream = c.sslHandle.stream := by
  rw [receive] at threw
  split at threw
  · cases threw
  · split at threw
    · cases threw
    · cases threw
    · rename_i read
      cases threw
      exact inOrder.failed read

/-- The bytes that a change brings. -/
def brought : TlsChange → Bytes
  | .arrival record => record
  | .setBlocking _ => []

/-- Records go to the end of the stream, whatever is between them. -/
theorem stream_changes (changes : List TlsChange) (c : OpenSSLConnection) :
    (changes.foldl change c).sslHandle.stream =
      c.sslHandle.stream ++ changes.flatMap brought := by
  induction changes generalizing c with
  | nil => simp
  | cons first changes ih =>
      rw [List.foldl_cons, ih, List.flatMap_cons, ← List.append_assoc]
      congr 1
      cases first with
      | arrival record => simp [change, arrive, SslHandle.stream, brought]
      | setBlocking blocking => simp [change, setBlocking, SslHandle.stream, brought]

theorem flatten_dropWhile_isEmpty (records : List Bytes) :
    (records.dropWhile List.isEmpty).flatten = records.flatten := by
  induction records with
  | nil => rfl
  | cons record records ih =>
      cases record with
      | nil => simpa using ih
      | cons byte record => rfl

/-- The handle once `SSL_read` has looked for a record. -/
def refilled (handle : SslHandle) : SslHandle :=
  match handle.decrypted, handle.records.dropWhile List.isEmpty with
  | [], record :: records => { decrypted := record, records := records }
  | decrypted, _ => { handle with decrypted := decrypted }

theorem stream_refilled (handle : SslHandle) : (refilled handle).stream = handle.stream := by
  obtain ⟨decrypted, records⟩ := handle
  have flat := flatten_dropWhile_isEmpty records
  cases decrypted with
  | nil =>
      cases nonempty : records.dropWhile List.isEmpty with
      | nil => simp only [refilled, nonempty]
      | cons record rest =>
          rw [nonempty] at flat
          simp only [refilled, nonempty, SslHandle.stream]
          exact flat
  | cons byte bytes => rfl

theorem recordByRecord_read (len : Nat) (handle : SslHandle) :
    recordByRecord.read len handle =
      if positive : (refilled handle).decrypted.take len ≠ [] then
        some (.bytes ((refilled handle).decrypted.take len) positive,
          { refilled handle with decrypted := (refilled handle).decrypted.drop len })
      else none := rfl

theorem recordByRecord_inOrder : recordByRecord.InOrder where
  bytes := by
    intro len handle handle' data positive read
    rw [recordByRecord_read] at read
    split at read
    · cases read
      refine ⟨?_, List.length_take_le _ _⟩
      rw [← stream_refilled handle, SslHandle.stream, SslHandle.stream, ← List.append_assoc,
        List.take_append_drop]
    · cases read
  failed := by
    intro len errv handle handle' errorString strerror read
    rw [recordByRecord_read] at read
    split at read <;> cases read

end OpenSSLConnection

namespace TlsSocket

/-- The bytes that the replies to come bring. -/
def toArrive (replies : List TlsReply) : Bytes :=
  replies.flatMap fun reply => reply.before.flatMap OpenSSLConnection.brought

/-- The stream still to come: what the handle has, and what will arrive. -/
def toCome (s : TlsSocket) : Bytes :=
  s.connection.sslHandle.stream ++ toArrive s.replies

variable {ssl : OpenSSL} {s s' : TlsSocket} {maxlen : UInt64} {flags : UInt32}

theorem receive_returned {data : Bytes} (inOrder : ssl.InOrder)
    (call : receive ssl maxlen flags s = .returned data s') :
    data ++ s'.toCome = s.toCome ∧ (maxlen ≠ 0 → data.length ≤ maxlen.toNat) := by
  rw [receive] at call
  split at call
  · cases call
  · rename_i reply replies script
    dsimp only at call
    split at call
    · cases call
    · cases call
    · rename_i returned
      cases call
      obtain ⟨split, short⟩ := OpenSSLConnection.receive_returned inOrder returned
      refine ⟨?_, short⟩
      rw [toCome, toCome, script, ← List.append_assoc, split,
        OpenSSLConnection.stream_changes, List.append_assoc]
      rfl

theorem receive_threw {error : ClientConnectionException} (inOrder : ssl.InOrder)
    (call : receive ssl maxlen flags s = .threw error s') : s'.toCome = s.toCome := by
  rw [receive] at call
  split at call
  · cases call
  · rename_i reply replies script
    dsimp only at call
    split at call
    · cases call
    · rename_i threw
      cases call
      rw [toCome, toCome, script, OpenSSLConnection.receive_threw inOrder threw,
        OpenSSLConnection.stream_changes, List.append_assoc]
      rfl
    · cases call

/-- A call and its result: a limited `Receive` gives no more than its limit, and `IsEOF`
is false. -/
def Bounded : ReadCall → Except ClientConnectionException ReadResult → Prop
  | .receive maxlen _, .ok (.received data) => maxlen ≠ 0 → data.length ≤ maxlen.toNat
  | .isEOF, .ok (.atEnd ended) => ended = false
  | _, _ => True

/-- Whatever is called, and whatever happens between the calls: what was received is the front
of the stream, and all the rest of it is still to come. -/
theorem conserves (inOrder : ssl.InOrder) {calls : List ReadCall}
    {results : List (Except ClientConnectionException ReadResult)}
    (run : callAll (opensslConnection ssl).answer calls s = some (results, s')) :
    (received results).flatten ++ s'.toCome = s.toCome ∧
      List.Forall₂ Bounded calls results := by
  refine callAll_induction (fun s calls results s' =>
    (received results).flatten ++ s'.toCome = s.toCome ∧ List.Forall₂ Bounded calls results)
    ?_ ?_ ?_ run
  · intro s
    exact ⟨rfl, .nil⟩
  · rintro s call value t calls results s' answered ⟨split, bounded⟩
    cases call with
    | isEOF =>
        cases answered
        exact ⟨split, .cons rfl bounded⟩
    | receive len flags =>
        simp only [Connection.answer] at answered
        split at answered
        · cases answered
        · cases answered
        · rename_i data s'' call
          cases answered
          obtain ⟨taken, short⟩ := receive_returned inOrder call
          refine ⟨?_, .cons short bounded⟩
          rw [received_received_cons, List.flatten_cons, List.append_assoc, split, taken]
  · rintro s call error t calls results s' answered ⟨split, bounded⟩
    cases call with
    | isEOF => cases answered
    | receive len flags =>
        simp only [Connection.answer] at answered
        split at answered
        · cases answered
        · rename_i call
          cases answered
          refine ⟨?_, .cons trivial bounded⟩
          rw [received_error_cons, split, receive_threw inOrder call]
        · cases answered

/-- Two records arrive before the first read and one before the last; at the second read the
connection does not block. -/
def threeRecords : TlsSocket :=
  { connection := OpenSSLConnection.accepted
    replies := [⟨[.arrival [97, 98], .arrival [99, 10]], 1⟩, ⟨[.setBlocking false], 2⟩,
      ⟨[.setBlocking true], 3⟩, ⟨[.arrival [100]], 4⟩] }

theorem conserves_of_records :
    ∃ s, (received [.ok (.received [97]), .ok (.received [98]), .ok (.atEnd false),
          .ok (.received [99, 10])]).flatten ++ toCome s = threeRecords.toCome ∧
      List.Forall₂ Bounded [.receive 1 0, .receive 5 0, .isEOF, .receive 0 0]
        [.ok (.received [97]), .ok (.received [98]), .ok (.atEnd false),
          .ok (.received [99, 10])] := by
  have run : ∃ s, callAll (opensslConnection OpenSSLConnection.recordByRecord).answer
      [.receive 1 0, .receive 5 0, .isEOF, .receive 0 0] threeRecords =
        some ([.ok (.received [97]), .ok (.received [98]), .ok (.atEnd false),
          .ok (.received [99, 10])], s) :=
    ⟨_, rfl⟩
  obtain ⟨s, run⟩ := run
  exact ⟨s, conserves OpenSSLConnection.recordByRecord_inOrder run⟩

/-- A TLS connection honours the contract that the decorators rely on. -/
theorem honours (inOrder : ssl.InOrder) :
    Honours (opensslConnection ssl) (fun _ => True) fun s => Seq.ofList s.toCome where
  receive := by
    intro k s s' data _ nonzero call
    obtain ⟨split, short⟩ := receive_returned inOrder call
    refine ⟨short nonzero, ?_, ?_, trivial⟩
    · rw [SeqPrefix.take_ofList, ← split, List.take_left]
    · rw [SeqPrefix.drop_ofList, ← split, List.drop_left]
  threw := by
    intro k s s' error _ _ call
    rw [receive_threw inOrder call]
    exact ⟨rfl, trivial⟩
  isEOF := by
    intro s s' atEnd _ call
    cases call
    exact ⟨rfl, fun ended => absurd ended (by decide), trivial⟩

theorem streams (inOrder : ssl.InOrder) :
    Streams (opensslConnection ssl) (fun _ => True) fun s => single s.toCome where
  isEOF := by
    intro s s' atEnd _ call
    cases call
    exact ⟨trivial, List.prefix_rfl⟩
  receive := by
    intro k flags s s' data _ _ call
    obtain ⟨split, short⟩ := receive_returned inOrder call
    exact ⟨trivial, _, .of_bytes split short⟩
  threw := by
    intro k flags s s' error _ _ call
    rw [receive_threw inOrder call]
    exact ⟨trivial, List.prefix_rfl⟩

end TlsSocket

/-- A stack over a TLS connection gives a front of the pieces that its levels supply of the
decrypted stream, each result made of whole pieces. -/
theorem stack_over_tls {ssl : OpenSSL} (inOrder : ssl.InOrder) {outOfRange : UInt8}
    (noCR : outOfRange ≠ CR) (fuel : Nat) (levels : List Level) (s : TlsSocket)
    {calls : List ReadCall} (taking : ∀ call ∈ calls, call.Takes)
    {results : List (Except ClientConnectionException ReadResult)}
    {st : StackState TlsSocket levels}
    (run : callAll (stack (opensslConnection ssl) outOfRange fuel levels).answer calls
      (.build true s levels) = some (results, st)) :
    ∃ groups : List (List Bytes), received results = groups.map List.flatten ∧
      groups.flatten <+: supplied levels s.toCome :=
  (TlsSocket.streams inOrder).stack_run noCR trivial rfl levels taking run

theorem stack_over_tls_of_line :
    ∃ groups : List (List Bytes),
      [[], [97, 98, 99, 10]] = groups.map List.flatten ∧
        groups.flatten <+: supplied [.lineBuffer true] TlsSocket.threeRecords.toCome := by
  have run : ∃ st,
      callAll
        (stack (opensslConnection OpenSSLConnection.recordByRecord) 0 9 [.lineBuffer true]).answer
        [.receive 3 0, .receive 3 0] (.build true TlsSocket.threeRecords [.lineBuffer true]) =
      some ([.ok (.received []), .ok (.received [97, 98, 99, 10])], st) :=
    ⟨_, rfl⟩
  obtain ⟨st, run⟩ := run
  exact stack_over_tls OpenSSLConnection.recordByRecord_inOrder (by decide) 9 [.lineBuffer true]
    TlsSocket.threeRecords (by decide) run

end LibSiot
