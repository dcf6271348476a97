/-
Module: LibSiot.Proofs.OpenSSLConnection
Purpose: Whether reads of a TLS connection that does not block make progress: they
  hand out what OpenSSL has decrypted already, and nothing ever moves a record
  from the socket.
Trusted boundary: none
Main exports: OpenSSL.Documented, OpenSSLConnection.receive_decrypted,
  OpenSSLConnection.receive_dry, OpenSSLConnection.nonblocking_run,
  OpenSSLConnection.Progresses, OpenSSLConnection.progresses_iff
-/
import LibSiot.OpenSSLConnection

namespace LibSiot

/-- What the code relies on: while decrypted bytes are left, `SSL_read` hands out the
front of these, as much as the buffer takes, and leaves the socket alone. -/
structure OpenSSL.Documented (ssl : OpenSSL) : Prop where
  read_decrypted : ∀ {len : Nat} {handle : SslHandle}, 0 < len → handle.decrypted ≠ [] →
    ∃ positive, ssl.read len handle = some
      (.bytes (handle.decrypted.take len) positive,
        { handle with decrypted := handle.decrypted.drop len })

namespace OpenSSLConnection

/-! ### One read -/

/-- With decrypted bytes left the buffer is never empty. -/
theorem readLength_pos {pending : Nat} (left : 0 < pending) (maxlen : UInt64) :
    0 < readLength pending maxlen := by
  have some : ¬ pending ≤ 0 := by omega
  simp only [readLength, if_neg some]
  split
  · rename_i limited
    exact UInt64.lt_iff_toNat_lt.mp limited.1
  · exact left

section Reads

variable {ssl : OpenSSL} {c : OpenSSLConnection} (call : ReceiveCall)

/-- A read with decrypted bytes left returns at least one of them, in either mode. -/
theorem receive_decrypted (documented : ssl.Documented) (left : c.sslHandle.decrypted ≠ []) :
    ∃ len, 0 < len ∧ c.receive ssl call = .returned (c.sslHandle.decrypted.take len)
      { c with
        sslHandle := { c.sslHandle with decrypted := c.sslHandle.decrypted.drop len }
        lastUse := call.now } := by
  have pending : 0 < c.sslHandle.decrypted.length := List.length_pos_iff.mpr left
  have positive := readLength_pos pending call.maxlen
  obtain ⟨_, read⟩ := documented.read_decrypted positive left
  have asks : ¬ (c.sslHandle.decrypted.length = 0 ∧ c.blocking = false) := by omega
  exact ⟨_, positive, by simp only [receive, asks, if_false, read]⟩

/-- With none left, a read that does not block returns nothing, whatever waits on the
socket, and only the time of the last use changes. -/
theorem receive_dry (nonblocking : c.blocking = false) (dry : c.sslHandle.decrypted = []) :
    c.receive ssl call = .returned [] { c with lastUse := call.now } := by
  simp [receive, nonblocking, dry]

/-- What a read that does not block can do: it takes bytes from the decrypted ones, at
least one if there are any, and never from the socket. -/
theorem receive_nonblocking (documented : ssl.Documented) (nonblocking : c.blocking = false) :
    ∃ data c', c.receive ssl call = .returned data c' ∧ c'.blocking = false ∧
      data ++ c'.sslHandle.decrypted = c.sslHandle.decrypted ∧
      c'.sslHandle.records = c.sslHandle.records ∧
      c'.sslHandle.decrypted.length ≤ c.sslHandle.decrypted.length - 1 := by
  by_cases dry : c.sslHandle.decrypted = []
  · refine ⟨_, _, receive_dry call nonblocking dry, nonblocking, rfl, rfl, ?_⟩
    simp [dry]
  · obtain ⟨len, positive, read⟩ := receive_decrypted call documented dry
    refine ⟨_, _, read, nonblocking, List.take_append_drop _ _, rfl, ?_⟩
    rw [List.length_drop]
    omega

end Reads

/-! ### A run of arrivals and reads -/

/-- The record an event brings. -/
def arrival : TlsEvent → Option Bytes
  | .arrival record => some record
  | .receive _ => none

/-- The event is a read. -/
def isReceive : TlsEvent → Bool
  | .arrival _ => false
  | .receive _ => true

/-- The records that events bring, in order. -/
def arrivals (events : List TlsEvent) : List Bytes :=
  events.filterMap arrival

@[simp] theorem arrivals_nil : arrivals [] = [] := rfl

@[simp] theorem arrivals_arrival_cons (record : Bytes) (events : List TlsEvent) :
    arrivals (.arrival record :: events) = record :: arrivals events := rfl

@[simp] theorem arrivals_receive_cons (call : ReceiveCall) (events : List TlsEvent) :
    arrivals (.receive call :: events) = arrivals events := rfl

@[simp] theorem arrivals_calls (calls : List ReceiveCall) :
    arrivals (calls.map .receive) = [] := by
  induction calls with
  | nil => rfl
  | cons call calls ih => exact ih

@[simp] theorem arrivals_append (first second : List TlsEvent) :
    arrivals (first ++ second) = arrivals first ++ arrivals second :=
  List.filterMap_append ..

/-- How many of the events are reads. -/
def reads (events : List TlsEvent) : Nat :=
  events.countP isReceive

/-- The run `events` of a connection that does not block returns `results` and leaves
`c'`: the reads return the front of what was decrypted, each at least one byte of it,
and all records that waited or arrived wait still. -/
structure NonblockingRun (c : OpenSSLConnection) (events : List TlsEvent)
    (results : List (Except ClientConnectionException Bytes)) (c' : OpenSSLConnection) :
    Prop where
  blocking : c'.blocking = false
  returned : (returnedValues results).flatten ++ c'.sslHandle.decrypted = c.sslHandle.decrypted
  waiting : c'.sslHandle.records = c.sslHandle.records ++ arrivals events
  left : c'.sslHandle.decrypted.length ≤ c.sslHandle.decrypted.length - reads events

/-- Every run of a connection that does not block ends, and is such a run. -/
theorem nonblocking_run {ssl : OpenSSL} (documented : ssl.Documented) (events : List TlsEvent)
    {c : OpenSSLConnection} (nonblocking : c.blocking = false) :
    ∃ results c', callAll (step ssl) events c = some (results, c') ∧
      NonblockingRun c events results c' := by
  induction events generalizing c with
  | nil => exact ⟨[], c, rfl, nonblocking, rfl, by simp, Nat.le_refl _⟩
  | cons event events ih =>
      cases event with
      | arrival record =>
          obtain ⟨results, c', run, rest⟩ := ih (c := c.arrive record) nonblocking
          refine ⟨.ok [] :: results, c', ?_, rest.blocking, ?_, ?_, ?_⟩
          · simp only [callAll, step, run, Option.map_some]
          · exact rest.returned
          · simpa [arrive] using rest.waiting
          · exact rest.left
      | receive call =>
          obtain ⟨data, next, read, still, taken, records, shorter⟩ :=
            receive_nonblocking call documented nonblocking
          obtain ⟨results, c', run, rest⟩ := ih still
          refine ⟨.ok data :: results, c', ?_, rest.blocking, ?_, ?_, ?_⟩
          · simp only [callAll, step, read, run, Option.map_some]
          · rw [returnedValues_ok_cons, List.flatten_cons, List.append_assoc, rest.returned, taken]
          · rw [rest.waiting, records, arrivals_receive_cons]
          · have count : reads (.receive call :: events) = reads events + 1 :=
              List.countP_cons_of_pos rfl
            have left := rest.left
            omega

theorem reads_append_calls (events : List TlsEvent) (calls : List ReceiveCall) :
    reads (events ++ calls.map .receive) = reads events + calls.length := by
  have all : (calls.map TlsEvent.receive).countP isReceive = calls.length := by
    rw [List.countP_map, List.countP_eq_length]
    exact fun _ _ => rfl
  rw [reads, List.countP_append, all, reads]

/-- As many further reads as bytes are left return all that was decrypted, and no more. -/
theorem NonblockingRun.drained {c c' : OpenSSLConnection} {events : List TlsEvent}
    {calls : List ReceiveCall} {results : List (Except ClientConnectionException Bytes)}
    (run : NonblockingRun c (events ++ calls.map .receive) results c')
    (enough : c.sslHandle.decrypted.length ≤ calls.length) :
    c'.sslHandle.decrypted = [] ∧ (returnedValues results).flatten = c.sslHandle.decrypted := by
  have dry : c'.sslHandle.decrypted = [] := by
    have left := run.left
    rw [reads_append_calls] at left
    apply List.length_eq_zero_iff.mp
    omega
  have returned := run.returned
  rw [dry, List.append_nil] at returned
  exact ⟨dry, returned⟩

/-! ### Progress -/

/-- Records wait on the socket, but whatever reads are made from here on, each returns
the empty string. -/
def Stalled (ssl : OpenSSL) (c : OpenSSLConnection) : Prop :=
  c.sslHandle.records ≠ [] ∧
    ∀ calls, ∃ c',
      callAll (receive ssl) calls c = some (List.replicate calls.length (.ok []), c')

/-- Reading makes progress after `events`, when no more records arrive: some number of
further reads suffices to return all bytes that were there or arrived, in order, and
the connection is not stalled, now or after any further reads. -/
structure Progresses (ssl : OpenSSL) (c : OpenSSLConnection) (events : List TlsEvent) :
    Prop where
  allReturned : ∃ enough, ∀ calls : List ReceiveCall, enough ≤ calls.length →
    ∃ results c', callAll (step ssl) (events ++ calls.map .receive) c = some (results, c') ∧
      (returnedValues results).flatten =
        c.sslHandle.decrypted ++ (c.sslHandle.records ++ arrivals events).flatten
  neverStalls : ∀ (calls : List ReceiveCall) results c',
    callAll (step ssl) (events ++ calls.map .receive) c = some (results, c') →
      ¬ Stalled ssl c'

section Progress

variable {ssl : OpenSSL} {c : OpenSSLConnection}

/-- Once the decrypted bytes are used up, a record that waits is never read. -/
theorem stalled_of_dry (nonblocking : c.blocking = false) (dry : c.sslHandle.decrypted = [])
    (waits : c.sslHandle.records ≠ []) : Stalled ssl c := by
  refine ⟨waits, fun calls => ?_⟩
  clear waits
  induction calls generalizing c with
  | nil => exact ⟨c, rfl⟩
  | cons call calls ih =>
      obtain ⟨c', run⟩ := ih (c := { c with lastUse := call.now }) nonblocking dry
      refine ⟨c', ?_⟩
      simp only [callAll, receive_dry call nonblocking dry, run, Option.map_some, List.length_cons,
        List.replicate_succ]

/-- All bytes are returned exactly if those not decrypted at the start are none. -/
theorem allReturned_iff (documented : ssl.Documented) (nonblocking : c.blocking = false)
    (events : List TlsEvent) :
    (∃ enough, ∀ calls : List ReceiveCall, enough ≤ calls.length →
      ∃ results c', callAll (step ssl) (events ++ calls.map .receive) c = some (results, c') ∧
        (returnedValues results).flatten =
          c.sslHandle.decrypted ++ (c.sslHandle.records ++ arrivals events).flatten) ↔
      (c.sslHandle.records ++ arrivals events).flatten = [] := by
  constructor
  · rintro ⟨enough, all⟩
    let calls : List ReceiveCall :=
      List.replicate (enough + c.sslHandle.decrypted.length) ⟨sizeMax, 0, 0⟩
    have length : calls.length = enough + c.sslHandle.decrypted.length := List.length_replicate
    obtain ⟨results, c', run, whole⟩ := all calls (by omega)
    obtain ⟨results', c'', run', made⟩ :=
      nonblocking_run documented (events ++ calls.map .receive) nonblocking
    obtain ⟨rfl, rfl⟩ := Prod.mk.inj (Option.some.inj (run.symm.trans run'))
    rw [(made.drained (by omega)).2] at whole
    exact List.self_eq_append_right.mp whole
  · intro none
    refine ⟨c.sslHandle.decrypted.length, fun calls enough => ?_⟩
    obtain ⟨results, c', run, made⟩ :=
      nonblocking_run documented (events ++ calls.map .receive) nonblocking
    refine ⟨results, c', run, ?_⟩
    rw [none, List.append_nil, (made.drained enough).2]

/-- The connection never stalls exactly if no record waits or arrives. -/
theorem neverStalls_iff (documented : ssl.Documented) (nonblocking : c.blocking = false)
    (events : List TlsEvent) :
    (∀ (calls : List ReceiveCall) results c',
      callAll (step ssl) (events ++ calls.map .receive) c = some (results, c') →
        ¬ Stalled ssl c') ↔
      c.sslHandle.records ++ arrivals events = [] := by
  constructor
  · intro never
    by_contra some
    let calls : List ReceiveCall :=
      List.replicate c.sslHandle.decrypted.length ⟨sizeMax, 0, 0⟩
    have length : calls.length = c.sslHandle.decrypted.length := List.length_replicate
    obtain ⟨results, c', run, made⟩ :=
      nonblocking_run documented (events ++ calls.map .receive) nonblocking
    have waits : c'.sslHandle.records ≠ [] := by
      simpa [made.waiting] using some
    have dry := (made.drained (Nat.le_of_eq length.symm)).1
    exact never calls results c' run (stalled_of_dry made.blocking dry waits)
  · intro none calls results c' run stalled
    obtain ⟨results', c'', run', made⟩ :=
      nonblocking_run documented (events ++ calls.map .receive) nonblocking
    obtain ⟨rfl, rfl⟩ := Prod.mk.inj (Option.some.inj (run.symm.trans run'))
    apply stalled.1
    simpa [made.waiting] using none

end Progress

/-- Reads of a connection set to non-blocking make progress exactly if no record waits
on the socket then and none arrives later: what had been decrypted is all they return. -/
theorem progresses_iff {ssl : OpenSSL} (documented : ssl.Documented) (c : OpenSSLConnection)
    (events : List TlsEvent) :
    Progresses ssl (c.setBlocking false) events ↔
      c.sslHandle.records = [] ∧ arrivals events = [] := by
  have nonblocking : (c.setBlocking false).blocking = false := rfl
  constructor
  · intro progresses
    have none := (neverStalls_iff documented nonblocking events).mp progresses.neverStalls
    exact List.append_eq_nil_iff.mp none
  · intro none
    have none : (c.setBlocking false).sslHandle.records ++ arrivals events = [] :=
      List.append_eq_nil_iff.mpr none
    constructor
    · apply (allReturned_iff documented nonblocking events).mpr
      rw [none, List.flatten_nil]
    · exact (neverStalls_iff documented nonblocking events).mpr none

/-- OpenSSL reading one record at a time: the next that is not empty, when no decrypted
bytes are left. -/
def recordByRecord : OpenSSL where
  read len handle :=
    let next : SslHandle :=
      match handle.decrypted, handle.records.dropWhile List.isEmpty with
      | [], record :: records => { decrypted := record, records := records }
      | decrypted, _ => { handle with decrypted := decrypted }
    if positive : next.decrypted.take len ≠ [] then
      some (.bytes (next.decrypted.take len) positive,
        { next with decrypted := next.decrypted.drop len })
    else none

theorem recordByRecord_documented : recordByRecord.Documented where
  read_decrypted := by
    intro len handle positive left
    obtain ⟨byte, bytes, decrypted⟩ := List.exists_cons_of_ne_nil left
    have taken : handle.decrypted.take len ≠ [] := by
      intro none
      rcases List.take_eq_nil_iff.mp none with zero | empty
      · omega
      · exact left empty
    refine ⟨taken, ?_⟩
    simp only [recordByRecord, decrypted] at taken ⊢
    rw [dif_pos taken]

/-- The connection after the handshake, nothing decrypted and nothing waiting. -/
def accepted : OpenSSLConnection :=
  { sslHandle := { decrypted := [], records := [] }, blocking := true, lastUse := 0 }

/-- What was decrypted before the connection was set to non-blocking is returned. -/
theorem progresses_of_decrypted :
    Progresses recordByRecord
      ({ accepted with sslHandle := { decrypted := [1, 2, 3], records := [] } }.setBlocking false)
      [.receive ⟨2, 0, 7⟩] :=
  (progresses_iff recordByRecord_documented _ _).mpr ⟨rfl, rfl⟩

/-- A request of one record that reaches a connection set to non-blocking is never
returned. -/
theorem progresses_fails :
    ¬ Progresses recordByRecord (accepted.setBlocking false) [.arrival [1, 2, 3]] := by
  intro progresses
  have nonblocking : (accepted.setBlocking false).blocking = false := rfl
  have none := (neverStalls_iff recordByRecord_documented nonblocking _).mp progresses.neverStalls
  exact absurd none (by decide)

end OpenSSLConnection

end LibSiot
