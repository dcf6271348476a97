/-
Module: LibSiot.Proofs.Server.NewConnection
Purpose: Connections as they are accepted, while no constructor fails: they are
  numbered in the order in which they are made, only the listening thread
  registers them, and it registers each once, for its own descriptor.
Trusted boundary: none
Main exports: ServerConfig.Numbered, ServerConfig.Numbered.step
-/
import LibSiot.Proofs.Server.LockInvariant

namespace LibSiot

open Interleaving (Flow)
open Interleaving.Machine (pushes AllOps)

namespace ServerState

variable {n : Nat} {t : Tid n} {e : Choice} {s s' : ServerState n} {op : Op}
  {flow : Flow Op}

/-! ### One step -/

/-- The history only grows. -/
theorem Rule.trace_mono (rule : Rule t e s op flow s') : s.trace ⊆ s'.trace := by
  cases rule with
  | constructorThrew | decoratedNull | decorated | indeterminateDecorated | lookupHangup
  | reapExpired | call | callbackDefers | shutdown | erase | delete | userDefers =>
      exact List.subset_cons_self _ _
  | _ => exact fun _ => id

/-- Connections get into the pool only by `AddDecorators`. -/
theorem Rule.entry_added (rule : Rule t e s op flow s') (other : op.adds = false) {fd : Nat}
    {conn : Handle} (entry : s'.connections.lookup fd = some (some conn)) :
    s.connections.lookup fd = some (some conn) := by
  cases rule with
  | decoratorsThrew | decoratedNull | decorated | indeterminateThrew
  | indeterminateDecorated => cases other
  | lookupMissing fd' events missing =>
      simp only [OrderedMap.lookup_insert] at entry
      split at entry
      · cases entry
      · exact entry
  | erase fd' =>
      simp only [record, OrderedMap.lookup_erase] at entry
      split at entry
      · cases entry
      · exact entry
  | _ => exact entry

/-- Connections stay made, and at their descriptors. -/
theorem Rule.numbered (rule : Rule t e s op flow s') {accept : Nat}
    (accepted : accept < s.nextAccept) :
    accept < s'.nextAccept ∧ s'.socket accept = s.socket accept := by
  cases rule with
  | constructed =>
      exact ⟨Nat.lt_succ_of_lt accepted, Function.update_of_ne (Nat.ne_of_lt accepted) ..⟩
  | _ => exact ⟨accepted, rfl⟩

/-- How the server was set up does not change. -/
theorem Rule.same_setup (rule : Rule t e s op flow s') :
    s'.ssl = s.ssl ∧ s'.serverfd = s.serverfd := by
  cases rule <;> exact ⟨rfl, rfl⟩

/-- A constructor leaves the pool as it is. -/
theorem Rule.construct_connections {fd : Nat} (rule : Rule t e s (.construct fd) flow s') :
    s'.connections = s.connections := by
  cases rule <;> rfl

/-- What `AddDecorators` gets comes from the constructor, if this does not fail. -/
theorem Rule.adds_constructed (rule : Rule t e s op flow s')
    (succeeds : op.constructs = true → s.ssl = true → OpenSSLConnection.construct e.ssl = .ok ())
    {fd : Nat} {pointer : Pointer} (member : .addDecorators fd pointer ∈ pushes flow) :
    ∃ raw, pointer = .constructed raw := by
  cases pointer with
  | constructed raw => exact ⟨raw, rfl⟩
  | indeterminate =>
      have adds : Op.adds (.addDecorators fd .indeterminate) = true := rfl
      have common := fun spreads => rule.common_of_pushed spreads _ member
      cases rule with
      | constructed => simp [pushes, afterConstruct] at member
      | constructorThrew clientfd error encrypted threw =>
          rw [succeeds rfl encrypted] at threw
          cases threw
      | takeTask | callbackUses | shutdown | deregister | drain | userUses => cases common rfl
      | _ => exact absurd adds (List.any_eq_false.mp rfl _ member)

/-- `AddDecorators` is pushed with what follows it. -/
theorem Rule.adds_followed (rule : Rule t e s op flow s') {pre between : List Op} {fd : Nat}
    {conn : Pointer} (pushed : pushes flow = pre ++ .addDecorators fd conn :: between) :
    between = [.unlock .connections false, .clearEvents, .epollAdd fd conn] := by
  have adds : Op.adds (.addDecorators fd conn) = true := rfl
  have member : .addDecorators fd conn ∈ pushes flow :=
    pushed ▸ List.mem_append_right _ List.mem_cons_self
  have common := fun spreads => rule.common_of_pushed spreads _ member
  cases rule with
  | constructed | constructorThrew =>
      match pre, pushed with
      | [], pushed => cases (List.cons.inj pushed).1
      | [_], pushed =>
          have same := (List.cons.inj pushed).2
          cases (List.cons.inj same).1
          exact (List.cons.inj same).2.symm
      | _ :: _ :: pre, pushed =>
          have late := congrArg (List.any · Op.adds) (List.cons.inj (List.cons.inj pushed).2).2
          simp [Op.adds] at late
  | takeTask | callbackUses | shutdown | deregister | drain | userUses => cases common rfl
  | _ => exact absurd adds (List.any_eq_false.mp rfl _ member)

/-- The object that `AddDecorators` is about to get is a socket object at the
descriptor, and nothing of its connection is in the pool. -/
structure Fresh (s : ServerState n) (fd : Nat) (raw : Handle) : Prop where
  level : raw.level = 0
  accepted : raw.accept < s.nextAccept
  socket : s.socket raw.accept = fd
  absent : ∀ fd' conn, s.connections.lookup fd' = some (some conn) → conn.accept ≠ raw.accept

end ServerState

namespace ServerConfig

open ServerState

variable {n : Nat}

/-! ### The invariant -/

/-- What is registered has a number, and what is about to be registered is new. -/
structure Numbered (c : ServerConfig n) : Prop where
  listens : AllOps (fun _ t op => op.listens = true → t = .listen) c
  ordered : ∀ t, (c.prog t).Pairwise fun a b => a.precedes b = true
  adding : AllOps (fun s _ op => ∀ fd pointer, op = .addDecorators fd pointer →
    ∃ raw, pointer = .constructed raw ∧ s.Fresh fd raw) c
  pool : ∀ fd conn, c.shared.connections.lookup fd = some (some conn) →
    conn.accept < c.shared.nextAccept ∧ c.shared.socket conn.accept = fd

theorem Numbered.init (serverfd : Nat) (ssl : Bool) (maxIdle : Int32) :
    Numbered (init n serverfd ssl maxIdle) where
  listens := forall_init (fun _ => rfl) nofun (fun _ => nofun) nofun
  ordered t := by
    cases t <;> exact Op.pairwise_of_free (List.all_eq_true.mp rfl)
  adding := forall_init nofun nofun (fun _ => nofun) nofun
  pool fd conn entry := by cases entry

variable {c c' : ServerConfig n} {t : Tid n} {e : Choice} {op : Op} {rest : List Op}
  {flow : Flow Op}

namespace Numbered

theorem determinate (inv : Numbered c) (taken : Taken c c' t e op rest flow) (fd : Nat) :
    op ≠ .addDecorators fd .indeterminate := by
  rintro rfl
  obtain ⟨raw, impossible, _⟩ := inv.adding t _ taken.first fd _ rfl
  cases impossible

theorem step_ordered (inv : Numbered c) (taken : Taken c c' t e op rest flow) (t' : Tid n) :
    (c'.prog t').Pairwise fun a b => a.precedes b = true := by
  by_cases same : t' = t
  · subst same
    rw [taken.self]
    exact taken.rule.pairwise_precedes (taken.program ▸ inv.ordered t')
  · rw [taken.other same]
    exact inv.ordered t'

/-- While the listening thread registers a connection, nobody else is about to. -/
theorem not_adding (inv : Numbered c) (taken : Taken c c' t e op rest flow)
    (adds : op.adds = true) {t' : Tid n} {fd : Nat} {pointer : Pointer}
    (old : (t' = t ∧ .addDecorators fd pointer ∈ rest) ∨
      (t' ≠ t ∧ .addDecorators fd pointer ∈ c.prog t')) : False := by
  have listens : op.listens = true := by cases op <;> first | rfl | cases adds
  have after : op.precedes (.addDecorators fd pointer) = false := by
    apply decide_eq_false
    rintro rfl
    cases adds
  exact taken.not_follows inv.listens inv.ordered listens rfl after old

theorem step_adding (inv : Numbered c) (taken : Taken c c' t e op rest flow)
    (succeed : ConstructorsSucceed c t e) :
    AllOps (fun s _ op => ∀ fd pointer, op = .addDecorators fd pointer →
      ∃ raw, pointer = .constructed raw ∧ s.Fresh fd raw) c' := by
  rintro t' _ member fd pointer rfl
  rcases taken.mem member with ⟨rfl, pushed⟩ | old
  · obtain ⟨raw, rfl⟩ := taken.rule.adds_constructed (succeed.of_prog taken.program) pushed
    obtain ⟨rfl, made, next, _, socket⟩ := taken.rule.adds pushed
    refine ⟨raw, rfl, by rw [made], ?_, socket, fun fd' conn entry => ?_⟩
    · rw [next, made]
      exact Nat.lt_succ_self _
    · rw [taken.rule.construct_connections] at entry
      rw [made]
      exact Nat.ne_of_lt (inv.pool fd' conn entry).1
  · have there : .addDecorators fd pointer ∈ c.prog t' := by
      rcases old with ⟨rfl, later⟩ | ⟨_, there⟩
      · exact taken.program ▸ List.mem_cons_of_mem _ later
      · exact there
    obtain ⟨raw, same, fresh⟩ := inv.adding t' _ there fd pointer rfl
    obtain ⟨accepted, socket⟩ := taken.rule.numbered fresh.accepted
    have other : op.adds = false :=
      Bool.eq_false_of_not_eq_true fun adds => inv.not_adding taken adds old
    exact ⟨raw, same, fresh.level, accepted, socket.trans fresh.socket,
      fun fd' conn entry => fresh.absent fd' conn (taken.rule.entry_added other entry)⟩

/-- An entry was there before, or is of the connection that `AddDecorators` got. -/
theorem entry_old (inv : Numbered c) (taken : Taken c c' t e op rest flow) {fd : Nat}
    {conn : Handle} (entry : c'.shared.connections.lookup fd = some (some conn)) :
    (c.shared.connections.lookup fd = some (some conn) ∧ op ≠ .erase fd) ∨
      ∃ raw : Handle, op = .addDecorators fd (.constructed raw) ∧ conn.accept = raw.accept ∧
        c.shared.Fresh fd raw := by
  rcases taken.rule.entry_old (inv.determinate taken) entry with old | ⟨raw, rfl, same, _⟩
  · exact Or.inl old
  · obtain ⟨_, pointer, fresh⟩ := inv.adding t _ taken.first fd _ rfl
    cases pointer
    exact Or.inr ⟨raw, rfl, same, fresh⟩

theorem step_pool (inv : Numbered c) (taken : Taken c c' t e op rest flow) (fd : Nat)
    (conn : Handle) (entry : c'.shared.connections.lookup fd = some (some conn)) :
    conn.accept < c'.shared.nextAccept ∧ c'.shared.socket conn.accept = fd := by
  rcases inv.entry_old taken entry with ⟨old, _⟩ | ⟨raw, _, same, fresh⟩
  · obtain ⟨accepted, socket⟩ := inv.pool fd conn old
    obtain ⟨accepted', socket'⟩ := taken.rule.numbered accepted
    exact ⟨accepted', socket'.trans socket⟩
  · rw [same]
    obtain ⟨accepted, socket⟩ := taken.rule.numbered fresh.accepted
    exact ⟨accepted, socket.trans fresh.socket⟩

/-- A step whose constructor succeeds keeps the invariant. -/
theorem step (inv : Numbered c) (taken : Taken c c' t e op rest flow)
    (succeed : ConstructorsSucceed c t e) : Numbered c' where
  listens := taken.listens inv.listens
  ordered := inv.step_ordered taken
  adding := inv.step_adding taken succeed
  pool := inv.step_pool taken

/-- Two entries are not of the same connection. -/
theorem fd_eq (inv : Numbered c) {fd fd' : Nat} {conn conn' : Handle}
    (entry : c.shared.connections.lookup fd = some (some conn))
    (entry' : c.shared.connections.lookup fd' = some (some conn'))
    (same : conn'.accept = conn.accept) : fd' = fd := by
  rw [← (inv.pool fd conn entry).2, ← (inv.pool fd' conn' entry').2, same]

end Numbered

end ServerConfig

end LibSiot
