/-
Module: LibSiot.Proofs.Server.DispatchOrder
Purpose: The order in which the listening thread queues the callbacks of a
  connection, under any interleaving: `ConnectionEstablished` first, and after
  `ConnectionTerminated` nothing.
Trusted boundary: none
Main exports: ServerConfig.CallHistory, ServerConfig.advance,
  ServerConfig.InDispatchOrder, ServerConfig.Queueing
-/
import LibSiot.Proofs.Server.Removal

namespace LibSiot

open Interleaving (Flow)
open Interleaving.Machine (pushes AllOps pairwise_continuation continuation_split)

/-- The call that a task makes. -/
def Closure.calls : Closure → Option (Callback × Handle)
  | .lockCallAndUnlock callback conn => some (callback, conn)
  | .connectionTerminated conn => some (.connectionTerminated, conn)
  | .shutdown _ => none

namespace Op

/-- The call that an operation queues. -/
def queues : Op → Option (Callback × Handle)
  | .addTask task => task.calls
  | _ => none

/-- The operation is on the way to the queueing of a task. -/
def dispatches : Op → Bool
  | .addDecorators _ _ => true
  | .epollAdd _ _ => true
  | .find _ _ => true
  | .addTask _ => true
  | _ => false

/-- The operation may not come before one that is on that way. -/
def concludes : Op → Bool
  | .lock _ => false
  | .readLock _ => false
  | .unlock _ _ => false
  | .addDecorators _ _ => false
  | .clearEvents => false
  | _ => true

/-- The connection whose `ConnectionEstablished` task the operation leads to. -/
def begins : Op → Option Nat
  | .epollAdd _ (.constructed raw) => some raw.accept
  | .addTask (.lockCallAndUnlock .connectionEstablished raw) => some raw.accept
  | _ => none

/-- The connection whose `ConnectionTerminated` task the operation queues. -/
def terminates : Op → Option Nat
  | .addTask (.connectionTerminated conn) => some conn.accept
  | _ => none

theorem dispatches_of_common {op : Op} (common : op.common = true) : op.dispatches = false := by
  cases op <;> first | rfl | cases common

theorem dispatches_of_begins {op : Op} {accept : Nat}
    (begins : op.begins = some accept) :
    op.dispatches = true ∧ op.concludes = true := by
  cases op <;> first | exact ⟨rfl, rfl⟩ | cases begins

theorem dispatches_of_terminates {op : Op} {accept : Nat}
    (terminates : op.terminates = some accept) : op.dispatches = true := by
  cases op <;> first | rfl | cases terminates

end Op

namespace ServerState

variable {n : Nat} {t : Tid n} {e : Choice} {s s' : ServerState n} {op : Op}
  {flow : Flow Op}

/-! ### One step -/

/-- Tasks are queued by the listening thread. -/
theorem Rule.dispatches (rule : Rule t e s op flow s') {new : Op} (member : new ∈ pushes flow)
    (dispatches : new.dispatches = true) : op.listens = true := by
  have common := fun spreads => rule.common_of_pushed spreads new member
  cases rule with
  | constructed | constructorThrew | registered | indeterminateRegistered | lookupHangup
  | lookupError | lookupDataReady | found => rfl
  | takeTask | callbackUses | shutdown | deregister | drain | userUses =>
      rw [Op.dispatches_of_common (common rfl)] at dispatches
      cases dispatches
  | _ => exact absurd dispatches (List.any_eq_false.mp rfl new member)

/-- What is pushed goes on to one task. -/
theorem Rule.dispatch_ordered (rule : Rule t e s op flow s') :
    (pushes flow).Pairwise fun a b => a.concludes = true → b.dispatches = false := by
  have none : (∀ new ∈ pushes flow, new.dispatches = false) →
      (pushes flow).Pairwise fun a b => a.concludes = true → b.dispatches = false := by
    intro quiet
    apply List.pairwise_of_forall_mem_list
    intro a _ b member _
    exact quiet b member
  have common := fun spreads => rule.common_of_pushed spreads
  cases rule with
  | constructed | constructorThrew | registered | indeterminateRegistered | lookupHangup
  | lookupError | lookupDataReady | found =>
      simp [pushes, afterConstruct, lockAndAdd, Op.concludes, Op.dispatches]
  | takeTask | callbackUses | shutdown | deregister | drain | userUses =>
      exact none fun new member => Op.dispatches_of_common (common rfl new member)
  | _ => exact none (by simp [pushes, Op.dispatches])

theorem Rule.nextAccept_le (rule : Rule t e s op flow s') : s.nextAccept ≤ s'.nextAccept := by
  cases rule with
  | constructed => exact Nat.le_succ _
  | _ => exact Nat.le_refl _

/-- What may come before a task pushes nothing. -/
theorem Rule.pushes_of_not_concludes (rule : Rule t e s op flow s')
    (passes : op.concludes = false) : pushes flow = [] := by
  cases rule with
  | lock | readLock | unlock | decoratorsThrew | decoratedNull | decorated | indeterminateThrew
  | indeterminateDecorated | clearEvents => rfl
  | _ => cases passes

/-- It goes on, or an exception of `AddDecorators` keeps the connection out of the pool. -/
theorem Rule.flow_of_not_concludes (rule : Rule t e s op flow s')
    (passes : op.concludes = false) :
    flow = .next [] ∨ (∃ fd conn, op = .addDecorators fd conn) ∧
      ∀ fd conn, s'.connections.lookup fd = some (some conn) →
        s.connections.lookup fd = some (some conn) := by
  cases rule with
  | lock | readLock | unlock | decoratedNull | decorated | indeterminateDecorated
  | clearEvents => exact Or.inl rfl
  | decoratorsThrew | indeterminateThrew =>
      exact Or.inr ⟨⟨_, _, rfl⟩, fun _ _ entry => stored_of_subscript entry⟩
  | _ => cases passes

theorem Rule.epollAdd_flow {fd : Nat} {raw : Handle}
    (rule : Rule t e s (.epollAdd fd (.constructed raw)) flow s')
    (registered : e.registered = true) : flow = .next (lockAndAdd .connectionEstablished raw) := by
  cases rule with
  | registered => rfl
  | notRegistered clientfd conn fails | notRegisteredThrew clientfd conn fails =>
      rw [registered] at fails
      cases fails

/-- A `ConnectionTerminated` task is queued for a hang-up. -/
theorem Rule.terminates (rule : Rule t e s op flow s') {new : Op} (member : new ∈ pushes flow)
    {accept : Nat} (terminates : new.terminates = some accept) :
    ∃ fd events, ∃ conn : Handle, op = .lookup fd events ∧
      s.connections.lookup fd = some (some conn) ∧ conn.accept = accept ∧
        flow = .next [.addTask (.connectionTerminated conn), .shutdown conn] := by
  have common := fun spreads => rule.common_of_pushed spreads new member
  have none : (pushes flow).all (fun new => new.terminates.isNone) = true → False := by
    intro quiet
    have absent := List.all_eq_true.mp quiet new member
    rw [terminates] at absent
    cases absent
  cases rule with
  | lookupHangup fd events conn entry selects =>
      simp only [pushes, List.mem_cons, List.not_mem_nil, or_false] at member
      rcases member with rfl | rfl
      · exact ⟨fd, events, conn, rfl, entry, Option.some.inj terminates, rfl⟩
      · cases terminates
  | takeTask | callbackUses | shutdown | deregister | drain | userUses =>
      have quiet := Op.dispatches_of_common (common rfl)
      rw [Op.dispatches_of_terminates terminates] at quiet
      cases quiet
  | _ => exact (none rfl).elim

end ServerState

namespace ServerConfig

open ServerState

variable {n : Nat}

/-! ### What is remembered of a run -/

/-- The calls of callbacks: as `ListenEpoll` queued them, as threads took them from the
queue, and as threads started them from tasks; and the connections for which
`epoll_ctl(EPOLL_CTL_ADD)` failed. -/
structure CallHistory (n : Nat) where
  dispatched : List (Callback × Handle) := []
  taken : List (Tid n × Callback × Handle) := []
  started : List (Tid n × Callback × Handle) := []
  refused : List Nat := []

/-- An operation of thread `t` before `rest`.  The calls that the reaper itself makes
are not from tasks. -/
def CallHistory.note (t : Tid n) (op : Op) (rest : List Op) (e : Choice) (s : ServerState n)
    (k : CallHistory n) : CallHistory n :=
  match op with
  | .addTask task => { k with dispatched := k.dispatched ++ task.calls.toList }
  | .takeTask =>
      { k with taken := k.taken ++ (s.executor.head?.bind Closure.calls).toList.map (t, ·) }
  | .call callback conn =>
      if rest.any Op.reaps then k
      else { k with started := k.started ++ [(t, callback, conn)] }
  | .epollAdd _ (.constructed raw) =>
      if e.registered then k else { k with refused := raw.accept :: k.refused }
  | _ => k

/-- Each step is remembered. -/
def advance (c : ServerConfig n) (t : Tid n) (e : Choice) (k : CallHistory n) : CallHistory n :=
  match c.prog t with
  | [] => k
  | op :: rest => k.note t op rest e c.shared

/-- A `ConnectionEstablished` call was queued for the connection, or it was not to be. -/
def Begun (k : CallHistory n) (accept : Nat) : Prop :=
  (∃ conn : Handle, (.connectionEstablished, conn) ∈ k.dispatched ∧ conn.accept = accept) ∨
    accept ∈ k.refused

/-- The callbacks of each connection are queued in order: `ConnectionEstablished` first,
unless `epoll_ctl` failed, and nothing after `ConnectionTerminated`. -/
structure InDispatchOrder (k : CallHistory n) : Prop where
  ordered : k.dispatched.Pairwise fun a b => a.2.accept = b.2.accept →
    a.1 ≠ .connectionTerminated ∧ b.1 ≠ .connectionEstablished
  begun : ∀ call ∈ k.dispatched, Begun k call.2.accept

/-! ### The invariant -/

/-- Nothing was queued for the connection. -/
def Unqueued (k : CallHistory n) (accept : Nat) : Prop :=
  ∀ call ∈ k.dispatched, call.2.accept ≠ accept

/-- A `ConnectionTerminated` call was queued for the connection. -/
def Ended (k : CallHistory n) (accept : Nat) : Prop :=
  ∃ conn : Handle, (.connectionTerminated, conn) ∈ k.dispatched ∧ conn.accept = accept

/-- Callbacks other than `ConnectionEstablished` may be queued for the connection. -/
structure Serving (k : CallHistory n) (s : ServerState n) (accept : Nat) : Prop where
  begun : Begun k accept
  goesOn : ¬ Ended k accept
  accepted : accept < s.nextAccept

/-- What is known of an operation on the way to the queueing of a task. -/
def Queues (k : CallHistory n) (s : ServerState n) : Op → Prop
  | .addDecorators _ (.constructed raw) | .epollAdd _ (.constructed raw)
  | .addTask (.lockCallAndUnlock .connectionEstablished raw) =>
      Unqueued k raw.accept ∧ raw.accept < s.nextAccept
  | .addDecorators _ .indeterminate | .epollAdd _ .indeterminate
  | .addTask (.lockCallAndUnlock .connectionTerminated _) | .addTask (.shutdown _) => False
  | .find _ conn | .addTask (.lockCallAndUnlock .dataReady conn)
  | .addTask (.lockCallAndUnlock .error conn) | .addTask (.connectionTerminated conn) =>
      Serving k s conn.accept
  | _ => True

/-- The invariant behind the order. -/
structure Queueing (k : CallHistory n) (c : ServerConfig n) : Prop where
  numbered : Numbered c
  dispatches : AllOps (fun _ t op => op.dispatches = true → t = .listen) c
  ordered : ∀ t, (c.prog t).Pairwise fun a b => a.concludes = true → b.dispatches = false
  followed : ∀ t pre fd conn post, c.prog t = pre ++ .addDecorators fd conn :: post →
    ∃ post', post = .unlock .connections false :: .clearEvents :: .epollAdd fd conn :: post'
  queued : InDispatchOrder k
  accepted : ∀ call ∈ k.dispatched, call.2.accept < c.shared.nextAccept
  queues : AllOps (fun s _ op => Queues k s op) c
  /-- Of a connection in the pool. -/
  begins : ∀ fd conn, c.shared.connections.lookup fd = some (some conn) →
    Begun k conn.accept ∨ ∃ op ∈ c.prog .listen, op.begins = some conn.accept
  ends : ∀ fd conn, c.shared.connections.lookup fd = some (some conn) →
    (Ended k conn.accept ∨ ∃ op ∈ c.prog .listen, op.terminates = some conn.accept) →
      Going fd conn (c.prog .listen)

theorem Queueing.init (serverfd : Nat) (ssl : Bool) (maxIdle : Int32) :
    Queueing {} (init n serverfd ssl maxIdle) where
  numbered := Numbered.init serverfd ssl maxIdle
  dispatches := forall_init nofun nofun (fun _ => nofun) nofun
  ordered t := by
    cases t with
    | reaper => simp [ServerConfig.init, Op.dispatches]
    | _ => exact List.pairwise_singleton _ _
  followed t pre fd conn post split := absurd split (init_prog_ne rfl)
  queued := ⟨List.Pairwise.nil, nofun⟩
  accepted := nofun
  queues := forall_init trivial trivial (fun _ => trivial) trivial
  begins fd conn entry := by cases entry
  ends fd conn entry := by cases entry

variable {c c' : ServerConfig n} {t : Tid n} {e : Choice} {op : Op} {rest : List Op}
  {flow : Flow Op} {k k' : CallHistory n} {s s' : ServerState n} {accept : Nat}

/-! ### What a step adds to the history -/

theorem note_dispatched : (k.note t op rest e s).dispatched = k.dispatched ++ op.queues.toList := by
  cases op with
  | addTask => rfl
  | call =>
      simp only [CallHistory.note]
      split <;> exact (List.append_nil _).symm
  | epollAdd clientfd conn =>
      cases conn with
      | constructed raw =>
          simp only [CallHistory.note]
          split <;> exact (List.append_nil _).symm
      | indeterminate => exact (List.append_nil _).symm
  | _ => exact (List.append_nil _).symm

theorem note_refused : k.refused ⊆ (k.note t op rest e s).refused := by
  cases op with
  | call =>
      simp only [CallHistory.note]
      split <;> exact List.Subset.refl _
  | epollAdd clientfd conn =>
      cases conn with
      | constructed raw =>
          simp only [CallHistory.note]
          split
          · exact List.Subset.refl _
          · exact List.subset_cons_self _ _
      | indeterminate => exact List.Subset.refl _
  | _ => exact List.Subset.refl _

/-- Only the queueing of a task and `epoll_ctl` count. -/
theorem note_same (other : op.concludes = false ∨ op.dispatches = false) :
    (k.note t op rest e s).dispatched = k.dispatched ∧
      (k.note t op rest e s).refused = k.refused := by
  cases op with
  | addTask | epollAdd => rcases other with other | other <;> cases other
  | call =>
      simp only [CallHistory.note]
      split <;> exact ⟨rfl, rfl⟩
  | _ => exact ⟨rfl, rfl⟩

theorem Begun.mono (dispatched : k.dispatched ⊆ k'.dispatched) (refused : k.refused ⊆ k'.refused)
    (begun : Begun k accept) : Begun k' accept := by
  rcases begun with ⟨conn, queued, same⟩ | refusal
  · exact Or.inl ⟨conn, dispatched queued, same⟩
  · exact Or.inr (refused refusal)

theorem Begun.note (begun : Begun k accept) : Begun (k.note t op rest e s) accept := by
  apply begun.mono ?_ note_refused
  rw [note_dispatched]
  exact List.subset_append_left _ _

theorem Serving.congr (dispatched : k'.dispatched = k.dispatched)
    (refused : k'.refused = k.refused) (next : s.nextAccept ≤ s'.nextAccept)
    (serving : Serving k s accept) : Serving k' s' accept where
  begun := serving.begun.mono (by rw [dispatched]; exact List.Subset.refl _)
    (by rw [refused]; exact List.Subset.refl _)
  goesOn := by
    rw [Ended, dispatched]
    exact serving.goesOn
  accepted := Nat.lt_of_lt_of_le serving.accepted next

/-- What is known of an operation depends on what was queued only. -/
theorem Queues.congr (dispatched : k'.dispatched = k.dispatched) (refused : k'.refused = k.refused)
    (next : s.nextAccept ≤ s'.nextAccept) (queues : Queues k s op) : Queues k' s' op := by
  have unqueued : ∀ raw : Handle, Unqueued k raw.accept ∧ raw.accept < s.nextAccept →
      Unqueued k' raw.accept ∧ raw.accept < s'.nextAccept := by
    rintro raw ⟨fresh, accepted⟩
    rw [Unqueued, dispatched]
    exact ⟨fresh, Nat.lt_of_lt_of_le accepted next⟩
  have serving : ∀ conn : Handle, Serving k s conn.accept → Serving k' s' conn.accept :=
    fun conn serving => serving.congr dispatched refused next
  cases op with
  | addDecorators clientfd conn | epollAdd clientfd conn =>
      cases conn with
      | constructed raw => exact unqueued raw queues
      | indeterminate => exact queues
  | find fd conn => exact serving conn queues
  | addTask task =>
      cases task with
      | lockCallAndUnlock callback conn =>
          cases callback with
          | connectionEstablished => exact unqueued conn queues
          | dataReady | error => exact serving conn queues
          | connectionTerminated => exact queues
      | connectionTerminated conn => exact serving conn queues
      | shutdown conn => exact queues
  | _ => trivial

theorem queues_of_not_dispatches (other : op.dispatches = false) : Queues k s op := by
  cases op <;> trivial

/-- A call may be queued next. -/
theorem InDispatchOrder.append {call : Callback × Handle} (queued : InDispatchOrder k)
    (next : call.1 = .connectionEstablished ∧ Unqueued k call.2.accept ∨
      call.1 ≠ .connectionEstablished ∧ Begun k call.2.accept ∧ ¬ Ended k call.2.accept) :
    InDispatchOrder { k with dispatched := k.dispatched ++ [call] } where
  ordered := by
    refine List.pairwise_append.mpr ⟨queued.ordered, List.pairwise_singleton _ _, ?_⟩
    intro a old b new same
    rw [List.mem_singleton.mp new] at same ⊢
    rcases next with ⟨_, unqueued⟩ | ⟨other, _, goesOn⟩
    · exact absurd same (unqueued a old)
    · exact ⟨fun ended => goesOn ⟨a.2, by rw [← ended]; exact old, same⟩, other⟩
  begun := by
    have grown : ∀ {accept : Nat}, Begun k accept →
        Begun { k with dispatched := k.dispatched ++ [call] } accept := fun begun =>
      begun.mono (List.subset_append_left _ _) (List.Subset.refl _)
    intro other member
    rcases List.mem_append.mp member with old | new
    · exact grown (queued.begun other old)
    · rw [List.mem_singleton.mp new]
      rcases next with ⟨established, _⟩ | ⟨_, begun, _⟩
      · refine Or.inl ⟨call.2, List.mem_append_right _ ?_, rfl⟩
        rw [← established]
        exact List.mem_singleton_self _
      · exact grown begun

namespace Queueing

/-! ### What a step keeps -/

theorem step_dispatches (inv : Queueing k c) (taken : Taken c c' t e op rest flow) :
    AllOps (fun _ t op => op.dispatches = true → t = .listen) c' := by
  intro t' op' member dispatches
  rcases taken.mem member with ⟨rfl, pushed⟩ | ⟨rfl, later⟩ | ⟨_, there⟩
  · exact inv.numbered.listens t' op taken.first (taken.rule.dispatches pushed dispatches)
  · exact inv.dispatches t' op' (taken.program ▸ List.mem_cons_of_mem _ later) dispatches
  · exact inv.dispatches t' op' there dispatches

theorem step_ordered (inv : Queueing k c) (taken : Taken c c' t e op rest flow) (t' : Tid n) :
    (c'.prog t').Pairwise fun a b => a.concludes = true → b.dispatches = false := by
  by_cases same : t' = t
  · subst same
    rw [taken.self]
    apply pairwise_continuation (taken.program ▸ inv.ordered t') taken.rule.dispatch_ordered
    intro a pushed b before _
    apply before
    by_contra passes
    rw [taken.rule.pushes_of_not_concludes (Bool.eq_false_of_not_eq_true passes)] at pushed
    cases pushed
  · rw [taken.other same]
    exact inv.ordered t'

theorem step_followed (inv : Queueing k c) (taken : Taken c c' t e op rest flow) (t' : Tid n)
    (pre : List Op) (fd : Nat) (conn : Pointer) (post : List Op)
    (split : c'.prog t' = pre ++ .addDecorators fd conn :: post) :
    ∃ post', post = .unlock .connections false :: .clearEvents :: .epollAdd fd conn :: post' := by
  by_cases same : t' = t
  · subst same
    rw [taken.self] at split
    rcases continuation_split split rfl with ⟨between, pushed, rfl⟩ | ⟨pre', rfl, rfl⟩
    · obtain rfl := taken.rule.adds_followed pushed
      exact ⟨rest, rfl⟩
    · exact inv.followed t' (op :: pre') fd conn post taken.program
  · rw [taken.other same] at split
    exact inv.followed t' pre fd conn post split

/-- What stands behind an operation that concludes is not on the way to a task. -/
theorem not_dispatches_of_later (inv : Queueing k c) (taken : Taken c c' t e op rest flow)
    (concludes : op.concludes = true) {later : Op} (member : later ∈ rest) :
    later.dispatches = false := by
  have ordered := inv.ordered t
  rw [taken.program] at ordered
  exact (List.pairwise_cons.mp ordered).1 later member concludes

/-- The history goes on unchanged while an operation of a thread is on its way. -/
theorem same_of_pending (inv : Queueing k c) (taken : Taken c c' t e op rest flow) {t' : Tid n}
    {op' : Op} (dispatches : op'.dispatches = true)
    (old : (t' = t ∧ op' ∈ rest) ∨ (t' ≠ t ∧ op' ∈ c.prog t')) :
    op.concludes = false ∨ op.dispatches = false := by
  rcases old with ⟨_, later⟩ | ⟨other, there⟩
  · left
    by_contra concludes
    rw [inv.not_dispatches_of_later taken (Bool.eq_true_of_not_eq_false concludes) later]
      at dispatches
    cases dispatches
  · right
    by_contra queues
    exact other ((inv.dispatches t' op' there dispatches).trans
      (inv.dispatches t op taken.first (Bool.eq_true_of_not_eq_false queues)).symm)

/-- A connection whose event is looked up has begun and has not ended. -/
theorem serving_of_lookup (inv : Queueing k c) {fd : Nat} {events : UInt32}
    (taken : Taken c c' t e (.lookup fd events) rest flow) {conn : Handle}
    (entry : c.shared.connections.lookup fd = some (some conn)) :
    Serving k c.shared conn.accept := by
  have program := taken.program
  obtain rfl := inv.numbered.listens t _ taken.first rfl
  constructor
  · rcases inv.begins fd conn entry with begun | ⟨op, member, begins⟩
    · exact begun
    · rw [program] at member
      rcases List.mem_cons.mp member with rfl | later
      · cases begins
      · have quiet := inv.not_dispatches_of_later taken rfl later
        rw [(Op.dispatches_of_begins begins).1] at quiet
        cases quiet
  · intro ended
    have going := inv.ends fd conn entry (Or.inl ended)
    rw [program] at going
    cases going
  · exact (inv.numbered.pool fd conn entry).1

/-- What is pushed is for a new connection, or for one that is served. -/
theorem queues_pushed (inv : Queueing k c) (taken : Taken c c' t e op rest flow)
    (succeed : ConstructorsSucceed c t e) :
    ∀ new ∈ pushes flow, Queues (k.note t op rest e c.shared) c'.shared new := by
  have rule := taken.rule
  have serving : ∀ fd events conn, op = .lookup fd events →
      c.shared.connections.lookup fd = some (some conn) →
        Serving (k.note t op rest e c.shared) c'.shared conn.accept := by
    rintro fd events conn rfl entry
    exact (inv.serving_of_lookup taken entry).congr rfl rfl rule.nextAccept_le
  have queues := inv.queues t op taken.first
  have accepted := inv.accepted
  have succeeds := succeed.of_prog taken.program
  have common := fun spreads => rule.common_of_pushed spreads
  clear taken inv
  generalize c'.shared = s' at rule serving
  intro new member
  cases rule with
  | constructed clientfd =>
      simp only [pushes, afterConstruct, List.mem_cons, List.not_mem_nil, or_false] at member
      rcases member with rfl | rfl | rfl | rfl | rfl
      · trivial
      · exact ⟨fun call old => Nat.ne_of_lt (accepted call old), Nat.lt_succ_self _⟩
      · trivial
      · trivial
      · exact ⟨fun call old => Nat.ne_of_lt (accepted call old), Nat.lt_succ_self _⟩
  | constructorThrew clientfd error encrypted threw =>
      rw [succeeds rfl encrypted] at threw
      cases threw
  | registered clientfd raw registers =>
      rw [CallHistory.note, if_pos registers]
      simp only [pushes, lockAndAdd, List.mem_cons, List.not_mem_nil, or_false] at member
      rcases member with rfl | rfl
      · trivial
      · exact queues
  | indeterminateRegistered => cases queues
  | lookupHangup fd events conn entry selects =>
      simp only [pushes, List.mem_cons, List.not_mem_nil, or_false] at member
      rcases member with rfl | rfl
      · exact serving fd events conn rfl entry
      · trivial
  | lookupError fd events conn entry selects =>
      simp only [pushes, lockAndAdd, List.mem_cons, List.not_mem_nil, or_false] at member
      rcases member with rfl | rfl
      · trivial
      · exact serving fd events conn rfl entry
  | lookupDataReady fd events conn entry selects =>
      simp only [pushes, List.mem_cons, List.not_mem_nil, or_false] at member
      rcases member with rfl | rfl
      · trivial
      · exact serving fd events conn rfl entry
  | found fd conn =>
      simp only [pushes, lockAndAdd, List.cons_append, List.nil_append, List.mem_cons,
        List.not_mem_nil, or_false] at member
      rcases member with rfl | rfl | rfl
      · trivial
      · exact queues
      · trivial
  | takeTask | callbackUses | shutdown | deregister | drain | userUses =>
      exact queues_of_not_dispatches (Op.dispatches_of_common (common rfl new member))
  | _ =>
      apply queues_of_not_dispatches
      apply Bool.eq_false_of_not_eq_true
      intro dispatches
      exact absurd dispatches (List.any_eq_false.mp rfl new member)

theorem step_queues (inv : Queueing k c) (taken : Taken c c' t e op rest flow)
    (succeed : ConstructorsSucceed c t e) :
    AllOps (fun s _ new => Queues (k.note t op rest e c.shared) s new) c' := by
  intro t' op' member
  rcases taken.mem member with ⟨_, pushed⟩ | old
  · exact inv.queues_pushed taken succeed op' pushed
  · by_cases dispatches : op'.dispatches = true
    · have same : (k.note t op rest e c.shared).dispatched = k.dispatched ∧
          (k.note t op rest e c.shared).refused = k.refused :=
        note_same (inv.same_of_pending taken dispatches old)
      have there : op' ∈ c.prog t' := by
        rcases old with ⟨rfl, later⟩ | ⟨_, there⟩
        · exact taken.program ▸ List.mem_cons_of_mem _ later
        · exact there
      exact (inv.queues t' op' there).congr same.1 same.2 taken.rule.nextAccept_le
    · exact queues_of_not_dispatches (Bool.eq_false_of_not_eq_true dispatches)

/-- What is queued belongs to a connection that was made, and comes in order. -/
theorem step_queued (inv : Queueing k c) (taken : Taken c c' t e op rest flow) :
    InDispatchOrder (k.note t op rest e c.shared) ∧
      ∀ call ∈ (k.note t op rest e c.shared).dispatched,
        call.2.accept < c'.shared.nextAccept := by
  have unchanged : op.queues = none → InDispatchOrder (k.note t op rest e c.shared) ∧
      ∀ call ∈ (k.note t op rest e c.shared).dispatched,
        call.2.accept < c'.shared.nextAccept := by
    intro none
    have same : (k.note t op rest e c.shared).dispatched = k.dispatched := by
      rw [note_dispatched, none]
      exact List.append_nil _
    refine ⟨⟨by rw [same]; exact inv.queued.ordered, ?_⟩, ?_⟩
    · rw [same]
      exact fun call old => (inv.queued.begun call old).note
    · rw [same]
      exact fun call old => Nat.lt_of_lt_of_le (inv.accepted call old) taken.rule.nextAccept_le
  have appended : ∀ call : Callback × Handle, op.queues = some call →
      call.2.accept < c.shared.nextAccept →
        ∀ other ∈ k.dispatched ++ [call], other.2.accept < c'.shared.nextAccept := by
    intro call _ accepted other member
    apply Nat.lt_of_lt_of_le ?_ taken.rule.nextAccept_le
    rcases List.mem_append.mp member with old | new
    · exact inv.accepted other old
    · rwa [List.mem_singleton.mp new]
  have queues := inv.queues t op taken.first
  cases op with
  | addTask task =>
      cases task with
      | lockCallAndUnlock callback conn =>
          cases callback with
          | connectionEstablished =>
              exact ⟨inv.queued.append (Or.inl ⟨rfl, queues.1⟩), appended _ rfl queues.2⟩
          | dataReady | error =>
              exact ⟨inv.queued.append (Or.inr ⟨nofun, queues.begun, queues.goesOn⟩),
                appended _ rfl queues.accepted⟩
          | connectionTerminated => cases queues
      | connectionTerminated conn =>
          exact ⟨inv.queued.append (Or.inr ⟨nofun, queues.begun, queues.goesOn⟩),
            appended _ rfl queues.accepted⟩
      | shutdown conn => cases queues
  | _ => exact unchanged rfl

/-- Behind `AddDecorators` only the `epoll_ctl` of the same connection leads to a task. -/
theorem eq_epollAdd_of_later (inv : Queueing k c) {fd : Nat} {conn : Pointer}
    (taken : Taken c c' t e (.addDecorators fd conn) rest flow) {later : Op}
    (member : later ∈ rest) (dispatches : later.dispatches = true) :
    later = .epollAdd fd conn := by
  obtain ⟨post, rfl⟩ := inv.followed t [] fd conn rest taken.program
  have ordered := inv.ordered t
  rw [taken.program] at ordered
  have behind := (List.pairwise_cons.mp (List.pairwise_cons.mp (List.pairwise_cons.mp
    (List.pairwise_cons.mp ordered).2).2).2).1
  rcases List.mem_cons.mp member with rfl | member
  · cases dispatches
  · rcases List.mem_cons.mp member with rfl | member
    · cases dispatches
    · rcases List.mem_cons.mp member with rfl | member
      · rfl
      · rw [behind later member rfl] at dispatches
        cases dispatches

/-- What leads to the `ConnectionEstablished` task of a connection in the pool goes on
until the task is queued or `epoll_ctl` fails. -/
theorem begins_continue (inv : Queueing k c) (taken : Taken c c' t e op rest flow) {fd : Nat}
    {conn : Handle} (entry : c'.shared.connections.lookup fd = some (some conn)) {op' : Op}
    (member : op' ∈ c.prog .listen) (begins : op'.begins = some conn.accept) :
    Begun (k.note t op rest e c.shared) conn.accept ∨
      ∃ op' ∈ c'.prog .listen, op'.begins = some conn.accept := by
  obtain ⟨dispatches, concludes⟩ := Op.dispatches_of_begins begins
  by_cases same : t = .listen
  · subst same
    have program := taken.program
    rw [program] at member
    rcases List.mem_cons.mp member with rfl | later
    · cases op' with
      | epollAdd clientfd pointer =>
          cases pointer with
          | constructed raw =>
              by_cases registered : e.registered = true
              · right
                refine ⟨.addTask (.lockCallAndUnlock .connectionEstablished raw), ?_, begins⟩
                rw [taken.self, taken.rule.epollAdd_flow registered]
                exact List.mem_append_left _ (List.mem_cons_of_mem _ List.mem_cons_self)
              · left
                right
                rw [CallHistory.note, if_neg registered, ← Option.some.inj begins]
                exact List.mem_cons_self
          | indeterminate => cases begins
      | addTask task =>
          left
          left
          rw [note_dispatched]
          cases task with
          | lockCallAndUnlock callback raw =>
              cases callback with
              | connectionEstablished =>
                  exact ⟨raw, List.mem_append_right _ List.mem_cons_self,
                    Option.some.inj begins⟩
              | dataReady | error | connectionTerminated => cases begins
          | connectionTerminated | shutdown => cases begins
      | _ => cases begins
    · right
      have passes : op.concludes = false := by
        by_contra ends
        rw [inv.not_dispatches_of_later taken (Bool.eq_true_of_not_eq_false ends) later]
          at dispatches
        cases dispatches
      rcases taken.rule.flow_of_not_concludes passes with goes | ⟨⟨clientfd, pointer, rfl⟩, kept⟩
      · refine ⟨op', ?_, begins⟩
        rw [taken.self, goes]
        exact later
      · obtain ⟨raw, rfl, fresh⟩ := inv.numbered.adding _ _ taken.first clientfd pointer rfl
        rw [inv.eq_epollAdd_of_later taken later dispatches] at begins
        exact absurd (Option.some.inj begins).symm (fresh.absent fd conn (kept fd conn entry))
  · right
    refine ⟨op', ?_, begins⟩
    rw [taken.other (Ne.symm same)]
    exact member

theorem step_begins (inv : Queueing k c) (taken : Taken c c' t e op rest flow) (fd : Nat)
    (conn : Handle) (entry : c'.shared.connections.lookup fd = some (some conn)) :
    Begun (k.note t op rest e c.shared) conn.accept ∨
      ∃ op ∈ c'.prog .listen, op.begins = some conn.accept := by
  rcases inv.numbered.entry_old taken entry with ⟨old, _⟩ | ⟨raw, rfl, same, fresh⟩
  · rcases inv.begins fd conn old with begun | ⟨op', member, begins⟩
    · exact Or.inl begun.note
    · exact inv.begins_continue taken entry member begins
  · have program := taken.program
    obtain rfl := inv.numbered.listens t _ taken.first rfl
    obtain ⟨post, rfl⟩ := inv.followed _ [] fd _ rest program
    have member : .epollAdd fd (.constructed raw) ∈ c.prog .listen := by
      rw [program]
      simp
    exact inv.begins_continue taken entry member (congrArg some same.symm)

/-- A connection ended before, or a hang-up of it is found now. -/
theorem ended_cases (inv : Queueing k c) (taken : Taken c c' t e op rest flow)
    (ended : Ended (k.note t op rest e c.shared) accept ∨
      ∃ op ∈ c'.prog .listen, op.terminates = some accept) :
    (Ended k accept ∨ ∃ op ∈ c.prog .listen, op.terminates = some accept) ∨
      ∃ fd events, ∃ conn : Handle, op = .lookup fd events ∧
        c.shared.connections.lookup fd = some (some conn) ∧ conn.accept = accept ∧
          flow = .next [.addTask (.connectionTerminated conn), .shutdown conn] := by
  rcases ended with ⟨conn, queued, same⟩ | ⟨op', member, terminates⟩
  · left
    rw [note_dispatched] at queued
    rcases List.mem_append.mp queued with old | new
    · exact Or.inl ⟨conn, old, same⟩
    · right
      have queues := inv.queues t op taken.first
      cases op with
      | addTask task =>
          obtain rfl := inv.dispatches t _ taken.first rfl
          refine ⟨_, taken.first, ?_⟩
          cases task with
          | lockCallAndUnlock callback other =>
              cases List.mem_singleton.mp new
              cases queues
          | connectionTerminated other =>
              cases List.mem_singleton.mp new
              exact congrArg some same
          | shutdown other => cases queues
      | _ => cases new
  · rcases taken.mem member with ⟨rfl, pushed⟩ | ⟨rfl, later⟩ | ⟨_, there⟩
    · exact Or.inr (taken.rule.terminates pushed terminates)
    · exact Or.inl (Or.inr ⟨op', taken.program ▸ List.mem_cons_of_mem _ later, terminates⟩)
    · exact Or.inl (Or.inr ⟨op', there, terminates⟩)

theorem step_ends (inv : Queueing k c) (taken : Taken c c' t e op rest flow) (fd : Nat)
    (conn : Handle) (entry : c'.shared.connections.lookup fd = some (some conn))
    (ended : Ended (k.note t op rest e c.shared) conn.accept ∨
      ∃ op ∈ c'.prog .listen, op.terminates = some conn.accept) :
    Going fd conn (c'.prog .listen) := by
  rcases inv.numbered.entry_old taken entry with ⟨old, other⟩ | ⟨raw, rfl, same, _⟩
  · rcases inv.ended_cases taken ended with before | ⟨fd', events, conn', rfl, entry', accept,
      goes⟩
    · have going := inv.ends fd conn old before
      by_cases listens : t = .listen
      · subst listens
        exact inv.numbered.going_continuation taken going old other
      · rwa [taken.other (Ne.symm listens)]
    · obtain rfl := inv.numbered.listens t _ taken.first rfl
      obtain rfl := inv.numbered.fd_eq old entry' accept
      obtain rfl : conn = conn' := by simpa using old.symm.trans entry'
      rw [taken.self, goes]
      exact .addTask (.shutdown _)
  · have unqueued := (inv.queues t _ taken.first).1
    rcases inv.ended_cases taken ended with before | ⟨_, _, _, impossible, _⟩
    · rcases before with ⟨conn', queued, accept⟩ | ⟨op', member, terminates⟩
      · exact absurd (accept.trans same) (unqueued _ queued)
      · have dispatches := Op.dispatches_of_terminates terminates
        have program := taken.program
        obtain rfl := inv.numbered.listens t _ taken.first rfl
        rw [program] at member
        rcases List.mem_cons.mp member with rfl | later
        · cases terminates
        · rw [inv.eq_epollAdd_of_later taken later dispatches] at terminates
          cases terminates
    · cases impossible

/-- A step whose constructor succeeds keeps the invariant. -/
theorem step (inv : Queueing k c) (taken : Taken c c' t e op rest flow)
    (succeed : ConstructorsSucceed c t e) : Queueing (k.note t op rest e c.shared) c' where
  numbered := inv.numbered.step taken succeed
  dispatches := inv.step_dispatches taken
  ordered := inv.step_ordered taken
  followed := inv.step_followed taken
  queued := (inv.step_queued taken).1
  accepted := (inv.step_queued taken).2
  queues := inv.step_queues taken succeed
  begins := inv.step_begins taken
  ends := inv.step_ends taken

end Queueing

end ServerConfig

end LibSiot
