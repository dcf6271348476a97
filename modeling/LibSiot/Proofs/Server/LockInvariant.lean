/-
Module: LibSiot.Proofs.Server.LockInvariant
Purpose: What holds in every state about who has which lock: where each thread is
  while it holds one, and that a connection whose lock a thread holds for writing,
  or that is being expired, is no longer in the pool.
Trusted boundary: none
Main exports: ServerConfig.Reserved, ServerConfig.Orderly,
  ServerConfig.LockInvariant, ServerConfig.LockInvariant.step
-/
import LibSiot.Proofs.Server.ProgramOrder

namespace LibSiot

open Interleaving (Flow)
open Interleaving.Machine (pushes AllOps continuation_split)
open RwLock (Mode)

/-! ### Reservations -/

/-- The connection whose read lock a task holds. -/
def Closure.reserves : Closure → Option Handle
  | .lockCallAndUnlock _ conn => some conn
  | _ => none

namespace Op

/-- The connection whose read lock an operation takes, passes on or gives back, or
that a new connection will have. -/
def reserves : Op → Option Handle
  | .readLock (.connection conn) => some conn
  | .addTask task => task.reserves
  | .unlock (.connection conn) _ => some conn
  | .addDecorators _ (.constructed raw) => some raw
  | .epollAdd _ (.constructed raw) => some raw
  | _ => none

/-- The connection object that an operation is about to shut down, or has queued. -/
def concerns : Op → Option Handle
  | .addTask (.shutdown conn) => some conn
  | .reapShutdown conn => some conn
  | op => op.shuts

/-- The connection that the reaper decides to shut down. -/
def expires {n : Nat} (s : ServerState n) : Op → Option Handle
  | .reapShutdown conn => if s.isShutdownOf conn then none else some conn
  | _ => none

/-- The connection for which the listening thread goes on to take the read lock. -/
def picks {n : Nat} (s : ServerState n) : Op → Option Handle
  | .lookup fd events =>
      if selectBranch events = some .error then (s.connections.lookup fd).join else none
  | .find fd conn => if (s.connections.lookup fd).isSome then some conn else none
  | _ => none

/-- The operation takes the read lock of a connection. -/
def reads : Op → Bool
  | .readLock (.connection _) => true
  | _ => false

/-- The operation makes an entry of a new connection. -/
def adds : Op → Bool
  | .addDecorators _ _ => true
  | _ => false

/-- The operation looks for an entry again. -/
def finds : Op → Bool
  | .find _ _ => true
  | _ => false

/-- A thread writes after an operation that takes the lock, or keeps the mode. -/
theorem entered_eq_writing {m : Mode} {op : Op} (writes : op.entered m = .writing) :
    op = .lock .connections ∨ (m = .writing ∧ op.guards = false) := by
  cases op with
  | lock name => cases name <;> first | exact Or.inl rfl | exact Or.inr ⟨writes, rfl⟩
  | readLock name => cases name <;> first | exact Or.inr ⟨writes, rfl⟩ | cases writes
  | unlock name destructor => cases name <;> first | exact Or.inr ⟨writes, rfl⟩ | cases writes
  | _ => exact Or.inr ⟨writes, rfl⟩

theorem survives_of_shuts {op : Op} {conn : Handle} (shuts : op.shuts = some conn) :
    op.survives = false := by
  cases op <;> first | rfl | cases shuts

theorem concerns_of_shuts {op : Op} {conn : Handle} (shuts : op.shuts = some conn) :
    op.concerns = some conn := by
  cases op <;> first | exact shuts | cases shuts

end Op

namespace ServerState

variable {n : Nat} {t : Tid n} {e : Choice} {s s' : ServerState n} {op : Op}
  {flow : Flow Op}

/-! ### The pool -/

/-- Each entry of the pool is the outermost object of a connection that was accepted
at the descriptor. -/
def Pooled (s : ServerState n) : Prop :=
  ∀ fd conn, s.connections.lookup fd = some (some conn) →
    conn.accept < s.nextAccept ∧ conn.level = (s.decorators conn.accept).length ∧
      s.socket conn.accept = fd

/-- The object that `AddDecorators` is about to get is new, and at the descriptor. -/
def Adding (s : ServerState n) (op : Op) : Prop :=
  ∀ fd raw, op = .addDecorators fd (.constructed raw) →
    raw.level = 0 ∧ raw.accept < s.nextAccept ∧ s.decorators raw.accept = [] ∧
      s.socket raw.accept = fd

/-- The connection whose entry the listening thread is about to look for again is
still the one in it, if there is one. -/
def Finding (s : ServerState n) (op : Op) : Prop :=
  ∀ fd conn, op = .find fd conn → ∀ value, s.connections.lookup fd = some value →
    value = some conn

/-- When the thread takes the lock of a decorated connection, this is not in the pool
any more. -/
def Dequeued (s : ServerState n) (ops : List Op) : Prop :=
  ∀ pre conn post, ops = pre ++ .lock (.connection conn) :: post → conn.level ≠ 0 →
    ∀ fd, s.connections.lookup fd = some (some conn) →
      .erase fd ∈ pre ∨ .deregister conn ∈ pre

/-- When the reaper decides on a connection, no object of it is in the pool. -/
def Erased (s : ServerState n) (ops : List Op) : Prop :=
  ∀ pre conn post, ops = pre ++ .reapShutdown conn :: post →
    ∀ fd other, s.connections.lookup fd = some (some other) → other.accept = conn.accept →
      .erase fd ∈ pre

/-- An entry is kept, unless its descriptor is erased or registered again. -/
theorem Rule.entry_kept (rule : Rule t e s op flow s') {fd : Nat} {value : Option Handle}
    (entry : s.connections.lookup fd = some value) :
    s'.connections.lookup fd = some value ∨ op = .erase fd ∨
      ∃ conn, op = .addDecorators fd conn := by
  cases rule with
  | decoratorsThrew | indeterminateThrew => exact Or.inl (entry_subscript entry)
  | decoratedNull clientfd raw null =>
      by_cases same : fd = clientfd
      · exact Or.inr (Or.inr ⟨_, by rw [same]⟩)
      · left
        simpa [setConnection, record, OrderedMap.lookup_insert, same] using entry
  | decorated clientfd raw decorators returned =>
      by_cases same : fd = clientfd
      · exact Or.inr (Or.inr ⟨_, by rw [same]⟩)
      · left
        simpa [setConnection, record, OrderedMap.lookup_insert, same] using entry
  | indeterminateDecorated clientfd returned =>
      by_cases same : fd = clientfd
      · exact Or.inr (Or.inr ⟨_, by rw [same]⟩)
      · left
        simpa [setConnection, record, OrderedMap.lookup_insert, same] using entry
  | lookupMissing fd' events missing =>
      left
      have other : fd ≠ fd' := by
        rintro rfl
        rw [missing] at entry
        cases entry
      simpa [OrderedMap.lookup_insert, other] using entry
  | erase fd' =>
      by_cases same : fd = fd'
      · exact Or.inr (Or.inl (by rw [same]))
      · left
        simpa [record, OrderedMap.lookup_erase, same] using entry
  | _ => exact Or.inl entry

/-- A connection gets into the pool only as what `AddDecorators` made of a new one. -/
theorem Rule.entry_old (rule : Rule t e s op flow s')
    (determinate : ∀ fd, op ≠ .addDecorators fd .indeterminate) {fd : Nat} {conn : Handle}
    (entry : s'.connections.lookup fd = some (some conn)) :
    (s.connections.lookup fd = some (some conn) ∧ op ≠ .erase fd) ∨
      ∃ raw, op = .addDecorators fd (.constructed raw) ∧ conn.accept = raw.accept ∧
        conn.level = (s'.decorators raw.accept).length := by
  cases rule with
  | decoratorsThrew | indeterminateThrew =>
      exact Or.inl ⟨stored_of_subscript entry, nofun⟩
  | decoratedNull clientfd raw null =>
      simp only [setConnection, record, OrderedMap.lookup_insert] at entry
      split at entry
      · cases entry
      · exact Or.inl ⟨entry, nofun⟩
  | decorated clientfd raw decorators returned =>
      simp only [setConnection, record, OrderedMap.lookup_insert] at entry
      split at entry
      · rename_i same
        cases entry
        exact Or.inr ⟨raw, by rw [same], rfl, by simp⟩
      · exact Or.inl ⟨entry, nofun⟩
  | indeterminateDecorated clientfd returned => exact absurd rfl (determinate clientfd)
  | lookupMissing fd' events missing =>
      simp only [OrderedMap.lookup_insert] at entry
      split at entry
      · cases entry
      · exact Or.inl ⟨entry, nofun⟩
  | erase fd' =>
      simp only [record, OrderedMap.lookup_erase] at entry
      split at entry
      · cases entry
      · rename_i other
        exact Or.inl ⟨entry, fun same => other (by cases same; rfl)⟩
  | _ => exact Or.inl ⟨entry, nofun⟩

/-- Only the listening thread makes entries. -/
theorem Rule.entry_listens (rule : Rule t e s op flow s') {fd : Nat} {value : Option Handle}
    (entry : s'.connections.lookup fd = some value) :
    s.connections.lookup fd = some value ∨ (op.listens = true ∧ op ≠ .lock .connections) := by
  cases rule with
  | decoratorsThrew | decoratedNull | decorated | indeterminateThrew | indeterminateDecorated
  | lookupMissing =>
      exact Or.inr ⟨rfl, nofun⟩
  | erase fd' =>
      simp only [record, OrderedMap.lookup_erase] at entry
      split at entry
      · cases entry
      · exact Or.inl entry
  | _ => exact Or.inl entry

/-- Objects stay made, and decorated as they are. -/
theorem Rule.made (rule : Rule t e s op flow s') (adding : Adding s op) {conn : Handle}
    (made : s.Made conn) : s'.Made conn := by
  cases rule with
  | constructed clientfd succeeds =>
      have other : conn.accept ≠ s.nextAccept := Nat.ne_of_lt made.1
      refine ⟨Nat.lt_succ_of_lt made.1, ?_⟩
      simpa [other] using made.2
  | decorated clientfd raw decorators returned =>
      refine ⟨made.1, ?_⟩
      by_cases same : conn.accept = raw.accept
      · have bare := (adding clientfd raw rfl).2.2.1
        have level := made.2
        rw [same, bare] at level
        exact Nat.le_trans level (Nat.zero_le _)
      · simpa [same] using made.2
  | _ => exact made

/-- What belongs to a connection changes only when `AddDecorators` gets it. -/
theorem Rule.objects (rule : Rule t e s op flow s') (other : op.adds = false) {accept : Nat}
    (accepted : accept < s.nextAccept) :
    accept < s'.nextAccept ∧ s'.decorators accept = s.decorators accept ∧
      s'.socket accept = s.socket accept := by
  cases rule with
  | constructed clientfd succeeds =>
      have old : accept ≠ s.nextAccept := Nat.ne_of_lt accepted
      exact ⟨Nat.lt_succ_of_lt accepted, Function.update_of_ne old .., Function.update_of_ne old ..⟩
  | decorated => cases other
  | _ => exact ⟨accepted, rfl, rfl⟩

/-- The entries of the pool stay outermost objects at their descriptors. -/
theorem Rule.pooled (rule : Rule t e s op flow s')
    (determinate : ∀ fd, op ≠ .addDecorators fd .indeterminate) (adding : Adding s op)
    (pooled : Pooled s) : Pooled s' := by
  intro fd conn entry
  rcases rule.entry_old determinate entry with ⟨old, _⟩ | ⟨raw, rfl, accept, level⟩
  · obtain ⟨accepted, outermost, socket⟩ := pooled fd conn old
    cases rule with
    | constructed clientfd succeeds =>
        have other : conn.accept ≠ s.nextAccept := Nat.ne_of_lt accepted
        exact ⟨Nat.lt_succ_of_lt accepted, by simpa [other] using outermost,
          by simpa [other] using socket⟩
    | decorated clientfd raw decorators returned =>
        by_cases same : conn.accept = raw.accept
        · have there := (adding clientfd raw rfl).2.2.2
          rw [← same, socket] at there
          subst there
          have inserted : conn = { raw with level := decorators.length } := by
            simpa [setConnection, record, OrderedMap.lookup_insert, eq_comm] using entry
          subst inserted
          exact ⟨accepted, by simp, socket⟩
        · exact ⟨accepted, by simpa [same] using outermost, socket⟩
    | _ => exact ⟨accepted, outermost, socket⟩
  · obtain ⟨_, accepted, _, socket⟩ := adding fd raw rfl
    rw [accept]
    cases rule <;> exact ⟨accepted, level, socket⟩

/-! ### Locks of connections -/

/-- A thread becomes the writer of a connection only by `Lock()`, and stays it at
most until the connection is deleted. -/
theorem Rule.writer (rule : Rule t e s op flow s') {conn : Handle} {t' : Tid n}
    (writes : (s'.locks (.connection conn)).writer = some t') :
    ((s.locks (.connection conn)).writer = some t' ∧ op ≠ .delete conn) ∨
      (op = .lock (.connection conn) ∧ t' = t) := by
  cases rule with
  | lock name l taken =>
      by_cases same : name = .connection conn
      · subst same
        obtain ⟨_, _, rfl⟩ := RwLock.lock_eq_some.mp taken
        simp only [setLock, Function.update_self, Option.some.injEq] at writes
        exact Or.inr ⟨rfl, writes.symm⟩
      · simp only [setLock, Function.update_of_ne (Ne.symm same)] at writes
        exact Or.inl ⟨writes, by simp⟩
  | readLock name l taken =>
      by_cases same : name = .connection conn
      · subst same
        obtain ⟨_, rfl⟩ := RwLock.readLock_eq_some.mp taken
        simp [setLock] at writes
      · simp only [setLock, Function.update_of_ne (Ne.symm same)] at writes
        exact Or.inl ⟨writes, by simp⟩
  | unlock name destructor =>
      by_cases same : name = .connection conn
      · subst same
        simp only [setLock, Function.update_self] at writes
        exact Or.inl ⟨RwLock.writer_of_unlock writes, by simp⟩
      · simp only [setLock, Function.update_of_ne (Ne.symm same)] at writes
        exact Or.inl ⟨writes, by simp⟩
  | delete other =>
      by_cases same : other = conn
      · subst same
        simp [setLock, RwLock.free] at writes
      · have names : LockName.connection conn ≠ .connection other := fun names =>
          same (LockName.connection.inj names).symm
        simp only [setLock, Function.update_of_ne names] at writes
        exact Or.inl ⟨writes, fun impossible => same (Op.delete.inj impossible)⟩
  | _ => exact Or.inl ⟨writes, by simp⟩

/-! ### What operations are about -/

theorem Rule.listens (rule : Rule t e s op flow s') {new : Op} (member : new ∈ pushes flow)
    (listens : new.listens = true) : op.listens = true := by
  have common := fun spreads => rule.common_of_pushed spreads _ member
  cases rule with
  | keepListening | waitRetried | waited | examineListening | examineClient | examineZero
  | loopOver | accepted | constructed | constructorThrew | lookupDataReady => rfl
  | takeTask | callbackUses | shutdown | deregister | drain | userUses =>
      rw [Op.listens_of_common (common rfl)] at listens
      cases listens
  | _ =>
      exact absurd listens (List.any_eq_false.mp rfl new member)

/-- The operation decides on a shutdown that is still to come. -/
def decides : Op → Bool
  | .addTask (.shutdown _) => true
  | .reapShutdown _ => true
  | _ => false

theorem none_decides {ops : List Op} {new : Op} (quiet : ops.all (fun new => !decides new) = true)
    (member : new ∈ ops) : (!decides new) = true :=
  List.all_eq_true.mp quiet new member

theorem not_decides_of_common (common : op.common = true) : (!decides op) = true := by
  cases op <;> first | rfl | cases common

/-- No thread is ever to queue a shutdown by itself. -/
theorem Rule.queues_no_shutdown (rule : Rule t e s op flow s') {conn : Handle} :
    .addTask (.shutdown conn) ∉ pushes flow := by
  intro member
  have decides : ServerState.decides (.addTask (.shutdown conn)) = true := rfl
  have common := fun spreads => rule.common_of_pushed spreads _ member
  cases rule with
  | takeTask | callbackUses | shutdown | deregister | drain | userUses => cases common rfl
  | reapDue => simp [pushes] at member
  | _ => exact absurd decides (List.any_eq_false.mp rfl _ member)

theorem shuts_of_concerns {new : Op} {conn : Handle} (quiet : (!decides new) = true)
    (concerns : new.concerns = some conn) : new.shuts = some conn := by
  cases new with
  | addTask task => cases task <;> first | exact concerns | cases quiet
  | reapShutdown conn => cases quiet
  | _ => exact concerns

/-- What a step is about to shut down it was before, or an object around it; or it
is in the pool, or in the queue. -/
theorem Rule.concerns (rule : Rule t e s op flow s') {new : Op} {conn : Handle}
    (member : new ∈ pushes flow) (concerns : new.concerns = some conn) :
    (∃ outer : Handle, op.concerns = some outer ∧ conn.accept = outer.accept ∧
      conn.level ≤ outer.level) ∨
      (∃ fd, s.connections.lookup fd = some (some conn)) ∨ .shutdown conn ∈ s.executor := by
  have common := fun spreads => rule.common_of_pushed spreads _ member
  have known : new.shuts = some conn → (∃ outer : Handle, op.concerns = some outer ∧
      conn.accept = outer.accept ∧ conn.level ≤ outer.level) ∨
        (∃ fd, s.connections.lookup fd = some (some conn)) ∨ .shutdown conn ∈ s.executor := by
    intro shuts
    rcases rule.shuts member shuts with ⟨outer, outerShuts, same, level⟩ |
      ⟨_, ⟨fd, _, _, entry⟩ | ⟨_, queued⟩ | ⟨rfl, _⟩⟩
    · exact Or.inl ⟨outer, Op.concerns_of_shuts outerShuts, same, level⟩
    · exact Or.inr (Or.inl ⟨fd, entry⟩)
    · exact Or.inr (Or.inr queued)
    · exact Or.inl ⟨conn, rfl, rfl, Nat.le_refl _⟩
  cases rule with
  | reapDue maxIdle tm after fd other entry due =>
      simp only [pushes, List.mem_cons, List.not_mem_nil, or_false] at member
      rcases member with rfl | rfl | rfl | rfl
      · cases concerns
      · cases concerns
      · cases concerns
        exact Or.inr (Or.inl ⟨fd, (OrderedMap.lookup_of_next entry).1⟩)
      · cases concerns
  | takeTask | callbackUses | shutdown | deregister | drain | userUses =>
      exact known (shuts_of_concerns (not_decides_of_common (common rfl)) concerns)
  | _ => exact known (shuts_of_concerns (none_decides rfl member) concerns)

/-- Shutdowns get into the queue by `addTask`, and by `DeferredShutdown()` of user code on
objects that were made. -/
theorem Rule.queued_shutdown (rule : Rule t e s op flow s') {conn : Handle}
    (queued : .shutdown conn ∈ s'.executor) :
    .shutdown conn ∈ s.executor ∨ op = .addTask (.shutdown conn) ∨
      (((∃ callback other, op = .running callback other) ∨ op = .userCode) ∧
        e.handler = .acts (.deferredShutdown conn) ∧ s.Made conn) := by
  cases rule with
  | addTask task =>
      rcases List.mem_append.mp queued with old | new
      · exact Or.inl old
      · rw [← List.mem_singleton.mp new]
        exact Or.inr (Or.inl rfl)
  | takeTask task tasks queue => exact Or.inl (queue ▸ List.mem_cons_of_mem _ queued)
  | callbackDefers callback conn' other acts made =>
      rcases List.mem_append.mp queued with old | new
      · exact Or.inl old
      · cases List.mem_singleton.mp new
        exact Or.inr (Or.inr ⟨Or.inl ⟨callback, conn', rfl⟩, acts, made⟩)
  | userDefers other acts made =>
      rcases List.mem_append.mp queued with old | new
      · exact Or.inl old
      · cases List.mem_singleton.mp new
        exact Or.inr (Or.inr ⟨Or.inr rfl, acts, made⟩)
  | _ => exact Or.inl queued

/-- What the listening thread picks is in the pool, or was when it met it. -/
theorem pooled_of_picks {conn : Handle} (picks : op.picks s = some conn) :
    (∃ fd, s.connections.lookup fd = some (some conn)) ∨
      ∃ fd value, op = .find fd conn ∧ s.connections.lookup fd = some value := by
  cases op with
  | lookup fd events =>
      simp only [Op.picks] at picks
      split at picks
      · exact Or.inl ⟨fd, Option.join_eq_some_iff.mp picks⟩
      · cases picks
  | find fd other =>
      simp only [Op.picks] at picks
      split at picks
      · rename_i there
        obtain ⟨value, entry⟩ := Option.isSome_iff_exists.mp there
        cases picks
        exact Or.inr ⟨fd, value, rfl, entry⟩
      · cases picks
  | _ => cases picks

/-- A read lock is taken for a connection that had one coming, for a new one, or for
one that the listening thread picks. -/
theorem Rule.reserves (rule : Rule t e s op flow s')
    (determinate : ∀ fd, op ≠ .epollAdd fd .indeterminate) {new : Op} {conn : Handle}
    (member : new ∈ pushes flow) (reserves : new.reserves = some conn) :
    op.reserves = some conn ∨ conn.accept = s.nextAccept ∨ op.picks s = some conn ∨
      ∃ task ∈ s.executor, task.reserves = some conn := by
  cases rule with
  | constructed clientfd succeeds =>
      simp only [pushes, afterConstruct, List.mem_cons, List.not_mem_nil, or_false] at member
      rcases member with rfl | rfl | rfl | rfl | rfl <;> cases reserves <;>
        exact Or.inr (Or.inl rfl)
  | registered clientfd raw succeeds =>
      simp only [pushes, lockAndAdd, List.mem_cons, List.not_mem_nil, or_false] at member
      rcases member with rfl | rfl <;> exact Or.inl reserves
  | indeterminateRegistered clientfd => exact absurd rfl (determinate clientfd)
  | lookupError fd events other entry branch =>
      have picked : (Op.lookup fd events).picks s = some other := by
        simp [Op.picks, branch, entry]
      simp only [pushes, lockAndAdd, List.mem_cons, List.not_mem_nil, or_false] at member
      rcases member with rfl | rfl <;> cases reserves <;> exact Or.inr (Or.inr (Or.inl picked))
  | found fd other value entry =>
      have picked : (Op.find fd other).picks s = some other := by simp [Op.picks, entry]
      simp only [pushes, lockAndAdd, List.cons_append, List.nil_append, List.mem_cons,
        List.not_mem_nil, or_false] at member
      rcases member with rfl | rfl | rfl <;> cases reserves <;>
        exact Or.inr (Or.inr (Or.inl picked))
  | takeTask task tasks queue =>
      refine Or.inr (Or.inr (Or.inr ⟨task, queue ▸ List.mem_cons_self, ?_⟩))
      cases task with
      | lockCallAndUnlock callback other =>
          simp only [pushes, taskOps, List.cons_append, List.nil_append, List.mem_cons,
            List.not_mem_nil, or_false] at member
          rcases member with rfl | rfl | rfl | rfl | rfl <;> first | exact reserves | cases reserves
      | connectionTerminated other => exact absurd reserves (ne_some_of_all rfl member)
      | shutdown other => exact absurd reserves (ne_some_of_all rfl member)
  | shutdown outer =>
      rcases mem_shutdownOps member with rfl | rfl | member | rfl
      · cases reserves
      · cases reserves
      · rcases mem_shutdownBody member with rfl | rfl | rfl | ⟨_, rfl, _⟩ | rfl <;> cases reserves
      · cases reserves
  | callbackUses | drain | userUses =>
      rcases mem_useOps_append member with rfl | rfl | rfl | rfl <;> cases reserves
  | deregister outer =>
      obtain ⟨fd, _, rfl | rfl | rfl | rfl⟩ := mem_dequeueOps member <;> cases reserves
  | _ => exact absurd reserves (ne_some_of_all rfl member)

/-- Tasks that hold a read lock get into the queue by `addTask`. -/
theorem Rule.queued_reserves (rule : Rule t e s op flow s') {task : Closure} {conn : Handle}
    (queued : task ∈ s'.executor) (reserves : task.reserves = some conn) :
    task ∈ s.executor ∨ op.reserves = some conn := by
  cases rule with
  | addTask added =>
      rcases List.mem_append.mp queued with old | new
      · exact Or.inl old
      · rw [List.mem_singleton.mp new] at reserves
        exact Or.inr reserves
  | takeTask first tasks queue => exact Or.inl (queue ▸ List.mem_cons_of_mem _ queued)
  | callbackDefers | userDefers =>
      rcases List.mem_append.mp queued with old | new
      · exact Or.inl old
      · rw [List.mem_singleton.mp new] at reserves
        cases reserves
  | _ => exact Or.inl queued

/-- A thread that comes to take the read lock of a connection does so without
`connections_lock_`, or found the connection under it. -/
theorem Rule.reads (rule : Rule t e s op flow s') {conn : Handle}
    (member : .readLock (.connection conn) ∈ pushes flow) :
    (∀ m m', Moves m op m' → op.entered m = .idle) ∨
      ∃ fd value, op = .find fd conn ∧ s.connections.lookup fd = some value ∧
        s'.connections = s.connections := by
  have reads : Op.reads (.readLock (.connection conn)) = true := rfl
  have common := fun spreads => rule.common_of_pushed spreads _ member
  cases rule with
  | registered | indeterminateRegistered | lookupError =>
      left
      intro m m' moves
      cases moves with
      | stay allowed => first | exact of_decide_eq_true allowed | cases allowed
  | found fd other value entry =>
      simp only [pushes, lockAndAdd, List.cons_append, List.nil_append, List.mem_cons,
        List.not_mem_nil, or_false, reduceCtorEq] at member
      cases member
      exact Or.inr ⟨fd, value, rfl, entry, rfl⟩
  | takeTask | callbackUses | shutdown | deregister | drain | userUses => cases common rfl
  | _ => exact absurd reads (List.any_eq_false.mp rfl _ member)

/-- The reaper erases the entry in which it met a connection, and then decides. -/
theorem Rule.reaps (rule : Rule t e s op flow s') {conn : Handle}
    (member : .reapShutdown conn ∈ pushes flow) :
    ∃ fd, s.connections.lookup fd = some (some conn) ∧ s'.connections = s.connections ∧
      ∃ others, pushes flow = .erase fd :: others := by
  have decides : ServerState.decides (.reapShutdown conn) = true := rfl
  have common := fun spreads => rule.common_of_pushed spreads _ member
  cases rule with
  | reapDue maxIdle tm after fd other entry due =>
      simp only [pushes, List.mem_cons, List.not_mem_nil, or_false, reduceCtorEq,
        false_or] at member
      cases member
      exact ⟨fd, (OrderedMap.lookup_of_next entry).1, rfl, _, rfl⟩
  | takeTask | callbackUses | shutdown | deregister | drain | userUses => cases common rfl
  | _ => exact absurd decides (List.any_eq_false.mp rfl _ member)

theorem Rule.lock_flow {name : LockName} (rule : Rule t e s (.lock name) flow s') :
    flow = .next [] := by
  cases rule
  rfl

theorem Rule.shutdown_pushes {conn : Handle} (rule : Rule t e s (.shutdown conn) flow s') :
    pushes flow = s.shutdownOps conn ∧
      s' = s.record (.shutdownStarted conn) := by
  cases rule
  exact ⟨rfl, rfl⟩

/-- However the search for the entry goes, `connections_lock_` is given back. -/
theorem Rule.find_closes {fd : Nat} {conn : Handle} (rule : Rule t e s (.find fd conn) flow s') :
    (pushes flow).any Op.closes = true := by
  cases rule <;> rfl

/-- `Deregister()` goes on to erase each entry of the connection. -/
theorem Rule.deregister_pushes {conn : Handle} (rule : Rule t e s (.deregister conn) flow s')
    {fd : Nat} (entry : s.connections.lookup fd = some (some conn)) : .erase fd ∈ pushes flow := by
  cases rule
  refine List.mem_flatMap.mpr ⟨fd, OrderedMap.mem_keysWhere.mpr ⟨_, entry, decide_eq_true rfl⟩, ?_⟩
  exact List.mem_cons_of_mem _ List.mem_cons_self

/-- Where the entry of a connection is to be erased, it still is after a step that was not
this erasure. -/
theorem Rule.removal_pushes (rule : Rule t e s op flow s') {fd : Nat} {conn : Handle}
    {later : List Op} (entry : s.connections.lookup fd = some (some conn))
    (kept : op ≠ .erase fd)
    (removal : .erase fd ∈ op :: later ∨ .deregister conn ∈ op :: later) :
    .erase fd ∈ pushes flow ++ later ∨ .deregister conn ∈ pushes flow ++ later := by
  rcases removal with erase | deregister
  · rcases List.mem_cons.mp erase with now | erase
    · exact absurd now.symm kept
    · exact Or.inl (List.mem_append_right _ erase)
  · rcases List.mem_cons.mp deregister with now | deregister
    · subst now
      exact Or.inl (List.mem_append_left _ (rule.deregister_pushes entry))
    · exact Or.inr (List.mem_append_right _ deregister)

/-- A thread looks for an entry again after it met the connection in it. -/
theorem Rule.finds (rule : Rule t e s op flow s') {fd : Nat} {conn : Handle}
    (member : .find fd conn ∈ pushes flow) :
    s.connections.lookup fd = some (some conn) ∧ s'.connections = s.connections := by
  have finds : Op.finds (.find fd conn) = true := rfl
  have common := fun spreads => rule.common_of_pushed spreads _ member
  cases rule with
  | lookupDataReady fd' events other entry =>
      simp only [pushes, List.mem_cons, List.not_mem_nil, or_false, reduceCtorEq,
        false_or] at member
      cases member
      exact ⟨entry, rfl⟩
  | takeTask | callbackUses | shutdown | deregister | drain | userUses => cases common rfl
  | _ => exact absurd finds (List.any_eq_false.mp rfl _ member)

/-- A connection that `AddDecorators` is about to get was made just now. -/
theorem Rule.adds (rule : Rule t e s op flow s') {fd : Nat} {raw : Handle}
    (member : .addDecorators fd (.constructed raw) ∈ pushes flow) :
    op = .construct fd ∧ raw = { accept := s.nextAccept, level := 0 } ∧
      s'.nextAccept = s.nextAccept + 1 ∧ s'.decorators raw.accept = [] ∧
      s'.socket raw.accept = fd := by
  have adds : Op.adds (.addDecorators fd (.constructed raw)) = true := rfl
  have common := fun spreads => rule.common_of_pushed spreads _ member
  cases rule with
  | constructed clientfd succeeds =>
      simp only [pushes, afterConstruct, List.mem_cons, List.not_mem_nil, or_false, reduceCtorEq,
        false_or] at member
      cases member
      exact ⟨rfl, rfl, rfl, Function.update_self .., Function.update_self ..⟩
  | constructorThrew =>
      simp only [pushes, afterConstruct, List.mem_cons, List.not_mem_nil, or_false, reduceCtorEq,
        false_or] at member
      cases member
  | takeTask | callbackUses | shutdown | deregister | drain | userUses => cases common rfl
  | _ => exact absurd adds (List.any_eq_false.mp rfl _ member)

end ServerState

namespace ServerConfig

open ServerState

variable {n : Nat}

/-! ### The invariant -/

/-- How a thread holds `connections_lock_`. -/
def held (c : ServerConfig n) (t : Tid n) : Mode := (c.shared.locks .connections).mode t

/-- A read lock of an object of the connection is held for a task, or the listening
thread is about to take it. -/
def Reserved (c : ServerConfig n) (accept : Nat) : Prop :=
  (∃ task ∈ c.shared.executor, task.reserves.map Handle.accept = some accept) ∨
    ∃ t, ∃ op ∈ c.prog t, op.reserves.map Handle.accept = some accept

instance (c : ServerConfig n) (accept : Nat) : Decidable (Reserved c accept) :=
  inferInstanceAs (Decidable (_ ∨ _))

/-- No read lock of an object of the connection is reserved, and none of its objects
is in the pool. -/
def Abandoned (c : ServerConfig n) (accept : Nat) : Prop :=
  ¬ Reserved c accept ∧
    ∀ fd conn, c.shared.connections.lookup fd = some (some conn) → conn.accept ≠ accept

/-- In the step no constructor fails, no draining loop throws, and the reaper decides
to shut a connection down only if no read lock is reserved for it. -/
def Orderly (c : ServerConfig n) (t : Tid n) (e : Choice) : Prop :=
  Next (fun op e s =>
    (op.constructs = true → s.ssl = true → OpenSSLConnection.construct e.ssl = .ok ()) ∧
      (op.drains = true → e.throws = false) ∧
      ∀ conn ∈ op.expires s, ¬ Reserved c conn.accept) c t e

instance (c : ServerConfig n) (t : Tid n) (e : Choice) : Decidable (Orderly c t e) :=
  inferInstanceAs (Decidable (Next (fun op e s =>
    (op.constructs = true → s.ssl = true → OpenSSLConnection.construct e.ssl = .ok ()) ∧
      (op.drains = true → e.throws = false) ∧
      ∀ conn ∈ op.expires s, ¬ Reserved c conn.accept) c t e))

/-- Who holds which lock, and where. -/
structure LockInvariant (c : ServerConfig n) : Prop where
  exclusive : (c.shared.locks .connections).Exclusive
  disciplined : ∀ t, Disciplined (held c t) (c.prog t)
  ordered : ∀ t, (c.prog t).Pairwise fun a b => a.precedes b = true
  closed : ∀ t, Closed (c.prog t)
  opened : ∀ t, Opened (c.prog t)
  listens : AllOps (fun _ t op => op.listens = true → t = .listen) c
  pooled : Pooled c.shared
  adding : AllOps (fun s _ op => Adding s op) c
  finding : AllOps (fun s _ op => Finding s op) c
  made : AllOps (fun s _ op => ∀ conn, op.concerns = some conn → s.Made conn) c
  queued : ∀ conn, .shutdown conn ∈ c.shared.executor → c.shared.Made conn
  dequeued : ∀ t, Dequeued c.shared (c.prog t)
  erased : ∀ t, Erased c.shared (c.prog t)
  sectioned : ∀ t conn, (c.shared.locks (.connection conn)).writer = some t →
    Section conn (c.prog t) ∧ c.shared.Made conn ∧
      (conn.level ≠ 0 → ∀ fd, c.shared.connections.lookup fd ≠ some (some conn))
  found : ∀ t conn rest, held c t = .writing → c.prog t = .readLock (.connection conn) :: rest →
    ∃ fd, c.shared.connections.lookup fd = some (some conn)
  expiring : ∀ t, held c t = .writing → ∀ op ∈ inside (c.prog t), ∀ conn,
    op.shuts = some conn → Abandoned c conn.accept

theorem LockInvariant.init (serverfd : Nat) (ssl : Bool) (maxIdle : Int32) :
    LockInvariant (init n serverfd ssl maxIdle) where
  exclusive := RwLock.Exclusive.free
  disciplined t := by
    rw [held]
    change Disciplined (RwLock.free.mode t) _
    rw [RwLock.mode_free]
    cases t with
    | listen => exact .cons (.stay rfl) (fun _ => .nil _) (fun _ => rfl) (.nil _)
    | reaper =>
        exact .cons (.stay rfl) (fun _ => .task (.nil _)) nofun
          (.cons (.stay rfl) (fun _ => .nil _) nofun (.nil _))
    | worker i => exact .cons (.stay rfl) (fun _ => .nil _) nofun (.nil _)
    | user => exact .cons (.stay rfl) (fun _ => .nil _) nofun (.nil _)
  ordered t := by
    cases t <;> exact Op.pairwise_of_free (List.all_eq_true.mp rfl)
  closed t pre conn post split := absurd split (init_prog_ne rfl)
  opened t pre post split := absurd split (init_prog_ne rfl)
  listens := forall_init (fun _ => rfl) nofun (fun _ => nofun) nofun
  pooled fd conn entry := by cases entry
  adding := forall_init nofun nofun (fun _ => nofun) nofun
  finding := forall_init nofun nofun (fun _ => nofun) nofun
  made := forall_init nofun nofun (fun _ => nofun) nofun
  queued conn queued := by cases queued
  dequeued t pre conn post split _ fd entry := by cases entry
  erased t pre conn post split fd other entry := by cases entry
  sectioned t conn writes := by cases writes
  found t conn rest writes := by
    rw [held] at writes
    cases writes
  expiring t writes := by
    rw [held] at writes
    cases writes

/-! ### One step -/

/-- The step of thread `t` that does `op`. -/
structure Taken (c c' : ServerConfig n) (t : Tid n) (e : Choice) (op : Op) (rest : List Op)
    (flow : Flow Op) : Prop where
  program : c.prog t = op :: rest
  rule : Rule t e c.shared op flow c'.shared
  progs : c'.prog = Function.update c.prog t ((server n).continuation flow rest)

variable {c c' : ServerConfig n} {t : Tid n} {e : Choice} {op : Op} {rest : List Op}
  {flow : Flow Op}

theorem Taken.self (taken : Taken c c' t e op rest flow) :
    c'.prog t = (server n).continuation flow rest := by
  rw [taken.progs, Function.update_self]

theorem Taken.other (taken : Taken c c' t e op rest flow) {t' : Tid n} (other : t' ≠ t) :
    c'.prog t' = c.prog t' := by
  rw [taken.progs, Function.update_of_ne other]

theorem Taken.first (taken : Taken c c' t e op rest flow) : op ∈ c.prog t :=
  taken.program ▸ List.mem_cons_self

/-- Where an operation that is left after the step comes from. -/
theorem Taken.mem (taken : Taken c c' t e op rest flow) {t' : Tid n} {op' : Op}
    (member : op' ∈ c'.prog t') :
    (t' = t ∧ op' ∈ pushes flow) ∨ (t' = t ∧ op' ∈ rest) ∨ (t' ≠ t ∧ op' ∈ c.prog t') := by
  by_cases same : t' = t
  · subst same
    rw [taken.self] at member
    rcases (server n).mem_continuation member with ⟨ops, rfl, pushed⟩ | old
    · exact Or.inl ⟨rfl, pushed⟩
    · exact Or.inr (Or.inl ⟨rfl, old⟩)
  · exact Or.inr (Or.inr ⟨same, taken.other same ▸ member⟩)

/-- The operations of the listening thread stay with it. -/
theorem Taken.listens (taken : Taken c c' t e op rest flow)
    (all : AllOps (fun _ t op => op.listens = true → t = .listen) c) :
    AllOps (fun _ t op => op.listens = true → t = .listen) c' := by
  intro t' op' member listens
  rcases taken.mem member with ⟨rfl, pushed⟩ | ⟨rfl, old⟩ | ⟨_, old⟩
  · exact all t' op taken.first (taken.rule.listens pushed listens)
  · exact all t' op' (taken.program ▸ List.mem_cons_of_mem _ old) listens
  · exact all t' op' old listens

section Listening

variable (listens : AllOps (fun _ t op => op.listens = true → t = .listen) c)
  (ordered : ∀ t, (c.prog t).Pairwise fun a b => a.precedes b = true)

include listens ordered

/-- While the listening thread makes an entry, no other operation of its own that has
to do with one is left. -/
theorem Taken.not_follows (taken : Taken c c' t e op rest flow) (first : op.listens = true)
    {t' : Tid n} {op' : Op} (listens' : op'.listens = true) (after : op.precedes op' = false)
    (old : (t' = t ∧ op' ∈ rest) ∨ (t' ≠ t ∧ op' ∈ c.prog t')) : False := by
  rcases old with ⟨rfl, later⟩ | ⟨other, there⟩
  · have inOrder := ordered t'
    rw [taken.program] at inOrder
    have precedes := (List.pairwise_cons.mp inOrder).1 op' later
    rw [after] at precedes
    cases precedes
  · exact other ((listens t' op' there listens').trans (listens t op taken.first first).symm)

/-- What the listening thread looks for again stays where it met it. -/
theorem Taken.finding (taken : Taken c c' t e op rest flow)
    (finding : AllOps (fun s _ op => Finding s op) c) : AllOps (fun s _ op => Finding s op) c' := by
  rintro t' _ member fd conn rfl value entry
  rcases taken.mem member with ⟨rfl, pushed⟩ | old
  · -- It was the lookup before that found the connection.
    obtain ⟨entry', same⟩ := taken.rule.finds pushed
    rw [same, entry'] at entry
    exact (Option.some.inj entry).symm
  · have there : .find fd conn ∈ c.prog t' := by
      rcases old with ⟨rfl, later⟩ | ⟨_, there⟩
      · exact taken.program ▸ List.mem_cons_of_mem _ later
      · exact there
    rcases taken.rule.entry_listens entry with same | ⟨first, notLock⟩
    · exact finding t' _ there fd conn rfl value same
    · have after : op.precedes (.find fd conn) = false := decide_eq_false notLock
      exact (taken.not_follows listens ordered first rfl after old).elim

end Listening

namespace LockInvariant

/-- The first operation of a thread is done in a mode that it needs. -/
theorem moves (inv : LockInvariant c) (program : c.prog t = op :: rest) :
    ∃ m', Moves (held c t) op m' := by
  have disciplined := inv.disciplined t
  rw [program] at disciplined
  cases disciplined with
  | cons moves => exact ⟨_, moves⟩

/-- Nothing is done with the unassigned variable `conn`. -/
theorem determinate (inv : LockInvariant c) (program : c.prog t = op :: rest) :
    (∀ fd, op ≠ .addDecorators fd .indeterminate) ∧ ∀ fd, op ≠ .epollAdd fd .indeterminate := by
  obtain ⟨m', moves⟩ := inv.moves program
  exact moves.determinate

/-- Two threads do not write at the same time. -/
theorem writing_unique {t t' : Tid n} (first : held c t = .writing)
    (second : held c t' = .writing) : t' = t := by
  have writer := RwLock.mode_eq_writing.mp first
  have writer' := RwLock.mode_eq_writing.mp second
  rw [writer] at writer'
  exact (Option.some.inj writer').symm

/-- Entries are made, and erased, by a thread that writes. -/
theorem writing_of_changes (inv : LockInvariant c) (program : c.prog t = op :: rest)
    (changes : op.changes = true) : held c t = .writing := by
  obtain ⟨m', moves⟩ := inv.moves program
  exact moves.writing changes

/-- The reaper decides on a connection while it writes. -/
theorem writing_of_reapShutdown (inv : LockInvariant c) {conn : Handle}
    (member : .reapShutdown conn ∈ c.prog t) : held c t = .writing := by
  cases program : c.prog t with
  | nil =>
      rw [program] at member
      cases member
  | cons op rest =>
      have ordered := inv.ordered t
      rw [program] at member ordered
      rcases List.mem_cons.mp member with rfl | later
      · exact inv.writing_of_changes program rfl
      · have dequeues : op.dequeues = true := (List.pairwise_cons.mp ordered).1 _ later
        exact inv.writing_of_changes program (by cases op <;> first | rfl | cases dequeues)

/-- The modes after a step. -/
theorem modes (inv : LockInvariant c) (taken : Taken c c' t e op rest flow) :
    (c'.shared.locks .connections).Exclusive ∧
      ∀ t', held c' t' = if t' = t then op.entered (held c t) else held c t' := by
  obtain ⟨m', moves⟩ := inv.moves taken.program
  exact taken.rule.mode inv.exclusive moves

/-- A fresh entry is of a connection that had none. -/
theorem entry_old (inv : LockInvariant c) (taken : Taken c c' t e op rest flow) {fd : Nat}
    {conn : Handle} (entry : c'.shared.connections.lookup fd = some (some conn)) :
    (c.shared.connections.lookup fd = some (some conn) ∧ op ≠ .erase fd) ∨
      ∃ raw : Handle, op = .addDecorators fd (.constructed raw) ∧ conn.accept = raw.accept ∧
        c.shared.decorators raw.accept = [] := by
  rcases taken.rule.entry_old (inv.determinate taken.program).1 entry with old | ⟨raw, rfl, same, _⟩
  · exact Or.inl old
  · exact Or.inr ⟨raw, rfl, same, (inv.adding t _ taken.first fd raw rfl).2.2.1⟩

/-- What a connection that is being expired has left in the pool, and what any other
has there. -/
theorem keysWhere_le (inv : LockInvariant c) {conn : Handle}
    (program : c.prog t = .deregister conn :: rest) :
    (c.shared.connections.keysWhere (· = some conn)).length ≤
      if held c t = .writing then 0 else 1 := by
  have entry : ∀ fd ∈ c.shared.connections.keysWhere (· = some conn),
      c.shared.connections.lookup fd = some (some conn) := by
    intro fd member
    obtain ⟨value, found, same⟩ := OrderedMap.mem_keysWhere.mp member
    rw [found, of_decide_eq_true same]
  split
  · rename_i writes
    have expiring := (inv.expiring t writes (.deregister conn)
      (by rw [program]; exact List.mem_cons_self) conn rfl).2
    refine Nat.le_of_eq (List.length_eq_zero_iff.mpr (List.eq_nil_iff_forall_not_mem.mpr ?_))
    exact fun fd member => expiring fd conn (entry fd member) rfl
  · refine OrderedMap.length_keysWhere_le_one (c.shared.socket conn.accept) ?_
    exact fun fd member => ((inv.pooled fd conn (entry fd member)).2.2).symm

theorem step_disciplined (inv : LockInvariant c) (taken : Taken c c' t e op rest flow)
    (orderly : Orderly c t e) (t' : Tid n) : Disciplined (held c' t') (c'.prog t') := by
  rw [(inv.modes taken).2 t']
  split
  · rename_i same
    subst same
    rw [taken.self]
    have disciplined := inv.disciplined t'
    rw [taken.program] at disciplined
    refine taken.rule.disciplined disciplined (orderly.of_prog taken.program).1 ?_
    rintro conn rfl
    exact inv.keysWhere_le taken.program
  · rename_i other
    rw [taken.other other]
    exact inv.disciplined t'

theorem step_ordered (inv : LockInvariant c) (taken : Taken c c' t e op rest flow) (t' : Tid n) :
    (c'.prog t').Pairwise fun a b => a.precedes b = true := by
  by_cases same : t' = t
  · subst same
    rw [taken.self]
    exact taken.rule.pairwise_precedes (taken.program ▸ inv.ordered t')
  · rw [taken.other same]
    exact inv.ordered t'

theorem step_closed (inv : LockInvariant c) (taken : Taken c c' t e op rest flow) (t' : Tid n) :
    Closed (c'.prog t') := by
  by_cases same : t' = t
  · subst same
    rw [taken.self]
    exact taken.rule.closed (taken.program ▸ inv.closed t')
  · rw [taken.other same]
    exact inv.closed t'

theorem step_opened (inv : LockInvariant c) (taken : Taken c c' t e op rest flow) (t' : Tid n) :
    Opened (c'.prog t') := by
  by_cases same : t' = t
  · subst same
    rw [taken.self]
    exact taken.rule.opened (taken.program ▸ inv.opened t')
  · rw [taken.other same]
    exact inv.opened t'

theorem step_adding (inv : LockInvariant c) (taken : Taken c c' t e op rest flow) :
    AllOps (fun s _ op => Adding s op) c' := by
  rintro t' _ member fd raw rfl
  rcases taken.mem member with ⟨rfl, pushed⟩ | old
  · obtain ⟨_, rfl, next, decorators, socket⟩ := taken.rule.adds pushed
    refine ⟨rfl, ?_, decorators, socket⟩
    rw [next]
    exact Nat.lt_succ_self _
  · have there : .addDecorators fd (.constructed raw) ∈ c.prog t' := by
      rcases old with ⟨rfl, later⟩ | ⟨_, there⟩
      · exact taken.program ▸ List.mem_cons_of_mem _ later
      · exact there
    obtain ⟨level, accepted, bare, socket⟩ := inv.adding t' _ there fd raw rfl
    have other : op.adds = false := by
      cases op with
      | addDecorators fd conn =>
          exact (taken.not_follows inv.listens inv.ordered rfl rfl rfl old).elim
      | _ => rfl
    obtain ⟨accepted', decorators', socket'⟩ := taken.rule.objects other accepted
    exact ⟨level, accepted', decorators'.trans bare, socket'.trans socket⟩

theorem step_made (inv : LockInvariant c) (taken : Taken c c' t e op rest flow) :
    AllOps (fun s _ op => ∀ conn, op.concerns = some conn → s.Made conn) c' := by
  intro t' op' member conn concerns
  have adding := inv.adding t op taken.first
  rcases taken.mem member with ⟨rfl, pushed⟩ | ⟨rfl, old⟩ | ⟨_, old⟩
  · refine taken.rule.made adding ?_
    rcases taken.rule.concerns pushed concerns with ⟨outer, was, same, level⟩ | ⟨fd, entry⟩ | queued
    · have made := inv.made t' op taken.first outer was
      exact ⟨same ▸ made.1, same ▸ Nat.le_trans level made.2⟩
    · obtain ⟨accepted, outermost, _⟩ := inv.pooled fd conn entry
      exact ⟨accepted, Nat.le_of_eq outermost⟩
    · exact inv.queued conn queued
  · exact taken.rule.made adding
      (inv.made t' op' (taken.program ▸ List.mem_cons_of_mem _ old) conn concerns)
  · exact taken.rule.made adding (inv.made t' op' old conn concerns)

theorem step_queued (inv : LockInvariant c) (taken : Taken c c' t e op rest flow) (conn : Handle)
    (queued : .shutdown conn ∈ c'.shared.executor) : c'.shared.Made conn := by
  refine taken.rule.made (inv.adding t op taken.first) ?_
  rcases taken.rule.queued_shutdown queued with old | rfl | ⟨_, _, made⟩
  · exact inv.queued conn old
  · exact inv.made t _ taken.first conn rfl
  · exact made

/-- A decorated connection that is being shut down does not get into the pool again. -/
theorem entry_of_made (inv : LockInvariant c) (taken : Taken c c' t e op rest flow) {fd : Nat}
    {conn : Handle} (made : c.shared.Made conn) (decorated : conn.level ≠ 0)
    (entry : c'.shared.connections.lookup fd = some (some conn)) :
    c.shared.connections.lookup fd = some (some conn) ∧ op ≠ .erase fd := by
  rcases inv.entry_old taken entry with old | ⟨raw, _, same, bare⟩
  · exact old
  · have level := made.2
    rw [same, bare] at level
    exact absurd (Nat.le_zero.mp level) decorated

theorem step_dequeued (inv : LockInvariant c) (taken : Taken c c' t e op rest flow) (t' : Tid n) :
    Dequeued c'.shared (c'.prog t') := by
  intro pre conn post split decorated fd entry
  by_cases same : t' = t
  · subst same
    rw [taken.self] at split
    rcases continuation_split split rfl with ⟨between, pushed, rfl⟩ | ⟨pre', rfl, rfl⟩
    · -- `Shutdown()` begins, with `Deregister()`.
      have member : .lock (.connection conn) ∈ pushes flow :=
        pushed ▸ List.mem_append_right _ List.mem_cons_self
      rcases taken.rule.tears member rfl with ⟨outer, rfl, _⟩ | ⟨impossible, _⟩
      · obtain ⟨first, _⟩ := taken.rule.shutdown_pushes
        rw [first] at pushed
        obtain ⟨_, dequeued, _⟩ := split_shutdownOps pushed
        exact Or.inr dequeued
      · cases impossible
    · have made := inv.made t' (.lock (.connection conn))
        (taken.program ▸ List.mem_cons_of_mem _ (List.mem_append_right _ List.mem_cons_self))
        conn rfl
      obtain ⟨old, kept⟩ := inv.entry_of_made taken made decorated entry
      have removal := inv.dequeued t' (op :: pre') conn post (by rw [taken.program]; rfl)
        decorated fd old
      exact taken.rule.removal_pushes old kept removal
  · rw [taken.other same] at split
    have made := inv.made t' (.lock (.connection conn))
      (split ▸ List.mem_append_right _ List.mem_cons_self) conn rfl
    obtain ⟨old, _⟩ := inv.entry_of_made taken made decorated entry
    exact inv.dequeued t' pre conn post split decorated fd old

theorem step_erased (inv : LockInvariant c) (taken : Taken c c' t e op rest flow) (t' : Tid n) :
    Erased c'.shared (c'.prog t') := by
  intro pre conn post split fd other entry accept
  by_cases same : t' = t
  · subst same
    rw [taken.self] at split
    rcases continuation_split split rfl with ⟨between, pushed, rfl⟩ | ⟨pre', rfl, rfl⟩
    · -- The reaper met the connection at its descriptor.
      obtain ⟨fd', met, unchanged, begins⟩ := taken.rule.reaps
        (pushed ▸ List.mem_append_right _ List.mem_cons_self)
      rw [unchanged] at entry
      have there : fd = fd' := by
        rw [← (inv.pooled fd other entry).2.2, ← (inv.pooled fd' conn met).2.2, accept]
      cases pre with
      | nil =>
          obtain ⟨others, begins⟩ := begins
          rw [begins] at pushed
          cases pushed
      | cons first pre =>
          obtain ⟨others, begins⟩ := begins
          rw [begins] at pushed
          rw [there, (List.cons.inj pushed).1]
          exact List.mem_cons_self
    · have later : .reapShutdown conn ∈ pre' ++ .reapShutdown conn :: post :=
        List.mem_append_right _ List.mem_cons_self
      rcases inv.entry_old taken entry with ⟨old, kept⟩ | ⟨raw, rfl, _⟩
      · have erase := inv.erased t' (op :: pre') conn post (by rw [taken.program]; rfl) fd other
          old accept
        rcases List.mem_cons.mp erase with now | later
        · exact absurd now.symm kept
        · exact List.mem_append_right _ later
      · have ordered := inv.ordered t'
        rw [taken.program] at ordered
        cases (List.pairwise_cons.mp ordered).1 _ later
  · rw [taken.other same] at split
    rcases inv.entry_old taken entry with ⟨old, _⟩ | ⟨raw, rfl, _⟩
    · exact inv.erased t' pre conn post split fd other old accept
    · have later : .reapShutdown conn ∈ c.prog t' :=
        split ▸ List.mem_append_right _ List.mem_cons_self
      have reaper := inv.writing_of_reapShutdown later
      exact absurd (writing_unique (inv.writing_of_changes taken.program rfl) reaper) same

theorem step_sectioned (inv : LockInvariant c) (taken : Taken c c' t e op rest flow)
    (orderly : Orderly c t e) (t' : Tid n) (conn : Handle)
    (writes : (c'.shared.locks (.connection conn)).writer = some t') :
    Section conn (c'.prog t') ∧ c'.shared.Made conn ∧
      (conn.level ≠ 0 → ∀ fd, c'.shared.connections.lookup fd ≠ some (some conn)) := by
  have adding := inv.adding t op taken.first
  rcases taken.rule.writer writes with ⟨wrote, kept⟩ | ⟨rfl, rfl⟩
  · obtain ⟨inSection, made, gone⟩ := inv.sectioned t' conn wrote
    refine ⟨?_, taken.rule.made adding made, fun decorated fd entry => ?_⟩
    · by_cases same : t' = t
      · subst same
        rw [taken.self]
        rw [taken.program] at inSection
        refine (taken.rule.section inSection ?_ ?_).resolve_left kept
        · rintro part rfl
          exact (orderly.of_prog taken.program).2.1 rfl
        · -- What a decorator wraps is not in the pool.
          rintro lower rfl accept level
          refine List.eq_nil_iff_forall_not_mem.mpr fun fd member => ?_
          obtain ⟨value, found, same⟩ := OrderedMap.mem_keysWhere.mp member
          rw [of_decide_eq_true same] at found
          have outermost := (inv.pooled fd lower found).2.1
          rw [accept] at outermost
          have := made.2
          omega
      · rw [taken.other same]
        exact inSection
    · exact gone decorated fd (inv.entry_of_made taken made decorated entry).1
  · have closed := inv.closed t' [] conn rest taken.program
    have made := inv.made t' _ taken.first conn rfl
    refine ⟨?_, taken.rule.made adding made, fun decorated fd entry => ?_⟩
    · rw [taken.self, taken.rule.lock_flow]
      exact closed
    · have old := (inv.entry_of_made taken made decorated entry).1
      rcases inv.dequeued t' [] conn rest taken.program decorated fd old with none | none <;>
        cases none

theorem step_found (inv : LockInvariant c) (taken : Taken c c' t e op rest flow) (t' : Tid n)
    (conn : Handle) (rest' : List Op) (writes : held c' t' = .writing)
    (program : c'.prog t' = .readLock (.connection conn) :: rest') :
    ∃ fd, c'.shared.connections.lookup fd = some (some conn) := by
  have member : .readLock (.connection conn) ∈ c'.prog t' := program ▸ List.mem_cons_self
  rw [(inv.modes taken).2 t'] at writes
  rcases taken.mem member with ⟨rfl, pushed⟩ | ⟨rfl, old⟩ | ⟨other, old⟩
  · rw [if_pos rfl] at writes
    rcases taken.rule.reads pushed with idle | ⟨fd, value, rfl, entry, unchanged⟩
    · obtain ⟨m', moves⟩ := inv.moves taken.program
      rw [idle _ _ moves] at writes
      cases writes
    · have same := inv.finding t' _ taken.first fd conn rfl value entry
      exact ⟨fd, by rw [unchanged, entry, same]⟩
  · have ordered := inv.ordered t'
    rw [taken.program] at ordered
    cases (List.pairwise_cons.mp ordered).1 _ old
  · rw [if_neg other] at writes
    rw [taken.other other] at program
    obtain ⟨fd, entry⟩ := inv.found t' conn rest' writes program
    rcases taken.rule.entry_kept entry with kept | rfl | ⟨conn', rfl⟩
    · exact ⟨fd, kept⟩
    · exact absurd (writing_unique (inv.writing_of_changes taken.program rfl) writes) other
    · exact absurd (writing_unique (inv.writing_of_changes taken.program rfl) writes) other

/-- A read lock gets reserved for a connection that has one, for a new one, or for one
that the listening thread picks. -/
theorem reserved_of_step (inv : LockInvariant c) (taken : Taken c c' t e op rest flow)
    {accept : Nat} (reserved : Reserved c' accept) :
    Reserved c accept ∨ accept = c.shared.nextAccept ∨
      ∃ conn, op.picks c.shared = some conn ∧ conn.accept = accept := by
  have here : ∀ conn : Handle, op.reserves = some conn → Reserved c conn.accept :=
    fun conn reserves => Or.inr ⟨t, op, taken.first, by rw [reserves]; rfl⟩
  rcases reserved with ⟨task, queued, some⟩ | ⟨t', op', member, some⟩
  · obtain ⟨conn, reserves, rfl⟩ := Option.map_eq_some_iff.mp some
    rcases taken.rule.queued_reserves queued reserves with old | passed
    · exact Or.inl (Or.inl ⟨task, old, some⟩)
    · exact Or.inl (here conn passed)
  · obtain ⟨conn, reserves, rfl⟩ := Option.map_eq_some_iff.mp some
    have before : op' ∈ c.prog t' → Reserved c conn.accept :=
      fun there => Or.inr ⟨t', op', there, some⟩
    rcases taken.mem member with ⟨rfl, pushed⟩ | ⟨rfl, old⟩ | ⟨_, old⟩
    · rcases taken.rule.reserves (inv.determinate taken.program).2 pushed reserves with
        passed | fresh | picked | ⟨task, queued, taskReserves⟩
      · exact Or.inl (here conn passed)
      · exact Or.inr (Or.inl fresh)
      · exact Or.inr (Or.inr ⟨conn, picked, rfl⟩)
      · exact Or.inl (Or.inl ⟨task, queued, by rw [taskReserves]; rfl⟩)
    · exact Or.inl (before (taken.program ▸ List.mem_cons_of_mem _ old))
    · exact Or.inl (before old)

/-- What the listening thread picks is in the pool. -/
theorem entry_of_picks (inv : LockInvariant c) (taken : Taken c c' t e op rest flow)
    {conn : Handle} (picks : op.picks c.shared = some conn) :
    ∃ fd, c.shared.connections.lookup fd = some (some conn) := by
  rcases pooled_of_picks picks with pooled | ⟨fd, value, rfl, entry⟩
  · exact pooled
  · have same := inv.finding t _ taken.first fd conn rfl value entry
    exact ⟨fd, same ▸ entry⟩

/-- A connection that nobody will use again stays so. -/
theorem step_abandoned (inv : LockInvariant c) (taken : Taken c c' t e op rest flow)
    {accept : Nat} (accepted : accept < c.shared.nextAccept) (abandoned : Abandoned c accept) :
    Abandoned c' accept := by
  obtain ⟨unreserved, gone⟩ := abandoned
  refine ⟨fun reserved => ?_, ?_⟩
  · rcases inv.reserved_of_step taken reserved with old | rfl | ⟨conn, picks, same⟩
    · exact unreserved old
    · exact Nat.lt_irrefl _ accepted
    · obtain ⟨fd, entry⟩ := inv.entry_of_picks taken picks
      exact gone fd conn entry same
  · rintro fd conn entry rfl
    rcases inv.entry_old taken entry with ⟨old, _⟩ | ⟨raw, rfl, same, _⟩
    · exact gone fd conn old rfl
    · exact unreserved (Or.inr ⟨t, _, taken.first, by rw [same]; rfl⟩)

/-- Under `connections_lock_` a thread shuts down what it decided on. -/
theorem abandoned_of_pushed (inv : LockInvariant c) (taken : Taken c c' t e op rest flow)
    (orderly : Orderly c t e) (writes : held c t = .writing) {new : Op} {conn : Handle}
    (pushed : new ∈ pushes flow) (shuts : new.shuts = some conn) :
    conn.accept < c.shared.nextAccept ∧ Abandoned c conn.accept := by
  obtain ⟨m', moves⟩ := inv.moves taken.program
  rw [writes] at moves
  rcases taken.rule.shuts pushed shuts with ⟨outer, was, same, _⟩ |
    ⟨_, ⟨fd, events, rfl, _⟩ | ⟨rfl, _⟩ | ⟨rfl, up⟩⟩
  · rw [same]
    exact ⟨(inv.made t _ taken.first outer (Op.concerns_of_shuts was)).1, inv.expiring t writes op
      (taken.program ▸ mem_inside_cons (Op.closes_of_shuts was) (Or.inl rfl)) outer was⟩
  · cases moves with
    | stay allowed => cases allowed
  · cases moves with
    | stay allowed => cases allowed
  · refine ⟨(inv.made t _ taken.first conn rfl).1,
      (orderly.of_prog taken.program).2.2 conn ?_, fun fd other entry same => ?_⟩
    · simp [Op.expires, up]
    · cases inv.erased t [] conn rest taken.program fd other entry same

/-- What is to be shut down under `connections_lock_` after a step was so before, or the
thread comes to it under the lock. -/
theorem inside_of_step (inv : LockInvariant c) (taken : Taken c c' t e op rest flow) {t' : Tid n}
    (writes : held c' t' = .writing) {op' : Op} (member : op' ∈ inside (c'.prog t'))
    {conn : Handle} (shuts : op'.shuts = some conn) :
    held c t' = .writing ∧ (op' ∈ inside (c.prog t') ∨ t' = t ∧ op' ∈ pushes flow) := by
  rw [(inv.modes taken).2 t'] at writes
  by_cases same : t' = t
  · subst same
    rw [if_pos rfl] at writes
    rw [taken.self] at member
    rcases Op.entered_eq_writing writes with rfl | ⟨wrote, unguarded⟩
    · rw [taken.rule.lock_flow] at member
      rw [inv.opened t' [] rest taken.program op' member] at shuts
      cases shuts
    · refine ⟨wrote, ?_⟩
      cases flow with
      | next ops =>
          rcases mem_inside_append member with pushed | ⟨opened, later⟩
          · exact Or.inr ⟨rfl, pushed⟩
          · refine Or.inl (taken.program ▸ mem_inside_cons ?_ (Or.inr later))
            cases op with
            | find fd conn =>
                have closes := taken.rule.find_closes
                rw [pushes, opened] at closes
                cases closes
            | unlock name destructor => cases name <;> first | rfl | cases unguarded
            | _ => rfl
      | unwind =>
          have survives : op'.survives = true :=
            (List.mem_filter.mp (List.takeWhile_subset _ member)).2
          rw [Op.survives_of_shuts shuts] at survives
          cases survives
      | halt => cases member
  · rw [if_neg same] at writes
    rw [taken.other same] at member
    exact ⟨writes, Or.inl member⟩

theorem step_expiring (inv : LockInvariant c) (taken : Taken c c' t e op rest flow)
    (orderly : Orderly c t e) (t' : Tid n) (writes : held c' t' = .writing) (op' : Op)
    (member : op' ∈ inside (c'.prog t')) (conn : Handle) (shuts : op'.shuts = some conn) :
    Abandoned c' conn.accept := by
  obtain ⟨wrote, there | ⟨rfl, pushed⟩⟩ := inv.inside_of_step taken writes member shuts
  · have made := inv.made t' op' (List.takeWhile_subset _ there) conn (Op.concerns_of_shuts shuts)
    exact inv.step_abandoned taken made.1 (inv.expiring t' wrote op' there conn shuts)
  · obtain ⟨accepted, abandoned⟩ := inv.abandoned_of_pushed taken orderly wrote pushed shuts
    exact inv.step_abandoned taken accepted abandoned

/-- An orderly step keeps the invariant. -/
theorem step (inv : LockInvariant c) (orderly : Orderly c t e)
    (stepped : (server n).step t e c = some c') : LockInvariant c' := by
  obtain ⟨op, rest, flow, program, rule, progs⟩ := rule_of_step stepped
  have taken : Taken c c' t e op rest flow := ⟨program, rule, progs⟩
  exact {
    exclusive := (inv.modes taken).1
    disciplined := inv.step_disciplined taken orderly
    ordered := inv.step_ordered taken
    closed := inv.step_closed taken
    opened := inv.step_opened taken
    listens := taken.listens inv.listens
    pooled := rule.pooled (inv.determinate program).1 (inv.adding t op taken.first) inv.pooled
    adding := inv.step_adding taken
    finding := taken.finding inv.listens inv.ordered inv.finding
    made := inv.step_made taken
    queued := inv.step_queued taken
    dequeued := inv.step_dequeued taken
    erased := inv.step_erased taken
    sectioned := inv.step_sectioned taken orderly
    found := inv.step_found taken
    expiring := inv.step_expiring taken orderly }

end LockInvariant

end ServerConfig

end LibSiot
