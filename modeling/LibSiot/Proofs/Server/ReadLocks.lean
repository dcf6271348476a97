/-
Module: LibSiot.Proofs.Server.ReadLocks
Purpose: The locks of the connections, in every run: each reader of a connection
  stands for one task that has to give a read lock back, and who deletes a
  connection holds its lock alone.
Trusted boundary: none
Main exports: Bracketed, ServerConfig.TaskHistory, ServerConfig.ReadersCounted,
  ServerConfig.ReadersCounted.step
-/
import LibSiot.Proofs.Server.Removal

namespace LibSiot

open Interleaving (Flow)
open Interleaving.Machine (pushes AllOps continuation_split total total_eq_zero total_step_eq
  total_step_le)

namespace Op

/-- The operation takes the lock of the connection for writing, or deletes it. -/
def brackets (conn : Handle) : Op → Bool
  | .lock (.connection other) => other = conn
  | .delete other => other = conn
  | _ => false

/-- Whether a thread holds the lock of the connection for writing after the operation. -/
def writes (conn : Handle) (before : Bool) : Op → Bool
  | .lock (.connection other) => other = conn || before
  | .delete other => other ≠ conn && before
  | _ => before

theorem survives_of_brackets {op : Op} {conn : Handle} (brackets : op.brackets conn = true) :
    op.survives = false := by
  cases op <;> first | rfl | cases brackets

theorem writes_of_not_brackets {op : Op} {conn : Handle} (neither : op.brackets conn = false)
    (before : Bool) : op.writes conn before = before := by
  cases op with
  | lock name =>
      cases name with
      | connections | ssl => rfl
      | connection other =>
          rw [brackets] at neither
          rw [writes, neither, Bool.false_or]
  | delete other =>
      have differ : other ≠ conn := of_decide_eq_false neither
      simp [writes, differ]
  | _ => rfl

/-- The operation queues a task that has a read lock to give back. -/
def hands : Op → Bool
  | .addTask (.lockCallAndUnlock _ _) => true
  | _ => false

/-- The operation is the `Unlock()` of a connection. -/
def returnsLock : Op → Bool
  | .unlock (.connection _) _ => true
  | _ => false

/-- How many read locks of the connection the operation takes for a task. -/
def awaits (conn : Handle) : Op → Nat
  | .readLock (.connection other) => if other = conn then 1 else 0
  | _ => 0

/-- How many read locks of the connection the operation gives back, or the task that
it queues. -/
def owes (conn : Handle) : Op → Nat
  | .unlock (.connection other) false => if other = conn then 1 else 0
  | .addTask (.lockCallAndUnlock _ other) => if other = conn then 1 else 0
  | _ => 0

theorem owes_eq_zero {op : Op} {conn : Handle} (returns : op.returnsLock = false)
    (hands : op.hands = false) : op.owes conn = 0 := by
  cases op with
  | unlock name destructor => cases name <;> first | rfl | cases returns
  | addTask task => cases task <;> first | rfl | cases hands
  | _ => rfl

theorem owes_of_common {op : Op} (common : op.common = true) (returns : op.returnsLock = false)
    (conn : Handle) : op.owes conn = 0 := by
  apply owes_eq_zero returns
  cases op <;> first | rfl | cases common

end Op

/-! ### Brackets -/

/-- A thread locks the connection before it deletes it.  `held` tells whether it has
the lock at first; who has it would wait for it forever. -/
inductive Bracketed (conn : Handle) : Bool → List Op → Prop where
  | nil (held : Bool) : Bracketed conn held []
  | lock {ops : List Op} (later : Bracketed conn true ops) :
      Bracketed conn false (.lock (.connection conn) :: ops)
  | stuck (ops : List Op) : Bracketed conn true (.lock (.connection conn) :: ops)
  | delete {ops : List Op} (later : Bracketed conn false ops) :
      Bracketed conn true (.delete conn :: ops)
  | other {held : Bool} {op : Op} {ops : List Op} (neither : op.brackets conn = false)
      (later : Bracketed conn held ops) : Bracketed conn held (op :: ops)

theorem Bracketed.append {conn : Handle} {held : Bool} {ops rest : List Op}
    (neither : ∀ op ∈ ops, op.brackets conn = false) (later : Bracketed conn held rest) :
    Bracketed conn held (ops ++ rest) := by
  induction ops with
  | nil => exact later
  | cons op ops ih =>
      apply Bracketed.other (neither op List.mem_cons_self)
      apply ih
      intro op' member
      exact neither op' (List.mem_cons_of_mem _ member)

namespace ServerState

variable {n : Nat} {t : Tid n} {e : Choice} {s s' : ServerState n} {op : Op}
  {flow : Flow Op} {conn : Handle} {callback : Callback} {rest : List Op}

/-- The thread holds the lock of the connection for writing. -/
def writes (t : Tid n) (conn : Handle) (s : ServerState n) : Bool :=
  (s.locks (.connection conn)).writer = some t

/-! ### The lock for writing -/

theorem bracketed_shutdown {outer : Handle} {held : Bool} (later : Bracketed conn held rest) :
    Bracketed conn held (s.shutdownOps outer ++ rest) := by
  have front : ∀ {after : List Op}, Bracketed conn held after →
      Bracketed conn held (.deregister outer :: (s.shutdownBody outer ++ after)) := by
    intro after later
    apply Bracketed.other rfl
    by_cases same : outer = conn
    · subst same
      rcases s.shutdownBody_eq outer with none | ⟨body, whole, members⟩
      · rw [none]
        exact later
      · rw [whole]
        cases held with
        | true => exact .stuck _
        | false =>
            have inside : ∀ op ∈ body, op.brackets outer = false := by
              intro op member
              rcases members op member with rfl | ⟨rfl, _⟩ | ⟨lower, rfl, _⟩ <;> rfl
            apply Bracketed.lock
            change Bracketed outer true (body ++ [.delete outer] ++ after)
            rw [List.append_assoc]
            exact .append inside (.delete later)
    · apply Bracketed.append ?_ later
      intro op member
      rcases mem_shutdownBody member with rfl | rfl | rfl | ⟨_, rfl, _⟩ | rfl
      · exact decide_eq_false same
      · rfl
      · rfl
      · rfl
      · exact decide_eq_false same
  rcases shutdownOps_cases outer s with plain | ⟨_, _, guarded⟩
  · rw [plain]
    exact front later
  · rw [guarded, List.cons_append, List.cons_append, List.append_assoc]
    exact .other rfl (front (.other rfl later))

/-- Only `Shutdown()` leads to the lock and to the deletion. -/
theorem Rule.brackets (rule : Rule t e s op flow s') {new : Op} (member : new ∈ pushes flow)
    (brackets : new.brackets conn = true) : op = .shutdown conn := by
  cases rule with
  | shutdown outer =>
      rcases mem_shutdownOps member with rfl | rfl | member | rfl
      · cases brackets
      · cases brackets
      · rcases mem_shutdownBody member with rfl | rfl | rfl | ⟨_, rfl, _⟩ | rfl
        · rw [of_decide_eq_true brackets]
        · cases brackets
        · cases brackets
        · cases brackets
        · rw [of_decide_eq_true brackets]
      · cases brackets
  | callbackUses | drain | userUses =>
      rcases mem_useOps_append member with rfl | rfl | rfl | rfl <;> cases brackets
  | takeTask task =>
      cases task <;> exact absurd brackets (List.any_eq_false.mp rfl new member)
  | deregister outer =>
      obtain ⟨fd, _, rfl | rfl | rfl | rfl⟩ := mem_dequeueOps member <;> cases brackets
  | _ => exact absurd brackets (List.any_eq_false.mp rfl new member)

theorem Rule.delete_flow (rule : Rule t e s (.delete conn) flow s') : flow = .next [] := by
  cases rule
  rfl

/-- What is left to a thread after a step is bracketed. -/
theorem Rule.bracketed (rule : Rule t e s op flow s') {held : Bool}
    (bracketed : Bracketed conn held (op :: rest))
    (free : op = .lock (.connection conn) → held = false) :
    Bracketed conn (op.writes conn held) ((server n).continuation flow rest) := by
  cases bracketed with
  | lock later =>
      rw [rule.lock_flow]
      simpa [Op.writes] using later
  | stuck => cases free rfl
  | delete later =>
      rw [rule.delete_flow]
      simpa [Op.writes] using later
  | other neither later =>
      rw [Op.writes_of_not_brackets neither]
      by_cases shuts : ∃ outer, op = .shutdown outer
      · obtain ⟨outer, rfl⟩ := shuts
        rw [rule.shutdown_flow]
        exact bracketed_shutdown later
      · cases flow with
        | next ops =>
            apply later.append
            intro new member
            apply Bool.eq_false_of_not_eq_true
            intro brackets
            exact shuts ⟨conn, rule.brackets member brackets⟩
        | unwind =>
            -- An exception skips both the lock and the deletion.
            have none : ∀ op ∈ rest.filter Op.survives, op.brackets conn = false := by
              intro op member
              apply Bool.eq_false_of_not_eq_true
              intro brackets
              have survives := (List.mem_filter.mp member).2
              rw [Op.survives_of_brackets brackets] at survives
              cases survives
            have left := Bracketed.append none (.nil held)
            rwa [List.append_nil] at left
        | halt => exact .nil held

/-- Other operations leave the lock to who writes. -/
theorem Rule.writer_kept (rule : Rule t e s op flow s') (neither : op.brackets conn = false)
    (reads : ∀ destructor, op = .unlock (.connection conn) destructor →
      (s.locks (.connection conn)).writer ≠ some t) :
    (s'.locks (.connection conn)).writer = (s.locks (.connection conn)).writer := by
  cases rule with
  | lock name l taken =>
      have other : .connection conn ≠ name := by
        rintro rfl
        exact of_decide_eq_false neither rfl
      simp only [setLock, Function.update_of_ne other]
  | readLock name l taken =>
      by_cases same : .connection conn = name
      · subst same
        obtain ⟨unwritten, rfl⟩ := RwLock.readLock_eq_some.mp taken
        simp only [setLock, Function.update_self, unwritten]
      · simp only [setLock, Function.update_of_ne same]
  | unlock name destructor =>
      by_cases same : .connection conn = name
      · subst same
        simp only [setLock, Function.update_self, RwLock.unlock,
          if_neg (reads destructor rfl)]
      · simp only [setLock, Function.update_of_ne same]
  | delete other =>
      have names : LockName.connection conn ≠ .connection other := by
        intro names
        exact of_decide_eq_false neither (LockName.connection.inj names).symm
      simp only [setLock, record, Function.update_of_ne names]
  | _ => rfl

/-- Who writes after a step: the thread that took the lock, until it deletes. -/
theorem Rule.writes_eq (rule : Rule t e s op flow s')
    (bracketed : Bracketed conn (s.writes t conn) (op :: rest))
    (reads : ∀ destructor, op = .unlock (.connection conn) destructor →
      (s.locks (.connection conn)).writer ≠ some t) (t' : Tid n) :
    s'.writes t' conn = if t' = t then op.writes conn (s.writes t conn) else s.writes t' conn := by
  by_cases brackets : op.brackets conn = true
  · cases rule with
    | lock name l taken =>
        cases name with
        | connections | ssl => cases brackets
        | connection other =>
            obtain rfl : other = conn := of_decide_eq_true brackets
            obtain ⟨unwritten, _, rfl⟩ := RwLock.lock_eq_some.mp taken
            by_cases here : t' = t
            · simp [writes, setLock, here, Op.writes]
            · simp [writes, setLock, here, unwritten, Ne.symm here]
    | delete other =>
        obtain rfl : other = conn := of_decide_eq_true brackets
        generalize held : s.writes t other = before at bracketed
        cases bracketed with
        | delete =>
            have writer : (s.locks (.connection other)).writer = some t := of_decide_eq_true held
            by_cases here : t' = t
            · simp [writes, setLock, record, RwLock.free, here, Op.writes]
            · simp [writes, setLock, record, RwLock.free, here, writer, Ne.symm here]
        | other neither =>
            rw [brackets] at neither
            cases neither
    | _ => cases brackets
  · have neither := Bool.eq_false_of_not_eq_true brackets
    rw [Op.writes_of_not_brackets neither, writes, rule.writer_kept neither reads, writes]
    split
    · rename_i here
      rw [here]
    · rfl

/-- Who locks a connection had not locked it before. -/
theorem Rule.lock_free (rule : Rule t e s (.lock (.connection conn)) flow s') :
    s.writes t conn = false := by
  cases rule with
  | lock name l taken =>
      apply decide_eq_false
      rw [(RwLock.lock_eq_some.mp taken).1]
      exact (Option.some_ne_none t).symm

/-- While a thread writes nobody reads. -/
theorem Rule.alone (rule : Rule t e s op flow s') {name : LockName}
    (alone : (s.locks name).writer ≠ none → (s.locks name).readers = [])
    (written : (s'.locks name).writer ≠ none) : (s'.locks name).readers = [] := by
  cases rule with
  | lock other l taken =>
      by_cases same : name = other
      · subst same
        obtain ⟨_, _, rfl⟩ := RwLock.lock_eq_some.mp taken
        simp only [setLock, Function.update_self]
      · simp only [setLock, Function.update_of_ne same] at written ⊢
        exact alone written
  | readLock other l taken =>
      by_cases same : name = other
      · subst same
        obtain ⟨_, rfl⟩ := RwLock.readLock_eq_some.mp taken
        simp [setLock] at written
      · simp only [setLock, Function.update_of_ne same] at written ⊢
        exact alone written
  | unlock other destructor =>
      by_cases same : name = other
      · subst same
        simp only [setLock, Function.update_self, RwLock.unlock] at written ⊢
        split at written
        · exact absurd rfl written
        · simp [alone written, *]
      · simp only [setLock, Function.update_of_ne same] at written ⊢
        exact alone written
  | delete other =>
      by_cases same : name = .connection other
      · subst same
        simp [setLock, RwLock.free] at written
      · simp only [setLock, Function.update_of_ne same] at written ⊢
        exact alone written
  | _ => exact alone written

/-! ### The read locks -/

/-- A `ReadLock()` comes right before the task for which it is taken. -/
theorem Rule.locks_split (rule : Rule t e s op flow s') {pre between : List Op}
    (pushed : pushes flow = pre ++ .readLock (.connection conn) :: between) :
    pre = [] ∧ ∃ callback between', between =
      .addTask (.lockCallAndUnlock callback conn) :: between' := by
  have reads : Op.reads (.readLock (.connection conn)) = true := rfl
  have member : .readLock (.connection conn) ∈ pushes flow :=
    pushed ▸ List.mem_append_right _ List.mem_cons_self
  have common := fun spreads => rule.common_of_pushed spreads _ member
  cases rule with
  | registered | indeterminateRegistered | lookupError | found =>
      cases pre with
      | nil =>
          cases pushed
          exact ⟨rfl, _, _, rfl⟩
      | cons first pre =>
          have late := congrArg (List.any · Op.reads) (List.cons.inj pushed).2
          simp [Op.reads] at late
  | takeTask | callbackUses | shutdown | deregister | drain | userUses => cases common rfl
  | _ => exact absurd reads (List.any_eq_false.mp rfl _ member)

/-- A task that gives a read lock back is queued right after the `ReadLock()`; one for
`DataReady` after the entry was found. -/
theorem Rule.hands_split (rule : Rule t e s op flow s') {pre between : List Op}
    (pushed : pushes flow = pre ++ .addTask (.lockCallAndUnlock callback conn) :: between) :
    pre = [.readLock (.connection conn)] ∧ (callback = .dataReady →
      ∃ fd value, op = .find fd conn ∧ s.connections.lookup fd = some value) := by
  have hands : Op.hands (.addTask (.lockCallAndUnlock callback conn)) = true := rfl
  have member : .addTask (.lockCallAndUnlock callback conn) ∈ pushes flow :=
    pushed ▸ List.mem_append_right _ List.mem_cons_self
  have common := fun spreads => rule.common_of_pushed spreads _ member
  cases rule with
  | registered | indeterminateRegistered | lookupError | found =>
      rcases pre with _ | ⟨first, _ | ⟨second, pre⟩⟩
      · cases (List.cons.inj pushed).1
      · obtain ⟨first, rest⟩ := List.cons.inj pushed
        cases first
        cases (List.cons.inj rest).1
        refine ⟨rfl, fun same => ?_⟩
        first
          | exact ⟨_, _, rfl, by assumption⟩
          | cases same
      · have late := congrArg (List.any · Op.hands)
          (List.cons.inj (List.cons.inj pushed).2).2
        simp [Op.hands] at late
  | takeTask | callbackUses | shutdown | deregister | drain | userUses => cases common rfl
  | _ => exact absurd hands (List.any_eq_false.mp rfl _ member)

/-- A thread that has a read lock to give back took the task. -/
theorem Rule.returns (rule : Rule t e s op flow s') {destructor : Bool}
    (member : .unlock (.connection conn) destructor ∈ pushes flow) :
    op = .takeTask ∧ destructor = false ∧
      ∃ callback, s.executor.head? = some (.lockCallAndUnlock callback conn) := by
  have returns : Op.returnsLock (.unlock (.connection conn) destructor) = true := rfl
  cases rule with
  | takeTask task tasks queue =>
      cases task with
      | lockCallAndUnlock callback other =>
          simp only [pushes, taskOps, List.cons_append, List.nil_append, List.mem_cons,
            List.not_mem_nil, or_false, reduceCtorEq, false_or, Op.unlock.injEq,
            LockName.connection.injEq, false_and] at member
          rw [member.1, queue]
          exact ⟨rfl, member.2, callback, rfl⟩
      | connectionTerminated | shutdown =>
          exact absurd returns (List.any_eq_false.mp rfl _ member)
  | shutdown outer =>
      rcases mem_shutdownOps member with impossible | impossible | member | impossible
      · cases impossible
      · cases impossible
      · rcases mem_shutdownBody member with impossible | impossible | impossible |
          ⟨_, impossible, _⟩ | impossible <;> cases impossible
      · cases impossible
  | callbackUses | drain | userUses =>
      rcases mem_useOps_append member with impossible | impossible | impossible | impossible <;>
        cases impossible
  | deregister outer =>
      obtain ⟨fd, _, impossible | impossible | impossible | impossible⟩ :=
        mem_dequeueOps member <;> cases impossible
  | _ => exact absurd returns (List.any_eq_false.mp rfl _ member)

/-- The tasks with a read lock of the connection that are queued. -/
def queuedFor (conn : Handle) (s : ServerState n) : Nat :=
  s.executor.countP fun task => task.reserves = some conn

@[simp] theorem queuedFor_append (tasks : List Closure) (task : Closure) :
    (tasks ++ [task]).countP (fun task => task.reserves = some conn) =
      tasks.countP (fun task => task.reserves = some conn) + (Op.addTask task).owes conn := by
  rw [List.countP_append, List.countP_singleton]
  cases task <;> simp [Closure.reserves, Op.owes]

/-- `Unlock()` gives one read lock back. -/
theorem unlock_readers {l : RwLock (Tid n)} (reads : l.writer ≠ some t) (taken : l.readers ≠ []) :
    (l.unlock t).readers.length + 1 = l.readers.length := by
  have positive := List.length_pos_iff.mpr taken
  rw [RwLock.unlock, if_neg reads]
  dsimp only
  split
  · rename_i member
    rw [List.length_erase_of_mem member]
    omega
  · rw [List.length_tail]
    omega

/-- What `Shutdown()` and `Deregister()` push has nothing to do with read locks. -/
theorem Rule.no_readLocks (rule : Rule t e s op flow s') (conn : Handle)
    (spreads : op.spreads = true) (other : op ≠ .takeTask) :
    ((pushes flow).map (Op.awaits conn)).sum = 0 ∧ ((pushes flow).map (Op.owes conn)).sum = 0 := by
  have zero : ∀ weight : Op → Nat, (∀ new ∈ pushes flow, weight new = 0) →
      ((pushes flow).map weight).sum = 0 := by
    intro weight none
    apply List.sum_eq_zero
    intro w member
    obtain ⟨new, there, rfl⟩ := List.mem_map.mp member
    exact none new there
  have common := rule.common_of_pushed spreads
  constructor
  · apply zero
    intro new member
    have common := common new member
    cases new with
    | readLock name => cases name <;> first | rfl | cases common
    | _ => rfl
  · apply zero
    intro new member
    apply Op.owes_of_common (common new member)
    cases new with
    | unlock name destructor =>
        cases name with
        | connections | ssl => rfl
        | connection conn' => exact absurd (rule.returns member).1 other
    | _ => rfl

/-- Each step takes and gives back as many read locks as it adds and removes tasks that
have one to give back. -/
theorem Rule.readers_eq (rule : Rule t e s op flow s')
    (gives : ∀ destructor, op = .unlock (.connection conn) destructor → destructor = false ∧
      (s.locks (.connection conn)).writer ≠ some t ∧ (s.locks (.connection conn)).readers ≠ [])
    (deletes : op = .delete conn → (s.locks (.connection conn)).readers = []) :
    (s'.locks (.connection conn)).readers.length + ((pushes flow).map (Op.awaits conn)).sum +
        s.queuedFor conn + op.owes conn =
      (s.locks (.connection conn)).readers.length + op.awaits conn + s'.queuedFor conn +
        ((pushes flow).map (Op.owes conn)).sum := by
  cases rule with
  | lock name l taken =>
      by_cases same : .connection conn = name
      · subst same
        obtain ⟨_, unread, rfl⟩ := RwLock.lock_eq_some.mp taken
        simp [setLock, unread, pushes, Op.awaits, Op.owes, queuedFor]
      · simp [setLock, Function.update_of_ne same, pushes, Op.awaits, Op.owes, queuedFor]
  | readLock name l taken =>
      cases name with
      | connections | ssl => rfl
      | connection other =>
          obtain ⟨_, rfl⟩ := RwLock.readLock_eq_some.mp taken
          by_cases same : other = conn
          · subst same
            simp [setLock, pushes, Op.awaits, Op.owes, queuedFor]
          · have names : LockName.connection conn ≠ .connection other := by
              simpa [eq_comm] using same
            simp [setLock, names, pushes, Op.awaits, Op.owes, queuedFor, same]
  | unlock name destructor =>
      cases name with
      | connections | ssl => rfl
      | connection other =>
          by_cases same : other = conn
          · subst same
            obtain ⟨rfl, reads, taken⟩ := gives destructor rfl
            have fewer := unlock_readers reads taken
            simp only [setLock, Function.update_self, pushes, Op.awaits, Op.owes, queuedFor,
              List.map_nil, List.sum_nil, if_true]
            omega
          · have names : LockName.connection conn ≠ .connection other := by
              simpa [eq_comm] using same
            have none : Op.owes conn (.unlock (.connection other) destructor) = 0 := by
              cases destructor <;> simp [Op.owes, same]
            simp [setLock, names, pushes, Op.awaits, none, queuedFor]
  | delete other =>
      by_cases same : other = conn
      · subst same
        simp [setLock, RwLock.free, deletes rfl, pushes, Op.awaits, Op.owes, queuedFor, record]
      · have names : LockName.connection conn ≠ .connection other := by
          simpa [eq_comm] using same
        simp [setLock, names, pushes, Op.awaits, Op.owes, queuedFor, record]
  | addTask task =>
      simp only [queuedFor, queuedFor_append, pushes, Op.awaits, List.map_nil, List.sum_nil]
      omega
  | takeTask task tasks queue =>
      simp only [queuedFor, queue, List.countP_cons]
      cases task with
      | lockCallAndUnlock callback other =>
          simp [pushes, taskOps, Op.awaits, Op.owes, Closure.reserves]
          omega
      | connectionTerminated | shutdown =>
          simp [pushes, taskOps, Op.awaits, Op.owes, Closure.reserves]
  | registered | indeterminateRegistered | lookupError | found =>
      simp only [pushes, lockAndAdd, Op.awaits, Op.owes, queuedFor, List.map_cons, List.map_nil,
        List.sum_cons, List.sum_nil, List.map_append, List.sum_append]
      omega
  | shutdown outer =>
      obtain ⟨awaits, owes⟩ := (Rule.shutdown (t := t) (e := e) (s := s) outer).no_readLocks
        conn rfl (by simp)
      rw [awaits, owes]
      rfl
  | deregister outer =>
      obtain ⟨awaits, owes⟩ := (Rule.deregister (t := t) (e := e) (s := s) outer).no_readLocks
        conn rfl (by simp)
      rw [awaits, owes]
      rfl
  | callbackUses callback part other =>
      rw [pushes, sum_useOps (Op.awaits conn) other _ _ rfl rfl rfl,
        sum_useOps (Op.owes conn) other _ _ rfl rfl rfl]
      rfl
  | drain part =>
      rw [pushes, sum_useOps (Op.awaits conn) part _ _ rfl rfl rfl,
        sum_useOps (Op.owes conn) part _ _ rfl rfl rfl]
      rfl
  | userUses other =>
      rw [pushes, sum_useOps (Op.awaits conn) other _ _ rfl rfl rfl,
        sum_useOps (Op.owes conn) other _ _ rfl rfl rfl]
      rfl
  | callbackDefers | userDefers =>
      simp only [queuedFor, record, queuedFor_append]
      rfl
  | _ => rfl

end ServerState

namespace ServerConfig

open ServerState

variable {n : Nat}

/-! ### What is remembered of a run -/

/-- The task that each thread took last, and the tasks that an exception of the callback
left before their `Unlock()`. -/
structure TaskHistory (n : Nat) where
  task : Tid n → Option Closure := fun _ => none
  lost : List Closure := []

/-- An operation of thread `t` before `rest`. -/
def TaskHistory.note (t : Tid n) (op : Op) (rest : List Op) (e : Choice) (s : ServerState n)
    (k : TaskHistory n) : TaskHistory n :=
  match op with
  | .takeTask => { k with task := Function.update k.task t s.executor.head? }
  | .running _ _ =>
      if e.handler = .throws ∧ rest.any Op.returnsLock = true then
        { k with lost := (k.task t).toList ++ k.lost }
      else k
  | _ => k

/-- Each step is remembered. -/
def noteTasks (c : ServerConfig n) (t : Tid n) (e : Choice) (k : TaskHistory n) : TaskHistory n :=
  match c.prog t with
  | [] => k
  | op :: rest => k.note t op rest e c.shared

/-! ### The invariant -/

/-- Each reader of a connection stands for one task, and who deletes a connection holds
its lock alone. -/
structure ReadersCounted (k : TaskHistory n) (c : ServerConfig n) : Prop where
  ordered : ∀ t, (c.prog t).Pairwise fun a b => a.precedes b = true
  /-- A `ReadLock()` comes right before its task. -/
  locked : ∀ t pre conn post, c.prog t = pre ++ .readLock (.connection conn) :: post →
    pre = [] ∧ ∃ callback post', post = .addTask (.lockCallAndUnlock callback conn) :: post'
  handed : ∀ t pre callback conn post,
    c.prog t = pre ++ .addTask (.lockCallAndUnlock callback conn) :: post →
      pre = [] ∨ pre = [.readLock (.connection conn)]
  executing : ∀ t conn destructor, .unlock (.connection conn) destructor ∈ c.prog t →
    destructor = false ∧ ∃ callback, k.task t = some (.lockCallAndUnlock callback conn)
  bracketed : ∀ t conn, Bracketed conn (c.shared.writes t conn) (c.prog t)
  alone : ∀ name, (c.shared.locks name).writer ≠ none → (c.shared.locks name).readers = []
  counted : ∀ conn,
    (c.shared.locks (.connection conn)).readers.length + total (Op.awaits conn) c.prog =
      c.shared.queuedFor conn + total (Op.owes conn) c.prog +
        k.lost.countP fun task => task.reserves = some conn

theorem ReadersCounted.init (serverfd : Nat) (ssl : Bool) (maxIdle : Int32) :
    ReadersCounted {} (init n serverfd ssl maxIdle) where
  ordered t := by
    cases t <;> exact Op.pairwise_of_free (List.all_eq_true.mp rfl)
  locked t pre conn post split := absurd split (init_prog_ne rfl)
  handed t pre callback conn post split := absurd split (init_prog_ne rfl)
  executing t conn destructor member := absurd member (not_mem_init rfl)
  bracketed t conn := by
    cases t with
    | reaper => exact .other rfl (.other rfl (.nil _))
    | _ => exact .other rfl (.nil _)
  alone name written := absurd rfl written
  counted conn := by
    have awaits : total (Op.awaits conn) (ServerConfig.init n serverfd ssl maxIdle).prog = 0 :=
      total_eq_zero (forall_init rfl rfl (fun _ => rfl) rfl)
    have owes : total (Op.owes conn) (ServerConfig.init n serverfd ssl maxIdle).prog = 0 :=
      total_eq_zero (forall_init rfl rfl (fun _ => rfl) rfl)
    rw [awaits, owes]
    rfl

variable {c c' : ServerConfig n} {t : Tid n} {e : Choice} {op : Op} {rest : List Op}
  {flow : Flow Op} {k : TaskHistory n} {conn : Handle}

namespace ReadersCounted

/-! ### What a state says -/

/-- What an operation leaves to be done before a task is queued. -/
theorem not_hands_of_later (inv : ReadersCounted k c) (program : c.prog t = op :: rest)
    (other : ∀ conn, op ≠ .readLock (.connection conn)) {later : Op} (member : later ∈ rest) :
    later.hands = false := by
  cases later with
  | addTask task =>
      cases task with
      | lockCallAndUnlock callback conn =>
          obtain ⟨pre, post, rfl⟩ := List.append_of_mem member
          rcases inv.handed t (op :: pre) callback conn post program with none | only
          · cases none
          · exact absurd (List.cons.inj only).1 (other conn)
      | _ => rfl
  | _ => rfl

theorem not_returnsLock_of_later (inv : ReadersCounted k c) (program : c.prog t = op :: rest)
    (outside : op.inTask = false) {later : Op} (member : later ∈ rest) :
    later.returnsLock = false := by
  have ordered := inv.ordered t
  rw [program] at ordered
  have precedes := (List.pairwise_cons.mp ordered).1 later member
  cases later with
  | unlock name destructor =>
      cases name with
      | connections | ssl => rfl
      | connection conn =>
          rw [Op.precedes, outside] at precedes
          cases precedes
  | _ => rfl

theorem not_awaits_of_later (inv : ReadersCounted k c) (program : c.prog t = op :: rest)
    (conn : Handle) {later : Op} (member : later ∈ rest) : later.awaits conn = 0 := by
  have ordered := inv.ordered t
  rw [program] at ordered
  have precedes := (List.pairwise_cons.mp ordered).1 later member
  cases later with
  | readLock name =>
      cases name with
      | connections | ssl => rfl
      | connection other => cases precedes
  | _ => rfl

/-- Each thread that is about to take a read lock has the task for it at hand. -/
theorem awaits_le (inv : ReadersCounted k c) (conn : Handle) (t : Tid n) :
    ((c.prog t).map (Op.awaits conn)).sum ≤ ((c.prog t).map (Op.owes conn)).sum := by
  cases program : c.prog t with
  | nil => exact Nat.le_refl _
  | cons op rest =>
      have later : (rest.map (Op.awaits conn)).sum = 0 := by
        apply List.sum_eq_zero
        intro w member
        obtain ⟨op', there, rfl⟩ := List.mem_map.mp member
        exact inv.not_awaits_of_later program conn there
      rw [List.map_cons, List.sum_cons, later]
      by_cases waits : op = .readLock (.connection conn)
      · subst waits
        obtain ⟨_, callback, post, rfl⟩ := inv.locked t [] conn rest program
        simp [Op.awaits, Op.owes]
      · have none : op.awaits conn = 0 := by
          cases op with
          | readLock name =>
              cases name with
              | connections | ssl => rfl
              | connection other =>
                  have differ : other ≠ conn := by
                    rintro rfl
                    exact waits rfl
                  exact if_neg differ
          | _ => rfl
        omega

/-- A read lock that is to be given back was taken. -/
theorem total_awaits_lt (inv : ReadersCounted k c)
    (member : .unlock (.connection conn) false ∈ c.prog t) :
    total (Op.awaits conn) c.prog + 1 ≤ total (Op.owes conn) c.prog := by
  apply Interleaving.Machine.total_add_le (inv.awaits_le conn) (t := t)
  have owes : 1 ≤ ((c.prog t).map (Op.owes conn)).sum := by
    have one : Op.owes conn (.unlock (.connection conn) false) = 1 := if_pos rfl
    rw [← one]
    exact List.single_le_sum (fun _ _ => Nat.zero_le _) _ (List.mem_map_of_mem member)
  have none : ((c.prog t).map (Op.awaits conn)).sum = 0 := by
    cases program : c.prog t with
    | nil => rfl
    | cons op rest =>
        apply List.sum_eq_zero
        intro w weighed
        obtain ⟨op', there, rfl⟩ := List.mem_map.mp weighed
        rcases List.mem_cons.mp there with rfl | later
        · -- Behind a `ReadLock()` there is no `Unlock()`.
          cases op' with
          | readLock name =>
              cases name with
              | connections | ssl => rfl
              | connection other =>
                  rw [program] at member
                  have returns := inv.not_returnsLock_of_later program rfl
                    ((List.mem_cons.mp member).resolve_left nofun)
                  cases returns
          | _ => rfl
        · exact inv.not_awaits_of_later program conn later
  omega

/-- Who gives a read lock back does not write, and is counted. -/
theorem reads_of_unlock (inv : ReadersCounted k c) {destructor : Bool}
    (member : .unlock (.connection conn) destructor ∈ c.prog t) :
    destructor = false ∧ (c.shared.locks (.connection conn)).writer = none ∧
      (c.shared.locks (.connection conn)).readers ≠ [] := by
  obtain ⟨rfl, _⟩ := inv.executing t conn destructor member
  have more := inv.total_awaits_lt member
  have counted := inv.counted conn
  have taken : (c.shared.locks (.connection conn)).readers ≠ [] := by
    apply List.ne_nil_of_length_pos
    omega
  refine ⟨rfl, ?_, taken⟩
  by_contra written
  exact taken (inv.alone _ written)

/-- The thread that deletes a connection has its lock, and nobody reads. -/
theorem writes_of_delete (inv : ReadersCounted k c) (program : c.prog t = .delete conn :: rest) :
    (c.shared.locks (.connection conn)).writer = some t ∧
      (c.shared.locks (.connection conn)).readers = [] := by
  have bracketed := inv.bracketed t conn
  rw [program] at bracketed
  generalize held : c.shared.writes t conn = before at bracketed
  cases bracketed with
  | delete =>
      have writer : (c.shared.locks (.connection conn)).writer = some t := of_decide_eq_true held
      refine ⟨writer, inv.alone _ ?_⟩
      rw [writer]
      exact Option.some_ne_none t
  | other neither => exact absurd rfl (of_decide_eq_false neither)

/-! ### What a step keeps -/

theorem step_ordered (inv : ReadersCounted k c) (taken : Taken c c' t e op rest flow)
    (t' : Tid n) : (c'.prog t').Pairwise fun a b => a.precedes b = true := by
  by_cases same : t' = t
  · subst same
    rw [taken.self]
    exact taken.rule.pairwise_precedes (taken.program ▸ inv.ordered t')
  · rw [taken.other same]
    exact inv.ordered t'

theorem step_locked (inv : ReadersCounted k c) (taken : Taken c c' t e op rest flow)
    (t' : Tid n) (pre : List Op) (conn : Handle) (post : List Op)
    (split : c'.prog t' = pre ++ .readLock (.connection conn) :: post) :
    pre = [] ∧ ∃ callback post', post = .addTask (.lockCallAndUnlock callback conn) :: post' := by
  by_cases same : t' = t
  · subst same
    rw [taken.self] at split
    rcases continuation_split split rfl with ⟨between, pushed, rfl⟩ | ⟨pre', rfl, rfl⟩
    · obtain ⟨rfl, callback, between', rfl⟩ := taken.rule.locks_split pushed
      exact ⟨rfl, callback, between' ++ rest, rfl⟩
    · cases (inv.locked t' (op :: pre') conn post taken.program).1
  · rw [taken.other same] at split
    exact inv.locked t' pre conn post split

theorem step_handed (inv : ReadersCounted k c) (taken : Taken c c' t e op rest flow)
    (t' : Tid n) (pre : List Op) (callback : Callback) (conn : Handle) (post : List Op)
    (split : c'.prog t' = pre ++ .addTask (.lockCallAndUnlock callback conn) :: post) :
    pre = [] ∨ pre = [.readLock (.connection conn)] := by
  by_cases same : t' = t
  · subst same
    rw [taken.self] at split
    rcases continuation_split split rfl with ⟨between, pushed, rfl⟩ | ⟨pre', rfl, rfl⟩
    · exact Or.inr (taken.rule.hands_split pushed).1
    · left
      rcases inv.handed t' (op :: pre') callback conn post taken.program with none | only
      · cases none
      · obtain ⟨rfl, rfl⟩ := List.cons.inj only
        rw [taken.rule.readLock_flow]
        rfl
  · rw [taken.other same] at split
    exact inv.handed t' pre callback conn post split

theorem note_task (t' : Tid n) (s : ServerState n) :
    (k.note t op rest e s).task t' =
      if t' = t ∧ op = .takeTask then s.executor.head? else k.task t' := by
  cases op with
  | takeTask =>
      by_cases same : t' = t
      · simp [TaskHistory.note, same]
      · simp [TaskHistory.note, same]
  | running =>
      simp only [TaskHistory.note]
      split <;> simp
  | _ => simp [TaskHistory.note]

theorem step_executing (inv : ReadersCounted k c) (taken : Taken c c' t e op rest flow)
    (t' : Tid n) (conn : Handle) (destructor : Bool)
    (member : .unlock (.connection conn) destructor ∈ c'.prog t') :
    destructor = false ∧ ∃ callback, (k.note t op rest e c.shared).task t' =
      some (.lockCallAndUnlock callback conn) := by
  rw [note_task]
  rcases taken.mem member with ⟨rfl, pushed⟩ | ⟨rfl, old⟩ | ⟨other, old⟩
  · obtain ⟨rfl, quiet, callback, queue⟩ := taken.rule.returns pushed
    exact ⟨quiet, callback, by rw [if_pos ⟨rfl, rfl⟩, queue]⟩
  · have later : op ≠ .takeTask := by
      rintro rfl
      cases inv.not_returnsLock_of_later taken.program rfl old
    rw [if_neg fun both => later both.2]
    exact inv.executing t' conn destructor (taken.program ▸ List.mem_cons_of_mem _ old)
  · rw [if_neg fun both => other both.1]
    exact inv.executing t' conn destructor old

theorem step_bracketed (inv : ReadersCounted k c) (taken : Taken c c' t e op rest flow)
    (t' : Tid n) (conn : Handle) : Bracketed conn (c'.shared.writes t' conn) (c'.prog t') := by
  have bracketed := inv.bracketed t conn
  rw [taken.program] at bracketed
  have reads : ∀ destructor, op = .unlock (.connection conn) destructor →
      (c.shared.locks (.connection conn)).writer ≠ some t := by
    rintro destructor rfl
    rw [(inv.reads_of_unlock taken.first).2.1]
    exact (Option.some_ne_none t).symm
  rw [taken.rule.writes_eq bracketed reads]
  split
  · rename_i same
    subst same
    rw [taken.self]
    apply taken.rule.bracketed bracketed
    rintro rfl
    exact taken.rule.lock_free
  · rename_i other
    rw [taken.other other]
    exact inv.bracketed t' conn

/-- Behind a callback at most the one `Unlock()` of its task is left. -/
theorem sum_owes_of_later (inv : ReadersCounted k c) (program : c.prog t = op :: rest)
    (other : ∀ conn, op ≠ .readLock (.connection conn)) {part : Handle}
    (member : .unlock (.connection part) false ∈ rest) (conn : Handle) :
    (rest.map (Op.owes conn)).sum = if part = conn then 1 else 0 := by
  obtain ⟨before, after, rfl⟩ := List.append_of_mem member
  have ordered := inv.ordered t
  rw [program] at ordered
  have inOrder := List.pairwise_append.mp (List.pairwise_cons.mp ordered).2
  have zero : ∀ ops : List Op, (∀ op ∈ ops, op ∈ before ++ .unlock (.connection part) false :: after) →
      (∀ op ∈ ops, op.returnsLock = false) → (ops.map (Op.owes conn)).sum = 0 := by
    intro ops inside returns
    apply List.sum_eq_zero
    intro w weighed
    obtain ⟨op', there, rfl⟩ := List.mem_map.mp weighed
    exact Op.owes_eq_zero (returns op' there)
      (inv.not_hands_of_later program other (inside op' there))
  have first : (before.map (Op.owes conn)).sum = 0 := by
    apply zero before fun op' there => List.mem_append_left _ there
    intro op' there
    have inTask : op'.inTask = true := inOrder.2.2 op' there _ List.mem_cons_self
    cases op' with
    | unlock name => cases name <;> first | rfl | cases inTask
    | _ => rfl
  have last : (after.map (Op.owes conn)).sum = 0 := by
    apply zero after fun op' there => List.mem_append_right _ (List.mem_cons_of_mem _ there)
    intro op' there
    have precedes := (List.pairwise_cons.mp inOrder.2.1).1 op' there
    cases op' with
    | unlock name destructor => cases name <;> first | rfl | cases precedes
    | _ => rfl
  rw [List.map_append, List.map_cons, List.sum_append, List.sum_cons, first, last]
  simp [Op.owes]

theorem note_lost (other : op.inTask = false) (s : ServerState n) :
    (k.note t op rest e s).lost = k.lost := by
  cases op with
  | running => cases other
  | _ => rfl

/-- Where the callback of a task throws, the task is lost with its `Unlock()`, and the
thread owes nothing more. -/
theorem step_owes_lost {callback : Callback} {called : Handle} (inv : ReadersCounted k c)
    (taken : Taken c c' t e (.running callback called) rest .unwind)
    (threw : e.handler = .throws) (returns : rest.any Op.returnsLock = true) (conn : Handle) :
    total (Op.owes conn) c'.prog +
        (k.note t (.running callback called) rest e c.shared).lost.countP
          (fun task => task.reserves = some conn) =
      total (Op.owes conn) c.prog + k.lost.countP (fun task => task.reserves = some conn) := by
  obtain ⟨op', later, is⟩ := List.any_eq_true.mp returns
  obtain ⟨part, rfl⟩ : ∃ part, op' = .unlock (.connection part) false := by
    cases op' with
    | unlock name destructor =>
        cases name with
        | connections | ssl => cases is
        | connection part =>
            obtain ⟨rfl, _⟩ := inv.executing t part destructor
              (taken.program ▸ List.mem_cons_of_mem _ later)
            exact ⟨part, rfl⟩
    | _ => cases is
  obtain ⟨_, callback', task⟩ := inv.executing t part false
    (taken.program ▸ List.mem_cons_of_mem _ later)
  have sum := inv.sum_owes_of_later taken.program nofun later conn
  have survivors : ((rest.filter Op.survives).map (Op.owes conn)).sum = 0 := by
    apply List.sum_eq_zero
    intro w weighed
    obtain ⟨op', there, rfl⟩ := List.mem_map.mp weighed
    have survives := (List.mem_filter.mp there).2
    cases op' with
    | unlock name destructor => cases name <;> cases destructor <;> first | rfl | cases survives
    | takeTask => rfl
    | _ => cases survives
  have updated := Interleaving.Machine.total_update (Op.owes conn) c.prog t
    ((server n).continuation .unwind rest)
  rw [← taken.progs, taken.program, List.map_cons, List.sum_cons, sum,
    Interleaving.Machine.continuation_unwind] at updated
  have lost : (k.note t (.running callback called) rest e c.shared).lost =
      .lockCallAndUnlock callback' part :: k.lost := by
    rw [TaskHistory.note, if_pos ⟨threw, returns⟩, task]
    rfl
  rw [lost, List.countP_cons]
  change _ + _ = _ + ((rest.filter Op.survives).map (Op.owes conn)).sum at updated
  rw [survivors] at updated
  simp only [Closure.reserves, Option.some.injEq, decide_eq_true_eq, Op.owes] at updated ⊢
  omega

/-- What a step does to the tasks that are with threads. -/
theorem step_owes (inv : ReadersCounted k c) (taken : Taken c c' t e op rest flow)
    (throws : ∀ callback conn, op = .running callback conn →
      (e.handler = .throws ↔ flow = .unwind)) (conn : Handle) :
    total (Op.owes conn) c'.prog + op.owes conn +
        (k.note t op rest e c.shared).lost.countP (fun task => task.reserves = some conn) =
      total (Op.owes conn) c.prog + ((pushes flow).map (Op.owes conn)).sum +
        k.lost.countP (fun task => task.reserves = some conn) := by
  have noted : ∀ {ops : List Op}, flow = .next ops →
      (k.note t op rest e c.shared).lost = k.lost →
      total (Op.owes conn) c'.prog + op.owes conn +
          (k.note t op rest e c.shared).lost.countP (fun task => task.reserves = some conn) =
        total (Op.owes conn) c.prog + ((pushes flow).map (Op.owes conn)).sum +
          k.lost.countP (fun task => task.reserves = some conn) := by
    intro ops goes lost
    have moved := total_step_eq (Op.owes conn) taken.program taken.progs (Or.inl ⟨ops, goes⟩)
    rw [lost]
    omega
  by_cases inTask : op.inTask = true
  · cases op with
    | running callback called =>
        by_cases left : flow = .unwind ∧ rest.any Op.returnsLock = true
        · obtain ⟨rfl, returns⟩ := left
          exact inv.step_owes_lost taken ((throws callback called rfl).mpr rfl) returns conn
        · have kept : (∃ ops, flow = .next ops) ∨ ∀ op ∈ rest, op.owes conn = 0 := by
            by_cases goes : flow = .unwind
            · right
              intro op' later
              have returns := fun is => left ⟨goes, List.any_eq_true.mpr ⟨op', later, is⟩⟩
              exact Op.owes_eq_zero (Bool.eq_false_of_not_eq_true returns)
                (inv.not_hands_of_later taken.program nofun later)
            · left
              have rule := taken.rule
              generalize c'.shared = s' at rule
              cases rule with
              | callbackThrows => exact absurd rfl goes
              | _ => exact ⟨_, rfl⟩
          have moved := total_step_eq (Op.owes conn) taken.program taken.progs kept
          have lost : (k.note t (.running callback called) rest e c.shared).lost = k.lost := by
            rw [TaskHistory.note, if_neg]
            rintro ⟨threw, returns⟩
            exact left ⟨(throws callback called rfl).mp threw, returns⟩
          rw [lost]
          omega
    | readLock name =>
        cases name with
        | connections => exact noted taken.rule.readLock_flow rfl
        | connection part | ssl => cases inTask
    | lock name =>
        cases name with
        | ssl lower => exact noted taken.rule.lock_flow rfl
        | connections | connection => cases inTask
    | unlock name destructor =>
        cases name with
        | ssl lower =>
            have rule := taken.rule
            generalize c'.shared = s' at rule
            cases rule
            exact noted rfl rfl
        | connections | connection => cases inTask
    | call | use =>
        have rule := taken.rule
        generalize c'.shared = s' at rule
        cases rule
        exact noted rfl rfl
    | _ => cases inTask
  · have outside := Bool.eq_false_of_not_eq_true inTask
    have kept : (∃ ops, flow = .next ops) ∨ ∀ op ∈ rest, op.owes conn = 0 := by
      by_cases reads : ∃ part, op = .readLock (.connection part)
      · obtain ⟨part, rfl⟩ := reads
        exact Or.inl ⟨[], taken.rule.readLock_flow⟩
      · right
        intro op' later
        exact Op.owes_eq_zero (inv.not_returnsLock_of_later taken.program outside later)
          (inv.not_hands_of_later taken.program (fun part same => reads ⟨part, same⟩) later)
    have moved := total_step_eq (Op.owes conn) taken.program taken.progs kept
    rw [note_lost outside]
    omega

theorem step_counted (inv : ReadersCounted k c) (taken : Taken c c' t e op rest flow)
    (throws : ∀ callback conn, op = .running callback conn →
      (e.handler = .throws ↔ flow = .unwind)) (conn : Handle) :
    (c'.shared.locks (.connection conn)).readers.length + total (Op.awaits conn) c'.prog =
      c'.shared.queuedFor conn + total (Op.owes conn) c'.prog +
        (k.note t op rest e c.shared).lost.countP fun task => task.reserves = some conn := by
  have before := inv.counted conn
  have gives : ∀ destructor, op = .unlock (.connection conn) destructor → destructor = false ∧
      (c.shared.locks (.connection conn)).writer ≠ some t ∧
        (c.shared.locks (.connection conn)).readers ≠ [] := by
    rintro destructor rfl
    obtain ⟨quiet, writer, taken⟩ := inv.reads_of_unlock taken.first
    exact ⟨quiet, by rw [writer]; exact (Option.some_ne_none t).symm, taken⟩
  have deletes : op = .delete conn → (c.shared.locks (.connection conn)).readers = [] := by
    rintro rfl
    exact (inv.writes_of_delete taken.program).2
  have changes := taken.rule.readers_eq gives deletes
  have awaits := total_step_eq (Op.awaits conn) taken.program taken.progs
    (Or.inr fun op' later => inv.not_awaits_of_later taken.program conn later)
  have owes := inv.step_owes taken throws conn
  omega

/-- Every step keeps the invariant. -/
theorem step (inv : ReadersCounted k c) (taken : Taken c c' t e op rest flow)
    (throws : ∀ callback conn, op = .running callback conn →
      (e.handler = .throws ↔ flow = .unwind)) :
    ReadersCounted (k.note t op rest e c.shared) c' where
  ordered := inv.step_ordered taken
  locked := inv.step_locked taken
  handed := inv.step_handed taken
  executing := inv.step_executing taken
  bracketed := inv.step_bracketed taken
  alone name written := taken.rule.alone (inv.alone name) written
  counted := inv.step_counted taken throws

end ReadersCounted

/-- A callback leaves its thread by an exception if the environment says so. -/
theorem throws_iff {s s' : ServerState n}
    (executed : ServerState.exec t op e s = some (flow, s')) :
    ∀ callback conn, op = .running callback conn → (e.handler = .throws ↔ flow = .unwind) := by
  rintro callback conn rfl
  simp only [ServerState.exec, callbackMove, goOn] at executed
  cases handler : e.handler with
  | returns =>
      rw [handler] at executed
      cases executed
      simp
  | throws =>
      rw [handler] at executed
      cases executed
      simp
  | acts action =>
      rw [handler] at executed
      dsimp only at executed
      split at executed <;> cases executed
      simp

end ServerConfig

end LibSiot
