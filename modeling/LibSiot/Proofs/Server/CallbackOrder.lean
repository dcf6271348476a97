/-
Module: LibSiot.Proofs.Server.CallbackOrder
Purpose: In which order and on which threads the callbacks of a connection run:
  threads take the tasks in the order in which they were queued, and each thread
  runs the callbacks of its tasks one at a time.  Callbacks on different threads
  overlap.
Trusted boundary: none
Main exports: ServerConfig.InOrder, ServerConfig.inOrder_of_constructorsSucceed
-/
import LibSiot.Proofs.Server.Batch
import LibSiot.Proofs.Server.DispatchOrder

namespace LibSiot

open Interleaving (Flow)
open Interleaving.Machine (pushes AllOps pairwise_continuation continuation_split)

namespace Op

/-- The call that an operation makes. -/
def calls : Op → Option (Callback × Handle)
  | .call callback conn => some (callback, conn)
  | _ => none

/-- A callback is called, or was called and has not returned. -/
def inCallback : Op → Bool
  | .call _ _ => true
  | .running _ _ => true
  | _ => false

/-- The thread takes a task. -/
def takes : Op → Bool
  | .takeTask => true
  | _ => false

/-- The call of the task that an operation takes from the queue. -/
def takenCalls {n : Nat} (s : ServerState n) : Op → List (Callback × Handle)
  | .takeTask => (s.executor.head?.bind Closure.calls).toList
  | _ => []

/-- The call that an operation makes for a task, before `rest`. -/
def startedCalls (rest : List Op) : Op → List (Callback × Handle)
  | .call callback conn => if rest.any reaps then [] else [(callback, conn)]
  | _ => []

/-- No callback may come after the operation. -/
def engages (op : Op) : Bool := op.inCallback || op.reaps

/-- A thread takes its next task last, and engages in one callback at a time. -/
def before (a b : Op) : Bool := !a.takes && (!a.engages || !b.inCallback)

theorem before_iff {a b : Op} :
    a.before b = true ↔ a.takes = false ∧ (a.engages = true → b.inCallback = false) := by
  cases first : a.takes <;> cases second : a.engages <;> cases third : b.inCallback <;>
    simp [before, first, second, third]

end Op

namespace ServerState

variable {n : Nat} {t : Tid n} {e : Choice} {s s' : ServerState n} {op : Op}
  {flow : Flow Op}

/-! ### One step -/

/-- `Shutdown()` and `Deregister()` push nothing of tasks, callbacks and the reaper. -/
theorem Rule.tears_apart (rule : Rule t e s op flow s') {conn : Handle}
    (tears : op.tears = some conn) :
    ∀ new ∈ pushes flow, new.takes = false ∧ new.engages = false := by
  intro new member
  cases rule with
  | lock => cases member
  | shutdown conn =>
      rcases mem_shutdownOps member with rfl | rfl | member | rfl
      · exact ⟨rfl, rfl⟩
      · exact ⟨rfl, rfl⟩
      · rcases mem_shutdownBody member with rfl | rfl | rfl | ⟨_, rfl, _⟩ | rfl <;>
          exact ⟨rfl, rfl⟩
      · exact ⟨rfl, rfl⟩
  | deregister conn =>
      obtain ⟨fd, _, rfl | rfl | rfl | rfl⟩ := mem_dequeueOps member <;> exact ⟨rfl, rfl⟩
  | _ => cases tears

/-- What is pushed is in order. -/
theorem Rule.callbacks_ordered (rule : Rule t e s op flow s') :
    (pushes flow).Pairwise fun a b => a.before b = true := by
  have none : (∀ new ∈ pushes flow, new.takes = false ∧ new.inCallback = false) →
      (pushes flow).Pairwise fun a b => a.before b = true := by
    intro quiet
    apply List.pairwise_of_forall_mem_list
    intro a first b second
    exact Op.before_iff.mpr ⟨(quiet a first).1, fun _ => (quiet b second).2⟩
  have apart : ∀ conn, op.tears = some conn →
      (pushes flow).Pairwise fun a b => a.before b = true := by
    intro conn tears
    apply none
    intro new member
    obtain ⟨takes, engages⟩ := rule.tears_apart tears new member
    exact ⟨takes, (Bool.or_eq_false_iff.mp engages).1⟩
  cases rule with
  | takeTask task =>
      cases task <;>
        simp [pushes, taskOps, Op.before, Op.takes, Op.engages, Op.inCallback, Op.reaps]
  | shutdown conn | deregister conn => exact apart conn rfl
  | call | callbackSetMaxIdle | callbackShutdownServer | callbackDefers =>
      exact List.pairwise_singleton _ _
  | callbackUses callback conn other =>
      refine List.pairwise_append.mpr ⟨?_, List.pairwise_singleton _ _, ?_⟩
      · apply List.pairwise_of_forall_mem_list
        intro a first b second
        rcases mem_useOps first with rfl | rfl | rfl <;> rfl
      · intro a first b second
        rcases mem_useOps first with rfl | rfl | rfl <;> rfl
  | drain | userUses =>
      exact none (forall_useOps ⟨rfl, rfl⟩ ⟨rfl, rfl⟩ ⟨rfl, rfl⟩
        (List.forall_mem_singleton.mpr ⟨rfl, rfl⟩))
  | reapExpired => simp [pushes, Op.before, Op.takes, Op.engages, Op.inCallback, Op.reaps]
  | _ => exact none (by simp [pushes, afterConstruct, lockAndAdd, Op.takes, Op.inCallback])

/-- What is pushed may stand where its operation stood. -/
theorem Rule.before (rule : Rule t e s op flow s') (takes : op.takes = false) :
    ∀ a ∈ pushes flow, a.takes = false ∧ (a.engages = true → op.engages = true) := by
  have quiet : (pushes flow).all (fun a => !a.takes && !a.engages) = true →
      ∀ a ∈ pushes flow, a.takes = false ∧ (a.engages = true → op.engages = true) := by
    intro quiet a member
    have both := List.all_eq_true.mp quiet a member
    simp only [Bool.and_eq_true, Bool.not_eq_true'] at both
    exact ⟨both.1, fun engages => by rw [both.2] at engages; cases engages⟩
  have engaged : op.engages = true → (pushes flow).all (fun a => !a.takes) = true →
      ∀ a ∈ pushes flow, a.takes = false ∧ (a.engages = true → op.engages = true) := by
    intro engages quiet a member
    have none := List.all_eq_true.mp quiet a member
    simp only [Bool.not_eq_true'] at none
    exact ⟨none, fun _ => engages⟩
  have apart : ∀ conn, op.tears = some conn →
      ∀ a ∈ pushes flow, a.takes = false ∧ (a.engages = true → op.engages = true) := by
    intro conn tears a member
    obtain ⟨takes, engages⟩ := rule.tears_apart tears a member
    exact ⟨takes, fun impossible => by rw [engages] at impossible; cases impossible⟩
  cases rule with
  | takeTask task => cases takes
  | shutdown conn | deregister conn => exact apart conn rfl
  | call | callbackSetMaxIdle | callbackShutdownServer | callbackDefers
  | reapStart | reapWaited | reapTime | reapDue | reapKept | reapExpired =>
      exact engaged rfl rfl
  | callbackUses callback conn other =>
      exact forall_useOps ⟨rfl, nofun⟩ ⟨rfl, nofun⟩ ⟨rfl, nofun⟩
        (List.forall_mem_singleton.mpr ⟨rfl, fun _ => rfl⟩)
  | drain | userUses =>
      exact forall_useOps ⟨rfl, nofun⟩ ⟨rfl, nofun⟩ ⟨rfl, nofun⟩
        (List.forall_mem_singleton.mpr ⟨rfl, nofun⟩)
  | _ => exact quiet rfl

/-- Calls come from tasks, and from the reaper. -/
theorem Rule.call_split (rule : Rule t e s op flow s') {pre between : List Op}
    {callback : Callback} {conn : Handle} (pushed : pushes flow = pre ++ .call callback conn :: between) :
    (op = .takeTask ∧ (pre = [] ∨ pre = [.readLock .connections])) ∨
      ∃ other, op = .reapShutdown other := by
  have member : .call callback conn ∈ pushes flow :=
    pushed ▸ List.mem_append_right _ List.mem_cons_self
  have none : (pushes flow).all (fun new => new.calls.isNone) = true → False := by
    intro quiet
    cases List.all_eq_true.mp quiet _ member
  have apart : ∀ conn, op.tears = some conn → False := by
    intro conn tears
    cases (rule.tears_apart tears _ member).2
  cases rule with
  | takeTask task =>
      left
      refine ⟨rfl, ?_⟩
      cases task with
      | lockCallAndUnlock callback' conn' =>
          rcases pre with _ | ⟨first, _ | ⟨second, pre⟩⟩
          · exact Or.inl rfl
          · rw [← (List.cons.inj pushed).1]
            exact Or.inr rfl
          · have late := congrArg (List.any · fun new => new.calls.isSome)
              (List.cons.inj (List.cons.inj pushed).2).2
            simp [Op.calls] at late
      | connectionTerminated conn' =>
          rcases pre with _ | ⟨first, pre⟩
          · exact Or.inl rfl
          · have late := congrArg (List.any · fun new => new.calls.isSome)
              (List.cons.inj pushed).2
            simp [Op.calls] at late
      | shutdown conn' => simp [pushes, taskOps] at member
  | reapExpired other up => exact Or.inr ⟨other, rfl⟩
  | shutdown conn | deregister conn => exact (apart conn rfl).elim
  | callbackUses | drain | userUses =>
      rcases mem_useOps_append member with impossible | impossible | impossible | impossible <;>
        cases impossible
  | _ => exact (none rfl).elim

/-- A callback that was called goes on with its thread. -/
theorem Rule.running_split (rule : Rule t e s op flow s') {pre between : List Op}
    {callback : Callback} {conn : Handle}
    (pushed : pushes flow = pre ++ .running callback conn :: between) :
    between = [] ∧ (op = .call callback conn ∨ op = .running callback conn) := by
  have member : .running callback conn ∈ pushes flow :=
    pushed ▸ List.mem_append_right _ List.mem_cons_self
  have apart : ∀ conn, op.tears = some conn → False := by
    intro conn tears
    cases (rule.tears_apart tears _ member).2
  cases rule with
  | call | callbackSetMaxIdle | callbackShutdownServer | callbackDefers =>
      cases List.mem_singleton.mp member
      obtain ⟨rfl, rfl⟩ := split_first (by simp) pushed
      simp
  | callbackUses callback' conn' other =>
      rcases mem_useOps_append member with impossible | impossible | impossible | same
      · cases impossible
      · cases impossible
      · cases impossible
      · have absent : .running callback conn ∉ s.useOps other 1 := by
          intro use
          rcases mem_useOps use with impossible | impossible | impossible <;> cases impossible
        have last := pushed
        rw [← same] at last
        exact ⟨(split_last absent last).2, Or.inr same.symm⟩
  | drain | userUses =>
      rcases mem_useOps_append member with impossible | impossible | impossible | impossible <;>
        cases impossible
  | takeTask task => cases task <;> simp [pushes, taskOps] at member
  | shutdown conn | deregister conn => exact (apart conn rfl).elim
  | _ => simp [pushes, afterConstruct, lockAndAdd] at member

/-- What a step pushes calls what its operation takes from the queue, if it is not one
of the reaper. -/
theorem Rule.pushes_calls (rule : Rule t e s op flow s') (other : op.reaps = false) :
    (pushes flow).filterMap Op.calls = op.takenCalls s := by
  have apart : ∀ conn, op.tears = some conn → (pushes flow).filterMap Op.calls = [] := by
    intro conn tears
    apply List.filterMap_eq_nil_iff.mpr
    intro new member
    have engages := (rule.tears_apart tears new member).2
    cases new <;> first | rfl | cases engages
  cases rule with
  | takeTask task tasks queue =>
      rw [Op.takenCalls, queue]
      cases task <;> rfl
  | shutdown conn | deregister conn => exact apart conn rfl
  | reapExpired => cases other
  | callbackUses | drain | userUses =>
      exact List.filterMap_eq_nil_iff.mpr (forall_useOps rfl rfl rfl
        (List.forall_mem_singleton.mpr rfl))
  | _ => rfl

end ServerState

namespace ServerConfig

open ServerState

variable {n : Nat}

/-! ### The property -/

/-- The calls that a thread has still to make for the task that it took. -/
def pending (ops : List Op) : List (Callback × Handle) :=
  if ops.any Op.reaps then [] else ops.filterMap Op.calls

/-- The callbacks of a connection start in the order in which they were queued, and run
on thread `t` only, but for the call that the reaper makes itself. -/
structure Serial (k : CallHistory n) (c : ServerConfig n) (accept : Nat) (t : Tid n) : Prop where
  order : (k.started.map Prod.snd).filter (fun call => call.2.accept = accept) <+:
    k.dispatched.filter fun call => call.2.accept = accept
  alone : ∀ t' callback conn, .running callback conn ∈ c.prog t' → conn.accept = accept →
    (c.prog t').any Op.reaps = false → t' = t

/-- Callbacks are queued in order.  Threads take the tasks as they were queued, and each
makes the calls of its tasks in that order and one at a time.  So the callbacks of a
connection are serialised as long as one thread takes them. -/
structure InOrder (k : CallHistory n) (c : ServerConfig n) : Prop where
  queued : InDispatchOrder k
  fifo : k.dispatched = k.taken.map Prod.snd ++ c.shared.executor.filterMap Closure.calls
  own : ∀ t, k.taken.filter (fun call => call.1 = t) =
    k.started.filter (fun call => call.1 = t) ++ (pending (c.prog t)).map (t, ·)
  alone : ∀ t, ((c.prog t).filter Op.inCallback).length ≤ 1
  serial : ∀ accept t, (∀ call ∈ k.taken, call.2.2.accept = accept → call.1 = t) →
    Serial k c accept t

/-! ### The invariant -/

/-- How the programs of the threads go with the history. -/
structure Executing (k : CallHistory n) (c : ServerConfig n) : Prop where
  fifo : k.dispatched = k.taken.map Prod.snd ++ c.shared.executor.filterMap Closure.calls
  own : ∀ t, k.taken.filter (fun call => call.1 = t) =
    k.started.filter (fun call => call.1 = t) ++ (pending (c.prog t)).map (t, ·)
  ordered : ∀ t, (c.prog t).Pairwise fun a b => a.before b = true
  placed : ∀ t pre callback conn post, c.prog t = pre ++ .call callback conn :: post →
    pre = [] ∨ pre = [.readLock .connections] ∨ post.any Op.reaps = true
  scanned : ∀ t pre conn post, c.prog t = pre ++ .reapShutdown conn :: post →
    post.any Op.reaps = true
  runs : ∀ t pre callback conn post, c.prog t = pre ++ .running callback conn :: post →
    post.any Op.reaps = true ∨ (t, callback, conn) ∈ k.started

theorem Executing.init (serverfd : Nat) (ssl : Bool) (maxIdle : Int32) :
    Executing {} (init n serverfd ssl maxIdle) where
  fifo := rfl
  own t := by cases t <;> rfl
  ordered t := by
    cases t with
    | reaper => simp [ServerConfig.init, Op.before, Op.takes, Op.inCallback]
    | _ => exact List.pairwise_singleton _ _
  placed t pre callback conn post split := absurd split (init_prog_ne rfl)
  scanned t pre conn post split := absurd split (init_prog_ne rfl)
  runs t pre callback conn post split := absurd split (init_prog_ne rfl)

variable {c c' : ServerConfig n} {t : Tid n} {e : Choice} {op : Op} {rest : List Op}
  {flow : Flow Op} {k : CallHistory n} {s : ServerState n}

theorem note_taken :
    (k.note t op rest e s).taken = k.taken ++ (op.takenCalls s).map (t, ·) := by
  cases op with
  | takeTask => rfl
  | call =>
      simp only [CallHistory.note]
      split <;> exact (List.append_nil _).symm
  | epollAdd clientfd conn =>
      cases conn with
      | constructed raw =>
          simp only [CallHistory.note]
          split <;> exact (List.append_nil _).symm
      | indeterminate => exact (List.append_nil _).symm
  | _ => exact (List.append_nil _).symm

theorem note_started :
    (k.note t op rest e s).started = k.started ++ (op.startedCalls rest).map (t, ·) := by
  cases op with
  | call =>
      simp only [CallHistory.note, Op.startedCalls]
      split
      · exact (List.append_nil _).symm
      · rfl
  | epollAdd clientfd conn =>
      cases conn with
      | constructed raw =>
          simp only [CallHistory.note]
          split <;> exact (List.append_nil _).symm
      | indeterminate => exact (List.append_nil _).symm
  | _ => exact (List.append_nil _).symm

namespace Executing

/-! ### What a step keeps -/

theorem step_fifo (inv : Executing k c) (taken : Taken c c' t e op rest flow) :
    (k.note t op rest e c.shared).dispatched =
      (k.note t op rest e c.shared).taken.map Prod.snd ++
        c'.shared.executor.filterMap Closure.calls := by
  have fifo := inv.fifo
  have rule := taken.rule
  rw [note_dispatched, note_taken, fifo, List.map_append, List.map_map, List.append_assoc,
    List.append_assoc]
  congr 1
  generalize c'.shared = s' at rule
  cases rule with
  | takeTask task tasks queue =>
      simp only [Op.queues, Op.takenCalls, queue, List.head?_cons, Option.bind_some,
        Option.toList_none, List.append_nil]
      cases task <;> rfl
  | addTask task =>
      simp only [Op.queues, Op.takenCalls, List.map_nil, List.nil_append, List.filterMap_append]
      cases task <;> rfl
  | callbackDefers | userDefers =>
      exact (List.append_nil _).trans (List.filterMap_append.trans (List.append_nil _)).symm
  | _ => exact List.append_nil _

theorem step_ordered (inv : Executing k c) (taken : Taken c c' t e op rest flow) (t' : Tid n) :
    (c'.prog t').Pairwise fun a b => a.before b = true := by
  by_cases same : t' = t
  · subst same
    rw [taken.self]
    apply pairwise_continuation (taken.program ▸ inv.ordered t') taken.rule.callbacks_ordered
    intro a pushed b before
    obtain ⟨last, single⟩ := Op.before_iff.mp before
    obtain ⟨takes, engages⟩ := taken.rule.before last a pushed
    exact Op.before_iff.mpr ⟨takes, fun engaged => single (engages engaged)⟩
  · rw [taken.other same]
    exact inv.ordered t'

/-- A thread that takes a task has nothing else to do. -/
theorem rest_of_takes (inv : Executing k c) (taken : Taken c c' t e op rest flow)
    (takes : op.takes = true) : rest = [] := by
  have ordered := inv.ordered t
  rw [taken.program] at ordered
  cases rest with
  | nil => rfl
  | cons next rest =>
      have last := (Op.before_iff.mp ((List.pairwise_cons.mp ordered).1 next List.mem_cons_self)).1
      rw [takes] at last
      cases last

theorem step_placed (inv : Executing k c) (taken : Taken c c' t e op rest flow) (t' : Tid n)
    (pre : List Op) (callback : Callback) (conn : Handle) (post : List Op)
    (split : c'.prog t' = pre ++ .call callback conn :: post) :
    pre = [] ∨ pre = [.readLock .connections] ∨ post.any Op.reaps = true := by
  by_cases same : t' = t
  · subst same
    rw [taken.self] at split
    rcases continuation_split split rfl with ⟨between, pushed, rfl⟩ | ⟨pre', rfl, rfl⟩
    · rcases taken.rule.call_split pushed with ⟨_, front | locked⟩ | ⟨other, rfl⟩
      · exact Or.inl front
      · exact Or.inr (Or.inl locked)
      · have scanned := inv.scanned t' [] other rest taken.program
        exact Or.inr (Or.inr (by rw [List.any_append, scanned, Bool.or_true]))
    · rcases inv.placed t' (op :: pre') callback conn post taken.program with front | locked | reaps
      · cases front
      · cases locked
        rw [taken.rule.readLock_flow]
        exact Or.inl rfl
      · exact Or.inr (Or.inr reaps)
  · rw [taken.other same] at split
    exact inv.placed t' pre callback conn post split

theorem step_scanned (inv : Executing k c) (taken : Taken c c' t e op rest flow) (t' : Tid n)
    (pre : List Op) (conn : Handle) (post : List Op)
    (split : c'.prog t' = pre ++ .reapShutdown conn :: post) : post.any Op.reaps = true := by
  by_cases same : t' = t
  · subst same
    rw [taken.self] at split
    rcases continuation_split split rfl with ⟨between, pushed, rfl⟩ | ⟨pre', rfl, rfl⟩
    · obtain ⟨_, fd, maxIdle, tm, after, _, _, _, rfl⟩ := taken.rule.reaps_split pushed
      rfl
    · exact inv.scanned t' (op :: pre') conn post taken.program
  · rw [taken.other same] at split
    exact inv.scanned t' pre conn post split

theorem step_runs (inv : Executing k c) (taken : Taken c c' t e op rest flow) (t' : Tid n)
    (pre : List Op) (callback : Callback) (conn : Handle) (post : List Op)
    (split : c'.prog t' = pre ++ .running callback conn :: post) :
    post.any Op.reaps = true ∨
      (t', callback, conn) ∈ (k.note t op rest e c.shared).started := by
  have old : ∀ call, call ∈ k.started → call ∈ (k.note t op rest e c.shared).started := by
    intro call member
    rw [note_started]
    exact List.mem_append_left _ member
  by_cases same : t' = t
  · subst same
    rw [taken.self] at split
    rcases continuation_split split rfl with ⟨between, pushed, rfl⟩ | ⟨pre', rfl, rfl⟩
    · obtain ⟨rfl, rfl | rfl⟩ := taken.rule.running_split pushed
      · by_cases reaps : rest.any Op.reaps = true
        · exact Or.inl reaps
        · right
          rw [note_started, Op.startedCalls, if_neg reaps]
          exact List.mem_append_right _ List.mem_cons_self
      · exact (inv.runs t' [] callback conn rest taken.program).imp_right (old _)
    · exact (inv.runs t' (op :: pre') callback conn post taken.program).imp_right (old _)
  · rw [taken.other same] at split
    exact (inv.runs t' pre callback conn post split).imp_right (old _)

/-- The reaper is in its loop as long as it has a call of its own to make. -/
theorem reaps_of_call (inv : Executing k c) (taken : Taken c c' t e op rest flow)
    (reaps : (c.prog t).any Op.reaps = true) {callback : Callback} {conn : Handle}
    (member : .call callback conn ∈ c'.prog t) : (c'.prog t).any Op.reaps = true := by
  obtain ⟨pre, post, split⟩ := List.append_of_mem member
  have later : post.any Op.reaps = true → (c'.prog t).any Op.reaps = true := by
    intro reaps
    rw [split, List.any_append, List.any_cons, reaps, Bool.or_true, Bool.or_true]
  apply later
  rw [taken.self] at split
  rcases continuation_split split rfl with ⟨between, pushed, rfl⟩ | ⟨pre', _, rfl⟩
  · rcases taken.rule.call_split pushed with ⟨rfl, _⟩ | ⟨other, rfl⟩
    · rw [taken.program, inv.rest_of_takes taken rfl] at reaps
      cases reaps
    · rw [List.any_append, inv.scanned t [] other rest taken.program, Bool.or_true]
  · rcases inv.placed t (op :: pre') callback conn post taken.program with front | locked | reaps'
    · cases front
    · cases locked
      rw [taken.program] at reaps
      exact reaps
    · exact reaps'

/-- What an exception skips in a task has no call. -/
theorem no_calls_of_ends (inv : Executing k c) (taken : Taken c c' t e op rest flow)
    (idle : (c.prog t).any Op.reaps = false) (ends : ∀ ops, flow ≠ .next ops) :
    rest.filterMap Op.calls = [] := by
  apply List.filterMap_eq_nil_iff.mpr
  intro op' member
  cases op' with
  | call callback conn =>
      obtain ⟨pre, post, rfl⟩ := List.append_of_mem member
      rcases inv.placed t (op :: pre) callback conn post taken.program with front | locked | reaps
      · cases front
      · cases locked
        exact absurd taken.rule.readLock_flow (ends [])
      · rw [taken.program, List.any_cons, List.any_append, List.any_cons, reaps, Bool.or_true,
          Bool.or_true, Bool.or_true] at idle
        cases idle
  | _ => rfl

/-- A thread that is not the reaper does not become it. -/
theorem step_idle (taken : Taken c c' t e op rest flow) (idle : (c.prog t).any Op.reaps = false) :
    (c'.prog t).any Op.reaps = false := by
  apply List.any_eq_false.mpr
  intro op' member reaps
  rw [taken.program] at idle
  have none := List.any_eq_false.mp idle
  rcases taken.mem member with ⟨_, pushed⟩ | ⟨_, later⟩ | ⟨other, _⟩
  · exact none op List.mem_cons_self (taken.rule.reaped pushed reaps)
  · exact none op' (List.mem_cons_of_mem _ later) reaps
  · exact other rfl

/-- The calls that a thread has to make are those of the tasks that it takes, and each
is made once. -/
theorem step_pending (inv : Executing k c) (taken : Taken c c' t e op rest flow) :
    pending (c.prog t) ++ op.takenCalls c.shared = op.startedCalls rest ++ pending (c'.prog t) := by
  by_cases reaps : (c.prog t).any Op.reaps = true
  · have none : op.takenCalls c.shared = [] := by
      cases op with
      | takeTask =>
          rw [taken.program, inv.rest_of_takes taken rfl] at reaps
          cases reaps
      | _ => rfl
    have silent : op.startedCalls rest = [] := by
      cases op with
      | call callback conn =>
          rw [taken.program] at reaps
          exact if_pos reaps
      | _ => rfl
    have nothing : pending (c'.prog t) = [] := by
      rw [pending]
      split
      · rfl
      · rename_i idle
        apply List.filterMap_eq_nil_iff.mpr
        intro op' member
        cases op' with
        | call callback conn => exact absurd (inv.reaps_of_call taken reaps member) idle
        | _ => rfl
    rw [none, silent, nothing, pending, if_pos reaps]
  · have idle := Bool.eq_false_of_not_eq_true reaps
    have idle' := step_idle taken idle
    have quiet := idle
    rw [taken.program, List.any_cons, Bool.or_eq_false_iff] at quiet
    have started : op.startedCalls rest = op.calls.toList := by
      cases op with
      | call callback conn => exact if_neg (by rw [quiet.2]; exact Bool.false_ne_true)
      | _ => rfl
    have before : pending (c.prog t) = op.calls.toList ++ rest.filterMap Op.calls := by
      rw [pending, idle, taken.program]
      cases op <;> rfl
    have pushed := taken.rule.pushes_calls quiet.1
    have left : pending (c'.prog t) = op.takenCalls c.shared ++ rest.filterMap Op.calls := by
      rw [pending, if_neg (by rw [idle']; exact Bool.false_ne_true), taken.self]
      cases flow with
      | next ops =>
          rw [Interleaving.Machine.continuation_next, List.filterMap_append, ← pushed]
          rfl
      | unwind =>
          have none := inv.no_calls_of_ends taken idle nofun
          rw [← pushed, none]
          apply List.filterMap_eq_nil_iff.mpr
          intro op' member
          exact List.filterMap_eq_nil_iff.mp none op' (List.mem_filter.mp member).1
      | halt =>
          rw [← pushed, inv.no_calls_of_ends taken idle nofun]
          rfl
    have swap : rest.filterMap Op.calls ++ op.takenCalls c.shared =
        op.takenCalls c.shared ++ rest.filterMap Op.calls := by
      cases op with
      | takeTask =>
          rw [inv.rest_of_takes taken rfl]
          exact (List.append_nil _).symm
      | _ => exact List.append_nil _
    rw [before, started, left, List.append_assoc, swap]

theorem step_own (inv : Executing k c) (taken : Taken c c' t e op rest flow) (t' : Tid n) :
    (k.note t op rest e c.shared).taken.filter (fun call => call.1 = t') =
      (k.note t op rest e c.shared).started.filter (fun call => call.1 = t') ++
        (pending (c'.prog t')).map (t', ·) := by
  rw [note_taken, note_started, List.filter_append, List.filter_append]
  by_cases same : t' = t
  · subst same
    have whole : ∀ calls : List (Callback × Handle),
        (calls.map (t', ·)).filter (fun call => call.1 = t') = calls.map (t', ·) := by
      intro calls
      apply List.filter_eq_self.mpr
      intro call member
      obtain ⟨_, _, rfl⟩ := List.mem_map.mp member
      exact decide_eq_true rfl
    rw [whole, whole, inv.own t', List.append_assoc, List.append_assoc, ← List.map_append,
      ← List.map_append, inv.step_pending taken]
  · have none : ∀ calls : List (Callback × Handle),
        (calls.map (t, ·)).filter (fun call => call.1 = t') = [] := by
      intro calls
      apply List.filter_eq_nil_iff.mpr
      intro call member
      obtain ⟨_, _, rfl⟩ := List.mem_map.mp member
      exact fun impossible => same (of_decide_eq_true impossible).symm
    rw [none, none, List.append_nil, List.append_nil, inv.own t', taken.other same]

/-- Every step keeps the invariant. -/
theorem step (inv : Executing k c) (taken : Taken c c' t e op rest flow) :
    Executing (k.note t op rest e c.shared) c' where
  fifo := inv.step_fifo taken
  own := inv.step_own taken
  ordered := inv.step_ordered taken
  placed := inv.step_placed taken
  scanned := inv.step_scanned taken
  runs := inv.step_runs taken

/-! ### What the invariant says -/

theorem alone (inv : Executing k c) (t : Tid n) :
    ((c.prog t).filter Op.inCallback).length ≤ 1 := by
  have ordered := (inv.ordered t).sublist (List.filter_sublist (p := Op.inCallback))
  have engaged : ∀ op ∈ (c.prog t).filter Op.inCallback, op.inCallback = true :=
    fun op member => (List.mem_filter.mp member).2
  match ops : (c.prog t).filter Op.inCallback with
  | [] => exact Nat.zero_le 1
  | [_] => exact Nat.le_refl 1
  | first :: second :: others =>
      rw [ops] at ordered engaged
      have single := (Op.before_iff.mp ((List.pairwise_cons.mp ordered).1 second
        List.mem_cons_self)).2
      have next := engaged second (List.mem_cons_of_mem _ List.mem_cons_self)
      rw [single (Bool.or_eq_true_iff.mpr (Or.inl (engaged first List.mem_cons_self)))] at next
      cases next

theorem mem_taken (inv : Executing k c) {t : Tid n} {call : Callback × Handle}
    (started : (t, call) ∈ k.started) : (t, call) ∈ k.taken := by
  have own := inv.own t
  have member : (t, call) ∈ k.started.filter (fun call => call.1 = t) :=
    List.mem_filter.mpr ⟨started, decide_eq_true rfl⟩
  have taken : (t, call) ∈ k.taken.filter (fun call => call.1 = t) := by
    rw [own]
    exact List.mem_append_left _ member
  exact (List.mem_filter.mp taken).1

/-- The calls of a connection are those of the thread that takes all its tasks. -/
theorem filter_eq_of_single (accept : Nat) (t : Tid n) (calls : List (Tid n × Callback × Handle))
    (single : ∀ call ∈ calls, call.2.2.accept = accept → call.1 = t) :
    (calls.map Prod.snd).filter (fun call => call.2.accept = accept) =
      ((calls.filter fun call => call.1 = t).map Prod.snd).filter
        fun call => call.2.accept = accept := by
  rw [List.filter_map, List.filter_map, List.filter_filter]
  congr 1
  apply List.filter_congr
  intro call member
  by_cases about : call.2.2.accept = accept
  · simp [about, single call member about]
  · simp [about]

theorem serial (inv : Executing k c) (accept : Nat) (t : Tid n)
    (single : ∀ call ∈ k.taken, call.2.2.accept = accept → call.1 = t) :
    Serial k c accept t where
  order := by
    have started : ∀ call ∈ k.started, call.2.2.accept = accept → call.1 = t :=
      fun call member => single call (inv.mem_taken member)
    have taken : (k.taken.map Prod.snd).filter (fun call => call.2.accept = accept) <+:
        k.dispatched.filter fun call => call.2.accept = accept := by
      rw [inv.fifo, List.filter_append]
      exact List.prefix_append _ _
    apply List.IsPrefix.trans ?_ taken
    rw [filter_eq_of_single accept t _ started, filter_eq_of_single accept t _ single, inv.own t,
      List.map_append, List.filter_append]
    exact List.prefix_append _ _
  alone t' callback conn member same idle := by
    obtain ⟨pre, post, split⟩ := List.append_of_mem member
    rcases inv.runs t' pre callback conn post split with reaps | started
    · rw [split, List.any_append, List.any_cons, reaps, Bool.or_true, Bool.or_true] at idle
      cases idle
    · exact single _ (inv.mem_taken started) same

end Executing

/-- In every run of a server whose constructors succeed, under any interleaving and with
any number of threads: the callbacks of each connection are queued in order, threads
take the tasks as they were queued, and each thread makes the calls of its tasks in
that order and one at a time. -/
theorem inOrder_of_constructorsSucceed (serverfd : Nat) (ssl : Bool) (maxIdle : Int32)
    (schedule : Schedule n)
    (succeed : (server n).Along ConstructorsSucceed schedule (init n serverfd ssl maxIdle)) :
    (server n).AlwaysWith advance InOrder schedule {} (init n serverfd ssl maxIdle) := by
  apply Interleaving.Machine.alwaysWith_of_invariant
    (fun k c => Queueing k c ∧ Executing k c) ?_ ?_
    ⟨Queueing.init serverfd ssl maxIdle, Executing.init serverfd ssl maxIdle⟩ succeed
  · rintro k c t e c' ⟨queueing, executing⟩ succeed step
    obtain ⟨op, rest, flow, program, rule, progs⟩ := rule_of_step step
    have taken : Taken c c' t e op rest flow := ⟨program, rule, progs⟩
    rw [advance, program]
    exact ⟨queueing.step taken succeed, executing.step taken⟩
  · rintro k c ⟨queueing, executing⟩
    exact ⟨queueing.queued, executing.fifo, executing.own, executing.alone, executing.serial⟩

/-- A connection that was accepted, and a number of `DataReady` tasks of it. -/
def dataRun : Nat → Schedule 2
  | 0 => acceptOne 3 5 ++ steps .first 6
  | k + 1 =>
      dataRun k ++ steps .listen 1 ++ choose .listen { ready := some [⟨5, EPOLLIN⟩] } ++
        steps .listen 9

/-- Two threads take a `DataReady` task of the connection each. -/
def overlapRun : Schedule 2 := dataRun 2 ++ steps .first 3 ++ steps .second 3

theorem inOrder_of_overlap :
    (server 2).AlwaysWith advance InOrder overlapRun {} (init 2 3 false (-1)) ∧
      ∃ c, (server 2).run overlapRun (init 2 3 false (-1)) = some c ∧ c.shared.executor = [] := by
  refine ⟨?_, _, rfl, rfl⟩
  exact inOrder_of_constructorsSucceed 3 false (-1) overlapRun (by decide +kernel)

/-- The callbacks of a connection run one at a time, and none starts after
`ConnectionTerminated`. -/
structure Serialised (c : ServerConfig n) : Prop where
  alone : ∀ t t' callback callback' conn conn', .running callback conn ∈ c.prog t →
    .running callback' conn' ∈ c.prog t' → conn.accept = conn'.accept → t = t'
  last : ∀ later conn before,
    c.shared.trace = later ++ .called .connectionTerminated conn :: before →
      ∀ callback conn', .called callback conn' ∈ later → conn'.accept ≠ conn.accept

/-- A thread takes a `DataReady` task and waits.  The connection is hung up, and another
thread calls `ConnectionTerminated` first. -/
def overtakenRun : Schedule 2 :=
  dataRun 1 ++ steps .first 1 ++ steps .listen 1 ++
    choose .listen { ready := some [⟨5, EPOLLHUP⟩] } ++ steps .listen 3 ++
    steps .second 2 ++ steps .first 2

theorem serialised_fails :
    (∃ c, (server 2).run overlapRun (init 2 3 false (-1)) = some c ∧
      .running .dataReady ⟨0, 0⟩ ∈ c.prog (.worker 0) ∧
      .running .dataReady ⟨0, 0⟩ ∈ c.prog (.worker 1) ∧ ¬ Serialised c) ∧
    (∃ c, (server 2).run overtakenRun (init 2 3 false (-1)) = some c ∧
      .running .connectionTerminated ⟨0, 0⟩ ∈ c.prog (.worker 1) ∧
      .running .dataReady ⟨0, 0⟩ ∈ c.prog (.worker 0) ∧ ¬ Serialised c) := by
  refine ⟨⟨_, rfl, by decide, by decide, fun holds => ?_⟩,
    ⟨_, rfl, by decide, by decide, fun holds => ?_⟩⟩
  · have same := holds.alone (.worker 0) (.worker 1) .dataReady .dataReady ⟨0, 0⟩ ⟨0, 0⟩
      (by decide) (by decide) rfl
    cases same
  · exact holds.last [.called .dataReady ⟨0, 0⟩] ⟨0, 0⟩ _ rfl .dataReady ⟨0, 0⟩ (by decide) rfl

end ServerConfig

end LibSiot
