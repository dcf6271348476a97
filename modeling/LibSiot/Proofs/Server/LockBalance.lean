/-
Module: LibSiot.Proofs.Server.LockBalance
Purpose: Locks are given back as often as they are taken, also when an exception
  passes: a read lock of a connection stands for a task, and who holds
  `connections_lock_` has the end of its section still to do.
Trusted boundary: none
Main exports: Sectioned, ServerState.Rule.sectioned, ServerConfig.LocksBalanced,
  ServerConfig.locksBalanced_of_contained
-/
import LibSiot.Proofs.Server.NewConnection
import LibSiot.Proofs.Server.ReadLocks

namespace LibSiot

open Interleaving (Flow)
open Interleaving.Machine (pushes total)

namespace Op

/-- The operation enters a section of `connections_lock_`. -/
def enters : Op → Bool
  | .lock .connections => true
  | .readLock .connections => true
  | _ => false

/-- The operation leaves a section of `connections_lock_`, by itself or by what it
pushes. -/
def leaves : Op → Bool
  | .unlock .connections _ => true
  | .find _ _ => true
  | _ => false

/-- No exception begins at the operation, unless `AddDecorators` throws. -/
def confined : Op → Bool
  | .addDecorators _ _ => true
  | .readLock (.connection _) => true
  | .addTask _ => true
  | _ => false

/-- The operation is a callback that was called. -/
def runs : Op → Bool
  | .running _ _ => true
  | _ => false

/-- The operation neither enters nor leaves a section, and an exception skips it or only
gives `ssl_mtx_` back by it. -/
def plain (op : Op) : Bool := !op.enters && !op.leaves && (op.endsSsl || !op.survives)

theorem guards_eq_false {op : Op} (inside : op.enters = false) (stays : op.leaves = false) :
    op.guards = false := by
  cases op with
  | lock name | readLock name => cases name <;> first | rfl | cases inside
  | unlock name => cases name <;> first | rfl | cases stays
  | _ => rfl

end Op

/-- The sections that operations are in match: `depth` of them are entered at first, and
all are left in the end.  What an exception leaves of them matches too. -/
inductive Sectioned : Nat → List Op → Prop where
  | nil : Sectioned 0 []
  | enter {depth : Nat} {op : Op} {ops : List Op} (enters : op.enters = true)
      (later : Sectioned (depth + 1) ops) : Sectioned depth (op :: ops)
  | leave {depth : Nat} {op : Op} {ops : List Op} (leaves : op.leaves = true)
      (later : Sectioned depth ops) : Sectioned (depth + 1) (op :: ops)
  | other {depth : Nat} {op : Op} {ops : List Op} (inside : op.enters = false)
      (stays : op.leaves = false)
      (guarded : op.confined = false → Sectioned depth (ops.filter Op.survives))
      (later : Sectioned depth ops) : Sectioned depth (op :: ops)

namespace Sectioned

variable {depth : Nat} {rest : List Op}

/-- Who is in a section has the end of it still to do. -/
theorem leaves_of_pos {ops : List Op} (sectioned : Sectioned depth ops) (entered : 0 < depth) :
    ∃ op ∈ ops, op.leaves = true := by
  induction sectioned with
  | nil => exact absurd entered (Nat.lt_irrefl 0)
  | enter _ _ ih =>
      obtain ⟨op, member, leaves⟩ := ih (Nat.succ_pos _)
      exact ⟨op, List.mem_cons_of_mem _ member, leaves⟩
  | leave leaves _ _ => exact ⟨_, List.mem_cons_self, leaves⟩
  | other _ _ _ _ _ ih =>
      obtain ⟨op, member, leaves⟩ := ih entered
      exact ⟨op, List.mem_cons_of_mem _ member, leaves⟩

theorem filter_survives (guarded : Sectioned depth (rest.filter Op.survives)) :
    Sectioned depth ((rest.filter Op.survives).filter Op.survives) := by
  rw [List.filter_filter]
  simpa only [Bool.and_self] using guarded

/-- What an exception leaves of plain operations and of others. -/
theorem append_guarded (guarded : Sectioned depth (rest.filter Op.survives)) (ops : List Op)
    (plain : ∀ op ∈ ops, op.plain = true) :
    Sectioned depth ((ops ++ rest).filter Op.survives) := by
  induction ops with
  | nil => exact guarded
  | cons op ops ih =>
      obtain ⟨first, others⟩ := List.forall_mem_cons.mp plain
      simp only [Op.plain, Bool.and_eq_true, Bool.not_eq_true'] at first
      rw [List.cons_append, List.filter_cons]
      split
      · exact .other first.1.1 first.1.2 (fun _ => filter_survives (ih others)) (ih others)
      · exact ih others

/-- Plain operations before others. -/
theorem append (sectioned : Sectioned depth rest)
    (guarded : Sectioned depth (rest.filter Op.survives)) (ops : List Op)
    (plain : ∀ op ∈ ops, op.plain = true) : Sectioned depth (ops ++ rest) := by
  induction ops with
  | nil => exact sectioned
  | cons op ops ih =>
      obtain ⟨first, others⟩ := List.forall_mem_cons.mp plain
      simp only [Op.plain, Bool.and_eq_true, Bool.not_eq_true'] at first
      exact .other first.1.1 first.1.2 (fun _ => guarded.append_guarded ops others) (ih others)

/-- A section under a guard, before others. -/
theorem section_append {op : Op} (sectioned : Sectioned depth rest)
    (guarded : Sectioned depth (rest.filter Op.survives)) (enters : op.enters = true)
    (ops : List Op) (plain : ∀ op ∈ ops, op.plain = true) :
    Sectioned depth (op :: (ops ++ .unlock .connections true :: rest)) := by
  have closing : Sectioned (depth + 1) (.unlock .connections true :: rest) :=
    .leave rfl sectioned
  have closing' : Sectioned (depth + 1)
      ((.unlock .connections true :: rest).filter Op.survives) := .leave rfl guarded
  exact .enter enters (closing.append closing' ops plain)

/-- The section of the accept branch, in which only `AddDecorators` could throw. -/
theorem afterConstruct (sectioned : Sectioned depth rest)
    (guarded : Sectioned depth (rest.filter Op.survives)) (clientfd : Nat) (conn : Pointer) :
    Sectioned depth (ServerState.afterConstruct clientfd conn ++ rest) := by
  have after : Sectioned depth ([.clearEvents, .epollAdd clientfd conn] ++ rest) :=
    sectioned.append guarded _ (List.all_eq_true.mp rfl)
  exact .enter rfl (.other rfl rfl nofun (.leave rfl after))

end Sectioned

namespace ServerState

variable {n : Nat} {t : Tid n} {e : Choice} {s s' : ServerState n} {op : Op} {flow : Flow Op}
  {depth : Nat} {rest : List Op}

theorem plain_shutdown (conn : Handle) (s : ServerState n) :
    ∀ op ∈ s.shutdownOps conn, op.plain = true := by
  intro op member
  rcases mem_shutdownOps member with rfl | rfl | member | rfl
  · rfl
  · rfl
  · rcases mem_shutdownBody member with rfl | rfl | rfl | ⟨_, rfl, _⟩ | rfl <;> rfl
  · rfl

/-- What an operation inside or outside of sections leaves to its thread. -/
theorem Rule.sectioned_other (rule : Rule t e s op flow s') (inside : op.enters = false)
    (stays : op.leaves = false)
    (guarded : op.confined = false → Sectioned depth (rest.filter Op.survives))
    (later : Sectioned depth rest)
    (returns : op.decorates = true → e.decorated ≠ .threw)
    (once : ∀ conn, op = .deregister conn →
      (s.connections.keysWhere (· = some conn)).length ≤ 1)
    (alive : s'.nullDereference = false) :
    Sectioned depth ((server n).continuation flow rest) := by
  have plain : ∀ ops : List Op, op.confined = false → (∀ op ∈ ops, op.plain = true) →
      Sectioned depth (ops ++ rest) := fun ops open' => later.append (guarded open') ops
  cases rule with
  | lock name | readLock name =>
      cases name with
      | connections => cases inside
      | connection conn | ssl => exact later
  | unlock name =>
      cases name with
      | connections => cases stays
      | connection conn | ssl => exact later
  | findMissing | found => cases stays
  | keepListening | waitRetried | waited | examineListening | examineClient | examineZero
  | loopOver | accepted | registered | indeterminateRegistered | lookupHangup | lookupError
  | reapStart | reapTime | reapDue | reapKept | reapExpired | call | callbackSetMaxIdle
  | callbackShutdownServer | callbackDefers | userIdle | userSetMaxIdle
  | userShutdownServer | userDefers =>
      exact plain _ rfl (List.all_eq_true.mp rfl)
  | callbackUses | drain | userUses =>
      exact plain _ rfl (forall_useOps rfl rfl rfl (List.forall_mem_singleton.mpr rfl))
  | shutdown conn => exact plain _ rfl (plain_shutdown conn s)
  | waitLeft | acceptThrew | notRegisteredThrew | callbackThrows | epollDelThrew | drainThrew =>
      exact guarded rfl
  | decoratorsThrew _ _ threw => exact absurd threw (returns rfl)
  | indeterminateThrew _ threw => exact absurd threw (returns rfl)
  | indeterminateNull | reapNull => cases alive
  | constructed clientfd | constructorThrew clientfd =>
      exact later.afterConstruct (guarded rfl) clientfd _
  | lookupDataReady => exact .enter rfl (.leave rfl later)
  | reapWaited maxIdle =>
      have again : Sectioned depth (.reapWait maxIdle :: rest) :=
        plain [.reapWait maxIdle] rfl (List.all_eq_true.mp rfl)
      exact again.section_append (guarded rfl) rfl [.reapTime maxIdle] (List.all_eq_true.mp rfl)
  | takeTask task =>
      have next : Sectioned depth (.takeTask :: rest) := .other rfl rfl guarded later
      have next' : Sectioned depth ((Op.takeTask :: rest).filter Op.survives) :=
        .other rfl rfl (fun _ => (guarded rfl).filter_survives) (guarded rfl)
      cases task with
      | lockCallAndUnlock callback conn =>
          exact next.section_append next' rfl
            [.call callback conn, .unlock (.connection conn) false] (List.all_eq_true.mp rfl)
      | connectionTerminated conn | shutdown conn =>
          exact next.append next' [_] (List.all_eq_true.mp rfl)
  | deregister conn =>
      have short := once conn rfl
      match keys : s.connections.keysWhere (· = some conn) with
      | [] => exact later
      | [fd] =>
          exact later.section_append (guarded rfl) rfl [.erase fd, .epollDel fd]
            (List.all_eq_true.mp rfl)
      | _ :: _ :: _ =>
          rw [keys] at short
          simp at short
  | _ => exact later

theorem locks_setLock (name : LockName) (l : RwLock (Tid n)) (s : ServerState n) :
    (s.setLock name l).locks name = l := by
  simp [setLock]

/-- What a step leaves to its thread, at the depth that it then holds. -/
theorem Rule.sectioned (rule : Rule t e s op flow s')
    (sectioned : Sectioned ((s.locks .connections).holds t) (op :: rest))
    (returns : op.decorates = true → e.decorated ≠ .threw)
    (once : ∀ conn, op = .deregister conn →
      (s.connections.keysWhere (· = some conn)).length ≤ 1)
    (alive : s'.nullDereference = false) :
    Sectioned ((s'.locks .connections).holds t) ((server n).continuation flow rest) ∧
      ∀ t', t' ≠ t → (s'.locks .connections).holds t' = (s.locks .connections).holds t' := by
  generalize depth : (s.locks .connections).holds t = held at sectioned
  cases sectioned with
  | enter enters later =>
      cases rule with
      | lock name l taken =>
          cases name with
          | connection | ssl => cases enters
          | connections =>
              have holds := RwLock.holds_lock taken
              rw [locks_setLock, holds t, depth, if_pos rfl]
              refine ⟨later, fun t' other => ?_⟩
              rw [holds t', if_neg other, Nat.add_zero]
      | readLock name l taken =>
          cases name with
          | connection | ssl => cases enters
          | connections =>
              have holds := RwLock.holds_readLock taken
              rw [locks_setLock, holds t, depth, if_pos rfl]
              refine ⟨later, fun t' other => ?_⟩
              rw [holds t', if_neg other, Nat.add_zero]
      | _ => cases enters
  | @leave held op _ leaves later =>
      cases rule with
      | unlock name =>
          cases name with
          | connection | ssl => cases leaves
          | connections =>
              have holds := RwLock.holds_unlock (l := s.locks .connections) (t := t) (by omega)
              rw [locks_setLock]
              have own := holds t
              rw [if_pos rfl, depth] at own
              rw [Nat.succ.inj own]
              refine ⟨later, fun t' other => ?_⟩
              have others := holds t'
              rwa [if_neg other] at others
      | findMissing =>
          rw [depth]
          exact ⟨.leave rfl later, fun _ _ => rfl⟩
      | found =>
          rw [depth]
          exact ⟨.other rfl rfl nofun (.other rfl rfl nofun (.leave rfl later)), fun _ _ => rfl⟩
      | _ => cases leaves
  | other inside stays guarded later =>
      rw [rule.locks_connections (Op.guards_eq_false inside stays), depth]
      exact ⟨rule.sectioned_other inside stays guarded later returns once alive, fun _ _ => rfl⟩

/-- A null pointer that was dereferenced stays dereferenced. -/
theorem Rule.nullDereference (rule : Rule t e s op flow s') (alive : s'.nullDereference = false) :
    s.nullDereference = false := by
  cases rule with
  | indeterminateNull | reapNull => cases alive
  | _ => exact alive

end ServerState

namespace ServerConfig

open ServerState

variable {n : Nat}

/-- In the step no constructor throws, `AddDecorators` does not throw, and no callback of
a task throws that has a read lock to give back. -/
def Contained (c : ServerConfig n) (t : Tid n) (e : Choice) : Prop :=
  ConstructorsSucceed c t e ∧
    Next (fun op e _ => (op.decorates = true → e.decorated ≠ .threw) ∧
      (op.runs = true → (c.prog t).any Op.returnsLock = true → e.handler ≠ .throws)) c t e

instance (c : ServerConfig n) (t : Tid n) (e : Choice) : Decidable (Contained c t e) :=
  inferInstanceAs (Decidable (_ ∧ Next (fun op e _ =>
    (op.decorates = true → e.decorated ≠ .threw) ∧
      (op.runs = true → (c.prog t).any Op.returnsLock = true → e.handler ≠ .throws)) c t e))

/-- The read locks of each connection, with those that are about to be taken for a task in
hand, are as many as its `LockCallAndUnlock` tasks that are queued, being queued, or
running, so that a `Shutdown()` waits only for such a task.  Who holds
`connections_lock_` has the end of the section still to do, unless the server crashed. -/
structure LocksBalanced (c : ServerConfig n) : Prop where
  tasks : ∀ conn,
    (c.shared.locks (.connection conn)).readers.length + total (Op.awaits conn) c.prog =
      c.shared.queuedFor conn + total (Op.owes conn) c.prog
  awaited : ∀ conn, (c.shared.locks (.connection conn)).readers ≠ [] →
    (∃ task ∈ c.shared.executor, task.reserves = some conn) ∨
      ∃ t, ∃ op ∈ c.prog t, op.owes conn ≠ 0
  sections : c.shared.nullDereference = false →
    ∀ t, 0 < (c.shared.locks .connections).holds t → ∃ op ∈ c.prog t, op.leaves = true

/-- The locks are counted, and no task was lost. -/
structure Balance (k : TaskHistory n) (c : ServerConfig n) : Prop where
  counted : ReadersCounted k c
  kept : k.lost = []
  numbered : Numbered c
  sectioned : c.shared.nullDereference = false →
    ∀ t, Sectioned ((c.shared.locks .connections).holds t) (c.prog t)

theorem Balance.init (serverfd : Nat) (ssl : Bool) (maxIdle : Int32) :
    Balance {} (init n serverfd ssl maxIdle) where
  counted := ReadersCounted.init serverfd ssl maxIdle
  kept := rfl
  numbered := Numbered.init serverfd ssl maxIdle
  sectioned _ t := by
    change Sectioned (RwLock.free.holds t) _
    rw [RwLock.holds_free]
    cases t with
    | reaper =>
      exact .other rfl rfl (fun _ => .other rfl rfl (fun _ => .nil) .nil)
        (.other rfl rfl (fun _ => .nil) .nil)
    | _ => exact .other rfl rfl (fun _ => .nil) .nil

variable {c c' : ServerConfig n} {t : Tid n} {e : Choice} {op : Op} {rest : List Op}
  {flow : Flow Op} {k : TaskHistory n}

namespace Balance

/-- Without an exception in a task nothing is lost. -/
theorem note_kept (inv : Balance k c) (contained : Contained c t e)
    (program : c.prog t = op :: rest) : (k.note t op rest e c.shared).lost = [] := by
  cases op with
  | running callback conn =>
      have throws := (contained.2.of_prog program).2 rfl
      rw [program, List.any_cons] at throws
      simp only [TaskHistory.note]
      split
      · rename_i threw
        exact absurd threw.1 (throws threw.2)
      · exact inv.kept
  | _ => exact inv.kept

/-- An entry is the only one of its connection. -/
theorem keysWhere_le_one (inv : Balance k c) (conn : Handle) :
    (c.shared.connections.keysWhere (· = some conn)).length ≤ 1 := by
  apply OrderedMap.length_keysWhere_le_one (c.shared.socket conn.accept)
  intro fd member
  obtain ⟨value, entry, same⟩ := OrderedMap.mem_keysWhere.mp member
  rw [of_decide_eq_true same] at entry
  exact (inv.numbered.pool fd conn entry).2.symm

theorem step (inv : Balance k c) (contained : Contained c t e)
    (stepped : (server n).step t e c = some c') : Balance (noteTasks c t e k) c' := by
  obtain ⟨op, rest, flow, program, executed, progs⟩ := (server n).step_eq_some stepped
  have taken : Taken c c' t e op rest flow := ⟨program, rule_of_exec executed, progs⟩
  have throws := throws_iff executed
  rw [noteTasks, program]
  constructor
  · exact inv.counted.step taken throws
  · exact inv.note_kept contained program
  · exact inv.numbered.step taken contained.1
  · intro alive t'
    have sectioned := inv.sectioned (taken.rule.nullDereference alive)
    have here := sectioned t
    rw [program] at here
    obtain ⟨own, others⟩ := taken.rule.sectioned here (contained.2.of_prog program).1
      (fun conn _ => inv.keysWhere_le_one conn) alive
    by_cases same : t' = t
    · subst same
      rw [taken.self]
      exact own
    · rw [taken.other same, others t' same]
      exact sectioned t'

theorem tasks (inv : Balance k c) (conn : Handle) :
    (c.shared.locks (.connection conn)).readers.length + total (Op.awaits conn) c.prog =
      c.shared.queuedFor conn + total (Op.owes conn) c.prog := by
  have counted := inv.counted.counted conn
  rw [inv.kept] at counted
  exact counted

theorem balanced (inv : Balance k c) : LocksBalanced c where
  tasks := inv.tasks
  awaited conn reads := by
    have some : c.shared.queuedFor conn + total (Op.owes conn) c.prog ≠ 0 := by
      have counted := inv.tasks conn
      have positive := List.length_pos_iff.mpr reads
      omega
    by_cases queued : c.shared.queuedFor conn = 0
    · right
      rw [queued, Nat.zero_add] at some
      obtain ⟨t, _, owes⟩ := Finset.exists_ne_zero_of_sum_ne_zero some
      obtain ⟨weight, member, owed⟩ := List.exists_mem_ne_zero_of_sum_ne_zero owes
      obtain ⟨op, there, rfl⟩ := List.mem_map.mp member
      exact ⟨t, op, there, owed⟩
    · left
      obtain ⟨task, member, reserves⟩ := List.countP_pos_iff.mp (Nat.pos_of_ne_zero queued)
      exact ⟨task, member, of_decide_eq_true reserves⟩
  sections alive t held := (inv.sectioned alive t).leaves_of_pos held

end Balance

/-! ### Every run -/

/-- In every run whose steps are contained the locks stay balanced. -/
theorem locksBalanced_of_contained {serverfd : Nat} {ssl : Bool} {maxIdle : Int32}
    {schedule : Schedule n}
    (contained : (server n).Along Contained schedule (init n serverfd ssl maxIdle)) :
    (server n).Always LocksBalanced schedule (init n serverfd ssl maxIdle) := by
  apply Interleaving.Machine.always_of_invariant (fun c => ∃ k, Balance k c) _ _ _ contained
  · rintro c t e c' ⟨k, inv⟩ guard stepped
    exact ⟨noteTasks c t e k, inv.step guard stepped⟩
  · rintro c ⟨k, inv⟩
    exact inv.balanced
  · exact ⟨{}, Balance.init serverfd ssl maxIdle⟩

/-- A connection is established, data comes for it, and it is hung up. -/
def containedRun : Schedule 1 :=
  acceptOne 3 5 ++ steps .only 6 ++ steps .listen 1 ++
    choose .listen { ready := some [⟨5, EPOLLIN⟩] } ++ steps .listen 9 ++ steps .only 3 ++
    choose .listen { ready := some [⟨5, EPOLLHUP⟩] } ++ steps .listen 4 ++ steps .only 3

theorem locksBalanced_of_contained_run :
    (server 1).Always LocksBalanced containedRun (init 1 3 false (-1)) ∧
      ∃ c, (server 1).run containedRun (init 1 3 false (-1)) = some c :=
  ⟨locksBalanced_of_contained (by decide +kernel), _, rfl⟩

/-- `ConnectionEstablished` throws. -/
def callbackThrewRun : Schedule 1 :=
  acceptOne 3 5 ++ steps .only 3 ++ choose .only { handler := .throws }

/-- `AddDecorators` throws. -/
def decoratorsThrewRun : Schedule 1 :=
  steps .listen 1 ++ choose .listen { ready := some [⟨3, EPOLLIN⟩] } ++ steps .listen 1 ++
    choose .listen { accepted := some 5 } ++ steps .listen 2 ++
    choose .listen { decorated := .threw }

/-- A callback that throws leaves a read lock behind, and `AddDecorators`
`connections_lock_`. -/
theorem locksBalanced_fails :
    (∃ c, (server 1).run callbackThrewRun (init 1 3 false (-1)) = some c ∧
      ¬ LocksBalanced c) ∧
    ∃ c, (server 1).run decoratorsThrewRun (init 1 3 false (-1)) = some c ∧
      ¬ LocksBalanced c := by
  constructor
  · refine ⟨_, rfl, fun balanced => ?_⟩
    have tasks := balanced.tasks ⟨0, 0⟩
    revert tasks
    decide +kernel
  · refine ⟨_, rfl, fun balanced => ?_⟩
    obtain ⟨op, member, _⟩ := balanced.sections rfl .listen (by decide)
    cases member

end ServerConfig

end LibSiot
