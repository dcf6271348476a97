/-
Module: LibSiot.Proofs.Server.LockModes
Purpose: How each thread holds `connections_lock_` along what it has still to do:
  every operation is done in a mode that it needs, and an exception leaves the
  thread with just the destructor of the guard that it is in.
Trusted boundary: none
Main exports: Op.allowed, Moves, Disciplined, ServerState.Rule.disciplined
-/
import LibSiot.Server.Rules

namespace LibSiot

open Interleaving (Flow)
open RwLock (Mode)

namespace Op

/-- The operation is done in this mode of `connections_lock_` and keeps it. -/
def allowed (m : Mode) : Op → Bool
  | .call _ _ => true
  | .running _ _ => true
  | .unlock (.connection _) _ => m = .reading
  | .addDecorators _ (.constructed _) => m = .writing
  | .erase _ => m = .writing
  | .epollDel _ => m = .writing
  | .reapTime _ => m = .writing
  | .reapNext _ _ _ => m = .writing
  | .reapShutdown _ => m = .writing
  | .readLock (.connection _) => m ≠ .reading
  | .lock (.connection _) => m ≠ .reading
  | .addTask _ => m ≠ .reading
  | .shutdown _ => m ≠ .reading
  | .deregister _ => m ≠ .reading
  | .closeSocket _ => m ≠ .reading
  | .drain _ => m ≠ .reading
  | .drained _ => m ≠ .reading
  | .delete _ => m ≠ .reading
  | .use _ => true
  | .lock (.ssl _) => true
  | .unlock (.ssl _) _ => true
  | .lock .connections => false
  | .readLock .connections => false
  | .unlock .connections _ => false
  | .find _ _ => false
  | .addDecorators _ .indeterminate => false
  | .epollAdd _ .indeterminate => false
  | _ => m = .idle

/-- The operation is on `connections_lock_` itself. -/
def guards : Op → Bool
  | .lock .connections => true
  | .readLock .connections => true
  | .unlock .connections _ => true
  | _ => false

/-- The operation is one of the listening thread, from `while (running_)` to what
follows a lookup or an `accept`. -/
def listens : Op → Bool
  | .listenWhile => true
  | .epollWait => true
  | .forLoop _ _ => true
  | .accept => true
  | .construct _ => true
  | .addDecorators _ _ => true
  | .epollAdd _ _ => true
  | .clearEvents => true
  | .lookup _ _ => true
  | .find _ _ => true
  | _ => false

/-- The operation makes or erases an entry of the pool, or decides on one. -/
def changes : Op → Bool
  | .addDecorators _ _ => true
  | .erase _ => true
  | .epollDel _ => true
  | .reapShutdown _ => true
  | _ => false

/-- The mode after the operation. -/
def entered (m : Mode) : Op → Mode
  | .lock .connections => .writing
  | .readLock .connections => .reading
  | .unlock .connections _ => .idle
  | _ => m

/-- The operation is the end of a `MutexLock l(ssl_mtx_)`. -/
def endsSsl : Op → Bool
  | .unlock (.ssl _) _ => true
  | _ => false

/-- The operation keeps the mode, and an exception skips it or only gives `ssl_mtx_`
back by it. -/
def steady (m : Mode) (op : Op) : Bool :=
  op.allowed m && (op.endsSsl || !op.survives)

theorem guards_of_allowed {m : Mode} {op : Op} (allowed : op.allowed m = true) :
    op.guards = false := by
  cases op with
  | lock name => cases name <;> first | rfl | cases allowed
  | readLock name => cases name <;> first | rfl | cases allowed
  | unlock name destructor => cases name <;> first | rfl | cases allowed
  | _ => rfl

theorem listens_of_common {op : Op} (common : op.common = true) : op.listens = false := by
  cases op <;> first | rfl | cases common

end Op

/-- The mode that a thread is in after an operation and all that it pushes. -/
inductive Moves : Mode → Op → Mode → Prop where
  | acquire : Moves .idle (.lock .connections) .writing
  | acquireRead : Moves .idle (.readLock .connections) .reading
  | release {m : Mode} (destructor : Bool) (held : m ≠ .idle) :
      Moves m (.unlock .connections destructor) .idle
  | find (fd : Nat) (conn : Handle) : Moves .writing (.find fd conn) .idle
  | stay {m : Mode} {op : Op} (allowed : op.allowed m = true) : Moves m op m

/-- Nothing is done with the unassigned variable `conn`. -/
theorem Moves.determinate {m m' : Mode} {op : Op} (moves : Moves m op m') :
    (∀ fd, op ≠ .addDecorators fd .indeterminate) ∧ ∀ fd, op ≠ .epollAdd fd .indeterminate := by
  constructor
  · rintro fd rfl
    cases moves with
    | stay allowed => cases allowed
  · rintro fd rfl
    cases moves with
    | stay allowed => cases allowed

/-- The pool is changed, and decided on, by a thread that writes. -/
theorem Moves.writing {m m' : Mode} {op : Op} (moves : Moves m op m')
    (changes : op.changes = true) : m = .writing := by
  cases moves with
  | stay allowed =>
      cases op with
      | addDecorators fd conn =>
          cases conn with
          | constructed raw => exact of_decide_eq_true allowed
          | indeterminate => cases allowed
      | _ => first | exact of_decide_eq_true allowed | cases changes
  | _ => cases changes

/-- What may be left to a thread by an exception that passes it in this mode: the
destructors of its guards, and the next task. -/
inductive Leaves : Mode → List Op → Prop where
  | nil (m : Mode) : Leaves m []
  | task {ops : List Op} (others : Leaves .idle ops) : Leaves .idle (.takeTask :: ops)
  | guard {m : Mode} {ops : List Op} (held : m ≠ .idle) (others : Leaves .idle ops) :
      Leaves m (.unlock .connections true :: ops)
  | ssl {m : Mode} (accept : Nat) {ops : List Op} (others : Leaves m ops) :
      Leaves m (.unlock (.ssl accept) true :: ops)

/-- From this mode on, every operation is done in a mode that it needs. -/
inductive Disciplined : Mode → List Op → Prop where
  | nil (m : Mode) : Disciplined m []
  | cons {m m' : Mode} {op : Op} {rest : List Op} (moves : Moves m op m')
      (leaves : op.guards = false → Leaves m (rest.filter Op.survives))
      (alone : op.listens = true → rest.filter Op.survives = [])
      (after : Disciplined m' rest) : Disciplined m (op :: rest)

theorem Leaves.filter_survives {m : Mode} {ops : List Op} (leaves : Leaves m ops) :
    ops.filter Op.survives = ops := by
  induction leaves with
  | nil m => rfl
  | task others ih | guard held others ih | ssl accept others ih =>
      rw [List.filter_cons_of_pos rfl, ih]

/-- What an exception leaves is disciplined. -/
theorem Leaves.disciplined {m : Mode} {ops : List Op} (leaves : Leaves m ops) :
    Disciplined m ops := by
  induction leaves with
  | nil m => exact .nil m
  | task others ih =>
      exact .cons (.stay rfl) (fun _ => others.filter_survives.symm ▸ others) nofun ih
  | guard held others ih => exact .cons (.release true held) nofun nofun ih
  | ssl accept others ih =>
      exact .cons (.stay rfl) (fun _ => others.filter_survives.symm ▸ others) nofun ih

/-- Guards of `ssl_mtx_` may end before the others do. -/
theorem Leaves.append {m : Mode} {rest : List Op} (leaves : Leaves m (rest.filter Op.survives))
    (ops : List Op) (steady : ∀ op ∈ ops, op.steady m = true) :
    Leaves m ((ops ++ rest).filter Op.survives) := by
  induction ops with
  | nil => exact leaves
  | cons op ops ih =>
      obtain ⟨first, others⟩ := List.forall_mem_cons.mp steady
      have left := ih others
      rw [List.cons_append, List.filter_cons]
      split
      · rename_i survives
        have ends : op.endsSsl = true := by
          rw [Op.steady, survives] at first
          simpa using (Bool.and_eq_true_iff.mp first).2
        cases op with
        | unlock name destructor =>
            obtain rfl : destructor = true := survives
            cases name with
            | ssl accept => exact .ssl accept left
            | _ => cases ends
        | _ => cases ends
      · exact left

/-- Operations that keep the mode, before others. -/
theorem Disciplined.append {m : Mode} {rest : List Op} (disciplined : Disciplined m rest)
    (ops : List Op) (steady : ∀ op ∈ ops, op.steady m = true)
    (leaves : Leaves m (rest.filter Op.survives))
    (alone : ops.any Op.listens = true → (ops ++ rest).filter Op.survives = []) :
    Disciplined m (ops ++ rest) := by
  induction ops with
  | nil => exact disciplined
  | cons op ops ih =>
      obtain ⟨first, others⟩ := List.forall_mem_cons.mp steady
      rw [List.any_cons, Bool.or_eq_true] at alone
      have fewer : (op :: ops ++ rest).filter Op.survives = [] →
          (ops ++ rest).filter Op.survives = [] := fun none =>
        List.filter_eq_nil_iff.mpr fun later member =>
          List.filter_eq_nil_iff.mp none later (List.mem_cons_of_mem op member)
      exact .cons (.stay (Bool.and_eq_true_iff.mp first).1) (fun _ => leaves.append ops others)
        (fun listens => fewer (alone (Or.inl listens)))
        (ih others fun listens => fewer (alone (Or.inr listens)))

namespace ServerState

variable {n : Nat} {t : Tid n} {e : Choice} {s s' : ServerState n} {op : Op}
  {flow : Flow Op} {m : Mode}

/-- `Shutdown()` keeps the mode in which it is entered. -/
theorem steady_shutdownOps {conn : Handle} (allowed : m ≠ .reading) :
    ∀ op ∈ s.shutdownOps conn, op.steady m = true := by
  intro op member
  have there : decide (m ≠ .reading) = true := decide_eq_true allowed
  rcases mem_shutdownOps member with rfl | rfl | member | rfl
  · rfl
  · exact Bool.and_eq_true_iff.mpr ⟨there, rfl⟩
  · rcases mem_shutdownBody member with rfl | rfl | rfl | ⟨_, rfl, _⟩ | rfl <;>
      exact Bool.and_eq_true_iff.mpr ⟨there, rfl⟩
  · rfl

theorem any_listens_shutdownOps {conn : Handle} :
    (s.shutdownOps conn).any Op.listens = false := by
  rw [List.any_eq_false]
  intro op member
  rcases mem_shutdownOps member with rfl | rfl | member | rfl
  · exact Bool.false_ne_true
  · exact Bool.false_ne_true
  · rcases mem_shutdownBody member with rfl | rfl | rfl | ⟨_, rfl, _⟩ | rfl <;>
      exact Bool.false_ne_true
  · exact Bool.false_ne_true

/-- Calls of `Receive` or `Send` keep the mode in which they are made. -/
theorem Rule.disciplined_uses {conn : Handle} {calls : Nat} {rest : List Op} (after : Disciplined m rest)
    (leaves : Leaves m (rest.filter Op.survives)) (op : Op) (steady : op.steady m = true)
    (quiet : op.listens = false) : Disciplined m ((s.useOps conn calls ++ [op]) ++ rest) := by
  refine after.append _ (forall_useOps rfl rfl rfl (List.forall_mem_singleton.mpr steady)) leaves
    fun listens => ?_
  have none : (s.useOps conn calls ++ [op]).any Op.listens = false :=
    List.any_eq_false.mpr (forall_useOps Bool.false_ne_true Bool.false_ne_true
      Bool.false_ne_true (List.forall_mem_singleton.mpr (ne_true_of_eq_false quiet)))
  rw [none] at listens
  cases listens

/-- What an operation that keeps the mode leaves to its thread is disciplined. -/
theorem Rule.disciplined_stay {rest : List Op} (rule : Rule t e s op flow s')
    (allowed : op.allowed m = true) (leaves : Leaves m (rest.filter Op.survives))
    (alone : op.listens = true → rest.filter Op.survives = []) (after : Disciplined m rest)
    (constructs : op.constructs = true → s.ssl = true → OpenSSLConnection.construct e.ssl = .ok ())
    (once : ∀ conn, op = .deregister conn →
      (s.connections.keysWhere (· = some conn)).length ≤ if m = .writing then 0 else 1) :
    Disciplined (op.entered m) ((server n).continuation flow rest) := by
  cases rule with
  | lock name | readLock name | unlock name =>
      cases name with
      | connections => cases allowed
      | connection conn | ssl accept => exact after
  | keepListening | waitRetried | waited | examineListening | examineClient | examineZero
  | loopOver | accepted =>
      obtain rfl := of_decide_eq_true allowed
      exact after.append _ (List.all_eq_true.mp rfl) leaves fun _ => alone rfl
  | waitLeft | acceptThrew | decoratorsThrew | notRegisteredThrew | callbackThrows
  | epollDelThrew | drainThrew => exact leaves.disciplined
  | constructed clientfd succeeds =>
      obtain rfl := of_decide_eq_true allowed
      have tail := after.append
        [.clearEvents, .epollAdd clientfd (.constructed { accept := s.nextAccept, level := 0 })]
        (List.all_eq_true.mp rfl) leaves fun _ => alone rfl
      refine .cons .acquire nofun nofun (.cons (.stay rfl) (fun _ => ?_) (fun _ => alone rfl)
        (.cons (.release false (by decide)) nofun nofun tail))
      change Leaves _ (rest.filter Op.survives)
      rw [alone rfl]
      exact .nil _
  | constructorThrew clientfd error encrypted threw =>
      rw [constructs rfl encrypted] at threw
      cases threw
  | indeterminateThrew | indeterminateDecorated | indeterminateRegistered | indeterminateNull
  | findMissing | found => cases allowed
  | registered =>
      obtain rfl := of_decide_eq_true allowed
      exact after.append _ (List.all_eq_true.mp rfl) leaves nofun
  | lookupHangup | lookupError | reapStart =>
      obtain rfl := of_decide_eq_true allowed
      exact after.append _ (List.all_eq_true.mp rfl) leaves nofun
  | lookupDataReady fd events conn =>
      obtain rfl := of_decide_eq_true allowed
      refine .cons .acquire nofun nofun (.cons (.find fd conn) (fun _ => ?_) (fun _ => alone rfl) after)
      change Leaves _ (rest.filter Op.survives)
      rw [alone rfl]
      exact .nil _
  | reapWaited maxIdle =>
      obtain rfl := of_decide_eq_true allowed
      have tail := after.append [.reapWait maxIdle] (List.all_eq_true.mp rfl) leaves nofun
      exact .cons .acquire nofun nofun (.cons (.stay rfl)
        (fun _ => .guard (by decide) leaves) nofun
        (.cons (.release true (by decide)) nofun nofun tail))
  | reapTime | reapDue | reapKept | reapExpired =>
      obtain rfl := of_decide_eq_true allowed
      exact after.append _ (List.all_eq_true.mp rfl) leaves nofun
  | reapNull => exact .nil _
  | takeTask task tasks queue =>
      obtain rfl := of_decide_eq_true allowed
      have next : Disciplined .idle (.takeTask :: rest) :=
        .cons (.stay rfl) (fun _ => leaves) nofun after
      have left : Leaves .idle ((.takeTask :: rest).filter Op.survives) :=
        .task leaves
      cases task with
      | lockCallAndUnlock callback conn =>
          have guard : Leaves .reading (.unlock .connections true :: .takeTask ::
              rest.filter Op.survives) := .guard (by decide) left
          exact .cons .acquireRead nofun nofun (.cons (.stay rfl) (fun _ => guard) nofun
            (.cons (.stay rfl) (fun _ => guard) nofun
              (.cons (.release true (by decide)) nofun nofun next)))
      | connectionTerminated conn =>
          exact next.append [.call .connectionTerminated conn] (List.all_eq_true.mp rfl) left nofun
      | shutdown conn => exact next.append [.shutdown conn] (List.all_eq_true.mp rfl) left nofun
  | call | callbackSetMaxIdle | callbackShutdownServer | callbackDefers =>
      exact after.append _ (List.all_eq_true.mp rfl) leaves nofun
  | callbackUses callback conn => exact disciplined_uses after leaves _ rfl rfl
  | drain conn =>
      exact disciplined_uses after leaves _ (Bool.and_eq_true_iff.mpr ⟨allowed, rfl⟩) rfl
  | shutdown conn =>
      refine after.append _ (steady_shutdownOps (of_decide_eq_true allowed)) leaves ?_
      rw [any_listens_shutdownOps]
      exact nofun
  | deregister conn =>
      have few := once conn rfl
      match found : s.connections.keysWhere (· = some conn) with
      | [] => exact after
      | fd :: fds =>
          rw [found, List.length_cons] at few
          have idle : m = .idle := by
            cases m with
            | idle => rfl
            | reading => cases allowed
            | writing => exact absurd few (Nat.not_succ_le_zero _)
          subst idle
          obtain rfl : fds = [] := List.eq_nil_of_length_eq_zero (Nat.le_zero.mp (Nat.le_of_succ_le_succ few))
          have guard : Leaves .writing (.unlock .connections true :: rest.filter Op.survives) :=
            .guard (by decide) leaves
          exact .cons .acquire nofun nofun (.cons (.stay rfl) (fun _ => guard) nofun
            (.cons (.stay rfl) (fun _ => guard) nofun
              (.cons (.release true (by decide)) nofun nofun after)))
  | userIdle | userSetMaxIdle | userShutdownServer | userDefers =>
      obtain rfl := of_decide_eq_true allowed
      exact after.append _ (List.all_eq_true.mp rfl) leaves nofun
  | userUses other =>
      obtain rfl := of_decide_eq_true allowed
      exact disciplined_uses after leaves _ rfl rfl
  | _ => exact after

/-- What any operation leaves to its thread is disciplined, if constructors succeed
and a connection has one entry in the pool, or none where its thread holds the
lock. -/
theorem Rule.disciplined {rest : List Op} (rule : Rule t e s op flow s')
    (disciplined : Disciplined m (op :: rest))
    (constructs : op.constructs = true → s.ssl = true → OpenSSLConnection.construct e.ssl = .ok ())
    (once : ∀ conn, op = .deregister conn →
      (s.connections.keysWhere (· = some conn)).length ≤ if m = .writing then 0 else 1) :
    Disciplined (op.entered m) ((server n).continuation flow rest) := by
  cases disciplined with
  | cons moves leaves alone after =>
      cases moves with
      | acquire => cases rule; exact after
      | acquireRead => cases rule; exact after
      | release destructor held => cases rule; exact after
      | find fd conn =>
          have release : Disciplined .writing (.unlock .connections false :: rest) :=
            .cons (.release false (by decide)) nofun nofun after
          cases rule with
          | findMissing => exact release
          | found =>
              exact release.append (lockAndAdd .dataReady conn)
                (List.all_eq_true.mp rfl) (leaves rfl) nofun
      | stay allowed =>
          exact rule.disciplined_stay allowed (leaves (Op.guards_of_allowed allowed)) alone after
            constructs once

/-- Only operations on `connections_lock_` change it. -/
theorem Rule.locks_connections (rule : Rule t e s op flow s') (other : op.guards = false) :
    s'.locks .connections = s.locks .connections := by
  cases rule with
  | lock name | readLock name | unlock name =>
      cases name with
      | connections => cases other
      | connection conn | ssl accept => rfl
  | _ => rfl

/-- The modes of all threads after a step: that of the thread is the one that its
operation enters. -/
theorem Rule.mode {m' : Mode} (rule : Rule t e s op flow s')
    (exclusive : (s.locks .connections).Exclusive)
    (moves : Moves ((s.locks .connections).mode t) op m') :
    (s'.locks .connections).Exclusive ∧ ∀ t', (s'.locks .connections).mode t' =
      if t' = t then op.entered ((s.locks .connections).mode t)
      else (s.locks .connections).mode t' := by
  by_cases other : op.guards = false
  · rw [rule.locks_connections other]
    refine ⟨exclusive, fun t' => ?_⟩
    split
    · rename_i same
      rw [same]
      cases op with
      | lock name | readLock name | unlock name => cases name <;> first | rfl | cases other
      | _ => rfl
    · rfl
  · generalize before : (s.locks .connections).mode t = m at moves
    cases moves with
    | acquire =>
        cases rule with
        | lock _ l taken =>
            obtain ⟨exclusive, modes⟩ := RwLock.Exclusive.lock taken
            exact ⟨exclusive, modes⟩
    | acquireRead =>
        cases rule with
        | readLock _ l taken =>
            obtain ⟨exclusive, modes⟩ := exclusive.readLock before taken
            exact ⟨exclusive, modes⟩
    | release destructor held =>
        cases rule
        obtain ⟨exclusive, modes⟩ := exclusive.unlock (before ▸ held)
        exact ⟨exclusive, modes⟩
    | find fd conn => exact absurd rfl other
    | stay allowed => exact absurd (Op.guards_of_allowed allowed) other

end ServerState

end LibSiot
