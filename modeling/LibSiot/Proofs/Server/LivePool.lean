/-
Module: LibSiot.Proofs.Server.LivePool
Purpose: Connections without decorators, while no constructor fails: who deletes a
  connection has taken it from the pool and locked it before.  So what is in the
  pool exists, and nobody writes to it.
Trusted boundary: none
Main exports: ServerConfig.DefersStored, ServerConfig.LivePool,
  ServerConfig.LivePool.step
-/
import LibSiot.Proofs.Server.DecoratedHandle
import LibSiot.Proofs.Server.ReadLocks
import LibSiot.Proofs.Server.TerminationNotice

namespace LibSiot

open Interleaving (Flow)
open Interleaving.Machine (pushes AllOps continuation_split)

/-- The connection that user code calls `DeferredShutdown()` on. -/
def HandlerMove.defers : HandlerMove → Option Handle
  | .acts (.deferredShutdown conn) => some conn
  | _ => none

/-- The event stores the handle in the pool. -/
def Event.stores (conn : Handle) : Event → Bool
  | .accepted _ (some other) => other = conn
  | _ => false

namespace Op

/-- The operation is a move of user code. -/
def interacts : Op → Bool
  | .running _ _ => true
  | .userCode => true
  | _ => false

/-- The connection that an operation takes down, or has queued to be taken down. -/
def finishes : Op → Option Handle
  | .addTask (.shutdown conn) => some conn
  | .delete conn => some conn
  | op => op.tears

end Op

namespace ServerState

variable {n : Nat} {t : Tid n} {e : Choice} {s s' : ServerState n} {op : Op}
  {flow : Flow Op} {conn : Handle} {rest : List Op}

/-! ### One step -/

/-- Who comes to take a connection down: it is in the pool, or in the queue, or the
operation takes down one around it. -/
theorem Rule.finishes (rule : Rule t e s op flow s') {new : Op} (member : new ∈ pushes flow)
    (finishes : new.finishes = some conn) :
    (∃ outer : Handle, op = .shutdown outer ∧ conn.accept = outer.accept ∧
      conn.level ≤ outer.level) ∨
      (∃ fd, s.connections.lookup fd = some (some conn)) ∨ .shutdown conn ∈ s.executor ∨
        op = .reapShutdown conn := by
  have tears : new.tears = some conn → (∃ outer : Handle, op = .shutdown outer ∧
      conn.accept = outer.accept ∧ conn.level ≤ outer.level) ∨
        (∃ fd, s.connections.lookup fd = some (some conn)) ∨ .shutdown conn ∈ s.executor ∨
          op = .reapShutdown conn := by
    intro tears
    rcases rule.tears member tears with outer | ⟨_, ⟨fd, _, _, entry⟩ | ⟨_, queued⟩ | ⟨reaps, _⟩⟩
    · exact Or.inl outer
    · exact Or.inr (Or.inl ⟨fd, entry⟩)
    · exact Or.inr (Or.inr (Or.inl queued))
    · exact Or.inr (Or.inr (Or.inr reaps))
  cases new with
  | delete other =>
      cases finishes
      have brackets : Op.brackets conn (.delete conn) = true := decide_eq_true rfl
      exact Or.inl ⟨conn, rule.brackets member brackets, rfl, Nat.le_refl _⟩
  | addTask task =>
      cases task with
      | shutdown other => exact absurd member rule.queues_no_shutdown
      | _ => cases finishes
  | _ => exact tears finishes

/-- When the thread takes the lock of a connection, this is not in the pool any more. -/
def Removed (s : ServerState n) (ops : List Op) : Prop :=
  ∀ pre conn post, ops = pre ++ .lock (.connection conn) :: post →
    ∀ fd, s.connections.lookup fd = some (some conn) →
      .erase fd ∈ pre ∨ .deregister conn ∈ pre

theorem accepted_iff : s.Accepted conn ↔ s.trace.any (Event.stores conn) = true := by
  rw [List.any_eq_true]
  constructor
  · rintro ⟨fd, recorded⟩
    exact ⟨_, recorded, decide_eq_true rfl⟩
  · rintro ⟨event, recorded, stores⟩
    cases event with
    | accepted fd stored =>
        cases stored with
        | none => cases stores
        | some other =>
            obtain rfl : other = conn := of_decide_eq_true stores
            exact ⟨fd, recorded⟩
    | _ => cases stores

instance (conn : Handle) (s : ServerState n) : Decidable (s.Accepted conn) :=
  decidable_of_iff _ accepted_iff.symm

end ServerState

namespace ServerConfig

open ServerState

variable {n : Nat}

/-- In the step user code calls `DeferredShutdown()` only on a connection that was
stored. -/
def DefersStored (c : ServerConfig n) (t : Tid n) (e : Choice) : Prop :=
  Next (fun op e s => op.interacts = true → ∀ conn ∈ e.handler.defers, s.Accepted conn) c t e

instance (c : ServerConfig n) (t : Tid n) (e : Choice) : Decidable (DefersStored c t e) :=
  inferInstanceAs (Decidable (Next (fun op e s =>
    op.interacts = true → ∀ conn ∈ e.handler.defers, s.Accepted conn) c t e))

/-! ### The invariant -/

/-- Connections are taken down once they were stored, and by who has their lock.  What
is in the pool exists, and its lock is held by readers only. -/
structure LivePool (c : ServerConfig n) : Prop where
  undecorated : Undecorated c
  numbered : ∀ conn, c.shared.Accepted conn → conn.accept < c.shared.nextAccept
  unstored : AllOps (fun s _ op => ∀ fd raw, op = .addDecorators fd (.constructed raw) →
    ∀ conn, s.Accepted conn → conn.accept ≠ raw.accept) c
  stored : AllOps (fun s _ op => ∀ conn, op.finishes = some conn → s.Accepted conn) c
  queued : ∀ conn, .shutdown conn ∈ c.shared.executor → c.shared.Accepted conn
  destroyed : ∀ conn, c.shared.Destroyed conn → c.shared.Accepted conn
  written : ∀ conn t, (c.shared.locks (.connection conn)).writer = some t →
    c.shared.Accepted conn
  removed : ∀ t, Removed c.shared (c.prog t)
  live : ∀ fd conn, c.shared.connections.lookup fd = some (some conn) →
    ¬ c.shared.Destroyed conn ∧ (c.shared.locks (.connection conn)).writer = none

theorem LivePool.init (serverfd : Nat) (ssl : Bool) (maxIdle : Int32) :
    LivePool (init n serverfd ssl maxIdle) where
  undecorated := Undecorated.init serverfd ssl maxIdle
  numbered conn accepted := by
    obtain ⟨fd, recorded⟩ := accepted
    cases recorded
  unstored := forall_init nofun nofun (fun _ => nofun) nofun
  stored := forall_init nofun nofun (fun _ => nofun) nofun
  queued conn queued := by cases queued
  destroyed conn destroyed := by cases destroyed
  written conn t writer := by cases writer
  removed t pre conn post split fd entry := by cases entry
  live fd conn entry := by cases entry

variable {c c' : ServerConfig n} {t : Tid n} {e : Choice} {op : Op} {rest : List Op}
  {flow : Flow Op} {conn : Handle}

namespace LivePool

theorem step_numbered (inv : LivePool c) (taken : Taken c c' t e op rest flow)
    (returns : Returns op e c.shared) (conn : Handle) (accepted : c'.shared.Accepted conn) :
    conn.accept < c'.shared.nextAccept := by
  rcases inv.undecorated.accepted_old taken returns accepted with old | ⟨_, _, fresh⟩
  · exact (taken.rule.numbered (inv.numbered conn old)).1
  · exact (taken.rule.numbered fresh.accepted).1

theorem step_unstored (inv : LivePool c) (taken : Taken c c' t e op rest flow)
    (returns : Returns op e c.shared) :
    AllOps (fun s _ op => ∀ fd raw, op = .addDecorators fd (.constructed raw) →
      ∀ conn, s.Accepted conn → conn.accept ≠ raw.accept) c' := by
  rintro t' _ member fd raw rfl conn accepted
  rcases taken.mem member with ⟨rfl, pushed⟩ | old
  · obtain ⟨rfl, rfl, _⟩ := taken.rule.adds pushed
    rcases inv.undecorated.accepted_old taken returns accepted with before | ⟨_, impossible, _⟩
    · exact Nat.ne_of_lt (inv.numbered conn before)
    · cases impossible
  · have there : .addDecorators fd (.constructed raw) ∈ c.prog t' := by
      rcases old with ⟨rfl, later⟩ | ⟨_, there⟩
      · exact taken.program ▸ List.mem_cons_of_mem _ later
      · exact there
    rcases inv.undecorated.accepted_old taken returns accepted with before | ⟨fd', rfl, _⟩
    · exact inv.unstored t' _ there fd raw rfl conn before
    · exact (inv.undecorated.numbered.not_adding taken rfl old).elim

theorem step_stored (inv : LivePool c) (taken : Taken c c' t e op rest flow) :
    AllOps (fun s _ op => ∀ conn, op.finishes = some conn → s.Accepted conn) c' := by
  intro t' op' member conn finishes
  apply Accepted.of_rule taken.rule
  rcases taken.mem member with ⟨rfl, pushed⟩ | ⟨rfl, old⟩ | ⟨_, old⟩
  · rcases taken.rule.finishes pushed finishes with ⟨outer, rfl, accept, level⟩ | ⟨fd, entry⟩ |
      queued | rfl
    · have accepted := inv.stored t' _ taken.first outer rfl
      have bare := inv.undecorated.bare outer accepted
      obtain ⟨number, level'⟩ := conn
      obtain ⟨number', level''⟩ := outer
      cases accept
      cases bare
      cases Nat.le_zero.mp level
      exact accepted
    · exact inv.undecorated.pool fd conn entry
    · exact inv.queued conn queued
    · exact inv.undecorated.delivers t' _ taken.first conn rfl
  · exact inv.stored t' op' (taken.program ▸ List.mem_cons_of_mem _ old) conn finishes
  · exact inv.stored t' op' old conn finishes

theorem step_queued (inv : LivePool c) (taken : Taken c c' t e op rest flow)
    (defers : DefersStored c t e) (conn : Handle) (queued : .shutdown conn ∈ c'.shared.executor) :
    c'.shared.Accepted conn := by
  apply Accepted.of_rule taken.rule
  rcases taken.rule.queued_shutdown queued with old | rfl | ⟨user, acts, _⟩
  · exact inv.queued conn old
  · exact inv.stored t _ taken.first conn rfl
  · have deferred : conn ∈ e.handler.defers := by
      rw [acts]
      rfl
    rcases user with ⟨callback, other, rfl⟩ | rfl
    · exact defers.of_prog taken.program rfl conn deferred
    · exact defers.of_prog taken.program rfl conn deferred

theorem step_destroyed (inv : LivePool c) (taken : Taken c c' t e op rest flow) (conn : Handle)
    (destroyed : c'.shared.Destroyed conn) : c'.shared.Accepted conn := by
  apply Accepted.of_rule taken.rule
  rcases taken.rule.destroyed destroyed with old | deletes
  · exact inv.destroyed conn old
  · apply inv.stored t op taken.first conn
    cases op <;> cases deletes
    rfl

theorem step_written (inv : LivePool c) (taken : Taken c c' t e op rest flow) (conn : Handle)
    (t' : Tid n) (writer : (c'.shared.locks (.connection conn)).writer = some t') :
    c'.shared.Accepted conn := by
  apply Accepted.of_rule taken.rule
  rcases taken.rule.writer writer with ⟨before, _⟩ | ⟨rfl, _⟩
  · exact inv.written conn t' before
  · exact inv.stored t _ taken.first conn rfl

/-- A connection that is taken down does not get into the pool again. -/
theorem entry_of_accepted (inv : LivePool c) (taken : Taken c c' t e op rest flow) {fd : Nat}
    (accepted : c.shared.Accepted conn)
    (entry : c'.shared.connections.lookup fd = some (some conn)) :
    c.shared.connections.lookup fd = some (some conn) ∧ op ≠ .erase fd := by
  rcases inv.undecorated.numbered.entry_old taken entry with old | ⟨raw, rfl, same, _⟩
  · exact old
  · exact absurd same (inv.unstored t _ taken.first fd raw rfl conn accepted)

theorem step_removed (inv : LivePool c) (taken : Taken c c' t e op rest flow) (t' : Tid n) :
    Removed c'.shared (c'.prog t') := by
  intro pre conn post split fd entry
  by_cases same : t' = t
  · subst same
    rw [taken.self] at split
    rcases continuation_split split rfl with ⟨between, pushed, rfl⟩ | ⟨pre', rfl, rfl⟩
    · -- `Shutdown()` begins, with `Deregister()`.
      have member : .lock (.connection conn) ∈ pushes flow :=
        pushed ▸ List.mem_append_right _ List.mem_cons_self
      have brackets : Op.brackets conn (.lock (.connection conn)) = true := decide_eq_true rfl
      obtain rfl := taken.rule.brackets member brackets
      rw [taken.rule.shutdown_flow] at pushed
      obtain ⟨_, dequeued, _⟩ := split_shutdownOps pushed
      exact Or.inr dequeued
    · have accepted := inv.stored t' (.lock (.connection conn))
        (taken.program ▸ List.mem_cons_of_mem _ (List.mem_append_right _ List.mem_cons_self))
        conn rfl
      obtain ⟨old, kept⟩ := inv.entry_of_accepted taken accepted entry
      have removal := inv.removed t' (op :: pre') conn post (by rw [taken.program]; rfl) fd old
      exact taken.rule.removal_pushes old kept removal
  · rw [taken.other same] at split
    have accepted := inv.stored t' (.lock (.connection conn))
      (split ▸ List.mem_append_right _ List.mem_cons_self) conn rfl
    exact inv.removed t' pre conn post split fd (inv.entry_of_accepted taken accepted entry).1

theorem step_live (inv : LivePool c) (taken : Taken c c' t e op rest flow)
    (deletes : ∀ conn, op = .delete conn →
      (c.shared.locks (.connection conn)).writer = some t)
    (fd : Nat) (conn : Handle) (entry : c'.shared.connections.lookup fd = some (some conn)) :
    ¬ c'.shared.Destroyed conn ∧ (c'.shared.locks (.connection conn)).writer = none := by
  rcases inv.undecorated.numbered.entry_old taken entry with ⟨old, _⟩ | ⟨raw, rfl, same, _⟩
  · obtain ⟨exists', unwritten⟩ := inv.live fd conn old
    constructor
    · intro destroyed
      rcases taken.rule.destroyed destroyed with before | deleted
      · exact exists' before
      · cases op <;> cases deleted
        rw [deletes conn rfl] at unwritten
        cases unwritten
    · -- Who locks the connection has erased the entry.
      by_contra written
      obtain ⟨t', writes⟩ := Option.ne_none_iff_exists'.mp written
      rcases taken.rule.writer writes with ⟨before, _⟩ | ⟨rfl, rfl⟩
      · rw [unwritten] at before
        cases before
      · rcases inv.removed t' [] conn rest taken.program fd old with none | none <;> cases none
  · have unaccepted : ¬ c.shared.Accepted conn := fun accepted =>
      inv.unstored t _ taken.first fd raw rfl conn accepted same
    constructor
    · intro destroyed
      rcases taken.rule.destroyed destroyed with before | deleted
      · exact unaccepted (inv.destroyed conn before)
      · cases deleted
    · by_contra written
      obtain ⟨t', writes⟩ := Option.ne_none_iff_exists'.mp written
      rcases taken.rule.writer writes with ⟨before, _⟩ | ⟨impossible, _⟩
      · exact unaccepted (inv.written conn t' before)
      · cases impossible

/-- A step keeps the invariant if no constructor fails, `AddDecorators` returns its
argument, `DeferredShutdown()` is called on what was stored, and who deletes has the
lock. -/
theorem step (inv : LivePool c) (taken : Taken c c' t e op rest flow)
    (returns : ReturnsArgument c t e) (defers : DefersStored c t e)
    (deletes : ∀ conn, op = .delete conn →
      (c.shared.locks (.connection conn)).writer = some t)
    (stepped : (server n).step t e c = some c') : LivePool c' where
  undecorated := inv.undecorated.step returns stepped
  numbered := inv.step_numbered taken (returns.of_prog taken.program)
  unstored := inv.step_unstored taken (returns.of_prog taken.program)
  stored := inv.step_stored taken
  queued := inv.step_queued taken defers
  destroyed := inv.step_destroyed taken
  written := inv.step_written taken
  removed := inv.step_removed taken
  live := inv.step_live taken deletes

end LivePool

end ServerConfig

end LibSiot
