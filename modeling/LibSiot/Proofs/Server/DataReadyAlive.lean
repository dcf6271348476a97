/-
Module: LibSiot.Proofs.Server.DataReadyAlive
Purpose: A connection exists from the `find()` of a `DataReady` event to the `Unlock()`
  of the task: each task that has to give a read lock back stands for a reader of the
  connection, and who deletes the connection waits for its readers.
Trusted boundary: none
Main exports: ServerConfig.InUse, ServerConfig.KeptAlive, ServerConfig.Sectional,
  ServerConfig.keptAlive_of_constructorsSucceed
-/
import LibSiot.Proofs.Server.LivePool

namespace LibSiot

open Interleaving (Flow)
open Interleaving.Machine (pushes AllOps total)

/-- The operation queues a `DataReady` task. -/
def Op.offers : Op → Bool
  | .addTask (.lockCallAndUnlock .dataReady _) => true
  | _ => false

namespace ServerState

variable {n : Nat} {t : Tid n} {e : Choice} {s s' : ServerState n} {op : Op}
  {flow : Flow Op} {conn : Handle} {callback : Callback}

/-- Tasks of `LockCallAndUnlock` get into the queue by `addTask`. -/
theorem Rule.queued_hands (rule : Rule t e s op flow s')
    (queued : .lockCallAndUnlock callback conn ∈ s'.executor) :
    .lockCallAndUnlock callback conn ∈ s.executor ∨
      op = .addTask (.lockCallAndUnlock callback conn) := by
  cases rule with
  | addTask task =>
      rcases List.mem_append.mp queued with old | new
      · exact Or.inl old
      · rw [List.mem_singleton.mp new]
        exact Or.inr rfl
  | takeTask task tasks queue => exact Or.inl (queue ▸ List.mem_cons_of_mem _ queued)
  | callbackDefers | userDefers =>
      rcases List.mem_append.mp queued with old | new
      · exact Or.inl old
      · cases List.mem_singleton.mp new
  | _ => exact Or.inl queued

end ServerState

namespace ServerConfig

open ServerState

variable {n : Nat}

/-! ### The property -/

/-- A `DataReady` event of the connection passed its `find()`, and the task for it has
not yet executed `conn->Unlock()`: it is still to be queued, is queued, is with a
thread, or was left by an exception. -/
def InUse (k : TaskHistory n) (c : ServerConfig n) (conn : Handle) : Prop :=
  (∃ t, .addTask (.lockCallAndUnlock .dataReady conn) ∈ c.prog t) ∨
    .lockCallAndUnlock .dataReady conn ∈ c.shared.executor ∨
    (∃ t, k.task t = some (.lockCallAndUnlock .dataReady conn) ∧
      .unlock (.connection conn) false ∈ c.prog t) ∨
    .lockCallAndUnlock .dataReady conn ∈ k.lost

/-- Where `find()` passes, the entry is the connection that was met before, and this
exists.  It exists as long as it is in use. -/
structure KeptAlive (k : TaskHistory n) (c : ServerConfig n) : Prop where
  found : ∀ t fd conn rest value, c.prog t = .find fd conn :: rest →
    c.shared.connections.lookup fd = some value → value = some conn ∧ ¬ c.shared.Destroyed conn
  alive : ∀ conn, InUse k c conn → ¬ c.shared.Destroyed conn

/-- In the step `AddDecorators` returns its argument, if it returns; and no other thread
has passed the `find()` of a `DataReady` event without having queued the task. -/
def Sectional (c : ServerConfig n) (t : Tid n) (e : Choice) : Prop :=
  Next (fun op e _ => op.decorates = true → e.decorated = .stack [] ∨ e.decorated = .threw) c t e ∧
    ∀ t', t' ≠ t → ∀ op ∈ c.prog t', op.offers = false

instance (c : ServerConfig n) (t : Tid n) (e : Choice) : Decidable (Sectional c t e) :=
  inferInstanceAs (Decidable (Next (fun op e _ =>
    op.decorates = true → e.decorated = .stack [] ∨ e.decorated = .threw) c t e ∧ _))

theorem ReturnsArgument.of_sectional {c : ServerConfig n} {t : Tid n} {e : Choice}
    (constructs : ConstructorsSucceed c t e) (sectional : Sectional c t e) :
    ReturnsArgument c t e := by
  have decorates := sectional.1
  simp only [ReturnsArgument, ConstructorsSucceed, Next] at constructs decorates ⊢
  split
  · trivial
  · rename_i op rest program
    rw [program] at constructs decorates
    exact ⟨constructs, decorates⟩

/-! ### The invariant -/

/-- The locks are counted, what is in the pool exists, and nothing that was deleted is
in use. -/
structure Lent (k : TaskHistory n) (c : ServerConfig n) : Prop where
  counted : ReadersCounted k c
  pool : LivePool c
  finding : AllOps (fun s _ op => Finding s op) c
  unused : ∀ conn, c.shared.Destroyed conn → ¬ InUse k c conn

theorem Lent.init (serverfd : Nat) (ssl : Bool) (maxIdle : Int32) :
    Lent {} (init n serverfd ssl maxIdle) where
  counted := ReadersCounted.init serverfd ssl maxIdle
  pool := LivePool.init serverfd ssl maxIdle
  finding := forall_init nofun nofun (fun _ => nofun) nofun
  unused conn destroyed := by cases destroyed

variable {c c' : ServerConfig n} {t : Tid n} {e : Choice} {op : Op} {rest : List Op}
  {flow : Flow Op} {k : TaskHistory n} {conn : Handle}

namespace Lent

/-- A connection gets into use by a `find()` that passes. -/
theorem inUse_old (inv : Lent k c) (taken : Taken c c' t e op rest flow)
    (used : InUse (k.note t op rest e c.shared) c' conn) :
    InUse k c conn ∨
      ∃ fd value, op = .find fd conn ∧ c.shared.connections.lookup fd = some value := by
  rcases used with ⟨t', pending⟩ | queued | ⟨t', task, returns⟩ | lost
  · rcases taken.mem pending with ⟨rfl, pushed⟩ | ⟨rfl, old⟩ | ⟨_, old⟩
    · obtain ⟨pre, between, split⟩ := List.append_of_mem pushed
      exact Or.inr ((taken.rule.hands_split split).2 rfl)
    · exact Or.inl (Or.inl ⟨t', taken.program ▸ List.mem_cons_of_mem _ old⟩)
    · exact Or.inl (Or.inl ⟨t', old⟩)
  · left
    rcases taken.rule.queued_hands queued with old | rfl
    · exact Or.inr (Or.inl old)
    · exact Or.inl ⟨t, taken.first⟩
  · left
    rw [ReadersCounted.note_task] at task
    split at task
    · -- The thread takes the task from the queue.
      exact Or.inr (Or.inl (List.mem_of_mem_head? task))
    · rename_i other
      right; right; left
      rcases taken.mem returns with ⟨rfl, pushed⟩ | ⟨rfl, old⟩ | ⟨_, old⟩
      · exact absurd ⟨rfl, (taken.rule.returns pushed).1⟩ other
      · exact ⟨t', task, taken.program ▸ List.mem_cons_of_mem _ old⟩
      · exact ⟨t', task, old⟩
  · left
    have kept : .lockCallAndUnlock .dataReady conn ∈ k.lost →
        InUse k c conn := fun old => Or.inr (Or.inr (Or.inr old))
    by_cases inTask : op.inTask = true
    · cases op with
      | running callback conn' =>
          simp only [TaskHistory.note] at lost
          split at lost
          · -- An exception of the callback skips the `Unlock()`.
            rename_i threw
            rcases List.mem_append.mp lost with now | old
            · have task := Option.mem_toList.mp now
              obtain ⟨op', later, is⟩ := List.any_eq_true.mp threw.2
              have member : op' ∈ c.prog t := taken.program ▸ List.mem_cons_of_mem _ later
              cases op' with
              | unlock name destructor =>
                  cases name with
                  | connections | ssl => cases is
                  | connection part =>
                      obtain ⟨rfl, _, same⟩ := inv.counted.executing t part destructor member
                      rw [task] at same
                      cases same
                      exact Or.inr (Or.inr (Or.inl ⟨t, task, member⟩))
              | _ => cases is
            · exact kept old
          · exact kept lost
      | _ => exact kept lost
    · rw [ReadersCounted.note_lost (Bool.eq_false_of_not_eq_true inTask)] at lost
      exact kept lost

/-- Who deletes a connection has waited for all who use it. -/
theorem not_inUse_of_delete (inv : Lent k c) (sectional : Sectional c t e)
    (program : c.prog t = .delete conn :: rest) : ¬ InUse k c conn := by
  have unread := (inv.counted.writes_of_delete program).2
  have counted := inv.counted.counted conn
  have awaits : total (Op.awaits conn) c.prog ≤ total (Op.owes conn) c.prog :=
    Finset.sum_le_sum fun t' _ => inv.counted.awaits_le conn t'
  rw [unread, List.length_nil] at counted
  rintro (⟨t', pending⟩ | queued | ⟨t', _, returns⟩ | lost)
  · by_cases same : t' = t
    · subst same
      rw [program] at pending
      have later := (List.mem_cons.mp pending).resolve_left nofun
      have hands := inv.counted.not_hands_of_later program nofun later
      cases hands
    · have offers := sectional.2 t' same _ pending
      cases offers
  · have positive : 0 < c.shared.queuedFor conn :=
      List.countP_pos_iff.mpr ⟨_, queued, decide_eq_true rfl⟩
    omega
  · have more := inv.counted.total_awaits_lt returns
    omega
  · have positive : 0 < k.lost.countP fun task => task.reserves = some conn :=
      List.countP_pos_iff.mpr ⟨_, lost, decide_eq_true rfl⟩
    omega

theorem step_unused (inv : Lent k c) (taken : Taken c c' t e op rest flow)
    (sectional : Sectional c t e) (conn : Handle) (destroyed : c'.shared.Destroyed conn) :
    ¬ InUse (k.note t op rest e c.shared) c' conn := by
  intro used
  rcases taken.rule.destroyed destroyed with before | deletes
  · rcases inv.inUse_old taken used with old | ⟨fd, value, rfl, entry⟩
    · exact inv.unused conn before old
    · obtain rfl := inv.finding t _ taken.first fd conn rfl value entry
      exact (inv.pool.live fd conn entry).1 before
  · cases op <;> cases deletes
    rcases inv.inUse_old taken used with old | ⟨_, _, impossible, _⟩
    · exact inv.not_inUse_of_delete sectional taken.program old
    · cases impossible

theorem step (inv : Lent k c) (constructs : ConstructorsSucceed c t e)
    (defers : DefersStored c t e) (sectional : Sectional c t e) (stepped : (server n).step t e c = some c') :
    Lent (noteTasks c t e k) c' := by
  obtain ⟨op, rest, flow, program, executed, progs⟩ := (server n).step_eq_some stepped
  have taken : Taken c c' t e op rest flow := ⟨program, rule_of_exec executed, progs⟩
  have throws := throws_iff executed
  have deletes : ∀ conn, op = .delete conn →
      (c.shared.locks (.connection conn)).writer = some t := by
    rintro conn rfl
    exact (inv.counted.writes_of_delete program).1
  have numbered := inv.pool.undecorated.numbered
  rw [noteTasks, program]
  exact {
    counted := inv.counted.step taken throws
    pool := inv.pool.step taken (.of_sectional constructs sectional) defers deletes stepped
    finding := taken.finding numbered.listens numbered.ordered inv.finding
    unused := inv.step_unused taken sectional }

theorem keptAlive (inv : Lent k c) : KeptAlive k c where
  found t fd conn rest value program entry := by
    have first : .find fd conn ∈ c.prog t := program ▸ List.mem_cons_self
    have same := inv.finding t _ first fd conn rfl value entry
    subst same
    exact ⟨rfl, (inv.pool.live fd conn entry).1⟩
  alive conn used destroyed := inv.unused conn destroyed used

end Lent

/-! ### Every run -/

/-- In every run in which no constructor fails and no `DeferredShutdown()` is called on a
connection before it is stored, a dispatched `DataReady` keeps its connection alive. -/
theorem keptAlive_of_constructorsSucceed {serverfd : Nat} {ssl : Bool} {maxIdle : Int32}
    {schedule : Schedule n}
    (succeed : (server n).Along ConstructorsSucceed schedule (init n serverfd ssl maxIdle))
    (stored : (server n).Along DefersStored schedule (init n serverfd ssl maxIdle))
    (sectional : (server n).Along Sectional schedule (init n serverfd ssl maxIdle)) :
    (server n).AlwaysWith noteTasks KeptAlive schedule {} (init n serverfd ssl maxIdle) := by
  have meets := (succeed.and stored).and sectional
  apply Interleaving.Machine.alwaysWith_of_invariant Lent _ _ _ meets
  · intro k c t e c' inv guard stepped
    exact inv.step guard.1.1 guard.1.2 guard.2 stepped
  · intro k c inv
    exact inv.keptAlive
  · exact Lent.init serverfd ssl maxIdle

/-- The handler of a `DataReady` event has its connection shut down, which another
thread begins; the connection is deleted after the `Unlock()` of the task. -/
def offeredRun : Schedule 2 :=
  acceptOne 3 5 ++ steps .first 6 ++ steps .listen 1 ++
    choose .listen { ready := some [⟨5, EPOLLIN⟩] } ++ steps .listen 7 ++
    steps .first 3 ++
    choose .first { handler := .acts (.deferredShutdown ⟨0, 0⟩) } ++
    steps .second 3 ++ steps .first 3 ++ steps .second 7

theorem keptAlive_of_offered :
    (server 2).AlwaysWith noteTasks KeptAlive offeredRun {} (init 2 3 false (-1)) ∧
      ∃ c, (server 2).run offeredRun (init 2 3 false (-1)) = some c ∧
        c.shared.Destroyed ⟨0, 0⟩ :=
  ⟨keptAlive_of_constructorsSucceed (by decide +kernel) (by decide +kernel) (by decide +kernel),
    _, rfl, by decide⟩

/-- A connection is hung up and deleted.  The next constructor fails, the variable still
holds the pointer of before, and data comes for the new client. -/
def staleReadRun : Schedule 1 :=
  acceptOne 3 5 ++ steps .only 6 ++ steps .listen 1 ++
    choose .listen { ready := some [⟨5, EPOLLHUP⟩] } ++ steps .listen 15 ++ steps .only 3 ++
    steps .listen 1 ++ choose .listen { ready := some [⟨3, EPOLLIN⟩] } ++ steps .listen 1 ++
    choose .listen { accepted := some 7 } ++ choose .listen { ssl := { setFd := 0 } } ++
    steps .listen 1 ++ choose .listen { garbage := some ⟨0, 0⟩ } ++ steps .listen 2 ++
    choose .listen { garbage := some ⟨0, 0⟩ } ++ steps .listen 4 ++ steps .only 6 ++
    steps .listen 1 ++ choose .listen { ready := some [⟨7, EPOLLIN⟩] } ++ steps .listen 3

/-- With the constructor failing, `find()` passes for a deleted connection. -/
theorem keptAlive_fails :
    (server 1).Along Sectional staleReadRun (init 1 3 true (-1)) ∧
      ∃ c, (server 1).run staleReadRun (init 1 3 true (-1)) = some c ∧
        c.prog .listen = [.find 7 ⟨0, 0⟩, .forLoop 1 1] ∧
        c.shared.connections.lookup 7 = some (some ⟨0, 0⟩) ∧
        c.shared.Destroyed ⟨0, 0⟩ ∧ ∀ k, ¬ KeptAlive k c := by
  refine ⟨by decide +kernel, _, rfl, by rfl, by rfl, by decide, fun k holds => ?_⟩
  have found := holds.found .listen 7 ⟨0, 0⟩ [.forLoop 1 1] (some ⟨0, 0⟩) rfl rfl
  exact absurd (by decide) found.2

end ServerConfig

end LibSiot
