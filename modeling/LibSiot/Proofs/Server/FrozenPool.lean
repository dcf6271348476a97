/-
Module: LibSiot.Proofs.Server.FrozenPool
Purpose: The pool stands still while a callback of `LockCallAndUnlock` runs, whatever
  the other threads do: connections are neither registered nor removed, and all that
  can appear are the null entries that lookups make.
Trusted boundary: none
Main exports: ServerConfig.RunsTask, ServerConfig.PoolKept,
  ServerConfig.poolKept_of_orderly
-/
import LibSiot.Proofs.Server.LockInvariant

namespace LibSiot

open Interleaving (Flow)
open RwLock (Mode)

namespace ServerState

variable {n : Nat} {t : Tid n} {e : Choice} {s s' : ServerState n} {op : Op} {flow : Flow Op}

/-- A fresh entry is null, unless `AddDecorators` made it. -/
theorem Rule.entry_fresh (rule : Rule t e s op flow s') (adds : op.adds = false) {fd : Nat}
    (missing : s.connections.lookup fd = none) :
    s'.connections.lookup fd = none ∨ s'.connections.lookup fd = some none := by
  cases rule with
  | decoratorsThrew | decoratedNull | decorated | indeterminateThrew
  | indeterminateDecorated => cases adds
  | lookupMissing fd' events absent =>
      by_cases same : fd = fd'
      · simp [OrderedMap.lookup_insert, same]
      · simp [OrderedMap.lookup_insert, same, missing]
  | erase fd' =>
      left
      simp only [record, OrderedMap.lookup_erase]
      split
      · rfl
      · exact missing
  | _ => exact Or.inl missing

end ServerState

namespace ServerConfig

open ServerState

variable {n : Nat}

/-- Somewhere on the way a callback returns to the `Unlock()` of `LockCallAndUnlock`. -/
def returnsToUnlock : List Op → Bool
  | .running _ _ :: .unlock (.connection _) _ :: _ => true
  | _ :: ops => returnsToUnlock ops
  | [] => false

/-- The thread is in a callback that `LockCallAndUnlock` called. -/
def RunsTask (c : ServerConfig n) (t : Tid n) : Prop := returnsToUnlock (c.prog t) = true

instance (c : ServerConfig n) (t : Tid n) : Decidable (RunsTask c t) :=
  inferInstanceAs (Decidable (_ = true))

/-- What was in the pool is in it, and what was not is not, but for null entries. -/
def PoolKept (c c' : ServerConfig n) : Prop :=
  ∀ fd, c'.shared.connections.lookup fd = c.shared.connections.lookup fd ∨
    (c.shared.connections.lookup fd = none ∧ c'.shared.connections.lookup fd = some none)

theorem PoolKept.refl (c : ServerConfig n) : PoolKept c c := fun _ => Or.inl rfl

variable {c c' c'' : ServerConfig n} {t t' : Tid n} {e : Choice} {op : Op} {rest : List Op}
  {flow : Flow Op}

theorem PoolKept.trans (first : PoolKept c c') (second : PoolKept c' c'') : PoolKept c c'' := by
  intro fd
  rcases first fd with same | ⟨missing, null⟩
  · rw [← same]
    exact second fd
  · rcases second fd with same | ⟨impossible, _⟩
    · exact Or.inr ⟨missing, same.trans null⟩
    · rw [null] at impossible
      cases impossible

namespace LockInvariant

theorem running_of_returnsToUnlock {ops : List Op} (returns : returnsToUnlock ops = true) :
    ∃ callback conn, .running callback conn ∈ ops := by
  fun_induction returnsToUnlock ops with
  | case1 callback conn => exact ⟨callback, conn, List.mem_cons_self⟩
  | case2 op ops _ ih =>
      obtain ⟨callback, conn, member⟩ := ih returns
      exact ⟨callback, conn, List.mem_cons_of_mem _ member⟩
  | case3 => cases returns

/-- Calls of `Receive` and `Send` before it change nothing about the mode in which a
callback runs. -/
theorem reading_of_disciplined {ops : List Op} {m : Mode} (disciplined : Disciplined m ops)
    (ordered : ops.Pairwise fun a b => a.precedes b = true)
    (returns : returnsToUnlock ops = true) : m = .reading := by
  induction disciplined with
  | nil => cases returns
  | @cons m m' op rest moves _ _ after ih =>
      obtain ⟨precedes, ordered⟩ := List.pairwise_cons.mp ordered
      unfold returnsToUnlock at returns
      split at returns
      · rename_i same
        obtain ⟨rfl, rfl⟩ := List.cons.inj same
        cases moves with
        | stay _ =>
            cases after with
            | cons moves' =>
                cases moves' with
                | stay allowed => exact of_decide_eq_true allowed
      · rename_i same
        obtain ⟨rfl, rfl⟩ := List.cons.inj same
        obtain ⟨callback, conn, member⟩ := running_of_returnsToUnlock returns
        have uses : op.uses = true := precedes _ member
        cases moves with
        | stay _ => exact ih ordered returns
        | _ => cases uses
      · cases returns

/-- A callback runs under `connections_lock_`, held for reading. -/
theorem reading_of_runsTask (inv : LockInvariant c) (runs : RunsTask c t) :
    held c t = .reading :=
  reading_of_disciplined (inv.disciplined t) (inv.ordered t) runs

/-- While a thread reads, nobody writes. -/
theorem not_writing (inv : LockInvariant c) (reads : held c t = .reading) :
    held c t' ≠ .writing := by
  intro writes
  have writer := RwLock.mode_eq_writing.mp writes
  have unread := inv.exclusive.alone (by simp [writer])
  rw [held, RwLock.mode, unread] at reads
  split at reads <;> cases reads

/-- While a thread reads, no step changes the pool. -/
theorem poolKept (inv : LockInvariant c) (reads : held c t = .reading)
    (taken : Taken c c' t' e op rest flow) : PoolKept c c' := by
  have unchanged : op.changes = false := by
    by_contra changes
    exact inv.not_writing reads
      (inv.writing_of_changes taken.program (Bool.eq_true_of_not_eq_false changes))
  intro fd
  cases entry : c.shared.connections.lookup fd with
  | none =>
      have adds : op.adds = false := by cases op <;> first | rfl | cases unchanged
      exact (taken.rule.entry_fresh adds entry).imp_right fun null => ⟨rfl, null⟩
  | some value =>
      rcases taken.rule.entry_kept entry with kept | rfl | ⟨conn, rfl⟩
      · exact Or.inl kept
      · cases unchanged
      · cases unchanged

end LockInvariant

/-- In every run in which constructors and draining loops do not throw and the reaper
expires no connection with a read lock outstanding: from any point at which a thread is in
a callback of `LockCallAndUnlock`, as long as it is, the pool stands still. -/
theorem poolKept_of_orderly {serverfd : Nat} {ssl : Bool} {maxIdle : Int32}
    {before during : Schedule n} {c c' : ServerConfig n} (t : Tid n)
    (orderly : (server n).Along Orderly before (init n serverfd ssl maxIdle))
    (reached : (server n).run before (init n serverfd ssl maxIdle) = some c)
    (running : (server n).Along (fun c t' e => Orderly c t' e ∧ RunsTask c t) during c)
    (run : (server n).run during c = some c') : PoolKept c c' := by
  have inv : LockInvariant c :=
    Interleaving.Machine.invariant_of_run LockInvariant
      (fun _ _ _ _ inv orderly stepped => inv.step orderly stepped)
      (LockInvariant.init serverfd ssl maxIdle) orderly reached
  have last : LockInvariant c' ∧ PoolKept c c' := by
    refine Interleaving.Machine.invariant_of_run (fun c' => LockInvariant c' ∧ PoolKept c c')
      ?_ ⟨inv, .refl c⟩ running run
    rintro c₁ t' e c₂ ⟨inv, kept⟩ ⟨orderly, runs⟩ stepped
    obtain ⟨op, rest, flow, program, rule, progs⟩ := rule_of_step stepped
    exact ⟨inv.step orderly stepped,
      kept.trans (inv.poolKept (inv.reading_of_runsTask runs) ⟨program, rule, progs⟩)⟩
  exact last.2

/-- A connection is accepted, and `ConnectionEstablished` called for it. -/
def calledRun : Schedule 1 := acceptOne 3 5 ++ steps .only 3

/-- While the callback runs, another connection comes to be registered and the reaper to its
pass; both have to wait. -/
def meanwhile : Schedule 1 :=
  steps .listen 1 ++ choose .listen { ready := some [⟨3, EPOLLIN⟩] } ++ steps .listen 1 ++
    choose .listen { accepted := some 6 } ++ steps .listen 1 ++ steps .reaper 2 ++ steps .only 1

theorem poolKept_of_established :
    ∃ c c', (server 1).run calledRun (init 1 3 false (-1)) = some c ∧
      (server 1).run meanwhile c = some c' ∧ PoolKept c c' := by
  have running : ∀ c ∈ (server 1).run calledRun (init 1 3 false (-1)),
      (server 1).Along (fun c t' e => Orderly c t' e ∧ RunsTask c .only) meanwhile c := by
    decide +kernel
  have runs : ∃ c c', (server 1).run calledRun (init 1 3 false (-1)) = some c ∧
      (server 1).run meanwhile c = some c' := ⟨_, _, rfl, rfl⟩
  obtain ⟨c, c', reached, run⟩ := runs
  exact ⟨c, c', reached, run,
    poolKept_of_orderly .only (by decide +kernel) reached (running c reached) run⟩

end ServerConfig

end LibSiot
