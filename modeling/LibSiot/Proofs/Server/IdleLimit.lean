/-
Module: LibSiot.Proofs.Server.IdleLimit
Purpose: Which entries a pass of the reaper should take: those that are shut down or
  idle for longer than the limit last set.  The code compares a difference of times
  that may wrap with a copy of the limit that may be old.
Trusted boundary: none
Main exports: ServerState.overdue, ServerState.reapsExactly_iff, IdleStep,
  ServerState.latestApplies_iff
-/
import LibSiot.Proofs.Server.NewConnection
import LibSiot.Proofs.Server.Pool
import LibSiot.Proofs.Server.ReaperPass

namespace LibSiot

open Interleaving.Machine (Finishes)
open Relation (ReflTransGen)

namespace ServerState

variable {n : Nat} {t : Tid n} {e : Choice} {s s' : ServerState n}

/-- The pool of a server is sound if what is in it is real. -/
theorem sound_of_real {c : ServerConfig n} (numbered : ServerConfig.Numbered c)
    (real : PoolReal c.shared) : Sound c.shared := by
  intro fd value entry
  obtain ⟨conn, rfl, _⟩ := real.real fd value entry
  exact ⟨conn, rfl, (numbered.pool fd conn entry).2⟩

/-! ### The test of one entry -/

/-- The connection is shut down, or the limit is positive and less than the time since
its last use, in the integers. -/
def overdue (limit : Int32) (tm : UInt64) (conn : Handle) (s : ServerState n) : Bool :=
  s.isShutdownOf conn ||
    (0 < limit &&
      decide (limit.toInt < max 0 ((tm.toNat : Int) - (s.lastUse conn.accept).toNat)))

/-- The test with a copy of the limit gives for one time of use what it should: both
limits are on one side of the time since then, and if the difference wraps it is within
the copy. -/
def TestAgrees (maxIdle : UInt64) (limit : Int32) (tm lastUse : UInt64) : Prop :=
  if lastUse ≤ tm then
    (lastUse.toNat + maxIdle.toNat < tm.toNat ↔ lastUse.toNat + limit.toInt < tm.toNat)
  else tm.toNat + 2 ^ 64 ≤ lastUse.toNat + maxIdle.toNat

instance (maxIdle : UInt64) (limit : Int32) (tm lastUse : UInt64) :
    Decidable (TestAgrees maxIdle limit tm lastUse) :=
  inferInstanceAs (Decidable (ite _ _ _))

theorem lt_sub_iff {tm lastUse maxIdle : UInt64} :
    maxIdle < tm - lastUse ↔
      (lastUse ≤ tm ∧ lastUse.toNat + maxIdle.toNat < tm.toNat) ∨
        (tm < lastUse ∧ lastUse.toNat + maxIdle.toNat < tm.toNat + 2 ^ 64) := by
  have bound := tm.toNat_lt
  have bound' := lastUse.toNat_lt
  rw [UInt64.lt_iff_toNat_lt, UInt64.toNat_sub, UInt64.le_iff_toNat_le, UInt64.lt_iff_toNat_lt]
  omega

theorem lt_idle_iff {tm lastUse : UInt64} {limit : Int32} (positive : 0 < limit) :
    limit.toInt < max 0 ((tm.toNat : Int) - lastUse.toNat) ↔
      lastUse.toNat + limit.toInt < tm.toNat := by
  have above : 0 < limit.toInt := Int32.lt_iff_toInt_lt.mp positive
  omega

/-- When the test of an entry gives what it should. -/
theorem due_eq_overdue_iff {maxIdle tm : UInt64} {conn : Handle} :
    s.due maxIdle tm conn = s.overdue s.maxIdle tm conn ↔
      (s.isShutdownOf conn = false → 0 < s.maxIdle →
        TestAgrees maxIdle s.maxIdle tm (s.lastUse conn.accept)) := by
  unfold due overdue
  cases s.isShutdownOf conn with
  | true => simp
  | false =>
      by_cases positive : 0 < s.maxIdle
      · have above : 0 < s.maxIdle.toInt := Int32.lt_iff_toInt_lt.mp positive
        simp only [Bool.false_or, positive, decide_true, Bool.true_and, forall_const]
        rw [decide_eq_decide, gt_iff_lt, lt_sub_iff, lt_idle_iff positive, TestAgrees]
        by_cases before : s.lastUse conn.accept ≤ tm
        · simp [before]
        · have after : tm < s.lastUse conn.accept := UInt64.not_le.mp before
          have after' := UInt64.lt_iff_toNat_lt.mp after
          simp only [before, after, false_and, true_and, false_or, if_false]
          omega
      · simp [positive]

/-- A pass takes the entries that are overdue exactly where the test of each live one
gives what it should. -/
theorem Sound.reaps_overdue_iff (sound : Sound s) (quiet : e.throws = false)
    (returns : e.handler = .returns) {maxIdle : UInt64}
    (finished : Finishes (server n) t e (reapPass maxIdle) s s') :
    Reaps (fun conn => s.overdue s.maxIdle e.now conn) s s' ↔
      ∀ fd conn, s.connections.lookup fd = some (some conn) → s.isShutdownOf conn = false →
        0 < s.maxIdle → TestAgrees maxIdle s.maxIdle e.now (s.lastUse conn.accept) := by
  apply (sound.reaps_pass quiet returns finished).1.iff_agree.trans
  exact forall₃_congr fun fd conn entry => due_eq_overdue_iff

/-! ### A limit that was set before the reaper took its copy -/

theorem toNat_copy {limit : Int32} (positive : 0 < limit) :
    (UInt64.ofInt limit.toInt).toNat = limit.toInt.toNat := by
  have above : 0 < limit.toInt := Int32.lt_iff_toInt_lt.mp positive
  have bound := limit.toInt_lt
  rw [UInt64.ofInt, UInt64.toNat_ofNat']
  omega

theorem testAgrees_copy {limit : Int32} {tm lastUse : UInt64} (positive : 0 < limit) :
    TestAgrees (UInt64.ofInt limit.toInt) limit tm lastUse ↔
      lastUse ≤ tm ∨ (tm.toNat : Int) + 2 ^ 64 ≤ lastUse.toNat + limit.toInt := by
  have above : 0 < limit.toInt := Int32.lt_iff_toInt_lt.mp positive
  rw [TestAgrees, toNat_copy positive]
  by_cases before : lastUse ≤ tm
  · simp only [before, if_true, true_or, iff_true]
    omega
  · simp only [before, if_false, false_or]
    omega

/-- No live connection of the pool was used after `tm`, except so much later that the
difference wraps to one within the limit. -/
def NoneAhead (tm : UInt64) (s : ServerState n) : Prop :=
  0 < s.maxIdle → ∀ fd conn, s.connections.lookup fd = some (some conn) →
    s.isShutdownOf conn = false → s.lastUse conn.accept ≤ tm ∨
      (tm.toNat : Int) + 2 ^ 64 ≤ (s.lastUse conn.accept).toNat + s.maxIdle.toInt

/-- A pass removes exactly the connections that are due where none was used after the
time at which the pass looked at the clock.  Where nobody holds a lock there is one. -/
theorem reapsExactly_iff (sound : Sound s) (quiet : e.throws = false)
    (returns : e.handler = .returns) :
    (∀ s', Finishes (server n) .reaper e (reapPass (UInt64.ofInt s.maxIdle.toInt)) s s' →
      (Reaps (fun conn => s.overdue s.maxIdle e.now conn) s s' ↔ NoneAhead e.now s)) ∧
    ((∀ name, s.locks name = .free) → ∃ s',
      Finishes (server n) .reaper e (reapPass (UInt64.ofInt s.maxIdle.toInt)) s s') := by
  constructor
  · intro s' finished
    rw [sound.reaps_overdue_iff quiet returns finished]
    constructor
    · intro agrees positive fd conn entry up
      exact (testAgrees_copy positive).mp (agrees fd conn entry up positive)
    · intro noneAhead fd conn entry up positive
      exact (testAgrees_copy positive).mpr (noneAhead positive fd conn entry up)
  · intro free
    exact sound.pass_finishes quiet returns free _

/-- A server with one connection, last used at 10. -/
def oneConnection (maxIdle : Int32) : ServerState 1 :=
  { init 1 3 false maxIdle with
    connections := .insert .empty 5 (some { accept := 0, level := 0 })
    epollSet := [5, 3]
    openFds := [5, 3]
    nextAccept := 1
    socket := fun _ => 5
    lastUse := fun _ => 10 }

theorem eq_of_oneConnection {maxIdle : Int32} {fd : Nat} {value : Option Handle}
    (entry : (oneConnection maxIdle).connections.lookup fd = some value) :
    fd = 5 ∧ value = some { accept := 0, level := 0 } := by
  rw [oneConnection, OrderedMap.lookup_insert] at entry
  split at entry
  · rename_i same
    cases entry
    exact ⟨same, rfl⟩
  · cases entry

theorem oneConnection_sound (maxIdle : Int32) : Sound (oneConnection maxIdle) := by
  intro fd value entry
  obtain ⟨rfl, rfl⟩ := eq_of_oneConnection entry
  exact ⟨_, rfl, rfl⟩

/-- A connection that was idle for longer than the limit is removed. -/
theorem reapsExactly_of_idle : ∃ s', Finishes (server 1) .reaper { now := 16 }
      (reapPass (UInt64.ofInt (5 : Int32).toInt)) (oneConnection 5) s' ∧
    Reaps (fun conn => (oneConnection 5).overdue 5 16 conn) (oneConnection 5) s' ∧
    s'.connections.lookup 5 = none := by
  have exactly := reapsExactly_iff (e := { now := 16 }) (oneConnection_sound 5) rfl rfl
  obtain ⟨s', finished⟩ := exactly.2 fun _ => rfl
  have reaps := (exactly.1 s' finished).mpr (by
    intro _ fd conn _ _
    exact Or.inl (by decide : (10 : UInt64) ≤ 16))
  refine ⟨s', finished, reaps, ?_⟩
  apply Option.eq_none_iff_forall_ne_some.mpr
  intro value left
  obtain ⟨there, kept⟩ := (reaps.connections 5 value).mp left
  cases there
  exact absurd (kept _ rfl) (by decide)

/-- A connection that was used after the pass looked at the clock is removed too. -/
theorem reapsExactly_fails : ∃ s', Finishes (server 1) .reaper { now := 9 }
      (reapPass (UInt64.ofInt (5 : Int32).toInt)) (oneConnection 5) s' ∧
    ¬ Reaps (fun conn => (oneConnection 5).overdue 5 9 conn) (oneConnection 5) s' := by
  obtain ⟨s', finished⟩ := (oneConnection_sound 5).pass_finishes (t := .reaper)
    (e := { now := 9 }) rfl rfl (fun _ => rfl) (UInt64.ofInt (5 : Int32).toInt)
  refine ⟨s', finished, ?_⟩
  intro reaps
  have agrees := ((oneConnection_sound 5).reaps_overdue_iff rfl rfl finished).mp reaps
  have ahead := agrees 5 { accept := 0, level := 0 } rfl rfl (by decide)
  revert ahead
  decide

end ServerState

/-! ### A limit that is set again -/

/-- The copy that the reaper took of the limit, once it has started, the limit that was
set last, and the server. -/
structure IdleSetting (n : Nat) where
  copied : Option UInt64
  latest : Int32
  server : ServerState n

/-- A new server before its reaper starts. -/
def IdleSetting.init {n : Nat} (s : ServerState n) : IdleSetting n where
  copied := none
  latest := s.maxIdle
  server := s

variable {n : Nat}

open ServerState in
/-- What happens to the limit, in any order: it is set, the reaper starts, the reaper
makes a pass, or the server does anything else in which no limit is set. -/
inductive IdleStep : IdleSetting n → IdleSetting n → Prop where
  | setMaxIdle {copied : Option UInt64} {latest limit : Int32} {s s' : ServerState n}
      (performed : s.perform (.setMaxIdle limit) = some ([], s')) :
      IdleStep ⟨copied, latest, s⟩ ⟨copied, limit, s'⟩
  | start {latest : Int32} {copy : UInt64} {s s' : ServerState n}
      (started : s.reapStart = s'.goOn [.reapWait copy]) :
      IdleStep ⟨none, latest, s⟩ ⟨some copy, latest, s'⟩
  | pass {copy : UInt64} {latest : Int32} {e : Choice} {s s' : ServerState n}
      (quiet : e.throws = false) (returns : e.handler = .returns)
      (finished : Finishes (server n) .reaper e (reapPass copy) s s') :
      IdleStep ⟨some copy, latest, s⟩ ⟨some copy, latest, s'⟩
  | serve {copied : Option UInt64} {latest : Int32} {s s' : ServerState n}
      (unset : s'.maxIdle = s.maxIdle) (sound : Sound s') :
      IdleStep ⟨copied, latest, s⟩ ⟨copied, latest, s'⟩

namespace IdleSetting

open ServerState

/-- The limit of the server is the one set last, and its pool is sound. -/
structure Follows (i : IdleSetting n) : Prop where
  latest : i.server.maxIdle = i.latest
  sound : Sound i.server

theorem Follows.step {i i' : IdleSetting n} (follows : Follows i) (step : IdleStep i i') :
    Follows i' := by
  cases step with
  | setMaxIdle performed =>
      cases performed
      exact ⟨rfl, follows.sound⟩
  | start started =>
      cases started
      exact ⟨follows.latest, follows.sound⟩
  | pass quiet returns finished =>
      obtain ⟨reaps, same⟩ := follows.sound.reaps_pass quiet returns finished
      exact ⟨same.maxIdle.trans follows.latest, follows.sound.reaps same reaps⟩
  | serve unset sound => exact ⟨unset.trans follows.latest, sound⟩

theorem follows_of_run {s : ServerState n} {i : IdleSetting n} (sound : Sound s)
    (run : ReflTransGen IdleStep (.init s) i) : Follows i := by
  induction run with
  | refl => exact ⟨rfl, sound⟩
  | tail _ step ih => exact ih.step step

/-- For each live connection the test with the copy gives what one with the limit set
last would. -/
def CopyServes (copy : UInt64) (tm : UInt64) (i : IdleSetting n) : Prop :=
  ∀ fd conn, i.server.connections.lookup fd = some (some conn) →
    i.server.isShutdownOf conn = false → 0 < i.latest →
      TestAgrees copy i.latest tm (i.server.lastUse conn.accept)

/-- Each pass of a run applies the limit that was set last exactly where the copy that the
reaper took serves.  Where nobody holds a lock there is such a pass. -/
theorem latestApplies_iff {s : ServerState n} {i : IdleSetting n} {e : Choice}
    (sound : Sound s) (run : ReflTransGen IdleStep (.init s) i)
    (quiet : e.throws = false) (returns : e.handler = .returns) :
    ∀ copy ∈ i.copied,
      (∀ s', Finishes (LibSiot.server n) .reaper e (reapPass copy) i.server s' →
        (Reaps (fun conn => i.server.overdue i.latest e.now conn) i.server s' ↔
          CopyServes copy e.now i)) ∧
      ((∀ name, i.server.locks name = .free) → ∃ s',
        Finishes (LibSiot.server n) .reaper e (reapPass copy) i.server s') := by
  have follows := follows_of_run sound run
  intro copy _
  constructor
  · intro s' finished
    rw [CopyServes, ← follows.latest]
    exact follows.sound.reaps_overdue_iff quiet returns finished
  · intro free
    exact follows.sound.pass_finishes quiet returns free copy

/-- The limit is set to `latest` after the reaper started with `limit`. -/
def resetAfterStart (limit latest : Int32) : IdleSetting 1 where
  copied := some (UInt64.ofInt limit.toInt)
  latest := latest
  server := { oneConnection limit with maxIdle := latest }

theorem resetAfterStart_run (limit latest : Int32) :
    ReflTransGen IdleStep (.init (oneConnection limit)) (resetAfterStart limit latest) := by
  have started : IdleStep (.init (oneConnection limit))
      ⟨some (UInt64.ofInt limit.toInt), limit, oneConnection limit⟩ := .start rfl
  exact (ReflTransGen.single started).tail (.setMaxIdle rfl)

/-- A connection is idle for longer than the old limit and the new one. -/
theorem latestApplies_of_both : ∃ s', Finishes (LibSiot.server 1) .reaper { now := 16 }
      (reapPass (UInt64.ofInt (5 : Int32).toInt)) (resetAfterStart 5 4).server s' ∧
    Reaps (fun conn => (resetAfterStart 5 4).server.overdue 4 16 conn)
      (resetAfterStart 5 4).server s' := by
  have applies := latestApplies_iff (e := { now := 16 }) (oneConnection_sound 5)
    (resetAfterStart_run 5 4) rfl rfl _ rfl
  obtain ⟨s', finished⟩ := applies.2 fun _ => rfl
  refine ⟨s', finished, (applies.1 s' finished).mpr ?_⟩
  intro fd conn _ _ _
  exact (by decide : TestAgrees (UInt64.ofInt (5 : Int32).toInt) 4 16 10)

/-- A limit that is set after the reaper started without one never applies: the copy is
the greatest number there is. -/
theorem latestApplies_fails :
    ReflTransGen IdleStep (.init (oneConnection (-1))) (resetAfterStart (-1) 5) ∧
    ∃ s', IdleStep (resetAfterStart (-1) 5)
        ⟨some (UInt64.ofInt (-1 : Int32).toInt), 5, s'⟩ ∧
      ¬ Reaps (fun conn => (resetAfterStart (-1) 5).server.overdue 5 16 conn)
        (resetAfterStart (-1) 5).server s' := by
  have sound := (follows_of_run (oneConnection_sound (-1)) (resetAfterStart_run (-1) 5)).sound
  obtain ⟨s', finished⟩ := sound.pass_finishes (t := .reaper) (e := { now := 16 }) rfl rfl
    (fun _ => rfl) (UInt64.ofInt (-1 : Int32).toInt)
  refine ⟨resetAfterStart_run (-1) 5, s', .pass rfl rfl finished, ?_⟩
  intro reaps
  have agrees := (sound.reaps_overdue_iff rfl rfl finished).mp reaps
  have serves := agrees 5 { accept := 0, level := 0 } rfl rfl (by decide)
  revert serves
  decide

end IdleSetting

end LibSiot
