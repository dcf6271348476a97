/-
Module: LibSiot.Proofs.Server.Timeouts
Purpose: For which limits the two waiting times are what `SetMaxIdle` promises.  The
  boundary at 0 and the two thresholds of the products are told apart by one lemma
  for each waiting time.
Trusted boundary: none
Main exports: ServerState.TimeoutsFit, ServerState.timeoutsFit_iff
-/
import LibSiot.Server.Timeouts

namespace LibSiot

namespace ServerState

variable {n : Nat} {s s' : ServerState n} {limit : Int32}

/-- Both waiting times are right for a limit of idle seconds: `epoll_wait` waits without
limit if there is none, and otherwise for so many seconds, or for a positive time that
stands for more than fits; the reaper waits for half of them, or half a second.  No
product overflows. -/
structure TimeoutsFit (limit : Int32) (s : ServerState n) : Prop where
  unlimited : limit ≤ 0 → s.epollTimeout = some (-1)
  limited : 0 < limit → ∃ timeout, s.epollTimeout = some timeout ∧
    (timeout.toInt = 1000 * limit.toInt ∨ 0 < timeout ∧ 2 ^ 31 ≤ 1000 * limit.toInt)
  interval : ∃ interval, s.reapInterval = some interval ∧ 0 < interval ∧
    interval.toInt = if 2 < limit then 500 * limit.toInt else 500

theorem epollTimeout_of_neg (disabled : s.maxIdle < 0) : s.epollTimeout = some (-1) :=
  if_pos disabled

/-- A limit that is not negative is taken for a time. -/
theorem epollTimeout_eq_some_iff (enabled : 0 ≤ s.maxIdle) {timeout : Int32} :
    s.epollTimeout = some timeout ↔ timeout.toInt = 1000 * s.maxIdle.toInt := by
  rw [epollTimeout, if_neg (Int32.not_lt.mpr enabled), intMul_eq_some_iff, Int.mul_comm]
  rfl

theorem reapInterval_eq_some_iff {interval : Int32} :
    s.reapInterval = some interval ↔
      interval.toInt = if 2 < s.maxIdle then 500 * s.maxIdle.toInt else 500 := by
  by_cases long : 2 < s.maxIdle
  · rw [reapInterval, if_pos long, if_pos long, intMul_eq_some_iff, Int.mul_comm]
    rfl
  · rw [reapInterval, if_neg long, if_neg long, Option.some.injEq, ← Int32.toInt_inj, eq_comm]
    rfl

/-- There is an `int` with this value. -/
theorem exists_toInt {value : Int} (low : -2 ^ 31 ≤ value) (high : value < 2 ^ 31) :
    ∃ i : Int32, i.toInt = value :=
  ⟨Int32.ofInt value, Int32.toInt_ofInt_of_le low high⟩

/-- Without a limit `epoll_wait` waits without one, unless the setting is 0. -/
theorem unlimited_iff :
    (s.maxIdle ≤ 0 → s.epollTimeout = some (-1)) ↔ s.maxIdle ≠ 0 := by
  constructor
  · intro unlimited zero
    have timeout := unlimited (zero ▸ Int32.le_refl 0)
    have product := (epollTimeout_eq_some_iff (zero ▸ Int32.le_refl 0)).mp timeout
    rw [zero] at product
    exact absurd product (by decide)
  · intro nonzero disabled
    exact epollTimeout_of_neg (Int32.lt_of_le_of_ne disabled nonzero)

/-- The milliseconds of a positive limit are computed exactly if they fit. -/
theorem limited_iff (enabled : 0 < s.maxIdle) :
    (∃ timeout, s.epollTimeout = some timeout ∧
      (timeout.toInt = 1000 * s.maxIdle.toInt ∨
        0 < timeout ∧ 2 ^ 31 ≤ 1000 * s.maxIdle.toInt)) ↔ s.maxIdle ≤ 2147483 := by
  have value : 0 < s.maxIdle.toInt := Int32.lt_iff_toInt_lt.mp enabled
  have small : s.maxIdle ≤ 2147483 ↔ s.maxIdle.toInt ≤ 2147483 := Int32.le_iff_toInt_le
  rw [small]
  constructor
  · rintro ⟨timeout, computed, _⟩
    have product := (epollTimeout_eq_some_iff (Int32.le_of_lt enabled)).mp computed
    have bound := timeout.toInt_lt
    omega
  · intro fits
    obtain ⟨timeout, product⟩ : ∃ timeout : Int32, timeout.toInt = 1000 * s.maxIdle.toInt :=
      exists_toInt (by omega) (by omega)
    have computed := (epollTimeout_eq_some_iff (Int32.le_of_lt enabled)).mpr product
    exact ⟨timeout, computed, Or.inl product⟩

/-- The interval of the reaper is computed if the milliseconds of half the limit fit. -/
theorem interval_of_le (fits : s.maxIdle ≤ 4294967) :
    ∃ interval, s.reapInterval = some interval ∧ 0 < interval ∧
      interval.toInt = if 2 < s.maxIdle then 500 * s.maxIdle.toInt else 500 := by
  have small : s.maxIdle.toInt ≤ 4294967 := Int32.le_iff_toInt_le.mp fits
  by_cases long : 2 < s.maxIdle
  · have value : 2 < s.maxIdle.toInt := Int32.lt_iff_toInt_lt.mp long
    obtain ⟨interval, product⟩ :
        ∃ interval : Int32, interval.toInt = 500 * s.maxIdle.toInt :=
      exists_toInt (by omega) (by omega)
    refine ⟨interval, reapInterval_eq_some_iff.mpr ?_, ?_, ?_⟩
    · rw [if_pos long, product]
    · apply Int32.lt_iff_toInt_lt.mpr
      rw [product]
      exact Int.mul_pos (by decide) (by omega)
    · rw [if_pos long, product]
  · refine ⟨500, ?_, by decide, ?_⟩
    · rw [reapInterval_eq_some_iff, if_neg long]
      rfl
    · rw [if_neg long]
      rfl

/-- The waiting times are right for a limit that was set exactly if it is negative, or
positive and its milliseconds fit into an `int`. -/
theorem timeoutsFit_iff (set : s.perform (.setMaxIdle limit) = some ([], s')) :
    TimeoutsFit limit s' ↔ limit < 0 ∨ 0 < limit ∧ limit ≤ 2147483 := by
  obtain rfl : s'.maxIdle = limit := by
    cases set
    rfl
  constructor
  · intro fit
    have nonzero := unlimited_iff.mp fit.unlimited
    rcases Int32.lt_or_le s'.maxIdle 0 with disabled | enabled
    · exact Or.inl disabled
    · have enabled := Int32.lt_of_le_of_ne enabled (Ne.symm nonzero)
      exact Or.inr ⟨enabled, (limited_iff enabled).mp (fit.limited enabled)⟩
  · rintro (disabled | ⟨enabled, fits⟩)
    · have small : s'.maxIdle ≤ 4294967 :=
        Int32.le_trans (Int32.le_of_lt disabled) (by decide)
      exact
        { unlimited := fun _ => epollTimeout_of_neg disabled
          limited := fun enabled => absurd (Int32.lt_trans disabled enabled) Int32.lt_irrefl
          interval := interval_of_le small }
    · exact
        { unlimited := unlimited_iff.mpr ((Int32.ne_of_lt enabled).symm)
          limited := fun _ => (limited_iff enabled).mpr fits
          interval := interval_of_le (Int32.le_trans fits (by decide)) }

/-- A server whose limit was set. -/
def limited (limit : Int32) : ServerState 1 := init 1 3 false limit

theorem limited_set (limit : Int32) :
    (limited (-1)).perform (.setMaxIdle limit) = some ([], limited limit) := rfl

theorem timeoutsFit_of_hour : TimeoutsFit 3600 (limited 3600) :=
  (timeoutsFit_iff (limited_set 3600)).mpr (Or.inr ⟨by decide, by decide⟩)

/-- With the limit 0, which disables termination, `epoll_wait` returns at once; with a
limit of 25 days one product overflows, with one of 50 days both do. -/
theorem timeoutsFit_fails :
    ((limited (-1)).perform (.setMaxIdle 0) = some ([], limited 0) ∧
      (limited 0).epollTimeout = some 0 ∧ ¬ TimeoutsFit 0 (limited 0)) ∧
    ((limited (-1)).perform (.setMaxIdle 2160000) = some ([], limited 2160000) ∧
      (limited 2160000).epollTimeout = none ∧ ¬ TimeoutsFit 2160000 (limited 2160000)) ∧
    ((limited (-1)).perform (.setMaxIdle 4320000) = some ([], limited 4320000) ∧
      (limited 4320000).epollTimeout = none ∧ (limited 4320000).reapInterval = none ∧
      ¬ TimeoutsFit 4320000 (limited 4320000)) := by
  refine ⟨⟨rfl, rfl, fun fit => ?_⟩, ⟨rfl, rfl, fun fit => ?_⟩, ⟨rfl, rfl, rfl, fun fit => ?_⟩⟩
  · cases fit.unlimited (by decide)
  · obtain ⟨timeout, computed, _⟩ := fit.limited (by decide)
    cases computed
  · obtain ⟨interval, computed, _⟩ := fit.interval
    cases computed

end ServerState

end LibSiot
