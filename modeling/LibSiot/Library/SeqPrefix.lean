/-
Module: LibSiot.Library.SeqPrefix
Purpose: Taking a possibly infinite sequence piece by piece: what consecutive
  prefixes add up to, and how much of the sequence was there to be taken.
Trusted boundary: none
Main exports: SeqPrefix.take_add, SeqPrefix.take_ofList, SeqPrefix.drop_ofList,
  SeqPrefix.le_length_of_length_take,
  SeqPrefix.length_le_of_drop_eq_nil, SeqPrefix.eq_min_of_exhausted
-/
import Mathlib

namespace SeqPrefix

universe u

open Stream'

variable {α : Type u}

/-- Two consecutive prefixes are one longer prefix. -/
theorem take_add (s : Seq α) (m n : ℕ) :
    s.take (m + n) = s.take m ++ (s.drop m).take n := by
  induction m generalizing s with
  | zero => simp
  | succ m ih =>
      cases s with
      | nil => simp
      | cons x s =>
          rw [Nat.succ_add, Seq.take_succ_cons, Seq.take_succ_cons, Seq.drop_succ_cons, ih,
            List.cons_append]

theorem take_ofList (l : List α) (n : ℕ) : (Seq.ofList l).take n = l.take n := by
  apply List.ext_getElem?
  intro m
  simp only [Seq.getElem?_take, List.getElem?_take, Seq.ofList_get?]

theorem drop_ofList (l : List α) (n : ℕ) :
    (Seq.ofList l).drop n = Seq.ofList (l.drop n) := by
  apply Seq.ext
  intro m
  simp only [Seq.drop_get?, Seq.ofList_get?, List.getElem?_drop]

/-- A full prefix shows that the sequence is at least that long. -/
theorem le_length_of_length_take {s : Seq α} {n : ℕ} (full : (s.take n).length = n) :
    (n : ℕ∞) ≤ s.length' := by
  cases n with
  | zero => simp
  | succ n =>
      have inside : n < (s.take (n + 1)).length := by omega
      have byte : s.get? n = (s.take (n + 1))[n]? := by simp
      rw [List.getElem?_eq_getElem inside] at byte
      have longer : (n : ℕ∞) < s.length' :=
        Seq.lt_length'_iff.mpr ⟨_, Option.mem_def.mpr byte⟩
      exact_mod_cast Order.add_one_le_of_lt longer

/-- Nothing left behind a prefix shows that the sequence is at most that long. -/
theorem length_le_of_drop_eq_nil {s : Seq α} {n : ℕ} (empty : s.drop n = Seq.nil) :
    s.length' ≤ n := by
  have length := Seq.drop_length' (n := n) (s := s)
  rw [empty, Seq.length'_nil] at length
  exact tsub_eq_zero_iff_le.mp length.symm

/-- A full prefix that stops either at a bound or at the end of the sequence is
as long as the shorter of the two. -/
theorem eq_min_of_exhausted {s : Seq α} {n bound : ℕ} (full : (s.take n).length = n)
    (bounded : n ≤ bound) (stopped : n = bound ∨ s.drop n = Seq.nil) :
    (n : ℕ∞) = min (bound : ℕ∞) s.length' := by
  have there := le_length_of_length_take full
  rcases stopped with rfl | empty
  · exact (min_eq_left there).symm
  · have all : s.length' = n := le_antisymm (length_le_of_drop_eq_nil empty) there
    rw [all]
    exact (min_eq_right (by exact_mod_cast bounded)).symm

end SeqPrefix
