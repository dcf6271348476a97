/-
Module: LibSiot.Library.Segments
Purpose: Terminated segments of a list at a separator, and how they grow when
  the list is delivered in pieces.
Trusted boundary: none
Main exports: Segments.terminated, Segments.rest, Segments.terminated_append,
  Segments.rest_append, Segments.rest_eq_nil_iff
-/
import Mathlib

namespace Segments

universe u

variable {α : Type u} [DecidableEq α] (sep : α)

/-- The segments of `xs` that end in a separator, without their separators. -/
def terminated (xs : List α) : List (List α) :=
  (xs.splitOn sep).dropLast

/-- What follows the last separator of `xs`. -/
def rest (xs : List α) : List α :=
  (xs.splitOn sep).getLastD []

@[simp] theorem terminated_nil : terminated sep [] = [] := rfl

@[simp] theorem rest_nil : rest sep [] = [] := rfl

/-- A list without the separator has no terminated segment. -/
theorem terminated_of_notMem {xs : List α} (clean : sep ∉ xs) :
    terminated sep xs = [] := by
  rw [terminated, List.splitOn_eq_singleton clean, List.dropLast_singleton]

theorem rest_of_notMem {xs : List α} (clean : sep ∉ xs) : rest sep xs = xs := by
  rw [rest, List.splitOn_eq_singleton clean]
  rfl

/-- The first segment ends at the first separator. -/
theorem terminated_first {xs : List α} (clean : sep ∉ xs) (ys : List α) :
    terminated sep (xs ++ sep :: ys) = xs :: terminated sep ys := by
  rw [terminated, List.splitOn_append_cons_self_of_not_mem clean,
    List.dropLast_cons_of_ne_nil (List.splitOn_ne_nil sep ys), terminated]

theorem rest_first {xs : List α} (clean : sep ∉ xs) (ys : List α) :
    rest sep (xs ++ sep :: ys) = rest sep ys := by
  rw [rest, List.splitOn_append_cons_self_of_not_mem clean, rest]
  cases split : ys.splitOn sep with
  | nil => exact absurd split (List.splitOn_ne_nil sep ys)
  | cons head tail => simp [List.getLastD]

/-- Recursion along the separators: a list has none, or it is a clean segment,
a separator, and a list already dealt with. -/
theorem segmentwise {motive : List α → Prop}
    (clean : ∀ xs, sep ∉ xs → motive xs)
    (segment : ∀ xs ys, sep ∉ xs → motive ys → motive (xs ++ sep :: ys))
    (xs : List α) : motive xs := by
  by_cases member : sep ∈ xs
  · obtain ⟨before, after, rfl, before_clean⟩ := List.eq_append_cons_of_mem member
    exact segment before after before_clean (segmentwise clean segment after)
  · exact clean xs member
termination_by xs.length
decreasing_by
  subst_vars
  simp only [List.length_append, List.length_cons]
  omega

theorem notMem_rest (xs : List α) : sep ∉ rest sep xs := by
  induction xs using segmentwise sep with
  | clean xs clean => rwa [rest_of_notMem sep clean]
  | segment before after clean ih => rwa [rest_first sep clean]

/-- More input leaves the terminated segments alone and continues the
unterminated one. -/
theorem terminated_append (xs ys : List α) :
    terminated sep (xs ++ ys) =
      terminated sep xs ++ terminated sep (rest sep xs ++ ys) := by
  induction xs using segmentwise sep with
  | clean xs clean =>
      rw [terminated_of_notMem sep clean, rest_of_notMem sep clean, List.nil_append]
  | segment before after clean ih =>
      rw [List.append_assoc, List.cons_append, terminated_first sep clean, ih,
        terminated_first sep clean, rest_first sep clean, List.cons_append]

theorem rest_append (xs ys : List α) :
    rest sep (xs ++ ys) = rest sep (rest sep xs ++ ys) := by
  induction xs using segmentwise sep with
  | clean xs clean => rw [rest_of_notMem sep clean]
  | segment before after clean ih =>
      rw [List.append_assoc, List.cons_append, rest_first sep clean, ih,
        rest_first sep clean]

/-- Whatever has a separator has a first segment. -/
theorem terminated_ne_nil {xs : List α} (member : sep ∈ xs) : terminated sep xs ≠ [] := by
  obtain ⟨before, after, rfl, clean⟩ := List.eq_append_cons_of_mem member
  rw [terminated_first sep clean]
  exact List.cons_ne_nil _ _

/-- Nothing follows the last separator exactly if the list ends in one, or is
empty. -/
theorem rest_eq_nil_iff (xs : List α) :
    rest sep xs = [] ↔ xs = [] ∨ xs.getLast? = some sep := by
  induction xs using segmentwise sep with
  | clean xs clean =>
      rw [rest_of_notMem sep clean]
      constructor
      · exact Or.inl
      · rintro (empty | last)
        · exact empty
        · exact absurd (List.mem_of_getLast? last) clean
  | segment before after clean ih =>
      rw [rest_first sep clean, ih]
      cases after with
      | nil => simp
      | cons first after => simp [List.getLast?_append, List.getLast?_cons]

end Segments
