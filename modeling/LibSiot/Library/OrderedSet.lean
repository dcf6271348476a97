/-
Module: LibSiot.Library.OrderedSet
Purpose: A list kept as a set in the order of insertion: what is there already is
  not added again.  The induction over the insertions goes from the last one.
Trusted boundary: none
Main exports: OrderedSet.addLast, OrderedSet.FirstOccurrences,
  OrderedSet.FirstOccurrences.foldl, OrderedSet.foldl_repeated
-/
import Mathlib

namespace OrderedSet

universe u

variable {α : Type u} [DecidableEq α]

/-- Add an element at the end, unless it is there. -/
def addLast (set : List α) (x : α) : List α :=
  if x ∈ set then set else set ++ [x]

/-- The distinct elements of `xs`, in the order of their first occurrence. -/
structure FirstOccurrences (xs set : List α) : Prop where
  nodup : set.Nodup
  mem_iff : ∀ x, x ∈ set ↔ x ∈ xs
  ordered : set.Pairwise fun x y => xs.idxOf x < xs.idxOf y

theorem addLast_of_mem {set : List α} {x : α} (there : x ∈ set) : addLast set x = set :=
  if_pos there

theorem addLast_of_notMem {set : List α} {x : α} (absent : x ∉ set) :
    addLast set x = set ++ [x] :=
  if_neg absent

theorem mem_addLast {set : List α} {x y : α} : y ∈ addLast set x ↔ y ∈ set ∨ y = x := by
  by_cases there : x ∈ set
  · rw [addLast_of_mem there]
    constructor
    · exact Or.inl
    · rintro (member | rfl)
      · exact member
      · exact there
  · rw [addLast_of_notMem there, List.mem_append, List.mem_singleton]

/-- Elements that occurred do so as early in a longer list. -/
theorem FirstOccurrences.ordered_append {xs set : List α} (first : FirstOccurrences xs set)
    (ys : List α) :
    set.Pairwise fun x y => (xs ++ ys).idxOf x < (xs ++ ys).idxOf y := by
  apply first.ordered.imp_of_mem
  intro x y there there' earlier
  rw [List.idxOf_append_of_mem ((first.mem_iff x).mp there),
    List.idxOf_append_of_mem ((first.mem_iff y).mp there')]
  exact earlier

/-- One insertion. -/
theorem FirstOccurrences.addLast {xs set : List α} (first : FirstOccurrences xs set) (x : α) :
    FirstOccurrences (xs ++ [x]) (addLast set x) := by
  have members : ∀ y, y ∈ OrderedSet.addLast set x ↔ y ∈ xs ++ [x] := by
    intro y
    rw [mem_addLast, first.mem_iff, List.mem_append, List.mem_singleton]
  by_cases there : x ∈ set
  · rw [addLast_of_mem there] at members ⊢
    exact ⟨first.nodup, members, first.ordered_append [x]⟩
  · rw [addLast_of_notMem there] at members ⊢
    have new : x ∉ xs := fun occurred => there ((first.mem_iff x).mpr occurred)
    refine ⟨?_, members, ?_⟩
    · exact first.nodup.append (List.nodup_singleton x) (by simpa using there)
    · rw [List.pairwise_append]
      refine ⟨first.ordered_append [x], List.pairwise_singleton _ _, ?_⟩
      intro y member z last
      obtain rfl := List.mem_singleton.mp last
      have occurred := (first.mem_iff y).mp member
      rw [List.idxOf_append_of_mem occurred, List.idxOf_append_of_notMem new]
      exact Nat.lt_add_right _ (List.idxOf_lt_length_of_mem occurred)

/-- Any number of insertions into the empty set. -/
theorem FirstOccurrences.foldl (xs : List α) :
    FirstOccurrences xs (xs.foldl OrderedSet.addLast []) := by
  induction xs using List.reverseRecOn with
  | nil => exact ⟨List.nodup_nil, fun _ => Iff.rfl, List.Pairwise.nil⟩
  | append_singleton xs x ih =>
      rw [List.foldl_append]
      exact ih.addLast x

/-- To insert an element again changes nothing, whatever came in between and comes
later. -/
theorem foldl_repeated {before : List α} {x : α} (again : x ∈ before) (after : List α) :
    (before ++ x :: after).foldl addLast [] = (before ++ after).foldl addLast [] := by
  have there : x ∈ before.foldl addLast [] := ((FirstOccurrences.foldl before).mem_iff x).mpr again
  rw [List.foldl_append, List.foldl_cons, addLast_of_mem there, ← List.foldl_append]

end OrderedSet
