/-
Module: LibSiot.Library.OrderedMap
Purpose: A map kept in key order, as a list of entries that carries its own
  sortedness: lookup, insertion, erasure, and the walk from one key to the next.
Trusted boundary: none
Main exports: OrderedMap, OrderedMap.lookup_insert, OrderedMap.lookup_erase,
  OrderedMap.lookup_of_next, OrderedMap.above_of_above_cons, OrderedMap.mem_keysWhere
-/
import Mathlib

universe u v

/-- Entries in strictly increasing key order. -/
structure OrderedMap (κ : Type u) (ν : Type v) [LinearOrder κ] where
  entries : List (κ × ν)
  sorted : entries.Pairwise fun a b => a.1 < b.1

namespace OrderedMap

variable {κ : Type u} {ν : Type v} [LinearOrder κ]

/-- The map without entries. -/
def empty : OrderedMap κ ν := ⟨[], List.Pairwise.nil⟩

/-- The value at a key. -/
def lookup (m : OrderedMap κ ν) (key : κ) : Option ν :=
  (m.entries.find? fun entry => entry.1 = key).map (·.2)

/-- The entries with `key` set to `value`. -/
def insertEntry (key : κ) (value : ν) : List (κ × ν) → List (κ × ν)
  | [] => [(key, value)]
  | entry :: entries =>
      if key < entry.1 then (key, value) :: entry :: entries
      else if entry.1 < key then entry :: insertEntry key value entries
      else (key, value) :: entries

/-- Insertion brings in no key but its own. -/
theorem mem_insertEntry {key : κ} {value : ν} {entries : List (κ × ν)} {entry : κ × ν}
    (member : entry ∈ insertEntry key value entries) :
    entry = (key, value) ∨ entry ∈ entries := by
  induction entries with
  | nil => exact Or.inl (List.mem_singleton.mp member)
  | cons first entries ih =>
      rw [insertEntry] at member
      split at member
      · exact List.mem_cons.mp member
      · split at member
        · rcases List.mem_cons.mp member with rfl | member
          · exact Or.inr List.mem_cons_self
          · exact (ih member).imp id (List.mem_cons_of_mem _)
        · rcases List.mem_cons.mp member with same | member
          · exact Or.inl same
          · exact Or.inr (List.mem_cons_of_mem _ member)

theorem sorted_insertEntry {key : κ} {value : ν} {entries : List (κ × ν)}
    (sorted : entries.Pairwise fun a b => a.1 < b.1) :
    (insertEntry key value entries).Pairwise fun a b => a.1 < b.1 := by
  induction entries with
  | nil => exact List.pairwise_singleton _ _
  | cons first entries ih =>
      obtain ⟨above, rest⟩ := List.pairwise_cons.mp sorted
      rw [insertEntry]
      split
      · rename_i below
        refine List.pairwise_cons.mpr ⟨?_, sorted⟩
        intro entry member
        rcases List.mem_cons.mp member with rfl | member
        · exact below
        · exact lt_trans below (above entry member)
      · rename_i notBelow
        split
        · rename_i beyond
          refine List.pairwise_cons.mpr ⟨?_, ih rest⟩
          intro entry member
          rcases mem_insertEntry member with rfl | member
          · exact beyond
          · exact above entry member
        · rename_i notBeyond
          have same : key = first.1 :=
            le_antisymm (not_lt.mp notBeyond) (not_lt.mp notBelow)
          exact List.pairwise_cons.mpr ⟨same ▸ above, rest⟩

/-- Set `key` to `value`, as `m[key] = value` does. -/
def insert (m : OrderedMap κ ν) (key : κ) (value : ν) : OrderedMap κ ν :=
  ⟨insertEntry key value m.entries, sorted_insertEntry m.sorted⟩

/-- Remove `key`, if it is there. -/
def erase (m : OrderedMap κ ν) (key : κ) : OrderedMap κ ν :=
  ⟨m.entries.filter fun entry => ¬ entry.1 = key, m.sorted.filter _⟩

/-- The first entry, or the first one with a key greater than `after`. -/
def next (m : OrderedMap κ ν) (after : Option κ) : Option (κ × ν) :=
  m.entries.find? fun entry => ∀ key ∈ after, key < entry.1

/-- The entries with a key greater than `after`: those still to come on the walk. -/
def above (m : OrderedMap κ ν) (after : Option κ) : List (κ × ν) :=
  m.entries.filter fun entry => ∀ key ∈ after, key < entry.1

/-- The keys, in order, whose value satisfies `p`. -/
def keysWhere (m : OrderedMap κ ν) (p : ν → Bool) : List κ :=
  (m.entries.filter fun entry => p entry.2).map (·.1)

/-! ### Lookup -/

/-- Two entries with one key are the same entry. -/
theorem eq_of_key_eq {m : OrderedMap κ ν} {a b : κ × ν} (first : a ∈ m.entries)
    (second : b ∈ m.entries) (same : a.1 = b.1) : a = b := by
  have distinct : (m.entries.map (·.1)).Nodup :=
    List.pairwise_map.mpr (m.sorted.imp fun less => ne_of_lt less)
  exact List.inj_on_of_nodup_map distinct first second same

theorem lookup_eq_some {m : OrderedMap κ ν} {key : κ} {value : ν} :
    m.lookup key = some value ↔ (key, value) ∈ m.entries := by
  constructor
  · intro found
    obtain ⟨entry, first, rfl⟩ := Option.map_eq_some_iff.mp found
    have same : entry.1 = key := by simpa using List.find?_some first
    exact same ▸ List.mem_of_find?_eq_some first
  · intro member
    cases first : m.entries.find? fun entry => entry.1 = key with
    | none =>
        have absent := List.find?_eq_none.mp first _ member
        simp at absent
    | some entry =>
        have same : entry.1 = key := by simpa using List.find?_some first
        have equal := eq_of_key_eq (List.mem_of_find?_eq_some first) member same
        rw [lookup, first, equal]
        rfl

@[simp] theorem lookup_empty (key : κ) : (empty : OrderedMap κ ν).lookup key = none := rfl

/-- What insertion leaves: the new entry, and every entry of another key. -/
theorem mem_insertEntry_iff {key : κ} {value : ν} {entries : List (κ × ν)}
    (sorted : entries.Pairwise fun a b => a.1 < b.1) (entry : κ × ν) :
    entry ∈ insertEntry key value entries ↔
      entry = (key, value) ∨ (entry ∈ entries ∧ entry.1 ≠ key) := by
  induction entries with
  | nil => simp [insertEntry]
  | cons first entries ih =>
      obtain ⟨above, rest⟩ := List.pairwise_cons.mp sorted
      rw [insertEntry]
      split
      · rename_i below
        have others : ∀ entry ∈ first :: entries, entry.1 ≠ key := by
          intro entry member
          rcases List.mem_cons.mp member with rfl | member
          · exact ne_of_gt below
          · exact ne_of_gt (lt_trans below (above entry member))
        rw [List.mem_cons]
        exact or_congr_right ⟨fun member => ⟨member, others entry member⟩, And.left⟩
      · rename_i notBelow
        split
        · rename_i beyond
          rw [List.mem_cons, ih rest, List.mem_cons]
          constructor
          · rintro (rfl | rfl | ⟨member, other⟩)
            · exact Or.inr ⟨Or.inl rfl, ne_of_lt beyond⟩
            · exact Or.inl rfl
            · exact Or.inr ⟨Or.inr member, other⟩
          · rintro (rfl | ⟨rfl | member, other⟩)
            · exact Or.inr (Or.inl rfl)
            · exact Or.inl rfl
            · exact Or.inr (Or.inr ⟨member, other⟩)
        · rename_i notBeyond
          have same : first.1 = key := le_antisymm (not_lt.mp notBelow) (not_lt.mp notBeyond)
          have others : ∀ entry ∈ entries, entry.1 ≠ key := fun entry member =>
            ne_of_gt (same ▸ above entry member)
          rw [List.mem_cons, List.mem_cons]
          refine or_congr_right ⟨fun member => ⟨Or.inr member, others entry member⟩, ?_⟩
          rintro ⟨rfl | member, other⟩
          · exact absurd same other
          · exact member

theorem lookup_insert (m : OrderedMap κ ν) (key other : κ) (value : ν) :
    (m.insert key value).lookup other = if other = key then some value else m.lookup other := by
  apply Option.ext
  intro found
  rw [lookup_eq_some, insert, mem_insertEntry_iff m.sorted]
  split
  · rename_i same
    subst same
    simp [eq_comm]
  · rename_i different
    simp [lookup_eq_some, different]

theorem lookup_erase (m : OrderedMap κ ν) (key other : κ) :
    (m.erase key).lookup other = if other = key then none else m.lookup other := by
  apply Option.ext
  intro found
  rw [lookup_eq_some, erase, List.mem_filter]
  split
  · rename_i same
    simp [same]
  · rename_i different
    simp [lookup_eq_some, different]

/-! ### Walking -/

/-- The walk only meets entries of the map, and moves up. -/
theorem lookup_of_next {m : OrderedMap κ ν} {after : Option κ} {key : κ} {value : ν}
    (met : m.next after = some (key, value)) :
    m.lookup key = some value ∧ ∀ last ∈ after, last < key := by
  refine ⟨lookup_eq_some.mpr (List.mem_of_find?_eq_some met), fun last member => ?_⟩
  have above := List.find?_some met
  simp only [decide_eq_true_eq] at above
  exact above last member

theorem mem_above {m : OrderedMap κ ν} {after : Option κ} {key : κ} {value : ν} :
    (key, value) ∈ m.above after ↔ m.lookup key = some value ∧ ∀ last ∈ after, last < key := by
  rw [above, List.mem_filter, lookup_eq_some]
  simp

/-- The walk begins with all entries. -/
theorem above_none (m : OrderedMap κ ν) : m.above none = m.entries := by
  simp [above]

/-- The walk is at its end when nothing is to come. -/
theorem next_of_above_nil {m : OrderedMap κ ν} {after : Option κ} (done : m.above after = []) :
    m.next after = none := by
  rw [next, ← List.head?_filter]
  exact congrArg List.head? done

/-- The walk meets the first of the entries to come. -/
theorem next_of_above_cons {m : OrderedMap κ ν} {after : Option κ} {entry : κ × ν}
    {left : List (κ × ν)} (toCome : m.above after = entry :: left) :
    m.next after = some entry := by
  rw [next, ← List.head?_filter]
  exact congrArg List.head? toCome

/-- After that one, the others are to come. -/
theorem above_of_above_cons {m : OrderedMap κ ν} {after : Option κ} {entry : κ × ν}
    {left : List (κ × ν)} (toCome : m.above after = entry :: left) :
    m.above (some entry.1) = left := by
  have sorted : (m.above after).Pairwise fun a b => a.1 < b.1 := m.sorted.filter _
  rw [toCome, List.pairwise_cons] at sorted
  have first : ∀ key ∈ after, key < entry.1 := by
    have member : entry ∈ m.above after := toCome ▸ List.mem_cons_self
    exact (mem_above.mp member).2
  have beyond : m.above (some entry.1) =
      (m.above after).filter fun other => entry.1 < other.1 := by
    rw [above, above, List.filter_filter]
    apply List.filter_congr
    intro other _
    simp only [Option.mem_some_iff, forall_eq', ← Bool.decide_and]
    rw [decide_eq_decide]
    exact ⟨fun above => ⟨above, fun key met => lt_trans (first key met) above⟩, And.left⟩
  rw [beyond, toCome, List.filter_cons_of_neg (by simp)]
  apply List.filter_eq_self.mpr
  intro other member
  exact decide_eq_true (sorted.1 other member)

/-- What was already met makes no difference to what is to come. -/
theorem above_erase (m : OrderedMap κ ν) (key : κ) :
    (m.erase key).above (some key) = m.above (some key) := by
  rw [above, above, erase, List.filter_filter]
  apply List.filter_congr
  intro entry _
  simp only [Option.mem_some_iff, forall_eq', Bool.and_eq_left_iff_imp, decide_eq_true_eq]
  intro beyond
  exact ne_of_gt beyond

theorem mem_keysWhere {m : OrderedMap κ ν} {p : ν → Bool} {key : κ} :
    key ∈ m.keysWhere p ↔ ∃ value, m.lookup key = some value ∧ p value = true := by
  simp only [keysWhere, List.mem_map, List.mem_filter, lookup_eq_some]
  constructor
  · rintro ⟨⟨key, value⟩, ⟨member, holds⟩, rfl⟩
    exact ⟨value, member, holds⟩
  · rintro ⟨value, member, holds⟩
    exact ⟨(key, value), ⟨member, holds⟩, rfl⟩

theorem keysWhere_eq_nil {m : OrderedMap κ ν} {p : ν → Bool}
    (none : ∀ key value, m.lookup key = some value → p value = false) : m.keysWhere p = [] := by
  apply List.eq_nil_iff_forall_not_mem.mpr
  intro key member
  obtain ⟨value, there, holds⟩ := mem_keysWhere.mp member
  rw [none key value there] at holds
  cases holds

/-- Each key comes once. -/
theorem keysWhere_nodup (m : OrderedMap κ ν) (p : ν → Bool) : (m.keysWhere p).Nodup :=
  List.pairwise_map.mpr ((m.sorted.sublist List.filter_sublist).imp fun below => ne_of_lt below)

/-- At most one key is there if all are the same. -/
theorem length_keysWhere_le_one {m : OrderedMap κ ν} {p : ν → Bool} (key : κ)
    (only : ∀ other ∈ m.keysWhere p, other = key) : (m.keysWhere p).length ≤ 1 := by
  have nodup := m.keysWhere_nodup p
  match keys : m.keysWhere p with
  | [] => exact Nat.zero_le 1
  | [_] => exact Nat.le_refl 1
  | first :: second :: others =>
      rw [keys] at only nodup
      refine absurd ?_ (List.nodup_cons.mp nodup).1
      rw [only first List.mem_cons_self,
        ← only second (List.mem_cons_of_mem _ List.mem_cons_self)]
      exact List.mem_cons_self

theorem keysWhere_eq_singleton {m : OrderedMap κ ν} {p : ν → Bool} {key : κ} {value : ν}
    (there : m.lookup key = some value) (holds : p value = true)
    (only : ∀ other value, m.lookup other = some value → p value = true → other = key) :
    m.keysWhere p = [key] := by
  have member : key ∈ m.keysWhere p := mem_keysWhere.mpr ⟨value, there, holds⟩
  have short : (m.keysWhere p).length ≤ 1 := by
    apply length_keysWhere_le_one key
    intro other met
    obtain ⟨value, there, holds⟩ := mem_keysWhere.mp met
    exact only other value there holds
  match keys : m.keysWhere p with
  | [] => rw [keys] at member; cases member
  | [first] => rw [keys] at member; rw [List.mem_singleton.mp member]
  | first :: second :: others => rw [keys] at short; simp at short

end OrderedMap
