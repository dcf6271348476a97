/-
Module: LibSiot.Library.MapIterator
Purpose: A loop over an ordered map by an iterator that stays valid only while its
  element is in the map, with a body that may change the map.
Trusted boundary: none
Main exports: OrderedMap.RangeFor, OrderedMap.RangeFor.of_untouched,
  OrderedMap.RangeFor.returned_iff, OrderedMap.rangeFor_exists
-/
import LibSiot.Library.OrderedMap

universe u v w

namespace OrderedMap

variable {κ : Type u} {ν : Type v} {σ : Type w} [LinearOrder κ]

/-- How a loop ends: it returns, the iterator is advanced after its element was erased,
or the body does not come to its end. -/
inductive Ending where
  | returned
  | invalidated
  | crashed
deriving DecidableEq, Repr

/-- The position of the first entry, or of the first one beyond `after`; `none` is the
position behind the last one. -/
def position (m : OrderedMap κ ν) (after : Option κ) : Option κ := (m.next after).map (·.1)

variable (entries : σ → OrderedMap κ ν) (body : κ → ν → σ → Option σ → Prop) in
/-- The loop from a position on: the keys it visits, how it ends and in which state.
The body is given the entry, and gives no state if it crashes. -/
inductive RangeFor : Option κ → σ → List κ → Ending → σ → Prop where
  | finished (s : σ) : RangeFor none s [] .returned s
  | advanced {key : κ} {value : ν} {s next s' : σ} {visited : List κ} {ending : Ending}
      (there : (entries s).lookup key = some value) (ran : body key value s (some next))
      (valid : (entries next).lookup key ≠ none)
      (rest : RangeFor ((entries next).position (some key)) next visited ending s') :
      RangeFor (some key) s (key :: visited) ending s'
  | invalidated {key : κ} {value : ν} {s next : σ}
      (there : (entries s).lookup key = some value) (ran : body key value s (some next))
      (erased : (entries next).lookup key = none) :
      RangeFor (some key) s [key] .invalidated next
  | crashed {key : κ} {value : ν} {s : σ}
      (there : (entries s).lookup key = some value) (ran : body key value s none) :
      RangeFor (some key) s [key] .crashed s

/-! ### Positions -/

theorem position_of_nil {m : OrderedMap κ ν} {after : Option κ} (done : m.above after = []) :
    m.position after = none := by
  rw [position, next_of_above_nil done]
  rfl

theorem position_of_cons {m : OrderedMap κ ν} {after : Option κ} {entry : κ × ν}
    {left : List (κ × ν)} (toCome : m.above after = entry :: left) :
    m.position after = some entry.1 := by
  rw [position, next_of_above_cons toCome]
  rfl

theorem lookup_of_above_cons {m : OrderedMap κ ν} {after : Option κ} {entry : κ × ν}
    {left : List (κ × ν)} (toCome : m.above after = entry :: left) :
    m.lookup entry.1 = some entry.2 :=
  (lookup_of_next (next_of_above_cons toCome)).1

/-! ### Bodies that erase the entry they are given -/

variable {entries : σ → OrderedMap κ ν} {body : κ → ν → σ → Option σ → Prop}
  {touches : κ → ν → Prop} {s s' : σ} {visited : List κ} {ending : Ending}

/-- In state `s` the body changes nothing for entries that it does not touch.  An entry
that it touches is gone afterwards, if the body comes to its end. -/
structure Erases (entries : σ → OrderedMap κ ν) (body : κ → ν → σ → Option σ → Prop)
    (touches : κ → ν → Prop) (s : σ) : Prop where
  kept : ∀ key value result, ¬ touches key value → body key value s result → result = some s
  gone : ∀ key value next, touches key value → body key value s (some next) →
    (entries next).lookup key = none

/-- The turn of an entry that is not touched, and the rest of the loop. -/
theorem RangeFor.turn (erases : Erases entries body touches s) {after : Option κ}
    {entry : κ × ν} {left : List (κ × ν)} (toCome : (entries s).above after = entry :: left)
    (untouched : ¬ touches entry.1 entry.2)
    (loop : RangeFor entries body ((entries s).position after) s visited ending s') :
    ∃ visited', visited = entry.1 :: visited' ∧
      RangeFor entries body ((entries s).position (some entry.1)) s visited' ending s' := by
  have here := lookup_of_above_cons toCome
  rw [position_of_cons toCome] at loop
  cases loop with
  | advanced there ran valid rest =>
      rw [here] at there
      cases there
      cases erases.kept _ _ _ untouched ran
      exact ⟨_, rfl, rest⟩
  | invalidated there ran erased =>
      rw [here] at there
      cases there
      cases erases.kept _ _ _ untouched ran
      rw [here] at erased
      cases erased
  | crashed there ran =>
      rw [here] at there
      cases there
      cases erases.kept _ _ _ untouched ran

/-- Where no entry is touched the loop visits them all and changes nothing, by induction
over the entries that are left to it. -/
theorem RangeFor.of_untouched (erases : Erases entries body touches s) {after : Option κ}
    {left : List (κ × ν)} (toCome : (entries s).above after = left)
    (untouched : ∀ entry ∈ left, ¬ touches entry.1 entry.2)
    (loop : RangeFor entries body ((entries s).position after) s visited ending s') :
    ending = .returned ∧ visited = left.map (·.1) ∧ s' = s := by
  induction left generalizing after visited with
  | nil =>
      rw [position_of_nil toCome] at loop
      cases loop
      exact ⟨rfl, rfl, rfl⟩
  | cons entry left ih =>
      obtain ⟨visited, rfl, rest⟩ :=
        loop.turn erases toCome (untouched entry List.mem_cons_self)
      obtain ⟨returned, same, unchanged⟩ := ih (above_of_above_cons toCome)
        (fun entry member => untouched entry (List.mem_cons_of_mem _ member)) rest
      exact ⟨returned, congrArg (entry.1 :: ·) same, unchanged⟩

/-- At the first entry that is touched the loop comes to a bad end. -/
theorem RangeFor.of_touched (erases : Erases entries body touches s) {after : Option κ}
    {left : List (κ × ν)} (toCome : (entries s).above after = left)
    (touched : ∃ entry ∈ left, touches entry.1 entry.2)
    (loop : RangeFor entries body ((entries s).position after) s visited ending s') :
    ending ≠ .returned := by
  induction left generalizing after visited with
  | nil =>
      obtain ⟨entry, member, _⟩ := touched
      cases member
  | cons entry left ih =>
      by_cases here : touches entry.1 entry.2
      · have there := lookup_of_above_cons toCome
        rw [position_of_cons toCome] at loop
        cases loop with
        | advanced there' ran valid rest =>
            rw [there] at there'
            cases there'
            exact absurd (erases.gone _ _ _ here ran) valid
        | invalidated => nofun
        | crashed => nofun
      · obtain ⟨visited, rfl, rest⟩ := loop.turn erases toCome here
        obtain ⟨other, member, touches⟩ := touched
        rcases List.mem_cons.mp member with rfl | member
        · exact absurd touches here
        · exact ih (above_of_above_cons toCome) ⟨other, member, touches⟩ rest

/-- The loop over the whole map returns exactly where no entry is touched. -/
theorem RangeFor.returned_iff (erases : Erases entries body touches s)
    (loop : RangeFor entries body ((entries s).position none) s visited ending s') :
    ending = .returned ↔ ∀ key value, (entries s).lookup key = some value → ¬ touches key value := by
  constructor
  · rintro returned key value there touched
    have member : (key, value) ∈ (entries s).above none := mem_above.mpr ⟨there, nofun⟩
    exact loop.of_touched erases rfl ⟨(key, value), member, touched⟩ returned
  · intro untouched
    apply (loop.of_untouched erases rfl ?_).1
    rintro ⟨key, value⟩ member
    exact untouched key value (mem_above.mp member).1

/-- Bodies that always give something make a loop. -/
theorem rangeFor_exists (erases : Erases entries body touches s)
    (total : ∀ key value, (entries s).lookup key = some value → ∃ result, body key value s result)
    (after : Option κ) :
    ∃ visited ending s', RangeFor entries body ((entries s).position after) s visited ending s' := by
  generalize toCome : (entries s).above after = left
  induction left generalizing after with
  | nil =>
      rw [position_of_nil toCome]
      exact ⟨[], .returned, s, .finished s⟩
  | cons entry left ih =>
      have there := lookup_of_above_cons toCome
      rw [position_of_cons toCome]
      obtain ⟨result, ran⟩ := total _ _ there
      cases result with
      | none => exact ⟨_, _, _, .crashed there ran⟩
      | some next =>
          by_cases touched : touches entry.1 entry.2
          · exact ⟨_, _, _, .invalidated there ran (erases.gone _ _ _ touched ran)⟩
          · cases erases.kept _ _ _ touched ran
            obtain ⟨visited, ending, s', rest⟩ := ih (some entry.1) (above_of_above_cons toCome)
            exact ⟨_, _, _, .advanced there ran (by rw [there]; nofun) rest⟩

end OrderedMap
