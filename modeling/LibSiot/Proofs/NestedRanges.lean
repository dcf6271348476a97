/-
Module: LibSiot.Proofs.NestedRanges
Purpose: A range reader around a range reader is one with the smaller range: the two
  offsets stay together until one range is used up or the wrapped connection is at its
  end, and from then on nothing is read.
Trusted boundary: none
Main exports: RangeReaderDecorator.Nested, RangeReaderDecorator.nested_agrees
-/
import LibSiot.Proofs.RangeReader

namespace LibSiot

universe u

namespace RangeReaderDecorator

variable {σ : Type u} {w : Connection σ}

/-- To be asked for its end of file leaves the connection as it is. -/
def Observes (w : Connection σ) : Prop :=
  ∀ s, (w.isEOF s).2 = s

/-- Asked for `k > 0` bytes the connection returns no more. -/
def Bounded (w : Connection σ) : Prop :=
  ∀ k flags s data s', k ≠ 0 → w.receive k flags s = .returned data s' → data.length ≤ k.toNat

/-! ### The two objects -/

/-- A range reader around a range reader, and one alone, over the same connection: the
offsets are the same, or both are at their end. -/
structure Nested (a b : UInt64)
    (outer : RangeReaderDecorator (RangeReaderDecorator σ)) (single : RangeReaderDecorator σ) :
    Prop where
  inner_maxSize : outer.wrapped.maxSize = a
  outer_maxSize : outer.maxSize = b
  single_maxSize : single.maxSize = min a b
  wrapped : outer.wrapped.wrapped = single.wrapped
  offsets : (outer.wrapped.offset = single.offset ∧ outer.offset = single.offset ∧
      single.offset ≤ min a b) ∨
    (b ≤ outer.offset ∧ min a b ≤ single.offset)

theorem Nested.new (s : σ) (a b : UInt64) (own own' own'' : Bool) :
    Nested a b (new (new s a own) b own') (new s (min a b) own'') where
  inner_maxSize := rfl
  outer_maxSize := rfl
  single_maxSize := rfl
  wrapped := rfl
  offsets := Or.inl ⟨rfl, rfl, UInt64.zero_le⟩

/-! ### Requests -/

theorem toNat_min (a b : UInt64) : (min a b).toNat = min a.toNat b.toNat := by
  have unfolded : min a b = if a ≤ b then a else b := rfl
  rw [unfolded, Nat.min_def]
  simp only [UInt64.le_iff_toNat_le]
  split <;> rfl

/-- The request that comes through both ranges is that of the smaller one. -/
theorem requestLength_min (len : UInt64) {a b offset : UInt64} (inA : offset < a)
    (inB : offset < b) :
    requestLength (requestLength len b offset) a offset = requestLength len (min a b) offset := by
  have lessA := UInt64.lt_iff_toNat_lt.mp inA
  have lessB := UInt64.lt_iff_toNat_lt.mp inB
  have inBoth : offset < min a b := by
    rw [UInt64.lt_iff_toNat_lt, toNat_min]
    exact Nat.lt_min.mpr ⟨lessA, lessB⟩
  have outer := toNat_requestLength len inB
  apply UInt64.toNat_inj.mp
  rw [toNat_requestLength _ inA, toNat_requestLength _ inBoth, toNat_min, outer]
  have nonzero : requestLength len b offset ≠ 0 := by
    intro zero
    rw [zero, UInt64.toNat_zero] at outer
    split at outer
    · omega
    · rename_i some
      have positive : len.toNat ≠ 0 := fun none => some (UInt64.toNat_inj.mp none)
      omega
  rw [if_neg nonzero]
  split <;> omega

/-! ### Single calls -/

theorem isEOF_fst (w : Connection σ) (r : RangeReaderDecorator σ) :
    (isEOF w r).1 = (decide (r.maxSize ≤ r.offset) || (w.isEOF r.wrapped).1) := by
  rw [isEOF]
  split
  · rename_i outside
    rw [decide_eq_true outside, Bool.true_or]
  · rename_i inside
    rw [decide_eq_false inside, Bool.false_or]

theorem Observes.isEOF_snd (observes : Observes w) (r : RangeReaderDecorator σ) :
    (isEOF w r).2 = r := by
  rw [isEOF]
  split
  · rfl
  · rw [observes]

theorem Observes.receive (observes : Observes w) (len : UInt64) (flags : UInt32)
    (r : RangeReaderDecorator σ) :
    receive w len flags r =
      if r.maxSize ≤ r.offset then .returned [] r
      else
        match w.receive (requestLength len r.maxSize r.offset) flags r.wrapped with
        | .running => .running
        | .threw error s => .threw error { r with wrapped := s }
        | .returned data s =>
            .returned data
              { r with
                wrapped := s
                offset := if (w.isEOF s).1 then r.maxSize
                  else r.offset + data.length.toUInt64 } := by
  rw [RangeReaderDecorator.receive]
  by_cases outside : r.maxSize ≤ r.offset
  · rw [if_pos outside, if_pos outside]
  · rw [if_neg outside, if_neg outside]
    cases w.receive (requestLength len r.maxSize r.offset) flags r.wrapped with
    | running => rfl
    | threw error s => rfl
    | returned data s =>
        have asked : w.isEOF s = ((w.isEOF s).1, s) := Prod.ext rfl (observes s)
        dsimp only
        rw [asked]
        cases (w.isEOF s).1 <;> rfl

/-! ### In step -/

theorem min_le_iff {a b c : UInt64} : min a b ≤ c ↔ a ≤ c ∨ b ≤ c := by
  rw [UInt64.le_iff_toNat_le, UInt64.le_iff_toNat_le, UInt64.le_iff_toNat_le, toNat_min]
  omega

/-- Reads agree while the offsets are the same, inside of both ranges: the wrapped
connection is asked for as much. -/
theorem Nested.receive_inside (observes : Observes w) (bounded : Bounded w) (len : UInt64)
    (flags : UInt32) {s : σ} {a b offset : UInt64} {own own' own'' : Bool}
    (inA : ¬ a ≤ offset) (inB : ¬ b ≤ offset) :
    (receive (rangeReaderDecorator w) len flags
        { wrapped := { wrapped := s, owned := own, maxSize := a, offset := offset }
          owned := own', maxSize := b, offset := offset }).Agree (Nested a b)
      (receive w len flags
        { wrapped := s, owned := own'', maxSize := min a b, offset := offset }) := by
  have looks : Observes (rangeReaderDecorator w) := observes.isEOF_snd
  have inBoth : ¬ min a b ≤ offset := fun outside => (min_le_iff.mp outside).elim inA inB
  have request := requestLength_min len (UInt64.not_le.mp inA) (UInt64.not_le.mp inB)
  have fits : ∀ data s', w.receive (requestLength len (min a b) offset) flags s =
      .returned data s' → offset + data.length.toUInt64 ≤ min a b := by
    intro data s' call
    let single : RangeReaderDecorator σ :=
      { wrapped := s, owned := own'', maxSize := min a b, offset := offset }
    obtain ⟨nonzero, left, _⟩ := requestLength_bounds len (r := single) inBoth
    have short := bounded _ flags s data s' nonzero call
    have range := (left_pos (r := single) inBoth).2
    have less := UInt64.lt_iff_toNat_lt.mp (UInt64.not_le.mp inBoth)
    have advanced : (single.offset + data.length.toUInt64).toNat =
        single.offset.toNat + data.length := toNat_offset_add inBoth (by omega)
    rw [UInt64.le_iff_toNat_le]
    dsimp only [single] at advanced left short range
    omega
  rw [looks.receive, observes.receive, if_neg inB, if_neg inBoth]
  dsimp only [rangeReaderDecorator]
  rw [observes.receive, if_neg inA]
  dsimp only
  rw [request]
  cases call : w.receive (requestLength len (min a b) offset) flags s with
  | running => exact .running
  | threw error s' =>
      apply Outcome.Agree.threw
      exact ⟨rfl, rfl, rfl, rfl, Or.inl ⟨rfl, rfl, UInt64.le_of_lt (UInt64.not_le.mp inBoth)⟩⟩
  | returned data s' =>
      simp only [isEOF_fst]
      cases atEnd : (w.isEOF s').1 with
      | true =>
          apply Outcome.Agree.returned
          refine ⟨rfl, rfl, rfl, rfl, Or.inr ⟨?_, ?_⟩⟩
          · simp
          · simp
      | false =>
          simp only [Bool.false_eq_true, if_false, Bool.or_false, decide_eq_true_eq]
          apply Outcome.Agree.returned
          refine ⟨rfl, rfl, rfl, rfl, ?_⟩
          dsimp only
          by_cases used : a ≤ offset + data.length.toUInt64
          · rw [if_pos used]
            exact Or.inr ⟨UInt64.le_refl _, min_le_iff.mpr (Or.inl used)⟩
          · rw [if_neg used]
            exact Or.inl ⟨rfl, rfl, fits data s' call⟩

/-- Reads of the two objects agree. -/
theorem Nested.receive {a b : UInt64} {outer : RangeReaderDecorator (RangeReaderDecorator σ)}
    {single : RangeReaderDecorator σ} (nested : Nested a b outer single) (observes : Observes w)
    (bounded : Bounded w) (len : UInt64) (flags : UInt32) :
    (receive (rangeReaderDecorator w) len flags outer).Agree (Nested a b)
      (receive w len flags single) := by
  have looks : Observes (rangeReaderDecorator w) := observes.isEOF_snd
  obtain ⟨⟨s, own, a, innerOffset⟩, own', b, outerOffset⟩ := outer
  obtain ⟨s', own'', least, offset⟩ := single
  obtain ⟨rfl, rfl, rfl, rfl, offsets⟩ := nested
  dsimp only at offsets ⊢
  rcases offsets with ⟨rfl, rfl, within⟩ | ⟨outerEnd, singleEnd⟩
  · by_cases outside : b ≤ outerOffset
    · rw [looks.receive, observes.receive, if_pos outside, if_pos (min_le_iff.mpr (Or.inr outside))]
      exact .returned ⟨rfl, rfl, rfl, rfl, Or.inl ⟨rfl, rfl, within⟩⟩
    · by_cases used : a ≤ outerOffset
      · -- The inner range is used up, as it is from the start if it is empty.
        rw [looks.receive, observes.receive, if_neg outside, if_pos (min_le_iff.mpr (Or.inl used))]
        dsimp only [rangeReaderDecorator]
        rw [observes.receive, if_pos used]
        simp only [isEOF_fst, used, decide_true, Bool.true_or, if_true]
        apply Outcome.Agree.returned
        exact ⟨rfl, rfl, rfl, rfl, Or.inr ⟨UInt64.le_refl _, min_le_iff.mpr (Or.inl used)⟩⟩
      · exact receive_inside observes bounded len flags used outside
  · rw [looks.receive, observes.receive, if_pos outerEnd, if_pos singleEnd]
    exact .returned ⟨rfl, rfl, rfl, rfl, Or.inr ⟨outerEnd, singleEnd⟩⟩

theorem Nested.isEOF {a b : UInt64} {outer : RangeReaderDecorator (RangeReaderDecorator σ)}
    {single : RangeReaderDecorator σ} (nested : Nested a b outer single) :
    (isEOF (rangeReaderDecorator w) outer).1 = (isEOF w single).1 := by
  have inner : ((rangeReaderDecorator w).isEOF outer.wrapped).1 =
      (decide (a ≤ outer.wrapped.offset) || (w.isEOF single.wrapped).1) := by
    rw [← nested.inner_maxSize, ← nested.wrapped]
    exact isEOF_fst w outer.wrapped
  rw [isEOF_fst, isEOF_fst, inner, nested.outer_maxSize, nested.single_maxSize]
  rcases nested.offsets with ⟨innerOffset, outerOffset, _⟩ | ⟨outerEnd, singleEnd⟩
  · rw [innerOffset, outerOffset, ← Bool.or_assoc, ← Bool.decide_or]
    congr 2
    rw [min_le_iff, or_comm]
  · rw [decide_eq_true outerEnd, decide_eq_true singleEnd, Bool.true_or, Bool.true_or]

/-- All calls of the two objects agree. -/
theorem Nested.answer {a b : UInt64} {outer : RangeReaderDecorator (RangeReaderDecorator σ)}
    {single : RangeReaderDecorator σ} (nested : Nested a b outer single) (observes : Observes w)
    (bounded : Bounded w) (i : ReadCall) :
    ((rangeReaderDecorator (rangeReaderDecorator w)).answer i outer).Agree (Nested a b)
      ((rangeReaderDecorator w).answer i single) := by
  cases i with
  | receive len flags =>
      apply Outcome.Agree.answer
      exact nested.receive observes bounded len flags
  | isEOF =>
      have looks : Observes (rangeReaderDecorator w) := observes.isEOF_snd
      have same : ((rangeReaderDecorator (rangeReaderDecorator w)).isEOF outer).1 =
          ((rangeReaderDecorator w).isEOF single).1 := nested.isEOF
      rw [Connection.answer, Connection.answer, looks, same]
      have stays : ((rangeReaderDecorator (rangeReaderDecorator w)).isEOF outer).2 = outer :=
        looks.isEOF_snd outer
      rw [stays]
      exact .returned nested

/-! ### Any sequence of calls -/

/-- Over a connection that returns no more than it is asked for, and that does not change
by being asked for its end of file, a range reader of `b` bytes around one of `a` bytes
gives the results of one of the smaller number, call by call, and makes the same
requests. -/
theorem nested_agrees (observes : Observes w) (bounded : Bounded w) (s : σ) (a b : UInt64)
    (own own' own'' : Bool) (calls : List ReadCall) :
    (callAll (rangeReaderDecorator (rangeReaderDecorator (recorded w))).answer calls
        (new (new (Recorded.start s) a own) b own')).map
          (fun run => (run.1, run.2.wrapped.wrapped)) =
      (callAll (rangeReaderDecorator (recorded w)).answer calls
        (new (Recorded.start s) (min a b) own'')).map fun run => (run.1, run.2.wrapped) := by
  have looks : Observes (recorded w) := by
    intro r
    change { r with inner := (w.isEOF r.inner).2 } = r
    rw [observes]
  have short : Bounded (recorded w) := by
    intro k flags r data r' nonzero call
    exact bounded k flags _ data _ nonzero (recorded_returned call).2.2
  rcases callAll_agree (Nested a b) (fun i outer single nested => nested.answer looks short i)
      (Nested.new (Recorded.start s) a b own own' own'') with
    ⟨none, none'⟩ | ⟨results, outer, single, some, some', nested⟩
  · rw [none, none']
    rfl
  · rw [some, some', Option.map_some, Option.map_some, nested.wrapped]

/-- A connection with all its bytes at hand. -/
def atHand : Connection Bytes where
  receive k _ s := .returned (s.take k.toNat) (s.drop k.toNat)
  isEOF s := (s.isEmpty, s)

theorem nested_agrees_of_overlap :
    (callAll (rangeReaderDecorator (rangeReaderDecorator (recorded atHand))).answer
        [.receive 2 0, .isEOF, .receive 0 0, .isEOF, .receive 1 0]
        (new (new (Recorded.start [97, 98, 99, 100, 101]) 3 true) 4 true)).map
          (fun run => (run.1, run.2.wrapped.wrapped)) =
      some ([.ok (.received [97, 98]), .ok (.atEnd false), .ok (.received [99]),
          .ok (.atEnd true), .ok (.received [])],
        { inner := [100, 101], requests := [2, 1], drawn := [97, 98, 99] }) := by
  rw [nested_agrees (fun _ => rfl) ?_ _ 3 4 true true true]
  · rfl
  · rintro k flags s data s' _ ⟨⟩
    rw [List.length_take]
    omega

/-- A client gives one byte at each read; its close is noticed with the second thing that
it is asked. -/
def polled : Connection Nat where
  receive _ _ asked := .returned (if asked < 2 then [0] else []) (asked + 1)
  isEOF asked := (2 ≤ asked, asked + 1)

/-- The end of file of that connection is final.  It comes up between the two questions
of a nested read, which then makes no further request. -/
theorem nested_fails :
    Bounded polled ∧ (∀ asked, (polled.isEOF asked).1 = true → polled.EndsForGood asked) ∧
      (callAll (rangeReaderDecorator (rangeReaderDecorator (recorded polled))).answer
          [.receive 1 0, .receive 1 0] (new (new (Recorded.start 0) 5 true) 7 true)).map
            (fun run => run.2.wrapped.wrapped.requests) = some [1] ∧
      (callAll (rangeReaderDecorator (recorded polled)).answer
          [.receive 1 0, .receive 1 0] (new (Recorded.start 0) 5 true)).map
            (fun run => run.2.wrapped.requests) = some [1, 1] := by
  refine ⟨?_, ?_, by decide, by decide⟩
  · rintro k flags asked data asked' nonzero ⟨⟩
    have positive : k.toNat ≠ 0 := fun zero => nonzero (UInt64.toNat_inj.mp zero)
    split <;> simp only [List.length_cons, List.length_nil] <;> omega
  · intro asked ended
    apply Connection.EndsForGood.of_closed (fun asked => 2 ≤ asked)
    · rintro asked asked' atEnd call
      cases call with
      | received call => cases call; exact Nat.le_succ_of_le atEnd
      | threw call => cases call
      | asked call => cases call; exact Nat.le_succ_of_le atEnd
    · intro asked atEnd
      refine ⟨decide_eq_true atEnd, fun maxlen flags => ⟨asked + 1, ?_⟩⟩
      simp only [polled, if_neg (Nat.not_lt_of_le atEnd)]
    · exact of_decide_eq_true ended

end RangeReaderDecorator

end LibSiot
