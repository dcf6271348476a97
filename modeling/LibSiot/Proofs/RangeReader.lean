/-
Module: LibSiot.Proofs.RangeReader
Purpose: The range reader delivers exactly a bounded prefix of the stream of the
  connection it wraps, and its draining loop finishes that prefix.  One
  position invariant ties the offset to the bytes drawn; reads and the draining
  loop both move along it.
Trusted boundary: none
Main exports: RangeReaderDecorator.Position,
  RangeReaderDecorator.delivers_bounded_prefix
-/
import LibSiot.Library.SeqPrefix
import LibSiot.Decorators.RangeReader
import LibSiot.Proofs.UnixSocketConnection

namespace LibSiot

universe u

open Stream'

namespace RangeReaderDecorator

variable {σ : Type u} {w : Connection σ} {working : σ → Prop} {pending : σ → Seq UInt8}
  {S : Seq UInt8}

/-! ### Request lengths -/

theorem left_pos {r : RangeReaderDecorator σ} (inside : ¬ r.offset ≥ r.maxSize) :
    0 < (r.maxSize - r.offset).toNat ∧
      (r.maxSize - r.offset).toNat = r.maxSize.toNat - r.offset.toNat := by
  have less : r.offset < r.maxSize := by simpa using inside
  have lessNat : r.offset.toNat < r.maxSize.toNat := UInt64.lt_iff_toNat_lt.mp less
  have exact_sub := UInt64.toNat_sub_of_le r.maxSize r.offset (UInt64.le_of_lt less)
  omega

/-- The offset counts what was read. -/
theorem toNat_offset_add {r : RangeReaderDecorator σ} {data : Bytes}
    (inside : ¬ r.offset ≥ r.maxSize)
    (short : data.length ≤ (r.maxSize - r.offset).toNat) :
    (r.offset + data.length.toUInt64).toNat = r.offset.toNat + data.length := by
  obtain ⟨positive, left⟩ := left_pos inside
  have small : r.maxSize.toNat < 2 ^ 64 := r.maxSize.toNat_lt
  have wide := Bytes.toNat_length (show data.length < 2 ^ 64 by omega)
  rw [UInt64.toNat_add, wide]
  exact Nat.mod_eq_of_lt (by omega)

/-- Inside the range a request is for at least one byte, for no more than is
left, and for no more than the caller asked. -/
theorem requestLength_bounds (len : UInt64) {r : RangeReaderDecorator σ}
    (inside : ¬ r.offset ≥ r.maxSize) :
    requestLength len r.maxSize r.offset ≠ 0 ∧
      (requestLength len r.maxSize r.offset).toNat ≤ r.maxSize.toNat - r.offset.toNat ∧
      (len ≠ 0 → (requestLength len r.maxSize r.offset).toNat ≤ len.toNat) := by
  obtain ⟨positive, left⟩ := left_pos inside
  have leftNe : r.maxSize - r.offset ≠ 0 := by
    intro zero
    rw [zero] at positive
    exact absurd positive (by decide)
  rw [requestLength]
  split
  · rename_i all
    refine ⟨leftNe, by omega, fun nonzero => ?_⟩
    rcases all with zero | more
    · exact absurd zero nonzero
    · have := UInt64.lt_iff_toNat_lt.mp more
      omega
  · rename_i some
    rw [not_or] at some
    refine ⟨some.1, ?_, fun _ => Nat.le_refl _⟩
    have := UInt64.lt_iff_toNat_lt.not.mp some.2
    omega

theorem toNat_requestLength (len : UInt64) {maxSize offset : UInt64}
    (inside : offset < maxSize) :
    (requestLength len maxSize offset).toNat =
      if len = 0 then maxSize.toNat - offset.toNat
      else min len.toNat (maxSize.toNat - offset.toNat) := by
  have left := UInt64.toNat_sub_of_le maxSize offset (UInt64.le_of_lt inside)
  rw [requestLength]
  by_cases zero : len = 0
  · rw [if_pos (Or.inl zero), if_pos zero, left]
  · rw [if_neg zero]
    split
    · rename_i more
      have longer := UInt64.lt_iff_toNat_lt.mp (more.resolve_left zero)
      omega
    · rename_i less
      have short := UInt64.lt_iff_toNat_lt.not.mp (not_or.mp less).2
      omega

/-- What a `Receive` that returns did: nothing outside the range, and inside it
one read of the wrapped connection and one look at its end of file. -/
theorem receive_cases {r r' : RangeReaderDecorator σ} {len : UInt64} {flags : UInt32}
    {data : Bytes} (call : receive w len flags r = .returned data r') :
    (r.offset ≥ r.maxSize ∧ data = [] ∧ r' = r) ∨
      (¬ r.offset ≥ r.maxSize ∧ ∃ s,
        w.receive (requestLength len r.maxSize r.offset) flags r.wrapped = .returned data s ∧
        r' = { r with
          wrapped := (w.isEOF s).2
          offset := if (w.isEOF s).1 then r.maxSize
            else r.offset + data.length.toUInt64 }) := by
  rw [receive] at call
  split at call
  · rename_i outside
    cases call
    exact Or.inl ⟨outside, rfl, rfl⟩
  · rename_i inside
    refine Or.inr ⟨inside, ?_⟩
    split at call
    · cases call
    · cases call
    · rename_i chunk s received
      split at call
      · rename_i s' atEnd
        cases call
        exact ⟨s, received, by simp [atEnd]⟩
      · rename_i s' more
        cases call
        exact ⟨s, received, by simp [more]⟩

/-! ### The position invariant -/

/-- Where a range reader over a recorded connection with stream `S` stands: the
drawn bytes are a prefix of `S` within the range, the offset counts them unless
it was moved to the end because the stream was used up, and every request so
far was for at least one byte and at most the whole range. -/
structure Position (working : σ → Prop) (pending : σ → Seq UInt8) (S : Seq UInt8)
    (r : RangeReaderDecorator (Recorded σ)) : Prop where
  working : working r.wrapped.inner
  drawn : r.wrapped.drawn = S.take r.wrapped.drawn.length
  pending : pending r.wrapped.inner = S.drop r.wrapped.drawn.length
  bounded : r.wrapped.drawn.length ≤ r.maxSize.toNat
  offset : r.offset.toNat = r.wrapped.drawn.length ∨
    (r.offset = r.maxSize ∧ S.drop r.wrapped.drawn.length = Seq.nil)
  requests : ∀ k ∈ r.wrapped.requests, k ≠ 0 ∧ k ≤ r.maxSize

theorem Position.new {s : σ} (works : working s) (maxSize : UInt64) (own : Bool) :
    Position working pending (pending s) (new (Recorded.start s) maxSize own) where
  working := works
  drawn := by simp [RangeReaderDecorator.new, Recorded.start]
  pending := rfl
  bounded := Nat.zero_le _
  offset := Or.inl rfl
  requests := by simp [RangeReaderDecorator.new, Recorded.start]

/-- The offset never passes the end of the range, so `max_size_ - offset_` does
not wrap. -/
theorem Position.offset_le {r : RangeReaderDecorator (Recorded σ)}
    (position : Position working pending S r) : r.offset ≤ r.maxSize := by
  rw [UInt64.le_iff_toNat_le]
  rcases position.offset with counts | ⟨moved, _⟩
  · rw [counts]
    exact position.bounded
  · rw [moved]

/-- Inside the range the offset still counts the drawn bytes. -/
theorem Position.offset_eq {r : RangeReaderDecorator (Recorded σ)}
    (position : Position working pending S r) (inside : ¬ r.offset ≥ r.maxSize) :
    r.offset.toNat = r.wrapped.drawn.length := by
  rcases position.offset with counts | ⟨moved, _⟩
  · exact counts
  · exact absurd (moved ▸ UInt64.le_refl _) inside

/-- Asking the wrapped connection for its end of file does not move. -/
theorem Position.isEOF_wrapped (honours : Honours w working pending)
    {r : RangeReaderDecorator (Recorded σ)} {s : Recorded σ} {atEnd : Bool}
    (position : Position working pending S r)
    (call : (recorded w).isEOF r.wrapped = (atEnd, s)) :
    Position working pending S { r with wrapped := s } ∧
      (atEnd = true → S.drop r.wrapped.drawn.length = Seq.nil) := by
  obtain ⟨drawn, requests, inner⟩ := recorded_isEOF call
  obtain ⟨same, used, works⟩ := honours.isEOF position.working inner
  have pending_eq := position.pending
  refine ⟨⟨works, ?_, ?_, ?_, ?_, ?_⟩, fun yes => pending_eq ▸ used yes⟩
  · simpa [drawn] using position.drawn
  · simpa [drawn, same] using pending_eq
  · simpa [drawn] using position.bounded
  · simpa [drawn] using position.offset
  · simpa [requests] using position.requests

/-- An exception of the wrapped connection does not move either. -/
theorem Position.threw_wrapped (honours : Honours w working pending)
    {r : RangeReaderDecorator (Recorded σ)} {s : Recorded σ} {k : UInt64}
    {error : ClientConnectionException} (position : Position working pending S r) (nonzero : k ≠ 0)
    (fits : k.toNat ≤ r.maxSize.toNat)
    (call : (recorded w).receive k 0 r.wrapped = .threw error s) :
    Position working pending S { r with wrapped := s } := by
  obtain ⟨drawn, requests, inner⟩ := recorded_threw call
  obtain ⟨same, works⟩ := honours.threw position.working nonzero inner
  refine ⟨works, ?_, ?_, ?_, ?_, ?_⟩
  · simpa [drawn] using position.drawn
  · simpa [drawn, same] using position.pending
  · simpa [drawn] using position.bounded
  · simpa [drawn] using position.offset
  · intro k' member
    simp only [requests, List.mem_append, List.mem_singleton] at member
    rcases member with old | rfl
    · exact position.requests k' old
    · exact ⟨nonzero, UInt64.le_iff_toNat_le.mpr fits⟩

/-- Reading `k` bytes inside the range moves the offset by what was returned. -/
theorem Position.advance (honours : Honours w working pending)
    {r : RangeReaderDecorator (Recorded σ)} {s : Recorded σ} {k : UInt64} {data : Bytes}
    (position : Position working pending S r) (inside : ¬ r.offset ≥ r.maxSize) (nonzero : k ≠ 0)
    (fits : k.toNat ≤ r.maxSize.toNat - r.offset.toNat)
    (call : (recorded w).receive k 0 r.wrapped = .returned data s) :
    Position working pending S
        { r with wrapped := s, offset := r.offset + data.length.toUInt64 } ∧
      s.drawn = r.wrapped.drawn ++ data ∧ data.length ≤ k.toNat := by
  obtain ⟨drawn, requests, inner⟩ := recorded_returned call
  obtain ⟨short, next, rest, works⟩ := honours.receive position.working nonzero inner
  have counts := position.offset_eq inside
  have room := position.bounded
  have small : r.maxSize.toNat < 2 ^ 64 := r.maxSize.toNat_lt
  have length : s.drawn.length = r.wrapped.drawn.length + data.length := by
    rw [drawn, List.length_append]
  have pending_eq := position.pending
  refine ⟨⟨works, ?_, ?_, ?_, ?_, ?_⟩, drawn, short⟩
  · simp only [length, SeqPrefix.take_add]
    rw [drawn, ← position.drawn, ← pending_eq, ← next]
  · simp only [length, Seq.dropn_add]
    rw [← pending_eq, rest]
  · simp only [length]
    omega
  · left
    have fitting : r.wrapped.drawn.length + data.length < 2 ^ 64 := by omega
    have wide := Bytes.toNat_length (show data.length < 2 ^ 64 by omega)
    simp only [length, UInt64.toNat_add, wide, counts]
    exact Nat.mod_eq_of_lt fitting
  · intro k' member
    simp only [requests, List.mem_append, List.mem_singleton] at member
    rcases member with old | rfl
    · exact position.requests k' old
    · exact ⟨nonzero, UInt64.le_iff_toNat_le.mpr (by simp only; omega)⟩

/-! ### Calls -/

theorem Position.receive_returned (honours : Honours w working pending)
    {r r' : RangeReaderDecorator (Recorded σ)} {len : UInt64} {data : Bytes}
    (position : Position working pending S r)
    (call : receive (recorded w) len 0 r = .returned data r') :
    Position working pending S r' ∧ r'.wrapped.drawn = r.wrapped.drawn ++ data ∧
      r'.maxSize = r.maxSize ∧ (len ≠ 0 → data.length ≤ len.toNat) := by
  rcases receive_cases call with ⟨_, rfl, rfl⟩ | ⟨inside, s, received, rfl⟩
  · exact ⟨position, by simp, rfl, fun _ => Nat.zero_le _⟩
  · obtain ⟨nonzero, fits, within⟩ := requestLength_bounds len inside
    obtain ⟨moved, drawn, short⟩ := position.advance honours inside nonzero fits received
    obtain ⟨asked, used⟩ := moved.isEOF_wrapped honours rfl
    refine ⟨⟨asked.working, asked.drawn, asked.pending, asked.bounded, ?_, asked.requests⟩,
      drawn, rfl, fun bounded => Nat.le_trans short (within bounded)⟩
    cases atEnd : ((recorded w).isEOF s).1 with
    | true =>
        -- The wrapped connection is at its end: the offset jumps to the end.
        exact Or.inr ⟨by simp, used atEnd⟩
    | false =>
        simp only [Bool.false_eq_true, if_false]
        exact asked.offset

theorem Position.receive_threw (honours : Honours w working pending)
    {r r' : RangeReaderDecorator (Recorded σ)} {len : UInt64}
    {error : ClientConnectionException} (position : Position working pending S r)
    (call : receive (recorded w) len 0 r = .threw error r') :
    Position working pending S r' ∧ r'.wrapped.drawn = r.wrapped.drawn ∧
      r'.maxSize = r.maxSize := by
  rw [receive] at call
  split at call
  · cases call
  · rename_i inside
    obtain ⟨nonzero, fits, _⟩ := requestLength_bounds len inside
    split at call
    · cases call
    · rename_i error' s threw
      cases call
      exact ⟨position.threw_wrapped honours nonzero (by omega) threw,
        (recorded_threw threw).1, rfl⟩
    · split at call <;> cases call

/-- `IsEOF()` tells exactly that the range is delivered or the stream used up. -/
theorem Position.isEOF_iff (honours : Honours w working pending)
    {r : RangeReaderDecorator (Recorded σ)} (position : Position working pending S r) :
    (r.wrapped.drawn.length = r.maxSize.toNat → (r.isEOF (recorded w)).1 = true) ∧
    ((r.isEOF (recorded w)).1 = true →
      r.wrapped.drawn.length = r.maxSize.toNat ∨
        S.drop r.wrapped.drawn.length = Seq.nil) := by
  rw [isEOF]
  split
  · rename_i outside
    refine ⟨fun _ => rfl, fun _ => ?_⟩
    rcases position.offset with counts | ⟨_, used⟩
    · left
      have reached := UInt64.le_iff_toNat_le.mp outside
      have bounded := position.bounded
      omega
    · exact Or.inr used
  · rename_i inside
    have counts := position.offset_eq inside
    constructor
    · intro all
      exact absurd (UInt64.le_iff_toNat_le.mpr (by omega)) inside
    · intro atEnd
      exact Or.inr ((position.isEOF_wrapped honours rfl).2 atEnd)

/-- The draining loop moves along the same invariant, and ends only at the end
of the range or of the stream. -/
theorem Position.drain_returned (honours : Honours w working pending) (fuel : Nat)
    {r r' : RangeReaderDecorator (Recorded σ)} (position : Position working pending S r)
    (ended : drain (recorded w) fuel r = .returned () r') :
    Position working pending S r' ∧ r'.maxSize = r.maxSize ∧
      (r'.wrapped.drawn.length = r'.maxSize.toNat ∨
        S.drop r'.wrapped.drawn.length = Seq.nil) := by
  induction fuel generalizing r with
  | zero => cases ended
  | succ fuel ih =>
      simp only [drain] at ended
      split at ended
      · rename_i outside
        cases ended
        refine ⟨position, rfl, (position.isEOF_iff honours).2 ?_⟩
        rw [isEOF, if_pos outside]
      · rename_i inside
        split at ended
        · rename_i s atEnd
          cases ended
          obtain ⟨asked, used⟩ := position.isEOF_wrapped honours atEnd
          exact ⟨asked, rfl, Or.inr (by simpa [(recorded_isEOF atEnd).1] using used rfl)⟩
        · rename_i s more
          have asked := (position.isEOF_wrapped honours more).1
          obtain ⟨positive, left⟩ := left_pos inside
          split at ended
          · cases ended
          · cases ended
          · rename_i chunk s' received
            have nonzero : r.maxSize - r.offset ≠ 0 := by
              intro zero
              rw [zero] at positive
              exact absurd positive (by decide)
            have moved := (asked.advance honours inside nonzero
              (show _ ≤ r.maxSize.toNat - r.offset.toNat by omega) received).1
            obtain ⟨later, range, stopped⟩ := ih moved ended
            exact ⟨later, range, stopped⟩

/-- What a single read guarantees beside the position it leaves. -/
def Within (len : UInt64) (result : Except ClientConnectionException Bytes) : Prop :=
  ∀ data, result = .ok data → len ≠ 0 → data.length ≤ len.toNat

/-- Every state a sequence of calls reaches is on the position invariant, the
results that came back are what was drawn, and each is within its request. -/
theorem Position.calls (honours : Honours w working pending)
    {lens : List UInt64} {results : List (Except ClientConnectionException Bytes)}
    {r r' : RangeReaderDecorator (Recorded σ)} (position : Position working pending S r)
    (run : callAll (fun len => receive (recorded w) len 0) lens r = some (results, r')) :
    Position working pending S r' ∧
      r'.wrapped.drawn = r.wrapped.drawn ++ (returnedValues results).flatten ∧
      r'.maxSize = r.maxSize ∧ List.Forall₂ Within lens results := by
  refine callAll_induction
    (fun r lens results r' => Position working pending S r →
      Position working pending S r' ∧
      r'.wrapped.drawn = r.wrapped.drawn ++ (returnedValues results).flatten ∧
      r'.maxSize = r.maxSize ∧ List.Forall₂ Within lens results) ?_ ?_ ?_ run position
  · intro r position
    exact ⟨position, by simp, rfl, .nil⟩
  · intro r len data s lens results r' call rest position
    obtain ⟨moved, drawn, range, short⟩ := position.receive_returned honours call
    obtain ⟨last, after, same, within⟩ := rest moved
    refine ⟨last, ?_, same.trans range, .cons ?_ within⟩
    · rw [after, drawn, List.append_assoc, returnedValues_ok_cons, List.flatten_cons]
    · rintro _ ⟨rfl⟩
      exact short
  · intro r len error s lens results r' call rest position
    obtain ⟨moved, drawn, range⟩ := position.receive_threw honours call
    obtain ⟨last, after, same, within⟩ := rest moved
    refine ⟨last, ?_, same.trans range, .cons ?_ within⟩
    · rw [after, drawn, returnedValues_error_cons]
    · rintro _ ⟨⟩

/-- A bounded prefix, for every range, every connection that honours `Receive`
and every sequence of reads: `d` bytes of the stream were taken and delivered,
no read asks for nothing or for more than the range, `IsEOF()` agrees with the
range and the stream, and a draining loop that ends has taken all there is. -/
theorem delivers_bounded_prefix (honours : Honours w working pending) {s : σ}
    (works : working s) (maxSize : UInt64) (own : Bool) (lens : List UInt64)
    {results : List (Except ClientConnectionException Bytes)}
    {r : RangeReaderDecorator (Recorded σ)}
    (run : callAll (fun len => receive (recorded w) len 0) lens
      (RangeReaderDecorator.new (Recorded.start s) maxSize own) = some (results, r)) :
    ∃ d : ℕ, (d : ℕ∞) ≤ min (maxSize.toNat : ℕ∞) (pending s).length' ∧
      (returnedValues results).flatten = (pending s).take d ∧
      r.wrapped.drawn = (pending s).take d ∧ r.wrapped.drawn.length = d ∧
      List.Forall₂ Within lens results ∧
      (∀ k ∈ r.wrapped.requests, k ≠ 0 ∧ k ≤ maxSize) ∧ r.offset ≤ maxSize ∧
      (d = maxSize.toNat → (r.isEOF (recorded w)).1 = true) ∧
      ((r.isEOF (recorded w)).1 = true →
        (d : ℕ∞) = min (maxSize.toNat : ℕ∞) (pending s).length') ∧
      (∀ fuel r', drain (recorded w) fuel r = .returned () r' →
        (r'.wrapped.drawn.length : ℕ∞) =
            min (maxSize.toNat : ℕ∞) (pending s).length' ∧
          r'.wrapped.drawn = (pending s).take r'.wrapped.drawn.length ∧
          ∀ k ∈ r'.wrapped.requests, k ≠ 0 ∧ k ≤ maxSize) := by
  obtain ⟨position, delivered, rfl, within⟩ :=
    (Position.new works maxSize own).calls honours run
  have all : r.wrapped.drawn = (returnedValues results).flatten := delivered
  have full : ((pending s).take r.wrapped.drawn.length).length = r.wrapped.drawn.length :=
    congrArg List.length position.drawn.symm
  obtain ⟨atEnd, exhausted⟩ := position.isEOF_iff honours
  refine ⟨r.wrapped.drawn.length, ?_, all.symm.trans position.drawn, position.drawn, rfl,
    within, position.requests, position.offset_le, atEnd, ?_, ?_⟩
  · exact le_min (by exact_mod_cast position.bounded)
      (SeqPrefix.le_length_of_length_take full)
  · intro ended
    exact SeqPrefix.eq_min_of_exhausted full position.bounded (exhausted ended)
  · intro fuel r' ended
    obtain ⟨moved, range, stopped⟩ := position.drain_returned honours fuel ended
    rw [← range]
    refine ⟨?_, moved.drawn, moved.requests⟩
    exact SeqPrefix.eq_min_of_exhausted (congrArg List.length moved.drawn.symm)
      moved.bounded stopped

/-- A range of 3 over a socket that delivered `a`, then nothing, then at most two
of the bytes behind it. -/
theorem delivers_bounded_prefix_of_socket :
    ∃ d : ℕ, (d : ℕ∞) ≤ 3 ∧
      ([97, 98, 99] : Bytes) = (Seq.ofList [97, 98, 99, 100]).take d := by
  have works : UnixSocketConnection.Working (.new [97, 98, 99, 100]
      [⟨.bytes 1, 1⟩, ⟨.error .EAGAIN, 2⟩, ⟨.bytes 9, 3⟩] 0) := ⟨rfl, by decide⟩
  have run : callAll (fun len => receive (recorded unixSocketConnection) len 0) [1, 5, 0]
      (.new (Recorded.start (.new [97, 98, 99, 100]
        [⟨.bytes 1, 1⟩, ⟨.error .EAGAIN, 2⟩, ⟨.bytes 9, 3⟩] 0)) 3 false) =
      some ([.ok [97], .ok [], .ok [98, 99]],
        { wrapped :=
            { inner := { input := [100], replies := [], eof := false, lastUse := 3 }
              requests := [1, 2, 2]
              drawn := [97, 98, 99] }
          owned := false
          maxSize := 3
          offset := 3 }) := by
    rfl
  obtain ⟨d, bounded, delivered, _⟩ :=
    delivers_bounded_prefix UnixSocketConnection.honours works 3 false [1, 5, 0] run
  exact ⟨d, bounded.trans (min_le_left _ _), delivered⟩

end RangeReaderDecorator

end LibSiot
