/-
Module: LibSiot.Proofs.EndOfFileFinal
Purpose: Once a level of a stack is at the end of file it stays there and reads
  give the empty string, if the bottom behaves so.  Each decorator acts on what
  it wraps by calls only and keeps its own invariant; the stack follows by
  induction over its levels.
Trusted boundary: none
Main exports: Sound, Sound.stackCalled, Sound.endsForGood,
  stack_endsForGood
-/
import LibSiot.Decorators.Stack
import LibSiot.Proofs.Acknowledgement
import LibSiot.Proofs.LineBuffer

namespace LibSiot

universe u

open Relation (ReflTransGen)

/-! ### The line buffer -/

namespace LineBufferDecorator

variable {σ : Type u} {w : Connection σ} {outOfRange : UInt8} {fuel : Nat}

/-- The filling loop acts on the wrapped connection by calls, and an exception
leaves a remainder without a newline. -/
theorem fill_calls {lb : LineBufferDecorator σ} :
    (∀ lb', fill w fuel lb = .returned () lb' →
      ReflTransGen w.Called lb.wrapped lb'.wrapped) ∧
    (∀ error lb', fill w fuel lb = .threw error lb' →
      ReflTransGen w.Called lb.wrapped lb'.wrapped ∧ LF ∉ lb'.remainder) := by
  induction fuel generalizing lb with
  | zero => simp [fill]
  | succ fuel ih =>
      simp only [fill]
      split
      · constructor
        · rintro lb' ⟨⟩
          exact .refl
        · simp
      · rename_i clean
        split
        · rename_i s atEnd
          constructor
          · rintro lb' ⟨⟩
            exact .single (.asked atEnd)
          · simp
        · rename_i s more
          have asked : ReflTransGen w.Called lb.wrapped s := .single (.asked more)
          split
          · simp
          · rename_i error s' threw
            constructor
            · simp
            · rintro error' lb' ⟨⟩
              exact ⟨asked.tail (.threw threw), clean⟩
          · rename_i data s' received
            have read : ReflTransGen w.Called lb.wrapped s' := asked.tail (.received received)
            split
            · obtain ⟨onReturn, onThrow⟩ :=
                @ih { lb with wrapped := s', remainder := lb.remainder ++ data }
              constructor
              · intro lb' done
                exact read.trans (onReturn lb' done)
              · intro error lb' thrown
                exact ⟨read.trans (onThrow error lb' thrown).1, (onThrow error lb' thrown).2⟩
            · constructor
              · rintro lb' ⟨⟩
                exact read
              · simp

/-- A call keeps the remainder free of newlines: what it reads is split before
it returns, and an exception can only come before a newline is there. -/
theorem called_keeps {lb lb' : LineBufferDecorator σ} (clean : LF ∉ lb.remainder)
    (call : (lineBufferDecorator w outOfRange fuel).Called lb lb') :
    ReflTransGen w.Called lb.wrapped lb'.wrapped ∧ LF ∉ lb'.remainder := by
  cases call with
  | received call =>
      simp only [lineBufferDecorator, receive] at call
      split at call
      · split at call
        · cases call
        · cases call
        · rename_i _ filled fill_returned
          obtain ⟨sameWrapped, sameRemainder⟩ := popLine_eq_returned call
          rw [sameWrapped, sameRemainder]
          exact ⟨fill_calls.1 filled fill_returned, splitLines_clean _ _ _ (Nat.le_refl _)⟩
      · obtain ⟨sameWrapped, sameRemainder⟩ := popLine_eq_returned call
        rw [sameWrapped, sameRemainder]
        exact ⟨.refl, clean⟩
  | threw call =>
      simp only [lineBufferDecorator, receive] at call
      split at call
      · split at call
        · cases call
        · rename_i error thrown fill_threw
          cases call
          exact fill_calls.2 _ _ fill_threw
        · exact absurd call (popLine_ne_threw _ _)
      · exact absurd call (popLine_ne_threw _ _)
  | asked call =>
      cases call
      exact ⟨.single (.asked rfl), clean⟩

/-- A line buffer whose queue is empty is at the end for good with what it
wraps. -/
theorem endsForGood {lb : LineBufferDecorator σ} (clean : LF ∉ lb.remainder)
    (empty : lb.remainingLines = []) (ends : w.EndsForGood lb.wrapped) :
    (lineBufferDecorator w outOfRange (fuel + 1)).EndsForGood lb := by
  -- One turn of the loop sees the end and there is nothing to split.
  have receives : ∀ {lb : LineBufferDecorator σ}, LF ∉ lb.remainder →
      lb.remainingLines = [] → w.EndsForGood lb.wrapped → ∀ maxlen flags,
      receive w outOfRange (fuel + 1) maxlen flags lb =
        .returned [] { lb with wrapped := (w.isEOF lb.wrapped).2 } := by
    intro lb clean empty ends maxlen flags
    have asked : w.isEOF lb.wrapped = (true, (w.isEOF lb.wrapped).2) := by
      rw [← ends.isEOF]
    have filled : fill w (fuel + 1) lb =
        .returned () { lb with wrapped := (w.isEOF lb.wrapped).2 } := by
      rw [fill, if_neg clean, asked]
    simp [receive, filled, empty, splitLines_of_clean clean, popLine]
  apply Connection.EndsForGood.of_closed
    (fun lb => LF ∉ lb.remainder ∧ lb.remainingLines = [] ∧ w.EndsForGood lb.wrapped)
    ?_ ?_ ⟨clean, empty, ends⟩
  · rintro lb lb' ⟨clean, empty, ends⟩ call
    have after : ∀ {s}, ReflTransGen w.Called lb.wrapped s → w.EndsForGood s :=
      fun calls s' more => ends s' (calls.trans more)
    obtain ⟨calls, clean'⟩ := called_keeps clean call
    refine ⟨clean', ?_, after calls⟩
    cases call with
    | received call =>
        simp only [lineBufferDecorator, receives clean empty ends] at call
        cases call
        exact empty
    | threw call =>
        simp only [lineBufferDecorator, receives clean empty ends] at call
        cases call
    | asked call =>
        cases call
        exact empty
  · rintro lb ⟨clean, empty, ends⟩
    constructor
    · simp [lineBufferDecorator, isEOF, ends.isEOF, empty]
    · intro maxlen flags
      exact ⟨_, receives clean empty ends maxlen flags⟩

end LineBufferDecorator

/-! ### The acknowledgement decorator -/

namespace AcknowledgementDecorator

variable {σ : Type u} {w : Connection σ}

theorem called_keeps {a a' : AcknowledgementDecorator σ}
    (call : (acknowledgementDecorator w).Called a a') :
    ReflTransGen w.Called a.wrapped a'.wrapped := by
  cases call with
  | received call =>
      obtain ⟨more, received, _⟩ := receive_returned call
      exact .single (.received received)
  | threw call =>
      simp only [acknowledgementDecorator, receive_eq] at call
      split at call
      · cases call
      · rename_i error s thrown
        cases call
        exact .single (.threw thrown)
      · rename_i data s received
        split at call
        · cases call
          exact .single (.received received)
        · cases call
  | asked call =>
      cases call
      exact .single (.asked rfl)

/-- With an empty buffer it is at the end for good with what it wraps. -/
theorem endsForGood {a : AcknowledgementDecorator σ} (empty : a.buffer = [])
    (ends : w.EndsForGood a.wrapped) : (acknowledgementDecorator w).EndsForGood a := by
  have receives : ∀ {a : AcknowledgementDecorator σ}, a.buffer = [] →
      w.EndsForGood a.wrapped → ∀ maxlen flags,
      ∃ s, receive w maxlen flags a = .returned [] { a with wrapped := s } ∧
        w.EndsForGood s := by
    intro a empty ends maxlen flags
    obtain ⟨s, received, after⟩ := ends.receive (requestLength maxlen a.buffer) flags
    refine ⟨s, ?_, after⟩
    rw [receive_eq, received]
    simp [empty]
  apply Connection.EndsForGood.of_closed
    (fun a => a.buffer = [] ∧ w.EndsForGood a.wrapped) ?_ ?_ ⟨empty, ends⟩
  · rintro a a' ⟨empty, ends⟩ call
    cases call with
    | @received maxlen flags _ _ data call =>
        obtain ⟨s, received, after⟩ := receives empty ends maxlen flags
        simp only [acknowledgementDecorator, received] at call
        cases call
        exact ⟨empty, after⟩
    | @threw maxlen flags _ _ error call =>
        obtain ⟨s, received, after⟩ := receives empty ends maxlen flags
        simp only [acknowledgementDecorator, received] at call
        cases call
    | asked call =>
        cases call
        exact ⟨empty, ends.called (.asked rfl)⟩
  · rintro a ⟨empty, ends⟩
    constructor
    · simp [acknowledgementDecorator, isEOF, ends.isEOF, empty]
    · intro maxlen flags
      obtain ⟨s, received, _⟩ := receives empty ends maxlen flags
      exact ⟨_, received⟩

end AcknowledgementDecorator

/-! ### The range reader -/

namespace RangeReaderDecorator

variable {σ : Type u} {w : Connection σ}

theorem called_keeps {r r' : RangeReaderDecorator σ}
    (call : (rangeReaderDecorator w).Called r r') :
    ReflTransGen w.Called r.wrapped r'.wrapped := by
  cases call with
  | received call =>
      simp only [rangeReaderDecorator, receive] at call
      split at call
      · cases call
        exact .refl
      · split at call
        · cases call
        · cases call
        · rename_i data s received
          have read : ReflTransGen w.Called r.wrapped s := .single (.received received)
          split at call
          · rename_i s' atEnd
            cases call
            exact read.tail (.asked atEnd)
          · rename_i s' more
            cases call
            exact read.tail (.asked more)
  | threw call =>
      simp only [rangeReaderDecorator, receive] at call
      split at call
      · cases call
      · split at call
        · cases call
        · rename_i error s thrown
          cases call
          exact .single (.threw thrown)
        · split at call <;> cases call
  | asked call =>
      simp only [rangeReaderDecorator, isEOF] at call
      split at call
      · cases call
        exact .refl
      · cases call
        exact .single (.asked rfl)

/-- A range is at the end for good once it was read, or with what it wraps. -/
theorem endsForGood {r : RangeReaderDecorator σ}
    (ends : r.offset ≥ r.maxSize ∨ w.EndsForGood r.wrapped) :
    (rangeReaderDecorator w).EndsForGood r := by
  -- The offset never goes back: it stays, or is set to the end of the range.
  have receives : ∀ {r : RangeReaderDecorator σ},
      r.offset ≥ r.maxSize ∨ w.EndsForGood r.wrapped → ∀ maxlen flags,
      ∃ r', receive w maxlen flags r = .returned [] r' ∧
        (r'.offset ≥ r'.maxSize ∨ w.EndsForGood r'.wrapped) := by
    intro r ends maxlen flags
    by_cases read : r.offset ≥ r.maxSize
    · exact ⟨r, if_pos read, Or.inl read⟩
    · obtain ⟨s, received, after⟩ := (ends.resolve_left read).receive
        (requestLength maxlen r.maxSize r.offset) flags
      have asked : w.isEOF s = (true, (w.isEOF s).2) := by
        rw [← after.isEOF]
      refine ⟨{ r with wrapped := (w.isEOF s).2, offset := r.maxSize }, ?_,
        Or.inl (UInt64.le_refl _)⟩
      simp only [receive, if_neg read, received]
      rw [asked]
  apply Connection.EndsForGood.of_closed
    (fun r => r.offset ≥ r.maxSize ∨ w.EndsForGood r.wrapped) ?_ ?_ ends
  · intro r r' ends call
    cases call with
    | @received maxlen flags _ _ data call =>
        obtain ⟨r'', received, after⟩ := receives ends maxlen flags
        simp only [rangeReaderDecorator, received] at call
        cases call
        exact after
    | @threw maxlen flags _ _ error call =>
        obtain ⟨r'', received, after⟩ := receives ends maxlen flags
        simp only [rangeReaderDecorator, received] at call
        cases call
    | asked call =>
        simp only [rangeReaderDecorator, isEOF] at call
        split at call
        · cases call
          exact ends
        · cases call
          exact ends.imp_right fun ends => ends.called (.asked rfl)
  · intro r ends
    constructor
    · simp only [rangeReaderDecorator, isEOF]
      split
      · rfl
      · rename_i unread
        exact (ends.resolve_left unread).isEOF
    · intro maxlen flags
      obtain ⟨r', received, _⟩ := receives ends maxlen flags
      exact ⟨r', received⟩

end RangeReaderDecorator

/-! ### The stack -/

section Stack

variable {σ : Type u} {w : Connection σ} {outOfRange : UInt8} {fuel : Nat}

/-- No line buffer of the stack keeps a complete line in its remainder. -/
def Sound : {levels : List Level} → StackState σ levels → Prop
  | [], _ => True
  | .lineBuffer _ :: _, st =>
      LF ∉ LineBufferDecorator.remainder st ∧ Sound (StackState.wrapped st)
  | .rangeReader _ _ :: _, st => Sound (StackState.wrapped st)
  | .acknowledgement _ _ :: _, st => Sound (StackState.wrapped st)

theorem Sound.build (autoack : Bool) (s : σ) (levels : List Level) :
    Sound (StackState.build autoack s levels) := by
  induction levels with
  | nil => trivial
  | cons level levels ih =>
      cases level with
      | lineBuffer own => exact ⟨List.not_mem_nil, ih⟩
      | rangeReader maxSize own => exact ih
      | acknowledgement maxBufferSize own => exact ih

/-- What lies below some levels of a sound stack is sound. -/
theorem Sound.lower {levels : List Level} {above : List Level}
    {st : StackState σ (above ++ levels)} (sound : Sound st) : Sound (st.lower above) := by
  induction above with
  | nil => exact sound
  | cons level above ih =>
      cases level with
      | lineBuffer own => exact ih sound.2
      | rangeReader maxSize own => exact ih sound
      | acknowledgement maxBufferSize own => exact ih sound

/-- A call on the outermost handle keeps the stack sound: what a level does to
the levels below it are calls on them. -/
theorem Sound.called {levels : List Level} {st st' : StackState σ levels} (sound : Sound st)
    (call : (stack w outOfRange fuel levels).Called st st') : Sound st' := by
  induction levels with
  | nil => trivial
  | cons level levels ih =>
      have below : ∀ {s s'}, Sound s →
          ReflTransGen (stack w outOfRange fuel levels).Called s s' → Sound s' := by
        intro s s' sound calls
        induction calls with
        | refl => exact sound
        | tail _ call still => exact ih still call
      cases level with
      | lineBuffer own =>
          obtain ⟨calls, clean⟩ := LineBufferDecorator.called_keeps sound.1 call
          exact ⟨clean, below sound.2 calls⟩
      | rangeReader maxSize own =>
          exact below sound (RangeReaderDecorator.called_keeps call)
      | acknowledgement maxBufferSize own =>
          exact below sound (AcknowledgementDecorator.called_keeps call)

theorem Sound.stackCalled {levels : List Level} {st st' : StackState σ levels}
    (call : StackCalled w outOfRange fuel levels st st') (sound : Sound st) : Sound st' := by
  induction call with
  | called call => exact sound.called call
  | acknowledge bytes a =>
      rw [AcknowledgementDecorator.acknowledge]
      split <;> exact sound
  | setAutoAck autoack a => exact sound
  | @inner level levels st s call ih =>
      cases level with
      | lineBuffer own => exact ⟨sound.1, ih sound.2⟩
      | rangeReader maxSize own => exact ih sound
      | acknowledgement maxBufferSize own => exact ih sound

/-- A sound stack that is at its end is so for good, if its bottom is. -/
theorem Sound.endsForGood (final : ∀ s, (w.isEOF s).1 = true → w.EndsForGood s)
    {levels : List Level} {st : StackState σ levels} (sound : Sound st)
    (atEnd : ((stack w outOfRange (fuel + 1) levels).isEOF st).1 = true) :
    (stack w outOfRange (fuel + 1) levels).EndsForGood st := by
  induction levels with
  | nil => exact final st atEnd
  | cons level levels ih =>
      cases level with
      | lineBuffer own =>
          have ended : ((stack w outOfRange (fuel + 1) levels).isEOF _).1 = true ∧ _ :=
            Bool.and_eq_true_iff.mp atEnd
          exact LineBufferDecorator.endsForGood sound.1 (List.isEmpty_iff.mp ended.2)
            (ih sound.2 ended.1)
      | rangeReader maxSize own =>
          apply RangeReaderDecorator.endsForGood
          simp only [stack, rangeReaderDecorator, RangeReaderDecorator.isEOF] at atEnd
          split at atEnd
          · rename_i read
            exact Or.inl read
          · exact Or.inr (ih sound atEnd)
      | acknowledgement maxBufferSize own =>
          have ended : ((stack w outOfRange (fuel + 1) levels).isEOF _).1 = true ∧ _ :=
            Bool.and_eq_true_iff.mp atEnd
          exact AcknowledgementDecorator.endsForGood (List.isEmpty_iff.mp ended.2)
            (ih sound ended.1)

/-- End of file is final on every level of every stack over a bottom on which
it is: in each state that calls on the levels lead to, a level whose `IsEOF` is
true keeps it so and gives the empty string from then on. -/
theorem stack_endsForGood (w : Connection σ)
    (final : ∀ s, (w.isEOF s).1 = true → w.EndsForGood s) (outOfRange : UInt8) (fuel : Nat)
    (above levels : List Level) (s : σ) {st : StackState σ (above ++ levels)}
    (reached : ReflTransGen (StackCalled w outOfRange (fuel + 1) (above ++ levels))
      (StackState.build false s (above ++ levels)) st)
    (atEnd : ((stack w outOfRange (fuel + 1) levels).isEOF (st.lower above)).1 = true) :
    (stack w outOfRange (fuel + 1) levels).EndsForGood (st.lower above) := by
  have sound : Sound st := by
    clear atEnd
    induction reached with
    | refl => exact Sound.build false s _
    | tail _ call ih => exact ih.stackCalled call
  exact sound.lower.endsForGood final atEnd

end Stack

/-- A connection that hands out chunks from memory and is at its end after the
last. -/
def chunked : Connection (List Bytes) where
  receive _ _ chunks := .returned (chunks.headD []) chunks.tail
  isEOF chunks := (chunks.isEmpty, chunks)

theorem chunked_final (chunks : List Bytes) (atEnd : (chunked.isEOF chunks).1 = true) :
    chunked.EndsForGood chunks := by
  apply Connection.EndsForGood.of_closed (fun chunks => chunks = []) ?_ ?_
    (List.isEmpty_iff.mp atEnd)
  · rintro _ chunks' rfl call
    cases call with
    | received call =>
        cases call
        rfl
    | threw call => cases call
    | asked call =>
        cases call
        rfl
  · rintro _ rfl
    exact ⟨rfl, fun _ _ => ⟨[], rfl⟩⟩

/-- A line buffer over a range of two bytes, when the only line was read. -/
def lineRead : StackState (List Bytes) [.lineBuffer true, .rangeReader 2 false] :=
  ({ wrapped :=
      ({ wrapped := [], owned := false, maxSize := 2, offset := 2 } :
        RangeReaderDecorator (List Bytes))
     owned := true
     remainder := []
     remainingLines := [] } : LineBufferDecorator (RangeReaderDecorator (List Bytes)))

/-- The line `a\n` in two chunks: after one call the line buffer is at its end. -/
theorem stack_endsForGood_of_line :
    (stack chunked 0 3 [.lineBuffer true, .rangeReader 2 false]).EndsForGood lineRead := by
  have line : (stack chunked 0 3 [.lineBuffer true, .rangeReader 2 false]).receive 0 0
      (StackState.build false [[97], [10]] [.lineBuffer true, .rangeReader 2 false]) =
      .returned [97, 10] lineRead := by
    rfl
  exact stack_endsForGood chunked chunked_final 0 2 [] _ [[97], [10]]
    (.single (.called (.received line))) rfl

end LibSiot
