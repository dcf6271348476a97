/-
Module: LibSiot.Proofs.StackAgreement
Purpose: A decorator knows of what it wraps only how its calls end: over two
  connections whose calls agree, it agrees itself.  So a relation between two
  bottoms lifts through every stack, to every run of calls on the outermost
  handle, and to the draining loop of a range reader.
Trusted boundary: none
Main exports: Connection.Agrees, Over, stack_agrees,
  RangeReaderDecorator.drain_agrees, recorded_agrees
-/
import LibSiot.Decorators.Stack
import LibSiot.Proofs.Acknowledgement

namespace LibSiot

universe u v w

/-- Objects related by `R` answer every call alike, and are related after it. -/
structure Connection.Agrees {σ : Type u} {τ : Type v} (R : σ → τ → Prop) (c : Connection σ)
    (c' : Connection τ) : Prop where
  receive : ∀ {s : σ} {t : τ} (len : UInt64) (flags : UInt32), R s t →
    (c.receive len flags s).Agree R (c'.receive len flags t)
  isEOF : ∀ {s : σ} {t : τ}, R s t →
    (c.isEOF s).1 = (c'.isEOF t).1 ∧ R (c.isEOF s).2 (c'.isEOF t).2

section Agrees

variable {σ : Type u} {τ : Type v} {R : σ → τ → Prop} {c : Connection σ} {c' : Connection τ}

theorem Connection.Agrees.answer (agrees : c.Agrees R c') (call : ReadCall) {s : σ} {t : τ}
    (related : R s t) : (c.answer call s).Agree R (c'.answer call t) := by
  cases call with
  | receive len flags => exact (agrees.receive len flags related).answer
  | isEOF =>
      obtain ⟨same, related'⟩ := agrees.isEOF related
      simp only [Connection.answer, same]
      exact .returned related'

end Agrees

/-! ### The decorators -/

section Decorators

variable {σ : Type u} {τ : Type v} {R : σ → τ → Prop} {w : Connection σ} {w' : Connection τ}
  {outOfRange : UInt8} {fuel : Nat}

namespace LineBufferDecorator

/-- The same but for what they wrap, which is related. -/
structure Over (R : σ → τ → Prop) (lb : LineBufferDecorator σ) (lb' : LineBufferDecorator τ) :
    Prop where
  wrapped : R lb.wrapped lb'.wrapped
  owned : lb.owned = lb'.owned
  remainder : lb.remainder = lb'.remainder
  remainingLines : lb.remainingLines = lb'.remainingLines

theorem fill_agrees (agrees : w.Agrees R w') (fuel : Nat) {lb : LineBufferDecorator σ}
    {lb' : LineBufferDecorator τ} (related : Over R lb lb') :
    (fill w fuel lb).Agree (Over R) (fill w' fuel lb') := by
  induction fuel generalizing lb lb' with
  | zero => exact .running
  | succ fuel ih =>
      obtain ⟨s, owned, remainder, lines⟩ := lb
      obtain ⟨t, owned', remainder', lines'⟩ := lb'
      obtain ⟨related, ⟨⟩, ⟨⟩, ⟨⟩⟩ := related
      obtain ⟨same, asked⟩ := agrees.isEOF related
      simp only [fill]
      split
      · exact .returned ⟨related, rfl, rfl, rfl⟩
      · generalize w.isEOF s = answer at same asked
        generalize w'.isEOF t = answer' at same asked
        obtain ⟨atEnd, s⟩ := answer
        obtain ⟨atEnd', t⟩ := answer'
        obtain rfl : atEnd = atEnd' := same
        cases atEnd with
        | true => exact .returned ⟨asked, rfl, rfl, rfl⟩
        | false =>
            have ends := agrees.receive sizeMax 0 asked
            dsimp only
            generalize w.receive sizeMax 0 s = outcome at ends
            generalize w'.receive sizeMax 0 t = outcome' at ends
            cases ends with
            | running => exact .running
            | threw last => exact .threw ⟨last, rfl, rfl, rfl⟩
            | returned last =>
                dsimp only
                split
                · exact ih ⟨last, rfl, rfl, rfl⟩
                · exact .returned ⟨last, rfl, rfl, rfl⟩

theorem popLine_agrees {lb : LineBufferDecorator σ} {lb' : LineBufferDecorator τ}
    (related : Over R lb lb') : (popLine lb).Agree (Over R) (popLine lb') := by
  obtain ⟨wrapped, owned, remainder, lines⟩ := related
  rw [popLine, popLine, ← lines]
  split
  · exact .returned ⟨wrapped, owned, remainder, lines⟩
  · exact .returned ⟨wrapped, owned, remainder, rfl⟩

theorem agrees (agrees : w.Agrees R w') :
    (lineBufferDecorator w outOfRange fuel).Agrees (Over R)
      (lineBufferDecorator w' outOfRange fuel) where
  receive := by
    intro lb lb' len flags related
    simp only [lineBufferDecorator, receive, ← related.remainingLines]
    split
    · have ends := fill_agrees agrees fuel related
      generalize fill w fuel lb = outcome at ends
      generalize fill w' fuel lb' = outcome' at ends
      cases ends with
      | running => exact .running
      | threw last => exact .threw last
      | returned last =>
          obtain ⟨wrapped, owned, remainder, lines⟩ := last
          dsimp only
          rw [remainder, lines]
          exact popLine_agrees ⟨wrapped, owned, rfl, rfl⟩
    · exact popLine_agrees related
  isEOF := by
    intro lb lb' related
    obtain ⟨wrapped, owned, remainder, lines⟩ := related
    obtain ⟨same, asked⟩ := agrees.isEOF wrapped
    simp only [lineBufferDecorator, isEOF, same, lines]
    exact ⟨trivial, asked, owned, remainder, rfl⟩

end LineBufferDecorator

namespace RangeReaderDecorator

/-- The same but for what they wrap, which is related. -/
structure Over (R : σ → τ → Prop) (r : RangeReaderDecorator σ) (r' : RangeReaderDecorator τ) :
    Prop where
  wrapped : R r.wrapped r'.wrapped
  owned : r.owned = r'.owned
  maxSize : r.maxSize = r'.maxSize
  offset : r.offset = r'.offset

theorem agrees (agrees : w.Agrees R w') :
    (rangeReaderDecorator w).Agrees (Over R) (rangeReaderDecorator w') where
  receive := by
    rintro ⟨s, owned, maxSize, offset⟩ ⟨t, owned', maxSize', offset'⟩ len flags
      ⟨related, ⟨⟩, ⟨⟩, ⟨⟩⟩
    simp only [rangeReaderDecorator, receive]
    split
    · exact .returned ⟨related, rfl, rfl, rfl⟩
    · have ends := agrees.receive (requestLength len maxSize offset) flags related
      generalize w.receive (requestLength len maxSize offset) flags s = outcome at ends
      generalize w'.receive (requestLength len maxSize offset) flags t = outcome' at ends
      cases ends with
      | running => exact .running
      | threw last => exact .threw ⟨last, rfl, rfl, rfl⟩
      | @returned data s t last =>
          obtain ⟨same, asked⟩ := agrees.isEOF last
          dsimp only
          generalize w.isEOF s = answer at same asked
          generalize w'.isEOF t = answer' at same asked
          obtain ⟨atEnd, s⟩ := answer
          obtain ⟨atEnd', t⟩ := answer'
          obtain rfl : atEnd = atEnd' := same
          cases atEnd <;> exact .returned ⟨asked, rfl, rfl, rfl⟩
  isEOF := by
    rintro ⟨s, owned, maxSize, offset⟩ ⟨t, owned', maxSize', offset'⟩ ⟨related, ⟨⟩, ⟨⟩, ⟨⟩⟩
    simp only [rangeReaderDecorator, isEOF]
    split
    · exact ⟨rfl, related, rfl, rfl, rfl⟩
    · obtain ⟨same, asked⟩ := agrees.isEOF related
      exact ⟨same, asked, rfl, rfl, rfl⟩

theorem drain_agrees (agrees : w.Agrees R w') (fuel : Nat) {r : RangeReaderDecorator σ}
    {r' : RangeReaderDecorator τ} (related : Over R r r') :
    (drain w fuel r).Agree (Over R) (drain w' fuel r') := by
  induction fuel generalizing r r' with
  | zero => exact .running
  | succ fuel ih =>
      obtain ⟨s, owned, maxSize, offset⟩ := r
      obtain ⟨t, owned', maxSize', offset'⟩ := r'
      obtain ⟨related, ⟨⟩, ⟨⟩, ⟨⟩⟩ := related
      obtain ⟨same, asked⟩ := agrees.isEOF related
      simp only [drain]
      split
      · exact .returned ⟨related, rfl, rfl, rfl⟩
      · generalize w.isEOF s = answer at same asked
        generalize w'.isEOF t = answer' at same asked
        obtain ⟨atEnd, s⟩ := answer
        obtain ⟨atEnd', t⟩ := answer'
        obtain rfl : atEnd = atEnd' := same
        cases atEnd with
        | true => exact .returned ⟨asked, rfl, rfl, rfl⟩
        | false =>
            have ends := agrees.receive (maxSize - offset) 0 asked
            dsimp only
            generalize w.receive (maxSize - offset) 0 s = outcome at ends
            generalize w'.receive (maxSize - offset) 0 t = outcome' at ends
            cases ends with
            | running => exact .running
            | threw last => exact .threw ⟨last, rfl, rfl, rfl⟩
            | returned last => exact ih ⟨last, rfl, rfl, rfl⟩

end RangeReaderDecorator

namespace AcknowledgementDecorator

/-- The same but for what they wrap, which is related. -/
structure Over (R : σ → τ → Prop) (a : AcknowledgementDecorator σ)
    (a' : AcknowledgementDecorator τ) : Prop where
  wrapped : R a.wrapped a'.wrapped
  owned : a.owned = a'.owned
  maxBufferSize : a.maxBufferSize = a'.maxBufferSize
  autoack : a.autoack = a'.autoack
  buffer : a.buffer = a'.buffer

theorem agrees (agrees : w.Agrees R w') :
    (acknowledgementDecorator w).Agrees (Over R) (acknowledgementDecorator w') where
  receive := by
    rintro ⟨s, owned, maxBufferSize, autoack, buffer⟩ ⟨t, owned', maxBufferSize', autoack', buffer'⟩
      len flags ⟨related, ⟨⟩, ⟨⟩, ⟨⟩, ⟨⟩⟩
    have ends := agrees.receive (requestLength len buffer) flags related
    simp only [acknowledgementDecorator, receive_eq]
    generalize w.receive (requestLength len buffer) flags s = outcome at ends
    generalize w'.receive (requestLength len buffer) flags t = outcome' at ends
    cases ends with
    | running => exact .running
    | threw last => exact .threw ⟨last, rfl, rfl, rfl, rfl⟩
    | returned last =>
        dsimp only
        split
        · exact .threw ⟨last, rfl, rfl, rfl, rfl⟩
        · exact .returned ⟨last, rfl, rfl, rfl, rfl⟩
  isEOF := by
    rintro ⟨s, owned, maxBufferSize, autoack, buffer⟩ ⟨t, owned', maxBufferSize', autoack', buffer'⟩
      ⟨related, ⟨⟩, ⟨⟩, ⟨⟩, ⟨⟩⟩
    obtain ⟨same, asked⟩ := agrees.isEOF related
    simp only [acknowledgementDecorator, isEOF, same]
    exact ⟨trivial, asked, rfl, rfl, rfl, rfl⟩

end AcknowledgementDecorator

/-! ### The stack -/

/-- Stacks of the same levels, the same in each of them, over related bottoms. -/
def StackOver (R : σ → τ → Prop) :
    (levels : List Level) → StackState σ levels → StackState τ levels → Prop
  | [] => R
  | .lineBuffer _ :: levels => LineBufferDecorator.Over (StackOver R levels)
  | .rangeReader _ _ :: levels => RangeReaderDecorator.Over (StackOver R levels)
  | .acknowledgement _ _ :: levels => AcknowledgementDecorator.Over (StackOver R levels)

theorem StackOver.build {s : σ} {t : τ} (related : R s t) (autoack : Bool)
    (levels : List Level) :
    StackOver R levels (.build autoack s levels) (.build autoack t levels) := by
  induction levels with
  | nil => exact related
  | cons level levels ih =>
      cases level with
      | lineBuffer own => exact ⟨ih, rfl, rfl, rfl⟩
      | rangeReader maxSize own => exact ⟨ih, rfl, rfl, rfl⟩
      | acknowledgement maxBufferSize own => exact ⟨ih, rfl, rfl, rfl, rfl⟩

/-- What agrees at the bottom agrees on top of any stack. -/
theorem stack_agrees (agrees : w.Agrees R w') (outOfRange : UInt8) (fuel : Nat)
    (levels : List Level) :
    (stack w outOfRange fuel levels).Agrees (StackOver R levels)
      (stack w' outOfRange fuel levels) := by
  induction levels with
  | nil => exact agrees
  | cons level levels ih =>
      cases level with
      | lineBuffer own => exact LineBufferDecorator.agrees ih
      | rangeReader maxSize own => exact RangeReaderDecorator.agrees ih
      | acknowledgement maxBufferSize own => exact AcknowledgementDecorator.agrees ih

end Decorators

/-! ### Recording -/

/-- Recording what a connection hands out changes nothing for its caller. -/
theorem recorded_agrees {σ : Type u} (w : Connection σ) :
    (recorded w).Agrees (fun r s => r.inner = s) w where
  receive := by
    rintro r _ len flags rfl
    simp only [recorded]
    cases w.receive len flags r.inner with
    | running => exact .running
    | threw error s => exact .threw rfl
    | returned data s => exact .returned rfl
  isEOF := by
    rintro r _ rfl
    exact ⟨rfl, rfl⟩

end LibSiot
