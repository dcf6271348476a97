/-
Module: LibSiot.Decorators.Stack
Purpose: Decorators put on top of each other to any depth, as one connection
  whose state nests the states of its levels, and the calls a program can make
  on the handle of any level.
Trusted boundary: human-reviewed model
Main exports: Level, StackState, stack, StackState.build, StackState.lower,
  StackCalled
-/
import LibSiot.Decorators.Acknowledgement
import LibSiot.Decorators.LineBuffer
import LibSiot.Decorators.RangeReader

namespace LibSiot

universe u

/-- One decorator of a stack, with the arguments of its constructor. -/
inductive Level where
  | lineBuffer (own : Bool)
  | rangeReader (maxSize : UInt64) (own : Bool)
  | acknowledgement (maxBufferSize : UInt64) (own : Bool)
deriving Repr, DecidableEq

/-- The state of a stack over a bottom with state `σ`, outermost level first. -/
def StackState (σ : Type u) : List Level → Type u
  | [] => σ
  | .lineBuffer _ :: levels => LineBufferDecorator (StackState σ levels)
  | .rangeReader _ _ :: levels => RangeReaderDecorator (StackState σ levels)
  | .acknowledgement _ _ :: levels => AcknowledgementDecorator (StackState σ levels)

/-- The outermost handle of a stack as a connection. -/
def stack {σ : Type u} (w : Connection σ) (outOfRange : UInt8) (fuel : Nat) :
    (levels : List Level) → Connection (StackState σ levels)
  | [] => w
  | .lineBuffer _ :: levels =>
      lineBufferDecorator (stack w outOfRange fuel levels) outOfRange fuel
  | .rangeReader _ _ :: levels => rangeReaderDecorator (stack w outOfRange fuel levels)
  | .acknowledgement _ _ :: levels =>
      acknowledgementDecorator (stack w outOfRange fuel levels)

namespace StackState

variable {σ : Type u}

/-- The stack as its constructors leave it, with auto-acknowledge set to
`autoack` on every level that has it. -/
def build (autoack : Bool) (s : σ) : (levels : List Level) → StackState σ levels
  | [] => s
  | .lineBuffer own :: levels => LineBufferDecorator.new (build autoack s levels) own
  | .rangeReader maxSize own :: levels =>
      RangeReaderDecorator.new (build autoack s levels) maxSize own
  | .acknowledgement maxBufferSize own :: levels =>
      AcknowledgementDecorator.setAutoAck autoack
        (AcknowledgementDecorator.new (build autoack s levels) maxBufferSize own)

/-- The part of the state below the outermost level. -/
def wrapped : {level : Level} → {levels : List Level} →
    StackState σ (level :: levels) → StackState σ levels
  | .lineBuffer _, _, lb => LineBufferDecorator.wrapped lb
  | .rangeReader _ _, _, r => RangeReaderDecorator.wrapped r
  | .acknowledgement _ _, _, a => AcknowledgementDecorator.wrapped a

/-- The same outermost level over another state below. -/
def rewrap : {level : Level} → {levels : List Level} →
    StackState σ (level :: levels) → StackState σ levels → StackState σ (level :: levels)
  | .lineBuffer _, _, lb, s => { (lb : LineBufferDecorator _) with wrapped := s }
  | .rangeReader _ _, _, r, s => { (r : RangeReaderDecorator _) with wrapped := s }
  | .acknowledgement _ _, _, a, s => { (a : AcknowledgementDecorator _) with wrapped := s }

/-- The part of the state below all the levels `above`. -/
def lower {levels : List Level} : (above : List Level) →
    StackState σ (above ++ levels) → StackState σ levels
  | [], st => st
  | _ :: above, st => lower above (wrapped st)

end StackState

/-- One call of a program that holds the handle of every level: `Receive` and
`IsEOF` on any of them and on the bottom, `Acknowledge` and `SetAutoAck` on the
levels that have these. -/
inductive StackCalled {σ : Type u} (w : Connection σ) (outOfRange : UInt8) (fuel : Nat) :
    (levels : List Level) → StackState σ levels → StackState σ levels → Prop where
  | called {levels : List Level} {st st' : StackState σ levels}
      (call : (stack w outOfRange fuel levels).Called st st') :
      StackCalled w outOfRange fuel levels st st'
  | acknowledge {maxBufferSize : UInt64} {own : Bool} {levels : List Level}
      (bytes : UInt64) (a : AcknowledgementDecorator (StackState σ levels)) :
      StackCalled w outOfRange fuel (.acknowledgement maxBufferSize own :: levels) a
        (a.acknowledge bytes).2
  | setAutoAck {maxBufferSize : UInt64} {own : Bool} {levels : List Level}
      (autoack : Bool) (a : AcknowledgementDecorator (StackState σ levels)) :
      StackCalled w outOfRange fuel (.acknowledgement maxBufferSize own :: levels) a
        (a.setAutoAck autoack)
  | inner {level : Level} {levels : List Level} {st : StackState σ (level :: levels)}
      {s : StackState σ levels} (call : StackCalled w outOfRange fuel levels st.wrapped s) :
      StackCalled w outOfRange fuel (level :: levels) st (st.rewrap s)

end LibSiot
