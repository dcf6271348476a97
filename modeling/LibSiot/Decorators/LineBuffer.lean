/-
Module: LibSiot.Decorators.LineBuffer
Purpose: `LineBufferDecorator` as the source computes it: the loop that fills
  the remainder, the loop that splits it, and the line queue.
Trusted boundary: human-reviewed model
Main exports: LineBufferDecorator, LineBufferDecorator.receive,
  LineBufferDecorator.receiveAccesses, LineBufferDecorator.isEOF,
  lineBufferDecorator
-/
import LibSiot.Connection

namespace LibSiot

universe u

/-- Fields of class `LineBufferDecorator`. -/
structure LineBufferDecorator (σ : Type u) where
  wrapped : σ
  owned : Bool
  remainder : Bytes
  remainingLines : List Bytes
deriving Repr, DecidableEq

namespace LineBufferDecorator

variable {σ : Type u}

/-- The constructor. -/
def new (wrapped : σ) (own : Bool) : LineBufferDecorator σ :=
  { wrapped := wrapped, owned := own, remainder := [], remainingLines := [] }

/-- The first loop of `Receive`: read from the wrapped connection until the
remainder holds a newline, the connection is at its end, or nothing comes.
`fuel` bounds the turns of this model; the loop of the source has no bound. -/
def fill (w : Connection σ) :
    Nat → LineBufferDecorator σ → Outcome (LineBufferDecorator σ) Unit
  | 0, _ => .running
  | fuel + 1, lb =>
      if LF ∈ lb.remainder then .returned () lb
      else
        match w.isEOF lb.wrapped with
        | (true, s) => .returned () { lb with wrapped := s }
        | (false, s) =>
            match w.receive sizeMax 0 s with
            | .running => .running
            | .threw error s => .threw error { lb with wrapped := s }
            | .returned data s =>
                if data.length > 0 then
                  fill w fuel { lb with wrapped := s, remainder := lb.remainder ++ data }
                else .returned () { lb with wrapped := s }

/-- The read `remainder_[sz-1]`.  At `sz = 0` the index wraps round to
`SIZE_MAX` and the read is outside the string; `outOfRange` is what it yields. -/
def beforeNewline (outOfRange : UInt8) (remainder : Bytes) : Nat → UInt8
  | 0 => outOfRange
  | i + 1 => remainder.getD i outOfRange

/-- `remainder_.substr(0, sz-1)`.  At `sz = 0` the count is `npos`. -/
def substrBeforeCR (remainder : Bytes) : Nat → Bytes
  | 0 => remainder
  | i + 1 => remainder.take i

/-- The second loop of `Receive`: move the complete lines of the remainder to
the queue.  Every turn takes at least the newline off the remainder, so its
length is fuel enough. -/
def splitLines (outOfRange : UInt8) : Nat → Bytes → List Bytes → Bytes × List Bytes
  | 0, remainder, lines => (remainder, lines)
  | fuel + 1, remainder, lines =>
      match remainder.idxOf? LF with
      | none => (remainder, lines)
      | some sz =>
          let line :=
            if beforeNewline outOfRange remainder sz = CR then substrBeforeCR remainder sz
            else remainder.take sz
          splitLines outOfRange fuel (remainder.drop (sz + 1)) (lines ++ [line])

/-- A read of the remainder in the splitting loop, when it is `length` bytes long:
of the character at an index, which is `none` where `sz-1` wraps round to
`SIZE_MAX`, or by `substr` from a position on. -/
inductive Access where
  | character (index : Option Nat) (length : Nat)
  | substr (start length : Nat)
deriving Repr, DecidableEq

/-- The read is inside the string. -/
def Access.inside : Access → Bool
  | character index length => index.any (· < length)
  | substr start length => start ≤ length

/-- The index `sz-1`. -/
def indexBefore : Nat → Option Nat
  | 0 => none
  | i + 1 => some i

/-- The reads of the second loop of `Receive`, which goes round as in
`splitLines`. -/
def splitAccesses : Nat → Bytes → List Access
  | 0, _ => []
  | fuel + 1, remainder =>
      match remainder.idxOf? LF with
      | none => []
      | some sz =>
          .character (indexBefore sz) remainder.length :: .substr 0 remainder.length ::
            .substr (sz + 1) remainder.length :: splitAccesses fuel (remainder.drop (sz + 1))

/-- The end of `Receive`: give up with an empty string, or hand out the first
queued line. -/
def popLine (lb : LineBufferDecorator σ) : Outcome (LineBufferDecorator σ) Bytes :=
  match lb.remainingLines with
  | [] => .returned [] lb
  | line :: lines => .returned (line ++ [LF]) { lb with remainingLines := lines }

/-- `LineBufferDecorator::Receive`; both arguments are ignored by the source. -/
def receive (w : Connection σ) (outOfRange : UInt8) (fuel : Nat) (_ignored : UInt64)
    (_flags : UInt32) (lb : LineBufferDecorator σ) :
    Outcome (LineBufferDecorator σ) Bytes :=
  if lb.remainingLines = [] then
    match fill w fuel lb with
    | .running => .running
    | .threw error lb => .threw error lb
    | .returned _ lb =>
        let split := splitLines outOfRange lb.remainder.length lb.remainder lb.remainingLines
        popLine { lb with remainder := split.1, remainingLines := split.2 }
  else popLine lb

/-- The reads of the remainder in a call of `Receive`. -/
def receiveAccesses (w : Connection σ) (fuel : Nat) (lb : LineBufferDecorator σ) :
    List Access :=
  if lb.remainingLines = [] then
    match fill w fuel lb with
    | .returned _ lb => splitAccesses lb.remainder.length lb.remainder
    | _ => []
  else []

/-- `LineBufferDecorator::IsEOF`. -/
def isEOF (w : Connection σ) (lb : LineBufferDecorator σ) :
    Bool × LineBufferDecorator σ :=
  ((w.isEOF lb.wrapped).1 && lb.remainingLines.isEmpty,
    { lb with wrapped := (w.isEOF lb.wrapped).2 })

end LineBufferDecorator

/-- The decorated connection as an object of its own. -/
def lineBufferDecorator {σ : Type u} (w : Connection σ) (outOfRange : UInt8)
    (fuel : Nat) : Connection (LineBufferDecorator σ) where
  receive := LineBufferDecorator.receive w outOfRange fuel
  isEOF := LineBufferDecorator.isEOF w

end LibSiot
