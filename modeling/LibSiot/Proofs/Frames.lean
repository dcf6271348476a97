/-
Module: LibSiot.Proofs.Frames
Purpose: A connection read frame by frame: for each frame a range reader that does
  not own the connection, some reads of it, and its `Shutdown`, which eats what
  they left.  However much of a frame is read, the next one begins where it
  ends.
Trusted boundary: none
Main exports: Frame, readFrame, readFrames, InFrames, readFrame_slice,
  readFrames_in_step
-/
import LibSiot.Proofs.RangeReader
import LibSiot.Proofs.StackAgreement

namespace LibSiot

universe u

open Stream' (Seq)

/-- One frame of a connection: how long it is, and the reads that a program makes of it. -/
structure Frame where
  size : UInt64
  lens : List UInt64
deriving Repr, DecidableEq

section Frames

variable {σ : Type u}

/-- A range reader on the connection, which it does not own, the reads, and `Shutdown`.  There
is no result if a call has not returned, or if `Shutdown` was left by an exception. -/
def readFrame (w : Connection σ) (wrappedShutdown : σ → Outcome σ Unit) (fuel : Nat)
    (frame : Frame) (s : σ) : Option (List (Except ClientConnectionException Bytes) × σ) :=
  match callAll (fun len => RangeReaderDecorator.receive w len 0) frame.lens
      (.new s frame.size false) with
  | none => none
  | some (results, r) =>
      match r.shutdown w wrappedShutdown fuel with
      | .returned () r => some (results, r.wrapped)
      | _ => none

/-- Frame after frame on one connection. -/
def readFrames (w : Connection σ) (wrappedShutdown : σ → Outcome σ Unit) (fuel : Nat) :
    List Frame → σ → Option (List (List (Except ClientConnectionException Bytes)) × σ)
  | [], s => some ([], s)
  | frame :: frames, s =>
      match readFrame w wrappedShutdown fuel frame s with
      | none => none
      | some (results, s) =>
          (readFrames w wrappedShutdown fuel frames s).map fun rest =>
            (results :: rest.1, rest.2)

/-- What was read of each frame is a front of its own slice of the stream. -/
def InFrames (S : Seq UInt8) :
    List Frame → List (List (Except ClientConnectionException Bytes)) → Prop
  | [], [] => True
  | frame :: frames, results :: rest =>
      (∃ d ≤ frame.size.toNat, (returnedValues results).flatten = S.take d) ∧
        InFrames (S.drop frame.size.toNat) frames rest
  | _, _ => False

/-- The length of some frames together. -/
def framed (frames : List Frame) : Nat :=
  (frames.map fun frame => frame.size.toNat).sum

variable {w : Connection σ} {working : σ → Prop} {pending : σ → Seq UInt8}
  {wrappedShutdown : σ → Outcome σ Unit} {fuel : Nat}

/-- No call changes whether the range reader owns what it wraps. -/
theorem receive_owned {len : UInt64} {flags : UInt32} {r r' : RangeReaderDecorator σ}
    (left : (r.receive w len flags).left = some r') : r'.owned = r.owned := by
  rw [RangeReaderDecorator.receive] at left
  split at left
  · cases left
    rfl
  · split at left
    · cases left
    · cases left
      rfl
    · split at left <;> cases left <;> rfl

theorem reads_owned {lens : List UInt64} {r r' : RangeReaderDecorator σ}
    {results : List (Except ClientConnectionException Bytes)}
    (run : callAll (fun len => RangeReaderDecorator.receive w len 0) lens r = some (results, r')) :
    r'.owned = r.owned := by
  refine callAll_left_induction (fun r _ r' => r'.owned = r.owned) (fun _ => rfl) ?_ run
  intro r len t lens r' left rest
  exact rest.trans (receive_owned left)

theorem drain_owned {r r' : RangeReaderDecorator σ}
    (drained : r.drain w fuel = .returned () r') : r'.owned = r.owned := by
  induction fuel generalizing r with
  | zero => cases drained
  | succ fuel ih =>
      simp only [RangeReaderDecorator.drain] at drained
      split at drained
      · cases drained
        rfl
      · split at drained
        · cases drained
          rfl
        · split at drained
          · cases drained
          · cases drained
          · rw [ih drained]

/-- What a frame that was read comes to: reads, and a draining loop that ended. -/
theorem readFrame_eq_some {frame : Frame} {s s' : σ}
    {results : List (Except ClientConnectionException Bytes)}
    (run : readFrame w wrappedShutdown fuel frame s = some (results, s')) :
    ∃ r r' : RangeReaderDecorator σ,
      callAll (fun len => RangeReaderDecorator.receive w len 0) frame.lens
        (.new s frame.size false) = some (results, r) ∧
      r.drain w fuel = .returned () r' ∧ r'.wrapped = s' := by
  rw [readFrame] at run
  split at run
  · cases run
  · rename_i results' r reads
    split at run
    · rename_i r' shut
      cases run
      have notOwned : r.owned = false := reads_owned reads
      rw [RangeReaderDecorator.shutdown] at shut
      split at shut
      · cases shut
      · cases shut
      · rename_i r'' drained
        have notOwned' : r''.owned = false := (drain_owned drained).trans notOwned
        rw [notOwned'] at shut
        cases shut
        exact ⟨r, _, reads, drained, rfl⟩
    · cases run

/-- The same with its reads recorded. -/
theorem readFrame_recorded {frame : Frame} {s s' : σ}
    {results : List (Except ClientConnectionException Bytes)}
    (run : readFrame w wrappedShutdown fuel frame s = some (results, s')) :
    ∃ r r' : RangeReaderDecorator (Recorded σ),
      callAll (fun len => RangeReaderDecorator.receive (recorded w) len 0) frame.lens
        (.new (Recorded.start s) frame.size false) = some (results, r) ∧
      r.drain (recorded w) fuel = .returned () r' ∧ r'.wrapped.inner = s' := by
  obtain ⟨t, t', reads, drained, rfl⟩ := readFrame_eq_some run
  have agrees := recorded_agrees w
  have step : ∀ len r t, RangeReaderDecorator.Over (fun (r : Recorded σ) s => r.inner = s) r t →
      (r.receive (recorded w) len 0).Agree
        (RangeReaderDecorator.Over fun (r : Recorded σ) s => r.inner = s) (t.receive w len 0) :=
    fun len _ _ related => (RangeReaderDecorator.agrees agrees).receive len 0 related
  have related : RangeReaderDecorator.Over (fun (r : Recorded σ) s => r.inner = s)
      (.new (Recorded.start s) frame.size false) (.new s frame.size false) :=
    ⟨rfl, rfl, rfl, rfl⟩
  rcases callAll_agree _ step related with ⟨_, none⟩ | ⟨results', r, t'', first, second, last⟩
  · rw [reads] at none
    cases none
  · rw [reads] at second
    cases second
    have ends := RangeReaderDecorator.drain_agrees agrees fuel last
    rw [drained] at ends
    generalize drained' : r.drain (recorded w) fuel = outcome at ends
    cases ends with
    | @returned _ r' _ ended => exact ⟨r, r', first, drained', ended.wrapped⟩

/-- A frame that was read leaves the connection at its end, or at the end of the stream, and
what was read of it is a front of the frame. -/
theorem readFrame_slice (honours : Honours w working pending) {frame : Frame} {s s' : σ}
    {results : List (Except ClientConnectionException Bytes)} (works : working s)
    (run : readFrame w wrappedShutdown fuel frame s = some (results, s')) :
    working s' ∧ pending s' = (pending s).drop frame.size.toNat ∧
      ∃ d ≤ frame.size.toNat, (returnedValues results).flatten = (pending s).take d := by
  obtain ⟨r, r', reads, drained, rfl⟩ := readFrame_recorded run
  obtain ⟨position, all, size, _⟩ :=
    (RangeReaderDecorator.Position.new works frame.size false).calls honours reads
  obtain ⟨last, same, stopped⟩ := position.drain_returned honours fuel drained
  have size : r.maxSize = frame.size := size
  have bounded := last.bounded
  rw [same, size] at stopped bounded
  refine ⟨last.working, ?_, r.wrapped.drawn.length, ?_, ?_⟩
  · rw [last.pending]
    rcases stopped with whole | used
    · rw [whole]
    · -- The stream is used up, so there is nothing behind the frame either.
      obtain ⟨left, split⟩ := Nat.exists_eq_add_of_le bounded
      rw [used, split, Seq.dropn_add, used, Seq.drop_nil]
  · rw [← size]
    exact position.bounded
  · have delivered : r.wrapped.drawn = (returnedValues results).flatten := all
    rw [← delivered]
    exact position.drawn

/-- However much of each frame is read, by whatever lengths, what is read of the next one
begins where it begins. -/
theorem readFrames_in_step (honours : Honours w working pending) {frames : List Frame}
    {s s' : σ} {results : List (List (Except ClientConnectionException Bytes))}
    (works : working s)
    (run : readFrames w wrappedShutdown fuel frames s = some (results, s')) :
    InFrames (pending s) frames results ∧ pending s' = (pending s).drop (framed frames) := by
  induction frames generalizing s results with
  | nil =>
      cases run
      exact ⟨trivial, rfl⟩
  | cons frame frames ih =>
      rw [readFrames] at run
      split at run
      · cases run
      · rename_i first t read
        obtain ⟨⟨rest, last⟩, later, equal⟩ := Option.map_eq_some_iff.mp run
        cases equal
        obtain ⟨works', behind, slice⟩ := readFrame_slice honours works read
        obtain ⟨inFrames, left⟩ := ih works' later
        rw [behind] at inFrames left
        refine ⟨⟨slice, inFrames⟩, ?_⟩
        rw [left, ← Seq.dropn_add, framed, framed, List.map_cons, List.sum_cons]

end Frames

/-- Of a frame of three bytes one is read, of the next both, and of the last its only one. -/
theorem readFrames_in_step_of_three :
    ∃ c, InFrames (Seq.ofList [1, 2, 3, 4, 5, 6])
        [⟨3, [1]⟩, ⟨2, [0, 0]⟩, ⟨1, [9]⟩]
        [[.ok [1]], [.ok [4], .ok [5]], [.ok [6]]] ∧
      Seq.ofList (UnixSocketConnection.input c) =
        (Seq.ofList [1, 2, 3, 4, 5, 6]).drop
          (framed [⟨3, [1]⟩, ⟨2, [0, 0]⟩, ⟨1, [9]⟩]) := by
  have run : ∃ c, readFrames unixSocketConnection UnixSocketConnection.shutdown 9
      [⟨3, [1]⟩, ⟨2, [0, 0]⟩, ⟨1, [9]⟩]
      (UnixSocketConnection.new [1, 2, 3, 4, 5, 6] (List.replicate 9 ⟨.bytes 1, 1⟩) 0) =
      some ([[.ok [1]], [.ok [4], .ok [5]], [.ok [6]]], c) :=
    ⟨_, rfl⟩
  obtain ⟨c, run⟩ := run
  refine ⟨c, readFrames_in_step UnixSocketConnection.honours ⟨rfl, ?_⟩ run⟩
  intro reply member
  rw [List.eq_of_mem_replicate member]
  decide

end LibSiot
