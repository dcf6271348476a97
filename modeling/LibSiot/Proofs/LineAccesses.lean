/-
Module: LibSiot.Proofs.LineAccesses
Purpose: When the line splitter reads outside the remainder: at an empty line, and only
  there.  The reads of each call are those of the lines that it splits, and the lines of
  a run are the ones of the bytes drawn.
Trusted boundary: none
Main exports: LineBufferDecorator.accesses, LineBufferDecorator.StaysInside,
  LineBufferDecorator.staysInside_iff
-/
import LibSiot.Proofs.LineBuffer

namespace LibSiot

universe u

namespace LineBufferDecorator

variable {σ : Type u} {w : Connection σ} {outOfRange : UInt8} {fuel : Nat}

/-! ### The splitting loop -/

theorem inside_before (before : Bytes) (length : Nat) (shorter : before.length ≤ length) :
    (Access.character (indexBefore before.length) length).inside = true ↔ before ≠ [] := by
  cases before with
  | nil => simp [indexBefore, Access.inside]
  | cons first before =>
      simp only [List.length_cons] at shorter
      simpa [indexBefore, Access.inside] using shorter

/-- The reads of the loop are inside the remainder exactly if no line in it is empty. -/
theorem splitAccesses_inside_iff (remainder : Bytes) : ∀ fuel, remainder.length ≤ fuel →
    ((∀ access ∈ splitAccesses fuel remainder, access.inside = true) ↔
      [] ∉ Segments.terminated LF remainder) := by
  induction remainder using Segments.segmentwise LF with
  | clean remainder clean =>
      intro fuel _
      have absent : remainder.idxOf? LF = none := List.idxOf?_eq_none_iff.mpr clean
      have none : splitAccesses fuel remainder = [] := by
        cases fuel with
        | zero => rfl
        | succ fuel => rw [splitAccesses, absent]
      rw [none, Segments.terminated_of_notMem LF clean]
      simp
  | segment before after clean ih =>
      intro fuel enough
      have longer : before.length + 1 ≤ (before ++ LF :: after).length := by simp
      simp only [List.length_append, List.length_cons] at enough
      obtain ⟨fuel, rfl⟩ : ∃ n, fuel = n + 1 := ⟨fuel - 1, by omega⟩
      simp only [splitAccesses, idxOf?_first clean, drop_first before after, List.forall_mem_cons]
      rw [inside_before before _ (Nat.le_of_succ_le longer), ih fuel (by omega),
        Segments.terminated_first LF clean, List.mem_cons, not_or, ne_comm]
      have start : (Access.substr 0 (before ++ LF :: after).length).inside = true := by
        simp [Access.inside]
      have tail : (Access.substr (before.length + 1) (before ++ LF :: after).length).inside =
          true := decide_eq_true longer
      simp only [start, tail, true_and]

/-- Where no line is empty the loop does not depend on what is in front of the string. -/
theorem splitLines_same {remainder : Bytes} (nonempty : [] ∉ Segments.terminated LF remainder)
    (byte other : UInt8) (lines : List Bytes) :
    splitLines other remainder.length remainder lines =
      splitLines byte remainder.length remainder lines := by
  rw [splitLines_spec remainder (absurd · nonempty) _ lines (Nat.le_refl _),
    splitLines_spec remainder (absurd · nonempty) _ lines (Nat.le_refl _)]

/-! ### One call -/

/-- The reads of the remainder in a call. -/
def callAccesses (w : Connection σ) (fuel : Nat) (lb : LineBufferDecorator σ) :
    ReadCall → List Access
  | .receive _ _ => lb.receiveAccesses w fuel
  | .isEOF => []

/-- A call that left `lb'` drew bytes that end `lines`, and split these. -/
structure CallReads (w : Connection σ) (outOfRange : UInt8) (fuel : Nat) (i : ReadCall)
    (lb lb' : LineBufferDecorator (Recorded σ)) (lines : List Bytes) : Prop where
  remainder : lb'.remainder = Segments.rest LF lb'.wrapped.drawn
  terminated : Segments.terminated LF lb'.wrapped.drawn =
    Segments.terminated LF lb.wrapped.drawn ++ lines
  inside : (∀ access ∈ lb.callAccesses (recorded w) fuel i, access.inside = true) ↔ [] ∉ lines
  same : [] ∉ lines → ∀ other, (lineBufferDecorator (recorded w) other fuel).answer i lb =
    (lineBufferDecorator (recorded w) outOfRange fuel).answer i lb

theorem popLine_returned (lb : LineBufferDecorator σ) :
    ∃ line lb', popLine lb = .returned line lb' := by
  rw [popLine]
  split
  · exact ⟨_, _, rfl⟩
  · exact ⟨_, _, rfl⟩

/-- A call that draws nothing and splits nothing. -/
theorem CallReads.idle {i : ReadCall} {lb lb' : LineBufferDecorator (Recorded σ)}
    (remainder : lb.remainder = Segments.rest LF lb.wrapped.drawn)
    (kept : lb'.remainder = lb.remainder) (drawn : lb'.wrapped.drawn = lb.wrapped.drawn)
    (none : lb.callAccesses (recorded w) fuel i = [])
    (same : ∀ other, (lineBufferDecorator (recorded w) other fuel).answer i lb =
      (lineBufferDecorator (recorded w) outOfRange fuel).answer i lb) :
    CallReads w outOfRange fuel i lb lb' [] where
  remainder := by rw [kept, remainder, drawn]
  terminated := by rw [drawn, List.append_nil]
  inside := by rw [none]; simp
  same _ := same

/-- A `Receive` that splits what the filling loop left. -/
theorem answer_of_filled {lb filled : LineBufferDecorator σ} (empty : lb.remainingLines = [])
    (filling : fill w fuel lb = .returned () filled) (outOfRange : UInt8) (ignored : UInt64)
    (flags : UInt32) :
    ∃ line lb', lb'.wrapped = filled.wrapped ∧
      lb'.remainder = Segments.rest LF filled.remainder ∧
      (lineBufferDecorator w outOfRange fuel).answer (.receive ignored flags) lb =
        .returned (.received line) lb' := by
  obtain ⟨line, lb', popped⟩ := popLine_returned
    { filled with
      remainder :=
        (splitLines outOfRange filled.remainder.length filled.remainder filled.remainingLines).1
      remainingLines :=
        (splitLines outOfRange filled.remainder.length filled.remainder filled.remainingLines).2 }
  obtain ⟨wrapped, remainder⟩ := popLine_eq_returned popped
  refine ⟨line, lb', wrapped, ?_, ?_⟩
  · rw [remainder]
    exact splitLines_rest _ _ _ (Nat.le_refl _)
  · simp only [Connection.answer, lineBufferDecorator, receive, if_pos empty, filling, popped]

/-- Every call that ended. -/
theorem callReads {i : ReadCall} {lb lb' : LineBufferDecorator (Recorded σ)}
    (remainder : lb.remainder = Segments.rest LF lb.wrapped.drawn)
    (left : ((lineBufferDecorator (recorded w) outOfRange fuel).answer i lb).left = some lb') :
    ∃ lines, CallReads w outOfRange fuel i lb lb' lines := by
  cases i with
  | isEOF =>
      cases left
      exact ⟨[], .idle remainder rfl rfl rfl fun _ => rfl⟩
  | receive ignored flags =>
      by_cases empty : lb.remainingLines = []
      · cases filling : fill (recorded w) fuel lb with
        | running =>
            simp [Connection.answer, lineBufferDecorator, receive, empty, filling,
              Outcome.left] at left
        | threw error thrown =>
            -- The remainder holds no newline, so nothing was ended, and nothing is split.
            have threw : ∀ other, (lineBufferDecorator (recorded w) other fuel).answer
                (.receive ignored flags) lb = .threw error thrown := by
              intro other
              simp only [Connection.answer, lineBufferDecorator, receive, if_pos empty, filling]
            rw [threw] at left
            cases left
            obtain ⟨filled, clean⟩ := (fill_spec fuel).2 error lb' filling
            obtain ⟨terminated, kept⟩ := filled.terminated_of_clean remainder clean
            refine ⟨[], kept, terminated.trans (List.append_nil _).symm, ?_, fun _ other => ?_⟩
            · simp [callAccesses, receiveAccesses, empty, filling]
            · rw [threw, threw]
        | returned _ filled =>
            obtain ⟨line, popped, wrapped, kept, call⟩ :=
              answer_of_filled empty filling outOfRange ignored flags
            rw [call] at left
            cases left
            obtain ⟨terminated, rest⟩ :=
              ((fill_spec fuel).1 filled filling).terminated remainder
            refine ⟨Segments.terminated LF filled.remainder, ?_, ?_, ?_, ?_⟩
            · rw [kept, wrapped, rest]
            · rw [wrapped, terminated]
            · simp only [callAccesses, receiveAccesses, if_pos empty, filling]
              exact splitAccesses_inside_iff filled.remainder _ (Nat.le_refl _)
            · intro nonempty other
              have split := splitLines_same nonempty outOfRange other filled.remainingLines
              simp only [Connection.answer, lineBufferDecorator, receive, if_pos empty, filling,
                split]
      · -- A line is queued: nothing is drawn.
        obtain ⟨line, popped, call⟩ := popLine_returned lb
        have queued : ∀ other, (lineBufferDecorator (recorded w) other fuel).answer
            (.receive ignored flags) lb = .returned (.received line) popped := by
          intro other
          simp only [Connection.answer, lineBufferDecorator, receive, if_neg empty, call]
        rw [queued] at left
        cases left
        obtain ⟨wrapped, kept⟩ := popLine_eq_returned call
        refine ⟨[], .idle remainder kept (by rw [wrapped]) ?_ fun other => ?_⟩
        · simp only [callAccesses, receiveAccesses, if_neg empty]
        · rw [queued, queued]

/-! ### Any sequence of calls -/

/-- The reads of the remainder in a sequence of calls. -/
def accesses (w : Connection σ) (outOfRange : UInt8) (fuel : Nat) :
    List ReadCall → LineBufferDecorator σ → List Access
  | [], _ => []
  | i :: is, lb =>
      lb.callAccesses w fuel i ++
        match ((lineBufferDecorator w outOfRange fuel).answer i lb).left with
        | some lb' => accesses w outOfRange fuel is lb'
        | none => []

/-- The calls read the remainder only inside of it, and nothing of what they return and
leave depends on what is in front of it. -/
structure StaysInside (w : Connection σ) (outOfRange : UInt8) (fuel : Nat)
    (calls : List ReadCall) (lb : LineBufferDecorator σ) : Prop where
  inside : ∀ access ∈ lb.accesses w outOfRange fuel calls, access.inside = true
  same : ∀ other, callAll (lineBufferDecorator w other fuel).answer calls lb =
    callAll (lineBufferDecorator w outOfRange fuel).answer calls lb

/-- A run that leads to `last` drew bytes that end `lines`, and split these. -/
structure RunReads (w : Connection σ) (outOfRange : UInt8) (fuel : Nat) (calls : List ReadCall)
    (lb last : LineBufferDecorator (Recorded σ)) (lines : List Bytes) : Prop where
  terminated : Segments.terminated LF last.wrapped.drawn =
    Segments.terminated LF lb.wrapped.drawn ++ lines
  inside : (∀ access ∈ lb.accesses (recorded w) outOfRange fuel calls, access.inside = true) ↔
    [] ∉ lines
  same : [] ∉ lines → ∀ other,
    callAll (lineBufferDecorator (recorded w) other fuel).answer calls lb =
      callAll (lineBufferDecorator (recorded w) outOfRange fuel).answer calls lb

/-- A call, and the run after it. -/
theorem CallReads.run {i : ReadCall} {calls : List ReadCall}
    {lb next last : LineBufferDecorator (Recorded σ)} {first later : List Bytes}
    (reads : CallReads w outOfRange fuel i lb next first)
    (left : ((lineBufferDecorator (recorded w) outOfRange fuel).answer i lb).left = some next)
    (rest : RunReads w outOfRange fuel calls next last later) :
    RunReads w outOfRange fuel (i :: calls) lb last (first ++ later) where
  terminated := by rw [rest.terminated, reads.terminated, List.append_assoc]
  inside := by
    rw [accesses, left, List.forall_mem_append, List.mem_append, not_or]
    exact and_congr reads.inside rest.inside
  same nonempty other := by
    rw [List.mem_append, not_or] at nonempty
    exact callAll_cons_congr (reads.same nonempty.1 other) left (rest.same nonempty.2 other)

/-- A sequence of calls, from where only the last segment is in the remainder. -/
theorem runReads {calls : List ReadCall} {lb last : LineBufferDecorator (Recorded σ)}
    {results : List (Except ClientConnectionException ReadResult)}
    (run : callAll (lineBufferDecorator (recorded w) outOfRange fuel).answer calls lb =
      some (results, last))
    (remainder : lb.remainder = Segments.rest LF lb.wrapped.drawn) :
    ∃ lines, RunReads w outOfRange fuel calls lb last lines := by
  revert remainder
  refine callAll_left_induction
    (fun lb calls last => lb.remainder = Segments.rest LF lb.wrapped.drawn →
      ∃ lines, RunReads w outOfRange fuel calls lb last lines) ?_ ?_ run
  · intro lb _
    exact ⟨[], (List.append_nil _).symm, by simp [accesses], fun _ _ => rfl⟩
  · intro lb i next calls last left ih remainder
    obtain ⟨first, reads⟩ := callReads remainder left
    obtain ⟨later, rest⟩ := ih reads.remainder
    exact ⟨first ++ later, reads.run left rest⟩

/-- Whatever the wrapped connection does (any chunks, empty results, exceptions), a run of
calls reads only inside the remainder exactly if none of the lines drawn is empty. -/
theorem staysInside_iff (w : Connection σ) (s : σ) (own : Bool) (calls : List ReadCall)
    {results : List (Except ClientConnectionException ReadResult)}
    {lb : LineBufferDecorator (Recorded σ)}
    (run : callAll (lineBufferDecorator (recorded w) outOfRange fuel).answer calls
      (new (Recorded.start s) own) = some (results, lb)) :
    StaysInside (recorded w) outOfRange fuel calls (new (Recorded.start s) own) ↔
      [] ∉ Segments.terminated LF lb.wrapped.drawn := by
  obtain ⟨lines, terminated, inside, same⟩ := runReads run rfl
  obtain rfl : Segments.terminated LF lb.wrapped.drawn = lines := terminated
  constructor
  · intro stays
    exact inside.mp stays.inside
  · intro nonempty
    exact ⟨inside.mpr nonempty, same nonempty⟩

/-- A line buffer over a socket with `input`, which the first `recv` delivers at once. -/
def socketLines (input : Bytes) : LineBufferDecorator (Recorded UnixSocketConnection) :=
  new (Recorded.start (UnixSocketConnection.new input [⟨.bytes 16, 1⟩] 0)) true

theorem staysInside_of_nonempty :
    StaysInside (recorded unixSocketConnection) 0 3 [.receive 0 0, .isEOF, .receive 0 0]
      (socketLines [97, 13, 10, 98, 10]) := by
  have run : callAll (lineBufferDecorator (recorded unixSocketConnection) 0 3).answer
      [.receive 0 0, .isEOF, .receive 0 0] (socketLines [97, 13, 10, 98, 10]) =
      some ([.ok (.received [97, 10]), .ok (.atEnd false), .ok (.received [98, 10])],
        { wrapped :=
            { inner := { input := [], replies := [], eof := false, lastUse := 1 }
              requests := [sizeMax]
              drawn := [97, 13, 10, 98, 10] }
          owned := true
          remainder := []
          remainingLines := [] }) := by
    rfl
  exact (staysInside_iff unixSocketConnection _ true _ run).mpr (by decide)

/-- An empty line is the first thing that comes: the character in front of the remainder is
read, and decides whether the line has one newline or two. -/
theorem staysInside_fails :
    (socketLines [10]).accesses (recorded unixSocketConnection) 0 3 [.receive 0 0] =
        [.character none 1, .substr 0 1, .substr 1 1] ∧
      (callAll (lineBufferDecorator (recorded unixSocketConnection) 0 3).answer
          [.receive 0 0] (socketLines [10])).map Prod.fst = some [.ok (.received [10])] ∧
      (callAll (lineBufferDecorator (recorded unixSocketConnection) CR 3).answer
          [.receive 0 0] (socketLines [10])).map Prod.fst = some [.ok (.received [10, 10])] ∧
      ¬ StaysInside (recorded unixSocketConnection) 0 3 [.receive 0 0] (socketLines [10]) := by
  refine ⟨rfl, rfl, rfl, fun stays => ?_⟩
  have outside := stays.inside (.character none 1) (by decide)
  cases outside

end LineBufferDecorator

end LibSiot
