/-
Module: LibSiot.Proofs.LineBuffer
Purpose: The line buffer is the reference line splitter of what was drawn from
  the wrapped connection, however that was cut into chunks.  The two buffers
  are read back as the lines and the rest of the drawn bytes; a chunk is
  handled by the append laws of `Segments`, and the induction over the calls is
  the one of `callAll_invariant`.
Trusted boundary: none
Main exports: shownLines, delivered, LineBufferDecorator.Splits,
  LineBufferDecorator.receive_splits_stream, LineBufferDecorator.noDataLost_iff,
  LineBufferDecorator.receive_mono
-/
import LibSiot.Library.Segments
import LibSiot.Decorators.LineBuffer
import LibSiot.Decorators.RangeReader
import LibSiot.UnixSocketConnection

namespace LibSiot

universe u

/-- A line without the one CR that stood directly before its LF. -/
def dropCR (line : Bytes) : Bytes :=
  if line.getLast? = some CR then line.dropLast else line

/-- The reference line splitter: the LF-terminated segments of a stream in
order, each as a caller is to see it. -/
def shownLines (stream : Bytes) : List Bytes :=
  (Segments.terminated LF stream).map fun line => dropCR line ++ [LF]

/-- The non-empty results among those of a sequence of calls. -/
def delivered (results : List (Except ClientConnectionException Bytes)) : List Bytes :=
  (returnedValues results).filter fun line => line ≠ []

namespace LineBufferDecorator

variable {σ : Type u} {w : Connection σ} {outOfRange : UInt8}

/-! ### The splitting loop -/

theorem idxOf?_first {before : Bytes} (clean : LF ∉ before) (after : Bytes) :
    (before ++ LF :: after).idxOf? LF = some before.length := by
  rw [List.idxOf?_eq_some_iff]
  refine ⟨by simp, by simp, ?_⟩
  intro j shorter
  rw [List.getElem_append_left shorter]
  intro equal
  exact clean (equal ▸ List.getElem_mem shorter)

theorem drop_first (before after : Bytes) :
    (before ++ LF :: after).drop (before.length + 1) = after := by
  rw [List.drop_append]
  simp

/-- One turn of the loop takes off the first line as the reference shows it.  Only for an
empty line it matters what is in front of the string. -/
theorem splitLines_line {before : Bytes} (noCR : before = [] → outOfRange ≠ CR)
    (clean : LF ∉ before) (after : Bytes) (fuel : Nat) (lines : List Bytes) :
    splitLines outOfRange (fuel + 1) (before ++ LF :: after) lines =
      splitLines outOfRange fuel after (lines ++ [dropCR before]) := by
  simp only [splitLines, idxOf?_first clean, drop_first before after]
  congr 2
  simp only [List.cons.injEq, and_true]
  rcases List.eq_nil_or_concat before with rfl | ⟨init, last, rfl⟩
  · simp [beforeNewline, dropCR, noCR rfl]
  · have byte : (init ++ [last] ++ LF :: after).getD init.length outOfRange = last := by
      simp [List.getD_eq_getElem?_getD]
    simp only [List.concat_eq_append, List.length_append, List.length_singleton,
      beforeNewline, byte, substrBeforeCR, dropCR, List.getLast?_append_cons,
      List.getLast?_singleton, Option.some.injEq, List.dropLast_concat]
    by_cases equal : last = CR
    · simp [equal]
    · simp [equal, List.take_append, List.take_of_length_le]

theorem splitLines_of_clean {remainder : Bytes} (clean : LF ∉ remainder) (fuel : Nat)
    (lines : List Bytes) : splitLines outOfRange fuel remainder lines = (remainder, lines) := by
  have absent : remainder.idxOf? LF = none := List.idxOf?_eq_none_iff.mpr clean
  cases fuel with
  | zero => rfl
  | succ fuel => rw [splitLines, absent]

theorem splitLines_spec (remainder : Bytes)
    (noCR : [] ∈ Segments.terminated LF remainder → outOfRange ≠ CR) :
    ∀ (fuel : Nat) (lines : List Bytes), remainder.length ≤ fuel →
      splitLines outOfRange fuel remainder lines =
        (Segments.rest LF remainder,
          lines ++ (Segments.terminated LF remainder).map dropCR) := by
  induction remainder using Segments.segmentwise LF with
  | clean remainder clean =>
      intro fuel lines _
      rw [splitLines_of_clean clean, Segments.rest_of_notMem LF clean,
        Segments.terminated_of_notMem LF clean]
      simp
  | segment before after clean ih =>
      intro fuel lines enough
      simp only [List.length_append, List.length_cons] at enough
      obtain ⟨fuel, rfl⟩ : ∃ n, fuel = n + 1 := ⟨fuel - 1, by omega⟩
      rw [Segments.terminated_first LF clean] at noCR
      rw [splitLines_line (fun empty => noCR (empty ▸ List.mem_cons_self)) clean,
        ih (fun later => noCR (List.mem_cons_of_mem _ later)) fuel _ (by omega),
        Segments.rest_first LF clean, Segments.terminated_first LF clean]
      simp

/-- Whatever the loop reads in front of the string, it leaves what follows the last
newline. -/
theorem splitLines_rest (remainder : Bytes) :
    ∀ (fuel : Nat) (lines : List Bytes), remainder.length ≤ fuel →
      (splitLines outOfRange fuel remainder lines).1 = Segments.rest LF remainder := by
  induction remainder using Segments.segmentwise LF with
  | clean remainder clean =>
      intro fuel lines _
      rw [splitLines_of_clean clean, Segments.rest_of_notMem LF clean]
  | segment before after clean ih =>
      intro fuel lines enough
      simp only [List.length_append, List.length_cons] at enough
      obtain ⟨fuel, rfl⟩ : ∃ n, fuel = n + 1 := ⟨fuel - 1, by omega⟩
      simp only [splitLines, idxOf?_first clean, drop_first before after,
        Segments.rest_first LF clean]
      exact ih fuel _ (by omega)

theorem splitLines_clean (remainder : Bytes) (fuel : Nat) (lines : List Bytes)
    (enough : remainder.length ≤ fuel) :
    LF ∉ (splitLines outOfRange fuel remainder lines).1 := by
  rw [splitLines_rest remainder fuel lines enough]
  exact Segments.notMem_rest LF remainder

/-! ### The filling loop -/

/-- What the filling loop does to the two buffers: everything it draws goes to
the end of the remainder, and it never reads on past a newline. -/
structure Filled (lb lb' : LineBufferDecorator (Recorded σ)) : Prop where
  grown : ∃ more, lb'.wrapped.drawn = lb.wrapped.drawn ++ more ∧
    lb'.remainder = lb.remainder ++ more
  queue : lb'.remainingLines = lb.remainingLines

theorem Filled.of_drawn_eq {lb : LineBufferDecorator (Recorded σ)} {r : Recorded σ}
    (same : r.drawn = lb.wrapped.drawn) : Filled lb { lb with wrapped := r } :=
  ⟨⟨[], by simp [same], by simp⟩, rfl⟩

theorem Filled.trans {lb lb' lb'' : LineBufferDecorator (Recorded σ)}
    (first : Filled lb lb') (second : Filled lb' lb'') : Filled lb lb'' := by
  obtain ⟨⟨more, drawn, remainder⟩, queue⟩ := first
  obtain ⟨⟨more', drawn', remainder'⟩, queue'⟩ := second
  exact ⟨⟨more ++ more', by simp [drawn', drawn], by simp [remainder', remainder]⟩,
    queue'.trans queue⟩

/-- What was drawn ends the lines of the grown remainder. -/
theorem Filled.terminated {lb lb' : LineBufferDecorator (Recorded σ)} (filled : Filled lb lb')
    (remainder : lb.remainder = Segments.rest LF lb.wrapped.drawn) :
    Segments.terminated LF lb'.wrapped.drawn =
        Segments.terminated LF lb.wrapped.drawn ++ Segments.terminated LF lb'.remainder ∧
      Segments.rest LF lb'.wrapped.drawn = Segments.rest LF lb'.remainder := by
  obtain ⟨⟨more, drawn, grown⟩, _⟩ := filled
  rw [drawn, grown, remainder]
  exact ⟨Segments.terminated_append LF _ more, Segments.rest_append LF _ more⟩

/-- Without a newline in the remainder nothing was ended. -/
theorem Filled.terminated_of_clean {lb lb' : LineBufferDecorator (Recorded σ)}
    (filled : Filled lb lb') (remainder : lb.remainder = Segments.rest LF lb.wrapped.drawn)
    (clean : LF ∉ lb'.remainder) :
    Segments.terminated LF lb'.wrapped.drawn = Segments.terminated LF lb.wrapped.drawn ∧
      lb'.remainder = Segments.rest LF lb'.wrapped.drawn := by
  obtain ⟨terminated, rest⟩ := filled.terminated remainder
  rw [Segments.terminated_of_notMem LF clean, List.append_nil] at terminated
  rw [Segments.rest_of_notMem LF clean] at rest
  exact ⟨terminated, rest.symm⟩

/-- One turn of the filling loop, as far as it does not go round again. -/
theorem fill_spec (fuel : Nat) {lb : LineBufferDecorator (Recorded σ)} :
    (∀ lb', fill (recorded w) fuel lb = .returned () lb' → Filled lb lb') ∧
    (∀ error lb', fill (recorded w) fuel lb = .threw error lb' →
      Filled lb lb' ∧ LF ∉ lb'.remainder) := by
  induction fuel generalizing lb with
  | zero => simp [fill]
  | succ fuel ih =>
      simp only [fill]
      split
      · refine ⟨?_, by simp⟩
        rintro lb' ⟨⟩
        exact Filled.of_drawn_eq rfl
      · rename_i clean
        split
        · rename_i atEnd
          refine ⟨?_, by simp⟩
          rintro lb' ⟨⟩
          exact Filled.of_drawn_eq (recorded_isEOF atEnd).1
        · rename_i r more
          have sameDrawn : r.drawn = lb.wrapped.drawn := (recorded_isEOF more).1
          split
          · simp
          · rename_i error r' threw
            refine ⟨by simp, ?_⟩
            rintro error' lb' ⟨⟩
            exact ⟨Filled.of_drawn_eq ((recorded_threw threw).1.trans sameDrawn), clean⟩
          · rename_i data r' returned
            have drawn := (recorded_returned returned).1
            split
            · -- A chunk came: the rest of the loop starts with it appended.
              have chunk : Filled lb
                  { lb with wrapped := r', remainder := lb.remainder ++ data } :=
                ⟨⟨data, by simp [drawn, sameDrawn], rfl⟩, rfl⟩
              obtain ⟨onReturn, onThrow⟩ :=
                @ih { lb with wrapped := r', remainder := lb.remainder ++ data }
              exact ⟨fun lb' done => chunk.trans (onReturn lb' done),
                fun error lb' thrown =>
                  ⟨chunk.trans (onThrow error lb' thrown).1, (onThrow error lb' thrown).2⟩⟩
            · rename_i empty
              have nothing : data = [] := by
                simpa using empty
              refine ⟨?_, by simp⟩
              rintro lb' ⟨⟩
              exact Filled.of_drawn_eq (by simp [drawn, sameDrawn, nothing])

/-! ### The history invariant -/

/-- The two buffers against the whole history: what was handed out and what is
queued are the lines of the drawn bytes, the remainder is the rest of them. -/
structure Splits (results : List (Except ClientConnectionException Bytes))
    (lb : LineBufferDecorator (Recorded σ)) : Prop where
  lines : delivered results ++ lb.remainingLines.map (· ++ [LF]) =
    shownLines lb.wrapped.drawn
  remainder : lb.remainder = Segments.rest LF lb.wrapped.drawn

theorem Splits.new (s : σ) (own : Bool) : Splits [] (new (Recorded.start s) own) :=
  ⟨rfl, rfl⟩

theorem delivered_error (results : List (Except ClientConnectionException Bytes))
    (error : ClientConnectionException) :
    delivered (results ++ [.error error]) = delivered results := by
  simp [delivered]

theorem popLine_ne_threw (lb : LineBufferDecorator σ) {lb' : LineBufferDecorator σ}
    (error : ClientConnectionException) : popLine lb ≠ .threw error lb' := by
  rw [popLine]
  split <;> simp

theorem popLine_eq_returned {lb lb' : LineBufferDecorator σ} {line : Bytes}
    (call : popLine lb = .returned line lb') :
    lb'.wrapped = lb.wrapped ∧ lb'.remainder = lb.remainder := by
  rw [popLine] at call
  split at call
  · cases call
    exact ⟨rfl, rfl⟩
  · cases call
    exact ⟨rfl, rfl⟩

/-- Handing out a line moves it from the queue to the results; an empty result
means there was none. -/
theorem Splits.popLine {results : List (Except ClientConnectionException Bytes)}
    {lb lb' : LineBufferDecorator (Recorded σ)} {line : Bytes} (splits : Splits results lb)
    (call : popLine lb = .returned line lb') :
    Splits (results ++ [.ok line]) lb' ∧ (line = [] → lb'.remainingLines = []) := by
  obtain ⟨lines, remainder⟩ := splits
  rw [LineBufferDecorator.popLine] at call
  split at call
  · rename_i empty
    cases call
    refine ⟨⟨?_, remainder⟩, fun _ => empty⟩
    simpa [delivered] using lines
  · rename_i first rest queue
    cases call
    refine ⟨⟨?_, remainder⟩, by simp⟩
    rw [queue] at lines
    simpa [delivered] using lines

/-- Splitting after filling: the queue was empty, so the lines of the drawn
bytes beyond those handed out are the ones in the grown remainder. -/
theorem Splits.split {results : List (Except ClientConnectionException Bytes)}
    {lb lb' : LineBufferDecorator (Recorded σ)} (noCR : outOfRange ≠ CR)
    (splits : Splits results lb) (empty : lb.remainingLines = []) (filled : Filled lb lb') :
    Splits results
      { lb' with
        remainder := (splitLines outOfRange lb'.remainder.length lb'.remainder
          lb'.remainingLines).1
        remainingLines := (splitLines outOfRange lb'.remainder.length lb'.remainder
          lb'.remainingLines).2 } := by
  obtain ⟨lines, remainder⟩ := splits
  obtain ⟨terminated, rest⟩ := filled.terminated remainder
  rw [empty, List.map_nil, List.append_nil] at lines
  rw [splitLines_spec _ (fun _ => noCR) _ _ (Nat.le_refl _)]
  constructor
  · simp only [filled.queue, empty, List.nil_append, shownLines, terminated, List.map_append,
      List.map_map]
    rw [lines]
    rfl
  · exact rest.symm

/-- An exception out of the filling loop leaves a remainder with no line in it,
so the history is still split right. -/
theorem Splits.threw {results : List (Except ClientConnectionException Bytes)}
    {lb lb' : LineBufferDecorator (Recorded σ)} (splits : Splits results lb)
    (filled : Filled lb lb') (clean : LF ∉ lb'.remainder)
    (error : ClientConnectionException) : Splits (results ++ [.error error]) lb' := by
  obtain ⟨lines, remainder⟩ := splits
  obtain ⟨terminated, kept⟩ := filled.terminated_of_clean remainder clean
  refine ⟨?_, kept⟩
  rw [delivered_error, filled.queue, lines, shownLines, shownLines, terminated]

/-- One call of `Receive` that returns. -/
theorem Splits.receive_returned {results : List (Except ClientConnectionException Bytes)}
    {lb lb' : LineBufferDecorator (Recorded σ)} {line : Bytes} {fuel : Nat}
    {ignored : UInt64} {flags : UInt32} (noCR : outOfRange ≠ CR) (splits : Splits results lb)
    (call : receive (recorded w) outOfRange fuel ignored flags lb = .returned line lb') :
    Splits (results ++ [.ok line]) lb' ∧ (line = [] → lb'.remainingLines = []) := by
  rw [receive] at call
  split at call
  · rename_i empty
    split at call
    · cases call
    · cases call
    · rename_i _ filled fill_returned
      have split := splits.split noCR empty ((fill_spec fuel).1 filled fill_returned)
      exact split.popLine call
  · exact splits.popLine call

/-- One call of `Receive` that throws. -/
theorem Splits.receive_threw {results : List (Except ClientConnectionException Bytes)}
    {lb lb' : LineBufferDecorator (Recorded σ)} {error : ClientConnectionException}
    {fuel : Nat} {ignored : UInt64} {flags : UInt32} (splits : Splits results lb)
    (call : receive (recorded w) outOfRange fuel ignored flags lb = .threw error lb') :
    Splits (results ++ [.error error]) lb' := by
  rw [receive] at call
  split at call
  · split at call
    · cases call
    · rename_i error' thrown fill_threw
      cases call
      obtain ⟨filled, clean⟩ := (fill_spec fuel).2 error lb' fill_threw
      exact splits.threw filled clean error
    · exact absurd call (popLine_ne_threw _ _)
  · exact absurd call (popLine_ne_threw _ _)

/-- Whatever the wrapped connection does (any chunks, empty results, exceptions
between chunks), after any number of `Receive` calls the non-empty results and
the queue are the lines of the bytes drawn so far, in order, and the remainder
is what follows the last LF; a call gives the empty string only when all these
lines were handed out. -/
theorem receive_splits_stream (w : Connection σ) (noCR : outOfRange ≠ CR) (s : σ)
    (own : Bool) (calls : List (Nat × UInt64 × UInt32))
    {results : List (Except ClientConnectionException Bytes)}
    {lb : LineBufferDecorator (Recorded σ)}
    (run : callAll
      (fun call => receive (recorded w) outOfRange call.1 call.2.1 call.2.2)
      calls (LineBufferDecorator.new (Recorded.start s) own) = some (results, lb)) :
    delivered results ++ lb.remainingLines.map (· ++ [LF]) =
        shownLines lb.wrapped.drawn ∧
      lb.remainder = Segments.rest LF lb.wrapped.drawn ∧
      (results.getLast? = some (.ok []) →
        delivered results = shownLines lb.wrapped.drawn) := by
  have history : Splits results lb ∧
      (results.getLast? = some (.ok []) → lb.remainingLines = []) := by
    refine callAll_invariant
      (fun results lb => Splits results lb ∧
        (results.getLast? = some (.ok []) → lb.remainingLines = []))
      ?_ ?_ ⟨Splits.new s own, by simp⟩ run
    · intro results lb call line lb' invariant returned
      obtain ⟨splits, exhausted⟩ := invariant.1.receive_returned noCR returned
      exact ⟨splits, by simpa using exhausted⟩
    · intro results lb call error lb' invariant threw
      exact ⟨invariant.1.receive_threw threw, by simp⟩
  obtain ⟨⟨lines, remainder⟩, exhausted⟩ := history
  refine ⟨lines, remainder, fun last => ?_⟩
  rw [exhausted last] at lines
  simpa using lines

/-- Three reads of a socket that delivers `a\r`, then `\n\nb`, then `EAGAIN`: two
lines and an empty string, with `b` left over. -/
theorem receive_splits_crlf_across_chunks :
    delivered [.ok [97, 10], .ok [10], .ok []] ++ [] = shownLines [97, 13, 10, 10, 98] ∧
      [98] = Segments.rest LF [97, 13, 10, 10, 98] ∧
      (([.ok [97, 10], .ok [10], .ok []] :
          List (Except ClientConnectionException Bytes)).getLast? = some (.ok []) →
        delivered [.ok [97, 10], .ok [10], .ok []] = shownLines [97, 13, 10, 10, 98]) := by
  have run : callAll
      (fun call => receive (recorded unixSocketConnection) 0 call.1 call.2.1 call.2.2)
      [(3, 0, 0), (3, 0, 0), (3, 0, 0)]
      (new (Recorded.start (UnixSocketConnection.new [97, 13, 10, 10, 98]
        [⟨.bytes 2, 1⟩, ⟨.bytes 9, 2⟩, ⟨.error .EAGAIN, 3⟩] 0)) true) =
      some ([.ok [97, 10], .ok [10], .ok []],
        { wrapped :=
            { inner := { input := [], replies := [], eof := false, lastUse := 3 }
              requests := [sizeMax, sizeMax, sizeMax]
              drawn := [97, 13, 10, 10, 98] }
          owned := true
          remainder := [98]
          remainingLines := [] }) := by
    rfl
  exact receive_splits_stream unixSocketConnection (by decide) _ true _ run

/-! ### Reading to the end of file -/

theorem Splits.asked {results : List (Except ClientConnectionException Bytes)}
    {lb lb' : LineBufferDecorator (Recorded σ)} {atEnd : Bool} (splits : Splits results lb)
    (call : isEOF (recorded w) lb = (atEnd, lb')) : Splits results lb' := by
  cases call
  exact ⟨splits.lines, splits.remainder⟩

/-- At the end of file every line was handed out, but the remainder was not. -/
theorem Splits.atEnd {results : List (Except ClientConnectionException Bytes)}
    {lb lb' : LineBufferDecorator (Recorded σ)} (splits : Splits results lb)
    (call : isEOF (recorded w) lb = (true, lb')) :
    delivered results = shownLines lb'.wrapped.drawn ∧
      lb'.remainder = Segments.rest LF lb'.wrapped.drawn := by
  have after := splits.asked call
  simp only [isEOF, Prod.mk.injEq, Bool.and_eq_true, List.isEmpty_iff] at call
  obtain ⟨⟨_, empty⟩, rfl⟩ := call
  have lines := after.lines
  rw [empty] at lines
  exact ⟨by simpa using lines, after.remainder⟩

/-- All of `stream` as a caller who reads to the end of file is to see it: its
lines, and then the segment without an LF if there is one. -/
def shownSegments (stream : Bytes) : List Bytes :=
  shownLines stream ++
    if Segments.rest LF stream = [] then [] else [Segments.rest LF stream]

/-- Nothing of the drawn bytes was left out: the results show all of them and
the remainder holds no more. -/
def NoDataLost (results : List (Except ClientConnectionException Bytes))
    (lb : LineBufferDecorator (Recorded σ)) : Prop :=
  delivered results = shownSegments lb.wrapped.drawn ∧ lb.remainder = []

instance (results : List (Except ClientConnectionException Bytes))
    (lb : LineBufferDecorator (Recorded σ)) : Decidable (NoDataLost results lb) :=
  inferInstanceAs (Decidable (_ ∧ _))

/-- A caller who reads until `IsEOF()` got everything exactly if the stream is
empty or ends in an LF.  Otherwise the last segment is still in the remainder,
where no call will take it from. -/
theorem noDataLost_iff (w : Connection σ) (noCR : outOfRange ≠ CR) (s : σ) (own : Bool)
    (fuel turns : Nat) {results : List (Except ClientConnectionException Bytes)}
    {lb : LineBufferDecorator (Recorded σ)}
    (run : consume (lineBufferDecorator (recorded w) outOfRange fuel) turns
      (LineBufferDecorator.new (Recorded.start s) own) = some (results, lb)) :
    NoDataLost results lb ↔
      lb.wrapped.drawn = [] ∨ lb.wrapped.drawn.getLast? = some LF := by
  have history : ∃ t, Splits results t ∧
      isEOF (recorded w) t = (true, lb) := by
    apply consume_invariant Splits ?_ ?_ ?_ (Splits.new s own) run
    · intro results lb atEnd lb' splits asked
      exact splits.asked asked
    · intro results lb line lb' splits returned
      have call : receive (recorded w) outOfRange fuel sizeMax 0 lb = .returned line lb' :=
        returned
      exact (splits.receive_returned noCR call).1
    · intro results lb error lb' splits threw
      have call : receive (recorded w) outOfRange fuel sizeMax 0 lb = .threw error lb' :=
        threw
      exact splits.receive_threw call
  obtain ⟨_, splits, atEnd⟩ := history
  obtain ⟨lines, remainder⟩ := splits.atEnd atEnd
  rw [← Segments.rest_eq_nil_iff, NoDataLost, lines, remainder, shownSegments]
  constructor
  · exact And.right
  · intro empty
    exact ⟨by simp [empty], empty⟩

/-- A line buffer over a range of `max` bytes of a socket with `input`, which
the first `recv` delivers at once, read to the end of file. -/
def consumeRange (input : Bytes) (max : UInt64) :=
  consume
    (lineBufferDecorator (recorded (rangeReaderDecorator unixSocketConnection)) 0 3) 3
    (LineBufferDecorator.new
      (Recorded.start (RangeReaderDecorator.new
        (UnixSocketConnection.new input [⟨.bytes 16, 1⟩] 0) max false)) true)

/-- The line buffer when the loop has ended. -/
def rangeConsumed (input : Bytes) (max : UInt64) (remainder : Bytes) :
    LineBufferDecorator (Recorded (RangeReaderDecorator UnixSocketConnection)) where
  wrapped :=
    { inner :=
        { wrapped := { input := [], replies := [], eof := false, lastUse := 1 }
          owned := false
          maxSize := max
          offset := max }
      requests := [sizeMax]
      drawn := input }
  owned := true
  remainder := remainder
  remainingLines := []

/-- The range `a\r\nb\n`: nothing is lost. -/
theorem noDataLost_of_final_newline :
    NoDataLost [.ok [97, 10], .ok [98, 10]] (rangeConsumed [97, 13, 10, 98, 10] 5 []) ↔
      ([97, 13, 10, 98, 10] : Bytes) = [] ∨
        ([97, 13, 10, 98, 10] : Bytes).getLast? = some LF := by
  have run : consumeRange [97, 13, 10, 98, 10] 5 =
      some ([.ok [97, 10], .ok [98, 10]], rangeConsumed [97, 13, 10, 98, 10] 5 []) := by
    rfl
  exact noDataLost_iff (rangeReaderDecorator unixSocketConnection) (by decide) _ true 3 3 run

/-- The range `a\nb`: the caller gets `a\n` and then the end of file. -/
theorem noDataLost_fails :
    consumeRange [97, 10, 98] 3 = some ([.ok [97, 10]], rangeConsumed [97, 10, 98] 3 [98]) ∧
      ¬ NoDataLost [.ok [97, 10]] (rangeConsumed [97, 10, 98] 3 [98]) :=
  ⟨rfl, by decide⟩

/-! ### Fuel

A call that ends with some fuel ends in the same way with more. -/

theorem fill_mono {fuel more : Nat} (enough : fuel ≤ more)
    {lb : LineBufferDecorator σ} (ended : fill w fuel lb ≠ .running) :
    fill w more lb = fill w fuel lb := by
  induction fuel generalizing more lb with
  | zero => exact absurd rfl ended
  | succ fuel ih =>
      obtain ⟨more, rfl⟩ : ∃ n, more = n + 1 := ⟨more - 1, by omega⟩
      simp only [fill] at ended ⊢
      split
      · rfl
      · split
        · rfl
        · split
          · rfl
          · rfl
          · rename_i clean _ _ notAtEnd _ data s received
            split
            · rename_i nonempty
              apply ih (by omega)
              simpa [clean, notAtEnd, received, nonempty] using ended
            · rfl

theorem receive_mono {fuel more : Nat} (enough : fuel ≤ more) {ignored : UInt64}
    {flags : UInt32} {lb : LineBufferDecorator σ}
    (ended : receive w outOfRange fuel ignored flags lb ≠ .running) :
    receive w outOfRange more ignored flags lb =
      receive w outOfRange fuel ignored flags lb := by
  simp only [receive] at ended ⊢
  split
  · rename_i empty
    have fill_ended : fill w fuel lb ≠ .running := by
      intro running
      simp [empty, running] at ended
    rw [fill_mono enough fill_ended]
  · rfl

end LineBufferDecorator

end LibSiot
