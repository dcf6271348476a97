/-
Module: LibSiot.Proofs.StackStream
Purpose: What a stack of any depth gives of the stream below it, whatever the
  reads of its bottom do: they may be short or empty, fail, throw, or report an
  end that is none.  Each level keeps to a front of the pieces that the stack
  gives of the stream; that no level loses, repeats or reorders one is carried
  from level to level, and then along a run of calls.
Trusted boundary: none
Main exports: Hands, Streams, received, Streams.run, stack_streams,
  stack_delivers_front, stack_delivers_all, range_overrun
-/
import LibSiot.Proofs.EndOfFileReached

namespace LibSiot

universe u

open UnixSocketConnection (single)

/-! ### Handing out pieces -/

/-- A read of `k` bytes hands out the first `count` of the pieces to come, and leaves a
front of those behind them.  It hands out more than one only of single bytes, and then no
more than asked for. -/
structure Hands (before : List Bytes) (k : UInt64) (count : Nat) (data : Bytes)
    (after : List Bytes) : Prop where
  data : data = (before.take count).flatten
  after : after <+: before.drop count
  grain : count ≤ 1 ∨ (k ≠ 0 → count ≤ k.toNat) ∧ ∀ piece ∈ before, piece.length = 1

theorem Hands.nothing {before after : List Bytes} (k : UInt64) (front : after <+: before) :
    Hands before k 0 [] after :=
  ⟨rfl, front, Or.inl (Nat.zero_le 1)⟩

/-- Of one piece at most: there may have been more to come. -/
theorem Hands.mono {before before' after : List Bytes} {k : UInt64} {count : Nat} {data : Bytes}
    (hands : Hands before' k count data after) (one : count ≤ 1) (front : before' <+: before) :
    ∃ count, Hands before k count data after := by
  obtain ⟨more, rfl⟩ := front
  cases before' with
  | nil =>
      refine ⟨0, ?_, ?_, Or.inl (Nat.zero_le 1)⟩
      · simpa using hands.data
      · have none : after = [] := by simpa using hands.after
        rw [none]
        exact List.nil_prefix
  | cons piece pieces =>
      have within : count ≤ (piece :: pieces).length := by
        rw [List.length_cons]
        omega
      refine ⟨count, ?_, ?_, Or.inl one⟩
      · rw [List.take_append_of_le_length within]
        exact hands.data
      · rw [List.drop_append_of_le_length within]
        exact hands.after.trans (List.prefix_append _ _)

theorem Hands.flatten {before after : List Bytes} {k : UInt64} {count : Nat} {data : Bytes}
    (hands : Hands before k count data after) : data ++ after.flatten <+: before.flatten := by
  obtain ⟨lost, rest⟩ := hands.after
  refine ⟨lost.flatten, ?_⟩
  rw [hands.data, List.append_assoc, ← List.flatten_append, rest, ← List.flatten_append,
    List.take_append_drop]

/-- A front of the bytes to come is so many of them. -/
theorem Hands.of_bytes {input rest data : Bytes} {k : UInt64} (split : data ++ rest = input)
    (short : k ≠ 0 → data.length ≤ k.toNat) :
    Hands (single input) k data.length data (single rest) := by
  refine ⟨?_, ?_, Or.inr ⟨short, by simp [single]⟩⟩
  · rw [← split, UnixSocketConnection.take_single]
  · rw [← split]
    simp only [single, ← List.map_drop, List.drop_left]
    exact List.prefix_rfl

/-- What reads of a connection do, in the states of `live` that no call leaves: they give a
front of the coming `pieces`, one after the other.  A call may lose pieces, but never such
that one behind them still comes. -/
structure Streams {σ : Type u} (w : Connection σ) (live : σ → Prop)
    (pieces : σ → List Bytes) : Prop where
  isEOF : ∀ {s s' : σ} {atEnd : Bool}, live s → w.isEOF s = (atEnd, s') →
    live s' ∧ pieces s' <+: pieces s
  receive : ∀ {k : UInt64} {flags : UInt32} {s s' : σ} {data : Bytes}, live s →
    flags &&& MSG_PEEK = 0 → w.receive k flags s = .returned data s' →
      live s' ∧ ∃ count, Hands (pieces s) k count data (pieces s')
  threw : ∀ {k : UInt64} {flags : UInt32} {s s' : σ} {error : ClientConnectionException},
    live s → flags &&& MSG_PEEK = 0 → w.receive k flags s = .threw error s' →
      live s' ∧ pieces s' <+: pieces s

/-! ### A run of calls -/

/-- The strings that the `Receive` calls of a run returned. -/
def received (results : List (Except ClientConnectionException ReadResult)) : List Bytes :=
  (returnedValues results).filterMap fun
    | .received data => some data
    | .atEnd _ => none

@[simp] theorem received_nil : received [] = [] := rfl

@[simp] theorem received_error_cons (error : ClientConnectionException)
    (results : List (Except ClientConnectionException ReadResult)) :
    received (.error error :: results) = received results := rfl

@[simp] theorem received_received_cons (data : Bytes)
    (results : List (Except ClientConnectionException ReadResult)) :
    received (.ok (.received data) :: results) = data :: received results := rfl

@[simp] theorem received_atEnd_cons (ended : Bool)
    (results : List (Except ClientConnectionException ReadResult)) :
    received (.ok (.atEnd ended) :: results) = received results := rfl

@[simp] theorem received_append
    (first second : List (Except ClientConnectionException ReadResult)) :
    received (first ++ second) = received first ++ received second := by
  simp [received]

/-- The call takes what it returns: it does not peek. -/
def ReadCall.Takes : ReadCall → Prop
  | .receive _ flags => flags &&& MSG_PEEK = 0
  | .isEOF => True

instance (call : ReadCall) : Decidable call.Takes := by
  cases call <;> unfold ReadCall.Takes <;> infer_instance

/-- Each result is made of whole pieces; these follow each other as in `pieces`, and `rest`
goes on behind them. -/
structure Grouped (pieces : List Bytes) (results : List Bytes) (groups : List (List Bytes))
    (rest : List Bytes) : Prop where
  results : results = groups.map List.flatten
  front : groups.flatten ++ rest <+: pieces

theorem Grouped.nil (pieces : List Bytes) : Grouped pieces [] [] pieces :=
  ⟨rfl, by simp⟩

/-- Less may come at first, or in the end. -/
theorem Grouped.mono {pieces pieces' results rest : List Bytes} {groups : List (List Bytes)}
    (grouped : Grouped pieces' results groups rest) (front : pieces' <+: pieces) :
    Grouped pieces results groups rest :=
  ⟨grouped.results, grouped.front.trans front⟩

theorem Grouped.cons {pieces after results rest : List Bytes} {groups : List (List Bytes)}
    {k : UInt64} {count : Nat} {data : Bytes} (hands : Hands pieces k count data after)
    (grouped : Grouped after results groups rest) :
    Grouped pieces (data :: results) (pieces.take count :: groups) rest := by
  constructor
  · rw [List.map_cons, ← hands.data, ← grouped.results]
  · rw [List.flatten_cons, List.append_assoc]
    have behind := List.prefix_append_right_inj (pieces.take count) |>.mpr
      (grouped.front.trans hands.after)
    rwa [List.take_append_drop] at behind

/-- A run gives a front of the pieces to come, in groups. -/
theorem Streams.run {σ : Type u} {w : Connection σ} {live : σ → Prop}
    {pieces : σ → List Bytes} (streams : Streams w live pieces) {calls : List ReadCall}
    (taking : ∀ call ∈ calls, call.Takes) {s s' : σ}
    {results : List (Except ClientConnectionException ReadResult)} (lives : live s)
    (run : callAll w.answer calls s = some (results, s')) :
    live s' ∧ ∃ groups, Grouped (pieces s) (received results) groups (pieces s') := by
  refine callAll_induction (fun s calls results s' => (∀ call ∈ calls, call.Takes) → live s →
    live s' ∧ ∃ groups, Grouped (pieces s) (received results) groups (pieces s'))
    ?_ ?_ ?_ run taking lives
  · intro s _ lives
    exact ⟨lives, [], .nil _⟩
  · intro s call value t calls results s' answered ih taking lives
    have later := fun i member => taking i (List.mem_cons_of_mem call member)
    cases call with
    | isEOF =>
        cases answered
        obtain ⟨lives', front⟩ := streams.isEOF lives rfl
        obtain ⟨last, groups, grouped⟩ := ih later lives'
        exact ⟨last, groups, grouped.mono front⟩
    | receive len flags =>
        have consumes : flags &&& MSG_PEEK = 0 := taking _ List.mem_cons_self
        simp only [Connection.answer] at answered
        split at answered
        · cases answered
        · cases answered
        · rename_i data s'' call
          cases answered
          obtain ⟨lives', count, hands⟩ := streams.receive lives consumes call
          obtain ⟨last, groups, grouped⟩ := ih later lives'
          exact ⟨last, _, .cons hands grouped⟩
  · intro s call error t calls results s' answered ih taking lives
    have later := fun i member => taking i (List.mem_cons_of_mem call member)
    cases call with
    | isEOF => cases answered
    | receive len flags =>
        have consumes : flags &&& MSG_PEEK = 0 := taking _ List.mem_cons_self
        simp only [Connection.answer] at answered
        split at answered
        · cases answered
        · rename_i thrown s'' call
          cases answered
          obtain ⟨lives', front⟩ := streams.threw lives consumes call
          obtain ⟨last, groups, grouped⟩ := ih later lives'
          exact ⟨last, groups, grouped.mono front⟩
        · cases answered

/-! ### The line buffer -/

namespace LineBufferDecorator

variable {σ : Type u} {w : Connection σ} {live : σ → Prop} {below : σ → List Bytes}
  {outOfRange : UInt8} {fuel : Nat}

theorem shownLines_mono {xs ys : Bytes} (front : xs <+: ys) :
    shownLines xs <+: shownLines ys := by
  obtain ⟨more, rfl⟩ := front
  rw [shownLines, shownLines, Segments.terminated_append, List.map_append]
  exact List.prefix_append _ _

/-- Fewer bytes below, or behind the remainder, give a front of the lines. -/
theorem pieces_mono {lb lb' : LineBufferDecorator σ}
    (queue : lb'.remainingLines = lb.remainingLines)
    (bytes : lb'.remainder ++ (below lb'.wrapped).flatten <+:
      lb.remainder ++ (below lb.wrapped).flatten) :
    pieces below lb' <+: pieces below lb := by
  rw [pieces, pieces, queue]
  exact (List.prefix_append_right_inj _).mpr (shownLines_mono bytes)

theorem flatten_mono {xs ys : List Bytes} (front : xs <+: ys) : xs.flatten <+: ys.flatten := by
  obtain ⟨more, rfl⟩ := front
  rw [List.flatten_append]
  exact List.prefix_append _ _

/-- What the filling loop leaves, whether it returned or an exception ended it. -/
structure Drew (live : σ → Prop) (below : σ → List Bytes)
    (lb lb' : LineBufferDecorator σ) : Prop where
  lives : live lb'.wrapped
  queue : lb'.remainingLines = lb.remainingLines
  bytes : lb'.remainder ++ (below lb'.wrapped).flatten <+:
    lb.remainder ++ (below lb.wrapped).flatten

/-- What a call below returned is behind the remainder. -/
theorem Drew.wrapped {lb : LineBufferDecorator σ} {s : σ} {data : Bytes} (lives : live s)
    (front : data ++ (below s).flatten <+: (below lb.wrapped).flatten) :
    Drew live below lb { lb with wrapped := s, remainder := lb.remainder ++ data } := by
  refine ⟨lives, rfl, ?_⟩
  rw [List.append_assoc]
  exact (List.prefix_append_right_inj _).mpr front

/-- A call below that returned nothing. -/
theorem Drew.silent {lb : LineBufferDecorator σ} {s : σ} (lives : live s)
    (front : (below s).flatten <+: (below lb.wrapped).flatten) :
    Drew live below lb { lb with wrapped := s } :=
  ⟨lives, rfl, (List.prefix_append_right_inj _).mpr front⟩

theorem Drew.trans {lb lb' lb'' : LineBufferDecorator σ} (first : Drew live below lb lb')
    (second : Drew live below lb' lb'') : Drew live below lb lb'' :=
  ⟨second.lives, second.queue.trans first.queue, second.bytes.trans first.bytes⟩

theorem fill_drew (streams : Streams w live below) {lb : LineBufferDecorator σ}
    (lives : live lb.wrapped) :
    (∀ lb', fill w fuel lb = .returned () lb' → Drew live below lb lb') ∧
      ∀ error lb', fill w fuel lb = .threw error lb' →
        Drew live below lb lb' ∧ LF ∉ lb'.remainder := by
  induction fuel generalizing lb with
  | zero => simp [fill]
  | succ fuel ih =>
      simp only [fill]
      split
      · constructor
        · rintro lb' ⟨⟩
          exact .silent lives List.prefix_rfl
        · rintro error lb' ⟨⟩
      · rename_i clean
        split
        · rename_i s asked
          obtain ⟨lives', front⟩ := streams.isEOF lives asked
          constructor
          · rintro lb' ⟨⟩
            exact .silent lives' (flatten_mono front)
          · rintro error lb' ⟨⟩
        · rename_i s asked
          obtain ⟨lives', front⟩ := streams.isEOF lives asked
          split
          · constructor
            · rintro lb' ⟨⟩
            · rintro error lb' ⟨⟩
          · rename_i error s' thrown
            obtain ⟨lives'', front'⟩ := streams.threw lives' (by decide) thrown
            constructor
            · rintro lb' ⟨⟩
            · rintro error' lb' ⟨⟩
              exact ⟨.silent lives'' (flatten_mono (front'.trans front)), clean⟩
          · rename_i data s' received
            obtain ⟨lives'', count, hands⟩ := streams.receive lives' (by decide) received
            have bytes := hands.flatten.trans (flatten_mono front)
            split
            · obtain ⟨returned, threw⟩ :=
                @ih { lb with wrapped := s', remainder := lb.remainder ++ data } lives''
              have moved : Drew live below lb
                  { lb with wrapped := s', remainder := lb.remainder ++ data } :=
                .wrapped lives'' bytes
              constructor
              · intro lb' filled
                exact moved.trans (returned lb' filled)
              · intro error lb' filled
                obtain ⟨drew, clean'⟩ := threw error lb' filled
                exact ⟨moved.trans drew, clean'⟩
            · rename_i empty
              have nothing : data = [] := by simpa using empty
              subst nothing
              constructor
              · rintro lb' ⟨⟩
                exact .silent lives'' bytes
              · rintro error lb' ⟨⟩

/-- Splitting moves the lines of the remainder to the queue: those to come are the same. -/
theorem pieces_afterSplit (noCR : outOfRange ≠ CR) (lb : LineBufferDecorator σ) :
    pieces below (afterSplit outOfRange lb) = pieces below lb := by
  have spec := splitLines_spec lb.remainder (fun _ => noCR) lb.remainder.length
    lb.remainingLines (Nat.le_refl _)
  have lines : shownLines (lb.remainder ++ (below lb.wrapped).flatten) =
      shownLines lb.remainder ++
        shownLines (Segments.rest LF lb.remainder ++ (below lb.wrapped).flatten) := by
    rw [shownLines, Segments.terminated_append, List.map_append]
    rfl
  rw [pieces, pieces, lines, afterSplit, spec, ← List.append_assoc]
  simp only [shownLines, List.map_append, List.map_map]
  rfl

theorem popLine_hands (k : UInt64) {lb lb' : LineBufferDecorator σ} {line : Bytes}
    (call : popLine lb = .returned line lb') :
    ∃ count ≤ 1, Hands (pieces below lb) k count line (pieces below lb') := by
  rw [popLine] at call
  split at call
  · cases call
    exact ⟨0, Nat.zero_le 1, .nothing k List.prefix_rfl⟩
  · rename_i first rest queue
    cases call
    refine ⟨1, Nat.le_refl 1, ?_, ?_, Or.inl (Nat.le_refl 1)⟩
    · simp [pieces, queue]
    · simp [pieces, queue]

theorem streams (noCR : outOfRange ≠ CR) (streams : Streams w live below) :
    Streams (lineBufferDecorator w outOfRange fuel) (Live live) (pieces below) where
  isEOF := by
    intro lb lb' atEnd lives call
    cases call
    obtain ⟨lives', front⟩ := streams.isEOF lives.wrapped rfl
    refine ⟨⟨lives', lives.clean⟩, pieces_mono rfl ?_⟩
    exact (List.prefix_append_right_inj _).mpr (flatten_mono front)
  receive := by
    intro k flags lb lb' line lives _ call
    simp only [lineBufferDecorator, LineBufferDecorator.receive] at call
    split at call
    · split at call
      · cases call
      · cases call
      · rename_i filled returned
        have popped : popLine (afterSplit outOfRange filled) = .returned line lb' := call
        have drew := (fill_drew streams lives.wrapped).1 filled returned
        obtain ⟨sameWrapped, sameRemainder⟩ := popLine_eq_returned popped
        refine ⟨⟨sameWrapped ▸ drew.lives, ?_⟩, ?_⟩
        · exact sameRemainder ▸ splitLines_clean _ _ _ (Nat.le_refl _)
        · obtain ⟨count, one, hands⟩ := popLine_hands k popped
          rw [pieces_afterSplit noCR] at hands
          exact hands.mono one (pieces_mono drew.queue drew.bytes)
    · obtain ⟨sameWrapped, sameRemainder⟩ := popLine_eq_returned call
      obtain ⟨count, _, hands⟩ := popLine_hands k call
      exact ⟨⟨sameWrapped ▸ lives.wrapped, sameRemainder ▸ lives.clean⟩, count, hands⟩
  threw := by
    intro k flags lb lb' error lives _ call
    simp only [lineBufferDecorator, LineBufferDecorator.receive] at call
    split at call
    · split at call
      · cases call
      · rename_i thrown
        cases call
        obtain ⟨drew, clean⟩ := (fill_drew streams lives.wrapped).2 _ _ thrown
        exact ⟨⟨drew.lives, clean⟩, pieces_mono drew.queue drew.bytes⟩
      · exact absurd call (popLine_ne_threw _ _)
    · exact absurd call (popLine_ne_threw _ _)

end LineBufferDecorator

/-! ### The acknowledgement decorator -/

namespace AcknowledgementDecorator

variable {σ : Type u} {w : Connection σ} {live : σ → Prop} {below : σ → List Bytes}

/-- An auto-acknowledging buffer between two calls: it is empty, or has thrown once and
will do so from then on. -/
structure Auto (live : σ → Prop) (a : AcknowledgementDecorator σ) : Prop where
  wrapped : live a.wrapped
  auto : a.autoack = true
  buffer : a.buffer = [] ∨ a.buffer.length > a.maxBufferSize.toNat

/-- What is to come: all that is to come below, or nothing once it has thrown. -/
def front (below : σ → List Bytes) (a : AcknowledgementDecorator σ) : List Bytes :=
  if a.buffer = [] then below a.wrapped else []

theorem front_nil {a : AcknowledgementDecorator σ} (empty : a.buffer = []) :
    front below a = below a.wrapped := if_pos empty

theorem front_over {a : AcknowledgementDecorator σ}
    (beyond : a.buffer.length > a.maxBufferSize.toNat) : front below a = [] := by
  apply if_neg
  rintro empty
  rw [empty] at beyond
  exact absurd beyond (Nat.not_lt_zero _)

/-- A call below that adds nothing to the buffer. -/
theorem front_wrapped {a : AcknowledgementDecorator σ} {s : σ}
    (fewer : below s <+: below a.wrapped) :
    front below { a with wrapped := s } <+: front below a := by
  simp only [front]
  split
  · exact fewer
  · exact List.prefix_rfl

theorem streams (streams : Streams w live below) :
    Streams (acknowledgementDecorator w) (Auto live) (front below) where
  isEOF := by
    intro a a' atEnd lives call
    cases call
    obtain ⟨lives', fewer⟩ := streams.isEOF lives.wrapped rfl
    exact ⟨⟨lives', lives.auto, lives.buffer⟩, front_wrapped fewer⟩
  receive := by
    intro k flags a a' data lives consumes call
    simp only [acknowledgementDecorator, receive_eq] at call
    split at call
    · cases call
    · cases call
    · rename_i more s received
      obtain ⟨lives', count, hands⟩ := streams.receive lives.wrapped consumes received
      split at call
      · cases call
      · rename_i fits
        cases call
        rcases lives.buffer with empty | beyond
        · rw [empty, requestLength_nil] at hands
          refine ⟨⟨lives', lives.auto, Or.inl (if_pos lives.auto)⟩, count, ?_⟩
          rw [front_nil empty, front_nil (if_pos lives.auto), empty]
          exact hands
        · -- Over the limit there is no way to return.
          rw [List.length_append] at fits
          omega
  threw := by
    intro k flags a a' error lives consumes call
    simp only [acknowledgementDecorator, receive_eq] at call
    split at call
    · cases call
    · rename_i thrown s received
      cases call
      obtain ⟨lives', fewer⟩ := streams.threw lives.wrapped consumes received
      exact ⟨⟨lives', lives.auto, lives.buffer⟩, front_wrapped fewer⟩
    · rename_i more s received
      obtain ⟨lives', _⟩ := streams.receive lives.wrapped consumes received
      split at call
      · rename_i beyond
        cases call
        refine ⟨⟨lives', lives.auto, Or.inr beyond⟩, ?_⟩
        rw [front_over beyond]
        exact List.nil_prefix
      · cases call

end AcknowledgementDecorator

/-! ### The range reader -/

namespace RangeReaderDecorator

variable {σ : Type u} {w : Connection σ} {live : σ → Prop} {below : σ → List Bytes}

/-- What begins in the range of fewer pieces are the first of those that do. -/
theorem within_mono (maxSize : UInt64) {offset : UInt64} {xs ys : List Bytes}
    (front : xs <+: ys) : within maxSize offset xs <+: within maxSize offset ys := by
  induction xs generalizing offset ys with
  | nil => exact List.nil_prefix
  | cons piece xs ih =>
      obtain ⟨more, rfl⟩ := front
      rw [List.cons_append, within, within]
      split
      · exact List.prefix_rfl
      · exact (List.prefix_cons_inj piece).mpr (ih (List.prefix_append xs more))

/-- The pieces that one request takes out of `pieces` begin in the range, and what is left of
the range begins behind them. -/
theorem hands_within {r : RangeReaderDecorator σ} {k : UInt64} {count : Nat} {data : Bytes}
    {pieces after : List Bytes} (inside : ¬ r.offset ≥ r.maxSize)
    (hands : Hands pieces (requestLength k r.maxSize r.offset) count data after) :
    Hands (within r.maxSize r.offset pieces) k count data
      (within r.maxSize (r.offset + data.length.toUInt64) after) := by
  obtain ⟨requests, _, atMost⟩ := requestLength_bounds k inside
  have begins : ∀ i < count,
      r.offset + (pieces.take i).flatten.length.toUInt64 < r.maxSize := by
    intro i less
    have takes : Takes pieces (requestLength k r.maxSize r.offset) count _ _ :=
      ⟨rfl, rfl, fun zero => absurd (zero ▸ less) (Nat.not_lt_zero i), hands.grain⟩
    exact takes_inside inside takes i less
  obtain ⟨split, _⟩ := within_take begins
  rw [← hands.data] at split
  have last : pieces.drop count = [] →
      within r.maxSize (r.offset + data.length.toUInt64) (pieces.drop count) = [] := by
    intro none
    rw [none, within]
  obtain ⟨taken, left⟩ := take_drop_append last
  refine ⟨?_, ?_, ?_⟩
  · rw [split, taken]
    exact hands.data
  · rw [split, left]
    exact within_mono r.maxSize hands.after
  · refine hands.grain.imp_right fun bytes => ⟨fun nonzero => ?_, fun piece member => ?_⟩
    · exact Nat.le_trans (bytes.1 requests) (atMost nonzero)
    · exact bytes.2 piece (within_subset member)

theorem streams (streams : Streams w live below) :
    Streams (rangeReaderDecorator w) (fun r => live r.wrapped)
      (fun r => within r.maxSize r.offset (below r.wrapped)) where
  isEOF := by
    intro r r' atEnd lives call
    simp only [rangeReaderDecorator, isEOF] at call
    split at call
    · cases call
      exact ⟨lives, List.prefix_rfl⟩
    · cases call
      obtain ⟨lives', fewer⟩ := streams.isEOF lives rfl
      exact ⟨lives', within_mono _ fewer⟩
  receive := by
    intro k flags r r' data lives consumes call
    rcases receive_cases call with ⟨read, rfl, rfl⟩ | ⟨inside, s, received, rfl⟩
    · exact ⟨lives, 0, .nothing k List.prefix_rfl⟩
    · obtain ⟨lives', count, hands⟩ := streams.receive lives consumes received
      obtain ⟨lives'', fewer⟩ := streams.isEOF lives' rfl
      have hands := hands_within inside hands
      refine ⟨lives'', count, hands.data, ?_, hands.grain⟩
      refine List.IsPrefix.trans ?_ hands.after
      dsimp only
      split
      · rw [within_of_ge (UInt64.le_refl _)]
        exact List.nil_prefix
      · exact within_mono _ fewer
  threw := by
    intro k flags r r' error lives consumes call
    simp only [rangeReaderDecorator, receive] at call
    split at call
    · cases call
    · split at call
      · cases call
      · rename_i thrown
        cases call
        obtain ⟨lives', fewer⟩ := streams.threw lives consumes thrown
        exact ⟨lives', within_mono _ fewer⟩
      · split at call <;> cases call

end RangeReaderDecorator

/-! ### The stack -/

section Stack

open UnixSocketConnection (Blocking Waits)

variable {σ : Type u} {w : Connection σ} {live : σ → Prop} {below : σ → List Bytes}
  {outOfRange : UInt8} {fuel : Nat}

/-- The levels' invariants, over that of the bottom. -/
def FrontLive (live : σ → Prop) : (levels : List Level) → StackState σ levels → Prop
  | [] => live
  | .lineBuffer _ :: levels => LineBufferDecorator.Live (FrontLive live levels)
  | .rangeReader _ _ :: levels => fun st => FrontLive live levels st.wrapped
  | .acknowledgement _ _ :: levels => AcknowledgementDecorator.Auto (FrontLive live levels)

/-- The pieces that the outermost handle may still give. -/
def frontPieces (below : σ → List Bytes) :
    (levels : List Level) → StackState σ levels → List Bytes
  | [] => below
  | .lineBuffer _ :: levels => LineBufferDecorator.pieces (frontPieces below levels)
  | .rangeReader _ _ :: levels => fun r =>
      RangeReaderDecorator.within (RangeReaderDecorator.maxSize r)
        (RangeReaderDecorator.offset r) (frontPieces below levels r.wrapped)
  | .acknowledgement _ _ :: levels =>
      AcknowledgementDecorator.front (frontPieces below levels)

theorem stack_streams (noCR : outOfRange ≠ CR) (fuel : Nat) (bottom : Streams w live below)
    (levels : List Level) :
    Streams (stack w outOfRange fuel levels) (FrontLive live levels)
      (frontPieces below levels) := by
  induction levels with
  | nil => exact bottom
  | cons level levels ih =>
      cases level with
      | lineBuffer own => exact LineBufferDecorator.streams noCR ih
      | rangeReader maxSize own => exact RangeReaderDecorator.streams ih
      | acknowledgement maxBufferSize own => exact AcknowledgementDecorator.streams ih

/-- A new stack is in order, and may give all that is supplied of the stream at its bottom. -/
theorem front_build {s : σ} {S : Bytes} (lives : live s) (stream : below s = single S)
    (levels : List Level) :
    FrontLive live levels (.build true s levels) ∧
      frontPieces below levels (.build true s levels) = supplied levels S := by
  induction levels with
  | nil => exact ⟨lives, stream⟩
  | cons level levels ih =>
      obtain ⟨lives', pieces⟩ := ih
      cases level with
      | lineBuffer own =>
          refine ⟨⟨lives', List.not_mem_nil⟩, ?_⟩
          calc frontPieces below (.lineBuffer own :: levels) (.build true s _)
              = shownLines (frontPieces below levels (.build true s levels)).flatten := rfl
            _ = shownLines (supplied levels S).flatten := by rw [pieces]
      | rangeReader maxSize own =>
          exact ⟨lives', congrArg (RangeReaderDecorator.within maxSize 0) pieces⟩
      | acknowledgement maxBufferSize own => exact ⟨⟨lives', rfl, Or.inl rfl⟩, pieces⟩

/-- Whatever is called on a new stack, the results are what is supplied of the stream at its
bottom, up to some point, each made of whole pieces. -/
theorem Streams.stack_run (noCR : outOfRange ≠ CR) (bottom : Streams w live below) {s : σ}
    {S : Bytes} (lives : live s) (stream : below s = single S) (levels : List Level)
    {calls : List ReadCall} (taking : ∀ call ∈ calls, call.Takes)
    {results : List (Except ClientConnectionException ReadResult)}
    {st : StackState σ levels}
    (run : callAll (stack w outOfRange fuel levels).answer calls (.build true s levels) =
      some (results, st)) :
    ∃ groups : List (List Bytes), received results = groups.map List.flatten ∧
      groups.flatten <+: supplied levels S := by
  obtain ⟨lives', pieces⟩ := front_build lives stream levels
  obtain ⟨_, groups, grouped⟩ := (stack_streams noCR fuel bottom levels).run taking lives' run
  refine ⟨groups, grouped.results, ?_⟩
  rw [← pieces]
  exact (List.prefix_append _ _).trans grouped.front

/-- However the socket answers, its reads give a front of the bytes to come. -/
theorem UnixSocketConnection.streams :
    Streams unixSocketConnection (fun _ => True) (fun c => single c.input) where
  isEOF := by
    intro c c' atEnd _ call
    cases call
    exact ⟨trivial, List.prefix_rfl⟩
  receive := by
    intro k flags c c' data _ consumes call
    have plain : receive k 0 c = .returned data c' := by
      rw [← call]
      simp only [unixSocketConnection, receive, consumes, UInt32.zero_and]
    obtain ⟨split, short⟩ := receive_returned plain
    exact ⟨trivial, _, .of_bytes split short⟩
  threw := by
    intro k flags c c' error _ _ call
    exact absurd call receive_not_threw

/-- Whatever the `recv` calls return, and whatever is called on the outermost handle in which
order, exceptions included: what the calls of `Receive` return is a front of the pieces that
the levels supply of the stream, each result made of whole pieces. -/
theorem stack_delivers_front (noCR : outOfRange ≠ CR) (fuel : Nat) (levels : List Level)
    (S : Bytes) (replies : List RecvReply) (now : UInt64) {calls : List ReadCall}
    (taking : ∀ call ∈ calls, call.Takes)
    {results : List (Except ClientConnectionException ReadResult)}
    {st : StackState UnixSocketConnection levels}
    (run : callAll (stack unixSocketConnection outOfRange fuel levels).answer calls
      (opened S replies now levels) = some (results, st)) :
    ∃ groups : List (List Bytes), received results = groups.map List.flatten ∧
      groups.flatten <+: supplied levels S :=
  UnixSocketConnection.streams.stack_run noCR trivial rfl levels taking run

/-- A range reader of five bytes over a line buffer. -/
def linesInRange : List Level := [.rangeReader 5 true, .lineBuffer true]

/-- A stream of three lines and a rest of one byte. -/
def threeLines : Bytes := [97, 98, 99, 10, 100, 10, 101, 10, 102]

/-- An interrupted `recv`, and two that split a line and hold two. -/
def interrupted : List RecvReply := [⟨.bytes 2, 1⟩, ⟨.error .EINTR, 2⟩, ⟨.bytes 6, 3⟩]

theorem stack_delivers_front_of_interrupted :
    ∃ groups : List (List Bytes),
      [[], [97, 98, 99, 10], [100, 10], []] = groups.map List.flatten ∧
        groups.flatten <+: supplied linesInRange threeLines := by
  have run : ∃ st,
      callAll (stack unixSocketConnection 0 9 linesInRange).answer
        [.receive 0 0, .receive 3 0, .isEOF, .receive 1 0, .receive 1 0, .isEOF]
        (opened threeLines interrupted 0 linesInRange) =
      some ([.ok (.received []), .ok (.received [97, 98, 99, 10]), .ok (.atEnd false),
        .ok (.received [100, 10]), .ok (.received []), .ok (.atEnd true)], st) :=
    ⟨_, rfl⟩
  obtain ⟨st, run⟩ := run
  exact stack_delivers_front (by decide) 9 linesInRange threeLines interrupted 0 (by decide) run

/-! ### To the end of file -/

/-- A call of `Receive` without flags, or of `IsEOF`. -/
def ReadCall.Plain : ReadCall → Prop
  | .receive _ flags => flags = 0
  | .isEOF => True

instance (call : ReadCall) : Decidable call.Plain := by
  cases call <;> unfold ReadCall.Plain <;> infer_instance

/-- Without an exception nothing of what a blocking stack may give is lost. -/
theorem Serves.run {live : σ → Prop} {pieces : σ → List Bytes} {ends : σ → Prop}
    (serves : Serves w live pieces ends) {calls : List ReadCall}
    (plain : ∀ call ∈ calls, call.Plain) {s s' : σ}
    {results : List (Except ClientConnectionException ReadResult)} (lives : live s)
    (run : callAll w.answer calls s = some (results, s'))
    (quiet : ∀ error, .error error ∉ results) :
    live s' ∧ ∃ groups : List (List Bytes), received results = groups.map List.flatten ∧
      groups.flatten ++ pieces s' = pieces s := by
  refine callAll_induction (fun s calls results s' => (∀ call ∈ calls, call.Plain) → live s →
    (∀ error, .error error ∉ results) →
    live s' ∧ ∃ groups : List (List Bytes), received results = groups.map List.flatten ∧
      groups.flatten ++ pieces s' = pieces s) ?_ ?_ ?_ run plain lives quiet
  · intro s _ lives _
    exact ⟨lives, [], rfl, rfl⟩
  · intro s call value t calls results s' answered ih plain lives quiet
    have plain' := fun i member => plain i (List.mem_cons_of_mem call member)
    have quiet' := fun error member => quiet error (List.mem_cons_of_mem _ member)
    cases call with
    | isEOF =>
        cases answered
        obtain ⟨same, _⟩ := serves.isEOF lives rfl
        rw [same] at ih
        exact ih plain' lives quiet'
    | receive len flags =>
        obtain rfl : flags = 0 := plain _ List.mem_cons_self
        simp only [Connection.answer] at answered
        split at answered
        · cases answered
        · cases answered
        · rename_i data s'' call
          cases answered
          obtain ⟨lives', _, count, takes⟩ := serves.receive lives call
          obtain ⟨last, groups, whole, split⟩ := ih plain' lives' quiet'
          refine ⟨last, (pieces s).take count :: groups, ?_, ?_⟩
          · rw [received_received_cons, List.map_cons, whole, takes.data]
          · rw [List.flatten_cons, List.append_assoc, split, takes.after,
              List.take_append_drop]
  · intro s call error t calls results s' _ _ _ _ quiet
    exact absurd List.mem_cons_self (quiet error)

/-- `IsEOF` of a stack over a blocking socket is true only when all that the levels supply of
the stream was received, however `recv` cut it up and whatever lengths were asked for, 0
included.  A line buffer supplies no unterminated rest. -/
theorem stack_delivers_all (noCR : outOfRange ≠ CR) (fuel : Nat) (levels : List Level)
    (S : Bytes) {replies : List RecvReply} (waits : ∀ reply ∈ replies, Waits reply)
    (now : UInt64) {calls : List ReadCall} (plain : ∀ call ∈ calls, call.Plain)
    {results : List (Except ClientConnectionException ReadResult)}
    {st : StackState UnixSocketConnection levels}
    (run : callAll (stack unixSocketConnection outOfRange fuel levels).answer calls
      (opened S replies now levels) = some (results, st))
    (quiet : ∀ error, .error error ∉ results)
    (atEnd : ((stack unixSocketConnection outOfRange fuel levels).isEOF st).1 = true) :
    ∃ groups : List (List Bytes), received results = groups.map List.flatten ∧
      groups.flatten = supplied levels S := by
  have serves := stack_serves noCR fuel levels
  obtain ⟨last, groups, whole, split⟩ :=
    serves.run plain (live_opened waits levels) run quiet
  have asked : (stack unixSocketConnection outOfRange fuel levels).isEOF st =
      (true, ((stack unixSocketConnection outOfRange fuel levels).isEOF st).2) := by
    rw [← atEnd]
  obtain ⟨none, _⟩ := (serves.isEOF last asked).2 rfl
  refine ⟨groups, whole, ?_⟩
  rw [none, List.append_nil, pieces_opened] at split
  exact split

theorem stack_delivers_all_of_two_lines :
    ∃ groups : List (List Bytes),
      [[97, 98, 99, 10], [100, 10]] = groups.map List.flatten ∧
        groups.flatten = supplied linesInRange threeLines := by
  have run : ∃ st,
      callAll (stack unixSocketConnection 0 9 linesInRange).answer
        [.receive 3 0, .isEOF, .receive 0 0]
        (opened threeLines [⟨.bytes 2, 1⟩, ⟨.bytes 6, 3⟩] 0 linesInRange) =
      some ([.ok (.received [97, 98, 99, 10]), .ok (.atEnd false), .ok (.received [100, 10])],
        st) ∧ ((stack unixSocketConnection 0 9 linesInRange).isEOF st).1 = true :=
    ⟨_, rfl, rfl⟩
  obtain ⟨st, run, atEnd⟩ := run
  refine stack_delivers_all (by decide) 9 linesInRange threeLines ?_ 0 (by decide) run ?_ atEnd
  · intro reply member
    rcases List.mem_pair.mp member with rfl | rfl
    · exact ⟨1, 1, rfl⟩
    · exact ⟨5, 3, rfl⟩
  · simp

/-! ### How far a range reads over -/

/-- The pieces that begin in a range are no longer than what is left of it and the rest of the
last piece. -/
theorem length_within_le (maxSize offset : UInt64) {longest : Nat} {pieces : List Bytes}
    (short : ∀ piece ∈ pieces, piece.length ≤ longest)
    (fits : offset.toNat + pieces.flatten.length < 2 ^ 64) :
    (RangeReaderDecorator.within maxSize offset pieces).flatten.length ≤
      maxSize.toNat - offset.toNat + (longest - 1) := by
  induction pieces generalizing offset with
  | nil => simp [RangeReaderDecorator.within]
  | cons piece pieces ih =>
      rw [RangeReaderDecorator.within]
      split
      · simp
      · rename_i inside
        rw [List.flatten_cons, List.length_append] at fits
        have inside : offset.toNat < maxSize.toNat := by
          simpa [UInt64.lt_iff_toNat_lt] using inside
        have first := short piece List.mem_cons_self
        have width := Bytes.toNat_length (show piece.length < 2 ^ 64 by omega)
        have next : (offset + piece.length.toUInt64).toNat = offset.toNat + piece.length := by
          rw [UInt64.toNat_add, width]
          exact Nat.mod_eq_of_lt (by omega)
        rw [List.flatten_cons, List.length_append]
        by_cases beyond : offset + piece.length.toUInt64 ≥ maxSize
        · rw [RangeReaderDecorator.within_of_ge beyond, List.flatten_nil, List.length_nil]
          omega
        · have rest := ih (offset + piece.length.toUInt64)
            (fun piece member => short piece (List.mem_cons_of_mem _ member)) (by omega)
          have still : offset.toNat + piece.length < maxSize.toNat := by
            simpa [UInt64.lt_iff_toNat_lt, next] using beyond
          omega

theorem length_shownLines_le (stream : Bytes) :
    (shownLines stream).flatten.length ≤ stream.length := by
  induction stream using Segments.segmentwise LF with
  | clean stream clean => simp [shownLines, Segments.terminated_of_notMem LF clean]
  | segment before after clean ih =>
      have line : (dropCR before).length ≤ before.length := by
        rw [dropCR]
        split
        · simp
        · exact Nat.le_refl _
      rw [shownLines, Segments.terminated_first LF clean, List.map_cons, List.flatten_cons]
      simp only [List.length_append, List.length_cons, List.length_nil]
      have rest : ((Segments.terminated LF after).map
          fun line => dropCR line ++ [LF]).flatten.length ≤ after.length := ih
      omega

theorem within_front (maxSize offset : UInt64) (pieces : List Bytes) :
    RangeReaderDecorator.within maxSize offset pieces <+: pieces := by
  induction pieces generalizing offset with
  | nil => exact List.prefix_rfl
  | cons piece pieces ih =>
      rw [RangeReaderDecorator.within]
      split
      · exact List.nil_prefix
      · exact (List.prefix_cons_inj piece).mpr (ih _)

/-- No level supplies more bytes than it is given. -/
theorem length_supplied_le (levels : List Level) (S : Bytes) :
    (supplied levels S).flatten.length ≤ S.length := by
  induction levels with
  | nil =>
      have whole := UnixSocketConnection.take_single S []
      rw [List.append_nil, List.take_of_length_le (by simp [single])] at whole
      rw [supplied, whole]
  | cons level levels ih =>
      cases level with
      | lineBuffer own =>
          rw [supplied]
          exact Nat.le_trans (length_shownLines_le _) ih
      | rangeReader maxSize own =>
          have front := LineBufferDecorator.flatten_mono
            (within_front maxSize 0 (supplied levels S))
          exact Nat.le_trans front.length_le ih
      | acknowledgement maxBufferSize own => exact ih

/-- A range reader counts bytes but reads pieces: over any stack it gives less than one piece
more than its range, and over single bytes no more than its range. -/
theorem range_overrun (noCR : outOfRange ≠ CR) (fuel : Nat) (levels : List Level)
    (maxSize : UInt64) (own : Bool) {S : Bytes} (fits : S.length < 2 ^ 64) {longest : Nat}
    (short : ∀ piece ∈ supplied levels S, piece.length ≤ longest) (replies : List RecvReply)
    (now : UInt64) {calls : List ReadCall} (taking : ∀ call ∈ calls, call.Takes)
    {results : List (Except ClientConnectionException ReadResult)}
    {st : StackState UnixSocketConnection (.rangeReader maxSize own :: levels)}
    (run : callAll (stack unixSocketConnection outOfRange fuel
      (.rangeReader maxSize own :: levels)).answer calls
      (opened S replies now (.rangeReader maxSize own :: levels)) = some (results, st)) :
    (received results).flatten.length ≤ maxSize.toNat + (longest - 1) := by
  obtain ⟨groups, whole, front⟩ :=
    UnixSocketConnection.streams.stack_run noCR trivial rfl _ taking run
  have bound := length_within_le maxSize 0 short
    (Nat.lt_of_le_of_lt (by simpa using length_supplied_le levels S) fits)
  have flat : (received results).flatten = groups.flatten.flatten := by
    rw [whole, List.flatten_flatten]
  rw [flat]
  have part := (LineBufferDecorator.flatten_mono front).length_le
  exact Nat.le_trans part bound

/-- The second line ends behind the range. -/
theorem range_overrun_of_second_line :
    [97, 98, 99, 10, 100, 10].length ≤ 5 + (4 - 1) := by
  have run : ∃ st,
      callAll (stack unixSocketConnection 0 9 linesInRange).answer
        [.receive 3 0, .receive 1 0]
        (opened threeLines [⟨.bytes 2, 1⟩, ⟨.bytes 6, 3⟩] 0 linesInRange) =
      some ([.ok (.received [97, 98, 99, 10]), .ok (.received [100, 10])], st) :=
    ⟨_, rfl⟩
  obtain ⟨st, run⟩ := run
  exact range_overrun (by decide) 9 [.lineBuffer true] 5 true (by decide) (by decide) _ 0
    (by decide) run

end Stack

end LibSiot
