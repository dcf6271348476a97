/-
Module: LibSiot.Proofs.EndOfFileReached
Purpose: When the loop that reads a stack to the end of file ends, over a
  blocking socket whose peer sends a stream and closes.  The socket never
  reports the end by itself; what can is a range reader that gets its whole
  range.  Each level is described by the pieces its reads will still give, and
  the stack by induction over its levels.
Trusted boundary: none
Main exports: Serves, Answers, Serves.ends_of_consume, Answers.consume_returns,
  supplied, Fills, consume_ends_iff
-/
import LibSiot.Decorators.Stack
import LibSiot.Proofs.Acknowledgement
import LibSiot.Proofs.LineBuffer
import LibSiot.Proofs.RangeReader

namespace LibSiot

universe u

open Relation (ReflTransGen)

/-! ### Serving pieces -/

/-- A read of `k` bytes takes the first `count` of the pieces to come.  It takes
none only if there is none, and more than one only of single bytes, and then no
more than asked for. -/
structure Takes (before : List Bytes) (k : UInt64) (count : Nat) (data : Bytes)
    (after : List Bytes) : Prop where
  data : data = (before.take count).flatten
  after : after = before.drop count
  some : count = 0 → before = []
  grain : count ≤ 1 ∨ (k ≠ 0 → count ≤ k.toNat) ∧ ∀ piece ∈ before, piece.length = 1

/-- If no piece is empty, an empty result means that there is none. -/
theorem Takes.eq_nil {before after : List Bytes} {k : UInt64} {count : Nat}
    (takes : Takes before k count [] after) (nonempty : [] ∉ before) : before = [] := by
  rcases before with _ | ⟨piece, pieces⟩
  · rfl
  · cases count with
    | zero => exact takes.some rfl
    | succ count =>
        have empty : piece = [] := by
          have data := takes.data
          rw [List.take_succ_cons, List.flatten_cons] at data
          exact (List.append_eq_nil_iff.mp data.symm).1
        exact absurd (empty ▸ List.mem_cons_self) nonempty

theorem Takes.length_le {before after : List Bytes} {k : UInt64} {count : Nat} {data : Bytes}
    (takes : Takes before k count data after) : after.length ≤ before.length := by
  rw [takes.after, List.length_drop]
  exact Nat.sub_le _ _

theorem Takes.length_lt {before after : List Bytes} {k : UInt64} {count : Nat} {data : Bytes}
    (takes : Takes before k count data after) (some : data ≠ []) :
    after.length < before.length := by
  have counted : count ≠ 0 := by
    rintro rfl
    exact some takes.data
  have there : before ≠ [] := by
    rintro rfl
    exact some (by simpa using takes.data)
  have positive := List.length_pos_iff.mpr there
  rw [takes.after, List.length_drop]
  omega

/-- What follows the first `count` elements may be exchanged, unless there is
nothing to follow. -/
theorem take_drop_append {α : Type u} {xs ys : List α} {count : Nat}
    (none : xs.drop count = [] → ys = []) :
    (xs.take count ++ ys).take count = xs.take count ∧
      (xs.take count ++ ys).drop count = ys := by
  by_cases full : xs.drop count = []
  · rw [none full, List.append_nil, List.take_take, Nat.min_self]
    exact ⟨rfl, by rw [List.drop_take, Nat.sub_self, List.take_zero]⟩
  · have length : (xs.take count).length = count := by
      rw [List.drop_eq_nil_iff, not_le] at full
      rw [List.length_take, Nat.min_eq_left (Nat.le_of_lt full)]
    exact ⟨List.take_left' length, List.drop_left' length⟩

/-- What reads of a connection do, in the states of `live` that they never leave:
they give the coming `pieces` one after the other, and `IsEOF` is true only
when there are no more of them.  `ends` says of a state that `IsEOF` will be true
when the pieces are used up; no read changes it. -/
structure Serves {σ : Type u} (w : Connection σ) (live : σ → Prop)
    (pieces : σ → List Bytes) (ends : σ → Prop) : Prop where
  nonempty : ∀ {s : σ}, live s → [] ∉ pieces s
  isEOF : ∀ {s s' : σ} {atEnd : Bool}, live s → w.isEOF s = (atEnd, s') →
    s' = s ∧ (atEnd = true → pieces s = [] ∧ ends s)
  receive : ∀ {k : UInt64} {s s' : σ} {data : Bytes}, live s →
    w.receive k 0 s = .returned data s' →
      live s' ∧ (ends s' ↔ ends s) ∧ ∃ count, Takes (pieces s) k count data (pieces s')
  drained : ∀ {k : UInt64} {s s' : σ}, live s → k ≠ 0 → ends s →
    w.receive k 0 s = .returned [] s' → (w.isEOF s').1 = true

/-- When reads do not block: `ready m` says that `m` more reads may come back
empty, and any number of them with bytes. -/
structure Answers {σ : Type u} (w : Connection σ) (live : σ → Prop)
    (ready : Nat → σ → Prop) : Prop where
  weaken : ∀ {m : Nat} {s : σ}, ready (m + 1) s → ready m s
  not_running : ∀ {k : UInt64} {m : Nat} {s : σ}, live s → k ≠ 0 → ready (m + 1) s →
    w.receive k 0 s ≠ .running
  receive : ∀ {k : UInt64} {m : Nat} {s s' : σ} {data : Bytes}, live s → k ≠ 0 →
    ready (m + 1) s → w.receive k 0 s = .returned data s' →
      ready m s' ∧ (data ≠ [] → ready (m + 1) s')

/-- One turn of the loop `while (!c->IsEOF()) c->Receive();`. -/
def Turn {σ : Type u} (c : Connection σ) (s s' : σ) : Prop :=
  ∃ t data, c.isEOF s = (false, t) ∧ c.receive sizeMax 0 t = .returned data s'

/-- No `Receive` of the loop throws. -/
def Quiet {σ : Type u} (c : Connection σ) (start : σ) : Prop :=
  ∀ s t, ReflTransGen (Turn c) start s → c.isEOF s = (false, t) →
    ∀ error s', c.receive sizeMax 0 t ≠ .threw error s'

section Loop

variable {σ : Type u} {w : Connection σ} {live : σ → Prop} {pieces : σ → List Bytes}
  {ends : σ → Prop} {ready : Nat → σ → Prop}

theorem Quiet.turn {s s' : σ} (quiet : Quiet w s) (turn : Turn w s s') : Quiet w s' :=
  fun t t' turns => quiet t t' (turns.head turn)

/-- A loop that ended did so in a state, and so from a state, in which the end
was to come. -/
theorem Serves.ends_of_consume (serves : Serves w live pieces ends) {turns : Nat} {s : σ}
    (lives : live s) (quiet : Quiet w s) (ended : (consume w turns s).isSome) : ends s := by
  induction turns generalizing s with
  | zero => simp [consume] at ended
  | succ turns ih =>
      simp only [consume] at ended
      split at ended
      · rename_i t atEnd
        exact ((serves.isEOF lives atEnd).2 rfl).2
      · rename_i t more
        obtain ⟨rfl, _⟩ := serves.isEOF lives more
        split at ended
        · rename_i data s' received
          obtain ⟨lives', same, _⟩ := serves.receive lives received
          rw [Option.isSome_map] at ended
          exact same.mp (ih lives' (quiet.turn ⟨_, _, more, received⟩) ended)
        · rename_i error s' thrown
          exact absurd thrown (quiet _ _ .refl more _ _)
        · cases ended

/-- One more turn before a loop that ends. -/
theorem consume_turn {turns : Nat} {s s' : σ} (turn : Turn w s s')
    (ended : (consume w turns s').isSome) : (consume w (turns + 1) s).isSome := by
  obtain ⟨t, data, more, received⟩ := turn
  simpa only [consume, more, received, Option.isSome_map] using ended

theorem consume_atEnd {s : σ} (atEnd : (w.isEOF s).1 = true) : (consume w 1 s).isSome := by
  have asked : w.isEOF s = (true, (w.isEOF s).2) := by
    rw [← atEnd]
  rw [consume, asked]
  rfl

/-- The loop ends if the end is to come: each turn takes a piece, or is the last
but one. -/
theorem Answers.consume_returns (serves : Serves w live pieces ends)
    (answers : Answers w live ready) {s : σ} (lives : live s) (toCome : ends s)
    (enough : ready 1 s) (quiet : Quiet w s) : ∃ turns, (consume w turns s).isSome := by
  generalize bound : (pieces s).length = left
  induction left using Nat.strong_induction_on generalizing s with
  | _ left ih =>
      cases asked : w.isEOF s with
      | mk atEnd t =>
          obtain ⟨rfl, _⟩ := serves.isEOF lives asked
          cases atEnd with
          | true => exact ⟨1, consume_atEnd (by rw [asked])⟩
          | false =>
              cases call : w.receive sizeMax 0 t with
              | running => exact absurd call (answers.not_running lives (by decide) enough)
              | threw error s' => exact absurd call (quiet _ _ .refl asked _ _)
              | returned data s' =>
                  obtain ⟨lives', same, count, takes⟩ := serves.receive lives call
                  have turn : Turn w t s' := ⟨t, data, asked, call⟩
                  by_cases empty : data = []
                  · subst empty
                    have atEnd := serves.drained lives (by decide) toCome call
                    exact ⟨2, consume_turn turn (consume_atEnd atEnd)⟩
                  · have fewer : (pieces s').length < left := bound ▸ takes.length_lt empty
                    have still := (answers.receive lives (by decide) enough call).2 empty
                    obtain ⟨turns, ended⟩ :=
                      ih _ fewer lives' (same.mpr toCome) still (quiet.turn turn) rfl
                    exact ⟨turns + 1, consume_turn turn ended⟩

end Loop

/-! ### The socket -/

namespace UnixSocketConnection

/-- A `recv` that waits until a byte is there or the peer has closed. -/
def Waits (reply : RecvReply) : Prop :=
  ∃ limit now, reply = ⟨.bytes (limit + 1), now⟩

/-- The socket is not at its end and every `recv` to come waits. -/
structure Blocking (c : UnixSocketConnection) : Prop where
  notAtEnd : c.eof = false
  waits : ∀ reply ∈ c.replies, Waits reply

/-- One read of a blocking socket: a front of the input that is not empty if
there is any, and no end of file in any case. -/
theorem Blocking.receive {k : UInt64} {c c' : UnixSocketConnection} {data : Bytes}
    (blocking : Blocking c) (call : c.receive k 0 = .returned data c') :
    Blocking c' ∧ c'.replies.length + 1 = c.replies.length ∧
      data ++ c'.input = c.input ∧ (k ≠ 0 → data.length ≤ k.toNat) ∧
      (data = [] → c.input = []) := by
  obtain ⟨split, short⟩ := receive_returned call
  simp only [UnixSocketConnection.receive] at call
  split at call
  · cases call
  · rename_i limit now replies script
    have waits : ∀ reply ∈ replies, Waits reply := fun reply member =>
      blocking.waits reply (script ▸ List.mem_cons_of_mem _ member)
    obtain ⟨limit, _, ⟨⟩⟩ := blocking.waits _ (script ▸ List.mem_cons_self)
    cases call
    refine ⟨⟨blocking.notAtEnd, waits⟩, by simp [script], split, short, ?_⟩
    intro empty
    have positive := bufferLength_pos k
    rw [recvBytes, List.take_eq_nil_iff] at empty
    exact empty.resolve_left (by omega)
  · rename_i errno now replies script
    obtain ⟨_, _, ⟨⟩⟩ := blocking.waits _ (script ▸ List.mem_cons_self)

/-- The bytes of a string, one by one. -/
def single (input : Bytes) : List Bytes := input.map fun byte => [byte]

theorem take_single (data rest : Bytes) :
    ((single (data ++ rest)).take data.length).flatten = data := by
  induction data with
  | nil => rfl
  | cons byte data ih => simpa [single] using ih

/-- A blocking socket gives its input byte by byte, and never comes to its end. -/
theorem serves : Serves unixSocketConnection Blocking (fun c => single c.input)
    (fun _ => False) where
  nonempty := by simp [single]
  isEOF := by
    intro c c' atEnd blocking call
    cases call
    exact ⟨rfl, fun ended => absurd (blocking.notAtEnd.symm.trans ended) (by decide)⟩
  receive := by
    intro k c c' data blocking call
    obtain ⟨blocking', _, split, short, some⟩ := blocking.receive call
    refine ⟨blocking', Iff.rfl, data.length, ?_⟩
    constructor
    · rw [← split, take_single]
    · simp only [← split, single, ← List.map_drop, List.drop_left]
    · intro none
      simpa [single] using some (List.length_eq_zero_iff.mp none)
    · right
      exact ⟨short, by simp [single]⟩
  drained := by
    intro k c c' blocking nonzero ended
    exact ended.elim

/-- The script goes on for `m` more reads of nothing, after one for each byte. -/
def Ready (m : Nat) (c : UnixSocketConnection) : Prop :=
  c.input.length + m ≤ c.replies.length

theorem answers : Answers unixSocketConnection Blocking Ready where
  weaken := by
    intro m c ready
    simp only [Ready] at ready ⊢
    omega
  not_running := by
    intro k m c blocking nonzero ready
    simp only [Ready] at ready
    simp only [unixSocketConnection, receive]
    split
    · rename_i script
      simp [script] at ready
    · simp
    · simp
  receive := by
    intro k m c c' data blocking nonzero ready call
    obtain ⟨_, shorter, split, _⟩ := blocking.receive call
    have length := congrArg List.length split
    rw [List.length_append] at length
    simp only [Ready] at ready ⊢
    constructor
    · omega
    · intro some
      have positive := List.length_pos_iff.mpr some
      omega

end UnixSocketConnection

/-! ### The line buffer -/

namespace LineBufferDecorator

variable {σ : Type u} {w : Connection σ} {outOfRange : UInt8} {fuel : Nat}

/-- The lines to come: those in the queue, and those of the remainder with all
that is still to be read behind it. -/
def pieces (below : σ → List Bytes) (lb : LineBufferDecorator σ) : List Bytes :=
  lb.remainingLines.map (· ++ [LF]) ++
    shownLines (lb.remainder ++ (below lb.wrapped).flatten)

/-- What the filling loop comes to when it returns: the bytes to come have moved
on into the remainder, until there is a line or there are no more. -/
structure Collected (w : Connection σ) (live : σ → Prop) (below : σ → List Bytes)
    (ends : σ → Prop) (lb lb' : LineBufferDecorator σ) : Prop where
  lives : live lb'.wrapped
  same : ends lb'.wrapped ↔ ends lb.wrapped
  bytes : lb'.remainder ++ (below lb'.wrapped).flatten =
    lb.remainder ++ (below lb.wrapped).flatten
  queue : lb'.remainingLines = lb.remainingLines
  stopped : LF ∉ lb'.remainder →
    below lb'.wrapped = [] ∧ (ends lb.wrapped → (w.isEOF lb'.wrapped).1 = true)

variable {live : σ → Prop} {below : σ → List Bytes} {ends : σ → Prop}
  {ready : Nat → σ → Prop}

theorem fill_collected (serves : Serves w live below ends)
    {lb lb' : LineBufferDecorator σ} (lives : live lb.wrapped)
    (filled : fill w fuel lb = .returned () lb') : Collected w live below ends lb lb' := by
  induction fuel generalizing lb with
  | zero => cases filled
  | succ fuel ih =>
      simp only [fill] at filled
      split at filled
      · rename_i line
        cases filled
        exact ⟨lives, Iff.rfl, rfl, rfl, fun clean => absurd line clean⟩
      · split at filled
        · rename_i s asked
          obtain ⟨rfl, atEnd⟩ := serves.isEOF lives asked
          cases filled
          exact ⟨lives, Iff.rfl, rfl, rfl, fun _ => ⟨(atEnd rfl).1, fun _ => by rw [asked]⟩⟩
        · rename_i s asked
          obtain ⟨rfl, _⟩ := serves.isEOF lives asked
          split at filled
          · cases filled
          · cases filled
          · rename_i data s' received
            obtain ⟨lives', same, count, takes⟩ := serves.receive lives received
            have moved : data ++ (below s').flatten = (below lb.wrapped).flatten := by
              rw [takes.data, takes.after, ← List.flatten_append, List.take_append_drop]
            split at filled
            · obtain ⟨lives'', same', bytes, queue, stopped⟩ := ih lives' filled
              refine ⟨lives'', same'.trans same, ?_, queue, fun clean => ?_⟩
              · rw [bytes]
                simp only [List.append_assoc, moved]
              · obtain ⟨none, atEnd⟩ := stopped clean
                exact ⟨none, fun toCome => atEnd (same.mpr toCome)⟩
            · rename_i nothing
              have empty : data = [] := by simpa using nothing
              subst empty
              cases filled
              have none := takes.eq_nil (serves.nonempty lives)
              refine ⟨lives', same, ?_, rfl, fun _ => ⟨?_, fun toCome => ?_⟩⟩
              · rw [← moved]
                rfl
              · rw [takes.after, none, List.drop_nil]
              · exact serves.drained lives (by decide) toCome received

/-- A line buffer in use: what it wraps is, and its remainder is split. -/
structure Live (live : σ → Prop) (lb : LineBufferDecorator σ) : Prop where
  wrapped : live lb.wrapped
  clean : LF ∉ lb.remainder

theorem popLine_takes {lb lb' : LineBufferDecorator σ} {line : Bytes} {k : UInt64}
    (none : lb.remainingLines = [] → pieces below lb = [])
    (call : popLine lb = .returned line lb') :
    ∃ count, Takes (pieces below lb) k count line (pieces below lb') := by
  rw [popLine] at call
  split at call
  · rename_i empty
    cases call
    refine ⟨0, ?_, ?_, fun _ => none empty, Or.inl (Nat.zero_le 1)⟩
    · rfl
    · rfl
  · rename_i first rest queue
    cases call
    refine ⟨1, ?_, ?_, fun zero => absurd zero (by decide), Or.inl (Nat.le_refl 1)⟩
    · simp [pieces, queue]
    · simp [pieces, queue]

/-- The decorator after the splitting loop. -/
def afterSplit (outOfRange : UInt8) (lb : LineBufferDecorator σ) : LineBufferDecorator σ :=
  { lb with
    remainder := (splitLines outOfRange lb.remainder.length lb.remainder lb.remainingLines).1
    remainingLines :=
      (splitLines outOfRange lb.remainder.length lb.remainder lb.remainingLines).2 }

/-- Splitting what was collected leaves the lines to come as they are; it finds
none only if there is none to come. -/
theorem Collected.split {lb lb' : LineBufferDecorator σ} (noCR : outOfRange ≠ CR)
    (empty : lb.remainingLines = []) (collected : Collected w live below ends lb lb') :
    pieces below (afterSplit outOfRange lb') = pieces below lb ∧
      ((afterSplit outOfRange lb').remainingLines = [] →
        LF ∉ lb'.remainder ∧ pieces below lb = []) := by
  have spec := splitLines_spec lb'.remainder (fun _ => noCR) lb'.remainder.length lb'.remainingLines
    (Nat.le_refl _)
  have lines : shownLines (lb.remainder ++ (below lb.wrapped).flatten) =
      shownLines lb'.remainder ++
        shownLines (Segments.rest LF lb'.remainder ++ (below lb'.wrapped).flatten) := by
    rw [← collected.bytes, shownLines, Segments.terminated_append, List.map_append]
    rfl
  constructor
  · rw [pieces, pieces, lines, afterSplit, spec, collected.queue, empty, ← List.append_assoc]
    simp only [shownLines, List.nil_append, List.map_nil, List.map_map]
    rfl
  · rw [afterSplit, spec, collected.queue, empty]
    intro nothing
    have clean : LF ∉ lb'.remainder := by
      intro line
      exact Segments.terminated_ne_nil LF line (by simpa using nothing)
    have none := (collected.stopped clean).1
    refine ⟨clean, ?_⟩
    rw [pieces, lines, empty, none, Segments.rest_of_notMem LF clean, List.flatten_nil,
      List.append_nil, shownLines, Segments.terminated_of_notMem LF clean]
    rfl

/-- A `Receive` with an empty queue that returns collects, splits and hands out
a line if there is one. -/
theorem receive_collected (k : UInt64) {lb lb' : LineBufferDecorator σ} {line : Bytes}
    (serves : Serves w live below ends) (lives : live lb.wrapped)
    (empty : lb.remainingLines = [])
    (call : receive w outOfRange fuel k 0 lb = .returned line lb') :
    ∃ filled, fill w fuel lb = .returned () filled ∧ Collected w live below ends lb filled ∧
      popLine (afterSplit outOfRange filled) = .returned line lb' := by
  rw [receive, if_pos empty] at call
  split at call
  · cases call
  · cases call
  · rename_i filled returned
    exact ⟨filled, returned, fill_collected serves lives returned, call⟩

/-- A line buffer gives the lines of what it wraps, and comes to its end with
that. -/
theorem serves (noCR : outOfRange ≠ CR) (serves : Serves w live below ends) :
    Serves (lineBufferDecorator w outOfRange fuel) (Live live) (pieces below)
      (fun lb => ends lb.wrapped) where
  nonempty := by simp [pieces, shownLines]
  isEOF := by
    intro lb lb' atEnd lives call
    obtain ⟨same, ended⟩ := serves.isEOF lives.wrapped rfl
    cases call
    refine ⟨by rw [same], fun atEnd => ?_⟩
    rw [Bool.and_eq_true, List.isEmpty_iff] at atEnd
    obtain ⟨none, toCome⟩ := ended atEnd.1
    refine ⟨?_, toCome⟩
    rw [pieces, atEnd.2, none, List.flatten_nil, List.append_nil, shownLines,
      Segments.terminated_of_notMem LF lives.clean]
    rfl
  receive := by
    intro k lb lb' line lives call
    by_cases empty : lb.remainingLines = []
    · obtain ⟨filled, _, collected, popped⟩ :=
        receive_collected k serves lives.wrapped empty call
      obtain ⟨same, nothing⟩ := collected.split noCR empty
      obtain ⟨sameWrapped, sameRemainder⟩ := popLine_eq_returned popped
      refine ⟨⟨?_, ?_⟩, ?_, ?_⟩
      · exact sameWrapped ▸ collected.lives
      · exact sameRemainder ▸ splitLines_clean _ _ _ (Nat.le_refl _)
      · exact sameWrapped ▸ collected.same
      · rw [← same]
        exact popLine_takes (fun none => same.trans (nothing none).2) popped
    · have popped : popLine lb = .returned line lb' := by
        simpa only [lineBufferDecorator, LineBufferDecorator.receive, if_neg empty] using call
      obtain ⟨sameWrapped, sameRemainder⟩ := popLine_eq_returned popped
      refine ⟨⟨?_, ?_⟩, ?_, popLine_takes (fun none => absurd none empty) popped⟩
      · exact sameWrapped ▸ lives.wrapped
      · exact sameRemainder ▸ lives.clean
      · rw [sameWrapped]
  drained := by
    intro k lb lb' lives nonzero toCome call
    by_cases empty : lb.remainingLines = []
    · obtain ⟨filled, _, collected, popped⟩ :=
        receive_collected k serves lives.wrapped empty call
      rw [popLine] at popped
      split at popped
      · rename_i none
        cases popped
        have clean := ((collected.split noCR empty).2 none).1
        simp only [lineBufferDecorator, isEOF, none, Bool.and_eq_true]
        exact ⟨(collected.stopped clean).2 toCome, rfl⟩
      · simp at popped
    · simp only [lineBufferDecorator, LineBufferDecorator.receive, if_neg empty, popLine] at call
      split at call
      · contradiction
      · simp at call

/-- The filling loop has fuel for every piece to come and one more turn. -/
def Ready (ready : Nat → σ → Prop) (below : σ → List Bytes) (fuel m : Nat)
    (lb : LineBufferDecorator σ) : Prop :=
  ready m lb.wrapped ∧ (below lb.wrapped).length < fuel

/-- With enough fuel the filling loop does not run on, and it reads nothing at
most once, at its end. -/
theorem fill_ready {m : Nat} (serves : Serves w live below ends)
    (answers : Answers w live ready) {lb : LineBufferDecorator σ} (lives : live lb.wrapped)
    (enough : Ready ready below fuel (m + 1) lb) :
    fill w fuel lb ≠ .running ∧ ∀ lb', fill w fuel lb = .returned () lb' →
      (below lb'.wrapped).length ≤ (below lb.wrapped).length ∧ ready m lb'.wrapped ∧
        (LF ∈ lb'.remainder → ready (m + 1) lb'.wrapped) := by
  induction fuel generalizing lb with
  | zero => exact absurd enough.2 (Nat.not_lt_zero _)
  | succ fuel ih =>
      obtain ⟨waits, bound⟩ := enough
      simp only [fill]
      split
      · constructor
        · simp
        · rintro lb' ⟨⟩
          exact ⟨Nat.le_refl _, answers.weaken waits, fun _ => waits⟩
      · rename_i clean
        split
        · rename_i s asked
          obtain ⟨rfl, _⟩ := serves.isEOF lives asked
          constructor
          · simp
          · rintro lb' ⟨⟩
            exact ⟨Nat.le_refl _, answers.weaken waits, fun _ => waits⟩
        · rename_i s asked
          obtain ⟨rfl, _⟩ := serves.isEOF lives asked
          split
          · rename_i running
            exact absurd running (answers.not_running lives (by decide) waits)
          · simp
          · rename_i data s' received
            obtain ⟨lives', _, count, takes⟩ := serves.receive lives received
            obtain ⟨waits', still⟩ := answers.receive lives (by decide) waits received
            have fewer := takes.length_le
            split
            · rename_i some
              have nonempty : data ≠ [] := List.length_pos_iff.mp some
              have taken : (below s').length < fuel :=
                Nat.lt_of_lt_of_le (takes.length_lt nonempty) (Nat.le_of_lt_succ bound)
              obtain ⟨returns, onReturn⟩ :=
                @ih { lb with wrapped := s', remainder := lb.remainder ++ data } lives'
                  ⟨still nonempty, taken⟩
              refine ⟨returns, fun lb' filled => ?_⟩
              obtain ⟨fewer', rest⟩ := onReturn lb' filled
              exact ⟨Nat.le_trans fewer' fewer, rest⟩
            · constructor
              · simp
              · rintro lb' ⟨⟩
                exact ⟨fewer, waits', fun line => absurd line clean⟩

theorem answers (serves : Serves w live below ends)
    (answers : Answers w live ready) :
    Answers (lineBufferDecorator w outOfRange fuel) (Live live)
      (Ready ready below fuel) where
  weaken := by
    rintro m lb ⟨waits, bound⟩
    exact ⟨answers.weaken waits, bound⟩
  not_running := by
    intro k m lb lives nonzero enough
    simp only [lineBufferDecorator, LineBufferDecorator.receive, popLine]
    split
    · have returns := (fill_ready serves answers lives.wrapped enough).1
      split
      · contradiction
      · simp
      · split <;> simp
    · split <;> simp
  receive := by
    intro k m lb lb' line lives nonzero enough call
    by_cases empty : lb.remainingLines = []
    · obtain ⟨filled, returned, collected, popped⟩ :=
        receive_collected k serves lives.wrapped empty call
      obtain ⟨fewer, waits, still⟩ :=
        (fill_ready serves answers lives.wrapped enough).2 filled returned
      have bound : (below filled.wrapped).length < fuel := Nat.lt_of_le_of_lt fewer enough.2
      obtain ⟨sameWrapped, _⟩ := popLine_eq_returned popped
      rw [Ready, Ready, sameWrapped]
      refine ⟨⟨waits, bound⟩, fun some => ⟨still ?_, bound⟩⟩
      -- A line came out, so the loop had stopped at a newline.
      by_contra clean
      rw [popLine, afterSplit, splitLines_of_clean clean, collected.queue, empty] at popped
      cases popped
      exact some rfl
    · have popped : popLine lb = .returned line lb' := by
        simpa only [lineBufferDecorator, LineBufferDecorator.receive, if_neg empty] using call
      obtain ⟨sameWrapped, _⟩ := popLine_eq_returned popped
      rw [Ready, Ready, sameWrapped]
      exact ⟨⟨answers.weaken enough.1, enough.2⟩, fun _ => enough⟩

end LineBufferDecorator

/-! ### The acknowledgement decorator -/

namespace AcknowledgementDecorator

variable {σ : Type u} {w : Connection σ} {live : σ → Prop} {below : σ → List Bytes}
  {ends : σ → Prop} {ready : Nat → σ → Prop}

/-- An auto-acknowledging buffer between two reads that did not throw: it is
empty. -/
structure Live (live : σ → Prop) (a : AcknowledgementDecorator σ) : Prop where
  wrapped : live a.wrapped
  auto : a.autoack = true
  empty : a.buffer = []

theorem requestLength_nil (maxlen : UInt64) : requestLength maxlen [] = maxlen := by
  simp only [requestLength, List.length_nil]
  split
  · exact UInt64.sub_zero maxlen
  · rename_i zero
    exact (UInt64.toNat_inj.mp (Nat.eq_zero_of_not_pos zero)).symm

/-- With an empty buffer a `Receive` that returns passes on what it read. -/
theorem Live.receive {k : UInt64} {a a' : AcknowledgementDecorator σ} {data : Bytes}
    (lives : Live live a) (call : receive w k 0 a = .returned data a') :
    w.receive k 0 a.wrapped = .returned data a'.wrapped ∧ a'.autoack = true ∧
      a'.buffer = [] := by
  obtain ⟨more, received, whole, buffer, auto⟩ := receive_returned call
  rw [lives.empty, List.nil_append] at whole
  rw [lives.empty, requestLength_nil] at received
  rw [lives.auto, if_pos rfl] at buffer
  exact ⟨whole ▸ received, auto.trans lives.auto, buffer⟩

theorem serves (serves : Serves w live below ends) :
    Serves (acknowledgementDecorator w) (Live live) (fun a => below a.wrapped)
      (fun a => ends a.wrapped) where
  nonempty := fun lives => serves.nonempty lives.wrapped
  isEOF := by
    intro a a' atEnd lives call
    obtain ⟨same, ended⟩ := serves.isEOF lives.wrapped rfl
    cases call
    refine ⟨by rw [same], fun atEnd => ?_⟩
    rw [Bool.and_eq_true] at atEnd
    exact ended atEnd.1
  receive := by
    intro k a a' data lives call
    obtain ⟨received, auto, empty⟩ := lives.receive call
    obtain ⟨lives', rest⟩ := serves.receive lives.wrapped received
    exact ⟨⟨lives', auto, empty⟩, rest⟩
  drained := by
    intro k a a' lives nonzero toCome call
    obtain ⟨received, auto, empty⟩ := lives.receive call
    simp only [acknowledgementDecorator, isEOF, empty, Bool.and_eq_true]
    exact ⟨serves.drained lives.wrapped nonzero toCome received, rfl⟩

theorem answers (answers : Answers w live ready) :
    Answers (acknowledgementDecorator w) (Live live) (fun m a => ready m a.wrapped) where
  weaken := answers.weaken
  not_running := by
    intro k m a lives nonzero enough
    have returns := answers.not_running lives.wrapped nonzero enough
    simp only [acknowledgementDecorator, receive_eq, lives.empty, requestLength_nil]
    split
    · contradiction
    · simp
    · split <;> simp
  receive := by
    intro k m a a' data lives nonzero enough call
    exact answers.receive lives.wrapped nonzero enough (lives.receive call).1

end AcknowledgementDecorator

/-! ### The range reader -/

namespace RangeReaderDecorator

variable {σ : Type u} {w : Connection σ} {live : σ → Prop} {below : σ → List Bytes}
  {ends : σ → Prop} {ready : Nat → σ → Prop}

/-- The pieces that begin before the end of the range. -/
def within (maxSize : UInt64) : UInt64 → List Bytes → List Bytes
  | _, [] => []
  | offset, piece :: pieces =>
      if offset ≥ maxSize then []
      else piece :: within maxSize (offset + piece.length.toUInt64) pieces

/-- The offset after all these pieces. -/
def offsetAfter (maxSize : UInt64) : UInt64 → List Bytes → UInt64
  | offset, [] => offset
  | offset, piece :: pieces =>
      if offset ≥ maxSize then offset
      else offsetAfter maxSize (offset + piece.length.toUInt64) pieces

theorem within_of_ge {maxSize offset : UInt64} (read : offset ≥ maxSize)
    (pieces : List Bytes) : within maxSize offset pieces = [] := by
  cases pieces with
  | nil => rfl
  | cons piece pieces => rw [within, if_pos read]

theorem offsetAfter_of_ge {maxSize offset : UInt64} (read : offset ≥ maxSize)
    (pieces : List Bytes) : offsetAfter maxSize offset pieces = offset := by
  cases pieces with
  | nil => rfl
  | cons piece pieces => rw [offsetAfter, if_pos read]

theorem within_subset {maxSize offset : UInt64} {pieces : List Bytes} :
    within maxSize offset pieces ⊆ pieces := by
  induction pieces generalizing offset with
  | nil => exact List.Subset.refl _
  | cons piece pieces ih =>
      rw [within]
      split
      · exact List.nil_subset _
      · exact List.cons_subset_cons piece ih

/-- A read takes pieces that all begin before the end of the range: what is left
is counted from the offset after them. -/
theorem within_take {maxSize offset : UInt64} {pieces : List Bytes} {count : Nat}
    (inside : ∀ i < count,
      offset + (pieces.take i).flatten.length.toUInt64 < maxSize) :
    within maxSize offset pieces = pieces.take count ++
        within maxSize (offset + (pieces.take count).flatten.length.toUInt64)
          (pieces.drop count) ∧
      offsetAfter maxSize offset pieces =
        offsetAfter maxSize (offset + (pieces.take count).flatten.length.toUInt64)
          (pieces.drop count) := by
  induction pieces generalizing offset count with
  | nil => simp [within, offsetAfter]
  | cons piece pieces ih =>
      cases count with
      | zero => simp
      | succ count =>
          have first : ¬ offset ≥ maxSize := by
            simpa using inside 0 (Nat.zero_lt_succ count)
          have shift : ∀ i, offset + ((piece :: pieces).take (i + 1)).flatten.length.toUInt64 =
              offset + piece.length.toUInt64 + (pieces.take i).flatten.length.toUInt64 := by
            intro i
            simp [UInt64.ofNat_add, UInt64.add_assoc]
          have rest := @ih (offset + piece.length.toUInt64) count
            fun i less => shift i ▸ inside (i + 1) (Nat.succ_lt_succ less)
          rw [within, offsetAfter, if_neg first, if_neg first, shift, rest.1, rest.2]
          exact ⟨rfl, rfl⟩

theorem length_take_flatten {pieces : List Bytes} (bytes : ∀ piece ∈ pieces, piece.length = 1)
    (count : Nat) : (pieces.take count).flatten.length ≤ count := by
  induction pieces generalizing count with
  | nil => simp
  | cons piece pieces ih =>
      cases count with
      | zero => simp
      | succ count =>
          have one := bytes piece List.mem_cons_self
          have rest := ih (fun piece member => bytes piece (List.mem_cons_of_mem _ member)) count
          rw [List.take_succ_cons, List.flatten_cons, List.length_append]
          omega

/-- The pieces one request takes all begin inside the range. -/
theorem takes_inside {r : RangeReaderDecorator σ} {k : UInt64} {count : Nat} {data : Bytes}
    {pieces after : List Bytes} (inside : ¬ r.offset ≥ r.maxSize)
    (takes : Takes pieces (requestLength k r.maxSize r.offset) count data after) :
    ∀ i < count, r.offset + (pieces.take i).flatten.length.toUInt64 < r.maxSize := by
  intro i less
  have before : r.offset < r.maxSize := by simpa using inside
  have beforeNat := UInt64.lt_iff_toNat_lt.mp before
  have bound := r.maxSize.toNat_lt
  obtain ⟨requests, left, _⟩ := requestLength_bounds k inside
  have short : (pieces.take i).flatten.length < r.maxSize.toNat - r.offset.toNat := by
    rcases takes.grain with one | ⟨many, bytes⟩
    · obtain rfl : i = 0 := by omega
      simpa using beforeNat
    · have length := length_take_flatten bytes i
      have asked := many requests
      omega
  apply UInt64.lt_iff_toNat_lt.mpr
  rw [UInt64.toNat_add, UInt64.toNat_ofNat']
  omega

/-- The end is to come if that of the wrapped connection is, or if the pieces to
come fill the range. -/
def Ends (below : σ → List Bytes) (ends : σ → Prop) (r : RangeReaderDecorator σ) : Prop :=
  ends r.wrapped ∨ offsetAfter r.maxSize r.offset (below r.wrapped) ≥ r.maxSize

/-- A `Receive` that returns, over a connection whose `IsEOF` changes nothing. -/
theorem receive_live (serves : Serves w live below ends) {k : UInt64}
    {r r' : RangeReaderDecorator σ} {data : Bytes} (lives : live r.wrapped)
    (call : receive w k 0 r = .returned data r') :
    (r.offset ≥ r.maxSize ∧ data = [] ∧ r' = r) ∨
      (¬ r.offset ≥ r.maxSize ∧ ∃ s,
        w.receive (requestLength k r.maxSize r.offset) 0 r.wrapped = .returned data s ∧
        r' = { r with
          wrapped := s
          offset := if (w.isEOF s).1 then r.maxSize
            else r.offset + data.length.toUInt64 }) := by
  rcases receive_cases call with outside | ⟨inside, s, received, rfl⟩
  · exact Or.inl outside
  · have lives' := (serves.receive lives received).1
    have same := (serves.isEOF lives' rfl).1
    exact Or.inr ⟨inside, s, received, by rw [same]⟩

/-- A range reader gives the pieces that begin in its range. -/
theorem serves (serves : Serves w live below ends) :
    Serves (rangeReaderDecorator w) (fun r => live r.wrapped)
      (fun r => within r.maxSize r.offset (below r.wrapped)) (Ends below ends) where
  nonempty := fun lives member => serves.nonempty lives (within_subset member)
  isEOF := by
    intro r r' atEnd lives call
    simp only [rangeReaderDecorator, isEOF] at call
    split at call
    · rename_i read
      cases call
      refine ⟨rfl, fun _ => ⟨within_of_ge read _, Or.inr ?_⟩⟩
      rwa [offsetAfter_of_ge read]
    · obtain ⟨same, ended⟩ := serves.isEOF lives rfl
      cases call
      refine ⟨by rw [same], fun atEnd => ?_⟩
      obtain ⟨none, toCome⟩ := ended atEnd
      exact ⟨by rw [none, within], Or.inl toCome⟩
  receive := by
    intro k r r' data lives call
    rcases receive_live serves lives call with ⟨read, rfl, rfl⟩ | ⟨inside, s, received, rfl⟩
    · exact ⟨lives, Iff.rfl, 0, rfl, rfl, fun _ => within_of_ge read _, Or.inl (Nat.zero_le 1)⟩
    · obtain ⟨requests, _, atMost⟩ := requestLength_bounds k inside
      obtain ⟨lives', same, count, takes⟩ := serves.receive lives received
      obtain ⟨split, offset⟩ := within_take (takes_inside inside takes)
      rw [← takes.data, ← takes.after] at split offset
      refine ⟨lives', ?_, count, ?_⟩
      · cases atEnd : (w.isEOF s).1 with
        | false => simp only [Ends, same, offset, Bool.false_eq_true, if_false]
        | true =>
            have toCome := ((serves.isEOF lives' rfl).2 atEnd).2
            exact iff_of_true (Or.inl toCome) (Or.inl (same.mp toCome))
      · have after : within r.maxSize
            (if (w.isEOF s).1 then r.maxSize else r.offset + data.length.toUInt64) (below s) =
            within r.maxSize (r.offset + data.length.toUInt64) (below s) := by
          split
          · rename_i atEnd
            rw [((serves.isEOF lives' rfl).2 atEnd).1, within, within]
          · rfl
        have last : (below r.wrapped).drop count = [] →
            within r.maxSize (r.offset + data.length.toUInt64) (below s) = [] := by
          intro none
          rw [takes.after, none, within]
        have parts := take_drop_append last
        constructor
        · rw [split, parts.1, takes.data]
        · exact after.trans (split ▸ parts.2.symm)
        · intro zero
          rw [takes.some zero, within]
        · refine takes.grain.imp_right fun bytes => ⟨fun nonzero => ?_, fun piece member => ?_⟩
          · exact Nat.le_trans (bytes.1 requests) (atMost nonzero)
          · exact bytes.2 piece (within_subset member)
  drained := by
    intro k r r' lives nonzero toCome call
    rcases receive_live serves lives call with ⟨read, _, rfl⟩ | ⟨inside, s, received, rfl⟩
    · simp only [rangeReaderDecorator, isEOF, if_pos read]
    · obtain ⟨requests, _, _⟩ := requestLength_bounds k inside
      obtain ⟨lives', same, count, takes⟩ := serves.receive lives received
      have none := takes.eq_nil (serves.nonempty lives)
      -- Nothing was left to read, so the pieces to come cannot fill the range.
      have ended : ends r.wrapped := by
        apply toCome.resolve_right
        rwa [none, offsetAfter]
      have atEnd := serves.drained lives requests ended received
      simp [rangeReaderDecorator, isEOF, atEnd]

theorem answers (serves : Serves w live below ends) (answers : Answers w live ready) :
    Answers (rangeReaderDecorator w) (fun r => live r.wrapped)
      (fun m r => ready m r.wrapped) where
  weaken := answers.weaken
  not_running := by
    intro k m r lives nonzero enough
    simp only [rangeReaderDecorator, receive]
    split
    · simp
    · rename_i inside
      have returns := answers.not_running lives (requestLength_bounds k inside).1 enough
      split
      · contradiction
      · simp
      · split <;> simp
  receive := by
    intro k m r r' data lives nonzero enough call
    rcases receive_live serves lives call with ⟨read, rfl, rfl⟩ | ⟨inside, s, received, rfl⟩
    · exact ⟨answers.weaken enough, fun _ => enough⟩
    · exact answers.receive lives (requestLength_bounds k inside).1 enough received

end RangeReaderDecorator

/-! ### The stack -/

section Stack

open UnixSocketConnection (single Blocking Waits)

/-- The levels' invariants. -/
def StackLive : (levels : List Level) → StackState UnixSocketConnection levels → Prop
  | [] => Blocking
  | .lineBuffer _ :: levels => LineBufferDecorator.Live (StackLive levels)
  | .rangeReader _ _ :: levels => fun st => StackLive levels st.wrapped
  | .acknowledgement _ _ :: levels => AcknowledgementDecorator.Live (StackLive levels)

/-- The pieces the outermost handle will still give. -/
def stackPieces :
    (levels : List Level) → StackState UnixSocketConnection levels → List Bytes
  | [] => fun c => single (UnixSocketConnection.input c)
  | .lineBuffer _ :: levels => LineBufferDecorator.pieces (stackPieces levels)
  | .rangeReader _ _ :: levels => fun r =>
      RangeReaderDecorator.within (RangeReaderDecorator.maxSize r)
        (RangeReaderDecorator.offset r) (stackPieces levels r.wrapped)
  | .acknowledgement _ _ :: levels => fun st => stackPieces levels st.wrapped

/-- Whether the end of the outermost handle is to come. -/
def StackEnds : (levels : List Level) → StackState UnixSocketConnection levels → Prop
  | [] => fun _ => False
  | .lineBuffer _ :: levels => fun st => StackEnds levels st.wrapped
  | .rangeReader _ _ :: levels =>
      RangeReaderDecorator.Ends (stackPieces levels) (StackEnds levels)
  | .acknowledgement _ _ :: levels => fun st => StackEnds levels st.wrapped

/-- The script and the fuel left are enough. -/
def StackReady (fuel : Nat) :
    (levels : List Level) → Nat → StackState UnixSocketConnection levels → Prop
  | [] => UnixSocketConnection.Ready
  | .lineBuffer _ :: levels =>
      LineBufferDecorator.Ready (StackReady fuel levels) (stackPieces levels) fuel
  | .rangeReader _ _ :: levels => fun m st => StackReady fuel levels m st.wrapped
  | .acknowledgement _ _ :: levels => fun m st => StackReady fuel levels m st.wrapped

variable {outOfRange : UInt8}

theorem stack_serves (noCR : outOfRange ≠ CR) (fuel : Nat) (levels : List Level) :
    Serves (stack unixSocketConnection outOfRange fuel levels) (StackLive levels)
      (stackPieces levels) (StackEnds levels) := by
  induction levels with
  | nil => exact UnixSocketConnection.serves
  | cons level levels ih =>
      cases level with
      | lineBuffer own => exact LineBufferDecorator.serves noCR ih
      | rangeReader maxSize own => exact RangeReaderDecorator.serves ih
      | acknowledgement maxBufferSize own => exact AcknowledgementDecorator.serves ih

theorem stack_answers (noCR : outOfRange ≠ CR) (fuel : Nat) (levels : List Level) :
    Answers (stack unixSocketConnection outOfRange fuel levels) (StackLive levels)
      (StackReady fuel levels) := by
  induction levels with
  | nil => exact UnixSocketConnection.answers
  | cons level levels ih =>
      have serves := stack_serves noCR fuel levels
      cases level with
      | lineBuffer own => exact LineBufferDecorator.answers serves ih
      | rangeReader maxSize own => exact RangeReaderDecorator.answers serves ih
      | acknowledgement maxBufferSize own => exact AcknowledgementDecorator.answers ih

/-- The pieces a new stack gives of the stream `S`. -/
def supplied : List Level → Bytes → List Bytes
  | [], S => single S
  | .lineBuffer _ :: levels, S => shownLines (supplied levels S).flatten
  | .rangeReader maxSize _ :: levels, S =>
      RangeReaderDecorator.within maxSize 0 (supplied levels S)
  | .acknowledgement _ _ :: levels, S => supplied levels S

/-- Some range reader of the stack gets its whole range of the stream `S` from
the levels below it. -/
def Fills : List Level → Bytes → Prop
  | [], _ => False
  | .lineBuffer _ :: levels, S => Fills levels S
  | .rangeReader maxSize _ :: levels, S =>
      Fills levels S ∨
        RangeReaderDecorator.offsetAfter maxSize 0 (supplied levels S) ≥ maxSize
  | .acknowledgement _ _ :: levels, S => Fills levels S

/-- A new stack of auto-acknowledging levels over a socket whose peer sends `S`
and closes. -/
def opened (S : Bytes) (replies : List RecvReply) (now : UInt64) (levels : List Level) :
    StackState UnixSocketConnection levels :=
  .build true (.new S replies now) levels

variable {S : Bytes} {replies : List RecvReply} {now : UInt64}

theorem live_opened (waits : ∀ reply ∈ replies, Waits reply) (levels : List Level) :
    StackLive levels (opened S replies now levels) := by
  induction levels with
  | nil => exact ⟨rfl, waits⟩
  | cons level levels ih =>
      cases level with
      | lineBuffer own => exact ⟨ih, List.not_mem_nil⟩
      | rangeReader maxSize own => exact ih
      | acknowledgement maxBufferSize own => exact ⟨ih, rfl, rfl⟩

theorem pieces_opened (levels : List Level) :
    stackPieces levels (opened S replies now levels) = supplied levels S := by
  induction levels with
  | nil => rfl
  | cons level levels ih =>
      cases level with
      | lineBuffer own =>
          calc LineBufferDecorator.pieces (stackPieces levels)
                (.new (opened S replies now levels) own)
              = shownLines (stackPieces levels (opened S replies now levels)).flatten := rfl
            _ = shownLines (supplied levels S).flatten := by rw [ih]
      | rangeReader maxSize own =>
          exact congrArg (RangeReaderDecorator.within maxSize 0) ih
      | acknowledgement maxBufferSize own => exact ih

theorem ends_opened (levels : List Level) :
    StackEnds levels (opened S replies now levels) ↔ Fills levels S := by
  induction levels with
  | nil => exact Iff.rfl
  | cons level levels ih =>
      cases level with
      | lineBuffer own => exact ih
      | rangeReader maxSize own =>
          rw [Fills, ← pieces_opened levels]
          exact or_congr_left ih
      | acknowledgement maxBufferSize own => exact ih

theorem ready_opened (script : S.length + 1 ≤ replies.length) (levels : List Level) :
    ∃ enough, ∀ fuel, enough ≤ fuel →
      StackReady fuel levels 1 (opened S replies now levels) := by
  induction levels with
  | nil => exact ⟨0, fun _ _ => script⟩
  | cons level levels ih =>
      obtain ⟨enough, ready⟩ := ih
      cases level with
      | lineBuffer own =>
          refine ⟨max enough ((supplied levels S).length + 1), fun fuel more => ⟨?_, ?_⟩⟩
          · exact ready fuel (Nat.le_trans (Nat.le_max_left _ _) more)
          · have same : stackPieces levels (opened S replies now levels) = supplied levels S :=
              pieces_opened levels
            have bound := Nat.le_trans (Nat.le_max_right _ _) more
            exact Nat.lt_of_lt_of_le (congrArg List.length same ▸ Nat.lt_succ_self _) bound
      | rangeReader maxSize own => exact ⟨enough, ready⟩
      | acknowledgement maxBufferSize own => exact ⟨enough, ready⟩

/-- The loop that reads a stack to the end of file ends exactly if some range
reader of it gets its whole range.  `reply` answers the `recv` calls, one after
the other; each waits until it can give a byte or the peer has closed.  The
buffer limits are such that no `Receive` of the loop throws. -/
theorem consume_ends_iff (noCR : outOfRange ≠ CR) (S : Bytes) (reply : Nat → RecvReply)
    (waits : ∀ i, Waits (reply i)) (now : UInt64) (levels : List Level)
    (quiet : ∀ recvs fuel, Quiet (stack unixSocketConnection outOfRange fuel levels)
      (opened S ((List.range recvs).map reply) now levels)) :
    (∃ recvs fuel turns, (consume (stack unixSocketConnection outOfRange fuel levels) turns
      (opened S ((List.range recvs).map reply) now levels)).isSome) ↔ Fills levels S := by
  have lives : ∀ recvs, StackLive levels (opened S ((List.range recvs).map reply) now levels) := by
    intro recvs
    apply live_opened
    intro _ member
    obtain ⟨i, _, rfl⟩ := List.mem_map.mp member
    exact waits i
  constructor
  · rintro ⟨recvs, fuel, turns, ended⟩
    exact (ends_opened levels).mp
      ((stack_serves noCR fuel levels).ends_of_consume (lives recvs) (quiet recvs fuel) ended)
  · intro fills
    have script : S.length + 1 ≤ ((List.range (S.length + 1)).map reply).length := by simp
    obtain ⟨fuel, ready⟩ : ∃ enough, ∀ fuel, enough ≤ fuel →
        StackReady fuel levels 1 (opened S _ now levels) := ready_opened script levels
    obtain ⟨turns, ended⟩ := (stack_answers noCR fuel levels).consume_returns
      (stack_serves noCR fuel levels) (lives _) ((ends_opened levels).mpr fills)
      (ready fuel (Nat.le_refl fuel)) (quiet _ fuel)
    exact ⟨_, fuel, turns, ended⟩

end Stack

/-! ### Ranges over the socket -/

section Range

open UnixSocketConnection (Waits)

/-- A `recv` that finds at most one byte at a time. -/
def byteByByte (_ : Nat) : RecvReply := ⟨.bytes 1, 0⟩

theorem byteByByte_waits (i : Nat) : Waits (byteByByte i) := ⟨0, 0, rfl⟩

/-- A range reader over the socket does not throw, and gives at most the range. -/
theorem range_receive {k : UInt64} (r : RangeReaderDecorator UnixSocketConnection) :
    (∀ error r', r.receive unixSocketConnection k 0 ≠ .threw error r') ∧
      ∀ data r', r.receive unixSocketConnection k 0 = .returned data r' →
        data.length ≤ r.maxSize.toNat ∧ r'.maxSize = r.maxSize := by
  constructor
  · intro error r' call
    rw [RangeReaderDecorator.receive] at call
    split at call
    · cases call
    · split at call
      · cases call
      · rename_i thrown
        exact UnixSocketConnection.receive_not_threw thrown
      · split at call <;> cases call
  · intro data r' call
    rcases RangeReaderDecorator.receive_cases call with ⟨_, rfl, rfl⟩ | ⟨inside, s, received, rfl⟩
    · exact ⟨Nat.zero_le _, rfl⟩
    · obtain ⟨nonzero, left, _⟩ := RangeReaderDecorator.requestLength_bounds k inside
      have short := (UnixSocketConnection.receive_returned received).2 nonzero
      exact ⟨by omega, rfl⟩

/-- An auto-acknowledging buffer of 16 bytes over a range of two. -/
def bufferedRange : List Level := [.acknowledgement 16 true, .rangeReader 2 false]

/-- Between two turns of its loop: the buffer is empty, and the range fits. -/
structure Small (a : AcknowledgementDecorator (RangeReaderDecorator UnixSocketConnection)) :
    Prop where
  empty : a.buffer = []
  auto : a.autoack = true
  limit : a.maxBufferSize = 16
  range : a.wrapped.maxSize = 2

theorem Small.receive {k : UInt64}
    {a : AcknowledgementDecorator (RangeReaderDecorator UnixSocketConnection)}
    (small : Small a) :
    (∀ error a', a.receive (rangeReaderDecorator unixSocketConnection) k 0 ≠
      .threw error a') ∧
    ∀ data a', a.receive (rangeReaderDecorator unixSocketConnection) k 0 =
      .returned data a' → Small a' := by
  obtain ⟨empty, auto, limit, range⟩ := small
  rw [AcknowledgementDecorator.receive_eq, empty, AcknowledgementDecorator.requestLength_nil]
  obtain ⟨calm, short⟩ := @range_receive k a.wrapped
  split
  · simp
  · rename_i thrown
    exact absurd thrown (calm _ _)
  · rename_i more r received
    obtain ⟨fits, same⟩ := short more r received
    have room : ¬ ([] ++ more).length > a.maxBufferSize.toNat := by
      rw [range] at fits
      rw [limit, List.nil_append]
      exact Nat.not_lt.mpr (Nat.le_trans fits (by decide))
    rw [if_neg room]
    constructor
    · simp
    · rintro data a' ⟨⟩
      exact ⟨by simp [auto], auto, limit, same.trans range⟩

theorem Small.asked {a a' : AcknowledgementDecorator (RangeReaderDecorator UnixSocketConnection)}
    {atEnd : Bool} (small : Small a)
    (call : a.isEOF (rangeReaderDecorator unixSocketConnection) = (atEnd, a')) : Small a' := by
  cases call
  refine ⟨small.empty, small.auto, small.limit, ?_⟩
  have range := small.range
  simp only [rangeReaderDecorator, RangeReaderDecorator.isEOF]
  split <;> exact range

/-- The range is read to its end: the stream has three bytes. -/
theorem consume_ends_of_range :
    (∃ recvs fuel turns, (consume (stack unixSocketConnection 0 fuel bufferedRange) turns
      (opened [97, 98, 99] ((List.range recvs).map byteByByte) 0 bufferedRange)).isSome) ↔
      Fills bufferedRange [97, 98, 99] := by
  apply consume_ends_iff (by decide) _ _ byteByByte_waits
  intro recvs fuel st t turns asked error st'
  have small : Small st := by
    clear asked
    induction turns with
    | refl => exact ⟨rfl, rfl, rfl, rfl⟩
    | tail _ turn ih =>
        obtain ⟨_, _, asked, received⟩ := turn
        exact (ih.asked asked).receive.2 _ _ received
  exact (small.asked asked).receive.1 error st'

/-- A range of five bytes of a stream of two: the loop never ends. -/
theorem consume_never_ends :
    ¬ ∃ recvs fuel turns : Nat,
      (consume (stack unixSocketConnection 0 fuel [.rangeReader 5 false]) turns
        (opened [97, 98] ((List.range recvs).map byteByByte) 0
          [.rangeReader 5 false])).isSome = true := by
  rintro ⟨recvs, fuel, turns, ended⟩
  have waits : ∀ reply ∈ (List.range recvs).map byteByByte, Waits reply := by
    intro _ member
    obtain ⟨i, _, rfl⟩ := List.mem_map.mp member
    exact byteByByte_waits i
  have quiet : Quiet (stack unixSocketConnection 0 fuel [.rangeReader 5 false])
      (opened [97, 98] ((List.range recvs).map byteByByte) 0 [.rangeReader 5 false]) :=
    fun _ _ _ _ error r' => (range_receive _).1 error r'
  have fills := (ends_opened _).mp
    ((stack_serves (by decide) fuel _).ends_of_consume (live_opened waits _) quiet ended)
  exact absurd fills (by simp only [Fills]; decide)

end Range

end LibSiot
