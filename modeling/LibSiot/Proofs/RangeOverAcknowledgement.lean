/-
Module: LibSiot.Proofs.RangeOverAcknowledgement
Purpose: A range reader over an auto-acknowledging buffer over a socket.  The
  three classes read the length 0 differently, so that the range is exact only
  if the bytes already buffered do not fill the first read.
Trusted boundary: none
Main exports: RangeOverAck.ExactRange, RangeOverAck.FirstReadFits,
  RangeOverAck.exactRange_iff
-/
import LibSiot.Decorators.RangeReader
import LibSiot.Proofs.Acknowledgement
import LibSiot.Proofs.RangeReader

namespace LibSiot

namespace RangeOverAck

open RangeReaderDecorator (Within)

/-- The buffer over the socket, as one connection. -/
def buffered : Connection (AcknowledgementDecorator UnixSocketConnection) :=
  acknowledgementDecorator unixSocketConnection

/-- An auto-acknowledging buffer that already holds `buffer`. -/
def holding (buffer : Bytes) (maxBufferSize : UInt64) (c : UnixSocketConnection) :
    AcknowledgementDecorator UnixSocketConnection :=
  { wrapped := c, owned := true, maxBufferSize := maxBufferSize, autoack := true,
    buffer := buffer }

/-- The `Receive` calls of a user of the range. -/
def readAll (lens : List UInt64)
    (r : RangeReaderDecorator (AcknowledgementDecorator UnixSocketConnection)) :=
  callAll (fun len => RangeReaderDecorator.receive buffered len 0) lens r

/-- What a range of `size` bytes of `stream` promises: results within their
requests that are a prefix of the stream, and, once the range is delivered, a
buffer that continues with the byte after it. -/
structure ExactRange (stream : Bytes) (size : UInt64) (lens : List UInt64)
    (results : List (Except ClientConnectionException Bytes))
    (a : AcknowledgementDecorator UnixSocketConnection) : Prop where
  within : List.Forall₂ Within lens results
  isPrefix : (returnedValues results).flatten <+: stream
  bounded : (returnedValues results).flatten.length ≤ size.toNat
  remaining : (returnedValues results).flatten.length = size.toNat →
    a.buffer ++ a.wrapped.input = stream.drop size.toNat ∧
      ∀ maxlen data a', buffered.receive maxlen 0 a = .returned data a' →
        data <+: stream.drop size.toNat

/-- How many bytes the first `Receive(len)` of a range of `size` may return. -/
def firstAllowed (len size : UInt64) : Nat :=
  if len = 0 then size.toNat else min len.toNat size.toNat

/-- The bytes already buffered leave room in the first read, or exactly fill it
while the socket has nothing to add. -/
def FirstReadFits (buffer : Bytes) (size : UInt64) (c : UnixSocketConnection) :
    List UInt64 → Prop
  | [] => True
  | len :: _ =>
      size = 0 ∨ buffer.length < firstAllowed len size ∨
        (buffer.length = firstAllowed len size ∧ c.NothingToRead)

/-! ### One read -/

/-- A read of an auto-acknowledging buffer hands out the buffer and new bytes of
the socket, and leaves the buffer empty. -/
theorem buffered_returned {a a' : AcknowledgementDecorator UnixSocketConnection}
    {maxlen : UInt64} {data : Bytes} (auto : a.autoack = true)
    (call : buffered.receive maxlen 0 a = .returned data a') :
    data ++ a'.wrapped.input = a.buffer ++ a.wrapped.input ∧ a'.buffer = [] ∧
      a'.autoack = true := by
  obtain ⟨more, inner, rfl, kept, same⟩ := AcknowledgementDecorator.receive_returned call
  obtain ⟨split, _⟩ := UnixSocketConnection.receive_returned inner
  refine ⟨?_, by rw [kept, if_pos auto], same.trans auto⟩
  rw [List.append_assoc, split]

/-- With room left by the buffer, the request passed on keeps the result within
the length asked for. -/
theorem buffered_within {a a' : AcknowledgementDecorator UnixSocketConnection}
    {maxlen : UInt64} {data : Bytes} (room : a.buffer.length < maxlen.toNat)
    (call : buffered.receive maxlen 0 a = .returned data a') :
    data.length ≤ maxlen.toNat := by
  obtain ⟨more, inner, rfl, _⟩ := AcknowledgementDecorator.receive_returned call
  obtain ⟨_, short⟩ := UnixSocketConnection.receive_returned inner
  have small : maxlen.toNat < 2 ^ 64 := maxlen.toNat_lt
  have asked := AcknowledgementDecorator.toNat_requestLength room
  have nonzero : AcknowledgementDecorator.requestLength maxlen a.buffer ≠ 0 := by
    intro zero
    rw [zero] at asked
    simp only [UInt64.toNat_zero] at asked
    omega
  have bound := short nonzero
  rw [List.length_append]
  omega

/-- With no room left, the request passed on is 0, which the socket takes for no
limit at all. -/
theorem buffered_unlimited {a a' : AcknowledgementDecorator UnixSocketConnection}
    {maxlen : UInt64} {data : Bytes} (full : maxlen.toNat ≤ a.buffer.length)
    (call : buffered.receive maxlen 0 a = .returned data a') :
    ∃ more, data = a.buffer ++ more ∧ (more = [] ↔ a.wrapped.NothingToRead) := by
  obtain ⟨more, inner, rfl, _⟩ := AcknowledgementDecorator.receive_returned call
  rw [AcknowledgementDecorator.requestLength, if_neg (by omega)] at inner
  exact ⟨more, rfl, UnixSocketConnection.receive_unlimited inner⟩

/-! ### Runs -/

variable {stream buffer : Bytes} {size : UInt64} {c : UnixSocketConnection}

/-- A range that is exact so far: what was delivered, what is buffered and what
waits in the socket make up the stream, and inside the range nothing is
buffered. -/
structure OnTrack (stream delivered : Bytes)
    (r : RangeReaderDecorator (AcknowledgementDecorator UnixSocketConnection)) : Prop where
  auto : r.wrapped.autoack = true
  split : delivered ++ (r.wrapped.buffer ++ r.wrapped.wrapped.input) = stream
  bounded : delivered.length ≤ r.maxSize.toNat
  offset : r.offset.toNat = delivered.length ∨ r.offset = r.maxSize
  unbuffered : ¬ r.offset ≥ r.maxSize → r.wrapped.buffer = []

/-- One read inside the range stays on track if its result is no longer than
what it asked for. -/
theorem OnTrack.advance (delivered : Bytes) {data : Bytes} {k : UInt64}
    {r : RangeReaderDecorator (AcknowledgementDecorator UnixSocketConnection)}
    {a : AcknowledgementDecorator UnixSocketConnection} (auto : r.wrapped.autoack = true)
    (split : delivered ++ (r.wrapped.buffer ++ r.wrapped.wrapped.input) = stream)
    (counts : r.offset.toNat = delivered.length)
    (fits : delivered.length + data.length ≤ r.maxSize.toNat)
    (call : buffered.receive k 0 r.wrapped = .returned data a) :
    OnTrack stream (delivered ++ data)
      { r with
        wrapped := (buffered.isEOF a).2
        offset := if (buffered.isEOF a).1 then r.maxSize
          else r.offset + data.length.toUInt64 } := by
  obtain ⟨moved, empty, stays⟩ := buffered_returned auto call
  have small : r.maxSize.toNat < 2 ^ 64 := r.maxSize.toNat_lt
  refine ⟨stays, ?_, ?_, ?_, fun _ => empty⟩
  · have same : (buffered.isEOF a).2 = a := rfl
    rw [same, empty, List.nil_append, List.append_assoc, moved, split]
  · rw [List.length_append]
    exact fits
  · cases (buffered.isEOF a).1 with
    | true => exact Or.inr rfl
    | false =>
        left
        have wide := Bytes.toNat_length (show data.length < 2 ^ 64 by omega)
        simp only [Bool.false_eq_true, if_false, UInt64.toNat_add, wide, counts,
          List.length_append]
        exact Nat.mod_eq_of_lt (by omega)

/-- Once on track, every read stays there and is within its request. -/
theorem OnTrack.receive {delivered data : Bytes} {len : UInt64}
    {r r' : RangeReaderDecorator (AcknowledgementDecorator UnixSocketConnection)}
    (track : OnTrack stream delivered r)
    (call : RangeReaderDecorator.receive buffered len 0 r = .returned data r') :
    OnTrack stream (delivered ++ data) r' ∧ r'.maxSize = r.maxSize ∧
      (len ≠ 0 → data.length ≤ len.toNat) := by
  rcases RangeReaderDecorator.receive_cases call with
    ⟨_, rfl, rfl⟩ | ⟨inside, a, received, rfl⟩
  · exact ⟨by simpa using track, rfl, fun _ => Nat.zero_le _⟩
  · obtain ⟨nonzero, left, within⟩ :=
      RangeReaderDecorator.requestLength_bounds len inside
    have counts : r.offset.toNat = delivered.length := by
      rcases track.offset with counts | moved
      · exact counts
      · exact absurd (moved ▸ UInt64.le_refl _) inside
    have positive := UInt64.pos_iff_ne_zero.mpr nonzero
    have short := buffered_within
      (by rw [track.unbuffered inside]; exact UInt64.lt_iff_toNat_lt.mp positive) received
    have bounded := track.bounded
    refine ⟨OnTrack.advance delivered track.auto track.split counts (by omega) received, rfl, ?_⟩
    intro asked
    exact Nat.le_trans short (within asked)

/-- From a state on track, a run without exceptions stays on track. -/
theorem OnTrack.readAll {delivered : Bytes} {lens : List UInt64}
    {results : List (Except ClientConnectionException Bytes)}
    {r r' : RangeReaderDecorator (AcknowledgementDecorator UnixSocketConnection)}
    (track : OnTrack stream delivered r)
    (run : RangeOverAck.readAll lens r = some (results, r'))
    (quiet : ∀ error, .error error ∉ results) :
    OnTrack stream (delivered ++ (returnedValues results).flatten) r' ∧
      r'.maxSize = r.maxSize ∧ List.Forall₂ Within lens results := by
  refine callAll_induction
    (fun r lens results r' => ∀ delivered, OnTrack stream delivered r →
      (∀ error, .error error ∉ results) →
      OnTrack stream (delivered ++ (returnedValues results).flatten) r' ∧
        r'.maxSize = r.maxSize ∧ List.Forall₂ Within lens results) ?_ ?_ ?_ run
    delivered track quiet
  · intro r delivered track _
    exact ⟨by simpa using track, rfl, .nil⟩
  · intro r len data s lens results r' call rest delivered track quiet
    obtain ⟨moved, range, short⟩ := track.receive call
    obtain ⟨last, same, within⟩ :=
      rest _ moved fun error member => quiet error (List.mem_cons_of_mem _ member)
    refine ⟨?_, same.trans range, .cons ?_ within⟩
    · rwa [returnedValues_ok_cons, List.flatten_cons, ← List.append_assoc]
    · rintro _ ⟨rfl⟩
      exact short
  · intro r len error s lens results r' call rest delivered track quiet
    exact absurd List.mem_cons_self (quiet error)

/-- A run that ends on track has kept the promise of the range. -/
theorem OnTrack.exactRange {lens : List UInt64}
    {results : List (Except ClientConnectionException Bytes)}
    {r : RangeReaderDecorator (AcknowledgementDecorator UnixSocketConnection)}
    (track : OnTrack stream (returnedValues results).flatten r) (range : r.maxSize = size)
    (within : List.Forall₂ Within lens results) :
    ExactRange stream size lens results r.wrapped := by
  refine ⟨within, ⟨_, track.split⟩, range ▸ track.bounded, fun full => ?_⟩
  have rest : r.wrapped.buffer ++ r.wrapped.wrapped.input = stream.drop size.toNat := by
    rw [← track.split, ← full, List.drop_left]
  refine ⟨rest, fun maxlen data a' call => ?_⟩
  rw [← rest, ← (buffered_returned track.auto call).1]
  exact List.prefix_append _ _

/-! ### The first read -/

/-- The first request is for as many bytes as the first read may return. -/
theorem requestLength_zero (len size : UInt64) :
    (RangeReaderDecorator.requestLength len size 0).toNat = firstAllowed len size := by
  rw [RangeReaderDecorator.requestLength, firstAllowed, UInt64.sub_zero]
  by_cases zero : len = 0
  · simp [zero]
  · by_cases more : len > size
    · have := UInt64.lt_iff_toNat_lt.mp more
      rw [if_pos (Or.inr more), if_neg zero]
      omega
    · have := UInt64.lt_iff_toNat_lt.not.mp more
      rw [if_neg (not_or.mpr ⟨zero, more⟩), if_neg zero]
      omega

theorem firstAllowed_le {len size : UInt64} :
    firstAllowed len size ≤ size.toNat ∧ (len ≠ 0 → firstAllowed len size ≤ len.toNat) := by
  rw [firstAllowed]
  split
  · rename_i zero
    exact ⟨Nat.le_refl _, fun nonzero => absurd zero nonzero⟩
  · exact ⟨Nat.min_le_right _ _, fun _ => Nat.min_le_left _ _⟩

/-- What the first read returns is within what it may return exactly if the bytes
already buffered fit. -/
theorem first_read_iff {maxBufferSize len : UInt64} {lens : List UInt64} {data : Bytes}
    {a : AcknowledgementDecorator UnixSocketConnection} (nonempty : size ≠ 0)
    (call : buffered.receive (RangeReaderDecorator.requestLength len size 0) 0
      (holding buffer maxBufferSize c) = .returned data a) :
    data.length ≤ firstAllowed len size ↔ FirstReadFits buffer size c (len :: lens) := by
  have asked := requestLength_zero len size
  simp only [FirstReadFits, nonempty, false_or]
  by_cases room : buffer.length < firstAllowed len size
  · have short := buffered_within (show (holding buffer maxBufferSize c).buffer.length < _ by
      rw [asked]; exact room) call
    exact ⟨fun _ => Or.inl room, fun _ => asked ▸ short⟩
  · obtain ⟨more, rfl, nothing⟩ := buffered_unlimited (by rw [asked]; exact Nat.le_of_not_lt room)
      call
    have old : (holding buffer maxBufferSize c).buffer = buffer := rfl
    rw [← show _ ↔ c.NothingToRead from nothing, old, List.length_append,
      ← List.length_eq_zero_iff]
    omega

/-- The promise of the range holds exactly if the bytes already buffered fit the
first read.  `results` are those of a run in which nothing threw, for any size,
any requests and any way the socket cuts its input. -/
theorem exactRange_iff (buffer : Bytes) (c : UnixSocketConnection)
    (maxBufferSize size : UInt64) (lens : List UInt64)
    {results : List (Except ClientConnectionException Bytes)}
    {r : RangeReaderDecorator (AcknowledgementDecorator UnixSocketConnection)}
    (run : readAll lens (.new (holding buffer maxBufferSize c) size false) =
      some (results, r))
    (quiet : ∀ error, .error error ∉ results) :
    ExactRange (buffer ++ c.input) size lens results r.wrapped ↔
      FirstReadFits buffer size c lens := by
  by_cases empty : size = 0
  · -- Nothing is ever read.
    have track : OnTrack (buffer ++ c.input) []
        (.new (holding buffer maxBufferSize c) size false) :=
      ⟨rfl, rfl, Nat.zero_le _, Or.inl rfl,
        fun inside => absurd (empty ▸ UInt64.le_refl _) inside⟩
    obtain ⟨last, range, within⟩ := track.readAll run quiet
    refine ⟨fun _ => ?_, fun _ => last.exactRange range within⟩
    cases lens with
    | nil => trivial
    | cons len lens => exact Or.inl empty
  · cases lens with
    | nil =>
        cases run
        refine ⟨fun _ => trivial, fun _ => ⟨.nil, List.nil_prefix, Nat.zero_le _, fun full => ?_⟩⟩
        exact absurd (UInt64.toNat_inj.mp full.symm) empty
    | cons len lens =>
        have inside : ¬ (0 : UInt64) ≥ size := by
          intro outside
          exact empty (UInt64.le_zero_iff.mp outside)
        obtain ⟨data, s, rest, rfl, call, tail⟩ := callAll_cons_quiet run quiet
        rcases RangeReaderDecorator.receive_cases call with
          ⟨outside, _⟩ | ⟨_, a, received, rfl⟩
        · exact absurd outside inside
        · rw [← first_read_iff empty received]
          obtain ⟨inRange, inRequest⟩ := @firstAllowed_le len size
          constructor
          · intro exact_
            obtain ⟨first, _⟩ := List.forall₂_cons.mp exact_.within
            have total := exact_.bounded
            rw [returnedValues_ok_cons, List.flatten_cons, List.length_append] at total
            rw [firstAllowed]
            split
            · omega
            · rename_i asked
              exact le_min (first data rfl asked) (by omega)
          · intro short
            have fits : ([] : Bytes).length + data.length ≤ size.toNat := by
              simpa using Nat.le_trans short inRange
            have start : [] ++ (buffer ++ c.input) = buffer ++ c.input := rfl
            have track := OnTrack.advance []
              (r := .new (holding buffer maxBufferSize c) size false)
              rfl start rfl fits received
            obtain ⟨last, range, within⟩ := track.readAll tail fun error member =>
              quiet error (List.mem_cons_of_mem _ member)
            refine OnTrack.exactRange ?_ range (.cons ?_ within)
            · rwa [returnedValues_ok_cons, List.flatten_cons]
            · rintro _ ⟨rfl⟩ asked
              exact Nat.le_trans short (inRequest asked)

/-! ### The buffer filling the range -/

/-- The socket behind the buffer in the runs below: it delivers `d` at once. -/
def oneByte : UnixSocketConnection := .new [100] [⟨.bytes 1, 1⟩] 0

/-- The state after the range of 2 was read with `abc` buffered. -/
def overrun : RangeReaderDecorator (AcknowledgementDecorator UnixSocketConnection) :=
  { wrapped :=
      { wrapped := { input := [], replies := [], eof := false, lastUse := 1 }
        owned := true
        maxBufferSize := 10
        autoack := true
        buffer := [] }
    owned := false
    maxSize := 2
    offset := 4 }

/-- With `abc` buffered, a range of 2 returns all of it and the byte of the socket
too, and leaves nothing for the next request. -/
theorem exactRange_fails :
    readAll [0] (.new (holding [97, 98, 99] 10 oneByte) 2 false) =
        some ([.ok [97, 98, 99, 100]], overrun) ∧
      ¬ ExactRange ([97, 98, 99] ++ oneByte.input) 2 [0] [.ok [97, 98, 99, 100]]
        overrun.wrapped := by
  refine ⟨rfl, fun exact_ => ?_⟩
  exact absurd exact_.bounded (by decide)

/-- With `a` buffered, the range of 2 is exact. -/
theorem exactRange_iff_with_room :
    ExactRange ([97] ++ oneByte.input) 2 [0] [.ok [97, 100]] overrun.wrapped := by
  have run : readAll [0] (.new (holding [97] 10 oneByte) 2 false) =
      some ([.ok [97, 100]], { overrun with offset := 2 }) := rfl
  have room : FirstReadFits [97] 2 oneByte [0] := Or.inr (Or.inl (by decide))
  exact (exactRange_iff [97] oneByte 10 2 [0] run (by simp)).mpr room

end RangeOverAck

end LibSiot
