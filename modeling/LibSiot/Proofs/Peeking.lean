/-
Module: LibSiot.Proofs.Peeking
Purpose: When a peek through a decorator is unseen: the bytes it shows stay in the socket,
  but the decorator counts them as read.  Each peek is compared with none by a relation
  between the two states that later calls keep; where it fails, calls are given that tell
  the two apart.
Trusted boundary: none
Main exports: SocketRead, UnixSocketConnection.got, RangeReaderDecorator.Harmless,
  AcknowledgementDecorator.Harmless, peeks_unseen
-/
import LibSiot.Proofs.Acknowledgement
import LibSiot.Proofs.RangeReader

namespace LibSiot

/-- A call that reads from a decorator over a socket, and how the kernel answers if it
comes to a `recv`. -/
structure SocketRead where
  call : ReadCall
  reply : RecvReply
deriving Repr, DecidableEq

/-- The call is a `Receive` with `MSG_PEEK` among its flags. -/
def SocketRead.peeks (i : SocketRead) : Bool :=
  match i.call with
  | .receive _ flags => flags &&& MSG_PEEK ≠ 0
  | .isEOF => false

theorem SocketRead.peeks_receive (len : UInt64) (flags : UInt32) (reply : RecvReply) :
    SocketRead.peeks ⟨.receive len flags, reply⟩ = true ↔ flags &&& MSG_PEEK ≠ 0 :=
  decide_eq_true_iff

/-- The answer has an error number that the socket takes for the end of file. -/
def RecvReply.ends (reply : RecvReply) : Bool :=
  match reply.result with
  | .bytes _ => false
  | .error errno => errno ∈ [Errno.EBADF, Errno.EINVAL, Errno.ENOTCONN]

/-! ### The socket -/

namespace UnixSocketConnection

/-- The next `recv` is answered so. -/
def awaiting (reply : RecvReply) (c : UnixSocketConnection) : UnixSocketConnection :=
  { c with replies := [reply] }

/-- The bytes a `Receive` that is answered so returns. -/
def got (maxlen : UInt64) (reply : RecvReply) (c : UnixSocketConnection) : Bytes :=
  match reply.result with
  | .bytes limit => recvBytes limit (bufferLength maxlen) c
  | .error _ => []

/-- What it leaves. -/
def left (maxlen : UInt64) (flags : UInt32) (reply : RecvReply) (c : UnixSocketConnection) :
    UnixSocketConnection where
  input := if flags &&& MSG_PEEK = 0 then c.input.drop (c.got maxlen reply).length else c.input
  replies := []
  eof := c.eof || reply.ends
  lastUse := reply.now

theorem receive_awaiting (maxlen : UInt64) (flags : UInt32) (reply : RecvReply)
    (c : UnixSocketConnection) :
    (c.awaiting reply).receive maxlen flags =
      .returned (c.got maxlen reply) (c.left maxlen flags reply) := by
  obtain ⟨result, now⟩ := reply
  cases result with
  | bytes limit => simp [receive, awaiting, got, left, RecvReply.ends, recvBytes]
  | error errno => simp [receive, awaiting, got, left, RecvReply.ends]

variable {c c' : UnixSocketConnection} {k k' : UInt64}

theorem length_got_le_input (k : UInt64) (reply : RecvReply) (c : UnixSocketConnection) :
    (c.got k reply).length ≤ c.input.length := by
  rw [got]
  split
  · rw [recvBytes, List.length_take]
    exact Nat.min_le_right _ _
  · exact Nat.zero_le _

theorem length_got_le (nonzero : k ≠ 0) (reply : RecvReply) (c : UnixSocketConnection) :
    (c.got k reply).length ≤ k.toNat := by
  rw [got]
  split
  · have buffer := bufferLength_le nonzero
    rw [recvBytes, List.length_take]
    omega
  · exact Nat.zero_le _

theorem got_congr (same : c.input = c'.input) (k : UInt64) (reply : RecvReply) :
    c.got k reply = c'.got k reply := by
  rw [got, got]
  simp only [recvBytes, same]

/-- Requests for more than there is are answered alike. -/
theorem got_long (long : c.input.length < k.toNat) (long' : c.input.length < k'.toNat)
    (reply : RecvReply) : c.got k reply = c.got k' reply := by
  have whole : ∀ {k : UInt64} {limit : Nat}, c.input.length < k.toNat →
      recvBytes limit (bufferLength k) c = c.input.take (min limit 65536) := by
    intro k limit long
    rw [recvBytes, List.take_eq_take_iff, bufferLength]
    split
    · rfl
    · rename_i short
      have bound : k.toNat ≤ 65536 :=
        UInt64.le_iff_toNat_le.mp (UInt64.not_lt.mp (not_or.mp short).2)
      omega
  rw [got, got]
  split
  · rw [whole long, whole long']
  · rfl

end UnixSocketConnection

/-! ### The range reader -/

namespace RangeReaderDecorator

open UnixSocketConnection (awaiting)

/-- One call of a range reader over a socket. -/
def serve (i : SocketRead) (r : RangeReaderDecorator UnixSocketConnection) :
    Outcome (RangeReaderDecorator UnixSocketConnection) ReadResult :=
  (rangeReaderDecorator unixSocketConnection).answer i.call
    { r with wrapped := r.wrapped.awaiting i.reply }

/-- The bytes that a `Receive` inside the range gets. -/
def got (len : UInt64) (reply : RecvReply) (r : RangeReaderDecorator UnixSocketConnection) :
    Bytes :=
  r.wrapped.got (requestLength len r.maxSize r.offset) reply

/-- A peek that moves the range, but not as far as to matter, or not at all: the range is
used up; or the socket is at its end, and empty; or it does not come to its end by the
peek, and this gets nothing, or the range is longer than what was counted and all that is
to come. -/
def Harmless (i : SocketRead) (r : RangeReaderDecorator UnixSocketConnection) : Prop :=
  match i.call with
  | .receive len _ =>
      r.maxSize ≤ r.offset ∨
        if r.wrapped.eof then r.wrapped.input = []
        else i.reply.ends = false ∧ (r.got len i.reply = [] ∨
          r.offset.toNat + (r.got len i.reply).length + r.wrapped.input.length < r.maxSize.toNat)
  | .isEOF => True

/-! #### What a call does -/

variable {r s t : RangeReaderDecorator UnixSocketConnection}

theorem serve_outside (outside : r.maxSize ≤ r.offset) (len : UInt64) (flags : UInt32)
    (reply : RecvReply) :
    r.serve ⟨.receive len flags, reply⟩ =
      .returned (.received []) { r with wrapped := r.wrapped.awaiting reply } := by
  simp [serve, Connection.answer, rangeReaderDecorator, receive, outside]

theorem serve_inside (inside : ¬ r.maxSize ≤ r.offset) (len : UInt64) (flags : UInt32)
    (reply : RecvReply) :
    r.serve ⟨.receive len flags, reply⟩ =
      .returned (.received (r.got len reply))
        { r with
          wrapped := r.wrapped.left (requestLength len r.maxSize r.offset) flags reply
          offset := if r.wrapped.eof || reply.ends then r.maxSize
            else r.offset + (r.got len reply).length.toUInt64 } := by
  have received := UnixSocketConnection.receive_awaiting
    (requestLength len r.maxSize r.offset) flags reply r.wrapped
  cases ended : r.wrapped.eof || reply.ends with
  | true =>
      simp [serve, Connection.answer, rangeReaderDecorator, receive, inside,
        unixSocketConnection, received, UnixSocketConnection.isEOF, UnixSocketConnection.left,
        ended, got]
  | false =>
      simp [serve, Connection.answer, rangeReaderDecorator, receive, inside,
        unixSocketConnection, received, UnixSocketConnection.isEOF, UnixSocketConnection.left,
        ended, got]

theorem serve_isEOF (reply : RecvReply) (r : RangeReaderDecorator UnixSocketConnection) :
    r.serve ⟨.isEOF, reply⟩ =
      .returned (.atEnd (decide (r.maxSize ≤ r.offset) || r.wrapped.eof))
        { r with wrapped := r.wrapped.awaiting reply } := by
  by_cases outside : r.maxSize ≤ r.offset
  · simp [serve, Connection.answer, rangeReaderDecorator, isEOF, outside]
  · simp [serve, Connection.answer, rangeReaderDecorator, isEOF, outside,
      unixSocketConnection, UnixSocketConnection.isEOF, awaiting]

/-! #### States that later calls do not tell apart -/

/-- The sockets are at the same place, and the offsets are the same; or both ranges are used
up; or both are longer than what is to come; or nothing is to come. -/
structure SameReads (s t : RangeReaderDecorator UnixSocketConnection) : Prop where
  maxSize : s.maxSize = t.maxSize
  input : s.wrapped.input = t.wrapped.input
  eof : s.wrapped.eof = t.wrapped.eof
  offsets : s.offset = t.offset ∨ (t.maxSize ≤ s.offset ∧ t.maxSize ≤ t.offset) ∨
    (s.offset.toNat + t.wrapped.input.length < t.maxSize.toNat ∧
      t.offset.toNat + t.wrapped.input.length < t.maxSize.toNat) ∨
    (t.wrapped.eof = true ∧ t.wrapped.input = [])

/-- Requests inside two ranges that are longer than what is to come. -/
theorem got_of_long (maxSize : s.maxSize = t.maxSize) (input : s.wrapped.input = t.wrapped.input)
    (long : s.offset.toNat + t.wrapped.input.length < t.maxSize.toNat)
    (long' : t.offset.toNat + t.wrapped.input.length < t.maxSize.toNat) (len : UInt64)
    (reply : RecvReply) : s.got len reply = t.got len reply := by
  have inside : s.offset < s.maxSize := by
    rw [UInt64.lt_iff_toNat_lt, maxSize]
    omega
  have inside' : t.offset < t.maxSize := by
    rw [UInt64.lt_iff_toNat_lt]
    omega
  have request := toNat_requestLength len inside
  have request' := toNat_requestLength len inside'
  rw [maxSize] at request
  have socket := UnixSocketConnection.got_congr input (requestLength len s.maxSize s.offset) reply
  rw [got, got, socket, maxSize]
  by_cases short : len ≠ 0 ∧ len.toNat ≤ t.wrapped.input.length
  · -- Both requests are for `len` bytes.
    rw [if_neg short.1, Nat.min_eq_left (by omega)] at request request'
    rw [UInt64.toNat_inj.mp (request.trans request'.symm)]
  · rw [not_and_or, not_not] at short
    apply UnixSocketConnection.got_long _ _ reply
    · rw [request]
      split
      · omega
      · rename_i nonzero
        have longer := short.resolve_left nonzero
        omega
    · rw [request']
      split
      · omega
      · rename_i nonzero
        have longer := short.resolve_left nonzero
        omega

theorem length_got_le (inside : ¬ r.maxSize ≤ r.offset) (len : UInt64) (reply : RecvReply) :
    (r.got len reply).length ≤ (r.maxSize - r.offset).toNat := by
  obtain ⟨nonzero, bound, _⟩ := requestLength_bounds len inside
  have request := UnixSocketConnection.length_got_le nonzero reply r.wrapped
  have left := (left_pos inside).2
  rw [got]
  omega

/-- Inside a range that is longer than what is to come, it stays so. -/
theorem toNat_offset_got (inside : ¬ r.maxSize ≤ r.offset) (len : UInt64) (reply : RecvReply) :
    (r.offset + (r.got len reply).length.toUInt64).toNat =
      r.offset.toNat + (r.got len reply).length :=
  toNat_offset_add inside (length_got_le inside len reply)

/-- Nothing is to come: the range is used up then, if it was not. -/
theorem serve_dry (ended : r.wrapped.eof = true) (empty : r.wrapped.input = []) (len : UInt64)
    (flags : UInt32) (reply : RecvReply) :
    ∃ r', r.serve ⟨.receive len flags, reply⟩ = .returned (.received []) r' ∧
      r'.maxSize = r.maxSize ∧ r'.wrapped.input = [] ∧ r'.wrapped.eof = true ∧
      r'.maxSize ≤ r'.offset := by
  by_cases outside : r.maxSize ≤ r.offset
  · exact ⟨_, serve_outside outside len flags reply, rfl, empty, ended, outside⟩
  · have nothing : r.got len reply = [] := by
      apply List.length_eq_zero_iff.mp
      have bound := UnixSocketConnection.length_got_le_input
        (requestLength len r.maxSize r.offset) reply r.wrapped
      rw [empty] at bound
      exact Nat.le_zero.mp bound
    have call := serve_inside outside len flags reply
    rw [nothing] at call
    refine ⟨_, call, rfl, ?_, ?_, ?_⟩
    · simp [UnixSocketConnection.left, empty]
    · simp [UnixSocketConnection.left, ended]
    · simp [ended]

/-- Two reads inside their ranges that get the same. -/
theorem agree_inside (maxSize : s.maxSize = t.maxSize) (input : s.wrapped.input = t.wrapped.input)
    (eof : s.wrapped.eof = t.wrapped.eof) (inside : ¬ s.maxSize ≤ s.offset)
    (inside' : ¬ t.maxSize ≤ t.offset) {len : UInt64} {flags : UInt32} {reply : RecvReply}
    (seen : flags &&& MSG_PEEK = 0) (data : s.got len reply = t.got len reply)
    (offsets : s.offset = t.offset ∨
      (s.offset.toNat + t.wrapped.input.length < t.maxSize.toNat ∧
        t.offset.toNat + t.wrapped.input.length < t.maxSize.toNat)) :
    (s.serve ⟨.receive len flags, reply⟩).Agree SameReads
      (t.serve ⟨.receive len flags, reply⟩) := by
  have sum := toNat_offset_got inside len reply
  have sum' := toNat_offset_got inside' len reply
  have bound : (t.got len reply).length ≤ t.wrapped.input.length :=
    UnixSocketConnection.length_got_le_input _ reply t.wrapped
  rw [serve_inside inside, serve_inside inside', data]
  apply Outcome.Agree.returned
  refine ⟨maxSize, ?_, ?_, ?_⟩
  · have socket : s.wrapped.got (requestLength len s.maxSize s.offset) reply =
        t.wrapped.got (requestLength len t.maxSize t.offset) reply := data
    simp only [UnixSocketConnection.left, socket, input]
  · simp only [UnixSocketConnection.left, eof]
  · rw [eof, maxSize]
    cases ended : t.wrapped.eof || reply.ends with
    | true => exact Or.inl rfl
    | false =>
        rcases offsets with together | ⟨long, long'⟩
        · left
          simp only [Bool.false_eq_true, if_false, together]
        · right; right; left
          rw [data] at sum
          have socket : (t.wrapped.got (requestLength len t.maxSize t.offset) reply).length =
            (t.got len reply).length := rfl
          simp only [Bool.false_eq_true, if_false, sum, sum', UnixSocketConnection.left, seen,
            if_true, List.length_drop, socket]
          omega

theorem SameReads.receive (same : SameReads s t) {flags : UInt32}
    (seen : flags &&& MSG_PEEK = 0) (len : UInt64) (reply : RecvReply) :
    (s.serve ⟨.receive len flags, reply⟩).Agree SameReads
      (t.serve ⟨.receive len flags, reply⟩) := by
  obtain ⟨maxSize, input, eof, offsets⟩ := same
  rcases offsets with together | ⟨ended, ended'⟩ | ⟨long, long'⟩ | ⟨ended, empty⟩
  · by_cases outside : t.maxSize ≤ t.offset
    · rw [serve_outside outside, serve_outside (maxSize ▸ together ▸ outside)]
      exact .returned ⟨maxSize, input, eof, Or.inl together⟩
    · have data : s.got len reply = t.got len reply := by
        rw [got, got, maxSize, together]
        exact UnixSocketConnection.got_congr input _ reply
      exact agree_inside maxSize input eof (maxSize ▸ together ▸ outside) outside seen data
        (Or.inl together)
  · rw [serve_outside (maxSize ▸ ended), serve_outside ended']
    exact .returned ⟨maxSize, input, eof, Or.inr (Or.inl ⟨ended, ended'⟩)⟩
  · have inside : ¬ s.maxSize ≤ s.offset := by
      rw [UInt64.le_iff_toNat_le, maxSize]
      omega
    have inside' : ¬ t.maxSize ≤ t.offset := by
      rw [UInt64.le_iff_toNat_le]
      omega
    exact agree_inside maxSize input eof inside inside' seen
      (got_of_long maxSize input long long' len reply) (Or.inr ⟨long, long'⟩)
  · obtain ⟨s', call, size, input, eof, used⟩ :=
      serve_dry (eof.trans ended) (input.trans empty) len flags reply
    obtain ⟨t', call', size', input', eof', used'⟩ :=
      serve_dry ended empty len flags reply
    have sizes : s'.maxSize = t'.maxSize := by rw [size, size', maxSize]
    rw [call, call']
    exact .returned ⟨sizes, input.trans input'.symm, eof.trans eof'.symm,
      Or.inr (Or.inl ⟨sizes ▸ used, used'⟩)⟩

/-- Every call that is no peek. -/
theorem SameReads.serve {i : SocketRead} (same : SameReads s t) (seen : i.peeks = false) :
    (s.serve i).Agree SameReads (t.serve i) := by
  obtain ⟨call, reply⟩ := i
  cases call with
  | receive len flags =>
      apply same.receive
      simpa [SocketRead.peeks] using seen
  | isEOF =>
      have answer : (decide (s.maxSize ≤ s.offset) || s.wrapped.eof) =
          (decide (t.maxSize ≤ t.offset) || t.wrapped.eof) := by
        rw [same.eof, same.maxSize]
        rcases same.offsets with together | ⟨ended, ended'⟩ | ⟨long, long'⟩ | ⟨ended, _⟩
        · rw [together]
        · rw [decide_eq_true ended, decide_eq_true ended']
        · rw [decide_eq_false, decide_eq_false]
          · rw [UInt64.le_iff_toNat_le]
            omega
          · rw [UInt64.le_iff_toNat_le]
            omega
        · rw [ended, Bool.or_true, Bool.or_true]
      rw [serve_isEOF, serve_isEOF, answer]
      exact .returned ⟨same.maxSize, same.input, same.eof, same.offsets⟩

/-! #### Peeks that are unseen -/

variable {len : UInt64} {flags : UInt32} {reply : RecvReply}

/-- A peek inside the range leaves the input, and moves the offset. -/
theorem peek_inside (inside : ¬ r.maxSize ≤ r.offset) (peeks : flags &&& MSG_PEEK ≠ 0) :
    ∃ r', (r.serve ⟨.receive len flags, reply⟩).left = some r' ∧ r'.maxSize = r.maxSize ∧
      r'.wrapped.input = r.wrapped.input ∧ r'.wrapped.eof = (r.wrapped.eof || reply.ends) ∧
      r'.offset = if r.wrapped.eof || reply.ends then r.maxSize
        else r.offset + (r.got len reply).length.toUInt64 := by
  rw [serve_inside inside]
  exact ⟨_, rfl, rfl, if_neg peeks, rfl, rfl⟩

theorem harmless_inside_iff (inside : ¬ r.maxSize ≤ r.offset) :
    r.Harmless ⟨.receive len flags, reply⟩ ↔
      if r.wrapped.eof then r.wrapped.input = []
      else reply.ends = false ∧ (r.got len reply = [] ∨
        r.offset.toNat + (r.got len reply).length + r.wrapped.input.length < r.maxSize.toNat) :=
  or_iff_right inside

/-- What a harmless peek leaves is not told apart from what was before. -/
theorem Harmless.same (peeks : flags &&& MSG_PEEK ≠ 0)
    (harmless : r.Harmless ⟨.receive len flags, reply⟩) :
    ∃ r', (r.serve ⟨.receive len flags, reply⟩).left = some r' ∧ SameReads r' r := by
  by_cases outside : r.maxSize ≤ r.offset
  · rw [serve_outside outside]
    exact ⟨_, rfl, rfl, rfl, rfl, Or.inl rfl⟩
  · obtain ⟨r', left, maxSize, input, eof, offset⟩ :=
      peek_inside (r := r) outside peeks
    have condition := (harmless_inside_iff outside).mp harmless
    refine ⟨r', left, ?_⟩
    cases ended : r.wrapped.eof with
    | true =>
        rw [ended, if_pos rfl] at condition
        rw [ended, Bool.true_or] at eof
        exact ⟨maxSize, input, by rw [eof, ended], Or.inr (Or.inr (Or.inr ⟨ended, condition⟩))⟩
    | false =>
        rw [ended, if_neg Bool.false_ne_true] at condition
        obtain ⟨goesOn, counted⟩ := condition
        rw [ended, goesOn, Bool.or_self] at eof
        rw [ended, goesOn, Bool.or_self, if_neg Bool.false_ne_true] at offset
        refine ⟨maxSize, input, by rw [eof, ended], ?_⟩
        rcases counted with nothing | long
        · left
          rw [offset, nothing]
          simp
        · right; right; left
          have sum := toNat_offset_got outside len reply
          rw [offset, sum]
          omega

theorem Harmless.unseen (peeks : flags &&& MSG_PEEK ≠ 0)
    (harmless : r.Harmless ⟨.receive len flags, reply⟩) :
    Unseen SocketRead.peeks serve ⟨.receive len flags, reply⟩ r := by
  obtain ⟨r', left, same⟩ := harmless.same peeks
  apply (unseen_iff ((SocketRead.peeks_receive _ _ _).mpr peeks) left).mpr
  intro later seen
  apply observed_agree SameReads _ seen same
  intro i s t seen same
  exact same.serve seen

/-! #### Calls that tell a peek -/

/-- A read of one byte, which comes. -/
def oneByte : SocketRead := ⟨.receive 1 0, ⟨.bytes 1, 0⟩⟩

/-- The end of file is asked for. -/
def asked : SocketRead := ⟨.isEOF, ⟨.bytes 0, 0⟩⟩

theorem got_oneByte (inside : ¬ r.maxSize ≤ r.offset) :
    r.got 1 ⟨.bytes 1, 0⟩ = r.wrapped.input.take 1 := by
  obtain ⟨positive, _⟩ := left_pos inside
  have one : requestLength 1 r.maxSize r.offset = 1 := by
    apply if_neg
    rw [not_or]
    refine ⟨by decide, fun more => ?_⟩
    have less := UInt64.lt_iff_toNat_lt.mp more
    rw [UInt64.toNat_one] at less
    omega
  rw [got, one]
  rfl

theorem serve_oneByte (inside : ¬ r.maxSize ≤ r.offset) (more : r.wrapped.eof = false)
    (there : 0 < r.wrapped.input.length) :
    ∃ data r', r.serve oneByte = .returned (.received data) r' ∧ r'.maxSize = r.maxSize ∧
      r'.wrapped.eof = false ∧ r'.wrapped.input.length + 1 = r.wrapped.input.length ∧
      r'.offset.toNat = r.offset.toNat + 1 := by
  have length : (r.got 1 ⟨.bytes 1, 0⟩).length = 1 := by
    rw [got_oneByte inside, List.length_take]
    omega
  have socket : (r.wrapped.got (requestLength 1 r.maxSize r.offset) ⟨.bytes 1, 0⟩).length = 1 :=
    length
  have sum := toNat_offset_got inside 1 ⟨.bytes 1, 0⟩
  rw [length] at sum
  refine ⟨_, _, serve_inside inside 1 0 ⟨.bytes 1, 0⟩, rfl, ?_, ?_, ?_⟩
  · rw [UnixSocketConnection.left, more]
    rfl
  · have seen : (0 : UInt32) &&& MSG_PEEK = 0 := rfl
    rw [UnixSocketConnection.left, if_pos seen, socket, List.length_drop]
    omega
  · rw [more, length]
    exact sum

/-- A number of bytes are read one by one, and the end of file is asked for. -/
theorem observed_oneByte (m : Nat) (more : r.wrapped.eof = false)
    (there : m ≤ r.wrapped.input.length) (inside : r.offset.toNat + m ≤ r.maxSize.toNat) :
    ∃ results, observed SocketRead.peeks serve (List.replicate m oneByte ++ [asked]) r =
      some (results ++ [.ok (.atEnd (decide (r.maxSize.toNat ≤ r.offset.toNat + m)))]) := by
  induction m generalizing r with
  | zero =>
      refine ⟨[], ?_⟩
      simp only [List.replicate_zero, List.nil_append, observed, asked, serve_isEOF, more,
        Bool.or_false, SocketRead.peeks, Bool.false_eq_true, if_false, Option.map_some,
        UInt64.le_iff_toNat_le, Nat.add_zero]
  | succ m ih =>
      have unused : ¬ r.maxSize ≤ r.offset := by
        rw [UInt64.le_iff_toNat_le]
        omega
      obtain ⟨data, r', call, maxSize, more', input, offset⟩ :=
        serve_oneByte unused more (by omega)
      obtain ⟨results, rest⟩ := ih more' (by omega) (by rw [maxSize, offset]; omega)
      refine ⟨.ok (.received data) :: results, ?_⟩
      rw [List.replicate_succ, List.cons_append, observed, call]
      dsimp only
      rw [rest, maxSize, offset, Nat.add_assoc, Nat.add_comm 1 m]
      rfl

/-- At the end of the socket a byte that still comes tells a range that is used up. -/
theorem dry_of_same {r' : RangeReaderDecorator UnixSocketConnection}
    (inside : ¬ r.maxSize ≤ r.offset) (used : r'.maxSize ≤ r'.offset)
    (same : observed SocketRead.peeks serve [oneByte] r' =
      observed SocketRead.peeks serve [oneByte] r) : r.wrapped.input = [] := by
  have call : r'.serve oneByte = _ := serve_outside used 1 0 ⟨.bytes 1, 0⟩
  have call' : r.serve oneByte = _ := serve_inside inside 1 0 ⟨.bytes 1, 0⟩
  rw [observed, observed, call, call', got_oneByte inside] at same
  have first : [] = r.wrapped.input.take 1 := by
    simpa [observed, SocketRead.peeks, oneByte] using same
  cases input : r.wrapped.input with
  | nil => rfl
  | cons byte rest =>
      rw [input] at first
      cases first

/-- The end of file is asked for. -/
theorem atEnd_of_same {r' : RangeReaderDecorator UnixSocketConnection}
    (same : observed SocketRead.peeks serve [asked] r' =
      observed SocketRead.peeks serve [asked] r) :
    (decide (r'.maxSize ≤ r'.offset) || r'.wrapped.eof) =
      (decide (r.maxSize ≤ r.offset) || r.wrapped.eof) := by
  simp only [observed, asked, serve_isEOF] at same
  simpa [SocketRead.peeks] using same

/-- What is to come brings one range to its end, and not the other. -/
theorem offset_of_same {r' : RangeReaderDecorator UnixSocketConnection} {k : Nat}
    (maxSize : r'.maxSize = r.maxSize) (input : r'.wrapped.input = r.wrapped.input)
    (more : r.wrapped.eof = false) (more' : r'.wrapped.eof = false)
    (offset : r'.offset.toNat = r.offset.toNat + k) (within : r'.offset.toNat ≤ r.maxSize.toNat)
    (same : ∀ later, (∀ j ∈ later, j.peeks = false) →
      observed SocketRead.peeks serve later r' = observed SocketRead.peeks serve later r) :
    k = 0 ∨ r.offset.toNat + k + r.wrapped.input.length < r.maxSize.toNat := by
  by_contra reached
  rw [not_or] at reached
  obtain ⟨results, run⟩ := observed_oneByte (r.maxSize.toNat - r'.offset.toNat) more
    (by omega) (by omega)
  obtain ⟨results', run'⟩ := observed_oneByte (r.maxSize.toNat - r'.offset.toNat) more'
    (by rw [input]; omega) (by rw [maxSize]; omega)
  have seen : ∀ j ∈ List.replicate (r.maxSize.toNat - r'.offset.toNat) oneByte ++ [asked],
      j.peeks = false := by
    intro j member
    rcases List.mem_append.mp member with read | last
    · rw [List.eq_of_mem_replicate read]
      rfl
    · rw [List.mem_singleton.mp last]
      rfl
  have equal := same _ seen
  rw [run, run', maxSize] at equal
  have last := (List.append_inj' (Option.some.inj equal) rfl).2
  simp only [List.cons.injEq, Except.ok.injEq, ReadResult.atEnd.injEq, and_true,
    decide_eq_decide] at last
  omega

/-- A peek that is not harmless is told by some later calls. -/
theorem harmless_of_unseen (peeks : flags &&& MSG_PEEK ≠ 0)
    (unseen : Unseen SocketRead.peeks serve ⟨.receive len flags, reply⟩ r) :
    r.Harmless ⟨.receive len flags, reply⟩ := by
  by_cases outside : r.maxSize ≤ r.offset
  · exact Or.inl outside
  · obtain ⟨r', left, maxSize, input, eof, offset⟩ := peek_inside (r := r) outside peeks
    have same := (unseen_iff ((SocketRead.peeks_receive _ _ _).mpr peeks) left).mp unseen
    rw [harmless_inside_iff outside]
    cases ended : r.wrapped.eof with
    | true =>
        rw [ended, Bool.true_or, if_pos rfl] at offset
        have used : r'.maxSize ≤ r'.offset := by rw [maxSize, offset]; exact UInt64.le_refl _
        exact dry_of_same outside used (same [oneByte] (by decide))
    | false =>
        rw [ended, Bool.false_or] at eof offset
        have atEnd := atEnd_of_same (same [asked] (by decide))
        rw [eof, maxSize, ended, decide_eq_false outside, Bool.or_self] at atEnd
        have goesOn := (Bool.or_eq_false_iff.mp atEnd).2
        rw [goesOn] at eof
        rw [goesOn, if_neg Bool.false_ne_true] at offset
        have sum := toNat_offset_got outside len reply
        rw [← offset] at sum
        have bound := length_got_le outside len reply
        have left := left_pos outside
        have counted := offset_of_same maxSize input ended eof sum (by omega) same
        exact ⟨goesOn, counted.imp_left List.length_eq_zero_iff.mp⟩

end RangeReaderDecorator

/-! ### The acknowledgement buffer -/

/-- A call of a client in manual mode. -/
inductive ManualCall where
  | read (i : SocketRead)
  | acknowledge (bytes : UInt64)
deriving Repr, DecidableEq

/-- What these calls give back. -/
inductive ManualResult where
  | read (result : ReadResult)
  | acknowledged (accepted : Bool)
deriving Repr, DecidableEq

def ManualCall.peeks : ManualCall → Bool
  | .read i => i.peeks
  | .acknowledge _ => false

namespace AcknowledgementDecorator

/-- One call of an acknowledgement buffer over a socket. -/
def serve (i : ManualCall) (a : AcknowledgementDecorator UnixSocketConnection) :
    Outcome (AcknowledgementDecorator UnixSocketConnection) ManualResult :=
  match i with
  | .read i =>
      match (acknowledgementDecorator unixSocketConnection).answer i.call
          { a with wrapped := a.wrapped.awaiting i.reply } with
      | .running => .running
      | .threw error a => .threw error a
      | .returned result a => .returned (.read result) a
  | .acknowledge bytes =>
      .returned (.acknowledged (a.acknowledge bytes).1) (a.acknowledge bytes).2

/-- The bytes that a `Receive` gets from the socket. -/
def got (maxlen : UInt64) (reply : RecvReply) (a : AcknowledgementDecorator UnixSocketConnection) :
    Bytes :=
  a.wrapped.got (requestLength maxlen a.buffer) reply

/-- A peek that gets nothing, and by which the socket does not come to its end. -/
def Harmless (i : ManualCall) (a : AcknowledgementDecorator UnixSocketConnection) : Prop :=
  match i with
  | .read ⟨.receive maxlen _, reply⟩ =>
      a.got maxlen reply = [] ∧ (reply.ends = true → a.wrapped.eof = true)
  | _ => True

/-! #### What a call does -/

variable {a b : AcknowledgementDecorator UnixSocketConnection}

/-- What a `Receive` in manual mode leaves, whether it throws or not. -/
def filled (maxlen : UInt64) (flags : UInt32) (reply : RecvReply)
    (a : AcknowledgementDecorator UnixSocketConnection) :
    AcknowledgementDecorator UnixSocketConnection :=
  { a with
    wrapped := a.wrapped.left (requestLength maxlen a.buffer) flags reply
    buffer := a.buffer ++ a.got maxlen reply }

theorem serve_receive (manual : a.autoack = false) (maxlen : UInt64) (flags : UInt32)
    (reply : RecvReply) :
    a.serve (.read ⟨.receive maxlen flags, reply⟩) =
      if (a.buffer ++ a.got maxlen reply).length > a.maxBufferSize.toNat then
        .threw bufferSizeExceeded (a.filled maxlen flags reply)
      else .returned (.read (.received (a.buffer ++ a.got maxlen reply)))
        (a.filled maxlen flags reply) := by
  have received : unixSocketConnection.receive (requestLength maxlen a.buffer) flags
      (a.wrapped.awaiting reply) = .returned (a.got maxlen reply)
        (a.wrapped.left (requestLength maxlen a.buffer) flags reply) :=
    UnixSocketConnection.receive_awaiting _ flags reply a.wrapped
  by_cases exceeds : (a.buffer ++ a.got maxlen reply).length > a.maxBufferSize.toNat
  · simp only [serve, Connection.answer, acknowledgementDecorator, receive_eq, received,
      if_pos exceeds]
    rfl
  · simp only [serve, Connection.answer, acknowledgementDecorator, receive_eq, received,
      if_neg exceeds, manual, Bool.false_eq_true, if_false, filled]

theorem serve_isEOF (reply : RecvReply) (a : AcknowledgementDecorator UnixSocketConnection) :
    a.serve (.read ⟨.isEOF, reply⟩) =
      .returned (.read (.atEnd (a.wrapped.eof && a.buffer.isEmpty)))
        { a with wrapped := a.wrapped.awaiting reply } :=
  rfl

theorem left_receive_manual (manual : a.autoack = false) (maxlen : UInt64) (flags : UInt32)
    (reply : RecvReply) :
    (a.serve (.read ⟨.receive maxlen flags, reply⟩)).left = some (a.filled maxlen flags reply) := by
  rw [serve_receive manual]
  split <;> rfl

/-! #### States that later calls do not tell apart -/

/-- The sockets are at the same place, and the buffers are the same. -/
structure SameBuffer (a b : AcknowledgementDecorator UnixSocketConnection) : Prop where
  maxBufferSize : a.maxBufferSize = b.maxBufferSize
  manual : a.autoack = false
  manual' : b.autoack = false
  buffer : a.buffer = b.buffer
  input : a.wrapped.input = b.wrapped.input
  eof : a.wrapped.eof = b.wrapped.eof

theorem SameBuffer.serve (same : SameBuffer a b) (i : ManualCall) :
    (a.serve i).Agree SameBuffer (b.serve i) := by
  obtain ⟨maxBufferSize, manual, manual', buffer, input, eof⟩ := same
  cases i with
  | acknowledge bytes =>
      simp only [AcknowledgementDecorator.serve, acknowledge, buffer]
      split
      · exact .returned ⟨maxBufferSize, manual, manual', buffer, input, eof⟩
      · exact .returned ⟨maxBufferSize, manual, manual', rfl, input, eof⟩
  | read i =>
      obtain ⟨call, reply⟩ := i
      cases call with
      | isEOF =>
          rw [serve_isEOF, serve_isEOF, eof, buffer]
          exact .returned ⟨maxBufferSize, manual, manual', rfl, input, eof⟩
      | receive maxlen flags =>
          have data : a.got maxlen reply = b.got maxlen reply := by
            rw [got, got, buffer]
            exact UnixSocketConnection.got_congr input _ reply
          have socket : a.wrapped.got (requestLength maxlen b.buffer) reply =
              b.wrapped.got (requestLength maxlen b.buffer) reply :=
            UnixSocketConnection.got_congr input _ reply
          have after : SameBuffer (a.filled maxlen flags reply) (b.filled maxlen flags reply) := by
            refine ⟨maxBufferSize, manual, manual', ?_, ?_, ?_⟩
            · simp only [filled, buffer, data]
            · simp only [filled, UnixSocketConnection.left, buffer, socket, input]
            · simp only [filled, UnixSocketConnection.left, eof]
          rw [serve_receive manual, serve_receive manual', buffer, data, maxBufferSize]
          split
          · exact .threw after
          · exact .returned after

/-! #### Peeks that are unseen -/

variable {maxlen : UInt64} {flags : UInt32} {reply : RecvReply}

theorem unseen_receive_iff (manual : a.autoack = false) (peeks : flags &&& MSG_PEEK ≠ 0) :
    Unseen ManualCall.peeks serve (.read ⟨.receive maxlen flags, reply⟩) a ↔
      ∀ later, (∀ j ∈ later, j.peeks = false) →
        observed ManualCall.peeks serve later (a.filled maxlen flags reply) =
          observed ManualCall.peeks serve later a := by
  have hides : ManualCall.peeks (.read ⟨.receive maxlen flags, reply⟩) = true :=
    (SocketRead.peeks_receive maxlen flags reply).mpr peeks
  exact unseen_iff hides (left_receive_manual manual maxlen flags reply)

theorem Harmless.unseen (manual : a.autoack = false) (peeks : flags &&& MSG_PEEK ≠ 0)
    (harmless : a.Harmless (.read ⟨.receive maxlen flags, reply⟩)) :
    Unseen ManualCall.peeks serve (.read ⟨.receive maxlen flags, reply⟩) a := by
  obtain ⟨nothing, goesOn⟩ := harmless
  apply (unseen_receive_iff manual peeks).mpr
  intro later seen
  apply observed_agree SameBuffer _ seen
  · refine ⟨rfl, manual, manual, ?_, if_neg peeks, ?_⟩
    · rw [filled, nothing, List.append_nil]
    · cases ends : reply.ends with
      | true => simp [filled, UnixSocketConnection.left, ends, goesOn ends]
      | false => simp [filled, UnixSocketConnection.left, ends]
  · intro i s t _ same
    exact same.serve i

/-! #### Calls that tell a peek -/

/-- A number of bytes are acknowledged one by one. -/
theorem observed_acknowledge (m : Nat) (later : List ManualCall) (there : m ≤ a.buffer.length) :
    observed ManualCall.peeks serve (List.replicate m (.acknowledge 1) ++ later) a =
      (observed ManualCall.peeks serve later { a with buffer := a.buffer.drop m }).map
        (List.replicate m (.ok (.acknowledged true)) ++ ·) := by
  induction m generalizing a with
  | zero => simp
  | succ m ih =>
      have accepted : a.acknowledge 1 = (true, { a with buffer := a.buffer.drop 1 }) := by
        apply if_neg
        rw [UInt64.toNat_one]
        omega
      have rest := ih (a := { a with buffer := a.buffer.drop 1 })
        (by simp only [List.length_drop]; omega)
      rw [List.replicate_succ, List.cons_append, observed, serve, accepted]
      dsimp only
      rw [rest, List.drop_drop, Nat.add_comm 1 m, Option.map_map]
      rfl

/-- With the calls before, the whole buffer of the one is acknowledged. -/
theorem same_acknowledged {more : Bytes} (buffer : b.buffer = a.buffer ++ more)
    {later : List ManualCall}
    (same : observed ManualCall.peeks serve
        (List.replicate a.buffer.length (.acknowledge 1) ++ later) b =
      observed ManualCall.peeks serve
        (List.replicate a.buffer.length (.acknowledge 1) ++ later) a) :
    observed ManualCall.peeks serve later { b with buffer := more } =
      observed ManualCall.peeks serve later { a with buffer := [] } := by
  rw [observed_acknowledge _ _ (Nat.le_refl _), observed_acknowledge _ _ (by simp [buffer]),
    buffer, List.drop_left, List.drop_length] at same
  exact Option.map_injective (List.append_right_injective _) same

/-- A peek that is not harmless is told by some later calls. -/
theorem harmless_of_unseen (manual : a.autoack = false) (peeks : flags &&& MSG_PEEK ≠ 0)
    (unseen : Unseen ManualCall.peeks serve (.read ⟨.receive maxlen flags, reply⟩) a) :
    a.Harmless (.read ⟨.receive maxlen flags, reply⟩) := by
  have same := (unseen_receive_iff manual peeks).mp unseen
  have acknowledged : ∀ later : List ManualCall, (∀ j ∈ later, j.peeks = false) →
      observed ManualCall.peeks serve later
          { a.filled maxlen flags reply with buffer := a.got maxlen reply } =
        observed ManualCall.peeks serve later { a with buffer := [] } := by
    intro later seen
    apply same_acknowledged rfl (same _ _)
    intro j member
    rcases List.mem_append.mp member with acknowledge | last
    · rw [List.eq_of_mem_replicate acknowledge]
      rfl
    · exact seen j last
  -- A byte beyond the buffer is accepted where one was got.
  have nothing : a.got maxlen reply = [] := by
    have last := acknowledged [.acknowledge 1] (by decide)
    simp only [observed, serve, ManualCall.peeks, Bool.false_eq_true, if_false, Option.map_some,
      Option.some.injEq, List.cons.injEq, Except.ok.injEq, ManualResult.acknowledged.injEq,
      and_true] at last
    rw [Bool.eq_iff_iff, acknowledge_fst, acknowledge_fst, UInt64.toNat_one] at last
    apply List.length_eq_zero_iff.mp
    simp only [List.length_nil] at last
    omega
  refine ⟨nothing, fun ends => ?_⟩
  have last := acknowledged [.read ⟨.isEOF, ⟨.bytes 0, 0⟩⟩] (by decide)
  simpa [observed, serve_isEOF, ManualCall.peeks, SocketRead.peeks, nothing, filled,
    UnixSocketConnection.left, ends] using last

end AcknowledgementDecorator

/-! ### Any run -/

theorem SocketRead.eq_of_peeks {i : SocketRead} (peeks : i.peeks = true) :
    ∃ len flags reply, i = ⟨.receive len flags, reply⟩ ∧ flags &&& MSG_PEEK ≠ 0 := by
  obtain ⟨call, reply⟩ := i
  cases call with
  | receive len flags => exact ⟨len, flags, reply, rfl, (SocketRead.peeks_receive len flags reply).mp peeks⟩
  | isEOF => cases peeks

/-- Peeks through a range reader, or an acknowledgement buffer in manual mode, over a socket
in any state are unseen exactly if they are harmless. -/
theorem peeks_unseen (r : RangeReaderDecorator UnixSocketConnection)
    (a : AcknowledgementDecorator UnixSocketConnection) (manual : a.autoack = false) :
    UnseenExactly SocketRead.peeks RangeReaderDecorator.serve
        RangeReaderDecorator.Harmless r ∧
      UnseenExactly ManualCall.peeks AcknowledgementDecorator.serve
        AcknowledgementDecorator.Harmless a := by
  constructor
  · apply UnseenExactly.of_iff (fun _ => True) (fun _ _ _ _ _ => trivial) ?_ trivial
    intro i r _ peeks
    obtain ⟨len, flags, reply, rfl, flagged⟩ := SocketRead.eq_of_peeks peeks
    exact ⟨RangeReaderDecorator.harmless_of_unseen flagged,
      fun harmless => harmless.unseen flagged⟩
  · apply UnseenExactly.of_iff (fun a => a.autoack = false) ?_ ?_ manual
    · intro i a a' manual left
      have same : AcknowledgementDecorator.SameBuffer a a :=
        ⟨rfl, manual, manual, rfl, rfl, rfl⟩
      have agree := same.serve i
      generalize a.serve i = outcome at agree left
      cases agree with
      | returned related | threw related =>
          cases left
          exact related.manual
      | running => cases left
    · intro i a manual peeks
      cases i with
      | read i =>
          obtain ⟨maxlen, flags, reply, rfl, flagged⟩ := SocketRead.eq_of_peeks peeks
          exact ⟨AcknowledgementDecorator.harmless_of_unseen manual flagged,
            fun harmless => harmless.unseen manual flagged⟩
      | acknowledge bytes => cases peeks

/-- A read of up to `k` bytes, of which two are there. -/
def reading (k : UInt64) : SocketRead := ⟨.receive k 0, ⟨.bytes 2, 1⟩⟩

/-- A peek when so many bytes are there. -/
def peeking (bytes : Nat) : SocketRead := ⟨.receive 0 MSG_PEEK, ⟨.bytes bytes, 1⟩⟩

/-- A range of two bytes of a socket with two. -/
def twoBytes : RangeReaderDecorator UnixSocketConnection :=
  .new (.new [97, 98] [] 0) 2 true

/-- An acknowledgement buffer over a socket with two bytes. -/
def twoBuffered : AcknowledgementDecorator UnixSocketConnection :=
  .new (.new [97, 98] [] 0) 16 true

/-- A peek before anything is there. -/
theorem peeks_unseen_of_early :
    observed SocketRead.peeks RangeReaderDecorator.serve [peeking 0, reading 1, reading 1] twoBytes =
        some [.ok (.received [97]), .ok (.received [98])] ∧
      observed ManualCall.peeks AcknowledgementDecorator.serve
          [.read (peeking 0), .read (reading 2)] twoBuffered =
        some [.ok (.read (.received [97, 98]))] := by
  constructor
  · rw [(peeks_unseen twoBytes twoBuffered rfl).1.run]
    · rfl
    · refine ⟨fun _ => Or.inr (by decide), fun s left => ⟨nofun, fun s' left' => ⟨nofun, ?_⟩⟩⟩
      exact fun _ _ => trivial
  · rw [(peeks_unseen twoBytes twoBuffered rfl).2.run]
    · rfl
    · refine ⟨fun _ => ⟨rfl, nofun⟩, fun s left => ⟨nofun, fun _ _ => trivial⟩⟩

/-- A peek that gets the two bytes: the range reader returns none of them to the read, and
is at its end; the acknowledgement buffer returns them twice. -/
theorem peeks_unseen_fails :
    (observed SocketRead.peeks RangeReaderDecorator.serve [reading 2] twoBytes =
        some [.ok (.received [97, 98])] ∧
      observed SocketRead.peeks RangeReaderDecorator.serve [peeking 2, reading 2] twoBytes =
        some [.ok (.received [])]) ∧
    (observed ManualCall.peeks AcknowledgementDecorator.serve [.read (reading 4)] twoBuffered =
        some [.ok (.read (.received [97, 98]))] ∧
      observed ManualCall.peeks AcknowledgementDecorator.serve
          [.read (peeking 2), .read (reading 4)] twoBuffered =
        some [.ok (.read (.received [97, 98, 97, 98]))]) := by
  decide

end LibSiot
