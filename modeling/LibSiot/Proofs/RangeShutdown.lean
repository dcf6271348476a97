/-
Module: LibSiot.Proofs.RangeShutdown
Purpose: When the `Shutdown` of a range reader over a socket ends: the draining loop
  goes round without a bound once the peer has closed before the end of the range,
  because a `recv` that returns 0 is no end of file to the socket.
Trusted boundary: none
Main exports: UnixSocketConnection.Comes, RangeReaderDecorator.shutdown_ends_iff
-/
import LibSiot.Proofs.EndOfFileReached

namespace LibSiot

namespace UnixSocketConnection

/-- The coming `recv` calls are answered one after the other, as often as the script is
long. -/
def answered (recvs : Nat) (reply : Nat → RecvReply) (c : UnixSocketConnection) :
    UnixSocketConnection :=
  { c with replies := (List.range recvs).map reply }

/-- How the `recv` of a socket with a peer ends: with bytes, or with 0 if there are no
more; the peer reset the connection; or nothing is there yet. -/
def Comes (reply : RecvReply) : Prop :=
  Waits reply ∨ reply.result = .error .ECONNRESET ∨ reply.result = .error .EAGAIN

/-- Such a `recv` gives the front of the input, and at least one byte if it waits for it
and it comes.  The socket does not take it for the end of file. -/
theorem receive_comes {reply : RecvReply} {replies : List RecvReply} {k : UInt64}
    {c : UnixSocketConnection} (nonzero : k ≠ 0) (more : c.eof = false)
    (script : c.replies = reply :: replies) (comes : Comes reply) :
    ∃ data c', c.receive k 0 = .returned data c' ∧ c'.eof = false ∧ c'.replies = replies ∧
      data ++ c'.input = c.input ∧ data.length ≤ k.toNat ∧
      (Waits reply → c.input ≠ [] → data ≠ []) := by
  obtain ⟨result, now⟩ := reply
  cases result with
  | bytes limit =>
      have call : c.receive k 0 = .returned (recvBytes limit (bufferLength k) c)
          { c with
            input := c.input.drop (recvBytes limit (bufferLength k) c).length
            replies := replies
            lastUse := now } := by
        rw [receive, script]
        rfl
      obtain ⟨split, short⟩ := receive_returned call
      refine ⟨_, _, call, more, rfl, split, short nonzero, ?_⟩
      rintro ⟨limit, _, same⟩ input none
      cases same
      have positive := bufferLength_pos k
      rw [recvBytes, List.take_eq_nil_iff] at none
      exact input (none.resolve_left (by omega))
  | error errno =>
      have harmless : errno ∉ [Errno.EBADF, Errno.EINVAL, Errno.ENOTCONN] := by
        rcases comes with ⟨_, _, impossible⟩ | same | same
        · cases impossible
        · cases same
          decide
        · cases same
          decide
      have call : c.receive k 0 = .returned []
          { c with
            replies := replies
            eof := c.eof || errno ∈ [Errno.EBADF, Errno.EINVAL, Errno.ENOTCONN]
            lastUse := now } := by
        rw [receive, script]
      refine ⟨[], _, call, ?_, rfl, rfl, Nat.zero_le _, ?_⟩
      · rw [more, Bool.false_or]
        exact decide_eq_false harmless
      · rintro ⟨_, _, impossible⟩
        cases impossible

end UnixSocketConnection

namespace RangeReaderDecorator

open UnixSocketConnection (Waits Comes answered)

variable {r r' : RangeReaderDecorator UnixSocketConnection} {reply : RecvReply}
  {replies : List RecvReply}

/-! ### One turn of the draining loop -/

/-- A `recv` of the loop, for `reply`, leads from one turn to the next: bytes move from
the socket into the offset, and at least one if `recv` waits for it and it comes. -/
structure Turned (reply : RecvReply) (replies : List RecvReply)
    (r r' : RangeReaderDecorator UnixSocketConnection) : Prop where
  maxSize : r'.maxSize = r.maxSize
  notAtEnd : r'.wrapped.eof = false
  replies : r'.wrapped.replies = replies
  moved : r'.offset.toNat + r'.wrapped.input.length =
    r.offset.toNat + r.wrapped.input.length
  forward : r.offset.toNat ≤ r'.offset.toNat
  advanced : Waits reply → r.wrapped.input ≠ [] → r.offset.toNat < r'.offset.toNat

theorem drain_turn (inside : ¬ r.offset ≥ r.maxSize) (more : r.wrapped.eof = false)
    (script : r.wrapped.replies = reply :: replies) (comes : Comes reply) :
    ∃ r', Turned reply replies r r' ∧ ∀ fuel,
      drain unixSocketConnection (fuel + 1) r = drain unixSocketConnection fuel r' := by
  have asked : unixSocketConnection.isEOF r.wrapped = (false, r.wrapped) := by
    rw [← more]
    rfl
  have nonzero : r.maxSize - r.offset ≠ 0 := by
    intro zero
    have positive := (left_pos inside).1
    rw [zero] at positive
    cases positive
  obtain ⟨data, c, call, notAtEnd, rest, split, short, some⟩ :=
    UnixSocketConnection.receive_comes nonzero more script comes
  have offset := toNat_offset_add inside short
  have turn : ∀ fuel, drain unixSocketConnection (fuel + 1) r =
      drain unixSocketConnection fuel
        { r with wrapped := c, offset := r.offset + data.length.toUInt64 } := by
    intro fuel
    have call' : unixSocketConnection.receive (r.maxSize - r.offset) 0 r.wrapped =
        .returned data c := call
    simp only [drain, if_neg inside, asked, call']
  refine ⟨_, ?_, turn⟩
  constructor
  · rfl
  · exact notAtEnd
  · exact rest
  · change (r.offset + data.length.toUInt64).toNat + c.input.length = _
    rw [offset, ← split, List.length_append]
    omega
  · rw [offset]
    omega
  · intro waits input
    have positive := List.length_pos_iff.mpr (some waits input)
    rw [offset]
    omega

/-! ### The loop -/

/-- The loop does not end if the peer has too few bytes for the range. -/
theorem drain_running (fuel : Nat) (r : RangeReaderDecorator UnixSocketConnection)
    (comes : ∀ reply ∈ r.wrapped.replies, Comes reply) (more : r.wrapped.eof = false)
    (few : r.offset.toNat + r.wrapped.input.length < r.maxSize.toNat) :
    drain unixSocketConnection fuel r = .running := by
  induction fuel generalizing r with
  | zero => rfl
  | succ fuel ih =>
      have inside : ¬ r.offset ≥ r.maxSize := by
        intro outside
        have := UInt64.le_iff_toNat_le.mp outside
        omega
      cases script : r.wrapped.replies with
      | nil =>
          have asked : unixSocketConnection.isEOF r.wrapped = (false, r.wrapped) := by
            rw [← more]
            rfl
          have blocked : unixSocketConnection.receive (r.maxSize - r.offset) 0 r.wrapped =
              .running := by
            simp only [unixSocketConnection, UnixSocketConnection.receive, script]
          simp only [drain, if_neg inside, asked, blocked]
      | cons reply replies =>
          rw [script] at comes
          obtain ⟨r', turned, turn⟩ :=
            drain_turn inside more script (comes reply List.mem_cons_self)
          rw [turn]
          apply ih
          · rw [turned.replies]
            exact fun reply member => comes reply (List.mem_cons_of_mem _ member)
          · exact turned.notAtEnd
          · rw [turned.moved, turned.maxSize]
            exact few

open Classical in
/-- The loop ends if there are bytes enough, and answers that wait for them. -/
theorem drain_returned (replies : List RecvReply) (r : RangeReaderDecorator UnixSocketConnection)
    (script : r.wrapped.replies = replies) (comes : ∀ reply ∈ replies, Comes reply)
    (enough : r.maxSize.toNat ≤ r.offset.toNat + r.wrapped.input.length)
    (waits : r.maxSize.toNat ≤ r.offset.toNat + replies.countP (Waits ·)) :
    ∃ r', drain unixSocketConnection (replies.length + 1) r = .returned () r' := by
  induction replies generalizing r with
  | nil =>
      have outside : r.offset ≥ r.maxSize := UInt64.le_iff_toNat_le.mpr waits
      exact ⟨r, by rw [drain, if_pos outside]⟩
  | cons reply replies ih =>
      by_cases outside : r.offset ≥ r.maxSize
      · exact ⟨r, by rw [drain, if_pos outside]⟩
      · cases more : r.wrapped.eof with
        | true =>
            have asked : unixSocketConnection.isEOF r.wrapped = (true, r.wrapped) := by
              rw [← more]
              rfl
            exact ⟨r, by simp only [drain, if_neg outside, asked]⟩
        | false =>
            obtain ⟨r', turned, turn⟩ :=
              drain_turn outside more script (comes reply List.mem_cons_self)
            rw [List.length_cons, turn]
            have less : r.offset.toNat < r.maxSize.toNat := by
              have := UInt64.le_iff_toNat_le.not.mp outside
              omega
            have input : r.wrapped.input ≠ [] := by
              apply List.ne_nil_of_length_pos
              omega
            have moved := turned.moved
            have forward := turned.forward
            apply ih r' turned.replies
            · exact fun reply member => comes reply (List.mem_cons_of_mem _ member)
            · rw [turned.maxSize]
              omega
            · rw [List.countP_cons] at waits
              rw [turned.maxSize]
              split at waits
              · rename_i waiting
                have advanced := turned.advanced (of_decide_eq_true waiting) input
                omega
              · omega

open Classical in
theorem le_countP_waits {reply : Nat → RecvReply} {last : Nat}
    (finitely : ∀ i, last ≤ i → Waits (reply i)) (more : Nat) :
    more ≤ ((List.range (last + more)).map reply).countP (Waits ·) := by
  rw [List.range_add, List.map_append, List.countP_append, List.map_map]
  have all : (((List.range more).map (reply ∘ (last + ·)))).countP (Waits ·) = more := by
    rw [List.countP_eq_length.mpr, List.length_map, List.length_range]
    intro _ member
    obtain ⟨i, _, rfl⟩ := List.mem_map.mp member
    exact decide_eq_true (finitely _ (Nat.le_add_right last i))
  rw [all]
  exact Nat.le_add_left ..

/-! ### `Shutdown` -/

/-- `Shutdown` of a range reader over a socket with this peer ends, and if it owns the
socket, with the `Shutdown` of that. -/
def ShutsDown (r : RangeReaderDecorator UnixSocketConnection) (reply : Nat → RecvReply) : Prop :=
  ∃ recvs fuel r', shutdown unixSocketConnection UnixSocketConnection.shutdown fuel
      { r with wrapped := answered recvs reply r.wrapped } = .returned () r' ∧
    (r'.owned = true → r'.wrapped.eof = true)

/-- After the loop nothing is waited for any more. -/
theorem shutdown_returned {fuel : Nat}
    (drained : drain unixSocketConnection fuel r = .returned () r') :
    ∃ r'', shutdown unixSocketConnection UnixSocketConnection.shutdown fuel r = .returned () r'' ∧
      (r''.owned = true → r''.wrapped.eof = true) := by
  cases own : r'.owned with
  | true =>
      refine ⟨{ r' with wrapped := { r'.wrapped with eof := true } }, ?_, fun _ => rfl⟩
      simp only [shutdown, drained, own, if_true, UnixSocketConnection.shutdown]
  | false =>
      refine ⟨r', ?_, fun owns => ?_⟩
      · simp only [shutdown, drained, own, Bool.false_eq_true, if_false]
      · rw [own] at owns
        cases owns

/-- `Shutdown` ends exactly if the peer sends enough for the range before it closes, or
the socket was at its end before. -/
theorem shutdown_ends_iff (r : RangeReaderDecorator UnixSocketConnection)
    (reply : Nat → RecvReply) (comes : ∀ i, Comes (reply i))
    (finitely : ∃ last, ∀ i, last ≤ i → Waits (reply i)) :
    r.ShutsDown reply ↔
      r.wrapped.eof = true ∨ r.maxSize.toNat ≤ r.offset.toNat + r.wrapped.input.length := by
  have answers : ∀ recvs, ∀ answer ∈ (List.range recvs).map reply, Comes answer := by
    intro recvs _ member
    obtain ⟨i, _, rfl⟩ := List.mem_map.mp member
    exact comes i
  constructor
  · rintro ⟨recvs, fuel, r', ended, _⟩
    by_contra neither
    rw [not_or, Bool.not_eq_true, Nat.not_le] at neither
    have running := drain_running fuel { r with wrapped := answered recvs reply r.wrapped }
      (answers recvs) neither.1 neither.2
    rw [shutdown, running] at ended
    cases ended
  · rintro (atEnd | enough)
    · have drained : ∃ r', drain unixSocketConnection 1
          { r with wrapped := answered 0 reply r.wrapped } = .returned () r' := by
        have asked : unixSocketConnection.isEOF (answered 0 reply r.wrapped) =
            (true, answered 0 reply r.wrapped) := by
          rw [← atEnd]
          rfl
        simp only [drain, asked]
        split <;> exact ⟨_, rfl⟩
      obtain ⟨r', drained⟩ := drained
      exact ⟨0, 1, shutdown_returned drained⟩
    · obtain ⟨last, finitely⟩ := finitely
      have waits := le_countP_waits finitely r.maxSize.toNat
      obtain ⟨r', drained⟩ := drain_returned _
        { r with wrapped := answered (last + r.maxSize.toNat) reply r.wrapped } rfl
        (answers _) enough (Nat.le_add_left_of_le waits)
      exact ⟨_, _, shutdown_returned drained⟩

/-- The kernel gives five bytes at a time. -/
def fiveByFive (_ : Nat) : RecvReply := ⟨.bytes 5, 0⟩

/-- A client announces ten bytes, sends five of them, and closes. -/
def closedEarly : RangeReaderDecorator UnixSocketConnection :=
  .new (.new [104, 101, 108, 108, 111] [] 0) 10 true

theorem shutdown_ends_of_whole :
    ShutsDown (.new (.new [104, 101, 108, 108, 111] [] 0) 5 true) fiveByFive :=
  (shutdown_ends_iff _ fiveByFive (fun _ => Or.inl ⟨4, 0, rfl⟩)
    ⟨0, fun _ _ => ⟨4, 0, rfl⟩⟩).mpr (Or.inr (by decide))

theorem shutdown_ends_fails : ¬ closedEarly.ShutsDown fiveByFive := by
  rintro ⟨recvs, fuel, r', ended, _⟩
  have running := drain_running fuel
    { closedEarly with wrapped := answered recvs fiveByFive closedEarly.wrapped }
    (fun _ member => by
      obtain ⟨i, _, rfl⟩ := List.mem_map.mp member
      exact Or.inl ⟨4, 0, rfl⟩)
    rfl (show 0 + 5 < 10 by decide)
  rw [shutdown, running] at ended
  cases ended

end RangeReaderDecorator

end LibSiot
