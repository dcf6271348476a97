/-
Module: LibSiot.Proofs.UnixSocketConnection
Purpose: What a read from the socket takes and returns, and that a socket which
  does not fail honours the contract the decorators rely on.
Trusted boundary: none
Main exports: Honours, UnixSocketConnection.receive_returned,
  UnixSocketConnection.receive_unlimited, UnixSocketConnection.honours
-/
import LibSiot.Library.SeqPrefix
import LibSiot.UnixSocketConnection

namespace LibSiot

universe u

open Stream'

/-- A connection that honours `Receive` in every state of `working`, which its
own calls never leave.  `pending` reads off the state the stream still to come.
Asked for `k > 0` bytes it returns the next at most `k` of them, possibly none;
an exception takes nothing; and `IsEOF` is true only when the stream is used
up. -/
structure Honours {σ : Type u} (w : Connection σ) (working : σ → Prop)
    (pending : σ → Seq UInt8) : Prop where
  receive : ∀ {k : UInt64} {s s' : σ} {data : Bytes}, working s → k ≠ 0 →
    w.receive k 0 s = .returned data s' →
      data.length ≤ k.toNat ∧ data = (pending s).take data.length ∧
        pending s' = (pending s).drop data.length ∧ working s'
  threw : ∀ {k : UInt64} {s s' : σ} {error : ClientConnectionException}, working s → k ≠ 0 →
    w.receive k 0 s = .threw error s' → pending s' = pending s ∧ working s'
  isEOF : ∀ {s s' : σ} {atEnd : Bool}, working s → w.isEOF s = (atEnd, s') →
    pending s' = pending s ∧ (atEnd = true → pending s = Seq.nil) ∧ working s'

namespace UnixSocketConnection

/-! ### One read -/

/-- The buffer is as long as a positive request, unless that is over 64 KiB. -/
theorem bufferLength_le {k : UInt64} (nonzero : k ≠ 0) :
    (bufferLength k).toNat ≤ k.toNat := by
  rw [bufferLength]
  split
  · rename_i whole
    rcases whole with none | large
    · exact absurd (UInt64.le_zero_iff.mp none) nonzero
    · exact Nat.le_of_lt (UInt64.lt_iff_toNat_lt.mp large)
  · exact Nat.le_refl _

theorem bufferLength_pos (k : UInt64) : 0 < (bufferLength k).toNat := by
  rw [bufferLength]
  split
  · decide
  · rename_i part
    rw [not_or, UInt64.le_zero_iff] at part
    exact Nat.pos_of_ne_zero fun zero => part.1 (UInt64.toNat_inj.mp zero)

/-- What one `recv` returns is the front of the input. -/
theorem take_length_recvBytes (limit : Nat) (len : UInt64) (c : UnixSocketConnection) :
    c.input.take (recvBytes limit len c).length = recvBytes limit len c := by
  rw [recvBytes, List.length_take, ← List.take_take, List.take_length]

/-- A read moves bytes from the front of the input to its result, and with a
positive request no more than that. -/
theorem receive_returned {k : UInt64} {c c' : UnixSocketConnection} {data : Bytes}
    (call : receive k 0 c = .returned data c') :
    data ++ c'.input = c.input ∧ (k ≠ 0 → data.length ≤ k.toNat) := by
  simp only [receive] at call
  split at call
  · cases call
  · rename_i limit now replies script
    simp only [Outcome.returned.injEq] at call
    obtain ⟨rfl, rfl⟩ := call
    constructor
    · have front := take_length_recvBytes limit (bufferLength k) c
      calc recvBytes limit (bufferLength k) c ++
              c.input.drop (recvBytes limit (bufferLength k) c).length
          = c.input.take (recvBytes limit (bufferLength k) c).length ++
              c.input.drop (recvBytes limit (bufferLength k) c).length := by rw [front]
        _ = c.input := List.take_append_drop _ _
    · intro nonzero
      have buffer := bufferLength_le nonzero
      rw [recvBytes, List.length_take]
      omega
  · simp only [Outcome.returned.injEq] at call
    obtain ⟨rfl, rfl⟩ := call
    exact ⟨rfl, fun _ => Nat.zero_le _⟩

/-- A read of the socket never throws. -/
theorem receive_not_threw {k : UInt64} {flags : UInt32} {c c' : UnixSocketConnection}
    {error : ClientConnectionException} : receive k flags c ≠ .threw error c' := by
  simp only [receive]
  split <;> simp

/-- The next `recv` has nothing to return, whatever the buffer: no byte is
waiting, or the kernel delivers none. -/
def NothingToRead (c : UnixSocketConnection) : Prop :=
  c.input = [] ∨ ∀ limit now, c.replies.head? = some ⟨.bytes limit, now⟩ → limit = 0

/-- A request for 0 bytes is for as many as there are, up to 64 KiB. -/
theorem receive_unlimited {c c' : UnixSocketConnection} {data : Bytes}
    (call : receive 0 0 c = .returned data c') : data = [] ↔ NothingToRead c := by
  simp only [receive] at call
  split at call
  · cases call
  · rename_i limit now replies script
    simp only [Outcome.returned.injEq] at call
    obtain ⟨rfl, rfl⟩ := call
    have whole : (bufferLength 0).toNat = 65536 := rfl
    simp only [recvBytes, NothingToRead, script, whole, List.take_eq_nil_iff, List.head?_cons,
      Option.some.injEq, RecvReply.mk.injEq, RecvResult.bytes.injEq]
    constructor
    · rintro (none | empty)
      · right
        rintro _ _ ⟨rfl, _⟩
        omega
      · exact Or.inl empty
    · rintro (empty | none)
      · exact Or.inr empty
      · have zero := none limit now ⟨rfl, rfl⟩
        left
        omega
  · rename_i errno now replies script
    simp only [Outcome.returned.injEq] at call
    obtain ⟨rfl, rfl⟩ := call
    simp [NothingToRead, script]

/-- What a read returns does not depend on the flags. -/
theorem receive_flags {k : UInt64} {flags : UInt32} {c c' : UnixSocketConnection} {data : Bytes}
    (call : receive k flags c = .returned data c') : ∃ c'', receive k 0 c = .returned data c'' := by
  simp only [receive] at call ⊢
  split at call <;> cases call <;> exact ⟨_, rfl⟩

/-- A read that has not returned waits for an answer of the kernel. -/
theorem receive_running {k : UInt64} {flags : UInt32} {c : UnixSocketConnection}
    (call : receive k flags c = .running) : c.replies = [] := by
  simp only [receive] at call
  split at call
  · assumption
  · cases call
  · cases call

/-! ### A socket that does not fail -/

/-- The socket is not at its end, and no `recv` will report a descriptor that is
gone.  It may still report `EAGAIN`, or deliver nothing. -/
structure Working (c : UnixSocketConnection) : Prop where
  notAtEnd : c.eof = false
  harmless : ∀ reply ∈ c.replies,
    reply.result ∉ [.error .EBADF, .error .EINVAL, .error .ENOTCONN]

/-- A read leaves a working socket working. -/
theorem Working.receive {k : UInt64} {flags : UInt32} {c c' : UnixSocketConnection}
    {data : Bytes} (works : Working c) (call : c.receive k flags = .returned data c') :
    Working c' := by
  simp only [UnixSocketConnection.receive] at call
  split at call
  · cases call
  · rename_i limit now replies script
    simp only [Outcome.returned.injEq] at call
    obtain ⟨rfl, rfl⟩ := call
    refine ⟨works.notAtEnd, fun reply member => ?_⟩
    exact works.harmless reply (script ▸ List.mem_cons_of_mem _ member)
  · rename_i errno now replies script
    simp only [Outcome.returned.injEq] at call
    obtain ⟨rfl, rfl⟩ := call
    have harmless := works.harmless ⟨.error errno, now⟩ (script ▸ List.mem_cons_self)
    refine ⟨by simpa [works.notAtEnd] using harmless, fun reply member => ?_⟩
    exact works.harmless reply (script ▸ List.mem_cons_of_mem _ member)

/-- A working socket honours `Receive`, with its input as the stream. -/
theorem honours :
    Honours unixSocketConnection Working fun c => Seq.ofList c.input where
  receive := by
    intro k c c' data works nonzero call
    obtain ⟨split, short⟩ := receive_returned call
    refine ⟨short nonzero, ?_, ?_, works.receive call⟩
    · rw [SeqPrefix.take_ofList, ← split, List.take_left]
    · rw [SeqPrefix.drop_ofList, ← split, List.drop_left]
  threw := by
    intro k c c' error works nonzero call
    exact absurd call receive_not_threw
  isEOF := by
    intro c c' atEnd works call
    cases call
    exact ⟨rfl, fun yes => absurd (works.notAtEnd.symm.trans yes) (by decide), works⟩

end UnixSocketConnection

end LibSiot
