/-
Module: LibSiot.Proofs.AcknowledgementLimit
Purpose: When the acknowledgement buffer stays within its limit: the limit is checked
  behind the read, so what the wrapped connection gives has to fit; and a request for
  no more bytes is one for as many as there are.
Trusted boundary: none
Main exports: BufferCall, AcknowledgementDecorator.perform,
  AcknowledgementDecorator.withinLimit_iff, AcknowledgementDecorator.boundedReads_iff
-/
import LibSiot.Proofs.Acknowledgement
import LibSiot.Proofs.UnixSocketConnection

namespace LibSiot

universe u

/-- The calls on an acknowledgement buffer. -/
inductive BufferCall where
  | receive (maxlen : UInt64) (flags : UInt32)
  | acknowledge (bytes : UInt64)
  | setAutoAck (autoack : Bool)
deriving Repr, DecidableEq

/-- A call of a caller in manual mode who reads up to `maxlen` bytes at a time, but no
more than the limit. -/
def BufferCall.Bounded (maxBufferSize : UInt64) : BufferCall → Prop
  | .receive maxlen _ => 0 < maxlen ∧ maxlen ≤ maxBufferSize
  | .acknowledge _ => True
  | .setAutoAck autoack => autoack = false

namespace AcknowledgementDecorator

variable {σ : Type u} {w : Connection σ} {i : BufferCall}

/-- One call.  Only that of `Receive` can throw. -/
def perform (w : Connection σ) (i : BufferCall) (a : AcknowledgementDecorator σ) :
    Outcome (AcknowledgementDecorator σ) Unit :=
  match i with
  | .receive maxlen flags =>
      match a.receive w maxlen flags with
      | .running => .running
      | .threw error a => .threw error a
      | .returned _ a => .returned () a
  | .acknowledge bytes => .returned () (a.acknowledge bytes).2
  | .setAutoAck autoack => .returned () (a.setAutoAck autoack)

/-! ### One call -/

/-- What a `Receive` that ended left: the wrapped connection threw, or what it gave is
behind the buffer, unless it fits and is acknowledged at once. -/
theorem left_receive (maxlen : UInt64) (flags : UInt32) (a : AcknowledgementDecorator σ) :
    (a.perform w (.receive maxlen flags)).left =
      match w.receive (requestLength maxlen a.buffer) flags a.wrapped with
      | .running => none
      | .threw _ s => some { a with wrapped := s }
      | .returned more s =>
          some { a with
            wrapped := s
            buffer := if (a.buffer ++ more).length ≤ a.maxBufferSize.toNat ∧ a.autoack = true then []
              else a.buffer ++ more } := by
  rw [perform, receive_eq]
  cases w.receive (requestLength maxlen a.buffer) flags a.wrapped with
  | running => rfl
  | threw error s => rfl
  | returned more s =>
      dsimp only
      by_cases exceeds : (a.buffer ++ more).length > a.maxBufferSize.toNat
      · rw [if_pos exceeds, if_neg fun both => Nat.not_le_of_gt exceeds both.1]
        rfl
      · rw [if_neg exceeds]
        simp only [Outcome.left, Nat.le_of_not_gt exceeds, true_and]

theorem length_acknowledge_le (bytes : UInt64) (a : AcknowledgementDecorator σ) :
    (a.acknowledge bytes).2.buffer.length ≤ a.buffer.length := by
  rw [acknowledge]
  split
  · exact Nat.le_refl _
  · simp

theorem maxBufferSize_acknowledge (bytes : UInt64) (a : AcknowledgementDecorator σ) :
    (a.acknowledge bytes).2.maxBufferSize = a.maxBufferSize := by
  rw [acknowledge]
  split <;> rfl

theorem autoack_acknowledge (bytes : UInt64) (a : AcknowledgementDecorator σ) :
    (a.acknowledge bytes).2.autoack = a.autoack := by
  rw [acknowledge]
  split <;> rfl

/-- No call changes the limit. -/
theorem maxBufferSize_perform {a a' : AcknowledgementDecorator σ}
    (ended : a' ∈ (a.perform w i).left) : a'.maxBufferSize = a.maxBufferSize := by
  cases i with
  | receive maxlen flags =>
      rw [left_receive] at ended
      split at ended
      · cases ended
      · cases ended
        rfl
      · cases ended
        rfl
  | acknowledge bytes =>
      cases ended
      exact maxBufferSize_acknowledge bytes a
  | setAutoAck autoack =>
      cases ended
      rfl

/-! ### The limit -/

/-- What the wrapped connection gives to the call fits into the buffer. -/
def Fits (w : Connection σ) (i : BufferCall) (a : AcknowledgementDecorator σ) : Prop :=
  match i with
  | .receive maxlen flags => ∀ more s,
      w.receive (requestLength maxlen a.buffer) flags a.wrapped = .returned more s →
        a.buffer.length + more.length ≤ a.maxBufferSize.toNat
  | _ => True

/-- The buffer is within the limit. -/
def Within (a : AcknowledgementDecorator σ) : Prop :=
  a.buffer.length ≤ a.maxBufferSize.toNat

instance (a : AcknowledgementDecorator σ) : Decidable a.Within :=
  inferInstanceAs (Decidable (_ ≤ _))

/-- From a buffer within the limit a call leads to one exactly if what it reads fits. -/
theorem within_perform_iff {a : AcknowledgementDecorator σ} (within : a.Within) :
    (∀ a' ∈ (a.perform w i).left, a'.Within) ↔ Fits w i a := by
  cases i with
  | receive maxlen flags =>
      rw [left_receive, Fits]
      cases w.receive (requestLength maxlen a.buffer) flags a.wrapped with
      | running => exact iff_of_true nofun nofun
      | threw error s =>
          apply iff_of_true
          · intro a' ended
            cases ended
            exact within
          · nofun
      | returned more s =>
          constructor
          · intro next more s same
            cases same
            by_contra exceeds
            rw [← List.length_append] at exceeds
            have within' := next _ rfl
            rw [Within, if_neg fun both => exceeds both.1] at within'
            exact exceeds within'
          · intro fits a' ended
            cases ended
            have fits := fits more s rfl
            rw [← List.length_append] at fits
            rw [Within]
            dsimp only
            split
            · exact Nat.zero_le _
            · exact fits
  | acknowledge bytes =>
      apply iff_of_true
      · intro a' ended
        cases ended
        rw [Within, maxBufferSize_acknowledge]
        exact Nat.le_trans (length_acknowledge_le bytes a) within
      · trivial
  | setAutoAck autoack =>
      apply iff_of_true
      · intro a' ended
        cases ended
        exact within
      · trivial

/-- The buffer stays within its limit through any sequence of calls exactly if each
time what the wrapped connection gives fits into it. -/
theorem withinLimit_iff (w : Connection σ) (s : σ) (maxBufferSize : UInt64) (own : Bool)
    (calls : List BufferCall) :
    StatesMeet (perform w) Within calls (new s maxBufferSize own) ↔
      CallsMeet (perform w) (Fits w) calls (new s maxBufferSize own) := by
  have start : (new s maxBufferSize own).Within := Nat.zero_le _
  rw [statesMeet_iff start]
  apply CallsMeet.congr Within start
  · intro i _ a within
    exact within_perform_iff within
  · intro i _ a _ next
    exact next

/-- A buffer with limit 2 over a socket that gave six bytes in two reads. -/
def flooded : AcknowledgementDecorator UnixSocketConnection :=
  { wrapped := .new [] [] 0
    owned := true
    maxBufferSize := 2
    autoack := false
    buffer := [97, 98, 99, 100, 101, 102] }

/-- The caller catches the exception and reads again. -/
theorem withinLimit_fails :
    callAll (perform unixSocketConnection) [.receive 0 0, .receive 0 0]
        (new (.new [97, 98, 99, 100, 101, 102] [⟨.bytes 3, 0⟩, ⟨.bytes 3, 0⟩] 0) 2 true) =
      some ([.error bufferSizeExceeded, .error bufferSizeExceeded], flooded) ∧
      ¬ StatesMeet (perform unixSocketConnection) Within [.receive 0 0, .receive 0 0]
        (new (.new [97, 98, 99, 100, 101, 102] [⟨.bytes 3, 0⟩, ⟨.bytes 3, 0⟩] 0) 2 true) := by
  refine ⟨rfl, fun holds => ?_⟩
  have last : flooded.Within := (holds.2 _ rfl).2 flooded rfl
  exact absurd last (by decide)

/-! ### Bounded reads -/

/-- The call does not throw for the limit, and a `Receive(maxlen)` leaves no more than
`maxlen` bytes in the buffer, or than were there. -/
def Bounds (i : BufferCall) (a : AcknowledgementDecorator UnixSocketConnection) : Prop :=
  match i with
  | .receive maxlen flags =>
      (∀ a', a.receive unixSocketConnection maxlen flags ≠ .threw bufferSizeExceeded a') ∧
        ∀ a' ∈ (a.perform unixSocketConnection (.receive maxlen flags)).left,
          a'.buffer.length ≤ max maxlen.toNat a.buffer.length
  | _ => True

/-- A `Receive(maxlen)` finds fewer than `maxlen` bytes in the buffer, or nothing in
the socket. -/
def Room (i : BufferCall) (a : AcknowledgementDecorator UnixSocketConnection) : Prop :=
  match i with
  | .receive maxlen _ => a.buffer.length < maxlen.toNat ∨ a.wrapped.NothingToRead
  | _ => True

theorem requestLength_eq_zero {maxlen : UInt64} {buffer : Bytes}
    (enough : ¬ buffer.length < maxlen.toNat) : requestLength maxlen buffer = 0 := by
  rw [requestLength]
  exact if_neg enough

/-- In manual mode a call keeps its bounds exactly if there is room for it. -/
theorem bounds_iff_room {a : AcknowledgementDecorator UnixSocketConnection} (within : a.Within)
    (manual : a.autoack = false) (bounded : i.Bounded a.maxBufferSize) : Bounds i a ↔ Room i a := by
  cases i with
  | receive maxlen flags =>
      have limit := UInt64.le_iff_toNat_le.mp bounded.2
      rw [Within] at within
      rw [Bounds, left_receive, receive_eq, Room]
      cases call : unixSocketConnection.receive (requestLength maxlen a.buffer) flags a.wrapped with
      | running =>
          apply iff_of_true
          · exact ⟨nofun, nofun⟩
          · right; right
            rw [UnixSocketConnection.receive_running call]
            nofun
      | threw error s => exact absurd call UnixSocketConnection.receive_not_threw
      | returned more s =>
          obtain ⟨s', read⟩ := UnixSocketConnection.receive_flags call
          dsimp only
          by_cases less : a.buffer.length < maxlen.toNat
          · have request := toNat_requestLength less
            have nonzero : requestLength maxlen a.buffer ≠ 0 := by
              intro zero
              rw [zero, UInt64.toNat_zero] at request
              omega
            have short := (UnixSocketConnection.receive_returned read).2 nonzero
            have fits : ¬ (a.buffer ++ more).length > a.maxBufferSize.toNat := by
              rw [List.length_append]
              omega
            apply iff_of_true
            · constructor
              · rw [if_neg fits]
                nofun
              · intro a' ended
                cases ended
                simp only [manual, Bool.false_eq_true, and_false, if_false, List.length_append]
                omega
            · exact Or.inl less
          · rw [requestLength_eq_zero less] at read
            rw [or_iff_right less, ← UnixSocketConnection.receive_unlimited read]
            constructor
            · rintro ⟨_, left⟩
              have short := left _ rfl
              simp only [manual, Bool.false_eq_true, and_false, if_false,
                List.length_append] at short
              apply List.eq_nil_of_length_eq_zero
              omega
            · rintro rfl
              constructor
              · rw [List.append_nil, if_neg (Nat.not_lt_of_le within)]
                nofun
              · intro a' ended
                cases ended
                simp only [manual, Bool.false_eq_true, and_false, if_false, List.append_nil]
                exact Nat.le_max_right _ _
  | acknowledge bytes => exact Iff.rfl
  | setAutoAck autoack => exact Iff.rfl

/-- A caller in manual mode stays in it. -/
theorem manual_perform {a a' : AcknowledgementDecorator σ} {maxBufferSize : UInt64}
    (manual : a.autoack = false) (bounded : i.Bounded maxBufferSize)
    (ended : a' ∈ (a.perform w i).left) : a'.autoack = false := by
  cases i with
  | receive maxlen flags =>
      rw [left_receive] at ended
      split at ended
      · cases ended
      · cases ended
        exact manual
      · cases ended
        exact manual
  | acknowledge bytes =>
      cases ended
      rw [autoack_acknowledge]
      exact manual
  | setAutoAck autoack =>
      cases ended
      exact bounded

/-- A call that keeps its bounds keeps the buffer within the limit. -/
theorem within_of_bounds {a a' : AcknowledgementDecorator UnixSocketConnection}
    (within : a.Within) (bounded : i.Bounded a.maxBufferSize) (bounds : Bounds i a)
    (ended : a' ∈ (a.perform unixSocketConnection i).left) : a'.Within := by
  rw [Within, maxBufferSize_perform ended]
  cases i with
  | receive maxlen flags =>
      have limit := UInt64.le_iff_toNat_le.mp bounded.2
      have left := bounds.2 a' ended
      rw [Within] at within
      omega
  | acknowledge bytes =>
      cases ended
      exact Nat.le_trans (length_acknowledge_le bytes a) within
  | setAutoAck autoack =>
      cases ended
      exact within

/-- In manual mode, with reads up to the limit, every call of a sequence keeps its bounds
exactly if each `Receive` has room, or finds nothing in the socket. -/
theorem boundedReads_iff (c : UnixSocketConnection) (maxBufferSize : UInt64) (own : Bool)
    (calls : List BufferCall) (bounded : ∀ i ∈ calls, i.Bounded maxBufferSize) :
    CallsMeet (perform unixSocketConnection) Bounds calls (new c maxBufferSize own) ↔
      CallsMeet (perform unixSocketConnection) Room calls (new c maxBufferSize own) := by
  apply CallsMeet.congr fun a =>
    a.Within ∧ a.autoack = false ∧ a.maxBufferSize = maxBufferSize
  · exact ⟨Nat.zero_le _, rfl, rfl⟩
  · rintro i member a ⟨within, manual, rfl⟩
    exact bounds_iff_room within manual (bounded i member)
  · rintro i member a ⟨within, manual, rfl⟩ bounds a' ended
    exact ⟨within_of_bounds within (bounded i member) bounds ended,
      manual_perform manual (bounded i member) ended, maxBufferSize_perform ended⟩

/-- A client sends six bytes, and two reads of two bytes are made, each acknowledged. -/
theorem boundedReads_of_acknowledged :
    CallsMeet (perform unixSocketConnection) Bounds
      [.receive 2 0, .acknowledge 2, .receive 2 0, .acknowledge 2]
      (new (.new [97, 98, 99, 100, 101, 102] [⟨.bytes 3, 0⟩, ⟨.bytes 3, 0⟩] 0) 2 true) := by
  apply (boundedReads_iff _ 2 true _ ?_).mpr
  · refine ⟨Or.inl (by decide), ?_⟩
    rintro _ ⟨⟩
    refine ⟨trivial, ?_⟩
    rintro _ ⟨⟩
    refine ⟨Or.inl (by decide), ?_⟩
    rintro _ ⟨⟩
    refine ⟨trivial, ?_⟩
    rintro _ ⟨⟩
    trivial
  · intro i member
    simp only [List.mem_cons, List.not_mem_nil, or_false] at member
    rcases member with rfl | rfl | rfl | rfl
    · exact ⟨by decide, by decide⟩
    · trivial
    · exact ⟨by decide, by decide⟩
    · trivial

/-- Six bytes come at once, in two reads of up to two bytes each nothing is
acknowledged, and the second one is for as much as there is. -/
theorem boundedReads_fails :
    (∀ i ∈ [BufferCall.receive 2 0, .receive 2 0], i.Bounded 2) ∧
      ¬ CallsMeet (perform unixSocketConnection) Bounds [.receive 2 0, .receive 2 0]
        (new (.new [97, 98, 99, 100, 101, 102] [⟨.bytes 3, 0⟩, ⟨.bytes 4, 0⟩] 0) 2 true) := by
  refine ⟨?_, fun holds => ?_⟩
  · intro i member
    simp only [List.mem_cons, List.not_mem_nil, or_false, or_self] at member
    subst member
    exact ⟨by decide, by decide⟩
  · have second := (holds.2 _ rfl).1.1
    exact second flooded rfl

end AcknowledgementDecorator

end LibSiot
