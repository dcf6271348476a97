/-
Module: LibSiot.Proofs.Acknowledgement
Purpose: The acknowledgement buffer conserves the stream: at every moment the
  bytes acknowledged so far followed by the buffer are the bytes drawn.  The
  acknowledged bytes and the results shown are not fields of the class; they
  are kept beside it as history.
Trusted boundary: none
Main exports: AckCall, AckHistory, AckHistory.call,
  AckHistory.Conserves, AckHistory.acknowledgement_conserves
-/
import LibSiot.Decorators.Acknowledgement
import LibSiot.UnixSocketConnection

namespace LibSiot

universe u

/-- The calls a user makes on an acknowledgement buffer. -/
inductive AckCall where
  | receive (maxlen : UInt64)
  | acknowledge (bytes : UInt64)
  | setAutoAck (autoack : Bool)
deriving Repr, DecidableEq

/-- What these calls give back. -/
inductive AckResult where
  | received (data : Bytes)
  | acknowledged (accepted : Bool)
  | autoAckSet
deriving Repr, DecidableEq

/-- An acknowledgement buffer with its history: the bytes acknowledged so far,
and each result of `Receive` with the position in the stream it starts at. -/
structure AckHistory (σ : Type u) where
  decorator : AcknowledgementDecorator (Recorded σ)
  acked : Bytes
  shown : List (Nat × Bytes)
deriving Repr, DecidableEq

namespace AckHistory

variable {σ : Type u} {w : Connection σ}

/-- A new decorator, before any call. -/
def start (s : σ) (maxBufferSize : UInt64) (own : Bool) : AckHistory σ :=
  { decorator := .new (Recorded.start s) maxBufferSize own, acked := [], shown := [] }

/-- All bytes drawn from the wrapped connection so far. -/
def drawn (h : AckHistory σ) : Bytes := h.decorator.wrapped.drawn

/-- One call.  `Acknowledge(k)` acknowledges the first `k` bytes of the buffer,
and a `Receive` in auto-acknowledge mode the bytes it returns. -/
def call (w : Connection σ) (c : AckCall) (h : AckHistory σ) :
    Outcome (AckHistory σ) AckResult :=
  match c with
  | .receive maxlen =>
      match h.decorator.receive (recorded w) maxlen 0 with
      | .running => .running
      | .threw error a => .threw error { h with decorator := a }
      | .returned data a =>
          .returned (.received data)
            { decorator := a
              acked := if h.decorator.autoack then h.acked ++ data else h.acked
              shown := h.shown ++ [(h.acked.length, data)] }
  | .acknowledge bytes =>
      let reply := h.decorator.acknowledge bytes
      .returned (.acknowledged reply.1)
        { h with
          decorator := reply.2
          acked :=
            if reply.1 then h.acked ++ h.decorator.buffer.take bytes.toNat else h.acked }
  | .setAutoAck autoack =>
      .returned .autoAckSet { h with decorator := h.decorator.setAutoAck autoack }

end AckHistory

namespace AcknowledgementDecorator

variable {σ : Type u} {w : Connection σ}

/-- The request is for what is left of `maxlen`. -/
theorem toNat_requestLength {maxlen : UInt64} {buffer : Bytes}
    (less : buffer.length < maxlen.toNat) :
    (requestLength maxlen buffer).toNat = maxlen.toNat - buffer.length := by
  have small : maxlen.toNat < 2 ^ 64 := maxlen.toNat_lt
  have wide := Bytes.toNat_length (show buffer.length < 2 ^ 64 by omega)
  have fits : buffer.length.toUInt64 ≤ maxlen := by
    rw [UInt64.le_iff_toNat_le, wide]
    omega
  rw [requestLength, if_pos less, UInt64.toNat_sub_of_le _ _ fits, wide]

/-- `Receive` with what it draws put behind the buffer, be it empty or not. -/
theorem receive_eq (w : Connection σ) (maxlen : UInt64) (flags : UInt32)
    (a : AcknowledgementDecorator σ) :
    receive w maxlen flags a =
      match w.receive (requestLength maxlen a.buffer) flags a.wrapped with
      | .running => .running
      | .threw error s => .threw error { a with wrapped := s }
      | .returned more s =>
          if (a.buffer ++ more).length > a.maxBufferSize.toNat then
            .threw bufferSizeExceeded { a with wrapped := s, buffer := a.buffer ++ more }
          else
            .returned (a.buffer ++ more)
              { a with wrapped := s, buffer := if a.autoack then [] else a.buffer ++ more } := by
  rw [receive]
  cases w.receive (requestLength maxlen a.buffer) flags a.wrapped with
  | running => rfl
  | threw error s => rfl
  | returned more s =>
    have appended : (if more.length > 0 then a.buffer ++ more else a.buffer) =
        a.buffer ++ more := by
      cases more <;> simp
    simp only [appended]
    split_ifs <;> rfl

/-- A `Receive` that returns has read from the wrapped connection, shows the old
buffer and the new bytes, and keeps them unless they are acknowledged on the way
out. -/
theorem receive_returned {a a' : AcknowledgementDecorator σ} {maxlen : UInt64}
    {flags : UInt32} {data : Bytes} (call : receive w maxlen flags a = .returned data a') :
    ∃ more, w.receive (requestLength maxlen a.buffer) flags a.wrapped =
        .returned more a'.wrapped ∧
      data = a.buffer ++ more ∧ a'.buffer = (if a.autoack then [] else data) ∧
      a'.autoack = a.autoack := by
  rw [receive_eq] at call
  split at call
  · cases call
  · cases call
  · rename_i more r received
    split at call
    · cases call
    · cases call
      exact ⟨more, received, rfl, rfl, rfl⟩

/-- A `Receive` that throws, be it the wrapped connection or the limit, has put
what it drew into the buffer. -/
theorem receive_threw {a a' : AcknowledgementDecorator (Recorded σ)} {maxlen : UInt64}
    {flags : UInt32} {error : ClientConnectionException}
    (call : receive (recorded w) maxlen flags a = .threw error a') :
    ∃ more, a'.wrapped.drawn = a.wrapped.drawn ++ more ∧
      a'.buffer = a.buffer ++ more := by
  rw [receive_eq] at call
  split at call
  · cases call
  · rename_i r threw
    cases call
    exact ⟨[], by simp [(recorded_threw threw).1], by simp⟩
  · rename_i more r received
    have drawn := (recorded_returned received).1
    split at call
    · cases call
      exact ⟨more, drawn, rfl⟩
    · cases call

theorem acknowledge_fst {a : AcknowledgementDecorator σ} {bytes : UInt64} :
    (a.acknowledge bytes).1 = true ↔ bytes.toNat ≤ a.buffer.length := by
  rw [acknowledge]
  split <;> simp <;> omega

theorem acknowledge_rejected {a : AcknowledgementDecorator σ} {bytes : UInt64}
    (rejected : (a.acknowledge bytes).1 = false) : (a.acknowledge bytes).2 = a := by
  rw [acknowledge] at rejected ⊢
  split at rejected
  · rename_i tooMany
    rw [if_pos tooMany]
  · cases rejected

theorem acknowledge_buffer {a : AcknowledgementDecorator σ} {bytes : UInt64}
    (accepted : (a.acknowledge bytes).1 = true) :
    (a.acknowledge bytes).2 = { a with buffer := a.buffer.drop bytes.toNat } := by
  rw [acknowledge] at accepted ⊢
  split at accepted
  · cases accepted
  · rename_i enough
    rw [if_neg enough]

end AcknowledgementDecorator

namespace AckHistory

open AcknowledgementDecorator

variable {σ : Type u} {w : Connection σ}

/-- Conservation: acknowledged bytes and buffer make up the drawn bytes. -/
def Conserves (h : AckHistory σ) : Prop :=
  h.acked ++ h.decorator.buffer = h.drawn

/-- The byte at a position of the drawn stream was in the result of some
`Receive`, at that position. -/
def ShownAt (h : AckHistory σ) (position : Nat) : Prop :=
  ∃ slice ∈ h.shown, slice.1 ≤ position ∧ position < slice.1 + slice.2.length ∧
    slice.2[position - slice.1]? = h.drawn[position]?

theorem Conserves.start (s : σ) (maxBufferSize : UInt64) (own : Bool) :
    Conserves (AckHistory.start s maxBufferSize own) := rfl

theorem Conserves.call_returned {h h' : AckHistory σ} {c : AckCall} {result : AckResult}
    (conserves : Conserves h) (called : call w c h = .returned result h') :
    Conserves h' := by
  rw [Conserves, drawn] at conserves ⊢
  cases c with
  | receive maxlen =>
      simp only [call] at called
      split at called
      · cases called
      · cases called
      · rename_i data a received
        cases called
        obtain ⟨more, inner, rfl, kept, _⟩ := receive_returned received
        rw [(recorded_returned inner).1, ← conserves, kept]
        cases h.decorator.autoack <;> simp
  | acknowledge bytes =>
      simp only [call] at called
      cases called
      cases accepted : (h.decorator.acknowledge bytes).1 with
      | true =>
          simp only [acknowledge_buffer accepted, if_true, List.append_assoc,
            List.take_append_drop]
          exact conserves
      | false =>
          simpa [acknowledge_rejected accepted] using conserves
  | setAutoAck autoack =>
      cases called
      exact conserves

theorem Conserves.call_threw {h h' : AckHistory σ} {c : AckCall}
    {error : ClientConnectionException} (conserves : Conserves h)
    (called : call w c h = .threw error h') : Conserves h' := by
  rw [Conserves, drawn] at conserves ⊢
  cases c with
  | receive maxlen =>
      simp only [call] at called
      split at called
      · cases called
      · rename_i error' a threw
        cases called
        obtain ⟨more, grown, kept⟩ := receive_threw threw
        rw [grown, kept, ← conserves, List.append_assoc]
      · cases called
  | acknowledge bytes => cases called
  | setAutoAck autoack => cases called

/-- Every drawn byte stays shown once it was; a `Receive` that returns shows
everything not yet acknowledged, so it shows all that is new. -/
theorem shownAt_call {h h' : AckHistory σ} {c : AckCall} {result : AckResult}
    (conserves : Conserves h) (shown : ∀ position < h.drawn.length, ShownAt h position)
    (called : call w c h = .returned result h') :
    ∀ position < h'.drawn.length, ShownAt h' position := by
  cases c with
  | receive maxlen =>
      simp only [call] at called
      split at called
      · cases called
      · cases called
      · rename_i data a received
        cases called
        obtain ⟨more, inner, rfl, _⟩ := receive_returned received
        have grown := (recorded_returned inner).1
        have all : a.wrapped.drawn = h.acked ++ (h.decorator.buffer ++ more) := by
          rw [grown, ← List.append_assoc, show h.acked ++ h.decorator.buffer =
            h.decorator.wrapped.drawn from conserves]
        intro position inside
        simp only [drawn] at inside
        by_cases old : position < h.acked.length
        · have before : position < h.drawn.length := by
            rw [← conserves, List.length_append]
            omega
          obtain ⟨slice, member, lower, upper, byte⟩ := shown position before
          refine ⟨slice, List.mem_append_left _ member, lower, upper, ?_⟩
          simp only [drawn] at before byte ⊢
          rw [byte, grown, List.getElem?_append_left before]
        · refine ⟨_, List.mem_append_right _ (List.mem_singleton_self _), ?_, ?_, ?_⟩
          · simpa using old
          · rw [all] at inside
            simp only [List.length_append] at inside ⊢
            omega
          · simp only [drawn, all]
            exact (List.getElem?_append_right (Nat.le_of_not_lt old)).symm
  | acknowledge bytes =>
      cases called
      have same : (h.decorator.acknowledge bytes).2.wrapped = h.decorator.wrapped := by
        rw [acknowledge]
        split <;> rfl
      simpa only [ShownAt, drawn, same] using shown
  | setAutoAck autoack =>
      cases called
      exact shown

/-- For any wrapped connection, any limit and any sequence of calls, with
exceptions from the wrapped connection or from the limit anywhere among them:
acknowledged bytes and buffer are the drawn bytes; a `Receive` that returns
gives exactly what is unacknowledged; `Acknowledge` accepts exactly up to that
many bytes and otherwise changes nothing; and if nothing threw, every
acknowledged byte was in some result. -/
theorem acknowledgement_conserves (w : Connection σ) (s : σ) (maxBufferSize : UInt64)
    (own : Bool) (calls : List AckCall)
    {results : List (Except ClientConnectionException AckResult)} {h : AckHistory σ}
    (run : callAll (call w) calls (start s maxBufferSize own) = some (results, h)) :
    h.acked ++ h.decorator.buffer = h.drawn ∧
      (∀ maxlen data a, h.decorator.receive (recorded w) maxlen 0 = .returned data a →
        h.acked ++ data = a.wrapped.drawn) ∧
      (∀ bytes : UInt64,
        ((h.decorator.acknowledge bytes).1 = true ↔
          bytes.toNat ≤ h.drawn.length - h.acked.length) ∧
        ((h.decorator.acknowledge bytes).1 = false →
          (h.decorator.acknowledge bytes).2 = h.decorator)) ∧
      ((∀ error, .error error ∉ results) →
        ∀ position < h.acked.length, ShownAt h position) := by
  have history : Conserves h ∧ ((∀ error, .error error ∉ results) →
      ∀ position < h.drawn.length, ShownAt h position) := by
    refine callAll_invariant
      (fun results h => Conserves h ∧ ((∀ error, .error error ∉ results) →
        ∀ position < h.drawn.length, ShownAt h position))
      ?_ ?_ ⟨Conserves.start s maxBufferSize own, by simp [start, drawn,
        AcknowledgementDecorator.new, Recorded.start]⟩ run
    · intro results h c result h' invariant called
      refine ⟨invariant.1.call_returned called, fun quiet => ?_⟩
      apply shownAt_call invariant.1 (invariant.2 _) called
      intro error member
      exact quiet error (List.mem_append_left _ member)
    · intro results h c error h' invariant called
      refine ⟨invariant.1.call_threw called, fun quiet => ?_⟩
      exact absurd (List.mem_append_right _ (List.mem_singleton_self _)) (quiet error)
  obtain ⟨conserves, shown⟩ := history
  have length : h.drawn.length = h.acked.length + h.decorator.buffer.length := by
    rw [← conserves, List.length_append]
  refine ⟨conserves, ?_, ?_, ?_⟩
  · intro maxlen data a received
    obtain ⟨more, inner, rfl, _⟩ := receive_returned received
    rw [(recorded_returned inner).1, ← List.append_assoc]
    exact congrArg (· ++ more) conserves
  · intro bytes
    refine ⟨?_, acknowledge_rejected⟩
    rw [acknowledge_fst, length, Nat.add_sub_cancel_left]
  · intro quiet position acked
    exact shown quiet position (by omega)

/-- A buffer with limit 2 over a socket that delivered `a` and then `bcd`, after
`Receive`, `Acknowledge(1)` and a `Receive` that threw. -/
def overLimit : AckHistory UnixSocketConnection :=
  { decorator :=
      { wrapped :=
          { inner := { input := [], replies := [], eof := false, lastUse := 2 }
            requests := [0, 0]
            drawn := [97, 98, 99, 100] }
        owned := true
        maxBufferSize := 2
        autoack := false
        buffer := [98, 99, 100] }
    acked := [97]
    shown := [(0, [97])] }

theorem acknowledgement_conserves_over_limit :
    overLimit.acked ++ overLimit.decorator.buffer = overLimit.drawn ∧
      (overLimit.decorator.acknowledge 3).1 = true := by
  have run : callAll (call unixSocketConnection) [.receive 0, .acknowledge 1, .receive 0]
      (start (UnixSocketConnection.new [97, 98, 99, 100] [⟨.bytes 1, 1⟩, ⟨.bytes 3, 2⟩] 0)
        2 true) =
      some ([.ok (.received [97]), .ok (.acknowledged true), .error bufferSizeExceeded],
        overLimit) := by
    rfl
  obtain ⟨conserves, _, accepts, _⟩ :=
    acknowledgement_conserves unixSocketConnection _ 2 true _ run
  exact ⟨conserves, (accepts 3).1.mpr (by decide)⟩

end AckHistory

end LibSiot
