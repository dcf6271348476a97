/-
Module: LibSiot.Proofs.FullConnection
Purpose: The two directions of a connection stay apart on every stack: reads give
  what they give without the calls of `Send` between them, and `Send` does on the
  bottom what it does without decorators, unless a range reader is in the way.
Trusted boundary: none
Main exports: FullConnection.Apart, fullStack_reads, fullStack_writes,
  fullStack_read_only, Socket.apart, TlsChannel.apart, socket_full_duplex,
  tls_full_duplex
-/
import LibSiot.FullConnection
import LibSiot.Proofs.EndOfFileFinal
import LibSiot.Proofs.OpenSSLConnection
import LibSiot.Proofs.StackAgreement

namespace LibSiot

universe u v w

open Relation (ReflTransGen)

/-! ### One call -/

section Outcomes

variable {σ : Type u} {τ : Type v} {α : Type w}

theorem Outcome.map_id (outcome : Outcome σ α) : outcome.map id = outcome := by
  cases outcome <;> rfl

theorem Outcome.map_map {ρ : Type*} (f : σ → τ) (g : τ → ρ) (outcome : Outcome σ α) :
    (outcome.map f).map g = outcome.map (g ∘ f) := by
  cases outcome <;> rfl

@[simp] theorem Outcome.map_left (f : σ → τ) (outcome : Outcome σ α) :
    (outcome.map f).left = outcome.left.map f := by
  cases outcome <;> rfl

theorem LineBufferDecorator.send_left {w : FullConnection σ} {data : Bytes} {flags : UInt32}
    {lb lb' : LineBufferDecorator σ} (left : (send w data flags lb).left = some lb') :
    ∃ s, (w.send data flags lb.wrapped).left = some s ∧ lb' = { lb with wrapped := s } := by
  rw [send, Outcome.map_left, Option.map_eq_some_iff] at left
  obtain ⟨s, sent, equal⟩ := left
  exact ⟨s, sent, equal.symm⟩

theorem AcknowledgementDecorator.send_left {w : FullConnection σ} {data : Bytes}
    {flags : UInt32} {a a' : AcknowledgementDecorator σ}
    (left : (send w data flags a).left = some a') :
    ∃ s, (w.send data flags a.wrapped).left = some s ∧ a' = { a with wrapped := s } := by
  rw [send, Outcome.map_left, Option.map_eq_some_iff] at left
  obtain ⟨s, sent, equal⟩ := left
  exact ⟨s, sent, equal.symm⟩

end Outcomes

/-- The two sides of a connection: calls of one depend on that side alone, and those of the
other leave it. -/
structure FullConnection.Apart {σ : Type u} (w : FullConnection σ)
    (Reading Writing : σ → σ → Prop) : Prop where
  reads : w.toConnection.Agrees Reading w.toConnection
  reads_leave : ∀ {s s' t : σ}, w.toConnection.Called s s' → Writing s t → Writing s' t
  sends : ∀ {s t : σ} (data : Bytes) (flags : UInt32), Writing s t →
    (w.send data flags s).Agree Writing (w.send data flags t)
  sends_leave : ∀ {data : Bytes} {flags : UInt32} {s s' t : σ},
    (w.send data flags s).left = some s' → Reading s t → Reading s' t
  setBlocking : ∀ {s t : σ} (blocking : Bool),
    (Reading s t → Reading (w.setBlocking blocking s) (w.setBlocking blocking t)) ∧
      (Writing s t → Writing (w.setBlocking blocking s) (w.setBlocking blocking t))

theorem FullConnection.answer_send_left {σ : Type u} {w : FullConnection σ} {data : Bytes}
    {flags : UInt32} {s s' : σ} (left : (w.answer (.send data flags) s).left = some s') :
    (w.send data flags s).left = some s' := by
  simp only [answer] at left
  split at left
  · cases left
  · rename_i thrown
    rw [thrown]
    exact left
  · rename_i sent
    rw [sent]
    exact left

/-- A read that ended is a call of the connection. -/
theorem FullConnection.called_of_read {σ : Type u} {w : FullConnection σ} {call : ReadCall}
    {s s' : σ} (left : (w.answer (.read call) s).left = some s') :
    w.toConnection.Called s s' := by
  cases call with
  | receive len flags =>
      simp only [answer, Connection.answer] at left
      cases call : w.receive len flags s with
      | running =>
          rw [call] at left
          cases left
      | threw error t =>
          rw [call] at left
          cases left
          exact .threw call
      | returned data t =>
          rw [call] at left
          cases left
          exact .received call
  | isEOF =>
      cases left
      exact .asked rfl

/-- Calls that the reading side does not show: of `Send`, and of `GetLastUse`, which is the time
of either direction. -/
def Call.beside : Call → Bool
  | .send _ _ | .getLastUse => true
  | _ => false

/-- Calls that the writing side does not show. -/
def Call.reading : Call → Bool
  | .read _ | .getLastUse => true
  | _ => false

/-- Calls that do not reach the writing side of the bottom where a level refuses to send. -/
def Call.absorbed : Call → Bool
  | .setBlocking _ => false
  | _ => true

def Call.sends : Call → Bool
  | .send _ _ => true
  | _ => false

/-- No level refuses to send. -/
def Level.writable : Level → Bool
  | .rangeReader _ _ => false
  | _ => true

section Stack

variable {σ : Type u} {w : FullConnection σ} {Reading Writing : σ → σ → Prop}
  {outOfRange : UInt8} {fuel : Nat}

@[simp] theorem fullStack_toConnection (w : FullConnection σ) (levels : List Level) :
    (fullStack w outOfRange fuel levels).toConnection =
      stack w.toConnection outOfRange fuel levels := by
  cases levels with
  | nil => rfl
  | cons level levels => cases level <;> rfl

/-! ### Reading -/

theorem fullStack_setBlocking_over (R : σ → σ → Prop)
    (keeps : ∀ {s t : σ}, R s t →
      ∀ blocking, R (w.setBlocking blocking s) (w.setBlocking blocking t))
    (blocking : Bool) {levels : List Level} {st st' : StackState σ levels}
    (related : StackOver R levels st st') :
    StackOver R levels ((fullStack w outOfRange fuel levels).setBlocking blocking st)
      ((fullStack w outOfRange fuel levels).setBlocking blocking st') := by
  induction levels with
  | nil => exact keeps related blocking
  | cons level levels ih =>
      cases level with
      | lineBuffer own => exact { related with wrapped := ih related.wrapped }
      | rangeReader maxSize own => exact { related with wrapped := ih related.wrapped }
      | acknowledgement maxBufferSize own => exact { related with wrapped := ih related.wrapped }

theorem fullStack_send_over (R : σ → σ → Prop)
    (leaves : ∀ {data : Bytes} {flags : UInt32} {s s' t : σ},
      (w.send data flags s).left = some s' → R s t → R s' t)
    {data : Bytes} {flags : UInt32} {levels : List Level} {st st₁ st' : StackState σ levels}
    (left : ((fullStack w outOfRange fuel levels).send data flags st).left = some st₁)
    (related : StackOver R levels st st') : StackOver R levels st₁ st' := by
  induction levels with
  | nil => exact leaves left related
  | cons level levels ih =>
      cases level with
      | lineBuffer own =>
          obtain ⟨s, sent, rfl⟩ := LineBufferDecorator.send_left left
          exact { related with wrapped := ih sent related.wrapped }
      | rangeReader maxSize own =>
          cases left
          exact related
      | acknowledgement maxBufferSize own =>
          obtain ⟨s, sent, rfl⟩ := AcknowledgementDecorator.send_left left
          exact { related with wrapped := ih sent related.wrapped }

/-- Leaving out the calls of `Send` and `GetLastUse`, the others give the same results. -/
theorem fullStack_reads (apart : w.Apart Reading Writing) (levels : List Level) {calls : List Call}
    {st st' st₁ : StackState σ levels}
    {results : List (Except ClientConnectionException CallResult)}
    (related : StackOver Reading levels st st₁)
    (run : callAll (fullStack w outOfRange fuel levels).answer calls st = some (results, st')) :
    ∃ st'', callAll (fullStack w outOfRange fuel levels).answer
        (calls.filter fun call => !call.beside) st₁ =
      some (seenResults Call.beside calls results, st'') ∧
        StackOver Reading levels st' st'' := by
  refine callAll_hidden (StackOver Reading levels) ?_ ?_ related run
  · intro call s t visible related
    cases call with
    | read call =>
        have agree := (stack_agrees apart.reads outOfRange fuel levels).answer call related
        simp only [FullConnection.answer, fullStack_toConnection]
        generalize (stack w.toConnection outOfRange fuel levels).answer call s = outcome at agree
        generalize (stack w.toConnection outOfRange fuel levels).answer call t = outcome' at agree
        cases agree with
        | returned last => exact .returned last
        | threw last => exact .threw last
        | running => exact .running
    | send data flags => cases visible
    | setBlocking blocking =>
        refine .returned (fullStack_setBlocking_over Reading ?_ blocking related)
        exact fun related blocking => (apart.setBlocking blocking).1 related
    | getLastUse => cases visible
  · intro call s s' t hides related left
    cases call with
    | read call => cases hides
    | send data flags =>
        exact fullStack_send_over Reading apart.sends_leave
          (FullConnection.answer_send_left left) related
    | setBlocking blocking => cases hides
    | getLastUse =>
        cases left
        exact related

/-! ### Writing -/

/-- The same stack over another bottom. -/
def StackState.onBottom : {levels : List Level} → StackState σ levels → σ → StackState σ levels
  | [], _, s => s
  | _ :: _, st, s => st.rewrap (onBottom st.wrapped s)

theorem StackState.bottom_onBottom {levels : List Level} (st : StackState σ levels) (s : σ) :
    (st.onBottom s).bottom = s := by
  induction levels with
  | nil => rfl
  | cons level levels ih =>
      cases level <;> exact ih _

theorem Sound.onBottom {levels : List Level} {st : StackState σ levels} (sound : Sound st)
    (s : σ) : Sound (st.onBottom s) := by
  induction levels with
  | nil => trivial
  | cons level levels ih =>
      cases level with
      | lineBuffer own => exact ⟨sound.1, ih sound.2⟩
      | rangeReader maxSize own => exact ih sound
      | acknowledgement maxBufferSize own => exact ih sound

/-- `SetBlocking` on a stack is `SetBlocking` on its bottom. -/
theorem fullStack_setBlocking (blocking : Bool) {levels : List Level}
    (st : StackState σ levels) :
    (fullStack w outOfRange fuel levels).setBlocking blocking st =
      st.onBottom (w.setBlocking blocking st.bottom) := by
  induction levels with
  | nil => rfl
  | cons level levels ih =>
      cases level with
      | lineBuffer own =>
          exact congrArg (StackState.rewrap st) (ih (StackState.wrapped st))
      | rangeReader maxSize own =>
          exact congrArg (StackState.rewrap st) (ih (StackState.wrapped st))
      | acknowledgement maxBufferSize own =>
          exact congrArg (StackState.rewrap st) (ih (StackState.wrapped st))

/-- `Send` on a stack that no level of which refuses is `Send` on its bottom. -/
theorem fullStack_send {levels : List Level} (writable : ∀ level ∈ levels, level.writable = true)
    (data : Bytes) (flags : UInt32) (st : StackState σ levels) :
    (fullStack w outOfRange fuel levels).send data flags st =
      (w.send data flags st.bottom).map st.onBottom := by
  induction levels with
  | nil => exact (Outcome.map_id _).symm
  | cons level levels ih =>
      have below := ih (fun level member => writable level (List.mem_cons_of_mem _ member))
        (StackState.wrapped st)
      have above : level.writable = true := writable level List.mem_cons_self
      cases level with
      | lineBuffer own =>
          calc (fullStack w outOfRange fuel (.lineBuffer own :: levels)).send data flags st
              = ((fullStack w outOfRange fuel levels).send data flags st.wrapped).map
                  st.rewrap := rfl
            _ = ((w.send data flags st.wrapped.bottom).map st.wrapped.onBottom).map st.rewrap := by
                rw [below]
            _ = (w.send data flags st.bottom).map st.onBottom := Outcome.map_map _ _ _
      | rangeReader maxSize own => cases above
      | acknowledgement maxBufferSize own =>
          calc (fullStack w outOfRange fuel (.acknowledgement maxBufferSize own :: levels)).send
                data flags st
              = ((fullStack w outOfRange fuel levels).send data flags st.wrapped).map
                  st.rewrap := rfl
            _ = ((w.send data flags st.wrapped.bottom).map st.wrapped.onBottom).map st.rewrap := by
                rw [below]
            _ = (w.send data flags st.bottom).map st.onBottom := Outcome.map_map _ _ _

/-- If a level refuses, at whatever depth, `Send` throws and changes nothing. -/
theorem fullStack_send_refused {levels : List Level}
    (refuses : ∃ level ∈ levels, level.writable = false) (data : Bytes) (flags : UInt32)
    (st : StackState σ levels) :
    (fullStack w outOfRange fuel levels).send data flags st = .threw readOnly st := by
  induction levels with
  | nil =>
      obtain ⟨_, member, _⟩ := refuses
      cases member
  | cons level levels ih =>
      cases level with
      | rangeReader maxSize own => rfl
      | lineBuffer own =>
          obtain ⟨level, member, refuses⟩ := refuses
          rcases List.mem_cons.mp member with rfl | member
          · cases refuses
          · calc (fullStack w outOfRange fuel (.lineBuffer own :: levels)).send data flags st
                = ((fullStack w outOfRange fuel levels).send data flags st.wrapped).map
                    st.rewrap := rfl
              _ = .threw readOnly st := by
                  rw [ih ⟨level, member, refuses⟩]
                  rfl
      | acknowledgement maxBufferSize own =>
          obtain ⟨level, member, refuses⟩ := refuses
          rcases List.mem_cons.mp member with rfl | member
          · cases refuses
          · calc (fullStack w outOfRange fuel (.acknowledgement maxBufferSize own :: levels)).send
                  data flags st
                = ((fullStack w outOfRange fuel levels).send data flags st.wrapped).map
                    st.rewrap := rfl
              _ = .threw readOnly st := by
                  rw [ih ⟨level, member, refuses⟩]
                  rfl

/-- What a call of `Receive` or `IsEOF` on a stack does to the bottom are such calls. -/
theorem Sound.called_bottom {c : Connection σ} {levels : List Level} {st st' : StackState σ levels}
    (sound : Sound st) (call : (stack c outOfRange fuel levels).Called st st') :
    ReflTransGen c.Called st.bottom st'.bottom := by
  induction levels with
  | nil => exact .single call
  | cons level levels ih =>
      have below : ∀ {s s'}, Sound s →
          ReflTransGen (stack c outOfRange fuel levels).Called s s' →
            ReflTransGen c.Called s.bottom s'.bottom ∧ Sound s' := by
        intro s s' sound calls
        induction calls with
        | refl => exact ⟨.refl, sound⟩
        | tail _ call still => exact ⟨still.1.trans (ih still.2 call), still.2.called call⟩
      cases level with
      | lineBuffer own =>
          exact (below sound.2 (LineBufferDecorator.called_keeps sound.1 call).1).1
      | rangeReader maxSize own => exact (below sound (RangeReaderDecorator.called_keeps call)).1
      | acknowledgement maxBufferSize own =>
          exact (below sound (AcknowledgementDecorator.called_keeps call)).1

/-- Sound, and on the writing side at the bottom like `s`. -/
structure WritesLike (Writing : σ → σ → Prop) {levels : List Level} (st : StackState σ levels)
    (s : σ) : Prop where
  sound : Sound st
  bottom : Writing st.bottom s

theorem WritesLike.build {s : σ} (same : Writing s s) (autoack : Bool) (levels : List Level) :
    WritesLike Writing (StackState.build autoack s levels) s := by
  refine ⟨Sound.build autoack s levels, ?_⟩
  induction levels with
  | nil => exact same
  | cons level levels ih => cases level <;> exact ih

theorem WritesLike.onBottom {levels : List Level} {st : StackState σ levels} {s s' t : σ}
    (like : WritesLike Writing st s) (same : Writing s' t) :
    WritesLike Writing (st.onBottom s') t := by
  refine ⟨like.sound.onBottom s', ?_⟩
  rw [StackState.bottom_onBottom]
  exact same

/-- Reads leave the writing side. -/
theorem WritesLike.read (apart : w.Apart Reading Writing) {levels : List Level}
    {st st' : StackState σ levels} {s : σ} (like : WritesLike Writing st s) {call : ReadCall}
    (left : ((fullStack w outOfRange fuel levels).answer (.read call) st).left = some st') :
    WritesLike Writing st' s := by
  have called : (stack w.toConnection outOfRange fuel levels).Called st st' := by
    have called := FullConnection.called_of_read left
    rwa [fullStack_toConnection] at called
  refine ⟨like.sound.called called, ?_⟩
  have left : ∀ s', ReflTransGen w.toConnection.Called st.bottom s' → Writing s' s := by
    intro s' calls
    induction calls with
    | refl => exact like.bottom
    | tail _ call still => exact apart.reads_leave call still
  exact left _ (like.sound.called_bottom called)

/-- Where no level refuses, the calls of `Send` and `SetBlocking` give what they give on the
bottom alone, and leave its writing side like that. -/
theorem fullStack_writes (apart : w.Apart Reading Writing) {levels : List Level}
    (writable : ∀ level ∈ levels, level.writable = true) {calls : List Call}
    {st st' : StackState σ levels} {s : σ}
    {results : List (Except ClientConnectionException CallResult)}
    (like : WritesLike Writing st s)
    (run : callAll (fullStack w outOfRange fuel levels).answer calls st = some (results, st')) :
    ∃ s', callAll w.answer (calls.filter fun call => !call.reading) s =
      some (seenResults Call.reading calls results, s') ∧ WritesLike Writing st' s' := by
  refine callAll_hidden (WritesLike Writing) ?_ ?_ like run
  · intro call st s visible like
    cases call with
    | read call => cases visible
    | send data flags =>
        have agree := apart.sends data flags like.bottom
        simp only [FullConnection.answer, fullStack_send writable]
        generalize w.send data flags st.bottom = outcome at agree
        generalize w.send data flags s = outcome' at agree
        cases agree with
        | returned last => exact .returned (like.onBottom last)
        | threw last => exact .threw (like.onBottom last)
        | running => exact .running
    | setBlocking blocking =>
        simp only [FullConnection.answer, fullStack_setBlocking]
        exact .returned (like.onBottom ((apart.setBlocking blocking).2 like.bottom))
    | getLastUse => cases visible
  · intro call st st' s hides like left
    cases call with
    | read call => exact like.read apart left
    | send data flags => cases hides
    | setBlocking blocking => cases hides
    | getLastUse =>
        cases left
        exact like

/-- Where a level refuses, only the calls of `SetBlocking` reach the writing side of the
bottom. -/
theorem fullStack_read_only (apart : w.Apart Reading Writing) {levels : List Level}
    (refuses : ∃ level ∈ levels, level.writable = false) {calls : List Call}
    {st st' : StackState σ levels} {s : σ}
    {results : List (Except ClientConnectionException CallResult)}
    (like : WritesLike Writing st s)
    (run : callAll (fullStack w outOfRange fuel levels).answer calls st = some (results, st')) :
    (∀ entry ∈ calls.zip results, entry.1.sends = true → entry.2 = .error readOnly) ∧
      ∃ s', callAll w.answer (calls.filter fun call => !call.absorbed) s =
        some (seenResults Call.absorbed calls results, s') ∧ WritesLike Writing st' s' := by
  have throws : ∀ data flags (st : StackState σ levels),
      (fullStack w outOfRange fuel levels).answer (.send data flags) st = .threw readOnly st := by
    intro data flags st
    simp only [FullConnection.answer, fullStack_send_refused refuses]
  constructor
  · refine callAll_induction (fun _ calls results _ => ∀ entry ∈ calls.zip results,
      entry.1.sends = true → entry.2 = .error readOnly) ?_ ?_ ?_ run
    · intro st entry member
      cases member
    · intro st call value t calls results st' answered ih entry member sends
      rcases List.mem_cons.mp member with rfl | later
      · cases call with
        | send data flags =>
            rw [throws] at answered
            cases answered
        | read call => cases sends
        | setBlocking blocking => cases sends
        | getLastUse => cases sends
      · exact ih entry later sends
    · intro st call error t calls results st' answered ih entry member sends
      rcases List.mem_cons.mp member with rfl | later
      · cases call with
        | send data flags =>
            rw [throws] at answered
            cases answered
            rfl
        | read call => cases sends
        | setBlocking blocking => cases sends
        | getLastUse => cases sends
      · exact ih entry later sends
  · refine callAll_hidden (WritesLike Writing) ?_ ?_ like run
    · intro call st s visible like
      cases call with
      | setBlocking blocking =>
          simp only [FullConnection.answer, fullStack_setBlocking]
          exact .returned (like.onBottom ((apart.setBlocking blocking).2 like.bottom))
      | read call => cases visible
      | send data flags => cases visible
      | getLastUse => cases visible
    · intro call st st' s hides like left
      cases call with
      | read call => exact like.read apart left
      | send data flags =>
          rw [throws] at left
          cases left
          exact like
      | setBlocking blocking => cases hides
      | getLastUse =>
          cases left
          exact like

end Stack

/-! ### The two connection classes -/

namespace Socket

/-- The same as far as reading goes. -/
structure Reading (s t : Socket) : Prop where
  input : s.reading.input = t.reading.input
  replies : s.reading.replies = t.reading.replies
  eof : s.reading.eof = t.reading.eof

/-- The same as far as writing goes. -/
structure Writing (s t : Socket) : Prop where
  sent : s.sent = t.sent
  sendReplies : s.sendReplies = t.sendReplies
  statusFlags : s.statusFlags = t.statusFlags

theorem reads_agree : socket.toConnection.Agrees Reading socket.toConnection where
  receive := by
    rintro ⟨⟨input, replies, eof, lastUse⟩, sent, sendReplies, statusFlags⟩
      ⟨⟨input', replies', eof', lastUse'⟩, sent', sendReplies', statusFlags'⟩ len flags
      ⟨⟨⟩, ⟨⟩, ⟨⟩⟩
    simp only [socket, UnixSocketConnection.receive, UnixSocketConnection.recvBytes]
    split
    · exact .running
    · exact .returned ⟨rfl, rfl, rfl⟩
    · exact .returned ⟨rfl, rfl, rfl⟩
  isEOF := by
    intro s t related
    exact ⟨related.eof, related⟩

theorem reads_leave {s s' t : Socket} (call : socket.toConnection.Called s s')
    (related : Writing s t) : Writing s' t := by
  cases call with
  | received call =>
      simp only [socket] at call
      generalize UnixSocketConnection.receive _ _ s.reading = outcome at call
      cases outcome <;> cases call
      exact ⟨related.sent, related.sendReplies, related.statusFlags⟩
  | threw call =>
      simp only [socket] at call
      generalize UnixSocketConnection.receive _ _ s.reading = outcome at call
      cases outcome <;> cases call
      exact ⟨related.sent, related.sendReplies, related.statusFlags⟩
  | asked call =>
      cases call
      exact ⟨related.sent, related.sendReplies, related.statusFlags⟩

theorem sends_agree {s t : Socket} (data : Bytes) (flags : UInt32) (related : Writing s t) :
    (socket.send data flags s).Agree Writing (socket.send data flags t) := by
  obtain ⟨reading, sent, replies, statusFlags⟩ := s
  obtain ⟨reading', sent', replies', statusFlags'⟩ := t
  obtain ⟨⟨⟩, ⟨⟩, ⟨⟩⟩ := related
  simp only [socket, send]
  split
  · exact .running
  · exact .returned ⟨rfl, rfl, rfl⟩
  · exact .returned ⟨rfl, rfl, rfl⟩

theorem sends_leave {data : Bytes} {flags : UInt32} {s s' t : Socket}
    (left : (socket.send data flags s).left = some s') (related : Reading s t) :
    Reading s' t := by
  simp only [socket, send] at left
  split at left
  · cases left
  · cases left
    exact ⟨related.input, related.replies, related.eof⟩
  · cases left
    exact ⟨related.input, related.replies, related.eof⟩

theorem setBlocking_reading (blocking : Bool) (s : Socket) :
    (s.setBlocking blocking).reading = s.reading := by
  cases blocking <;> rfl

theorem apart : socket.Apart Reading Writing where
  reads := reads_agree
  reads_leave := reads_leave
  sends := sends_agree
  sends_leave := sends_leave
  setBlocking := by
    intro s t blocking
    constructor
    · intro related
      constructor
      · exact (congrArg _ (s.setBlocking_reading blocking)).trans
          (related.input.trans (congrArg _ (t.setBlocking_reading blocking).symm))
      · exact (congrArg _ (s.setBlocking_reading blocking)).trans
          (related.replies.trans (congrArg _ (t.setBlocking_reading blocking).symm))
      · exact (congrArg _ (s.setBlocking_reading blocking)).trans
          (related.eof.trans (congrArg _ (t.setBlocking_reading blocking).symm))
    · rintro ⟨sent, sendReplies, statusFlags⟩
      cases blocking with
      | true => exact ⟨sent, sendReplies, by simp [socket, setBlocking, setFlags, statusFlags]⟩
      | false => exact ⟨sent, sendReplies, by simp [socket, setBlocking, setFlags, statusFlags]⟩

end Socket

namespace TlsChannel

/-- The same as far as reading goes. -/
structure Reading (s t : TlsChannel) : Prop where
  sslHandle : s.reading.connection.sslHandle = t.reading.connection.sslHandle
  blocking : s.reading.connection.blocking = t.reading.connection.blocking
  replies : s.reading.replies = t.reading.replies

/-- The same as far as writing goes. -/
structure Writing (s t : TlsChannel) : Prop where
  sent : s.sent = t.sent
  writeReplies : s.writeReplies = t.writeReplies

variable {ssl : OpenSSL}

/-- The changes between two reads do not depend on the time of the last use. -/
theorem foldl_change_congr (changes : List TlsChange) {c c' : OpenSSLConnection}
    (handle : c.sslHandle = c'.sslHandle) (blocking : c.blocking = c'.blocking) :
    (changes.foldl OpenSSLConnection.change c).sslHandle =
        (changes.foldl OpenSSLConnection.change c').sslHandle ∧
      (changes.foldl OpenSSLConnection.change c).blocking =
        (changes.foldl OpenSSLConnection.change c').blocking := by
  induction changes generalizing c c' with
  | nil => exact ⟨handle, blocking⟩
  | cons first changes ih =>
      rw [List.foldl_cons, List.foldl_cons]
      cases first with
      | arrival record =>
          apply ih
          · simp only [OpenSSLConnection.change, OpenSSLConnection.arrive, handle]
          · exact blocking
      | setBlocking value => exact ih handle rfl

/-- A read does not depend on the time of the last use, and sets it. -/
theorem receive_congr {s t : TlsChannel} (related : Reading s t) (len : UInt64)
    (flags : UInt32) :
    TlsSocket.receive ssl len flags s.reading = TlsSocket.receive ssl len flags t.reading := by
  simp only [TlsSocket.receive, related.replies]
  split
  · rfl
  · rename_i reply replies script
    obtain ⟨handle, blocking⟩ :=
      foldl_change_congr reply.before related.sslHandle related.blocking
    simp only [OpenSSLConnection.receive, handle, blocking]

theorem reads_agree :
    (tlsChannel ssl).toConnection.Agrees Reading (tlsChannel ssl).toConnection where
  receive := by
    intro s t len flags related
    simp only [tlsChannel, receive_congr related]
    generalize TlsSocket.receive ssl len flags t.reading = outcome
    cases outcome with
    | returned data c => exact .returned ⟨rfl, rfl, rfl⟩
    | threw error c => exact .threw ⟨rfl, rfl, rfl⟩
    | running => exact .running
  isEOF := by
    intro s t related
    exact ⟨rfl, related⟩

theorem reads_leave {s s' t : TlsChannel} (call : (tlsChannel ssl).toConnection.Called s s')
    (related : Writing s t) : Writing s' t := by
  cases call with
  | received call =>
      simp only [tlsChannel] at call
      generalize TlsSocket.receive ssl _ _ s.reading = outcome at call
      cases outcome <;> cases call
      exact ⟨related.sent, related.writeReplies⟩
  | threw call =>
      simp only [tlsChannel] at call
      generalize TlsSocket.receive ssl _ _ s.reading = outcome at call
      cases outcome <;> cases call
      exact ⟨related.sent, related.writeReplies⟩
  | asked call =>
      cases call
      exact ⟨related.sent, related.writeReplies⟩

theorem sends_agree {s t : TlsChannel} (data : Bytes) (flags : UInt32) (related : Writing s t) :
    ((tlsChannel ssl).send data flags s).Agree Writing ((tlsChannel ssl).send data flags t) := by
  obtain ⟨reading, sent, replies⟩ := s
  obtain ⟨reading', sent', replies'⟩ := t
  obtain ⟨⟨⟩, ⟨⟩⟩ := related
  simp only [tlsChannel, send]
  split
  · exact .running
  · exact .returned ⟨rfl, rfl⟩
  · exact .threw ⟨rfl, rfl⟩

theorem sends_leave {data : Bytes} {flags : UInt32} {s s' t : TlsChannel}
    (left : ((tlsChannel ssl).send data flags s).left = some s') (related : Reading s t) :
    Reading s' t := by
  simp only [tlsChannel, send] at left
  split at left
  · cases left
  · cases left
    exact ⟨related.sslHandle, related.blocking, related.replies⟩
  · cases left
    exact ⟨related.sslHandle, related.blocking, related.replies⟩

theorem apart : (tlsChannel ssl).Apart Reading Writing where
  reads := reads_agree
  reads_leave := reads_leave
  sends := sends_agree
  sends_leave := sends_leave
  setBlocking := by
    intro s t blocking
    constructor
    · intro related
      exact ⟨related.sslHandle, rfl, related.replies⟩
    · intro related
      exact ⟨related.sent, related.writeReplies⟩

end TlsChannel

/-! ### Full duplex -/

section FullDuplex

variable {σ : Type u} {w : FullConnection σ} {Reading Writing : σ → σ → Prop}

/-- The two directions of a stack over `s`, in a run that gave `results`.  The calls of one
direction give what they give without those of the other: the reading ones on the same stack,
the writing ones on the bottom alone, or none of them if a level refuses. -/
structure FullDuplex (w : FullConnection σ) (outOfRange : UInt8) (fuel : Nat)
    (Writing : σ → σ → Prop) (autoack : Bool) (levels : List Level) (s : σ) (calls : List Call)
    (results : List (Except ClientConnectionException CallResult))
    (st : StackState σ levels) : Prop where
  reads : ∃ st', callAll (fullStack w outOfRange fuel levels).answer
      (calls.filter fun call => !call.beside) (.build autoack s levels) =
    some (seenResults Call.beside calls results, st')
  writes : (∀ level ∈ levels, level.writable = true) →
    ∃ s', callAll w.answer (calls.filter fun call => !call.reading) s =
      some (seenResults Call.reading calls results, s') ∧ Writing st.bottom s'
  refused : (∃ level ∈ levels, level.writable = false) →
    (∀ entry ∈ calls.zip results, entry.1.sends = true → entry.2 = .error readOnly) ∧
      ∃ s', callAll w.answer (calls.filter fun call => !call.absorbed) s =
        some (seenResults Call.absorbed calls results, s') ∧ Writing st.bottom s'

theorem FullConnection.Apart.fullDuplex (apart : w.Apart Reading Writing) {s : σ}
    (reading : Reading s s) (writing : Writing s s) (outOfRange : UInt8) (fuel : Nat)
    (autoack : Bool) (levels : List Level) {calls : List Call}
    {results : List (Except ClientConnectionException CallResult)} {st : StackState σ levels}
    (run : callAll (fullStack w outOfRange fuel levels).answer calls
      (.build autoack s levels) = some (results, st)) :
    FullDuplex w outOfRange fuel Writing autoack levels s calls results st where
  reads := by
    obtain ⟨st', rest, _⟩ := fullStack_reads apart levels (.build reading autoack levels) run
    exact ⟨st', rest⟩
  writes := by
    intro writable
    obtain ⟨s', rest, like⟩ :=
      fullStack_writes apart writable (.build writing autoack levels) run
    exact ⟨s', rest, like.bottom⟩
  refused := by
    intro refuses
    obtain ⟨throws, s', rest, like⟩ :=
      fullStack_read_only apart refuses (.build writing autoack levels) run
    exact ⟨throws, s', rest, like.bottom⟩

end FullDuplex

/-- On every stack over a socket the directions do not disturb each other: what is received
does not depend on what is sent between, and what is sent, with its results and the status
flags, is that of the bare socket, unless there is a range reader, which refuses to send. -/
theorem socket_full_duplex (outOfRange : UInt8) (fuel : Nat) (autoack : Bool)
    (levels : List Level) (s : Socket) {calls : List Call}
    {results : List (Except ClientConnectionException CallResult)}
    {st : StackState Socket levels}
    (run : callAll (fullStack socket outOfRange fuel levels).answer calls
      (.build autoack s levels) = some (results, st)) :
    FullDuplex socket outOfRange fuel Socket.Writing autoack levels s calls results st :=
  Socket.apart.fullDuplex ⟨rfl, rfl, rfl⟩ ⟨rfl, rfl, rfl⟩ outOfRange fuel autoack levels run

/-- A socket with one line to read, and a kernel that takes three bytes of the first `send`,
fails at the second and takes all of the third. -/
def oneLine : Socket :=
  { reading := .new [97, 98, 10] [⟨.bytes 2, 2⟩, ⟨.bytes 2, 3⟩] 0
    sent := []
    sendReplies := [⟨.bytes 3, 1⟩, ⟨.error, 4⟩, ⟨.bytes 9, 5⟩]
    statusFlags := 0 }

theorem socket_full_duplex_of_line :
    ∃ st, FullDuplex socket 0 9 Socket.Writing true
      [.lineBuffer true, .acknowledgement 4 true] oneLine
      [.send [1, 2, 3, 4] 0, .setBlocking false, .read (.receive 0 0), .send [4] 0,
        .read .isEOF, .send [4] 0, .getLastUse]
      [.ok (.sent 3), .ok .done, .ok (.read (.received [97, 98, 10])), .ok (.sent (-1)),
        .ok (.read (.atEnd false)), .ok (.sent 1), .ok (.lastUse 5)] st := by
  have run : ∃ st, callAll
      (fullStack socket 0 9 [.lineBuffer true, .acknowledgement 4 true]).answer
      [.send [1, 2, 3, 4] 0, .setBlocking false, .read (.receive 0 0), .send [4] 0,
        .read .isEOF, .send [4] 0, .getLastUse]
      (.build true oneLine [.lineBuffer true, .acknowledgement 4 true]) =
      some ([.ok (.sent 3), .ok .done, .ok (.read (.received [97, 98, 10])), .ok (.sent (-1)),
        .ok (.read (.atEnd false)), .ok (.sent 1), .ok (.lastUse 5)], st) :=
    ⟨_, rfl⟩
  obtain ⟨st, run⟩ := run
  exact ⟨st, socket_full_duplex 0 9 true _ oneLine run⟩

/-- The same over a TLS connection, where `Send` may throw. -/
theorem tls_full_duplex (ssl : OpenSSL) (outOfRange : UInt8) (fuel : Nat) (autoack : Bool)
    (levels : List Level) (s : TlsChannel) {calls : List Call}
    {results : List (Except ClientConnectionException CallResult)}
    {st : StackState TlsChannel levels}
    (run : callAll (fullStack (tlsChannel ssl) outOfRange fuel levels).answer calls
      (.build autoack s levels) = some (results, st)) :
    FullDuplex (tlsChannel ssl) outOfRange fuel TlsChannel.Writing autoack levels s calls
      results st :=
  TlsChannel.apart.fullDuplex ⟨rfl, rfl, rfl⟩ ⟨rfl, rfl⟩ outOfRange fuel autoack levels run

/-- A connection with one record to read; the first `SSL_write` writes all it is given, and the
second fails in a system call. -/
def oneRecord : TlsChannel :=
  { reading :=
      { connection := OpenSSLConnection.accepted
        replies := [⟨[.arrival [97, 98, 10]], 2⟩] }
    sent := []
    writeReplies := [⟨.written 4 (by decide), 1⟩,
      ⟨.failed SSL_ERROR_SYSCALL "" "Broken pipe", 3⟩] }

theorem tls_full_duplex_of_record :
    ∃ st, FullDuplex (tlsChannel OpenSSLConnection.recordByRecord) 0 9 TlsChannel.Writing true
      [.lineBuffer true] oneRecord
      [.send [1, 2, 3, 4] 0, .read (.receive 0 0), .send [5] 0, .setBlocking false, .getLastUse]
      [.ok (.sent 4), .ok (.read (.received [97, 98, 10])),
        .error { identifier := "SSL_read:Broken pipe", errmsg := "Broken pipe" }, .ok .done,
        .ok (.lastUse 3)] st := by
  have run : ∃ st, callAll
      (fullStack (tlsChannel OpenSSLConnection.recordByRecord) 0 9 [.lineBuffer true]).answer
      [.send [1, 2, 3, 4] 0, .read (.receive 0 0), .send [5] 0, .setBlocking false, .getLastUse]
      (.build true oneRecord [.lineBuffer true]) =
      some ([.ok (.sent 4), .ok (.read (.received [97, 98, 10])),
        .error { identifier := "SSL_read:Broken pipe", errmsg := "Broken pipe" }, .ok .done,
        .ok (.lastUse 3)], st) :=
    ⟨_, rfl⟩
  obtain ⟨st, run⟩ := run
  exact ⟨st, tls_full_duplex OpenSSLConnection.recordByRecord 0 9 true _ oneRecord run⟩

end LibSiot
