/-
Module: LibSiot.Proofs.Server.Batch
Purpose: The `for` loop over the events of one `epoll_wait`, in runs of the whole
  server: it reads every event as it was returned and handles it by its flags,
  exactly if nothing clears the array or ends the loop while events are unread.
Trusted boundary: none
Main exports: ServerConfig.unread, ServerConfig.NothingLost,
  ServerConfig.Undisturbed, ServerConfig.nothingLost_iff
-/
import LibSiot.Server.Rules

namespace LibSiot

open Interleaving (Flow)
open Interleaving.Machine (pushes)

/-! ### The operations of the loop -/

namespace Op

/-- The counter and the bound of the `for` loop. -/
def loop : Op → Option (Nat × Nat)
  | .forLoop i nfds => some (i, nfds)
  | _ => none

/-- The operation handles the event examined last. -/
def handles : Op → Bool
  | .accept => true
  | .lookup _ _ => true
  | _ => false

/-- The operation is not one of the loops of `ListenEpoll`, but of their bodies or
of another thread. -/
def inner : Op → Bool
  | .listenWhile => false
  | .epollWait => false
  | .forLoop _ _ => false
  | op => !op.handles

/-- The operation neither belongs to the loops, nor clears the array, nor leads its
thread to do so. -/
def aside : Op → Bool
  | .construct _ => false
  | .clearEvents => false
  | op => op.inner

theorem inner_of_common {op : Op} (common : op.common = true) : op.inner = true := by
  cases op <;> first | rfl | cases common

theorem aside_of_common {op : Op} (common : op.common = true) : op.aside = true := by
  cases op <;> first | rfl | cases common

/-- The operation ends in an exception, or at a null pointer. -/
def fails {n : Nat} (e : Choice) (s : ServerState n) : Op → Bool
  | .epollWait => e.ready.isNone && (e.throws || !e.retry)
  | .accept => e.accepted.isNone && e.throws
  | .addDecorators _ _ => e.decorated = .threw
  | .epollAdd _ conn =>
      if e.registered then conn = .indeterminate && e.garbage.isNone else e.throws
  | .epollDel fd => fd ∉ s.epollSet && e.throws
  | .reapNext _ _ after => (s.connections.next after).any (·.2.isNone)
  | .running _ _ => e.handler = .throws
  | .drained _ => e.throws
  | _ => false

/-- The event that one turn of the loop reads from the array. -/
def examines {n : Nat} (s : ServerState n) : Op → Option EpollEvent
  | .forLoop i nfds => if i < nfds then some (s.events.getD i .zero) else none
  | _ => none

theorem loop_eq_none {op : Op} (inner : op.inner = true) : op.loop = none := by
  cases op <;> first | rfl | cases inner

theorem inner_of_survives {op : Op} (survives : op.survives = true) : op.inner = true := by
  cases op <;> first | rfl | cases survives

theorem handles_eq_false {op : Op} (inner : op.inner = true) : op.handles = false := by
  cases op <;> first | rfl | cases inner

theorem inner_of_aside {op : Op} (aside : op.aside = true) : op.inner = true := by
  cases op <;> first | rfl | cases aside

end Op

namespace ServerState

variable {n : Nat} {t : Tid n} {e : Choice} {s s' : ServerState n} {op : Op}
  {flow : Flow Op}

/-- The event was handled by what it is: an event of the listening descriptor by a
call of `accept`, and one of a client that has its connection in the pool by the
branch that its flags select. -/
def HandledAs (serverfd : Nat) (event : EpollEvent) : Handling → Prop
  | .accepted => event.fd = serverfd
  | .dispatched entry branch =>
      event.fd ≠ serverfd ∧ ∀ conn, entry = some (some conn) → branch = selectBranch event.events

/-- What the loop has still to read from the array. -/
def unreadBy (ops : List Op) (events : List EpollEvent) : List EpollEvent :=
  match ops.findSome? Op.loop with
  | none => []
  | some (i, nfds) => (events.take nfds).drop i

theorem unreadBy_of_loop_none {front tail : List Op} {events : List EpollEvent}
    (straight : ∀ op ∈ front, op.loop = none) :
    unreadBy (front ++ tail) events = unreadBy tail events := by
  have none : front.findSome? Op.loop = none := List.findSome?_eq_none_iff.mpr straight
  rw [unreadBy, unreadBy, List.findSome?_append, none, Option.none_or]

theorem unreadBy_append {front tail : List Op} {events : List EpollEvent}
    (inner : ∀ op ∈ front, op.inner = true) :
    unreadBy (front ++ tail) events = unreadBy tail events :=
  unreadBy_of_loop_none fun op member => Op.loop_eq_none (inner op member)

theorem unreadBy_inner {ops : List Op} {events : List EpollEvent}
    (inner : ∀ op ∈ ops, op.inner = true) : unreadBy ops events = [] := by
  rw [← List.append_nil ops, unreadBy_append inner]
  rfl

theorem unreadBy_map (ops : List Op) (events : List EpollEvent)
    (f : EpollEvent → EpollEvent) :
    unreadBy ops (events.map f) = (unreadBy ops events).map f := by
  rw [unreadBy, unreadBy]
  split
  · rfl
  · rw [List.map_drop, List.map_take]

theorem unreadBy_forLoop {i nfds : Nat} {events : List EpollEvent} (inside : i < nfds)
    (bound : nfds ≤ events.length) :
    unreadBy [.forLoop i nfds] events =
      events.getD i .zero :: unreadBy [.forLoop (i + 1) nfds] events := by
  have short : i < (events.take nfds).length := by
    rw [List.length_take]
    omega
  change (events.take nfds).drop i = _ :: (events.take nfds).drop (i + 1)
  rw [List.drop_eq_getElem_cons short, List.getElem_take, List.getD_eq_getElem?_getD,
    List.getElem?_eq_getElem (by omega), Option.getD_some]

/-! ### One step -/

/-- Where a thread does not go on, its operation failed. -/
theorem Rule.fails (rule : Rule t e s op flow s') (ends : ∀ ops, flow ≠ .next ops) :
    op.fails e s = true := by
  cases rule with
  | waitLeft failed left =>
      rcases left with throws | final
      · simp [Op.fails, failed, throws]
      · simp [Op.fails, failed, final]
  | acceptThrew failed throws => simp [Op.fails, failed, throws]
  | decoratorsThrew clientfd raw threw => exact decide_eq_true threw
  | indeterminateThrew clientfd threw => exact decide_eq_true threw
  | indeterminateNull clientfd registered null => simp [Op.fails, registered, null]
  | notRegisteredThrew clientfd conn fails throws => simp [Op.fails, fails, throws]
  | epollDelThrew fd absent throws => simp [Op.fails, absent, throws]
  | reapNull maxIdle tm after fd entry => simp [Op.fails, entry]
  | callbackThrows callback conn throws => exact decide_eq_true throws
  | drainThrew conn throws => exact throws
  | _ => exact absurd rfl (ends _)

/-- An operation that fails leaves at most destructors to its thread, and what
was examined as it was. -/
theorem exec_of_fails (t : Tid n) (fails : op.fails e s = true) :
    ∃ flow s', exec t op e s = some (flow, s') ∧ (flow = .unwind ∨ flow = .halt) ∧
      s'.batch = s.batch ∧ s'.examined = s.examined := by
  cases op with
  | epollWait =>
      simp only [Op.fails, Bool.and_eq_true, Option.isNone_iff_eq_none, Bool.or_eq_true,
        Bool.not_eq_true'] at fails
      exact ⟨.unwind, s, by simp [exec, epollWait, fails.1, fails.2], Or.inl rfl, rfl, rfl⟩
  | accept =>
      simp only [Op.fails, Bool.and_eq_true, Option.isNone_iff_eq_none] at fails
      exact ⟨.unwind, { s with handled := s.handled ++ [.accepted] },
        by simp [exec, accept, connectionFailed, fails.1, fails.2], Or.inl rfl, rfl, rfl⟩
  | addDecorators clientfd conn =>
      have threw : e.decorated = .threw := of_decide_eq_true fails
      cases conn with
      | constructed raw =>
          exact ⟨.unwind, s.subscript clientfd, by simp [exec, addDecorators, threw],
            Or.inl rfl, rfl, rfl⟩
      | indeterminate =>
          exact ⟨.unwind, subscript clientfd { s with indeterminateRead := true },
            by simp [exec, addDecorators, threw], Or.inl rfl, rfl, rfl⟩
  | epollAdd clientfd conn =>
      simp only [Op.fails] at fails
      by_cases registered : e.registered = true
      · simp only [registered, if_true, Bool.and_eq_true, decide_eq_true_eq,
          Option.isNone_iff_eq_none] at fails
        obtain ⟨rfl, null⟩ := fails
        exact ⟨.halt, { s with
            epollSet := clientfd :: s.epollSet
            indeterminateRead := true
            nullDereference := true },
          by simp [exec, epollAdd, registered, null, crash], Or.inr rfl, rfl, rfl⟩
      · simp only [registered, if_false, Bool.false_eq_true] at fails
        exact ⟨.unwind, s, by simp [exec, epollAdd, registered, connectionFailed, fails],
          Or.inl rfl, rfl, rfl⟩
  | epollDel fd =>
      simp only [Op.fails, Bool.and_eq_true, decide_eq_true_eq] at fails
      exact ⟨.unwind, s, by simp [exec, epollDel, connectionFailed, fails.1, fails.2],
        Or.inl rfl, rfl, rfl⟩
  | reapNext maxIdle tm after =>
      obtain ⟨⟨fd, value⟩, entry, null⟩ := (Option.any_eq_true _ _).mp fails
      obtain rfl : value = none := Option.isNone_iff_eq_none.mp null
      exact ⟨.halt, { s with nullDereference := true },
        by simp [exec, reapNext, entry, crash], Or.inr rfl, rfl, rfl⟩
  | running callback conn =>
      have throws : e.handler = .throws := of_decide_eq_true fails
      exact ⟨.unwind, s, by simp [exec, callbackMove, throws], Or.inl rfl, rfl, rfl⟩
  | drained conn =>
      have throws : e.throws = true := fails
      exact ⟨.unwind, s, by simp [exec, drained, throws], Or.inl rfl, rfl, rfl⟩
  | _ => cases fails

/-- What the loop knows of the events is the same in both states. -/
structure SameBatch (s s' : ServerState n) : Prop where
  serverfd : s'.serverfd = s.serverfd
  batch : s'.batch = s.batch
  examined : s'.examined = s.examined
  handled : s'.handled = s.handled
  length : s'.events.length = s.events.length

/-- Only the loops touch what was examined and handled. -/
theorem Rule.sameBatch (rule : Rule t e s op flow s') (inner : op.inner = true) :
    SameBatch s s' := by
  cases rule with
  | waited | examineListening | examineClient | examineZero | acceptThrew | acceptFailed
  | accepted | lookupHangup | lookupError | lookupDataReady | lookupUnselected
  | lookupNull | lookupMissing => cases inner
  | clearEvents => exact ⟨rfl, rfl, rfl, rfl, List.length_map _⟩
  | _ => exact ⟨rfl, rfl, rfl, rfl, rfl⟩

/-- The array changes besides only when it is cleared. -/
theorem Rule.events_eq (rule : Rule t e s op flow s') (inner : op.inner = true) :
    s'.events = s.events ∨
      op = .clearEvents ∧ s'.events = s.events.map fun _ => .zero := by
  cases rule with
  | waited => cases inner
  | clearEvents => exact Or.inr ⟨rfl, rfl⟩
  | _ => exact Or.inl rfl

/-- The body of a loop stays in it. -/
theorem Rule.pushes_inner (rule : Rule t e s op flow s') (inner : op.inner = true) :
    ∀ new ∈ pushes flow, new.inner = true := by
  have common := rule.common_of_pushed
  cases rule with
  | keepListening | waitRetried | waited | examineListening | examineClient | examineZero
  | loopOver => cases inner
  | takeTask | callbackUses | shutdown | deregister | drain | userUses =>
      exact fun new member => Op.inner_of_common (common rfl new member)
  | _ => exact List.all_eq_true.mp rfl

/-- What is beside the loops stays there. -/
theorem Rule.pushes_aside (rule : Rule t e s op flow s') (aside : op.aside = true) :
    ∀ new ∈ pushes flow, new.aside = true := by
  have common := rule.common_of_pushed
  cases rule with
  | keepListening | waitRetried | waited | examineListening | examineClient | examineZero
  | loopOver | accepted | constructed | constructorThrew => cases aside
  | takeTask | callbackUses | shutdown | deregister | drain | userUses =>
      exact fun new member => Op.aside_of_common (common rfl new member)
  | _ => exact List.all_eq_true.mp rfl

/-- A lookup is noted with the branch that the flags select for a connection. -/
theorem Rule.looksUp {fd : Nat} {events : UInt32}
    (rule : Rule t e s (.lookup fd events) flow s') :
    ∃ entry branch ops, flow = .next ops ∧
      (∀ conn, entry = some (some conn) → branch = selectBranch events) ∧
      (∀ op ∈ ops, op.inner = true) ∧
      SameBatch { s with handled := s.handled ++ [.dispatched entry branch] } s' ∧
      s'.events = s.events := by
  cases rule with
  | lookupNull _ _ entry =>
      exact ⟨some none, none, [], rfl, (fun _ null => by cases null), nofun,
        ⟨rfl, rfl, rfl, rfl, rfl⟩, rfl⟩
  | lookupMissing _ _ entry =>
      exact ⟨none, none, [], rfl, (fun _ null => by cases null), nofun,
        ⟨rfl, rfl, rfl, rfl, rfl⟩, rfl⟩
  | lookupHangup _ _ conn entry selects | lookupError _ _ conn entry selects
  | lookupDataReady _ _ conn entry selects | lookupUnselected _ _ conn entry selects =>
      exact ⟨_, _, _, rfl, fun _ _ => selects.symm, List.all_eq_true.mp rfl,
        ⟨rfl, rfl, rfl, rfl, rfl⟩, rfl⟩

/-! ### The invariant -/

/-- Where the listening thread is: in the body of a loop, or between two of them;
or it has just examined an event and is about to handle it. -/
inductive Listening (s : ServerState n) (ops : List Op) : Prop where
  | between (front tail : List Op) (program : ops = front ++ tail)
      (inner : ∀ op ∈ front, op.inner = true)
      (loop : tail = [] ∨ tail = [.listenWhile] ∨ tail = [.epollWait] ∨
        ∃ i nfds, tail = [.forLoop i nfds] ∧ nfds ≤ s.events.length)
      (matched : List.Forall₂ (HandledAs s.serverfd) s.examined s.handled)
  | accepting (i nfds : Nat) (done : List EpollEvent) (event : EpollEvent)
      (program : ops = [.accept, .forLoop i nfds]) (bound : nfds ≤ s.events.length)
      (examined : s.examined = done ++ [event]) (listening : event.fd = s.serverfd)
      (matched : List.Forall₂ (HandledAs s.serverfd) done s.handled)
  | lookingUp (i nfds : Nat) (done : List EpollEvent) (event : EpollEvent)
      (program : ops = [.lookup event.fd event.events, .forLoop i nfds])
      (bound : nfds ≤ s.events.length) (examined : s.examined = done ++ [event])
      (client : event.fd ≠ s.serverfd)
      (matched : List.Forall₂ (HandledAs s.serverfd) done s.handled)

/-- The invariant of the listening thread with `ops` left to do: the kernel
reported real events, and those read with those still to be read are its batch. -/
structure Reading (s : ServerState n) (ops : List Op) : Prop where
  real : ∀ event ∈ s.batch, event.events ≠ 0
  read : s.examined ++ unreadBy ops s.events = s.batch
  listening : Listening s ops

theorem Listening.congr {s s' : ServerState n} {ops : List Op} (same : SameBatch s s')
    (listening : Listening s ops) : Listening s' ops := by
  cases listening with
  | between front tail program inner loop matched =>
      refine .between front tail program inner ?_ ?_
      · rwa [same.length]
      · rwa [same.serverfd, same.examined, same.handled]
  | accepting i nfds done event program bound examined listening matched =>
      refine .accepting i nfds done event program ?_ ?_ ?_ ?_
      · rwa [same.length]
      · rwa [same.examined]
      · rwa [same.serverfd]
      · rwa [same.serverfd, same.handled]
  | lookingUp i nfds done event program bound examined client matched =>
      refine .lookingUp i nfds done event program ?_ ?_ ?_ ?_
      · rwa [same.length]
      · rwa [same.examined]
      · rwa [same.serverfd]
      · rwa [same.serverfd, same.handled]

/-- Nothing comes after the `for` loop. -/
theorem Listening.forLoop_last {i nfds : Nat} {ops rest : List Op} (listening : Listening s ops)
    (first : ops = .forLoop i nfds :: rest) : rest = [] := by
  cases listening with
  | between front tail program inner loop matched =>
      cases front with
      | nil =>
          rw [first, List.nil_append] at program
          subst program
          rcases loop with loop | loop | loop | ⟨_, _, loop, _⟩ <;> cases loop
          rfl
      | cons op front =>
          rw [first] at program
          cases program
          cases inner _ List.mem_cons_self
  | accepting i nfds done event program => rw [first] at program; cases program
  | lookingUp i nfds done event program => rw [first] at program; cases program

/-- In the body of a loop, the thread stays before the loop, or leaves it for good. -/
theorem program_after_body {front tail : List Op} (rule : Rule t e s op flow s')
    (first : op.inner = true) (inner : ∀ op ∈ front, op.inner = true)
    (loop : ∀ op ∈ tail, op.survives = false) :
    ∃ front' tail', (server n).continuation flow (front ++ tail) = front' ++ tail' ∧
      (∀ op ∈ front', op.inner = true) ∧
      (tail' = tail ∨ tail' = [] ∧ op.fails e s = true) := by
  have none : tail.filter (server n).survives = [] :=
    List.filter_eq_nil_iff.mpr fun op member => ne_true_of_eq_false (loop op member)
  cases flow with
  | next ops =>
      refine ⟨ops ++ front, tail, (List.append_assoc ..).symm, fun op member => ?_, Or.inl rfl⟩
      rcases List.mem_append.mp member with pushed | old
      · exact rule.pushes_inner first op pushed
      · exact inner op old
  | unwind =>
      refine ⟨front.filter (server n).survives, [], ?_, fun op member => ?_,
        Or.inr ⟨rfl, rule.fails nofun⟩⟩
      · rw [Interleaving.Machine.continuation_unwind, List.filter_append, none]
      · exact inner op (List.mem_filter.mp member).1
  | halt => exact ⟨[], [], rfl, nofun, Or.inr ⟨rfl, rule.fails nofun⟩⟩

/-- An operation in the body of a loop: the loop will read what it would have. -/
theorem Reading.step_body {front tail : List Op} (reading : Reading s (op :: (front ++ tail)))
    (first : op.inner = true) (inner : ∀ op ∈ front, op.inner = true)
    (loop : tail = [] ∨ tail = [.listenWhile] ∨ tail = [.epollWait] ∨
      ∃ i nfds, tail = [.forLoop i nfds] ∧ nfds ≤ s.events.length)
    (matched : List.Forall₂ (HandledAs s.serverfd) s.examined s.handled)
    (guard : unreadBy (op :: (front ++ tail)) s.events ≠ [] →
      op ≠ .clearEvents ∧ op.fails e s = false)
    (rule : Rule t e s op flow s') :
    Reading s' ((server n).continuation flow (front ++ tail)) := by
  have same := rule.sameBatch first
  have before : unreadBy (op :: (front ++ tail)) s.events = unreadBy tail s.events := by
    rw [← List.cons_append, unreadBy_append]
    exact List.forall_mem_cons.mpr ⟨first, inner⟩
  have skipped : ∀ op ∈ tail, op.survives = false := by
    rcases loop with rfl | rfl | rfl | ⟨i, nfds, rfl, _⟩ <;> simp [Op.survives]
  obtain ⟨front', tail', split, inner', kept⟩ := program_after_body rule first inner skipped
  have unread : unreadBy tail' s'.events = unreadBy tail s.events := by
    rcases kept with rfl | ⟨rfl, fails⟩
    · by_cases none : unreadBy tail' s.events = []
      · rcases rule.events_eq first with events | ⟨_, events⟩
        · rw [events]
        · rw [events, unreadBy_map, none]
          rfl
      · have kept := (guard (by rwa [before])).1
        rw [(rule.events_eq first).resolve_right fun ⟨clears, _⟩ => kept clears]
    · -- The loop is left, which it is only when nothing is unread.
      by_contra unequal
      have some : unreadBy tail s.events ≠ [] := fun none => unequal (by rw [none]; rfl)
      rw [(guard (before ▸ some)).2] at fails
      cases fails
  rw [split]
  refine ⟨?_, ?_, .between front' tail' rfl inner' ?_ ?_⟩
  · rw [same.batch]
    exact reading.real
  · rw [same.examined, same.batch, unreadBy_append inner', unread, ← before]
    exact reading.read
  · rw [same.length]
    rcases kept with rfl | ⟨rfl, _⟩
    · exact loop
    · exact Or.inl rfl
  · rw [same.serverfd, same.examined, same.handled]
    exact matched

/-- The event that was examined last is handled, and its body begins. -/
theorem Reading.of_handled {i nfds : Nat} {done : List EpollEvent} {event : EpollEvent}
    {ops : List Op} (handling : Handling) (reading : Reading s [op, .forLoop i nfds])
    (turn : op.loop = none) (bound : nfds ≤ s.events.length)
    (examined : s.examined = done ++ [event])
    (matched : List.Forall₂ (HandledAs s.serverfd) done s.handled)
    (suits : HandledAs s.serverfd event handling) (inner : ∀ op ∈ ops, op.inner = true)
    (same : SameBatch { s with handled := s.handled ++ [handling] } s')
    (events : s'.events = s.events) : Reading s' (ops ++ [.forLoop i nfds]) := by
  refine ⟨?_, ?_, .between ops [.forLoop i nfds] rfl inner ?_ ?_⟩
  · rw [same.batch]
    exact reading.real
  · have read := reading.read
    rw [unreadBy, List.findSome?_cons, turn] at read
    rw [same.examined, same.batch, unreadBy_append inner, events]
    exact read
  · exact Or.inr (Or.inr (Or.inr ⟨i, nfds, rfl, events ▸ bound⟩))
  · rw [same.serverfd, same.examined, same.handled]
    change List.Forall₂ _ s.examined _
    rw [examined]
    exact List.rel_append matched (.cons suits .nil)

/-- An event of the array is examined, and what comes next is to handle it. -/
theorem Reading.examined_append {i nfds : Nat} (reading : Reading s [.forLoop i nfds])
    (inside : i < nfds) (bound : nfds ≤ s.events.length) :
    (s.examined ++ [s.events.getD i .zero]) ++ unreadBy [.forLoop (i + 1) nfds] s.events =
      s.batch := by
  rw [List.append_assoc, List.singleton_append, ← unreadBy_forLoop inside bound]
  exact reading.read

/-- One of the loops, or the handling of the event examined last. -/
theorem Reading.step_loop {tail : List Op} (reading : Reading s tail)
    (loop : tail = [.listenWhile] ∨ tail = [.epollWait] ∨
      ∃ i nfds, tail = [.forLoop i nfds] ∧ nfds ≤ s.events.length)
    (matched : List.Forall₂ (HandledAs s.serverfd) s.examined s.handled)
    (guard : ∀ event ∈ op.examines s, event.fd ≠ s.serverfd → event.fd = 0 →
      (s.connections.lookup event.fd).join.isSome → selectBranch event.events = none)
    (program : tail = [op]) (rule : Rule t e s op flow s') :
    Reading s' ((server n).continuation flow []) := by
  rcases loop with rfl | rfl | ⟨i, nfds, rfl, bound⟩
  · cases program
    cases rule with
    | keepListening =>
        exact ⟨reading.real, reading.read,
          .between [] [.epollWait] rfl nofun (Or.inr (Or.inr (Or.inl rfl))) matched⟩
    | stopListening =>
        exact ⟨reading.real, reading.read, .between [] [] rfl nofun (Or.inl rfl) matched⟩
  · cases program
    cases rule with
    | waitLeft failed left =>
        exact ⟨reading.real, reading.read, .between [] [] rfl nofun (Or.inl rfl) matched⟩
    | waitRetried failed =>
        exact ⟨reading.real, reading.read,
          .between [] [.listenWhile] rfl nofun (Or.inr (Or.inl rfl)) matched⟩
    | waited batch fits real =>
        refine ⟨fun event member => (real event member).2, ?_,
          .between [] [.forLoop 0 batch.length] rfl nofun
            (Or.inr (Or.inr (Or.inr ⟨0, batch.length, rfl, ?_⟩))) .nil⟩
        · exact List.take_left' rfl
        · simp only [List.length_append]
          omega
  · cases program
    cases rule with
    | examineListening _ _ inside listening =>
        exact ⟨reading.real, reading.examined_append inside bound,
          .accepting (i + 1) nfds s.examined _ rfl bound rfl listening matched⟩
    | examineClient _ _ inside client positive =>
        exact ⟨reading.real, reading.examined_append inside bound,
          .lookingUp (i + 1) nfds s.examined _ rfl bound rfl client matched⟩
    | examineZero _ _ inside client zero =>
        refine ⟨reading.real, reading.examined_append inside bound,
          .between [] [.forLoop (i + 1) nfds] rfl nofun
            (Or.inr (Or.inr (Or.inr ⟨i + 1, nfds, rfl, bound⟩)))
            (List.rel_append matched (.cons ⟨client, fun conn entry => ?_⟩ .nil))⟩
        refine (guard _ (if_pos inside) client zero ?_).symm
        rw [entry]
        rfl
    | loopOver _ _ outside =>
        refine ⟨reading.real, ?_, .between [.clearEvents] [.listenWhile] rfl
          (List.all_eq_true.mp rfl) (Or.inr (Or.inl rfl)) matched⟩
        have read := reading.read
        change s.examined ++ (s.events.take nfds).drop i = s.batch at read
        rwa [List.drop_eq_nil_of_le] at read
        exact (List.length_take_le nfds _).trans (Nat.le_of_not_lt outside)

/-- The listening thread, whatever it does. -/
theorem Reading.step {rest : List Op} (reading : Reading s (op :: rest))
    (guard : (unreadBy (op :: rest) s.events ≠ [] → op ≠ .clearEvents ∧ op.fails e s = false) ∧
      ∀ event ∈ op.examines s, event.fd ≠ s.serverfd → event.fd = 0 →
        (s.connections.lookup event.fd).join.isSome → selectBranch event.events = none)
    (rule : Rule t e s op flow s') : Reading s' ((server n).continuation flow rest) := by
  cases reading.listening with
  | between front tail program inner loop matched =>
      cases front with
      | nil =>
          rcases loop with rfl | loop
          · cases program
          · obtain rfl : rest = [] := by
              rcases loop with rfl | rfl | ⟨i, nfds, rfl, _⟩ <;> cases program <;> rfl
            rw [List.nil_append] at program
            exact (program ▸ reading).step_loop loop matched guard.2 program.symm rule
      | cons first front =>
          cases program
          obtain ⟨first, inner⟩ := List.forall_mem_cons.mp inner
          exact reading.step_body first inner loop matched guard.1 rule
  | accepting i nfds done event program bound examined listening matched =>
      cases program
      cases rule with
      | acceptThrew failed throws =>
          -- Only after the last event.
          have ended : unreadBy [.accept, .forLoop i nfds] s.events = [] := by
            by_contra some
            simpa [Op.fails, failed, throws] using (guard.1 some).2
          refine ⟨reading.real, ?_, .between [] [] rfl nofun (Or.inl rfl) ?_⟩
          · have read := reading.read
            rwa [ended] at read
          · change List.Forall₂ _ s.examined _
            rw [examined]
            exact List.rel_append matched (.cons listening .nil)
      | acceptFailed failed quiet =>
          exact reading.of_handled .accepted rfl bound examined matched listening
            (List.all_eq_true.mp rfl) ⟨rfl, rfl, rfl, rfl, rfl⟩ rfl
      | accepted clientfd given fresh =>
          exact reading.of_handled .accepted rfl bound examined matched listening
            (List.all_eq_true.mp rfl) ⟨rfl, rfl, rfl, rfl, rfl⟩ rfl
  | lookingUp i nfds done event program bound examined client matched =>
      cases program
      obtain ⟨entry, branch, ops, rfl, selects, inner, same, events⟩ := rule.looksUp
      exact reading.of_handled (.dispatched entry branch) rfl bound examined matched
        ⟨client, selects⟩ inner same events

end ServerState

namespace ServerConfig

open ServerState

variable {n : Nat} {c c' : ServerConfig n} {t : Tid n} {e : Choice}

/-! ### The property and its condition -/

/-- The events of the batch that the loop has still to read, as they stand in the
array now. -/
def unread (c : ServerConfig n) : List EpollEvent :=
  unreadBy (c.prog .listen) c.shared.events

/-- No event is lost: those read and those still in the array are the batch that
`epoll_wait` returned, and each one read was handled by what it is, but for the
one whose `accept` or lookup the listening thread is about to do. -/
structure NothingLost (c : ServerConfig n) : Prop where
  read : c.shared.examined ++ unread c = c.shared.batch
  handled : ∃ done waiting, c.shared.examined = done ++ waiting ∧
    List.Forall₂ (HandledAs c.shared.serverfd) done c.shared.handled ∧
    waiting.length = (c.prog .listen).countP Op.handles

/-- The step does not clear the array while events of it are unread, nor end the
loop by an exception or a null pointer, and examines no event that selects a
branch for a connection at descriptor 0. -/
def Undisturbed (c : ServerConfig n) (t : Tid n) (e : Choice) : Prop :=
  t = .listen → Next (fun op e s =>
    (unread c ≠ [] → op ≠ .clearEvents ∧ op.fails e s = false) ∧
      ∀ event ∈ op.examines s, event.fd ≠ s.serverfd → event.fd = 0 →
        (s.connections.lookup event.fd).join.isSome → selectBranch event.events = none) c t e

instance (c : ServerConfig n) (t : Tid n) (e : Choice) : Decidable (Undisturbed c t e) :=
  inferInstanceAs (Decidable (t = .listen → Next (fun op e s =>
    (unread c ≠ [] → op ≠ .clearEvents ∧ op.fails e s = false) ∧
      ∀ event ∈ op.examines s, event.fd ≠ s.serverfd → event.fd = 0 →
        (s.connections.lookup event.fd).join.isSome → selectBranch event.events = none) c t e))

/-! ### Runs -/

/-- The invariant behind the loop, with what keeps the other threads out of it. -/
structure Dispatching (c : ServerConfig n) : Prop where
  others : ∀ t ≠ .listen, ∀ op ∈ c.prog t, op.aside = true
  reading : Reading c.shared (c.prog .listen)

theorem Dispatching.init (serverfd : Nat) (ssl : Bool) (maxIdle : Int32) :
    Dispatching (init n serverfd ssl maxIdle) where
  others t other op member :=
    forall_init (P := fun t op => t ≠ .listen → op.aside = true)
      (fun listen => absurd rfl listen) (fun _ => rfl) (fun _ _ => rfl) (fun _ => rfl)
      t op member other
  reading := ⟨nofun, rfl, .between [] [.listenWhile] rfl nofun (Or.inr (Or.inl rfl)) .nil⟩

/-- A thread that is not the listening one. -/
theorem Dispatching.step_other (dispatching : Dispatching c) (other : t ≠ .listen)
    (taken : (server n).step t e c = some c') : Dispatching c' := by
  obtain ⟨op, rest, flow, program, rule, progs⟩ := rule_of_step taken
  have aside : op.aside = true := dispatching.others t other op (program ▸ List.mem_cons_self)
  have same := rule.sameBatch (Op.inner_of_aside aside)
  have events : c'.shared.events = c.shared.events :=
    (rule.events_eq (Op.inner_of_aside aside)).resolve_right
      fun ⟨clears, _⟩ => by subst clears; cases aside
  have listen : c'.prog .listen = c.prog .listen := by
    rw [progs, Function.update_of_ne (Ne.symm other)]
  refine ⟨fun t' other' op' member => ?_, ?_, ?_, ?_⟩
  · rw [progs] at member
    by_cases mine : t' = t
    · subst mine
      rw [Function.update_self] at member
      rcases (server n).mem_continuation member with ⟨ops, rfl, pushed⟩ | old
      · exact rule.pushes_aside aside op' pushed
      · exact dispatching.others t' other' op' (program ▸ List.mem_cons_of_mem _ old)
    · rw [Function.update_of_ne mine] at member
      exact dispatching.others t' other' op' member
  · rw [same.batch]
    exact dispatching.reading.real
  · rw [same.examined, same.batch, listen, events]
    exact dispatching.reading.read
  · rw [listen]
    exact dispatching.reading.listening.congr same

theorem Dispatching.step (dispatching : Dispatching c) (undisturbed : Undisturbed c t e)
    (taken : (server n).step t e c = some c') : Dispatching c' := by
  by_cases listens : t = .listen
  · subst listens
    obtain ⟨op, rest, flow, program, rule, progs⟩ := rule_of_step taken
    have reading := program ▸ dispatching.reading
    have guard := (undisturbed rfl).of_prog program
    rw [unread, program] at guard
    refine ⟨fun t other op member => ?_, ?_⟩
    · rw [progs, Function.update_of_ne other] at member
      exact dispatching.others t other op member
    · rw [progs, Function.update_self]
      exact reading.step guard rule
  · exact dispatching.step_other listens taken

theorem Dispatching.nothingLost (dispatching : Dispatching c) : NothingLost c := by
  refine ⟨dispatching.reading.read, ?_⟩
  cases dispatching.reading.listening with
  | between front tail program inner loop matched =>
      refine ⟨c.shared.examined, [], (List.append_nil _).symm, matched, ?_⟩
      have body : front.countP Op.handles = 0 := List.countP_eq_zero.mpr fun op member =>
        ne_true_of_eq_false (Op.handles_eq_false (inner op member))
      rw [program, List.countP_append, body]
      rcases loop with rfl | rfl | rfl | ⟨i, nfds, rfl, _⟩ <;> rfl
  | accepting i nfds done event program bound examined listening matched =>
      refine ⟨done, [event], examined, matched, ?_⟩
      rw [program]
      rfl
  | lookingUp i nfds done event program bound examined client matched =>
      refine ⟨done, [event], examined, matched, ?_⟩
      rw [program]
      rfl

/-- When the batch is over and no event was lost, each was handled by what it is. -/
theorem NothingLost.ended (lossless : NothingLost c)
    (ended : c.prog .listen = [.clearEvents, .listenWhile]) :
    List.Forall₂ (HandledAs c.shared.serverfd) c.shared.batch c.shared.handled := by
  obtain ⟨read, done, waiting, examined, matched, waits⟩ := lossless
  rw [ended] at waits
  obtain rfl : waiting = [] := List.eq_nil_of_length_eq_zero waits
  rw [unread, ended] at read
  change c.shared.examined ++ [] = c.shared.batch at read
  rwa [← read, List.append_nil, examined, List.append_nil]

/-- What it says after a given step of the listening thread that no event is lost. -/
theorem NothingLost.of_exec {op : Op} {rest : List Op} {flow : Flow Op} {s' : ServerState n}
    (kept : ∀ c', (server n).step .listen e c = some c' → NothingLost c')
    (program : c.prog .listen = op :: rest)
    (executed : exec .listen op e c.shared = some (flow, s')) :
    s'.examined ++ unreadBy ((server n).continuation flow rest) s'.events = s'.batch ∧
      ∃ done waiting, s'.examined = done ++ waiting ∧
        List.Forall₂ (HandledAs s'.serverfd) done s'.handled ∧
        waiting.length = ((server n).continuation flow rest).countP Op.handles := by
  obtain ⟨read, handled⟩ := kept _ ((server n).step_of_exec program executed)
  simp only [unread, Function.update_self] at read handled
  exact ⟨read, handled⟩

/-- Unread events are lost when the array is cleared: they were not zero. -/
theorem Dispatching.not_cleared {rest : List Op} (dispatching : Dispatching c)
    (unread : unread c ≠ []) (program : c.prog .listen = .clearEvents :: rest)
    (kept : ∀ c', (server n).step .listen e c = some c' → NothingLost c') : False := by
  obtain ⟨lost, _⟩ := NothingLost.of_exec kept program rfl
  have read := dispatching.reading.read
  rw [ServerConfig.unread, program] at unread
  rw [program] at read
  change c.shared.examined ++ unreadBy rest (c.shared.events.map fun _ => .zero) =
    c.shared.batch at lost
  change c.shared.examined ++ unreadBy rest c.shared.events = c.shared.batch at read
  change unreadBy rest c.shared.events ≠ [] at unread
  obtain ⟨event, events, first⟩ := List.exists_cons_of_ne_nil unread
  rw [unreadBy_map, first, ← read, first] at lost
  have zero : EpollEvent.zero = event := (List.cons.inj (List.append_cancel_left lost)).1
  refine dispatching.reading.real event ?_ (zero ▸ rfl)
  rw [← read, first]
  exact List.mem_append_right _ List.mem_cons_self

/-- Unread events are lost when the loop ends before them. -/
theorem Dispatching.not_left {op : Op} {rest : List Op} (dispatching : Dispatching c)
    (unread : unread c ≠ []) (program : c.prog .listen = op :: rest)
    (kept : ∀ c', (server n).step .listen e c = some c' → NothingLost c') :
    op.fails e c.shared = false := by
  by_contra fails
  obtain ⟨flow, s', executed, ends, batch, examined⟩ :=
    exec_of_fails .listen (Bool.not_eq_false _ ▸ fails)
  obtain ⟨lost, _⟩ := NothingLost.of_exec kept program executed
  have none : unreadBy ((server n).continuation flow rest) s'.events = [] := by
    rcases ends with rfl | rfl
    · exact unreadBy_inner fun op member =>
        Op.inner_of_survives (List.mem_filter.mp member).2
    · rfl
  rw [none, batch, examined, ← dispatching.reading.read] at lost
  exact unread (List.append_cancel_left lost).symm

/-- An event of a connection at descriptor 0 that selects a branch is passed over. -/
theorem Dispatching.not_zero {i nfds : Nat} {rest : List Op} (dispatching : Dispatching c)
    (program : c.prog .listen = .forLoop i nfds :: rest) (inside : i < nfds)
    (client : (c.shared.events.getD i .zero).fd ≠ c.shared.serverfd)
    (zero : (c.shared.events.getD i .zero).fd = 0)
    (entry : (c.shared.connections.lookup (c.shared.events.getD i .zero).fd).join.isSome)
    (kept : ∀ c', (server n).step .listen e c = some c' → NothingLost c') :
    selectBranch (c.shared.events.getD i .zero).events = none := by
  have executed : exec .listen (.forLoop i nfds) e c.shared = some (.next [.forLoop (i + 1) nfds],
      { c.shared with
        examined := c.shared.examined ++ [c.shared.events.getD i .zero]
        handled := c.shared.handled ++ [.dispatched
          (c.shared.connections.lookup (c.shared.events.getD i .zero).fd) none] }) := by
    have notPositive : ¬ (c.shared.events.getD i .zero).fd > 0 := by omega
    simp only [exec, forLoop, if_pos inside, if_neg client, if_neg notPositive, goOn]
  obtain rfl : rest = [] := dispatching.reading.listening.forLoop_last program
  obtain ⟨_, done, waiting, examined, matched, waits⟩ :=
    NothingLost.of_exec kept program executed
  obtain rfl : waiting = [] := List.eq_nil_of_length_eq_zero waits
  rw [List.append_nil] at examined
  rw [← examined] at matched
  have last := (List.forall₂_reverse_iff.mpr matched)
  rw [List.reverse_append, List.reverse_append] at last
  obtain ⟨_, selects⟩ := (List.forall₂_cons.mp last).1
  obtain ⟨conn, entry⟩ := Option.isSome_iff_exists.mp entry
  exact (selects conn (Option.join_eq_some_iff.mp entry)).symm

theorem Dispatching.undisturbed (dispatching : Dispatching c)
    (kept : ∀ c', (server n).step t e c = some c' → NothingLost c') : Undisturbed c t e := by
  rintro rfl
  rw [Next]
  split
  · trivial
  · rename_i op rest program
    refine ⟨fun unread => ⟨?_, dispatching.not_left unread program kept⟩, ?_⟩
    · rintro rfl
      exact dispatching.not_cleared unread program kept
    · intro event examines client zero entry
      cases op with
      | forLoop i nfds =>
          by_cases inside : i < nfds
          · rw [Op.examines, if_pos inside, Option.mem_some_iff] at examines
            subst examines
            exact dispatching.not_zero program inside client zero entry kept
          · rw [Op.examines, if_neg inside] at examines
            cases examines
      | _ => cases examines

/-- In every run of a server, under any interleaving, batch by batch: no event is
lost exactly if the listening thread never clears the array, or leaves the loop,
with events unread, and no client has descriptor 0. -/
theorem nothingLost_iff (serverfd : Nat) (ssl : Bool) (maxIdle : Int32)
    (schedule : Schedule n) :
    (server n).Always NothingLost schedule (init n serverfd ssl maxIdle) ↔
      (server n).Along Undisturbed schedule (init n serverfd ssl maxIdle) := by
  constructor
  · exact Interleaving.Machine.along_of_always Dispatching
      (fun _ _ _ _ dispatching guard taken => dispatching.step guard taken)
      (fun _ _ _ dispatching kept => dispatching.undisturbed kept)
      (Dispatching.init serverfd ssl maxIdle)
  · exact Interleaving.Machine.always_of_invariant Dispatching
      (fun _ _ _ _ dispatching guard taken => dispatching.step guard taken)
      (fun _ dispatching => dispatching.nothingLost) (Dispatching.init serverfd ssl maxIdle)

/-- A connection is accepted, and a batch of two events is handled to its end, one
of them of the listening descriptor; `accept` gives another descriptor. -/
def mixedRun (first second : EpollEvent) (before after : Nat) : Schedule 2 :=
  acceptOne 3 5 ++ steps .listen 1 ++ choose .listen { ready := some [first, second] } ++
    steps .listen before ++ choose .listen { accepted := some 7 } ++ steps .listen after

/-- The event of the client comes first. -/
theorem nothingLost_iff_client_first :
    (server 2).Always NothingLost (mixedRun ⟨5, EPOLLIN⟩ ⟨3, EPOLLIN⟩ 8 9) (init 2 3 false (-1)) :=
  (nothingLost_iff 3 false (-1) (mixedRun ⟨5, EPOLLIN⟩ ⟨3, EPOLLIN⟩ 8 9)).mpr (by decide)

/-- It comes second, and is cleared when the new connection is set up. -/
theorem nothingLost_fails :
    ∃ c, (server 2).run (mixedRun ⟨3, EPOLLIN⟩ ⟨5, EPOLLIN⟩ 1 10) (init 2 3 false (-1)) = some c ∧
      c.prog .listen = [.clearEvents, .listenWhile] ∧
      c.shared.batch = [⟨3, EPOLLIN⟩, ⟨5, EPOLLIN⟩] ∧
      c.shared.examined = [⟨3, EPOLLIN⟩, ⟨0, 0⟩] ∧
      c.shared.connections.lookup 5 = some (some ⟨0, 0⟩) ∧ ¬ NothingLost c := by
  refine ⟨_, rfl, rfl, rfl, rfl, rfl, fun lossless => ?_⟩
  exact absurd lossless.read (by decide)

end ServerConfig

end LibSiot
