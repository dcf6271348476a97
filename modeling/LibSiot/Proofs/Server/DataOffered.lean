/-
Module: LibSiot.Proofs.Server.DataOffered
Purpose: Whether data that epoll reports is offered to the service before its
  connection is shut down, under any interleaving: a `DataReady` task is queued for
  each report, unless the peer is reported to have closed along with it, the batch is
  not read to its end, or another thread shuts the connection down meanwhile.
Trusted boundary: none
Main exports: ServerConfig.agenda, ServerConfig.OfferHistory, ServerConfig.DataOffered,
  ServerConfig.Unhindered, ServerConfig.dataOffered_of_unhindered
-/
import LibSiot.Proofs.Server.Batch
import LibSiot.Proofs.Server.Removal

namespace LibSiot

open Interleaving (Flow)
open Interleaving.Machine (pushes AllOps pairwise_continuation)

namespace EpollEvent

/-- The event says that there is data to read, and no error. -/
def carriesData (event : EpollEvent) : Bool :=
  event.events &&& EPOLLIN ≠ 0 && event.events &&& EPOLLERR = 0

/-- The event says that the peer closed its end, or both. -/
def hangsUp (event : EpollEvent) : Bool :=
  event.events &&& (EPOLLHUP ||| EPOLLRDHUP) ≠ 0

/-- What the code makes of an event that carries data and no hang-up. -/
theorem selects_dataReady {event : EpollEvent} (data : event.carriesData = true)
    (open' : event.hangsUp = false) : selectBranch event.events = some .dataReady := by
  simp only [carriesData, hangsUp, ne_eq, decide_not, Bool.and_eq_true, Bool.not_eq_true',
    decide_eq_false_iff_not, decide_eq_true_eq, Bool.not_eq_false'] at data open'
  rw [selectBranch, if_neg (not_not_intro open'), if_neg (not_not_intro data.2), if_pos data.1]

theorem hangsUp_of_selects {event : EpollEvent}
    (selects : selectBranch event.events = some .hangup) : event.hangsUp = true := by
  rw [selectBranch] at selects
  split at selects
  · rename_i closed
    exact decide_eq_true closed
  · split at selects
    · cases selects
    · split at selects <;> cases selects

end EpollEvent

namespace Op

/-- The connection to which the operation offers data, or leads to the offer, as the
pool is. -/
def offersTo {n : Nat} (s : ServerState n) : Op → Option Handle
  | .lookup fd events =>
      if selectBranch events = some .dataReady then (s.connections.lookup fd).join else none
  | .find fd conn => if (s.connections.lookup fd).isSome then some conn else none
  | .addTask (.lockCallAndUnlock .dataReady conn) => some conn
  | _ => none

/-- The descriptor whose connection the operation takes down, or leads to that. -/
def takesDown {n : Nat} (s : ServerState n) : Op → Option Nat
  | .lookup fd events => if selectBranch events = some .hangup then some fd else none
  | .erase fd => some fd
  | op => op.tears.map fun conn => s.socket conn.accept

/-- The operation shuts the connection down, or takes its entry. -/
def endangers {n : Nat} (s : ServerState n) (conn : Handle) : Op → Bool
  | .shutdown other => other.accept = conn.accept
  | .erase fd => s.connections.lookup fd = some (some conn)
  | _ => false

/-- The operation is one of the loops of `ListenEpoll`. -/
def turns : Op → Bool
  | .listenWhile => true
  | .epollWait => true
  | .forLoop _ _ => true
  | _ => false

/-- The operation takes a task, or is one of the reaper. -/
def elsewhere : Op → Bool
  | .takeTask => true
  | op => op.reaps

end Op

namespace ServerState

variable {n : Nat}

/-- A `Shutdown()` of the connection began. -/
def shutdownBegan (accept : Nat) (s : ServerState n) : Bool :=
  s.trace.any fun event =>
    match event with
    | .shutdownStarted conn => conn.accept = accept
    | _ => false

/-- The live connection in the pool for which the event reports data. -/
def reportedTo (s : ServerState n) (event : EpollEvent) : Option Handle :=
  if event.carriesData && event.fd ≠ s.serverfd then
    (s.connections.lookup event.fd).join.filter fun conn => !s.shutdownBegan conn.accept
  else none

/-- The lookups that events will lead to. -/
def upcoming (s : ServerState n) (events : List EpollEvent) : List Op :=
  (events.filter fun event => event.fd ≠ s.serverfd && event.fd ≠ 0).map fun event =>
    .lookup event.fd event.events

variable {t : Tid n} {e : Choice} {s s' : ServerState n} {op : Op} {flow : Flow Op}

/-! ### One step -/

/-- An operation goes on to offer data to a connection while this is in the pool. -/
theorem offersTo_kept {new : Op} {conn : Handle} (offers : new.offersTo s = some conn)
    (finding : Finding s new)
    (kept : ∀ fd, s.connections.lookup fd = some (some conn) →
      s'.connections.lookup fd = some (some conn)) : new.offersTo s' = some conn := by
  cases new with
  | lookup fd events =>
      simp only [Op.offersTo] at offers ⊢
      split at offers
      · rename_i selects
        rw [if_pos selects, kept fd (Option.join_eq_some_iff.mp offers), Option.join_some]
      · cases offers
  | find fd other =>
      simp only [Op.offersTo] at offers ⊢
      split at offers
      · rename_i present
        cases offers
        obtain ⟨value, entry⟩ := Option.isSome_iff_exists.mp present
        obtain rfl := finding fd conn rfl value entry
        rw [kept fd entry, Option.isSome_some, if_pos rfl]
      · cases offers
  | addTask task =>
      cases task with
      | lockCallAndUnlock callback other =>
          cases callback with
          | dataReady => exact offers
          | _ => cases offers
      | _ => cases offers
  | _ => cases offers

/-- An offer under way goes on, until the task is queued. -/
theorem Rule.offers (rule : Rule t e s op flow s') {conn : Handle}
    (offers : op.offersTo s = some conn) :
    op = .addTask (.lockCallAndUnlock .dataReady conn) ∨
      ∃ new ∈ pushes flow, new.offersTo s' = some conn := by
  cases rule with
  | lookupHangup fd events other entry selects | lookupError fd events other entry selects
  | lookupUnselected fd events other entry selects => simp [Op.offersTo, selects] at offers
  | lookupNull fd events entry | lookupMissing fd events entry =>
      simp [Op.offersTo, entry] at offers
  | lookupDataReady fd events other entry selects =>
      right
      refine ⟨.find fd other, by simp [pushes], ?_⟩
      simp only [Op.offersTo, selects, entry, Option.join_some, if_true] at offers
      simp [Op.offersTo, entry, offers]
  | findMissing fd other entry => simp [Op.offersTo, entry] at offers
  | found fd other value entry =>
      right
      refine ⟨.addTask (.lockCallAndUnlock .dataReady other), by simp [pushes, lockAndAdd], ?_⟩
      simpa [Op.offersTo, entry] using offers
  | addTask task =>
      left
      cases task with
      | lockCallAndUnlock callback other =>
          cases callback with
          | dataReady =>
              cases offers
              rfl
          | _ => cases offers
      | _ => cases offers
  | _ => cases offers

/-- The array of events is filled by `epoll_wait` and cleared, and else stays. -/
theorem Rule.events_kept (rule : Rule t e s op flow s') (wait : op ≠ .epollWait)
    (clear : op ≠ .clearEvents) : s'.events = s.events ∧ s'.serverfd = s.serverfd := by
  cases rule with
  | waited => exact absurd rfl wait
  | clearEvents => exact absurd rfl clear
  | _ => exact ⟨rfl, rfl⟩

theorem upcoming_singleton (s : ServerState n) (event : EpollEvent) :
    s.upcoming [event] =
      if event.fd = s.serverfd ∨ event.fd = 0 then []
      else [.lookup event.fd event.events] := by
  by_cases listening : event.fd = s.serverfd
  · simp [upcoming, listening]
  · by_cases zero : event.fd = 0 <;> simp [upcoming, listening, zero]

/-- One turn of the loop leads to the lookup for the event it reads, or to `accept`. -/
theorem Rule.examines {i nfds : Nat} (rule : Rule t e s (.forLoop i nfds) flow s')
    (inside : i < nfds) :
    ∃ ops, flow = .next (ops ++ [.forLoop (i + 1) nfds]) ∧ s'.connections = s.connections ∧
      (ops = s.upcoming [s.events.getD i .zero] ∨
        ops = [.accept] ∧ s.upcoming [s.events.getD i .zero] = []) := by
  cases rule with
  | examineListening _ _ _ listening =>
      exact ⟨[.accept], rfl, rfl, Or.inr ⟨rfl, by rw [upcoming_singleton, if_pos (Or.inl listening)]⟩⟩
  | examineClient _ _ _ client positive =>
      refine ⟨[.lookup _ _], rfl, rfl, Or.inl ?_⟩
      rw [upcoming_singleton, if_neg (not_or_intro client (Nat.pos_iff_ne_zero.mp positive))]
  | examineZero _ _ _ client zero =>
      exact ⟨[], rfl, rfl, Or.inl (by rw [upcoming_singleton, if_pos (Or.inr zero)])⟩
  | loopOver _ _ outside => exact absurd inside outside

/-- `epoll_wait` fails, or the loop over the batch begins. -/
theorem epollWait_cases (executed : exec t .epollWait e s = some (flow, s')) :
    e.ready = none ∨
      ∃ batch, e.ready = some batch ∧ flow = .next [.forLoop 0 batch.length] ∧
        s' = { s with
          events := batch ++ s.events.drop batch.length
          batch := batch
          examined := []
          handled := [] } := by
  simp only [exec, epollWait, goOn] at executed
  split at executed
  · rename_i failed
    exact Or.inl failed
  · rename_i batch ready
    split at executed
    · cases executed
      exact Or.inr ⟨batch, ready, rfl, rfl⟩
    · cases executed

theorem reportedTo_eq_some {event : EpollEvent} {conn : Handle}
    (reported : s.reportedTo event = some conn) :
    event.carriesData = true ∧ event.fd ≠ s.serverfd ∧
      s.connections.lookup event.fd = some (some conn) ∧
        s.shutdownBegan conn.accept = false := by
  rw [reportedTo] at reported
  split at reported
  · rename_i data
    obtain ⟨entry, up⟩ := Option.filter_eq_some_iff.mp reported
    simp only [Bool.and_eq_true, ne_eq, decide_not, Bool.not_eq_true',
      decide_eq_false_iff_not] at data up
    exact ⟨data.1, data.2, Option.join_eq_some_iff.mp entry, up⟩
  · cases reported

/-- Where data is reported without a hang-up, a lookup to come offers it. -/
theorem count_reported {events : List EpollEvent} {conn : Handle}
    (opens : ∀ event ∈ events, (s.reportedTo event).isSome →
      event.fd ≠ 0 ∧ event.hangsUp = false)
    (connections : s'.connections = s.connections) (serverfd : s'.serverfd = s.serverfd) :
    (events.filterMap s.reportedTo).count conn ≤
      (s'.upcoming events).countP fun op => op.offersTo s' = some conn := by
  rw [List.count_filterMap, upcoming, List.countP_map, List.countP_filter]
  apply List.countP_mono_left
  intro event member reported
  have reported : s.reportedTo event = some conn := by simpa using reported
  obtain ⟨data, client, entry, _⟩ := reportedTo_eq_some reported
  obtain ⟨positive, open'⟩ := opens event member (Option.isSome_iff_exists.mpr ⟨conn, reported⟩)
  have selects := EpollEvent.selects_dataReady data open'
  simp [Op.offersTo, selects, connections, entry, serverfd, client, positive]

/-- Only `Shutdown()` is noted as its beginning. -/
theorem Rule.shutdownBegan (rule : Rule t e s op flow s') {accept : Nat}
    (other : ∀ conn, op = .shutdown conn → conn.accept ≠ accept) :
    s'.shutdownBegan accept = s.shutdownBegan accept := by
  cases rule with
  | shutdown conn => simp [ServerState.shutdownBegan, record, other conn rfl]
  | _ => rfl

/-- What belongs to another thread is pushed by what belongs there too. -/
theorem Rule.elsewhere (rule : Rule t e s op flow s') {new : Op} (member : new ∈ pushes flow)
    (there : new.elsewhere = true) : op.elsewhere = true := by
  cases rule with
  | takeTask | reapStart | reapWaited | reapTime | reapDue | reapKept => rfl
  | shutdown conn =>
      rcases mem_shutdownOps member with rfl | rfl | member | rfl
      · cases there
      · cases there
      · rcases mem_shutdownBody member with rfl | rfl | rfl | ⟨_, rfl, _⟩ | rfl <;> cases there
      · cases there
  | callbackUses | drain | userUses =>
      rcases mem_useOps_append member with rfl | rfl | rfl | rfl <;> cases there
  | deregister conn =>
      obtain ⟨_, _, rfl | rfl | rfl | rfl⟩ := mem_dequeueOps member <;> cases there
  | _ => exact absurd there (List.any_eq_false.mp rfl new member)

/-- The loops of `ListenEpoll` are not in what they do. -/
theorem Rule.turns_apart (rule : Rule t e s op flow s') (apart : op.turns = false) :
    ∀ new ∈ pushes flow, new.turns = false := by
  have common := rule.common_of_pushed
  cases rule with
  | keepListening | waitRetried | waited | examineListening | examineClient | examineZero
  | loopOver => cases apart
  | takeTask | callbackUses | shutdown | deregister | drain | userUses =>
      intro new member
      have shared := common rfl new member
      cases new <;> first | rfl | cases shared
  | _ => exact fun new member => eq_false_of_ne_true (List.any_eq_false.mp rfl new member)

/-- The loops come last. -/
theorem Rule.turns_last (rule : Rule t e s op flow s') :
    (pushes flow).Pairwise fun a _ => a.turns = false := by
  by_cases turns : op.turns = true
  · cases rule with
    | examineListening | examineClient | loopOver =>
        exact List.pairwise_pair.mpr rfl
    | keepListening | waitRetried | waited | examineZero => exact List.pairwise_singleton _ _
    | stopListening | waitLeft => exact List.Pairwise.nil
    | _ => cases turns
  · apply List.pairwise_of_forall_mem_list
    intro a member _ _
    exact rule.turns_apart (Bool.eq_false_of_not_eq_true turns) a member

/-- The thread that looks a hang-up up goes on to take down the connection at that
descriptor. -/
theorem Rule.takesDown (rule : Rule t e s op flow s') (here : op.elsewhere = false)
    (pool : ∀ fd conn, s.connections.lookup fd = some (some conn) → s.socket conn.accept = fd)
    {new : Op} (member : new ∈ pushes flow) {fd : Nat} (down : new.takesDown s' = some fd) :
    op.takesDown s = some fd ∨ op.turns = true := by
  cases rule with
  | examineListening | examineClient | examineZero | loopOver | keepListening | waitRetried
  | waited => exact Or.inr rfl
  | lookupHangup fd' events conn entry selects =>
      left
      simp only [pushes, List.mem_cons, List.not_mem_nil, or_false] at member
      rcases member with rfl | rfl
      · cases down
      · rw [Op.takesDown, if_pos selects, ← pool fd' conn entry]
        exact down
  | shutdown conn =>
      left
      rcases mem_shutdownOps member with rfl | rfl | member | rfl
      · cases down
      · exact down
      · rcases mem_shutdownBody member with rfl | rfl | rfl | ⟨lower, rfl, same, _⟩ | rfl
        · exact down
        · cases down
        · cases down
        · rw [← down]
          simp [Op.takesDown, Op.tears, record, same]
        · cases down
      · cases down
  | callbackUses | drain | userUses =>
      rcases mem_useOps_append member with rfl | rfl | rfl | rfl <;> cases down
  | deregister conn =>
      left
      obtain ⟨fd', key, rfl | rfl | rfl | rfl⟩ := mem_dequeueOps member
      · cases down
      · cases down
        obtain ⟨value, entry, same⟩ := OrderedMap.mem_keysWhere.mp key
        rw [of_decide_eq_true same] at entry
        exact congrArg some (pool fd conn entry)
      · cases down
      · cases down
  | takeTask | reapDue | reapExpired => cases here
  | _ => exact absurd down (ne_some_of_all rfl member)

/-- Which connection an operation takes down does not change. -/
theorem Rule.takesDown_kept (rule : Rule t e s op flow s') {new : Op}
    (made : ∀ conn, new.tears = some conn → conn.accept < s.nextAccept) :
    new.takesDown s' = new.takesDown s := by
  cases new with
  | lock name =>
      cases name with
      | connections | ssl => rfl
      | connection conn => exact congrArg some (rule.numbered (made conn rfl)).2
  | shutdown conn | deregister conn => exact congrArg some (rule.numbered (made conn rfl)).2
  | _ => rfl

end ServerState

namespace ServerConfig

open ServerState

variable {n : Nat}

/-! ### The property and its condition -/

/-- The connections to which data was reported and not yet offered, once for each
report; and those of which it never was. -/
structure OfferHistory where
  owed : List Handle := []
  missed : List Handle := []
deriving DecidableEq, Repr

/-- A report is owed an offer until the `DataReady` task is queued.  It is missed when a
`Shutdown()` of the connection begins first, or the next `epoll_wait` comes. -/
def OfferHistory.note (op : Op) (e : Choice) (s : ServerState n) (k : OfferHistory) :
    OfferHistory :=
  match op with
  | .epollWait =>
      { owed := (e.ready.getD []).filterMap s.reportedTo
        missed := k.owed ++ k.missed }
  | .addTask (.lockCallAndUnlock .dataReady conn) => { k with owed := k.owed.erase conn }
  | .shutdown conn =>
      { k with missed := k.owed.filter (fun other => other.accept = conn.accept) ++ k.missed }
  | _ => k

/-- Each step is remembered. -/
def noteOffers (c : ServerConfig n) (t : Tid n) (e : Choice) (k : OfferHistory) :
    OfferHistory :=
  match c.prog t with
  | [] => k
  | op :: _ => k.note op e c.shared

/-- For every report of data from a live connection in the pool a `DataReady` task was
queued before its `Shutdown()` began, or still can be. -/
structure DataOffered (k : OfferHistory) (c : ServerConfig n) : Prop where
  missed : k.missed = []
  ended : c.prog .listen = [] → k.owed = []

instance (k : OfferHistory) (c : ServerConfig n) : Decidable (DataOffered k c) :=
  decidable_of_iff (k.missed = [] ∧ (c.prog .listen = [] → k.owed = []))
    ⟨fun both => ⟨both.1, both.2⟩, fun offered => ⟨offered.missed, offered.ended⟩⟩

/-- What the listening thread will do with the batch: the operations it has left, and
the lookups for the events still to be read. -/
def agenda (c : ServerConfig n) : List Op :=
  c.prog .listen ++ c.shared.upcoming (unread c)

/-- The connections that nobody began to shut down and that will be offered data, as
things are. -/
def awaited (c : ServerConfig n) : List Handle :=
  ((agenda c).filterMap (Op.offersTo c.shared)).filter fun conn =>
    !c.shared.shutdownBegan conn.accept

/-- In the step no data is reported for descriptor 0, nor for one of which a hang-up is
reported in the same batch.  While a connection waits to be offered data, no other
thread takes it down, and the listening thread neither accepts a connection, nor clears
the array of events, nor leaves the loop by an exception. -/
def Unhindered (c : ServerConfig n) (t : Tid n) (e : Choice) : Prop :=
  Next (fun op e s =>
    (op = .epollWait → ∀ event ∈ e.ready.getD [], (s.reportedTo event).isSome →
      event.fd ≠ 0 ∧ ∀ other ∈ e.ready.getD [], other.fd = event.fd → other.hangsUp = false) ∧
    (t = .listen → awaited c ≠ [] →
      op.decorates = false ∧ op ≠ .clearEvents ∧ op.fails e s = false) ∧
    (t ≠ .listen → ∀ conn ∈ awaited c, op.endangers s conn = false)) c t e

instance (c : ServerConfig n) (t : Tid n) (e : Choice) : Decidable (Unhindered c t e) :=
  inferInstanceAs (Decidable (Next (fun op e s =>
    (op = .epollWait → ∀ event ∈ e.ready.getD [], (s.reportedTo event).isSome →
      event.fd ≠ 0 ∧ ∀ other ∈ e.ready.getD [], other.fd = event.fd → other.hangsUp = false) ∧
    (t = .listen → awaited c ≠ [] →
      op.decorates = false ∧ op ≠ .clearEvents ∧ op.fails e s = false) ∧
    (t ≠ .listen → ∀ conn ∈ awaited c, op.endangers s conn = false)) c t e))

/-! ### What is known of the listening thread -/

/-- The listening thread does nothing of other threads, its loop comes last, and what it
takes down was accepted. -/
structure Framed (c : ServerConfig n) : Prop where
  numbered : Numbered c
  finding : AllOps (fun s _ op => Finding s op) c
  here : ∀ op ∈ c.prog .listen, op.elsewhere = false
  last : (c.prog .listen).Pairwise fun a _ => a.turns = false
  made : ∀ op ∈ c.prog .listen, ∀ conn, op.tears = some conn →
    conn.accept < c.shared.nextAccept

theorem Framed.init (serverfd : Nat) (ssl : Bool) (maxIdle : Int32) :
    Framed (ServerConfig.init n serverfd ssl maxIdle) where
  numbered := Numbered.init serverfd ssl maxIdle
  finding := forall_init nofun nofun (fun _ => nofun) nofun
  here op member := by
    rw [List.mem_singleton.mp member]
    rfl
  last := List.pairwise_singleton _ _
  made op member conn tears := by
    rw [List.mem_singleton.mp member] at tears
    cases tears

variable {c c' : ServerConfig n} {t : Tid n} {e : Choice} {op : Op} {rest : List Op}
  {flow : Flow Op} {k : OfferHistory}

namespace Framed

theorem step_here (inv : Framed c) (taken : Taken c c' t e op rest flow) :
    ∀ op ∈ c'.prog .listen, op.elsewhere = false := by
  intro op' member
  rcases taken.mem member with ⟨rfl, pushed⟩ | ⟨rfl, later⟩ | ⟨_, there⟩
  · by_contra elsewhere
    have impossible := taken.rule.elsewhere pushed (Bool.eq_true_of_not_eq_false elsewhere)
    rw [inv.here op taken.first] at impossible
    cases impossible
  · exact inv.here op' (taken.program ▸ List.mem_cons_of_mem _ later)
  · exact inv.here op' there

theorem step_last (inv : Framed c) (taken : Taken c c' t e op rest flow) :
    (c'.prog .listen).Pairwise fun a _ => a.turns = false := by
  by_cases listens : t = .listen
  · subst listens
    rw [taken.self]
    apply pairwise_continuation (taken.program ▸ inv.last) taken.rule.turns_last
    exact fun a pushed _ apart => taken.rule.turns_apart apart a pushed
  · rw [taken.other (Ne.symm listens)]
    exact inv.last

theorem step_made (inv : Framed c) (taken : Taken c c' t e op rest flow) :
    ∀ op ∈ c'.prog .listen, ∀ conn, op.tears = some conn →
      conn.accept < c'.shared.nextAccept := by
  intro op' member conn tears
  apply And.left
  apply taken.rule.numbered
  rcases taken.mem member with ⟨rfl, pushed⟩ | ⟨rfl, later⟩ | ⟨_, there⟩
  · rcases taken.rule.tears pushed tears with ⟨outer, rfl, same, _⟩ |
      ⟨_, ⟨fd, events, rfl, entry⟩ | ⟨rfl, _⟩ | ⟨rfl, _⟩⟩
    · rw [same]
      exact inv.made _ taken.first outer rfl
    · exact (inv.numbered.pool fd conn entry).1
    · cases inv.here _ taken.first
    · cases inv.here _ taken.first
  · exact inv.made op' (taken.program ▸ List.mem_cons_of_mem _ later) conn tears
  · exact inv.made op' there conn tears

theorem step (inv : Framed c) (taken : Taken c c' t e op rest flow)
    (succeed : ConstructorsSucceed c t e) : Framed c' where
  numbered := inv.numbered.step taken succeed
  finding := taken.finding inv.numbered.listens inv.numbered.ordered inv.finding
  here := inv.step_here taken
  last := inv.step_last taken
  made := inv.step_made taken

/-- Nothing comes after one of the loops. -/
theorem turns_alone (inv : Framed c) (turns : op.turns = true)
    (program : c.prog .listen = op :: rest) : rest = [] := by
  cases rest with
  | nil => rfl
  | cons next rest =>
      have last := inv.last
      rw [program] at last
      rw [(List.pairwise_cons.mp last).1 next List.mem_cons_self] at turns
      cases turns

/-- With no event left to be read, one of the loops offers no data. -/
theorem awaited_eq_nil (inv : Framed c) (turns : op.turns = true)
    (program : c.prog .listen = op :: rest) (none : unread c = []) : awaited c = [] := by
  obtain rfl := inv.turns_alone turns program
  rw [awaited, agenda, program, none]
  cases op <;> first | rfl | cases turns

end Framed

/-! ### The agenda -/

theorem mem_upcoming {s : ServerState n} {events : List EpollEvent}
    (member : op ∈ s.upcoming events) :
    ∃ event ∈ events, op = .lookup event.fd event.events := by
  obtain ⟨event, kept, same⟩ := List.mem_map.mp member
  exact ⟨event, (List.mem_filter.mp kept).1, same.symm⟩

namespace Framed

theorem finding_agenda (inv : Framed c) : ∀ op ∈ agenda c, Finding c.shared op := by
  intro op member
  rcases List.mem_append.mp member with left | coming
  · exact inv.finding .listen op left
  · obtain ⟨event, _, rfl⟩ := mem_upcoming coming
    exact nofun

theorem made_agenda (inv : Framed c) : ∀ op ∈ agenda c, ∀ conn, op.tears = some conn →
    conn.accept < c.shared.nextAccept := by
  intro op member conn tears
  rcases List.mem_append.mp member with left | coming
  · exact inv.made op left conn tears
  · obtain ⟨event, _, rfl⟩ := mem_upcoming coming
    cases tears

end Framed

/-- How a step changes the agenda: `before` goes and `after` comes, which offers data and
takes connections down as that did; but an offer that is made is done with. -/
structure Continues (op : Op) (c c' : ServerConfig n) (before after later : List Op) :
    Prop where
  old : agenda c = before ++ later
  new : agenda c' = after ++ later
  offers : ∀ conn, before.countP (fun op => op.offersTo c.shared = some conn) ≤
    after.countP (fun op => op.offersTo c'.shared = some conn) +
      if op = .addTask (.lockCallAndUnlock .dataReady conn) then 1 else 0
  down : ∀ new ∈ after, ∀ fd, new.takesDown c'.shared = some fd →
    ∃ old ∈ before, old.takesDown c.shared = some fd

/-- Another thread leaves the agenda as it is. -/
theorem Framed.continues_other (inv : Framed c) (taken : Taken c c' t e op rest flow)
    (other : t ≠ .listen) : Continues op c c' [] [] (agenda c) := by
  have apart : op.listens = false :=
    Bool.eq_false_of_not_eq_true fun listens => other (inv.numbered.listens t op taken.first listens)
  obtain ⟨events, serverfd⟩ := taken.rule.events_kept
    (by rintro rfl; cases apart) (by rintro rfl; cases apart)
  refine ⟨rfl, ?_, fun _ => Nat.zero_le _, nofun⟩
  rw [List.nil_append, agenda, agenda, unread, unread, taken.other (Ne.symm other), events,
    upcoming, upcoming, serverfd]

/-- An operation of the listening thread, beside its loops: what it pushes comes for it. -/
theorem Framed.continues_listen {ops : List Op} (inv : Framed c)
    (taken : Taken c c' .listen e op rest (.next ops)) (apart : op.turns = false)
    (clear : op ≠ .clearEvents) : ∃ later, Continues op c c' [op] ops later := by
  have straight : ∀ op : Op, op.turns = false → op.loop = none := by
    intro op apart
    cases op <;> first | rfl | cases apart
  have rule := taken.rule
  obtain ⟨events, serverfd⟩ := rule.events_kept (by rintro rfl; cases apart) clear
  have before : unread c = unreadBy rest c.shared.events := by
    rw [unread, taken.program, ← List.singleton_append]
    exact unreadBy_of_loop_none fun op member =>
      straight op (by rwa [List.mem_singleton.mp member])
  have after : unread c' = unreadBy rest c.shared.events := by
    rw [unread, taken.self, events]
    exact unreadBy_of_loop_none fun new member =>
      straight new (rule.turns_apart apart new member)
  refine ⟨rest ++ c.shared.upcoming (unreadBy rest c.shared.events), ?_, ?_, ?_, ?_⟩
  · rw [agenda, taken.program, before]
    rfl
  · rw [agenda, taken.self, after, upcoming, upcoming, serverfd]
    exact List.append_assoc ..
  · intro conn
    by_cases offers : op.offersTo c.shared = some conn
    · have one : [op].countP (fun op => op.offersTo c.shared = some conn) = 1 :=
        List.countP_cons_of_pos (decide_eq_true offers)
      rcases rule.offers offers with queued | ⟨new, pushed, goes⟩
      · rw [one, if_pos queued]
        exact Nat.le_add_left _ _
      · have some : 0 < ops.countP fun op => op.offersTo c'.shared = some conn :=
          List.countP_pos_iff.mpr ⟨new, pushed, decide_eq_true goes⟩
        omega
    · have none : [op].countP (fun op => op.offersTo c.shared = some conn) = 0 :=
        List.countP_cons_of_neg (by simpa using offers)
      rw [none]
      exact Nat.zero_le _
  · intro new pushed fd down
    refine ⟨op, List.mem_singleton_self op, ?_⟩
    rcases rule.takesDown (inv.here op taken.first) (fun fd conn entry =>
      (inv.numbered.pool fd conn entry).2) pushed down with same | turns
    · exact same
    · rw [apart] at turns
      cases turns

/-- A turn of the loop reads the next event, or there is none left. -/
theorem upcoming_forLoop {s : ServerState n} {i nfds : Nat} (inside : i < nfds) :
    s.upcoming (unreadBy [.forLoop i nfds] s.events) =
      s.upcoming [s.events.getD i .zero] ++
        s.upcoming (unreadBy [.forLoop (i + 1) nfds] s.events) := by
  change s.upcoming ((s.events.take nfds).drop i) =
    _ ++ s.upcoming ((s.events.take nfds).drop (i + 1))
  by_cases short : i < s.events.length
  · have there : i < (s.events.take nfds).length := by
      rw [List.length_take]
      omega
    have read : s.events.getD i .zero = (s.events.take nfds)[i] := by
      rw [List.getElem_take, List.getD_eq_getElem?_getD, List.getElem?_eq_getElem short,
        Option.getD_some]
    rw [List.drop_eq_getElem_cons there, read, upcoming, upcoming, upcoming, ← List.map_append,
      ← List.filter_append, List.singleton_append]
  · have none : ∀ j ≥ i, (s.events.take nfds).drop j = [] := by
      intro j later
      apply List.drop_eq_nil_of_le
      rw [List.length_take]
      omega
    have zero : s.events.getD i .zero = .zero := by
      rw [List.getD_eq_getElem?_getD, List.getElem?_eq_none (by omega), Option.getD_none]
    rw [none i (Nat.le_refl i), none (i + 1) (Nat.le_succ i), zero]
    simp [upcoming, EpollEvent.zero]

/-- The turn of the loop in which an event is read: its lookup comes next. -/
theorem Framed.continues_examine {i nfds : Nat} (inv : Framed c)
    (taken : Taken c c' .listen e (.forLoop i nfds) rest flow) (inside : i < nfds) :
    ∃ before after later, Continues (.forLoop i nfds) c c' before after later := by
  obtain rfl := inv.turns_alone rfl taken.program
  obtain ⟨events, serverfd⟩ := taken.rule.events_kept (by simp) (by simp)
  obtain ⟨ops, rfl, connections, looks⟩ := taken.rule.examines inside
  have straight : ∀ op ∈ ops, op.loop = none := by
    intro op member
    rcases looks with rfl | ⟨rfl, _⟩
    · obtain ⟨event, _, rfl⟩ := mem_upcoming member
      rfl
    · rw [List.mem_singleton.mp member]
      rfl
  refine ⟨.forLoop i nfds :: c.shared.upcoming [c.shared.events.getD i .zero],
    ops ++ [.forLoop (i + 1) nfds],
    c.shared.upcoming (unreadBy [.forLoop (i + 1) nfds] c.shared.events), ?_, ?_, ?_, ?_⟩
  · rw [agenda, unread, taken.program, upcoming_forLoop inside]
    rfl
  · have program : c'.prog .listen = ops ++ [.forLoop (i + 1) nfds] := by
      rw [taken.self, Interleaving.Machine.continuation_next, List.append_nil]
    rw [agenda, unread, program, unreadBy_of_loop_none straight, events, upcoming, upcoming,
      serverfd]
  · intro conn
    apply Nat.le_add_right_of_le
    rw [List.countP_cons_of_neg (by simp [Op.offersTo]), List.countP_append]
    apply Nat.le_add_right_of_le
    rcases looks with rfl | ⟨_, none⟩
    · apply List.countP_mono_left
      intro op member offers
      obtain ⟨event, _, rfl⟩ := mem_upcoming member
      apply decide_eq_true
      apply offersTo_kept (of_decide_eq_true offers) (by simp [Finding])
      intro fd entry
      rw [connections]
      exact entry
    · rw [none]
      exact Nat.zero_le _
  · intro new member fd down
    rcases List.mem_append.mp member with pushed | last
    · rcases looks with rfl | ⟨rfl, _⟩
      · refine ⟨new, List.mem_cons_of_mem _ pushed, ?_⟩
        obtain ⟨event, _, rfl⟩ := mem_upcoming pushed
        exact down
      · rw [List.mem_singleton.mp pushed] at down
        cases down
    · rw [List.mem_singleton.mp last] at down
      cases down

/-! ### The invariant -/

/-- Each report that is owed an offer will get it, as things are: nobody began to shut the
connection down, and the listening thread does not go to do so first. -/
structure Owing (k : OfferHistory) (c : ServerConfig n) : Prop where
  framed : Framed c
  promised : ∀ conn, k.owed.count conn ≤
    (agenda c).countP fun op => op.offersTo c.shared = some conn
  up : ∀ conn ∈ k.owed, conn.accept < c.shared.nextAccept ∧
    c.shared.shutdownBegan conn.accept = false
  spared : ∀ op ∈ agenda c, ∀ fd, op.takesDown c.shared = some fd →
    ∀ conn ∈ k.owed, c.shared.socket conn.accept ≠ fd
  missed : k.missed = []

theorem Owing.of_none (framed : Framed c) (none : k.owed = []) (missed : k.missed = []) :
    Owing k c where
  framed := framed
  promised conn := by
    rw [none]
    exact Nat.zero_le _
  up conn member := by
    rw [none] at member
    cases member
  spared op _ fd _ conn member := by
    rw [none] at member
    cases member
  missed := missed

theorem Owing.init (serverfd : Nat) (ssl : Bool) (maxIdle : Int32) :
    Owing {} (ServerConfig.init n serverfd ssl maxIdle) :=
  .of_none (Framed.init serverfd ssl maxIdle) rfl rfl

/-! ### What a step adds to the history -/

theorem note_count {s : ServerState n} (wait : op ≠ .epollWait) (conn : Handle) :
    (k.note op e s).owed.count conn =
      k.owed.count conn - if op = .addTask (.lockCallAndUnlock .dataReady conn) then 1 else 0 := by
  cases op with
  | epollWait => exact absurd rfl wait
  | addTask task =>
      cases task with
      | lockCallAndUnlock callback other =>
          cases callback with
          | dataReady =>
              simp only [OfferHistory.note, List.count_erase, beq_iff_eq, Op.addTask.injEq,
                Closure.lockCallAndUnlock.injEq, true_and]
          | _ => rfl
      | _ => rfl
  | _ => rfl

theorem note_owed {s : ServerState n} (wait : op ≠ .epollWait) :
    (k.note op e s).owed ⊆ k.owed := by
  intro conn member
  have count := note_count (k := k) (e := e) (s := s) wait conn
  have positive := List.count_pos_iff.mpr member
  apply List.count_pos_iff.mp
  omega

theorem note_missed {s : ServerState n} (wait : op ≠ .epollWait) (missed : k.missed = [])
    (spared : ∀ conn ∈ k.owed, ∀ other, op = .shutdown other → other.accept ≠ conn.accept) :
    (k.note op e s).missed = [] := by
  cases op with
  | epollWait => exact absurd rfl wait
  | addTask task =>
      cases task with
      | lockCallAndUnlock callback other => cases callback <;> exact missed
      | _ => exact missed
  | shutdown other =>
      have none : k.owed.filter (fun conn => conn.accept = other.accept) = [] := by
        apply List.filter_eq_nil_iff.mpr
        intro conn member same
        exact spared conn member other rfl (of_decide_eq_true same).symm
      rw [OfferHistory.note, none, missed]
      rfl
  | _ => exact missed

namespace Owing

theorem mem_awaited (inv : Owing k c) {conn : Handle} (member : conn ∈ k.owed) :
    conn ∈ awaited c := by
  have promised := Nat.lt_of_lt_of_le (List.count_pos_iff.mpr member) (inv.promised conn)
  obtain ⟨op, coming, offers⟩ := List.countP_pos_iff.mp promised
  apply List.mem_filter.mpr
  constructor
  · exact List.mem_filterMap.mpr ⟨op, coming, of_decide_eq_true offers⟩
  · rw [(inv.up conn member).2]
    rfl

theorem owed_eq_nil (inv : Owing k c) (none : awaited c = []) : k.owed = [] := by
  apply List.eq_nil_iff_forall_not_mem.mpr
  intro conn member
  have impossible := inv.mem_awaited member
  rw [none] at impossible
  cases impossible

/-- A step neither begins the shutdown of a connection that is owed an offer, nor takes
its entry. -/
theorem harmless (inv : Owing k c) (taken : Taken c c' t e op rest flow)
    (unhindered : Unhindered c t e) {conn : Handle} (member : conn ∈ k.owed) :
    (∀ other, op = .shutdown other → other.accept ≠ conn.accept) ∧
      ∀ fd, op = .erase fd → c.shared.connections.lookup fd ≠ some (some conn) := by
  by_cases listens : t = .listen
  · subst listens
    have coming : op ∈ agenda c := List.mem_append_left _ taken.first
    constructor
    · rintro other rfl same
      exact inv.spared _ coming _ rfl conn member (congrArg c.shared.socket same.symm)
    · rintro fd rfl entry
      exact inv.spared _ coming fd rfl conn member (inv.framed.numbered.pool fd conn entry).2
  · have safe := (unhindered.of_prog taken.program).2.2 listens conn (inv.mem_awaited member)
    constructor
    · rintro other rfl
      exact of_decide_eq_false safe
    · rintro fd rfl
      exact of_decide_eq_false safe

/-- The entry of a connection that is owed an offer stays. -/
theorem entry_kept (inv : Owing k c) (taken : Taken c c' t e op rest flow)
    (unhindered : Unhindered c t e) {conn : Handle} (member : conn ∈ k.owed) {fd : Nat}
    (entry : c.shared.connections.lookup fd = some (some conn)) :
    c'.shared.connections.lookup fd = some (some conn) := by
  rcases taken.rule.entry_kept entry with kept | rfl | ⟨pointer, rfl⟩
  · exact kept
  · exact absurd entry ((inv.harmless taken unhindered member).2 fd rfl)
  · have listens := inv.framed.numbered.listens t _ taken.first rfl
    have awaits : awaited c ≠ [] := List.ne_nil_of_mem (inv.mem_awaited member)
    cases ((unhindered.of_prog taken.program).2.1 listens awaits).1

/-- A step that carries the agenda on keeps the invariant. -/
theorem step_continues (inv : Owing k c) (taken : Taken c c' t e op rest flow)
    (unhindered : Unhindered c t e) (framed : Framed c') (wait : op ≠ .epollWait)
    {before after later : List Op} (continues : Continues op c c' before after later) :
    Owing (k.note op e c.shared) c' where
  framed := framed
  promised conn := by
    rw [note_count wait, continues.new, List.countP_append]
    by_cases member : conn ∈ k.owed
    · have promised := inv.promised conn
      have offers := continues.offers conn
      have kept : later.countP (fun op => op.offersTo c.shared = some conn) ≤
          later.countP fun op => op.offersTo c'.shared = some conn := by
        apply List.countP_mono_left
        intro op there offers
        apply decide_eq_true
        apply offersTo_kept (of_decide_eq_true offers)
        · apply inv.framed.finding_agenda
          rw [continues.old]
          exact List.mem_append_right _ there
        · exact fun fd entry => inv.entry_kept taken unhindered member entry
      rw [continues.old, List.countP_append] at promised
      omega
    · rw [List.count_eq_zero_of_not_mem member, Nat.zero_sub]
      exact Nat.zero_le _
  up conn member := by
    have member := note_owed wait member
    obtain ⟨accepted, up⟩ := inv.up conn member
    refine ⟨(taken.rule.numbered accepted).1, ?_⟩
    rw [taken.rule.shutdownBegan (inv.harmless taken unhindered member).1, up]
  spared new there fd down conn member := by
    have member := note_owed wait member
    rw [(taken.rule.numbered (inv.up conn member).1).2]
    rw [continues.new] at there
    rcases List.mem_append.mp there with comes | stays
    · obtain ⟨old, goes, same⟩ := continues.down new comes fd down
      apply inv.spared old _ fd same conn member
      rw [continues.old]
      exact List.mem_append_left _ goes
    · have old : new ∈ agenda c := by
        rw [continues.old]
        exact List.mem_append_right _ stays
      rw [taken.rule.takesDown_kept (inv.framed.made_agenda new old)] at down
      exact inv.spared new old fd down conn member
  missed := by
    apply note_missed wait inv.missed
    intro conn member
    exact (inv.harmless taken unhindered member).1

/-- A new batch: every report of data in it has its lookup to come. -/
theorem step_wait (inv : Owing k c) (taken : Taken c c' .listen e .epollWait rest flow)
    (unhindered : Unhindered c .listen e) (framed : Framed c')
    (executed : exec .listen .epollWait e c.shared = some (flow, c'.shared)) :
    Owing (k.note .epollWait e c.shared) c' := by
  have none : k.owed = [] := by
    apply inv.owed_eq_nil
    obtain rfl := inv.framed.turns_alone rfl taken.program
    exact inv.framed.awaited_eq_nil rfl taken.program (by rw [unread, taken.program]; rfl)
  have missed : (k.note .epollWait e c.shared).missed = [] := by
    rw [OfferHistory.note, none, inv.missed]
    rfl
  rcases epollWait_cases executed with failed | ⟨batch, ready, rfl, waited⟩
  · apply Owing.of_none framed _ missed
    rw [OfferHistory.note, failed]
    rfl
  · obtain rfl := inv.framed.turns_alone rfl taken.program
    have owed : (k.note .epollWait e c.shared).owed = batch.filterMap c.shared.reportedTo := by
      rw [OfferHistory.note, ready]
      rfl
    have quiet := (unhindered.of_prog taken.program).1 rfl
    rw [ready, Option.getD_some] at quiet
    have coming : agenda c' = .forLoop 0 batch.length :: c'.shared.upcoming batch := by
      have program : c'.prog .listen = [.forLoop 0 batch.length] := taken.self
      have unread : unreadBy [.forLoop 0 batch.length] c'.shared.events = batch := by
        rw [waited]
        exact List.take_left
      rw [agenda, ServerConfig.unread, program, unread]
      rfl
    have connections : c'.shared.connections = c.shared.connections := by rw [waited]
    have serverfd : c'.shared.serverfd = c.shared.serverfd := by rw [waited]
    -- A report with the connection it is for.
    have reports : ∀ conn ∈ (k.note .epollWait e c.shared).owed, ∃ event ∈ batch,
        c.shared.reportedTo event = some conn := by
      intro conn member
      rw [owed] at member
      exact List.mem_filterMap.mp member
    refine ⟨framed, fun conn => ?_, fun conn member => ?_, ?_, missed⟩
    · rw [owed, coming, List.countP_cons_of_neg (by simp [Op.offersTo])]
      apply count_reported _ connections serverfd
      intro event member reported
      obtain ⟨positive, alone⟩ := quiet event member reported
      exact ⟨positive, alone event member rfl⟩
    · obtain ⟨event, _, reported⟩ := reports conn member
      obtain ⟨_, _, entry, up⟩ := reportedTo_eq_some reported
      refine ⟨(taken.rule.numbered (inv.framed.numbered.pool _ conn entry).1).1, ?_⟩
      rw [taken.rule.shutdownBegan (by simp), up]
    · intro op there fd down conn member same
      rw [coming] at there
      rcases List.mem_cons.mp there with rfl | later
      · cases down
      · obtain ⟨event, member', rfl⟩ := mem_upcoming later
        obtain ⟨report, member, reported⟩ := reports conn member
        obtain ⟨_, _, entry, _⟩ := reportedTo_eq_some reported
        obtain ⟨accepted, socket⟩ := inv.framed.numbered.pool _ conn entry
        simp only [Op.takesDown] at down
        split at down
        · rename_i selects
          cases down
          rw [(taken.rule.numbered accepted).2, socket] at same
          have alone := (quiet report member (Option.isSome_iff_exists.mpr ⟨conn, reported⟩)).2
            event member' same.symm
          rw [EpollEvent.hangsUp_of_selects selects] at alone
          cases alone
        · cases down

/-- A step that meets the condition keeps the invariant. -/
theorem step (inv : Owing k c) (unhindered : Unhindered c t e)
    (succeed : ConstructorsSucceed c t e) (stepped : (server n).step t e c = some c') :
    Owing (noteOffers c t e k) c' := by
  obtain ⟨op, rest, flow, program, executed, progs⟩ := (server n).step_eq_some stepped
  have taken : Taken c c' t e op rest flow := ⟨program, rule_of_exec executed, progs⟩
  have framed := inv.framed.step taken succeed
  rw [noteOffers, program]
  by_cases wait : op = .epollWait
  · subst wait
    obtain rfl := inv.framed.numbered.listens t _ taken.first rfl
    exact inv.step_wait taken unhindered framed executed
  · by_cases listens : t = .listen
    · subst listens
      by_cases none : awaited c = []
      · have owed := inv.owed_eq_nil none
        apply Owing.of_none framed
        · apply List.eq_nil_iff_forall_not_mem.mpr
          intro conn member
          have impossible := note_owed wait member
          rw [owed] at impossible
          cases impossible
        · apply note_missed wait inv.missed
          rw [owed]
          exact nofun
      · obtain ⟨_, clear, goesOn⟩ := (unhindered.of_prog program).2.1 rfl none
        obtain ⟨ops, rfl⟩ : ∃ ops, flow = .next ops := by
          by_contra ends
          rw [taken.rule.fails fun ops next => ends ⟨ops, next⟩] at goesOn
          cases goesOn
        by_cases turns : op.turns = true
        · cases op with
          | forLoop i nfds =>
              have inside : i < nfds := by
                by_contra outside
                apply none
                apply inv.framed.awaited_eq_nil rfl program
                obtain rfl := inv.framed.turns_alone rfl program
                rw [unread, program]
                exact List.drop_eq_nil_of_le (by rw [List.length_take]; omega)
              obtain ⟨_, _, _, continues⟩ := inv.framed.continues_examine taken inside
              exact inv.step_continues taken unhindered framed wait continues
          | listenWhile =>
              obtain rfl := inv.framed.turns_alone rfl program
              exact absurd (inv.framed.awaited_eq_nil rfl program (by rw [unread, program]; rfl)) none
          | epollWait => exact absurd rfl wait
          | _ => cases turns
        · obtain ⟨_, continues⟩ :=
            inv.framed.continues_listen taken (Bool.eq_false_of_not_eq_true turns) clear
          exact inv.step_continues taken unhindered framed wait continues
    · exact inv.step_continues taken unhindered framed wait
        (inv.framed.continues_other taken listens)

theorem dataOffered (inv : Owing k c) : DataOffered k c where
  missed := inv.missed
  ended program := by
    apply inv.owed_eq_nil
    rw [awaited, agenda, unread, program]
    rfl

end Owing

/-! ### Every run -/

/-- In every run in which no constructor fails, each report of data from a live
connection is offered to the service before the connection is shut down. -/
theorem dataOffered_of_unhindered {serverfd : Nat} {ssl : Bool} {maxIdle : Int32}
    {schedule : Schedule n}
    (succeed : (server n).Along ConstructorsSucceed schedule
      (ServerConfig.init n serverfd ssl maxIdle))
    (unhindered : (server n).Along Unhindered schedule
      (ServerConfig.init n serverfd ssl maxIdle)) :
    (server n).AlwaysWith noteOffers DataOffered schedule {}
      (ServerConfig.init n serverfd ssl maxIdle) := by
  have both := succeed.and unhindered
  apply Interleaving.Machine.alwaysWith_of_invariant Owing _ _ _ both
  · intro k c t e c' inv guard stepped
    exact inv.step guard.2 guard.1 stepped
  · intro k c inv
    exact inv.dataOffered
  · exact Owing.init serverfd ssl maxIdle

/-- A client sends data and closes its end.  Both are reported in `first`, or the hang-up
after the `DataReady` task was done. -/
def reportedRun (first : UInt32) (later : Schedule 1) : Schedule 1 :=
  acceptOne 3 5 ++ steps .only 6 ++ steps .listen 1 ++
    choose .listen { ready := some [⟨5, first⟩] } ++ later

/-- Reported one after the other, the data is offered. -/
def separateRun : Schedule 1 :=
  reportedRun EPOLLIN (steps .listen 10 ++ steps .only 6 ++
    choose .listen { ready := some [⟨5, EPOLLRDHUP⟩] } ++ steps .listen 12)

theorem dataOffered_of_separate :
    (server 1).AlwaysWith noteOffers DataOffered separateRun {} (init 1 3 false (-1)) ∧
      ∃ c, (server 1).run separateRun (init 1 3 false (-1)) = some c ∧
        .called .dataReady ⟨0, 0⟩ ∈ c.shared.trace ∧ c.shared.Destroyed ⟨0, 0⟩ :=
  ⟨dataOffered_of_unhindered (by decide +kernel) (by decide +kernel), _, rfl, by decide, by decide⟩

/-- Reported together, it is never offered. -/
theorem dataOffered_fails :
    (server 1).Along ConstructorsSucceed (reportedRun (EPOLLIN ||| EPOLLRDHUP) (steps .listen 12))
        (init 1 3 false (-1)) ∧
      ¬ (server 1).AlwaysWith noteOffers DataOffered
        (reportedRun (EPOLLIN ||| EPOLLRDHUP) (steps .listen 12)) {} (init 1 3 false (-1)) ∧
      ∃ c, (server 1).run (reportedRun (EPOLLIN ||| EPOLLRDHUP) (steps .listen 12))
          (init 1 3 false (-1)) = some c ∧
        c.shared.Destroyed ⟨0, 0⟩ ∧ .called .dataReady ⟨0, 0⟩ ∉ c.shared.trace ∧
        c.shared.executor = [.connectionTerminated ⟨0, 0⟩] :=
  ⟨by decide +kernel, by decide +kernel, _, rfl, by decide, by decide, by rfl⟩

end ServerConfig

end LibSiot
