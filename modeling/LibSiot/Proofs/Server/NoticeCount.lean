/-
Module: LibSiot.Proofs.Server.NoticeCount
Purpose: How often `ConnectionTerminated` is issued for a connection, in runs in
  which the dispatch of an event, a task and an entry of the reaper's scan each
  run to their end before another thread goes on: once for each connection that
  leaves the pool by a hang-up or by idle expiry.
Trusted boundary: none
Main exports: ServerConfig.Atomic, ServerConfig.Uninterrupted,
  ServerConfig.NoticedOnce, ServerConfig.noticedOnce_of_uninterrupted
-/
import LibSiot.Proofs.Server.Batch
import LibSiot.Proofs.Server.Pool
import LibSiot.Proofs.Server.Removal

namespace LibSiot

open Interleaving (Flow)
open Interleaving.Machine (pushes AllOps total total_eq_zero pairwise_continuation
  continuation_split)

/-- The notifications of a connection that a task makes. -/
def Closure.notices (accept : Nat) : Closure → Nat
  | .connectionTerminated conn => if conn.accept = accept then 1 else 0
  | .lockCallAndUnlock .connectionTerminated conn => if conn.accept = accept then 1 else 0
  | _ => 0

namespace Op

/-- The thread is between two pieces of work: an event, a task, an entry of the scan. -/
def rests : Op → Bool
  | .listenWhile => true
  | .epollWait => true
  | .forLoop _ _ => true
  | .reapStart => true
  | .reapWait _ => true
  | .reapNext _ _ _ => true
  | .takeTask => true
  | .userCode => true
  | _ => false

/-- The same, or the thread waits in `Shutdown()` until nobody uses the connection. -/
def yields : Op → Bool
  | .lock (.connection _) => true
  | op => op.rests

/-- The notifications of a connection that an operation still has to make. -/
def notices (accept : Nat) : Op → Nat
  | .addTask task => task.notices accept
  | .call .connectionTerminated conn => if conn.accept = accept then 1 else 0
  | _ => 0

/-- The operation makes a notification, or decides on one. -/
def announces : Op → Bool
  | .addTask _ => true
  | .call .connectionTerminated _ => true
  | .reapShutdown _ => true
  | _ => false

/-- The operation is the reaper's or `DequeueConnection`'s, on one entry. -/
def removes : Op → Bool
  | .erase _ => true
  | .reapShutdown _ => true
  | _ => false

/-- The operation may come before one that removes an entry. -/
def removing : Op → Bool
  | .lock .connections => true
  | .unlock .connections _ => true
  | .erase _ => true
  | .epollDel _ => true
  | _ => false

/-- The operation may come before one that makes a notification. -/
def announcing : Op → Bool
  | .lock _ => true
  | .readLock _ => true
  | .unlock _ _ => true
  | .use _ => true
  | .shutdown _ => true
  | .deregister _ => true
  | .erase _ => true
  | .epollDel _ => true
  | .closeSocket _ => true
  | .drain _ => true
  | .drained _ => true
  | .delete _ => true
  | _ => false

theorem not_rests_of_announcing {op : Op} (announcing : op.announcing = true) :
    op.rests = false := by
  cases op <;> first | rfl | cases announcing

theorem not_rests_of_announces {op : Op} (announces : op.announces = true) :
    op.rests = false := by
  cases op <;> first | rfl | cases announces

theorem not_yields_of_removing {op : Op} (removing : op.removing = true) :
    op.yields = false := by
  cases op with
  | lock name => cases name <;> first | rfl | cases removing
  | _ => first | rfl | cases removing

/-- What makes a notification goes on at once, and an exception skips it. -/
theorem not_yields_of_notices {op : Op} {accept : Nat} (notices : op.notices accept ≠ 0) :
    op.yields = false ∧ op.survives = false ∧ op.announces = true := by
  cases op with
  | addTask => exact ⟨rfl, rfl, rfl⟩
  | call callback conn => cases callback <;> first | exact ⟨rfl, rfl, rfl⟩ | exact absurd rfl notices
  | _ => exact absurd rfl notices

theorem not_yields_of_removes {op : Op} (removes : op.removes = true) : op.yields = false := by
  cases op <;> first | rfl | cases removes

end Op

/-- The event is a hang-up or an expiry of a connection. -/
def Event.announces (accept : Nat) : Event → Bool
  | .hangup conn => conn.accept = accept
  | .expired conn => conn.accept = accept
  | _ => false

/-- The event is a call of `ConnectionTerminated` for a connection. -/
def Event.notices (accept : Nat) : Event → Bool
  | .called .connectionTerminated conn => conn.accept = accept
  | _ => false

namespace ServerState

variable {n : Nat} {t : Tid n} {e : Choice} {s s' : ServerState n} {op : Op}
  {flow : Flow Op}

/-- The notifications queued or made for a connection. -/
def notices (accept : Nat) (s : ServerState n) : Nat :=
  (s.executor.map (Closure.notices accept)).sum + s.trace.countP (Event.notices accept)

/-- How often a connection was hung up or expired. -/
def announced (accept : Nat) (s : ServerState n) : Nat :=
  s.trace.countP (Event.announces accept)

/-! ### One step -/

/-- A task does what was queued. -/
theorem sum_taskOps (accept : Nat) (task : Closure) :
    ((taskOps task ++ [Op.takeTask]).map (Op.notices accept)).sum = task.notices accept := by
  cases task with
  | lockCallAndUnlock callback conn =>
      cases callback <;> simp [taskOps, Op.notices, Closure.notices]
  | connectionTerminated conn => simp [taskOps, Op.notices, Closure.notices]
  | shutdown conn => rfl

theorem sum_shutdownBody_notices (accept : Nat) (conn : Handle) :
    ((s.shutdownBody conn).map (Op.notices accept)).sum = 0 := by
  apply List.sum_eq_zero
  intro weight member
  obtain ⟨op, inside, rfl⟩ := List.mem_map.mp member
  rcases mem_shutdownBody inside with rfl | rfl | rfl | ⟨_, rfl, _⟩ | rfl <;> rfl

theorem sum_dequeueOps_notices (accept : Nat) (fds : List Nat) :
    ((fds.flatMap dequeueOps).map (Op.notices accept)).sum = 0 := by
  apply List.sum_eq_zero
  intro weight member
  obtain ⟨op, inside, rfl⟩ := List.mem_map.mp member
  obtain ⟨fd, _, rfl | rfl | rfl | rfl⟩ := mem_dequeueOps inside <;> rfl

/-- A notification comes from a hang-up or an expiry, and passes through the queue. -/
theorem Rule.notices_eq (rule : Rule t e s op flow s') (accept : Nat) :
    s'.notices accept + ((pushes flow).map (Op.notices accept)).sum + s.announced accept =
      s.notices accept + op.notices accept + s'.announced accept := by
  cases rule with
  | takeTask task tasks queue =>
      have taken : (s.executor.map (Closure.notices accept)).sum =
          task.notices accept + (tasks.map (Closure.notices accept)).sum := by
        rw [queue, List.map_cons, List.sum_cons]
      simp only [pushes, sum_taskOps, notices, announced, taken, Op.notices]
      omega
  | addTask task =>
      simp only [notices, announced, pushes, Op.notices, List.map_append, List.map_cons,
        List.map_nil, List.sum_append, List.sum_cons, List.sum_nil]
      omega
  | lookupHangup fd events conn entry selects =>
      simp only [notices, announced, record, pushes, List.countP_cons, Event.notices,
        Event.announces, Op.notices, Closure.notices, List.map_cons, List.map_nil, List.sum_cons,
        List.sum_nil, decide_eq_true_eq, Bool.false_eq_true, if_false]
      omega
  | reapExpired conn up =>
      simp only [notices, announced, record, pushes, List.countP_cons, Event.notices,
        Event.announces, Op.notices, List.map_cons, List.map_nil, List.sum_cons, List.sum_nil,
        decide_eq_true_eq, Bool.false_eq_true, if_false]
      omega
  | call callback conn =>
      cases callback <;>
        simp only [notices, announced, record, pushes, List.countP_cons, Event.notices,
          Event.announces, Op.notices, List.map_cons, List.map_nil, List.sum_cons, List.sum_nil,
          decide_eq_true_eq, Bool.false_eq_true, if_false] <;> omega
  | callbackDefers | userDefers =>
      simp only [notices, announced, record, pushes, List.countP_cons, Event.notices,
        Event.announces, Op.notices, Closure.notices, List.map_append, List.map_cons,
        List.map_nil, List.sum_append, List.sum_cons, List.sum_nil, Bool.false_eq_true, if_false]
      omega
  | shutdown conn =>
      simp only [pushes, sum_shutdownOps (Op.notices accept) conn rfl rfl,
        sum_shutdownBody_notices]
      rfl
  | deregister conn =>
      simp only [pushes, sum_dequeueOps_notices]
      rfl
  | callbackUses callback conn other =>
      simp only [pushes, sum_useOps (Op.notices accept) other _ _ rfl rfl rfl]
      rfl
  | drain conn =>
      simp only [pushes, sum_useOps (Op.notices accept) conn _ _ rfl rfl rfl]
      rfl
  | userUses other =>
      simp only [pushes, sum_useOps (Op.notices accept) other _ _ rfl rfl rfl]
      rfl
  | _ => rfl

theorem none_announces {ops : List Op} {new : Op}
    (quiet : ops.all (fun new => !new.announces) = true) (member : new ∈ ops) (accept : Nat) :
    new.notices accept = 0 := by
  have none := List.all_eq_true.mp quiet new member
  cases new with
  | addTask task => cases none
  | call callback conn => cases callback <;> first | rfl | cases none
  | _ => rfl

/-- What is pushed keeps removals behind what may come before them. -/
theorem Rule.removals_ordered (rule : Rule t e s op flow s') :
    (pushes flow).Pairwise fun a b => b.removes = true → a.removing = true := by
  have none : (pushes flow).any Op.removes = false →
      (pushes flow).Pairwise fun a b => b.removes = true → a.removing = true := by
    intro quiet
    apply List.pairwise_of_forall_mem_list
    intro a _ b member removes
    exact absurd removes (List.any_eq_false.mp quiet b member)
  cases rule with
  | reapDue => simp [pushes, Op.removes, Op.removing]
  | deregister conn =>
      apply List.pairwise_of_forall_mem_list
      intro a member b _ _
      obtain ⟨fd, _, rfl | rfl | rfl | rfl⟩ := mem_dequeueOps member <;> rfl
  | takeTask task =>
      apply none
      cases task <;> rfl
  | shutdown conn =>
      apply none
      apply List.any_eq_false.mpr
      intro op member
      rcases mem_shutdownOps member with rfl | rfl | member | rfl
      · exact Bool.false_ne_true
      · exact Bool.false_ne_true
      · rcases mem_shutdownBody member with rfl | rfl | rfl | ⟨_, rfl, _⟩ | rfl <;>
          exact Bool.false_ne_true
      · exact Bool.false_ne_true
  | callbackUses | drain | userUses =>
      exact none (List.any_eq_false.mpr (forall_useOps Bool.false_ne_true Bool.false_ne_true
        Bool.false_ne_true (List.forall_mem_singleton.mpr Bool.false_ne_true)))
  | _ => exact none rfl

/-- What may come before a removal pushes nothing. -/
theorem Rule.removing_pushes (rule : Rule t e s op flow s') (removing : op.removing = true) :
    pushes flow = [] := by
  cases rule with
  | lock | unlock | erase | epollDel | epollDelFailed | epollDelThrew => rfl
  | readLock name => cases name <;> cases removing
  | _ => cases removing

theorem shutdown_quiet (conn : Handle) :
    (s.shutdownOps conn).all (fun new => !new.announces) = true := by
  apply List.all_eq_true.mpr
  intro op member
  rcases mem_shutdownOps member with rfl | rfl | member | rfl
  · rfl
  · rfl
  · rcases mem_shutdownBody member with rfl | rfl | rfl | ⟨_, rfl, _⟩ | rfl <;> rfl
  · rfl

theorem useOps_quiet (conn : Handle) {calls : Nat} {last : Op} (quiet : last.announces = false) :
    (s.useOps conn calls ++ [last]).all (fun new => !new.announces) = true :=
  List.all_eq_true.mpr (forall_useOps rfl rfl rfl
    (List.forall_mem_singleton.mpr ((Bool.not_eq_true' _).mpr quiet)))

theorem dequeueOps_quiet (fds : List Nat) :
    (fds.flatMap dequeueOps).all (fun new => !new.announces) = true := by
  apply List.all_eq_true.mpr
  intro op member
  obtain ⟨fd, _, rfl | rfl | rfl | rfl⟩ := mem_dequeueOps member <;> rfl

/-- What is pushed keeps notices behind what may come before them. -/
theorem Rule.notices_ordered (rule : Rule t e s op flow s') :
    (pushes flow).Pairwise fun a b => b.announces = true → a.announcing = true := by
  have none : (pushes flow).all (fun new => !new.announces) = true →
      (pushes flow).Pairwise fun a b => b.announces = true → a.announcing = true := by
    intro quiet
    apply List.pairwise_of_forall_mem_list
    intro a _ b member announces
    have silent := List.all_eq_true.mp quiet b member
    rw [announces] at silent
    cases silent
  cases rule with
  | registered | indeterminateRegistered | lookupHangup | lookupError | found | reapDue
  | reapExpired => simp [pushes, lockAndAdd, Op.announces, Op.announcing]
  | takeTask task =>
      cases task with
      | lockCallAndUnlock callback conn =>
          simp [pushes, taskOps, Op.announces, Op.announcing]
      | connectionTerminated | shutdown => simp [pushes, taskOps, Op.announces, Op.announcing]
  | shutdown conn => exact none (shutdown_quiet conn)
  | deregister conn => exact none (dequeueOps_quiet _)
  | callbackUses | drain | userUses => exact none (useOps_quiet _ rfl)
  | _ => exact none rfl

/-- What may come before a notice pushes nothing else. -/
theorem Rule.announcing_pushes (rule : Rule t e s op flow s')
    (announcing : op.announcing = true) : ∀ new ∈ pushes flow, new.announcing = true := by
  intro new member
  cases rule with
  | shutdown conn =>
      rcases mem_shutdownOps member with rfl | rfl | member | rfl
      · rfl
      · rfl
      · rcases mem_shutdownBody member with rfl | rfl | rfl | ⟨_, rfl, _⟩ | rfl <;> rfl
      · rfl
  | drain conn =>
      rcases mem_useOps_append member with rfl | rfl | rfl | rfl <;> rfl
  | deregister conn =>
      obtain ⟨fd, _, rfl | rfl | rfl | rfl⟩ := mem_dequeueOps member <;> rfl
  | use | lock | readLock | unlock | erase | epollDel | epollDelFailed | epollDelThrew | closeSocket
  | drained | drainThrew | delete => cases member
  | _ => cases announcing

/-- Where a notification stands among what is pushed: at the front, or behind the
`Shutdown()` of a connection that expires. -/
theorem Rule.notice_split (rule : Rule t e s op flow s') {pre between : List Op} {new : Op}
    (pushed : pushes flow = pre ++ new :: between) {accept : Nat}
    (notices : new.notices accept ≠ 0) :
    pre = [] ∨ pre = [.readLock .connections] ∨
      op.reaps = true ∧ ∃ conn : Handle, conn.accept = accept ∧ .expired conn ∈ s'.trace := by
  have quiet : ∀ {ops pre' : List Op}, ops = pre' ++ new :: between →
      ops.all (fun op => !op.announces) = true → False := fun split silent =>
    notices (none_announces silent (split ▸ List.mem_append_right _ List.mem_cons_self) accept)
  have member : new ∈ pushes flow := pushed ▸ List.mem_append_right _ List.mem_cons_self
  cases rule with
  | registered | indeterminateRegistered | lookupError | found | reapDue =>
      simp only [pushes, lockAndAdd, List.cons_append, List.nil_append, List.mem_cons,
        List.not_mem_nil, or_false] at member
      rcases member with rfl | rfl | rfl | rfl <;> exact absurd rfl notices
  | lookupHangup fd events conn =>
      rcases pre with _ | ⟨first, pre⟩
      · exact Or.inl rfl
      · exact (quiet (List.cons.inj pushed).2 rfl).elim
  | reapExpired conn up =>
      refine Or.inr (Or.inr ⟨rfl, conn, ?_, List.mem_cons_self⟩)
      by_contra other
      simp only [pushes, List.mem_cons, List.not_mem_nil, or_false] at member
      rcases member with rfl | rfl
      · exact notices rfl
      · exact notices (if_neg other)
  | takeTask task =>
      cases task with
      | lockCallAndUnlock callback conn =>
          rcases pre with _ | ⟨first, _ | ⟨second, pre⟩⟩
          · exact Or.inl rfl
          · rw [← (List.cons.inj pushed).1]
            exact Or.inr (Or.inl rfl)
          · exact (quiet (List.cons.inj (List.cons.inj pushed).2).2 rfl).elim
      | connectionTerminated conn =>
          rcases pre with _ | ⟨first, pre⟩
          · exact Or.inl rfl
          · exact (quiet (List.cons.inj pushed).2 rfl).elim
      | shutdown conn => exact (quiet pushed rfl).elim
  | shutdown conn => exact (quiet pushed (shutdown_quiet conn)).elim
  | deregister conn => exact (quiet pushed (dequeueOps_quiet _)).elim
  | callbackUses | drain | userUses => exact (quiet pushed (useOps_quiet _ rfl)).elim
  | _ => exact (quiet pushed rfl).elim

/-- What a step adds to the history, for the events that matter here. -/
structure RecordedBy (event : Event) (op : Op) (flow : Flow Op) (s : ServerState n) : Prop where
  hangup : ∀ conn, event = .hangup conn → ∃ fd events, op = .lookup fd events ∧
    s.connections.lookup fd = some (some conn) ∧
      flow = .next [.addTask (.connectionTerminated conn), .shutdown conn]
  expired : ∀ conn, event = .expired conn → op = .reapShutdown conn
  dequeued : ∀ fd, event = .dequeued fd → op = .erase fd

/-- A step adds at most one event. -/
theorem Rule.recorded (rule : Rule t e s op flow s') :
    s'.trace = s.trace ∨ ∃ event, s'.trace = event :: s.trace ∧ RecordedBy event op flow s := by
  cases rule with
  | lookupHangup fd events conn entry selects =>
      refine Or.inr ⟨_, rfl, ?_, nofun, nofun⟩
      rintro _ ⟨rfl⟩
      exact ⟨fd, events, rfl, entry, rfl⟩
  | reapExpired conn up =>
      refine Or.inr ⟨_, rfl, nofun, ?_, nofun⟩
      rintro _ ⟨rfl⟩
      rfl
  | erase fd =>
      refine Or.inr ⟨_, rfl, nofun, nofun, ?_⟩
      rintro _ ⟨rfl⟩
      rfl
  | constructorThrew | decoratedNull | decorated | indeterminateDecorated | call
  | callbackDefers | shutdown | delete | userDefers =>
      exact Or.inr ⟨_, rfl, nofun, nofun, nofun⟩
  | _ => exact Or.inl rfl

/-- Where an event stands in a history that grew by one. -/
theorem split_history {event new : Event} {trace later before : List Event}
    (split : new :: trace = later ++ event :: before) :
    (new = event ∧ before = trace) ∨ ∃ later', trace = later' ++ event :: before := by
  cases later with
  | nil =>
      cases split
      exact Or.inl ⟨rfl, rfl⟩
  | cons first later => exact Or.inr ⟨later, (List.cons.inj split).2⟩

/-- The history tells which connections are in the pool. -/
def Told (s : ServerState n) : Prop :=
  ∀ fd, (s.connections.lookup fd).join = current s.trace fd

theorem setConnection_told {fd : Nat} {stored : Option Handle} (told : Told s) :
    Told (s.setConnection fd stored) := by
  intro fd'
  simp only [setConnection, record, OrderedMap.lookup_insert, current]
  split
  · rfl
  · exact told fd'

/-- A null entry is as good as none. -/
theorem join_insert_none {fd : Nat} (missing : s.connections.lookup fd = none) (fd' : Nat) :
    ((s.connections.insert fd none).lookup fd').join = (s.connections.lookup fd').join := by
  rw [OrderedMap.lookup_insert]
  split
  · rename_i same
    rw [same, missing]
    rfl
  · rfl

theorem subscript_told {fd : Nat} (told : Told s) : Told (s.subscript fd) := by
  intro fd'
  refine Eq.trans ?_ (told fd')
  rw [subscript]
  split
  · rename_i missing
    exact join_insert_none (Option.isNone_iff_eq_none.mp missing) fd'
  · rfl

theorem Rule.told (rule : Rule t e s op flow s') (told : Told s) : Told s' := by
  cases rule with
  | decoratorsThrew | indeterminateThrew => exact subscript_told told
  | decoratedNull | decorated | indeterminateDecorated => exact setConnection_told told
  | lookupMissing fd events missing =>
      exact fun fd' => (join_insert_none missing fd').trans (told fd')
  | erase fd =>
      intro fd'
      simp only [record, OrderedMap.lookup_erase, current]
      split
      · rfl
      · exact told fd'
  | _ => exact told

/-- An object is marked as shut down by its own `Deregister()`. -/
theorem Rule.isShutdown (rule : Rule t e s op flow s') {conn : Handle}
    (down : s'.isShutdown conn = true) : s.isShutdown conn = true ∨ op = .deregister conn := by
  cases rule with
  | deregister other =>
      by_cases same : conn = other
      · exact Or.inr (by rw [same])
      · exact Or.inl ((Function.update_of_ne same ..).symm.trans down)
  | _ => exact Or.inl down

/-- `Deregister()` comes after the start of `Shutdown()`. -/
theorem Rule.deregisters (rule : Rule t e s op flow s') {conn : Handle}
    (member : .deregister conn ∈ pushes flow) : .shutdownStarted conn ∈ s'.trace := by
  have tears : Op.tears (.deregister conn) = some conn := rfl
  cases rule with
  | shutdown other =>
      rcases mem_shutdownOps member with impossible | same | member | impossible
      · cases impossible
      · cases same
        exact List.mem_cons_self
      · rcases mem_shutdownBody member with impossible | impossible | impossible |
          ⟨_, impossible, _⟩ | impossible <;> cases impossible
      · cases impossible
  | callbackUses | drain | userUses =>
      rcases mem_useOps_append member with impossible | impossible | impossible | impossible <;>
        cases impossible
  | takeTask task =>
      cases task <;> simp [pushes, taskOps] at member
  | deregister other =>
      obtain ⟨fd, _, impossible | impossible | impossible | impossible⟩ :=
        mem_dequeueOps member <;> cases impossible
  | lookupHangup | reapExpired => simp [pushes] at member
  | _ => exact absurd tears (ne_some_of_all rfl member)

/-- Who erases an entry: `Deregister()` of the connection in it, or the reaper. -/
theorem Rule.erases (rule : Rule t e s op flow s') {pre between : List Op} {fd : Nat}
    (pushed : pushes flow = pre ++ .erase fd :: between) :
    s'.connections = s.connections ∧ s'.trace = s.trace ∧
      ∃ conn, s.connections.lookup fd = some (some conn) ∧ (op = .deregister conn ∨
        ∃ post, between = .epollDel fd :: .reapShutdown conn :: post) := by
  have removes : Op.removes (.erase fd) = true := rfl
  have member : .erase fd ∈ pushes flow := pushed ▸ List.mem_append_right _ List.mem_cons_self
  cases rule with
  | reapDue maxIdle tm after fd' conn entry due =>
      have there : fd = fd' := by simpa [pushes] using member
      subst there
      obtain ⟨_, rfl⟩ := split_first (by simp) pushed
      exact ⟨rfl, rfl, conn, (OrderedMap.lookup_of_next entry).1, Or.inr ⟨_, rfl⟩⟩
  | deregister conn =>
      obtain ⟨fd', key, impossible | same | impossible | impossible⟩ := mem_dequeueOps member
      · cases impossible
      · cases same
        obtain ⟨value, entry, same⟩ := OrderedMap.mem_keysWhere.mp key
        exact ⟨rfl, rfl, conn, by rw [entry, of_decide_eq_true same], Or.inl rfl⟩
      · cases impossible
      · cases impossible
  | takeTask task =>
      cases task <;> simp [pushes, taskOps] at member
  | shutdown conn =>
      rcases mem_shutdownOps member with impossible | impossible | member | impossible
      · cases impossible
      · cases impossible
      · rcases mem_shutdownBody member with impossible | impossible | impossible |
          ⟨_, impossible, _⟩ | impossible <;> cases impossible
      · cases impossible
  | callbackUses | drain | userUses =>
      rcases mem_useOps_append member with impossible | impossible | impossible | impossible <;>
        cases impossible
  | _ => exact absurd removes (List.any_eq_false.mp rfl _ member)

/-! ### Operations on the way to a notice -/

theorem Rule.epollDel_state {fd : Nat} (rule : Rule t e s (.epollDel fd) flow s') :
    pushes flow = [] ∧ s'.trace = s.trace ∧ s'.connections = s.connections ∧
      s'.nextAccept = s.nextAccept := by
  cases rule <;> exact ⟨rfl, rfl, rfl, rfl⟩

theorem Rule.expires {conn : Handle} (rule : Rule t e s (.reapShutdown conn) flow s')
    (up : s.isShutdownOf conn = false) : .expired conn ∈ s'.trace := by
  cases rule with
  | reapIsShutdown conn down =>
      rw [up] at down
      cases down
  | reapExpired => exact List.mem_cons_self

end ServerState

namespace ServerConfig

open ServerState

variable {n : Nat}

/-! ### The property and its condition -/

/-- The step is of a thread while all others are between two pieces of work, or wait
in `Shutdown()` until nobody uses the connection. -/
def Atomic (c : ServerConfig n) (t : Tid n) (_ : Choice) : Prop :=
  ∀ t' ≠ t, ∀ op ∈ (c.prog t').head?, op.yields = true

instance (c : ServerConfig n) (t : Tid n) (e : Choice) : Decidable (Atomic c t e) :=
  inferInstanceAs (Decidable (∀ t' ≠ t, ∀ op ∈ (c.prog t').head?, op.yields = true))

/-- No thread is inside a piece of work, but for the wait in `Shutdown()`. -/
def Between (c : ServerConfig n) : Prop :=
  ∀ t, ∀ op ∈ (c.prog t).head?, op.yields = true

instance (c : ServerConfig n) : Decidable (Between c) :=
  inferInstanceAs (Decidable (∀ t, ∀ op ∈ (c.prog t).head?, op.yields = true))

/-- The reaper is not at work on an entry. -/
def ReaperRests (c : ServerConfig n) : Prop :=
  ∀ op ∈ (c.prog .reaper).head?, op.rests = true

instance (c : ServerConfig n) : Decidable (ReaperRests c) :=
  inferInstanceAs (Decidable (∀ op ∈ (c.prog .reaper).head?, op.rests = true))

/-- No exception ends the step while its thread has still to tell about a connection
that it has taken from the pool, or to decide on that. -/
def Uninterrupted (c : ServerConfig n) (t : Tid n) (e : Choice) : Prop :=
  match c.prog t with
  | [] => True
  | op :: rest => op.fails e c.shared = true → ∀ later ∈ rest, later.announces = false

instance (c : ServerConfig n) (t : Tid n) (e : Choice) : Decidable (Uninterrupted c t e) :=
  match program : c.prog t with
  | [] => isTrue (by simp [Uninterrupted, program])
  | op :: rest =>
      decidable_of_iff (op.fails e c.shared = true → ∀ later ∈ rest, later.announces = false)
        (by simp [Uninterrupted, program])

/-- `ConnectionTerminated` is issued at most once for each connection: once for a hang-up
and once for an idle expiry of a connection that was not shut down, and for nothing
else; and the connection was in the pool. -/
structure NoticedOnce (c : ServerConfig n) : Prop where
  told : Told c.shared
  atMostOnce : ∀ accept, c.shared.notices accept ≤ 1
  announced : ∀ accept, c.shared.notices accept ≤ c.shared.announced accept
  hangups : ∀ later conn before, c.shared.trace = later ++ .hangup conn :: before →
    ∃ fd, current before fd = some conn
  expiries : ∀ later conn before, c.shared.trace = later ++ .expired conn :: before →
    ∃ fd earlier, before = .dequeued fd :: earlier ∧ current earlier fd = some conn
  hungUp : Between c → ∀ conn, .hangup conn ∈ c.shared.trace →
    c.shared.notices conn.accept = 1 ∧
      ∀ fd other, c.shared.connections.lookup fd = some (some other) →
        other.accept ≠ conn.accept
  /-- Nobody had begun to shut the connection down when it was erased. -/
  expired : Between c → ReaperRests c → ∀ later fd before conn,
    c.shared.trace = later ++ .dequeued fd :: before → current before fd = some conn →
      .shutdownStarted conn ∉ before → .shutdownStarted { conn with level := 0 } ∉ before →
        c.shared.notices conn.accept = 1

/-! ### The invariant -/

/-- What the reaper does before it decides on a connection: it erases the entry, and
nobody tells about the connection in between. -/
inductive Reaping (s : ServerState n) (conn : Handle) : List Op → Prop where
  | erasing (fd : Nat) (entry : s.connections.lookup fd = some (some conn))
      (accepted : conn.accept < s.nextAccept) (unannounced : s.announced conn.accept = 0) :
      Reaping s conn [.erase fd, .epollDel fd]
  | erased (fd : Nat) (earlier : List Event) (before : List Op)
      (short : before = [.epollDel fd] ∨ before = [])
      (trace : s.trace = .dequeued fd :: earlier) (registered : current earlier fd = some conn)
      (gone : ∀ fd' other, s.connections.lookup fd' = some (some other) →
        other.accept ≠ conn.accept)
      (accepted : conn.accept < s.nextAccept) (unannounced : s.announced conn.accept = 0) :
      Reaping s conn before

/-- The invariant behind the count. -/
structure Counted (c : ServerConfig n) : Prop where
  numbered : Numbered c
  removals : ∀ t, (c.prog t).Pairwise fun a b => b.removes = true → a.removing = true
  notices : ∀ t, (c.prog t).Pairwise fun a b => b.announces = true → a.announcing = true
  reaper : AllOps (fun _ t op => op.reaps = true → t = .reaper) c
  placed : ∀ t pre op post accept, c.prog t = pre ++ op :: post → op.notices accept ≠ 0 →
    pre = [] ∨ pre = [.readLock .connections] ∨
      t = .reaper ∧ ∃ conn : Handle, conn.accept = accept ∧ .expired conn ∈ c.shared.trace
  issued : ∀ accept, c.shared.notices accept + total (Op.notices accept) c.prog =
    c.shared.announced accept
  single : ∀ accept, c.shared.announced accept ≤ 1
  made : ∀ accept, c.shared.announced accept ≠ 0 → accept < c.shared.nextAccept
  unannounced : AllOps (fun s _ op => ∀ fd raw, op = .addDecorators fd (.constructed raw) →
    s.announced raw.accept = 0) c
  told : Told c.shared
  going : ∀ fd conn, c.shared.connections.lookup fd = some (some conn) →
    c.shared.announced conn.accept ≠ 0 → ∃ t, Going fd conn (c.prog t)
  reaping : ∀ t pre conn post, c.prog t = pre ++ .reapShutdown conn :: post →
    Reaping c.shared conn pre
  erasing : ∀ t pre fd post, c.prog t = pre ++ .erase fd :: post → ∀ conn,
    c.shared.connections.lookup fd = some (some conn) →
      .shutdownStarted conn ∈ c.shared.trace ∨
        ∃ post', post = .epollDel fd :: .reapShutdown conn :: post'
  deregisters : AllOps (fun s _ op => ∀ conn, op = .deregister conn →
    .shutdownStarted conn ∈ s.trace) c
  marked : ∀ conn, c.shared.isShutdown conn = true → .shutdownStarted conn ∈ c.shared.trace
  expiring : ∀ later fd before conn, c.shared.trace = later ++ .dequeued fd :: before →
    current before fd = some conn → .shutdownStarted conn ∉ before →
      .shutdownStarted { conn with level := 0 } ∉ before →
        .expired conn ∈ c.shared.trace ∨
          ∃ t, .reapShutdown conn ∈ c.prog t ∧ c.shared.isShutdownOf conn = false
  hangups : ∀ later conn before, c.shared.trace = later ++ .hangup conn :: before →
    ∃ fd, current before fd = some conn
  expiries : ∀ later conn before, c.shared.trace = later ++ .expired conn :: before →
    ∃ fd earlier, before = .dequeued fd :: earlier ∧ current earlier fd = some conn

theorem Counted.init (serverfd : Nat) (ssl : Bool) (maxIdle : Int32) :
    Counted (init n serverfd ssl maxIdle) where
  numbered := Numbered.init serverfd ssl maxIdle
  removals t := by
    cases t with
    | reaper => simp [ServerConfig.init, Op.removes]
    | _ => exact List.pairwise_singleton _ _
  notices t := by
    cases t with
    | reaper => simp [ServerConfig.init, Op.announces]
    | _ => exact List.pairwise_singleton _ _
  reaper := forall_init nofun (fun _ => rfl) (fun _ => nofun) nofun
  placed t pre op post accept split notices := by
    have member : op ∈ (ServerConfig.init n serverfd ssl maxIdle).prog t :=
      split ▸ List.mem_append_right _ List.mem_cons_self
    exact absurd (forall_init (P := fun _ op => op.notices accept = 0)
      rfl rfl (fun _ => rfl) rfl t op member) notices
  issued accept := by
    have none : total (Op.notices accept) (ServerConfig.init n serverfd ssl maxIdle).prog = 0 :=
      total_eq_zero (forall_init rfl rfl (fun _ => rfl) rfl)
    rw [none]
    rfl
  single accept := Nat.zero_le 1
  made accept announced := absurd rfl announced
  unannounced := forall_init nofun nofun (fun _ => nofun) nofun
  told fd := rfl
  going fd conn entry := by cases entry
  reaping t pre conn post split := absurd split (init_prog_ne rfl)
  erasing t pre fd post split conn entry := by cases entry
  deregisters := forall_init nofun nofun (fun _ => nofun) nofun
  marked conn down := by cases down
  expiring later fd before conn split := by
    simp [ServerConfig.init, ServerState.init] at split
  hangups later conn before split := by
    simp [ServerConfig.init, ServerState.init] at split
  expiries later conn before split := by
    simp [ServerConfig.init, ServerState.init] at split

variable {c c' : ServerConfig n} {t : Tid n} {e : Choice} {op : Op} {rest : List Op}
  {flow : Flow Op}

/-! ### Who takes a step -/

/-- What a thread is about to do that waits for nothing. -/
theorem Going.not_yields {fd : Nat} {conn : Handle} {ops : List Op} (going : Going fd conn ops) :
    ∃ op ∈ ops.head?, op.yields = false := by
  cases going <;> exact ⟨_, rfl, rfl⟩

namespace Counted

/-- While a thread is about to take an entry from the pool, no other takes a step. -/
theorem going_self (atomic : Atomic c t e) {t' : Tid n} {fd : Nat} {conn : Handle}
    (going : Going fd conn (c.prog t')) : t' = t := by
  by_contra other
  obtain ⟨op, first, yields⟩ := going.not_yields
  rw [atomic t' other op first] at yields
  cases yields

/-- The same while it removes one. -/
theorem removes_self (inv : Counted c) (atomic : Atomic c t e) {t' : Tid n} {op' : Op}
    (removes : op'.removes = true) (member : op' ∈ c.prog t') : t' = t := by
  by_contra other
  have removals := inv.removals t'
  cases program : c.prog t' with
  | nil =>
      rw [program] at member
      cases member
  | cons first others =>
      have yields := atomic t' other first (by rw [program]; rfl)
      rw [program] at member removals
      rcases List.mem_cons.mp member with rfl | later
      · rw [Op.not_yields_of_removes removes] at yields
        cases yields
      · rw [Op.not_yields_of_removing ((List.pairwise_cons.mp removals).1 op' later removes)]
          at yields
        cases yields

/-- The same while it registers a connection. -/
theorem adds_self (inv : Counted c) (atomic : Atomic c t e) {t' : Tid n} {fd : Nat}
    {pointer : Pointer} (member : .addDecorators fd pointer ∈ c.prog t') : t' = t := by
  by_contra other
  have ordered := inv.numbered.ordered t'
  cases program : c.prog t' with
  | nil =>
      rw [program] at member
      cases member
  | cons first others =>
      have yields := atomic t' other first (by rw [program]; rfl)
      rw [program] at member ordered
      rcases List.mem_cons.mp member with rfl | later
      · cases yields
      · have lock : first = .lock .connections :=
          of_decide_eq_true ((List.pairwise_cons.mp ordered).1 _ later)
        rw [lock] at yields
        cases yields

/-- What is left of a step that does not fail is left to the thread. -/
theorem left_of_uninterrupted (taken : Taken c c' t e op rest flow)
    (uninterrupted : Uninterrupted c t e) {later : Op} (member : later ∈ rest)
    (announces : later.announces = true) : ∃ ops, flow = .next ops := by
  by_contra ends
  rw [Uninterrupted, taken.program] at uninterrupted
  have fails := taken.rule.fails fun ops same => ends ⟨ops, same⟩
  rw [uninterrupted fails later member] at announces
  cases announces

theorem step_issued (inv : Counted c) (taken : Taken c c' t e op rest flow)
    (uninterrupted : Uninterrupted c t e) (accept : Nat) :
    c'.shared.notices accept + total (Op.notices accept) c'.prog =
      c'.shared.announced accept := by
  have moved : total (Op.notices accept) c'.prog + op.notices accept =
      total (Op.notices accept) c.prog + ((pushes flow).map (Op.notices accept)).sum := by
    apply Interleaving.Machine.total_step_eq _ taken.program taken.progs
    by_cases announces : ∃ later ∈ rest, later.announces = true
    · obtain ⟨later, member, announces⟩ := announces
      exact Or.inl (left_of_uninterrupted taken uninterrupted member announces)
    · right
      intro later member
      have quiet : later.announces = false :=
        Bool.eq_false_of_not_eq_true fun some => announces ⟨later, member, some⟩
      have none : [later].all (fun new => !new.announces) = true := by simp [quiet]
      exact none_announces none List.mem_cons_self accept
  have rule := taken.rule.notices_eq accept
  have before := inv.issued accept
  omega

/-- What a step announces was announced before, or is what its operation is about. -/
theorem announced_cases (taken : Taken c c' t e op rest flow) (accept : Nat) :
    c'.shared.announced accept = c.shared.announced accept ∨
      c'.shared.announced accept = c.shared.announced accept + 1 ∧ ∃ conn : Handle,
        conn.accept = accept ∧
          ((∃ fd events, op = .lookup fd events ∧
            c.shared.connections.lookup fd = some (some conn) ∧
              flow = .next [.addTask (.connectionTerminated conn), .shutdown conn]) ∨
            op = .reapShutdown conn) := by
  rcases taken.rule.recorded with same | ⟨event, grown, by_⟩
  · left
    rw [announced, same]
    rfl
  · by_cases announces : event.announces accept = true
    · right
      refine ⟨?_, ?_⟩
      · rw [announced, grown, List.countP_cons, if_pos announces]
        rfl
      · cases event with
        | hangup conn => exact ⟨conn, of_decide_eq_true announces, Or.inl (by_.hangup conn rfl)⟩
        | expired conn => exact ⟨conn, of_decide_eq_true announces, Or.inr (by_.expired conn rfl)⟩
        | _ => cases announces
    · left
      rw [announced, grown, List.countP_cons, if_neg announces]
      rfl

/-- A connection that is told about was not before. -/
theorem unannounced_of_lookup (inv : Counted c) (atomic : Atomic c t e)
    (taken : Taken c c' t e op rest flow) {fd fd' : Nat} {events : UInt32} {conn : Handle}
    (looks : op = .lookup fd' events)
    (entry : c.shared.connections.lookup fd = some (some conn)) :
    c.shared.announced conn.accept = 0 := by
  by_contra announced
  obtain ⟨t', going⟩ := inv.going fd conn entry announced
  obtain rfl := going_self atomic going
  rw [taken.program, looks] at going
  cases going

theorem step_single (inv : Counted c) (atomic : Atomic c t e)
    (taken : Taken c c' t e op rest flow) (accept : Nat) : c'.shared.announced accept ≤ 1 := by
  rcases announced_cases taken accept with same | ⟨more, conn, rfl, ⟨fd, events, looks, entry, _⟩ |
    rfl⟩
  · rw [same]
    exact inv.single accept
  · rw [more, inv.unannounced_of_lookup atomic taken looks entry]
  · have unannounced : c.shared.announced conn.accept = 0 := by
      cases inv.reaping t [] conn rest taken.program with
      | erased fd earlier before short trace registered gone accepted unannounced =>
          exact unannounced
    rw [more, unannounced]

theorem step_made (inv : Counted c) (taken : Taken c c' t e op rest flow) (accept : Nat)
    (announced : c'.shared.announced accept ≠ 0) : accept < c'.shared.nextAccept := by
  have old : accept < c.shared.nextAccept := by
    rcases announced_cases taken accept with same | ⟨_, conn, rfl, ⟨fd, _, _, entry, _⟩ | rfl⟩
    · exact inv.made accept (same ▸ announced)
    · exact (inv.numbered.pool fd conn entry).1
    · cases inv.reaping t [] conn rest taken.program with
      | erased fd earlier before short trace registered gone accepted unannounced =>
          exact accepted
  exact (taken.rule.numbered old).1

theorem step_unannounced (inv : Counted c) (atomic : Atomic c t e)
    (taken : Taken c c' t e op rest flow) :
    AllOps (fun s _ op => ∀ fd raw, op = .addDecorators fd (.constructed raw) →
      s.announced raw.accept = 0) c' := by
  rintro t' _ member fd raw rfl
  rcases taken.mem member with ⟨rfl, pushed⟩ | old
  · obtain ⟨rfl, made, _⟩ := taken.rule.adds pushed
    rcases announced_cases taken raw.accept with same | ⟨_, conn, _, ⟨_, _, impossible, _⟩ |
      impossible⟩
    · rw [same, made]
      by_contra announced
      exact Nat.lt_irrefl _ (inv.made _ announced)
    · cases impossible
    · cases impossible
  · have there : .addDecorators fd (.constructed raw) ∈ c.prog t' := by
      rcases old with ⟨rfl, later⟩ | ⟨_, there⟩
      · exact taken.program ▸ List.mem_cons_of_mem _ later
      · exact there
    obtain rfl := inv.adds_self atomic there
    obtain ⟨_, pointer, fresh⟩ := inv.numbered.adding t' _ there fd _ rfl
    cases pointer
    rcases announced_cases taken raw.accept with same | ⟨_, conn, accept, ⟨fd', _, _, entry, _⟩ |
      rfl⟩
    · rw [same]
      exact inv.unannounced t' _ there fd raw rfl
    · exact absurd accept (fresh.absent fd' conn entry)
    · rcases old with ⟨_, later⟩ | ⟨other, _⟩
      · have ordered := inv.numbered.ordered t'
        rw [taken.program] at ordered
        have impossible : Op.reapShutdown conn = .lock .connections :=
          of_decide_eq_true ((List.pairwise_cons.mp ordered).1 _ later)
        cases impossible
      · exact absurd rfl other

theorem step_removals (inv : Counted c) (taken : Taken c c' t e op rest flow) (t' : Tid n) :
    (c'.prog t').Pairwise fun a b => b.removes = true → a.removing = true := by
  by_cases same : t' = t
  · subst same
    rw [taken.self]
    apply pairwise_continuation (taken.program ▸ inv.removals t') taken.rule.removals_ordered
    intro a pushed b before removes
    rw [taken.rule.removing_pushes (before removes)] at pushed
    cases pushed
  · rw [taken.other same]
    exact inv.removals t'

theorem step_going (inv : Counted c) (atomic : Atomic c t e)
    (taken : Taken c c' t e op rest flow) (fd : Nat) (conn : Handle)
    (entry : c'.shared.connections.lookup fd = some (some conn))
    (announced : c'.shared.announced conn.accept ≠ 0) : ∃ t, Going fd conn (c'.prog t) := by
  rcases inv.numbered.entry_old taken entry with ⟨old, other⟩ | ⟨raw, rfl, accept, _⟩
  · rcases announced_cases taken conn.accept with same | ⟨_, conn', accept,
      ⟨fd', events, rfl, entry', goes⟩ | rfl⟩
    · obtain ⟨t', going⟩ := inv.going fd conn old (same ▸ announced)
      obtain rfl := going_self atomic going
      exact ⟨t', inv.numbered.going_continuation taken going old other⟩
    · obtain rfl := inv.numbered.fd_eq old entry' accept
      obtain rfl : conn = conn' := by simpa using old.symm.trans entry'
      refine ⟨t, ?_⟩
      rw [taken.self, goes]
      exact .addTask (.shutdown _)
    · cases inv.reaping t [] conn' rest taken.program with
      | erased _ _ _ _ _ _ gone => exact absurd accept.symm (gone fd conn old)
  · rcases announced_cases taken conn.accept with same | ⟨_, _, _, ⟨_, _, impossible, _⟩ |
      impossible⟩
    · rw [same, accept] at announced
      exact absurd (inv.unannounced t _ taken.first fd raw rfl) announced
    · cases impossible
    · cases impossible

/-- An entry that the reaper meets was not told about. -/
theorem unannounced_of_reapNext (inv : Counted c) (atomic : Atomic c t e)
    {maxIdle tm : UInt64} {after : Option Nat}
    (taken : Taken c c' t e (.reapNext maxIdle tm after) rest flow) {fd : Nat} {conn : Handle}
    (entry : c.shared.connections.lookup fd = some (some conn)) :
    c.shared.announced conn.accept = 0 := by
  by_contra announced
  obtain ⟨t', going⟩ := inv.going fd conn entry announced
  obtain rfl := going_self atomic going
  rw [taken.program] at going
  cases going

/-- The reaper goes on towards its decision. -/
theorem reaping_continuation (inv : Counted c) (taken : Taken c c' t e op rest flow)
    {pre post : List Op} {conn : Handle} (left : rest = pre ++ .reapShutdown conn :: post) :
    Reaping c'.shared conn (pushes flow ++ pre) := by
  have rule := taken.rule
  have reaping := inv.reaping t (op :: pre) conn post (by rw [taken.program, left]; rfl)
  generalize c'.shared = s' at rule
  cases reaping with
  | erasing fd entry accepted unannounced =>
      obtain ⟨rfl, rfl⟩ := rule.erase_state
      refine .erased fd c.shared.trace _ (Or.inl rfl) rfl ?_ ?_ accepted unannounced
      · rw [← inv.told fd, entry]
        rfl
      · intro fd' other entry' same
        simp only [record, OrderedMap.lookup_erase] at entry'
        split at entry'
        · cases entry'
        · rename_i different
          exact different (inv.numbered.fd_eq entry entry' same)
  | erased fd earlier _ short trace registered gone accepted unannounced =>
      rcases short with short | short
      · cases short
        obtain ⟨nothing, trace', connections, next⟩ := rule.epollDel_state
        rw [nothing]
        refine .erased fd earlier _ (Or.inr rfl) (trace'.trans trace) registered ?_
          (next ▸ accepted) ?_
        · rw [connections]
          exact gone
        · rw [announced, trace']
          exact unannounced
      · cases short

theorem step_reaping (inv : Counted c) (atomic : Atomic c t e)
    (taken : Taken c c' t e op rest flow) (t' : Tid n) (pre : List Op) (conn : Handle)
    (post : List Op) (split : c'.prog t' = pre ++ .reapShutdown conn :: post) :
    Reaping c'.shared conn pre := by
  by_cases same : t' = t
  · subst same
    rw [taken.self] at split
    rcases continuation_split split rfl with ⟨between, pushed, _⟩ | ⟨pre', rfl, left⟩
    · obtain ⟨unchanged, fd, maxIdle, tm, after, rfl, entry, rfl, _⟩ := taken.rule.reaps_split pushed
      rw [unchanged]
      exact .erasing fd entry (inv.numbered.pool fd conn entry).1
        (inv.unannounced_of_reapNext atomic taken entry)
    · exact inv.reaping_continuation taken left
  · rw [taken.other same] at split
    have member : .reapShutdown conn ∈ c.prog t' :=
      split ▸ List.mem_append_right _ List.mem_cons_self
    exact absurd (inv.removes_self atomic rfl member) same

theorem step_notices (inv : Counted c) (taken : Taken c c' t e op rest flow) (t' : Tid n) :
    (c'.prog t').Pairwise fun a b => b.announces = true → a.announcing = true := by
  by_cases same : t' = t
  · subst same
    rw [taken.self]
    apply pairwise_continuation (taken.program ▸ inv.notices t') taken.rule.notices_ordered
    intro a pushed b before announces
    exact taken.rule.announcing_pushes (before announces) a pushed
  · rw [taken.other same]
    exact inv.notices t'

theorem step_reaper (inv : Counted c) (taken : Taken c c' t e op rest flow) :
    AllOps (fun _ t op => op.reaps = true → t = .reaper) c' := by
  intro t' op' member reaps
  rcases taken.mem member with ⟨rfl, pushed⟩ | ⟨rfl, later⟩ | ⟨_, there⟩
  · exact inv.reaper t' op taken.first (taken.rule.reaped pushed reaps)
  · exact inv.reaper t' op' (taken.program ▸ List.mem_cons_of_mem _ later) reaps
  · exact inv.reaper t' op' there reaps

theorem step_placed (inv : Counted c) (taken : Taken c c' t e op rest flow) (t' : Tid n)
    (pre : List Op) (op' : Op) (post : List Op) (accept : Nat)
    (split : c'.prog t' = pre ++ op' :: post) (notices : op'.notices accept ≠ 0) :
    pre = [] ∨ pre = [.readLock .connections] ∨
      t' = .reaper ∧ ∃ conn : Handle, conn.accept = accept ∧ .expired conn ∈ c'.shared.trace := by
  by_cases same : t' = t
  · subst same
    rw [taken.self] at split
    rcases continuation_split split (Op.not_yields_of_notices notices).2.1 with
      ⟨between, pushed, _⟩ | ⟨pre', rfl, left⟩
    · rcases taken.rule.notice_split pushed notices with front | locked | ⟨reaps, conn, expired⟩
      · exact Or.inl front
      · exact Or.inr (Or.inl locked)
      · exact Or.inr (Or.inr ⟨inv.reaper t' op taken.first reaps, conn, expired⟩)
    · have program : c.prog t' = (op :: pre') ++ op' :: post := by
        rw [taken.program, left]
        rfl
      rcases inv.placed t' (op :: pre') op' post accept program notices with front | locked |
        ⟨reaper, conn, same, expired⟩
      · cases front
      · cases locked
        rw [taken.rule.readLock_flow]
        exact Or.inl rfl
      · exact Or.inr (Or.inr ⟨reaper, conn, same, taken.rule.trace_mono expired⟩)
  · rw [taken.other same] at split
    rcases inv.placed t' pre op' post accept split notices with front | locked |
      ⟨reaper, conn, same, expired⟩
    · exact Or.inl front
    · exact Or.inr (Or.inl locked)
    · exact Or.inr (Or.inr ⟨reaper, conn, same, taken.rule.trace_mono expired⟩)

theorem step_deregisters (inv : Counted c) (taken : Taken c c' t e op rest flow) :
    AllOps (fun s _ op => ∀ conn, op = .deregister conn → .shutdownStarted conn ∈ s.trace) c' := by
  rintro t' _ member conn rfl
  rcases taken.mem member with ⟨rfl, pushed⟩ | ⟨rfl, later⟩ | ⟨_, there⟩
  · exact taken.rule.deregisters pushed
  · exact taken.rule.trace_mono
      (inv.deregisters t' _ (taken.program ▸ List.mem_cons_of_mem _ later) conn rfl)
  · exact taken.rule.trace_mono (inv.deregisters t' _ there conn rfl)

theorem step_marked (inv : Counted c) (taken : Taken c c' t e op rest flow) (conn : Handle)
    (down : c'.shared.isShutdown conn = true) : .shutdownStarted conn ∈ c'.shared.trace := by
  apply taken.rule.trace_mono
  rcases taken.rule.isShutdown down with before | rfl
  · exact inv.marked conn before
  · exact inv.deregisters t _ taken.first conn rfl

theorem step_erasing (inv : Counted c) (atomic : Atomic c t e)
    (taken : Taken c c' t e op rest flow) (t' : Tid n) (pre : List Op) (fd : Nat)
    (post : List Op) (split : c'.prog t' = pre ++ .erase fd :: post) (conn : Handle)
    (entry : c'.shared.connections.lookup fd = some (some conn)) :
    .shutdownStarted conn ∈ c'.shared.trace ∨
      ∃ post', post = .epollDel fd :: .reapShutdown conn :: post' := by
  by_cases same : t' = t
  · subst same
    rw [taken.self] at split
    rcases continuation_split split rfl with ⟨between, pushed, rfl⟩ | ⟨pre', rfl, left⟩
    · obtain ⟨connections, trace, conn', entry', by_⟩ := taken.rule.erases pushed
      obtain rfl : conn = conn' := by
        rw [connections, entry'] at entry
        simpa using entry.symm
      rcases by_ with rfl | ⟨post, rfl⟩
      · left
        rw [trace]
        exact inv.deregisters t' _ taken.first conn rfl
      · exact Or.inr ⟨post ++ rest, rfl⟩
    · have program : c.prog t' = (op :: pre') ++ .erase fd :: post := by
        rw [taken.program, left]
        rfl
      rcases inv.numbered.entry_old taken entry with ⟨old, _⟩ | ⟨raw, rfl, _⟩
      · rcases inv.erasing t' (op :: pre') fd post program conn old with started | reaps
        · exact Or.inl (taken.rule.trace_mono started)
        · exact Or.inr reaps
      · have removals := inv.removals t'
        rw [taken.program, left] at removals
        have impossible := (List.pairwise_cons.mp removals).1 (.erase fd)
          (List.mem_append_right _ List.mem_cons_self) rfl
        cases impossible
  · rw [taken.other same] at split
    have member : .erase fd ∈ c.prog t' := split ▸ List.mem_append_right _ List.mem_cons_self
    exact absurd (inv.removes_self atomic rfl member) same

/-- The reaper expires a connection that it took from the pool, unless that was shut
down. -/
theorem expired_or_pending (inv : Counted c) (atomic : Atomic c t e)
    (uninterrupted : Uninterrupted c t e) (taken : Taken c c' t e op rest flow) {conn : Handle}
    {t' : Tid n} (member : .reapShutdown conn ∈ c.prog t')
    (up : c.shared.isShutdownOf conn = false) :
    .expired conn ∈ c'.shared.trace ∨
      ∃ t, .reapShutdown conn ∈ c'.prog t ∧ c'.shared.isShutdownOf conn = false := by
  obtain rfl := inv.removes_self atomic rfl member
  have rule := taken.rule
  have removals := inv.removals t'
  rw [taken.program] at member removals
  rcases List.mem_cons.mp member with rfl | later
  · left
    exact rule.expires up
  · right
    obtain ⟨ops, goes⟩ := left_of_uninterrupted taken uninterrupted later rfl
    refine ⟨t', ?_, ?_⟩
    · rw [taken.self, goes]
      exact List.mem_append_right _ later
    · apply Bool.eq_false_of_not_eq_true
      intro down
      rcases rule.isShutdown down with before | rfl
      · rw [isShutdownOf, before] at up
        cases up
      · have impossible := (List.pairwise_cons.mp removals).1 _ later rfl
        cases impossible

theorem step_expiring (inv : Counted c) (atomic : Atomic c t e)
    (uninterrupted : Uninterrupted c t e) (taken : Taken c c' t e op rest flow)
    (later : List Event) (fd : Nat) (before : List Event) (conn : Handle)
    (split : c'.shared.trace = later ++ .dequeued fd :: before)
    (registered : current before fd = some conn) (unstarted : .shutdownStarted conn ∉ before)
    (unstarted' : .shutdownStarted { conn with level := 0 } ∉ before) :
    .expired conn ∈ c'.shared.trace ∨
      ∃ t, .reapShutdown conn ∈ c'.prog t ∧ c'.shared.isShutdownOf conn = false := by
  have old : ∀ later', c.shared.trace = later' ++ .dequeued fd :: before →
      .expired conn ∈ c'.shared.trace ∨
        ∃ t, .reapShutdown conn ∈ c'.prog t ∧ c'.shared.isShutdownOf conn = false := by
    intro later' split'
    rcases inv.expiring later' fd before conn split' registered unstarted unstarted' with
      expired | ⟨t', member, up⟩
    · exact Or.inl (taken.rule.trace_mono expired)
    · exact inv.expired_or_pending atomic uninterrupted taken member up
  rcases taken.rule.recorded with same | ⟨event, grown, by_⟩
  · exact old later (same ▸ split)
  · rw [grown] at split
    rcases split_history split with ⟨rfl, rfl⟩ | ⟨later', split'⟩
    · obtain rfl := by_.dequeued fd rfl
      obtain ⟨goes, state⟩ := taken.rule.erase_state
      have entry : c.shared.connections.lookup fd = some (some conn) := by
        apply Option.join_eq_some_iff.mp
        rw [inv.told fd, registered]
      rcases inv.erasing t [] fd rest taken.program conn entry with started | ⟨post, left⟩
      · exact absurd started unstarted
      · refine Or.inr ⟨t, ?_, ?_⟩
        · rw [taken.self, goes, left]
          simp
        · apply Bool.eq_false_of_not_eq_true
          intro down
          rw [state] at down
          exact unstarted' (inv.marked _ down)
    · exact old later' split'

theorem step_hangups (inv : Counted c) (taken : Taken c c' t e op rest flow)
    (later : List Event) (conn : Handle) (before : List Event)
    (split : c'.shared.trace = later ++ .hangup conn :: before) :
    ∃ fd, current before fd = some conn := by
  rcases taken.rule.recorded with same | ⟨event, grown, by_⟩
  · exact inv.hangups later conn before (same ▸ split)
  · rw [grown] at split
    rcases split_history split with ⟨rfl, rfl⟩ | ⟨later', split'⟩
    · obtain ⟨fd, _, _, entry, _⟩ := by_.hangup conn rfl
      refine ⟨fd, ?_⟩
      rw [← inv.told fd, entry]
      rfl
    · exact inv.hangups later' conn before split'

theorem step_expiries (inv : Counted c) (taken : Taken c c' t e op rest flow)
    (later : List Event) (conn : Handle) (before : List Event)
    (split : c'.shared.trace = later ++ .expired conn :: before) :
    ∃ fd earlier, before = .dequeued fd :: earlier ∧ current earlier fd = some conn := by
  rcases taken.rule.recorded with same | ⟨event, grown, by_⟩
  · exact inv.expiries later conn before (same ▸ split)
  · rw [grown] at split
    rcases split_history split with ⟨rfl, rfl⟩ | ⟨later', split'⟩
    · obtain rfl := by_.expired conn rfl
      cases inv.reaping t [] conn rest taken.program with
      | erased fd earlier _ _ trace registered => exact ⟨fd, earlier, trace, registered⟩
    · exact inv.expiries later' conn before split'

/-- A step that is not interrupted keeps the invariant. -/
theorem step (inv : Counted c) (atomic : Atomic c t e) (succeed : ConstructorsSucceed c t e)
    (uninterrupted : Uninterrupted c t e) (taken : Taken c c' t e op rest flow) : Counted c' where
  numbered := inv.numbered.step taken succeed
  removals := inv.step_removals taken
  notices := inv.step_notices taken
  reaper := inv.step_reaper taken
  placed := inv.step_placed taken
  issued := inv.step_issued taken uninterrupted
  single := inv.step_single atomic taken
  made := inv.step_made taken
  unannounced := inv.step_unannounced atomic taken
  told := taken.rule.told inv.told
  going := inv.step_going atomic taken
  reaping := inv.step_reaping atomic taken
  erasing := inv.step_erasing atomic taken
  deregisters := inv.step_deregisters taken
  marked := inv.step_marked taken
  expiring := inv.step_expiring atomic uninterrupted taken
  hangups := inv.step_hangups taken
  expiries := inv.step_expiries taken

/-! ### What the invariant says between two pieces of work -/

/-- Notifications are still to be made by the reaper only, after an expiry. -/
theorem total_eq_zero (inv : Counted c) (between : Between c) (accept : Nat)
    (none : ReaperRests c ∨ ∀ conn : Handle, conn.accept = accept →
      .expired conn ∉ c.shared.trace) : total (Op.notices accept) c.prog = 0 := by
  apply Finset.sum_eq_zero
  intro t _
  apply List.sum_eq_zero
  intro weight weighed
  obtain ⟨op, member, rfl⟩ := List.mem_map.mp weighed
  by_contra notices
  obtain ⟨yields, _, announces⟩ := Op.not_yields_of_notices notices
  obtain ⟨pre, post, split⟩ := List.append_of_mem member
  rcases inv.placed t pre op post accept split notices with rfl | rfl | ⟨rfl, conn, same, expired⟩
  · rw [between t op (by rw [split]; rfl)] at yields
    cases yields
  · have impossible := between t (.readLock .connections) (by rw [split]; rfl)
    cases impossible
  · rcases none with rests | none
    · have ordered := inv.notices .reaper
      cases pre with
      | nil =>
          have waits := rests op (by rw [split]; rfl)
          rw [Op.not_rests_of_announces announces] at waits
          cases waits
      | cons first pre =>
          have waits := rests first (by rw [split]; rfl)
          rw [split] at ordered
          rw [Op.not_rests_of_announcing ((List.pairwise_cons.mp ordered).1 op
            (List.mem_append_right _ List.mem_cons_self) announces)] at waits
          cases waits
    · exact none conn same expired

theorem announced_eq_one (inv : Counted c) {event : Event} (accept : Nat)
    (member : event ∈ c.shared.trace) (announces : event.announces accept = true) :
    c.shared.announced accept = 1 :=
  Nat.le_antisymm (inv.single accept) (List.countP_pos_iff.mpr ⟨event, member, announces⟩)

/-- No connection is both hung up and expired. -/
theorem not_expired (inv : Counted c) {conn other : Handle}
    (hungUp : .hangup conn ∈ c.shared.trace) (same : other.accept = conn.accept) :
    .expired other ∉ c.shared.trace := by
  intro expired
  have pair : List.Subperm [.hangup conn, .expired other] c.shared.trace := by
    apply List.subperm_of_subset (by simp)
    intro event member
    simp only [List.mem_cons, List.not_mem_nil, or_false] at member
    rcases member with rfl | rfl
    · exact hungUp
    · exact expired
  have twice := pair.countP_le (Event.announces conn.accept)
  simp only [List.countP_cons, Event.announces, same, decide_true, if_true,
    List.countP_nil] at twice
  have single := inv.single conn.accept
  rw [announced] at single
  omega

theorem noticedOnce (inv : Counted c) : NoticedOnce c where
  told := inv.told
  atMostOnce accept := by
    have issued := inv.issued accept
    have single := inv.single accept
    omega
  announced accept := by
    have issued := inv.issued accept
    omega
  hangups := inv.hangups
  expiries := inv.expiries
  hungUp between conn member := by
    have announced := inv.announced_eq_one conn.accept member (decide_eq_true rfl)
    constructor
    · have issued := inv.issued conn.accept
      have none := inv.total_eq_zero between conn.accept
        (Or.inr fun other same => inv.not_expired member same)
      omega
    · intro fd other entry same
      obtain ⟨t, going⟩ := inv.going fd other entry (by rw [same, announced]; exact one_ne_zero)
      obtain ⟨op, first, yields⟩ := going.not_yields
      rw [between t op first] at yields
      cases yields
  expired between rests later fd before conn split registered unstarted unstarted' := by
    have issued := inv.issued conn.accept
    have none := inv.total_eq_zero between conn.accept (Or.inl rests)
    rcases inv.expiring later fd before conn split registered unstarted unstarted' with
      expired | ⟨t, pending, _⟩
    · have announced := inv.announced_eq_one conn.accept expired (decide_eq_true rfl)
      omega
    · have removals := inv.removals t
      obtain ⟨first, others, program⟩ := List.exists_cons_of_ne_nil (List.ne_nil_of_mem pending)
      have yields := between t first (by rw [program]; rfl)
      rw [program] at pending removals
      rcases List.mem_cons.mp pending with rfl | later
      · cases yields
      · rw [Op.not_yields_of_removing ((List.pairwise_cons.mp removals).1 _ later rfl)] at yields
        cases yields

end Counted

/-- In runs in which pieces of work are not interleaved, no constructor fails and no
exception cuts an expiry short, `ConnectionTerminated` is issued once for each
connection that a hang-up or an idle expiry takes from the pool. -/
theorem noticedOnce_of_uninterrupted (serverfd : Nat) (ssl : Bool) (maxIdle : Int32)
    (schedule : List (Tid n × Choice))
    (atomic : (server n).Along Atomic schedule (init n serverfd ssl maxIdle))
    (succeed : (server n).Along ConstructorsSucceed schedule (init n serverfd ssl maxIdle))
    (uninterrupted : (server n).Along Uninterrupted schedule (init n serverfd ssl maxIdle)) :
    (server n).Always NoticedOnce schedule (init n serverfd ssl maxIdle) := by
  apply Interleaving.Machine.always_of_invariant Counted ?_ (fun _ inv => inv.noticedOnce)
    (Counted.init serverfd ssl maxIdle) (atomic.and (succeed.and uninterrupted))
  rintro c t e c' inv ⟨atomic, succeed, uninterrupted⟩ step
  obtain ⟨op, rest, flow, program, rule, progs⟩ := rule_of_step step
  exact inv.step atomic succeed uninterrupted ⟨program, rule, progs⟩

/-- A connection with a buffer and a range reader around it is idle for too long. -/
def idleRun (throws : Bool) (later : Nat) : Schedule 1 :=
  steps .listen 1 ++ choose .listen { ready := some [⟨3, EPOLLIN⟩] } ++ steps .listen 1 ++
    choose .listen { accepted := some 5 } ++ steps .listen 2 ++
    choose .listen { decorated := .stack [⟨.acknowledgement, true⟩, ⟨.rangeReader, true⟩] } ++
    steps .listen 7 ++ steps .only 6 ++ steps .reaper 3 ++ choose .reaper { now := 100 } ++
    steps .reaper 8 ++ choose .reaper { throws := throws } ++ steps .reaper later

theorem noticedOnce_of_expiry :
    (server 1).Always NoticedOnce (idleRun false 12) (init 1 3 false 1) ∧
      ∃ c, (server 1).run (idleRun false 12) (init 1 3 false 1) = some c ∧
        c.shared.notices 0 = 1 ∧ c.shared.Destroyed ⟨0, 2⟩ ∧ Between c ∧ ReaperRests c := by
  refine ⟨?_, _, rfl, by decide, by decide, by decide, by decide⟩
  exact noticedOnce_of_uninterrupted 3 false 1 (idleRun false 12) (by decide +kernel)
    (by decide +kernel) (by decide +kernel)

/-- A connection is hung up and told about.  The next constructor fails, the variable
still holds the pointer of before, and that is hung up once more. -/
def staleRun : Schedule 1 :=
  acceptOne 3 5 ++ steps .only 6 ++ steps .listen 1 ++
    choose .listen { ready := some [⟨5, EPOLLHUP⟩] } ++ steps .listen 15 ++ steps .only 3 ++
    steps .listen 1 ++ choose .listen { ready := some [⟨3, EPOLLIN⟩] } ++ steps .listen 1 ++
    choose .listen { accepted := some 7 } ++ choose .listen { ssl := { setFd := 0 } } ++
    steps .listen 1 ++ choose .listen { garbage := some ⟨0, 0⟩ } ++ steps .listen 2 ++
    choose .listen { garbage := some ⟨0, 0⟩ } ++ steps .listen 4 ++ steps .only 6 ++
    steps .listen 1 ++ choose .listen { ready := some [⟨7, EPOLLHUP⟩] } ++ steps .listen 3

/-- With the constructor failing the second notice follows.  With the draining loop of
an idle connection throwing, as the buffer does over its limit, there is none. -/
theorem noticedOnce_fails :
    ((server 1).Along Atomic staleRun (init 1 3 true (-1)) ∧
      ∃ c, (server 1).run staleRun (init 1 3 true (-1)) = some c ∧
        c.shared.notices 0 = 2 ∧ ¬ NoticedOnce c) ∧
    ((server 1).Along Atomic (idleRun true 1) (init 1 3 false 1) ∧
      ∃ c, (server 1).run (idleRun true 1) (init 1 3 false 1) = some c ∧
        c.shared.connections.lookup 5 = none ∧ c.shared.notices 0 = 0 ∧ ¬ NoticedOnce c) := by
  refine ⟨⟨by decide +kernel, _, rfl, by decide, fun holds => ?_⟩,
    ⟨by decide +kernel, _, rfl, by decide, by decide, fun holds => ?_⟩⟩
  · exact absurd (holds.atMostOnce 0) (by decide)
  · have once := holds.expired (by decide) (by decide)
      [.shutdownStarted ⟨0, 2⟩, .expired ⟨0, 2⟩] 5 _ ⟨0, 2⟩ rfl rfl (by decide) (by decide)
    exact absurd once (by decide)

end ServerConfig

end LibSiot
