/-
Module: LibSiot.Proofs.Server.Teardown
Purpose: How often the body of `Shutdown()` starts for a connection.  Each
  request is one token: it is pending in the queue or in a thread until the
  body starts, and nothing else makes one.  `is_shutdown_` keeps nobody from a
  second request, so that one request a connection has to be asked of the run.
Trusted boundary: none
Main exports: ServerState.Requested, ServerConfig.SingleRequest,
  ServerConfig.TornDownOnce, ServerConfig.tornDownOnce_of_singleRequest
-/
import LibSiot.Server.Rules

namespace LibSiot

open Interleaving (Flow)
open Interleaving.Machine (pushes total)

/-! ### Tokens -/

/-- Shutting down `conn` reaches the object `part`: it is `conn` or a connection
that `conn` wraps. -/
def Handle.Reaches (conn part : Handle) : Prop :=
  conn.accept = part.accept ∧ part.level ≤ conn.level

instance (conn part : Handle) : Decidable (conn.Reaches part) :=
  inferInstanceAs (Decidable (_ ∧ _))

/-- The bodies of `Shutdown()` for `part` that a task still has to start. -/
def Closure.shutdowns (part : Handle) : Closure → Nat
  | .shutdown conn => if conn.Reaches part then 1 else 0
  | _ => 0

/-- The same for an operation. -/
def Op.shutdowns (part : Handle) : Op → Nat
  | .shutdown conn => if conn.Reaches part then 1 else 0
  | .addTask task => task.shutdowns part
  | _ => 0

/-- The deletions of `part` that an operation still has to make. -/
def Op.deletions (part : Handle) : Op → Nat
  | .delete conn => if conn = part then 1 else 0
  | _ => 0

/-- The event is a request to shut down an object of the given connection: by a
hang-up, by idle expiry, or by `DeferredShutdown()`. -/
def Event.requests (accept : Nat) : Event → Bool
  | .hangup conn => conn.accept = accept
  | .expired conn => conn.accept = accept
  | .deferred conn => conn.accept = accept
  | _ => false

/-- The object whose shutdown an operation requests. -/
def Op.requests {n : Nat} (e : Choice) (s : ServerState n) : Op → Option Handle
  | .lookup fd events =>
      if selectBranch events = some .hangup then (s.connections.lookup fd).join else none
  | .reapShutdown conn => if s.isShutdownOf conn then none else some conn
  | .running _ _ | .userCode =>
      match e.handler with
      | .acts (.deferredShutdown conn) => some conn
      | _ => none
  | _ => none

namespace ServerState

variable {n : Nat} {t : Tid n} {e : Choice} {s s' : ServerState n} {op : Op}
  {flow : Flow Op}

/-- How often the body of `Shutdown()` of an object started. -/
def starts (part : Handle) (s : ServerState n) : Nat := s.trace.count (.shutdownStarted part)

/-- How often an object was deleted. -/
def deletes (part : Handle) (s : ServerState n) : Nat := s.trace.count (.destroyed part)

/-- How often a shutdown of a connection was requested. -/
def requests (accept : Nat) (s : ServerState n) : Nat := s.trace.countP (Event.requests accept)

/-- A shutdown of the connection was requested. -/
def Requested (accept : Nat) (s : ServerState n) : Prop := s.requests accept ≠ 0

instance (accept : Nat) (s : ServerState n) : Decidable (s.Requested accept) :=
  inferInstanceAs (Decidable (_ ≠ _))

/-- The bodies of `Shutdown()` that tasks in the queue still have to start. -/
def queued (part : Handle) (s : ServerState n) : Nat :=
  (s.executor.map (Closure.shutdowns part)).sum

/-! ### One step -/

/-- A weight of the body of `Shutdown()` is that of the shutdown of the wrapped
connection, if the decorator owns it, and of the deletion. -/
theorem sum_shutdownBody_le (weight : Op → Nat) (conn : Handle)
    (lock : weight (.lock (.connection conn)) = 0) (close : weight (.closeSocket conn) = 0)
    (drain : weight (.drain conn) = 0) :
    ((s.shutdownBody conn).map weight).sum ≤
      (if conn.level = 0 then 0 else weight (.shutdown { conn with level := conn.level - 1 })) +
        weight (.delete conn) := by
  obtain ⟨accept, level⟩ := conn
  cases level with
  | zero =>
      simp only [shutdownBody]
      split <;> simp [lock, close]
  | succ level =>
      simp only [shutdownBody]
      split
      · simp
      · rename_i decorator _
        split <;> split <;> simp [lock, drain]

/-- The body of `Shutdown()` goes on to the wrapped connection only. -/
theorem sum_shutdownBody_shutdowns (conn part : Handle) :
    ((s.shutdownBody conn).map (Op.shutdowns part)).sum +
        (if conn = part then 1 else 0) ≤
      if conn.Reaches part then 1 else 0 := by
  have body := sum_shutdownBody_le (s := s) (Op.shutdowns part) conn rfl rfl rfl
  have deletion : Op.shutdowns part (.delete conn) = 0 := rfl
  by_cases same : conn = part
  · -- The wrapped connection is below `part`.
    subst same
    have below : (if conn.level = 0 then 0 else
        Op.shutdowns conn (.shutdown { conn with level := conn.level - 1 })) = 0 := by
      split
      · rfl
      · rename_i positive
        exact if_neg fun reaches => by
          have := reaches.2
          simp only at this
          omega
    rw [if_pos rfl, if_pos ⟨rfl, Nat.le_refl _⟩]
    omega
  · have lower : (if conn.level = 0 then 0 else
        Op.shutdowns part (.shutdown { conn with level := conn.level - 1 })) ≤
        if conn.Reaches part then 1 else 0 := by
      split
      · exact Nat.zero_le _
      · by_cases reaches : (Handle.mk conn.accept (conn.level - 1)).Reaches part
        · have whole : conn.Reaches part :=
            ⟨reaches.1, Nat.le_trans reaches.2 (Nat.sub_le _ _)⟩
          rw [if_pos whole]
          exact Nat.le_of_eq (if_pos reaches)
        · exact Nat.le_trans (Nat.le_of_eq (if_neg reaches)) (Nat.zero_le _)
    rw [if_neg same]
    omega

/-- It deletes its own object, once. -/
theorem sum_shutdownBody_deletions (conn part : Handle) :
    ((s.shutdownBody conn).map (Op.deletions part)).sum ≤ if conn = part then 1 else 0 := by
  have body := sum_shutdownBody_le (s := s) (Op.deletions part) conn rfl rfl rfl
  simpa [Op.deletions] using body

theorem sum_dequeueOps (weight : Op → Nat) (fds : List Nat)
    (none : ∀ fd, ((dequeueOps fd).map weight).sum = 0) :
    ((fds.flatMap dequeueOps).map weight).sum = 0 := by
  induction fds with
  | nil => rfl
  | cons fd fds ih => rw [List.flatMap_cons, List.map_append, List.sum_append, none, ih]

/-- A request is worth a token for each object it reaches. -/
theorem shutdowns_le_requests (conn part : Handle) (event : Event)
    (request : event.requests part.accept = decide (conn.accept = part.accept)) :
    (if conn.Reaches part then 1 else 0) ≤
      if event.requests part.accept = true then 1 else 0 := by
  split
  · rename_i reaches
    rw [request, if_pos (decide_eq_true reaches.1)]
  · exact Nat.zero_le _

/-- Putting a task into the queue. -/
theorem queued_append (part : Handle) (task : Closure) :
    (({ s with executor := s.executor ++ [task] } : ServerState n)).queued part =
      s.queued part + task.shutdowns part := by
  simp [queued]

/-- Requests pay for all starts, pending or made. -/
theorem Rule.starts_le (rule : Rule t e s op flow s') (part : Handle) :
    s'.starts part + ((pushes flow).map (Op.shutdowns part)).sum + s'.queued part +
        s.requests part.accept ≤
      s.starts part + op.shutdowns part + s.queued part + s'.requests part.accept := by
  cases rule with
  | takeTask task tasks queue =>
      have taken : s.queued part = task.shutdowns part +
          ({ s with executor := tasks } : ServerState n).queued part := by
        simp [queued, queue]
      have pushed : ((taskOps task ++ [Op.takeTask]).map (Op.shutdowns part)).sum =
          task.shutdowns part := by
        cases task <;> simp [taskOps, Op.shutdowns, Closure.shutdowns]
      simp only [pushes, pushed, taken]
      simp only [starts, requests, Op.shutdowns]
      omega
  | addTask task =>
      simp only [queued_append]
      simp only [starts, requests, queued, pushes, Op.shutdowns, List.map_nil, List.sum_nil]
      omega
  | lookupHangup fd events conn entry selects =>
      have paid := shutdowns_le_requests conn part (.hangup conn) rfl
      simp only [starts, requests, queued, record, pushes, List.countP_cons, Op.shutdowns,
        Closure.shutdowns, List.map_cons, List.map_nil, List.sum_cons, List.sum_nil]
      rw [List.count_cons_of_ne (by simp)]
      omega
  | reapExpired conn up =>
      have paid := shutdowns_le_requests conn part (.expired conn) rfl
      simp only [starts, requests, queued, record, pushes, List.countP_cons, Op.shutdowns,
        List.map_cons, List.map_nil, List.sum_cons, List.sum_nil]
      rw [List.count_cons_of_ne (by simp)]
      omega
  | callbackDefers callback conn other acts made =>
      have paid := shutdowns_le_requests other part (.deferred other) rfl
      simp only [starts, requests, queued, record, pushes, List.countP_cons, Op.shutdowns,
        Closure.shutdowns, List.map_cons, List.map_nil, List.map_append, List.sum_append,
        List.sum_cons, List.sum_nil]
      rw [List.count_cons_of_ne (by simp)]
      omega
  | userDefers other acts made =>
      have paid := shutdowns_le_requests other part (.deferred other) rfl
      simp only [starts, requests, queued, record, pushes, List.countP_cons, Op.shutdowns,
        Closure.shutdowns, List.map_cons, List.map_nil, List.map_append, List.sum_append,
        List.sum_cons, List.sum_nil]
      rw [List.count_cons_of_ne (by simp)]
      omega
  | shutdown conn =>
      have body := sum_shutdownBody_shutdowns (s := s) conn part
      have pushed := sum_shutdownOps (s := s) (Op.shutdowns part) conn rfl rfl
      simp only [starts, requests, queued, record, pushes, List.count_cons, List.countP_cons,
        Event.requests, pushed, Op.shutdowns, beq_iff_eq, Event.shutdownStarted.injEq,
        Bool.false_eq_true, if_false] at body ⊢
      omega
  | deregister conn =>
      have none := sum_dequeueOps (Op.shutdowns part)
        (s.connections.keysWhere (· = some conn)) fun fd => rfl
      simp only [pushes, none]
      exact Nat.le_refl _
  | callbackUses | drain | userUses =>
      rw [pushes, sum_useOps (Op.shutdowns part) _ _ _ rfl rfl rfl]
      exact Nat.le_refl _
  | _ => exact Nat.le_refl _

/-- Every deletion, pending or made, is of a body that started. -/
theorem Rule.deletes_le (rule : Rule t e s op flow s') (part : Handle) :
    s'.deletes part + ((pushes flow).map (Op.deletions part)).sum + s.starts part ≤
      s.deletes part + op.deletions part + s'.starts part := by
  cases rule with
  | takeTask task tasks queue => cases task <;> exact Nat.le_refl _
  | shutdown conn =>
      have body := sum_shutdownBody_deletions (s := s) conn part
      have pushed := sum_shutdownOps (s := s) (Op.deletions part) conn rfl rfl
      simp only [starts, deletes, record, pushes, List.count_cons, pushed, Op.deletions,
        beq_iff_eq, Event.shutdownStarted.injEq, reduceCtorEq, if_false] at body ⊢
      omega
  | deregister conn =>
      have none := sum_dequeueOps (Op.deletions part)
        (s.connections.keysWhere (· = some conn)) fun fd => rfl
      simp only [pushes, none]
      exact Nat.le_refl _
  | callbackUses | drain | userUses =>
      rw [pushes, sum_useOps (Op.deletions part) _ _ _ rfl rfl rfl]
      exact Nat.le_refl _
  | delete conn =>
      simp only [starts, deletes, record, setLock, pushes, List.count_cons, Op.deletions,
        List.map_nil, List.sum_nil, beq_iff_eq, Event.destroyed.injEq, reduceCtorEq, if_false]
      omega
  | _ => exact Nat.le_refl _

/-- A step makes a request only as its operation says, and at most one. -/
theorem Rule.requests_le (rule : Rule t e s op flow s') (accept : Nat) :
    s'.requests accept ≤ s.requests accept +
      if (op.requests e s).any (·.accept = accept) then 1 else 0 := by
  cases rule with
  | lookupHangup fd events conn entry selects =>
      simp [requests, record, List.countP_cons, Event.requests, Op.requests, selects, entry]
  | reapExpired conn up =>
      simp [requests, record, List.countP_cons, Event.requests, Op.requests, up]
  | callbackDefers callback conn other acts made =>
      simp [requests, record, List.countP_cons, Event.requests, Op.requests, acts]
  | userDefers other acts made =>
      simp [requests, record, List.countP_cons, Event.requests, Op.requests, acts]
  | _ => exact Nat.le_add_right _ _

/-- Requests are not forgotten. -/
theorem Rule.stays_requested (rule : Rule t e s op flow s') {accept : Nat}
    (requested : s.Requested accept) : s'.Requested accept := by
  have le : s.requests accept ≤ s'.requests accept := by
    cases rule with
    | constructorThrew | decoratedNull | decorated | indeterminateDecorated | lookupHangup
    | reapExpired | call | callbackDefers | shutdown | erase | delete | userDefers =>
        exact List.Sublist.countP_le (List.sublist_cons_self _ _)
    | _ => exact Nat.le_refl _
  exact Nat.ne_of_gt (Nat.lt_of_lt_of_le (Nat.pos_of_ne_zero requested) le)

end ServerState

namespace ServerConfig

open ServerState

variable {n : Nat}

/-- The step requests no second shutdown of a connection. -/
def SingleRequest (c : ServerConfig n) (t : Tid n) (e : Choice) : Prop :=
  Next (fun op e s => ∀ conn ∈ op.requests e s, ¬ s.Requested conn.accept) c t e

instance (c : ServerConfig n) (t : Tid n) (e : Choice) : Decidable (SingleRequest c t e) :=
  inferInstanceAs (Decidable (Next (fun op e s =>
    ∀ conn ∈ op.requests e s, ¬ s.Requested conn.accept) c t e))

/-- No body of `Shutdown()` started twice, no connection was destroyed twice, and
no thread is about to shut down one that was destroyed. -/
structure TornDownOnce (c : ServerConfig n) : Prop where
  started : ∀ conn, c.shared.starts conn ≤ 1
  destroyed : ∀ conn, c.shared.deletes conn ≤ 1
  live : ∀ t conn rest, c.prog t = .shutdown conn :: rest → ¬ c.shared.Destroyed conn

/-- The invariant: every start of a body, made or pending, is paid for by its own
request, every deletion by its own start, and no connection had two requests. -/
structure Paid (c : ServerConfig n) : Prop where
  starts : ∀ part, c.shared.starts part + total (Op.shutdowns part) c.prog +
    c.shared.queued part ≤ c.shared.requests part.accept
  deletes : ∀ part, c.shared.deletes part + total (Op.deletions part) c.prog ≤
    c.shared.starts part
  single : ∀ accept, c.shared.requests accept ≤ 1

theorem Paid.init (serverfd : Nat) (ssl : Bool) (maxIdle : Int32) :
    Paid (init n serverfd ssl maxIdle) := by
  have nothing : ∀ weight : Op → Nat, weight .listenWhile = 0 → weight .reapStart = 0 →
      weight .takeTask = 0 → weight .userCode = 0 →
      total weight (ServerConfig.init n serverfd ssl maxIdle).prog = 0 := by
    intro weight listen reaper worker user
    refine Finset.sum_eq_zero fun t _ => ?_
    cases t <;> simp [ServerConfig.init, listen, reaper, worker, user]
  refine ⟨fun part => ?_, fun part => ?_, fun accept => Nat.zero_le _⟩
  · rw [nothing _ rfl rfl rfl rfl]
    exact Nat.le_refl _
  · rw [nothing _ rfl rfl rfl rfl]
    exact Nat.le_refl _

theorem Paid.step {c c' : ServerConfig n} {t : Tid n} {e : Choice} (paid : Paid c)
    (single : SingleRequest c t e) (taken : (server n).step t e c = some c') : Paid c' := by
  obtain ⟨op, rest, flow, program, rule, progs⟩ := rule_of_step taken
  refine ⟨fun part => ?_, fun part => ?_, fun accept => ?_⟩
  · have before := paid.starts part
    have moved := Interleaving.Machine.total_step_le (Op.shutdowns part) program progs
    have rule := rule.starts_le part
    omega
  · have before := paid.deletes part
    have moved := Interleaving.Machine.total_step_le (Op.deletions part) program progs
    have rule := rule.deletes_le part
    omega
  · have before := paid.single accept
    have rule := rule.requests_le accept
    split at rule
    · rename_i requested
      obtain ⟨conn, request, same⟩ := (Option.any_eq_true _ _).mp requested
      have none := single.of_prog program conn request
      rw [of_decide_eq_true same] at none
      have : c.shared.requests accept = 0 := not_not.mp none
      omega
    · omega

theorem Paid.tornDownOnce {c : ServerConfig n} (paid : Paid c) : TornDownOnce c := by
  have started : ∀ conn, c.shared.starts conn ≤ 1 := fun conn => by
    have := paid.starts conn
    have := paid.single conn.accept
    omega
  refine ⟨started, fun conn => ?_, fun t conn rest program destroyed => ?_⟩
  · have := paid.deletes conn
    have := started conn
    omega
  · -- The pending shutdown and the one that destroyed the object are two.
    have pending : 1 ≤ total (Op.shutdowns conn) c.prog := by
      have member : Op.shutdown conn ∈ c.prog t := program ▸ List.mem_cons_self
      have weight := Interleaving.Machine.le_total (Op.shutdowns conn) member
      rwa [Op.shutdowns, if_pos ⟨rfl, Nat.le_refl _⟩] at weight
    have deleted : 1 ≤ c.shared.deletes conn := List.count_pos_iff.mpr destroyed
    have := paid.starts conn
    have := paid.deletes conn
    have := paid.single conn.accept
    omega

/-- In every run, under any interleaving of hang-ups, idle expiry and deferred
shutdowns, in which no connection gets a second request, each is torn down at
most once. -/
theorem tornDownOnce_of_singleRequest (serverfd : Nat) (ssl : Bool) (maxIdle : Int32)
    (schedule : Schedule n)
    (single : (server n).Along SingleRequest schedule (init n serverfd ssl maxIdle)) :
    (server n).Always TornDownOnce schedule (init n serverfd ssl maxIdle) :=
  Interleaving.Machine.always_of_invariant Paid
    (fun _ _ _ _ paid guard taken => paid.step guard taken) (fun _ paid => paid.tornDownOnce)
    (Paid.init serverfd ssl maxIdle) single

/-- The handler of a new connection calls `DeferredShutdown()` `k` times, and the
executor runs what is queued. -/
def deferredRun (k later : Nat) : Schedule 1 :=
  acceptOne 3 5 ++ steps .only 3 ++
    (List.replicate k (choose .only
      { handler := .acts (.deferredShutdown ⟨0, 0⟩) })).flatten ++
    steps .only later

theorem tornDownOnce_of_one_deferred :
    (server 1).Always TornDownOnce (deferredRun 1 12) (init 1 3 false (-1)) :=
  tornDownOnce_of_singleRequest 3 false (-1) (deferredRun 1 12) (by decide)

/-- Called twice, the second task shuts down and deletes a destroyed object. -/
theorem tornDownOnce_fails :
    (∃ c, (server 1).run (deferredRun 2 14) (init 1 3 false (-1)) = some c ∧
      c.prog .only = [.shutdown ⟨0, 0⟩, .takeTask] ∧ c.shared.Destroyed ⟨0, 0⟩ ∧
      ¬ TornDownOnce c) ∧
    ∃ c, (server 1).run (deferredRun 2 19) (init 1 3 false (-1)) = some c ∧
      c.shared.starts ⟨0, 0⟩ = 2 ∧ c.shared.deletes ⟨0, 0⟩ = 2 ∧ ¬ TornDownOnce c := by
  refine ⟨⟨_, rfl, rfl, by decide, fun once => ?_⟩, ⟨_, rfl, by decide, by decide,
    fun once => ?_⟩⟩
  · exact once.live .only ⟨0, 0⟩ _ rfl (by decide)
  · exact absurd (once.started ⟨0, 0⟩) (by decide)

end ServerConfig

end LibSiot
