/-
Module: LibSiot.Proofs.Server.TerminationNotice
Purpose: `ConnectionTerminated` and the connection it is about: the connection
  still exists while the callback runs, in every run in which the reaper expires
  nothing, each connection is shut down on one request, and the listening thread
  comes to delete it after the task for the callback is over.
Trusted boundary: none
Main exports: ServerConfig.Outstanding, ServerConfig.NoticeFirst,
  ServerConfig.NoticeOnLive, ServerConfig.noticeOnLive_of_noticeFirst
-/
import LibSiot.Proofs.Server.ReadLocks
import LibSiot.Proofs.Server.Teardown

namespace LibSiot

open Interleaving (Flow)
open Interleaving.Machine (pushes AllOps le_total)

/-- The connection that a task tells `ConnectionTerminated` about. -/
def Closure.notified : Closure → Option Handle
  | .connectionTerminated conn => some conn
  | .lockCallAndUnlock .connectionTerminated conn => some conn
  | _ => none

namespace Op

/-- The connection that an operation tells `ConnectionTerminated` about, be it
that the task is about to be queued, the callback to be called, or running. -/
def notified : Op → Option Handle
  | .addTask task => task.notified
  | .call .connectionTerminated conn => some conn
  | .running .connectionTerminated conn => some conn
  | _ => none

/-- The connection that an operation deletes. -/
def deletes : Op → Option Handle
  | .delete conn => some conn
  | _ => none

/-- The connection that an operation shuts down or deletes. -/
def dismantles : Op → Option Handle
  | .shutdown conn => some conn
  | .delete conn => some conn
  | _ => none

/-- The connection that an operation decides to tell `ConnectionTerminated`
about: the hang-up branch for a live entry, and the idle expiry of the reaper. -/
def notifies {n : Nat} (s : ServerState n) : Op → Option Handle
  | .lookup fd events =>
      if selectBranch events = some .hangup then (s.connections.lookup fd).join else none
  | .reapShutdown conn => if s.isShutdownOf conn then none else some conn
  | _ => none

end Op

namespace ServerState

variable {n : Nat} {t : Tid n} {e : Choice} {s s' : ServerState n} {op : Op}
  {flow : Flow Op} {conn : Handle}

/-! ### One step -/

/-- A notification that a step leaves to its thread was decided in this step, was
the operation itself, or comes from the queue. -/
theorem Rule.notified (rule : Rule t e s op flow s') {new : Op} (member : new ∈ pushes flow)
    (notified : new.notified = some conn) :
    op.notified = some conn ∨ op.notifies s = some conn ∨
      ∃ task ∈ s.executor, task.notified = some conn := by
  cases rule with
  | lookupHangup fd events other entry selects =>
      simp only [pushes, List.mem_cons, List.not_mem_nil, or_false] at member
      rcases member with rfl | rfl
      · right; left
        rw [Op.notifies, if_pos selects, entry]
        exact notified
      · cases notified
  | reapExpired other up =>
      simp only [pushes, List.mem_cons, List.not_mem_nil, or_false] at member
      rcases member with rfl | rfl
      · cases notified
      · right; left
        rw [Op.notifies, up]
        exact notified
  | takeTask task tasks queue =>
      have queued : task.notified = some conn := by
        rcases List.mem_append.mp member with member | member
        · cases task with
          | lockCallAndUnlock callback other =>
              simp only [taskOps, List.mem_cons, List.not_mem_nil, or_false] at member
              rcases member with rfl | rfl | rfl | rfl
              · cases notified
              · cases callback <;> exact notified
              · cases notified
              · cases notified
          | connectionTerminated other =>
              rw [List.mem_singleton.mp member] at notified
              exact notified
          | shutdown other =>
              rw [List.mem_singleton.mp member] at notified
              cases notified
        · rw [List.mem_singleton.mp member] at notified
          cases notified
      exact Or.inr (Or.inr ⟨task, queue ▸ List.mem_cons_self, queued⟩)
  | call callback other =>
      rw [List.mem_singleton.mp member] at notified
      cases callback <;> exact Or.inl notified
  | shutdown other =>
      rcases mem_shutdownOps member with rfl | rfl | member | rfl
      · cases notified
      · cases notified
      · rcases mem_shutdownBody member with rfl | rfl | rfl | ⟨_, rfl, _⟩ | rfl <;> cases notified
      · cases notified
  | callbackUses callback other used =>
      rcases mem_useOps_append member with rfl | rfl | rfl | rfl
      · cases notified
      · cases notified
      · cases notified
      · exact Or.inl notified
  | drain | userUses =>
      rcases mem_useOps_append member with rfl | rfl | rfl | rfl <;> cases notified
  | deregister other =>
      obtain ⟨fd, _, rfl | rfl | rfl | rfl⟩ := mem_dequeueOps member <;> cases notified
  | callbackSetMaxIdle | callbackShutdownServer | callbackDefers =>
      rw [List.mem_singleton.mp member] at notified
      exact Or.inl notified
  | _ => exact absurd notified (ne_some_of_all rfl member)

/-- Notifications get into the queue only by `addTask`. -/
theorem Rule.queued (rule : Rule t e s op flow s') {task : Closure}
    (member : task ∈ s'.executor) (notified : task.notified = some conn) :
    task ∈ s.executor ∨ op.notified = some conn := by
  cases rule with
  | addTask added =>
      rcases List.mem_append.mp member with old | new
      · exact Or.inl old
      · rw [List.mem_singleton.mp new] at notified
        exact Or.inr notified
  | callbackDefers callback other deferred acts made =>
      rcases List.mem_append.mp member with old | new
      · exact Or.inl old
      · rw [List.mem_singleton.mp new] at notified
        cases notified
  | userDefers deferred acts made =>
      rcases List.mem_append.mp member with old | new
      · exact Or.inl old
      · rw [List.mem_singleton.mp new] at notified
        cases notified
  | takeTask first tasks queue => exact Or.inl (queue ▸ List.mem_cons_of_mem _ member)
  | _ => exact Or.inl member

/-- Only `delete` destroys. -/
theorem Rule.destroyed (rule : Rule t e s op flow s') (destroyed : s'.Destroyed conn) :
    s.Destroyed conn ∨ op.deletes = some conn := by
  cases rule with
  | delete other =>
      rcases List.mem_cons.mp destroyed with same | old
      · cases same
        exact Or.inr rfl
      · exact Or.inl old
  | constructorThrew | decoratedNull | decorated | indeterminateDecorated | lookupHangup
  | reapExpired | call | callbackDefers | shutdown | erase | userDefers =>
      exact Or.inl ((List.mem_cons.mp destroyed).resolve_left (by simp))
  | _ => exact Or.inl destroyed

/-- Who comes to take a connection down does so with one around it, or found it in the
pool, or in the queue, or expires it. -/
theorem Rule.dismantles (rule : Rule t e s op flow s') {new : Op} (member : new ∈ pushes flow)
    (dismantles : new.dismantles = some conn) :
    (∃ outer : Handle, op = .shutdown outer ∧ conn.accept = outer.accept) ∨
      (∃ fd events, op = .lookup fd events) ∨ (op = .takeTask ∧ .shutdown conn ∈ s.executor) ∨
        op.expires s = some conn := by
  cases new with
  | shutdown other =>
      cases dismantles
      rcases rule.tears member rfl with ⟨outer, is, same, _⟩ |
        ⟨_, ⟨fd, events, is, _⟩ | task | ⟨rfl, up⟩⟩
      · exact Or.inl ⟨outer, is, same⟩
      · exact Or.inr (Or.inl ⟨fd, events, is⟩)
      · exact Or.inr (Or.inr (Or.inl task))
      · exact Or.inr (Or.inr (Or.inr (by simp [Op.expires, up])))
  | delete other =>
      cases dismantles
      exact Or.inl ⟨conn, rule.brackets member (decide_eq_true rfl), rfl⟩
  | _ => cases dismantles

/-- A lookup that decides on a notice notes the hang-up. -/
theorem Rule.requested_of_notifies {fd : Nat} {events : UInt32}
    (rule : Rule t e s (.lookup fd events) flow s')
    (decided : Op.notifies s (.lookup fd events) = some conn) : s'.Requested conn.accept := by
  cases rule with
  | lookupHangup fd events other entry selects =>
      rw [Op.notifies, if_pos selects, entry] at decided
      cases decided
      simp [Requested, requests, record, Event.requests]
  | lookupError fd events other entry selects | lookupDataReady fd events other entry selects
  | lookupUnselected fd events other entry selects =>
      simp [Op.notifies, selects] at decided
  | lookupNull fd events entry | lookupMissing fd events entry =>
      simp [Op.notifies, entry] at decided

end ServerState

namespace ServerConfig

open ServerState

variable {n : Nat}

/-- `ConnectionTerminated` is still to be called for a connection, or running. -/
def Outstanding (c : ServerConfig n) (conn : Handle) : Prop :=
  (∃ task ∈ c.shared.executor, task.notified = some conn) ∨
    ∃ t, ∃ op ∈ c.prog t, op.notified = some conn

instance (c : ServerConfig n) (conn : Handle) : Decidable (Outstanding c conn) :=
  inferInstanceAs (Decidable (_ ∨ _))

/-- In the step the reaper expires no connection, no connection gets a second request
for a shutdown, and the listening thread deletes none of which it queued a
`ConnectionTerminated` task that is still queued, to be called or running. -/
def NoticeFirst (c : ServerConfig n) (t : Tid n) (e : Choice) : Prop :=
  Next (fun op e s =>
    op.expires s = none ∧ (∀ conn ∈ op.requests e s, ¬ s.Requested conn.accept) ∧
      (t = .listen → ∀ conn ∈ op.deletes, ¬ Outstanding c conn)) c t e

instance (c : ServerConfig n) (t : Tid n) (e : Choice) : Decidable (NoticeFirst c t e) :=
  inferInstanceAs (Decidable (Next (fun op e s =>
    op.expires s = none ∧ (∀ conn ∈ op.requests e s, ¬ s.Requested conn.accept) ∧
      (t = .listen → ∀ conn ∈ op.deletes, ¬ Outstanding c conn)) c t e))

/-- While `ConnectionTerminated(conn)` runs, `conn` was not destroyed. -/
def NoticeOnLive (c : ServerConfig n) : Prop :=
  ∀ t conn, .running .connectionTerminated conn ∈ c.prog t → ¬ c.shared.Destroyed conn

theorem single_of_noticeFirst {c : ServerConfig n} {t : Tid n} {e : Choice}
    (first : NoticeFirst c t e) : SingleRequest c t e := by
  simp only [NoticeFirst, SingleRequest, Next] at first ⊢
  split
  · trivial
  · rename_i op rest program
    rw [program] at first
    exact first.2.1

/-! ### Who takes a connection down -/

/-- The shutdown of the connection was requested, and no thread but the listening one, and
no task, is to shut down or delete an object of it. -/
structure WithListener (c : ServerConfig n) (accept : Nat) : Prop where
  requested : c.shared.Requested accept
  queued : ∀ conn, .shutdown conn ∈ c.shared.executor → conn.accept ≠ accept
  others : ∀ t, t ≠ .listen → ∀ op ∈ c.prog t, ∀ conn, op.dismantles = some conn →
    conn.accept ≠ accept

variable {c c' : ServerConfig n} {t : Tid n} {e : Choice} {op : Op} {rest : List Op}
  {flow : Flow Op} {accept : Nat} {conn : Handle}

/-- Where no shutdown was requested, none is under way. -/
theorem Paid.unrequested (paid : Paid c) (fresh : ¬ c.shared.Requested accept) :
    (∀ conn, .shutdown conn ∈ c.shared.executor → conn.accept ≠ accept) ∧
      (∀ t, ∀ op ∈ c.prog t, ∀ conn, op.dismantles = some conn → conn.accept ≠ accept) ∧
      ∀ conn, c.shared.Destroyed conn → conn.accept ≠ accept := by
  have none : c.shared.requests accept = 0 := not_not.mp fresh
  refine ⟨?_, ?_, ?_⟩
  · rintro conn queued rfl
    have weight : Closure.shutdowns conn (.shutdown conn) ≤ c.shared.queued conn :=
      List.single_le_sum (fun _ _ => Nat.zero_le _) _ (List.mem_map_of_mem queued)
    rw [Closure.shutdowns, if_pos ⟨rfl, Nat.le_refl _⟩] at weight
    have := paid.starts conn
    omega
  · rintro t op member conn dismantles rfl
    have starts := paid.starts conn
    have deletes := paid.deletes conn
    cases op with
    | shutdown other =>
        cases dismantles
        have weight := le_total (Op.shutdowns conn) member
        rw [Op.shutdowns, if_pos ⟨rfl, Nat.le_refl _⟩] at weight
        omega
    | delete other =>
        cases dismantles
        have weight := le_total (Op.deletions conn) member
        rw [Op.deletions, if_pos rfl] at weight
        omega
    | _ => cases dismantles
  · rintro conn destroyed rfl
    have deleted : 0 < c.shared.deletes conn := List.count_pos_iff.mpr destroyed
    have := paid.starts conn
    have := paid.deletes conn
    omega

/-- What is left to the listening thread stays with it, as long as nobody else requests the
shutdown, too. -/
theorem WithListener.step (mine : WithListener c accept) (taken : Taken c c' t e op rest flow)
    (listens : op.listens = true → t = .listen) (decides : ∀ conn, op ≠ .addTask (.shutdown conn))
    (first : NoticeFirst c t e) : WithListener c' accept := by
  obtain ⟨expires, single, _⟩ := first.of_prog taken.program
  refine ⟨taken.rule.stays_requested mine.requested, ?_, ?_⟩
  · intro conn queued
    rcases taken.rule.queued_shutdown queued with old | impossible | ⟨user, acts, _⟩
    · exact mine.queued conn old
    · exact absurd impossible (decides conn)
    · have requests : conn ∈ op.requests e c.shared := by
        rcases user with ⟨callback, other, rfl⟩ | rfl <;> simp [Op.requests, acts]
      rintro rfl
      exact single conn requests mine.requested
  · intro t' other op' member conn dismantles
    rcases taken.mem member with ⟨rfl, pushed⟩ | ⟨rfl, old⟩ | ⟨_, old⟩
    · rcases taken.rule.dismantles pushed dismantles with ⟨outer, rfl, same⟩ | ⟨_, _, rfl⟩ |
        ⟨_, queued⟩ | expired
      · rw [same]
        exact mine.others t' other _ taken.first outer rfl
      · exact absurd (listens rfl) other
      · exact mine.queued conn queued
      · rw [expires] at expired
        cases expired
    · exact mine.others t' other op' (taken.program ▸ List.mem_cons_of_mem _ old) conn dismantles
    · exact mine.others t' other op' old conn dismantles

/-! ### The invariant -/

/-- Shutdowns are paid for by requests; and a connection about which a notice is
outstanding exists, and is the listening thread's to take down. -/
structure Noticed (c : ServerConfig n) : Prop where
  paid : Paid c
  listens : AllOps (fun _ t op => op.listens = true → t = .listen) c
  decides : AllOps (fun _ _ op => ∀ conn, op ≠ .addTask (.shutdown conn)) c
  mine : ∀ conn, Outstanding c conn → WithListener c conn.accept
  live : ∀ conn, Outstanding c conn → ¬ c.shared.Destroyed conn

theorem Noticed.init (serverfd : Nat) (ssl : Bool) (maxIdle : Int32) :
    Noticed (init n serverfd ssl maxIdle) where
  paid := Paid.init serverfd ssl maxIdle
  listens := forall_init (fun _ => rfl) nofun (fun _ => nofun) nofun
  decides := forall_init nofun nofun (fun _ => nofun) nofun
  mine conn outstanding := by
    rcases outstanding with ⟨task, queued, _⟩ | ⟨t, op, member, notified⟩
    · cases queued
    · have quiet : ∀ t, ∀ op ∈ (ServerConfig.init n serverfd ssl maxIdle).prog t,
          op.notified = none := forall_init rfl rfl (fun _ => rfl) rfl
      rw [quiet t op member] at notified
      cases notified
  live conn _ destroyed := by cases destroyed

/-- What is outstanding after a step was so before, or is decided on in it. -/
theorem outstanding_of_step (taken : Taken c c' t e op rest flow)
    (outstanding : Outstanding c' conn) :
    Outstanding c conn ∨ op.notifies c.shared = some conn := by
  rcases outstanding with ⟨task, member, notified⟩ | ⟨t', op', member, notified⟩
  · rcases taken.rule.queued member notified with old | added
    · exact Or.inl (Or.inl ⟨task, old, notified⟩)
    · exact Or.inl (Or.inr ⟨t, op, taken.first, added⟩)
  · rcases taken.mem member with ⟨rfl, pushed⟩ | ⟨rfl, old⟩ | ⟨_, old⟩
    · rcases taken.rule.notified pushed notified with was | decided | queued
      · exact Or.inl (Or.inr ⟨t', op, taken.first, was⟩)
      · exact Or.inr decided
      · exact Or.inl (Or.inl queued)
    · exact Or.inl (Or.inr ⟨t', op', taken.program ▸ List.mem_cons_of_mem _ old, notified⟩)
    · exact Or.inl (Or.inr ⟨t', op', old, notified⟩)

namespace Noticed

/-- Who decides on a notice is the listening thread, by a hang-up, and nothing was asked
of the connection before. -/
theorem hangup_of_notifies (inv : Noticed c) (taken : Taken c c' t e op rest flow)
    (first : NoticeFirst c t e) (decided : op.notifies c.shared = some conn) :
    ∃ fd events, op = .lookup fd events ∧ t = .listen ∧ ¬ c.shared.Requested conn.accept := by
  obtain ⟨expires, single, _⟩ := first.of_prog taken.program
  cases op with
  | lookup fd events =>
      exact ⟨fd, events, rfl, inv.listens t _ taken.first rfl, single conn decided⟩
  | reapShutdown other =>
      change Op.expires c.shared (.reapShutdown other) = some conn at decided
      rw [expires] at decided
      cases decided
  | _ => cases decided

/-- A notice that is decided on in a step leaves the connection to the listening thread. -/
theorem mine_of_notifies (inv : Noticed c) (taken : Taken c c' t e op rest flow)
    (first : NoticeFirst c t e) (decided : op.notifies c.shared = some conn) :
    WithListener c' conn.accept := by
  obtain ⟨fd, events, rfl, rfl, fresh⟩ := inv.hangup_of_notifies taken first decided
  obtain ⟨queued, others, _⟩ := inv.paid.unrequested fresh
  refine ⟨taken.rule.requested_of_notifies decided, ?_, ?_⟩
  · intro other member
    rcases taken.rule.queued_shutdown member with old | impossible |
      ⟨⟨_, _, impossible⟩ | impossible, _⟩
    · exact queued other old
    · cases impossible
    · cases impossible
    · cases impossible
  · intro t' other op' member
    rw [taken.other other] at member
    exact others t' op' member

theorem step (inv : Noticed c) (first : NoticeFirst c t e)
    (stepped : (server n).step t e c = some c') : Noticed c' := by
  obtain ⟨op, rest, flow, program, rule, progs⟩ := rule_of_step stepped
  have taken : Taken c c' t e op rest flow := ⟨program, rule, progs⟩
  obtain ⟨_, single, after⟩ := first.of_prog program
  refine ⟨inv.paid.step (single_of_noticeFirst first) stepped, taken.listens inv.listens, ?_, ?_,
    ?_⟩
  · rintro t' _ member conn rfl
    rcases taken.mem member with ⟨rfl, pushed⟩ | ⟨rfl, old⟩ | ⟨_, old⟩
    · exact rule.queues_no_shutdown pushed
    · exact inv.decides t' _ (program ▸ List.mem_cons_of_mem _ old) conn rfl
    · exact inv.decides t' _ old conn rfl
  · intro conn outstanding
    rcases outstanding_of_step taken outstanding with old | decided
    · exact (inv.mine conn old).step taken (inv.listens t op taken.first)
        (inv.decides t op taken.first) first
    · exact inv.mine_of_notifies taken first decided
  · intro conn outstanding destroyed
    rcases outstanding_of_step taken outstanding with old | decided
    · rcases rule.destroyed destroyed with before | deletes
      · exact inv.live conn old before
      · -- It is the listening thread that deletes, and it comes to that after the notice.
        by_cases listens : t = .listen
        · exact after listens conn deletes old
        · cases op <;> cases deletes
          exact (inv.mine conn old).others t listens _ taken.first conn rfl rfl
    · obtain ⟨fd, events, rfl, _, fresh⟩ := inv.hangup_of_notifies taken first decided
      rcases rule.destroyed destroyed with before | impossible
      · exact (inv.paid.unrequested fresh).2.2 conn before rfl
      · cases impossible

end Noticed

/-! ### Every run -/

/-- In every run, under any interleaving, in which the reaper expires nothing, each
connection gets one request for a shutdown at most, and the listening thread comes to
delete a connection after the task with its `ConnectionTerminated` is over, the callback
runs on existing connections only. -/
theorem noticeOnLive_of_noticeFirst (serverfd : Nat) (ssl : Bool) (maxIdle : Int32)
    (schedule : Schedule n)
    (first : (server n).Along NoticeFirst schedule (init n serverfd ssl maxIdle)) :
    (server n).Always NoticeOnLive schedule (init n serverfd ssl maxIdle) := by
  refine Interleaving.Machine.always_of_invariant Noticed
    (fun c t e c' inv guard stepped => inv.step guard stepped) ?_
    (Noticed.init serverfd ssl maxIdle) first
  intro c inv t conn member
  exact inv.live conn (Or.inr ⟨t, _, member, rfl⟩)

/-- A connection that is hung up, up to its `ConnectionTerminated` task. -/
def hangupRun : Schedule 1 :=
  acceptOne 3 5 ++ steps .only 6 ++ steps .listen 1 ++
    choose .listen { ready := some [⟨5, EPOLLHUP⟩] } ++ steps .listen 3

/-- The executor runs the task at once, before the listening thread deletes. -/
def promptNoticeRun : Schedule 1 :=
  hangupRun ++ steps .only 3 ++ steps .listen 10

theorem noticeOnLive_of_prompt_notice :
    (server 1).Always NoticeOnLive promptNoticeRun (init 1 3 false (-1)) :=
  noticeOnLive_of_noticeFirst 3 false (-1) promptNoticeRun (by decide)

/-- The listening thread deletes the connection, and the executor runs the task
afterwards. -/
def lateNoticeRun : Schedule 1 :=
  hangupRun ++ steps .listen 9 ++ steps .only 2

/-- The reaper expires an idle connection and tells about it after `Shutdown()`. -/
def idleExpiryRun : Schedule 1 :=
  acceptOne 3 5 ++ steps .only 6 ++ steps .reaper 3 ++ choose .reaper { now := 100 } ++
    steps .reaper 10

theorem noticeOnLive_fails :
    (∃ c, (server 1).run lateNoticeRun (init 1 3 false (-1)) = some c ∧
      c.prog .only = [.running .connectionTerminated ⟨0, 0⟩, .takeTask] ∧
      c.shared.Destroyed ⟨0, 0⟩ ∧ ¬ NoticeOnLive c) ∧
    (∃ c, (server 1).run idleExpiryRun (init 1 3 false 1) = some c ∧
      c.shared.Destroyed ⟨0, 0⟩ ∧ ¬ NoticeOnLive c) := by
  refine ⟨⟨_, rfl, rfl, by decide, fun live => ?_⟩, ⟨_, rfl, by decide, fun live => ?_⟩⟩
  · exact live .only ⟨0, 0⟩ (by decide) (by decide)
  · exact live .reaper ⟨0, 0⟩ (by decide) (by decide)

end ServerConfig

end LibSiot
