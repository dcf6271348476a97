/-
Module: LibSiot.Proofs.Server.Progress
Purpose: Where the waits for locks end.  A thread that waits for a lock waits, through
  others, for a thread that goes on, or for a task in the queue, which the threads for
  tasks take unless all of them wait for locks themselves.
Trusted boundary: none
Main exports: ServerConfig.GoesOn, ServerConfig.Blocked, ServerConfig.Resolves,
  ServerConfig.progresses_of_cooperates
-/
import LibSiot.Proofs.Server.Deadlock
import LibSiot.Proofs.Server.LockBalance

namespace LibSiot

open Interleaving (Flow)
open Interleaving.Machine (pushes total)
open Relation (TransGen)
open RwLock (Mode)

namespace ServerConfig

open ServerState

variable {n : Nat}

/-- The thread takes a step, for some choice of the environment. -/
def GoesOn (c : ServerConfig n) (t : Tid n) : Prop :=
  ∃ e, ((server n).step t e c).isSome = true

/-- The thread is about to take a lock, and has to wait. -/
structure Blocked (c : ServerConfig n) (t : Tid n) : Prop where
  asks : ∃ op ∈ (c.prog t).head?, ∃ name, op.asks = some name
  waits : ¬ GoesOn c t

/-- Where the waits of an actor end. -/
inductive Resolves (c : ServerConfig n) (a : Actor n) : Prop where
  /-- A thread in the way goes on. -/
  | thread (t : Tid n) (path : TransGen (WaitsFor c) a (.thread t)) (goesOn : GoesOn c t)
  /-- A queued task is in the way, and a thread for tasks goes on. -/
  | task (task : Closure) (queued : task ∈ c.shared.executor)
      (path : TransGen (WaitsFor c) a (.task task)) (served : ∃ i, GoesOn c (.worker i))
  /-- A queued task is in the way, and all threads for tasks wait for locks. -/
  | starved (task : Closure) (queued : task ∈ c.shared.executor)
      (path : TransGen (WaitsFor c) a (.task task)) (waiting : ∀ i, Blocked c (.worker i))

/-- Whoever waits for a lock does so for someone who goes on, unless no thread for tasks is
left.  Nothing is said of a server that crashed. -/
def Progresses (c : ServerConfig n) : Prop :=
  c.shared.nullDereference = false → ∀ t, Blocked c t → Resolves c (.thread t)

/-- In the step no constructor, draining loop or `AddDecorators` throws, no callback throws
that has a read lock to give back, the reaper expires no connection with a read lock
outstanding, and callbacks under `connections_lock_` use no TLS connection in the middle of
its shutdown. -/
def Cooperates (c : ServerConfig n) (t : Tid n) (e : Choice) : Prop :=
  Orderly c t e ∧ Apart c t e ∧ Contained c t e

instance (c : ServerConfig n) (t : Tid n) (e : Choice) : Decidable (Cooperates c t e) :=
  inferInstanceAs (Decidable (_ ∧ _))

/-! ### What is not blocked -/

/-- Only locks, and an empty queue, make a thread wait, if nothing else is in its way. -/
theorem exec_isSome (t : Tid n) {op : Op} (s : ServerState n) (asks : op.asks = none)
    (queue : op = .takeTask → s.executor ≠ []) : (s.exec t op {}).isSome = true := by
  cases op with
  | lock name | readLock name => cases asks
  | takeTask =>
      obtain ⟨task, tasks, queued⟩ := List.exists_cons_of_ne_nil (queue rfl)
      simp [exec, takeTask, queued, goOn]
  | listenWhile => simp only [exec, listenWhile]; split <;> rfl
  | forLoop i nfds =>
      simp only [exec, forLoop]
      repeat' split
      all_goals rfl
  | construct clientfd => simp only [exec, construct]; split <;> rfl
  | addDecorators clientfd conn => cases conn <;> rfl
  | epollAdd clientfd conn => cases conn <;> rfl
  | lookup fd events => simp only [exec, lookup]; split <;> rfl
  | find fd conn => simp only [exec, find]; split <;> rfl
  | reapWait maxIdle => simp only [exec, reapWait]; split <;> rfl
  | reapNext maxIdle tm after =>
      simp only [exec, reapNext]
      repeat' split
      all_goals rfl
  | reapShutdown conn => simp only [exec, reapShutdown]; split <;> rfl
  | epollDel fd => simp only [exec, epollDel]; split <;> rfl
  | epollWait => simp [exec, epollWait, goOn]
  | _ => rfl

variable {c c' : ServerConfig n} {t : Tid n} {e : Choice} {op : Op} {rest : List Op}
  {flow : Flow Op} {k : TaskHistory n} {a b : Actor n}

theorem goesOn_of_exec (program : c.prog t = op :: rest)
    (executed : (c.shared.exec t op e).isSome = true) : GoesOn c t := by
  obtain ⟨⟨flow, shared⟩, result⟩ := Option.isSome_iff_exists.mp executed
  exact ⟨e, by rw [(server n).step_of_exec program result]; rfl⟩

theorem goesOn_of_next (program : c.prog t = op :: rest) (asks : op.asks = none)
    (queue : op = .takeTask → c.shared.executor ≠ []) : GoesOn c t :=
  goesOn_of_exec program (exec_isSome t c.shared asks queue)

/-- A thread that takes a lock goes on if it is free for that. -/
theorem goesOn_or_held {name : LockName} (program : c.prog t = op :: rest)
    (asks : op.asks = some name) :
    GoesOn c t ∨ (c.shared.locks name).writer ≠ none ∨
      (op = .lock name ∧ (c.shared.locks name).readers ≠ []) := by
  by_cases unwritten : (c.shared.locks name).writer = none
  · cases op with
    | lock other =>
        cases asks
        by_cases unread : (c.shared.locks name).readers = []
        · refine Or.inl (goesOn_of_exec (e := {}) program ?_)
          simp [exec, ServerState.lock, RwLock.lock, unwritten, unread, goOn]
        · exact Or.inr (Or.inr ⟨rfl, unread⟩)
    | readLock other =>
        cases asks
        refine Or.inl (goesOn_of_exec (e := {}) program ?_)
        simp [exec, ServerState.readLock, RwLock.readLock, unwritten, goOn]
    | _ => cases asks
  · exact Or.inr (Or.inl unwritten)

/-! ### Who is in the way -/

/-- While a thread is about to take a read lock, it owes no more than that one. -/
theorem Balance.owes_of_locking (bal : Balance k c) {conn : Handle} {rest : List Op}
    (program : c.prog t = .readLock (.connection conn) :: rest) :
    ((c.prog t).map (Op.owes conn)).sum ≤ ((c.prog t).map (Op.awaits conn)).sum := by
  obtain ⟨_, callback, post, rfl⟩ := bal.counted.locked t [] conn rest program
  have none : (post.map (Op.owes conn)).sum = 0 := by
    apply List.sum_eq_zero
    intro weight weighed
    obtain ⟨later, after, rfl⟩ := List.mem_map.mp weighed
    have returns := bal.counted.not_returnsLock_of_later program rfl
      (List.mem_cons_of_mem _ after)
    refine Op.owes_eq_zero returns ?_
    obtain ⟨pre, post', rfl⟩ := List.append_of_mem after
    cases later with
    | addTask task =>
        cases task with
        | lockCallAndUnlock callback' conn' =>
            have split := bal.counted.handed t (.readLock (.connection conn) ::
              .addTask (.lockCallAndUnlock callback conn) :: pre) callback' conn' post' program
            rcases split with impossible | impossible <;> cases impossible
        | _ => rfl
    | _ => rfl
  rw [program]
  simp [Op.awaits, Op.owes, none]

/-- Who owes more read locks of a connection than it is about to take has one. -/
theorem Balance.reads_of_owes (bal : Balance k c) {conn : Handle}
    (more : ((c.prog t).map (Op.awaits conn)).sum < ((c.prog t).map (Op.owes conn)).sum) :
    Reads c conn (.thread t) := by
  obtain ⟨weight, member, owed⟩ := List.exists_mem_ne_zero_of_sum_ne_zero (Nat.ne_zero_of_lt more)
  obtain ⟨op, there, rfl⟩ := List.mem_map.mp member
  cases op with
  | unlock name destructor =>
      cases name with
      | connections | ssl => exact absurd rfl owed
      | connection other =>
          cases destructor with
          | true => exact absurd rfl owed
          | false =>
              have same : other = conn := by
                by_contra differ
                exact owed (if_neg differ)
              exact Or.inr ⟨_, there, by rw [same]; rfl⟩
  | addTask task =>
      cases task with
      | lockCallAndUnlock callback other =>
          obtain rfl : other = conn := by
            by_contra differ
            exact owed (if_neg differ)
          obtain ⟨pre, post, program⟩ := List.append_of_mem there
          rcases bal.counted.handed t pre callback other post program with rfl | rfl
          · left
            rw [todo, program]
            rfl
          · exact absurd (bal.owes_of_locking program) (Nat.not_le.mpr more)
      | _ => exact absurd rfl owed
  | _ => exact absurd rfl owed

/-- A lock that is held for reading is held by somebody. -/
theorem Balance.exists_reads (bal : Balance k c) {conn : Handle}
    (reads : (c.shared.locks (.connection conn)).readers ≠ []) : ∃ b, Reads c conn b := by
  have positive := List.length_pos_iff.mpr reads
  have counted := bal.tasks conn
  by_cases queued : c.shared.queuedFor conn = 0
  · have more : ∃ t, ((c.prog t).map (Op.awaits conn)).sum <
        ((c.prog t).map (Op.owes conn)).sum := by
      by_contra none
      have le : total (Op.owes conn) c.prog ≤ total (Op.awaits conn) c.prog :=
        Finset.sum_le_sum fun t _ => Nat.not_lt.mp fun less => none ⟨t, less⟩
      omega
    obtain ⟨t, more⟩ := more
    exact ⟨.thread t, bal.reads_of_owes more⟩
  · obtain ⟨task, member, reserves⟩ := List.countP_pos_iff.mp (Nat.pos_of_ne_zero queued)
    refine ⟨.task task, Or.inr ⟨.unlock (.connection conn) false, ?_, rfl⟩⟩
    rw [todo, if_pos member]
    cases task with
    | lockCallAndUnlock callback other =>
        cases of_decide_eq_true reserves
        exact .tail _ (.tail _ (.head _))
    | _ => cases of_decide_eq_true reserves

/-- Who cannot take a lock at once waits for somebody. -/
theorem Balance.exists_waitsFor (bal : Balance k c) (ssl : SslInvariant c) {name : LockName}
    (next : c.todo a = op :: rest) (asks : op.asks = some name)
    (held : (c.shared.locks name).writer ≠ none ∨
      (op = .lock name ∧ (c.shared.locks name).readers ≠ [])) : ∃ b, WaitsFor c a b := by
  have waits : ∀ b, (op = .lock name → Holds c name b) → (op = .readLock name → Writes c name b) →
      WaitsFor c a b := by
    intro b locks reads
    rw [WaitsFor, next]
    cases op with
    | lock other =>
        cases asks
        exact locks rfl
    | readLock other =>
        cases asks
        exact reads rfl
    | _ => cases asks
  rcases held with written | ⟨rfl, read⟩
  · obtain ⟨t, writer⟩ := Option.ne_none_iff_exists'.mp written
    have writes : Writes c name (.thread t) := writer
    refine ⟨.thread t, waits _ (fun _ => ?_) fun _ => writes⟩
    cases name with
    | connections => exact writes.holds
    | connection conn => exact Or.inl writes
    | ssl accept => exact writes
  · cases name with
    | ssl accept => exact absurd (ssl.unread accept) read
    | connections =>
        obtain ⟨t, reads⟩ := List.exists_mem_of_ne_nil _ read
        exact ⟨.thread t, waits _ (fun _ => RwLock.mode_ne_idle reads)
          fun impossible => by cases impossible⟩
    | connection conn =>
        obtain ⟨b, reads⟩ := bal.exists_reads read
        exact ⟨b, waits b (fun _ => Or.inr reads) fun impossible => by cases impossible⟩

theorem busy_of_mem {later : Op} (member : later ∈ c.prog t)
    (other : ∀ rest, c.prog t ≠ .takeTask :: rest) :
    ∃ op rest, c.prog t = op :: rest ∧ op ≠ .takeTask := by
  obtain ⟨op, rest, program⟩ := List.exists_cons_of_ne_nil (List.ne_nil_of_mem member)
  refine ⟨op, rest, program, ?_⟩
  rintro rfl
  exact other rest program

/-- Who holds `connections_lock_` has something to do that is not the next task. -/
theorem busy_of_held (inv : LockInvariant c) (bal : Balance k c)
    (alive : c.shared.nullDereference = false) (notIdle : held c t ≠ .idle) :
    ∃ op rest, c.prog t = op :: rest ∧ op ≠ .takeTask := by
  obtain ⟨later, member, _⟩ := (bal.sectioned alive t).leaves_of_pos (RwLock.holds_pos notIdle)
  refine busy_of_mem member fun rest program => ?_
  obtain ⟨m', moves⟩ := inv.moves program
  generalize mode : held c t = m at moves
  cases moves with
  | stay allowed => exact notIdle (mode.trans (of_decide_eq_true allowed))

/-- So has who holds the lock of a connection. -/
theorem busy_of_holds (inv : LockInvariant c) (ssl : SslInvariant c) (bal : Balance k c)
    (alive : c.shared.nullDereference = false) {name : LockName}
    (holds : Holds c name (.thread t)) :
    ∃ op rest, c.prog t = op :: rest ∧ op ≠ .takeTask := by
  cases name with
  | connections => exact busy_of_held inv bal alive holds
  | ssl accept =>
      obtain ⟨front, post, split, busy⟩ := ssl.gives_back holds
      cases front with
      | nil => exact ⟨_, _, split, nofun⟩
      | cons first front =>
          exact ⟨first, _, split, fun same => busy (same ▸ List.mem_cons_self)⟩
  | connection conn =>
      rcases holds with writes | passes | ⟨op', member, returns⟩
      · obtain ⟨⟨body, post, split, within⟩, _⟩ := inv.sectioned t conn writes
        have member : .delete conn ∈ c.prog t :=
          split ▸ List.mem_append_right _ List.mem_cons_self
        refine busy_of_mem member fun rest program => ?_
        rw [program] at split
        cases body with
        | nil => cases split
        | cons first body =>
            cases split
            exact within _ List.mem_cons_self
      · rw [todo] at passes
        cases program : c.prog t with
        | nil =>
            rw [program] at passes
            cases passes
        | cons op rest =>
            rw [program] at passes
            refine ⟨op, rest, rfl, ?_⟩
            rintro rfl
            cases passes
      · obtain ⟨destructor, rfl⟩ := Op.eq_unlock_of_returns returns
        refine busy_of_mem member fun rest program => ?_
        have ordered := inv.ordered t
        rw [program] at ordered
        rw [todo, program] at member
        rcases List.mem_cons.mp member with impossible | later
        · cases impossible
        · cases (List.pairwise_cons.mp ordered).1 _ later

theorem WaitsFor.holds (waits : WaitsFor c a b) : ∃ name, Holds c name b := by
  obtain ⟨name, rest, ⟨_, holds⟩ | ⟨_, writes⟩⟩ := waits.cases
  · exact ⟨name, holds⟩
  · cases name with
    | connections => exact ⟨_, writes.holds⟩
    | connection conn => exact ⟨.connection conn, Or.inl writes⟩
    | ssl accept => exact ⟨.ssl accept, writes⟩

/-- Each wait leads to a thread that goes on, or to a queued task. -/
theorem exists_resolving (inv : LockInvariant c) (ssl : SslInvariant c) (bal : Balance k c)
    (alive : c.shared.nullDereference = false) (waits : WaitsFor c a b) :
    (∃ t, TransGen (WaitsFor c) a (.thread t) ∧ GoesOn c t) ∨
      ∃ task ∈ c.shared.executor, TransGen (WaitsFor c) a (.task task) := by
  obtain ⟨d, path, a', last, ends⟩ :=
    Interleaving.exists_end_of_rank (rank c) (fun _ _ => rank_lt inv ssl) waits
  obtain ⟨name, holds⟩ := last.holds
  cases d with
  | thread t =>
      obtain ⟨op, rest, program, other⟩ := busy_of_holds inv ssl bal alive holds
      refine Or.inl ⟨t, path, ?_⟩
      cases asks : op.asks with
      | none => exact goesOn_of_next program asks fun next => absurd next other
      | some name' =>
          rcases goesOn_or_held program asks with goesOn | held
          · exact goesOn
          · obtain ⟨b, further⟩ := bal.exists_waitsFor ssl (a := .thread t) program asks held
            exact absurd further (ends b)
  | task task =>
      refine Or.inr ⟨task, ?_, path⟩
      by_contra gone
      have nothing : c.todo (.task task) = [] := if_neg gone
      cases name with
      | connections | ssl => exact holds
      | connection conn =>
          rcases holds with writes | passes | ⟨op, member, _⟩
          · exact writes
          · rw [nothing] at passes
            cases passes
          · rw [nothing] at member
            cases member

/-! ### The threads for tasks -/

/-- A thread for tasks takes the next one in the end, unless the server crashed. -/
def Staffed (c : ServerConfig n) : Prop :=
  c.shared.nullDereference = false → ∀ i, .takeTask ∈ c.prog (.worker i)

theorem Staffed.init (serverfd : Nat) (ssl : Bool) (maxIdle : Int32) :
    Staffed (init n serverfd ssl maxIdle) := fun _ _ => List.mem_cons_self

/-- Only a crash takes the next task from a thread. -/
theorem Rule.takeTask_kept {s s' : ServerState n} (rule : Rule t e s op flow s')
    (alive : s'.nullDereference = false) (member : .takeTask ∈ op :: rest) :
    .takeTask ∈ (server n).continuation flow rest := by
  have kept : .takeTask ∈ rest → .takeTask ∈ (server n).continuation flow rest := by
    intro later
    cases rule with
    | indeterminateNull | reapNull => cases alive
    | waitLeft | acceptThrew | decoratorsThrew | indeterminateThrew | notRegisteredThrew
    | callbackThrows | epollDelThrew | drainThrew => exact List.mem_filter.mpr ⟨later, rfl⟩
    | _ => exact List.mem_append_right _ later
  rcases List.mem_cons.mp member with rfl | later
  · cases rule
    exact List.mem_append_left _ (List.mem_append_right _ List.mem_cons_self)
  · exact kept later

theorem Staffed.step (staffed : Staffed c) (taken : Taken c c' t e op rest flow) :
    Staffed c' := by
  intro alive i
  have before := staffed (taken.rule.nullDereference alive) i
  by_cases same : .worker i = t
  · subst same
    rw [taken.self]
    rw [taken.program] at before
    exact Rule.takeTask_kept taken.rule alive before
  · rw [taken.other same]
    exact before

/-- While a task is queued, each thread for tasks goes on or waits for a lock. -/
theorem Staffed.goesOn_or_blocked (staffed : Staffed c) (alive : c.shared.nullDereference = false)
    (queue : c.shared.executor ≠ []) (i : Fin n) :
    GoesOn c (.worker i) ∨ Blocked c (.worker i) := by
  cases program : c.prog (.worker i) with
  | nil =>
      have member := staffed alive i
      rw [program] at member
      cases member
  | cons op rest =>
      cases asks : op.asks with
      | none => exact Or.inl (goesOn_of_next program asks fun _ => queue)
      | some name =>
          by_cases goesOn : GoesOn c (.worker i)
          · exact Or.inl goesOn
          · exact Or.inr ⟨⟨op, by rw [program]; rfl, name, asks⟩, goesOn⟩

/-- In a state of a run that cooperates, waits end. -/
theorem progresses (inv : LockInvariant c) (ssl : SslInvariant c) (bal : Balance k c)
    (staffed : Staffed c) :
    Progresses c := by
  rintro alive t ⟨⟨op, first, name, asks⟩, waits⟩
  obtain ⟨rest, program⟩ := List.head?_eq_some_iff.mp first
  have held := (goesOn_or_held program asks).resolve_left waits
  obtain ⟨b, edge⟩ := bal.exists_waitsFor ssl (a := .thread t) program asks held
  rcases exists_resolving inv ssl bal alive edge with ⟨t', path, goesOn⟩ | ⟨task, queued, path⟩
  · exact .thread t' path goesOn
  · by_cases served : ∃ i, GoesOn c (.worker i)
    · exact .task task queued path served
    · refine .starved task queued path fun i => ?_
      exact (staffed.goesOn_or_blocked alive (List.ne_nil_of_mem queued) i).resolve_left
        fun goesOn => served ⟨i, goesOn⟩

end ServerConfig

end LibSiot
