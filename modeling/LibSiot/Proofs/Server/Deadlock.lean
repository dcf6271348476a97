/-
Module: LibSiot.Proofs.Server.Deadlock
Purpose: Nobody waits in a circle: neither for locks alone, nor for a queued task that all
  threads for tasks keep waiting.  The first needs that the reaper expires no connection
  whose read lock is held for a task, and that callbacks stay away from the shutdown of a
  TLS connection; the second that some thread for tasks shuts down no connection with a read
  lock held for a task.
Trusted boundary: none
Main exports: ServerConfig.NoCircle, ServerConfig.Spares,
  ServerConfig.noCircle_of_orderly, ServerConfig.noCircle_fails
-/
import LibSiot.Proofs.Server.LockOrder

namespace LibSiot

open Interleaving (Circle Flow)
open Interleaving.Machine (pushes AllOps)
open RwLock (Mode)

namespace Op

/-- The connection whose shutdown a thread takes from the queue. -/
def takesShutdown {n : Nat} (s : ServerState n) : Op → Option Handle
  | .takeTask =>
      match s.executor with
      | .shutdown conn :: _ => some conn
      | _ => none
  | _ => none

/-- The connection whose lock an operation waits for, or comes to wait for: in a shutdown, or
through `ssl_mtx_` where `connections_lock_` is not held. -/
def ties (m : Mode) : Op → Option Nat
  | .lock (.ssl number) => if m = .idle then some number else none
  | op => op.shuts.map Handle.accept

theorem ties_of_shuts {m : Mode} {op : Op} {conn : Handle} (shuts : op.shuts = some conn) :
    op.ties m = some conn.accept := by
  cases op with
  | lock name =>
      cases name with
      | connection other => exact congrArg (Option.map Handle.accept) shuts
      | _ => cases shuts
  | _ => exact congrArg (Option.map Handle.accept) shuts

theorem ties_cases {m : Mode} {op : Op} {number : Nat} (ties : op.ties m = some number) :
    (∃ conn, op.shuts = some conn ∧ conn.accept = number) ∨
      op = .lock (.ssl number) ∧ m = .idle := by
  cases op with
  | lock name =>
      cases name with
      | ssl other =>
          simp only [Op.ties] at ties
          split at ties
          · rename_i idle
            cases ties
            exact Or.inr ⟨rfl, idle⟩
          · cases ties
      | _ => exact Or.inl (Option.map_eq_some_iff.mp ties)
  | _ => exact Or.inl (Option.map_eq_some_iff.mp ties)

theorem queued_of_takesShutdown {n : Nat} {s : ServerState n} {op : Op} {conn : Handle}
    (takes : op.takesShutdown s = some conn) : op = .takeTask ∧ .shutdown conn ∈ s.executor := by
  cases op with
  | takeTask =>
      simp only [takesShutdown] at takes
      split at takes
      · rename_i other tasks queue
        cases takes
        exact ⟨rfl, queue ▸ List.mem_cons_self⟩
      · cases takes
  | _ => cases takes

theorem not_picks_of_continues {n : Nat} {s : ServerState n} {op : Op} (runs : op.continues = true) :
    op.picks s = none := by
  cases op <;> first | rfl | cases runs

theorem eq_of_expires {n : Nat} {s : ServerState n} {op : Op} {conn : Handle}
    (expires : op.expires s = some conn) : op = .reapShutdown conn := by
  cases op with
  | reapShutdown other =>
      simp only [Op.expires] at expires
      split at expires <;> cases expires
      rfl
  | _ => cases expires

end Op

namespace ServerConfig

open ServerState

variable {n : Nat}

/-! ### Circles -/

/-- A queued task is served by any thread for tasks. -/
def ServedBy (c : ServerConfig n) : Actor n → Actor n → Prop
  | .task task, .thread (.worker _) => task ∈ c.shared.executor
  | _, _ => False

/-- Nobody waits in a circle, in which everybody waits for a lock that another one holds, or
is a task that no thread outside could serve. -/
def NoCircle (c : ServerConfig n) : Prop := ∀ D, ¬ Circle (WaitsFor c) (ServedBy c) D

/-! ### Threads for tasks in the way of their own tasks -/

/-- The thread waits for the lock of a connection with a read lock reserved, or comes to. -/
def Stuck (c : ServerConfig n) (t : Tid n) : Prop :=
  ∃ op ∈ c.prog t, ∃ accept ∈ op.ties (held c t), Reserved c accept

/-- The thread shuts down an object of the connection, or is about to, or uses one while it
does not hold `connections_lock_`. -/
def TiedTo (c : ServerConfig n) (accept : Nat) (t : Tid n) : Prop :=
  ∃ op ∈ c.prog t, op.ties (held c t) = some accept

/-- Beside `t` there is a thread for tasks that is tied neither to this connection nor to one
with a read lock reserved. -/
def Spare (c : ServerConfig n) (accept : Nat) (t : Tid n) : Prop :=
  ∃ i, Tid.worker i ≠ t ∧ ¬ TiedTo c accept (.worker i) ∧ ¬ Stuck c (.worker i)

instance (c : ServerConfig n) (t : Tid n) : Decidable (Stuck c t) :=
  inferInstanceAs (Decidable (∃ _ ∈ _, ∃ _ ∈ _, _))

instance (c : ServerConfig n) (accept : Nat) (t : Tid n) : Decidable (TiedTo c accept t) :=
  inferInstanceAs (Decidable (∃ _ ∈ _, _))

instance (c : ServerConfig n) (accept : Nat) (t : Tid n) : Decidable (Spare c accept t) :=
  inferInstanceAs (Decidable (∃ _, _))

/-- A thread for tasks takes the shutdown of a connection with a read lock reserved, or goes
on to use one by `ssl_mtx_` and without `connections_lock_`, and the listening thread takes
a read lock of a connection that a thread for tasks is tied to, only with another thread for
tasks to spare. -/
def Spares (c : ServerConfig n) (t : Tid n) (e : Choice) : Prop :=
  Next (fun op e s =>
    (∀ conn ∈ op.takesShutdown s, Reserved c conn.accept → (∃ i, t = .worker i) →
      Spare c conn.accept t) ∧
    (∀ conn ∈ op.reaches e s, held c t = .idle → Reserved c conn.accept → (∃ i, t = .worker i) →
      Spare c conn.accept t) ∧
    ∀ conn ∈ op.picks s, (∃ i, TiedTo c conn.accept (.worker i)) →
      Spare c conn.accept t) c t e

instance (c : ServerConfig n) (t : Tid n) (e : Choice) : Decidable (Spares c t e) :=
  inferInstanceAs (Decidable (Next _ c t e))

variable {c c' : ServerConfig n} {t : Tid n} {e : Choice} {op : Op} {rest : List Op}
  {flow : Flow Op} {a b : Actor n} {D : Set (Actor n)} {conn : Handle}

/-! ### Who waits in a circle -/

/-- Whoever has a read lock keeps it reserved. -/
theorem Reads.reserved (reads : Reads c conn a) : Reserved c conn.accept := by
  have passed : ∀ op : Op, op.passes = some conn ∨ op.returns = some conn →
      op.reserves = some conn := by
    intro op either
    cases op with
    | addTask task => simpa [Op.passes, Op.returns, Op.reserves] using either
    | unlock name destructor =>
        cases name with
        | connection other => simpa [Op.passes, Op.returns, Op.reserves] using either
        | _ => simp [Op.passes, Op.returns] at either
    | _ => simp [Op.passes, Op.returns] at either
  obtain ⟨op, member, reserves⟩ : ∃ op ∈ c.todo a, op.reserves = some conn := by
    rcases reads with passes | ⟨op, member, returns⟩
    · obtain ⟨op, first, passes⟩ := Option.bind_eq_some_iff.mp passes
      exact ⟨op, List.mem_of_head? first, passed op (Or.inl passes)⟩
    · exact ⟨op, member, passed op (Or.inr returns)⟩
  cases a with
  | thread t => exact Or.inr ⟨t, op, member, by rw [reserves]; rfl⟩
  | task task =>
      rw [todo] at member
      split at member
      · rename_i queued
        refine Or.inl ⟨task, queued, ?_⟩
        cases task with
        | lockCallAndUnlock callback other =>
            simp only [taskOps, List.mem_cons, List.not_mem_nil, or_false] at member
            rcases member with rfl | rfl | rfl | rfl <;> cases reserves
            rfl
        | connectionTerminated other =>
            cases List.mem_singleton.mp member
            cases reserves
        | shutdown other =>
            cases List.mem_singleton.mp member
            cases reserves
      · cases member

/-- A thread in a circle waits for a lock. -/
theorem waits_of_circle (circle : Circle (WaitsFor c) (ServedBy c) D) (member : .thread t ∈ D) :
    ∃ b ∈ D, WaitsFor c (.thread t) b := by
  refine (circle.waiting _ member).resolve_right ?_
  rintro ⟨⟨b, served⟩, _⟩
  exact served

/-- What a thread in a circle is about to do: it takes the lock of a connection with a read
lock reserved, which is not in the pool if it is to be read, or `ssl_mtx_` of such a
connection while it does not hold `connections_lock_`. -/
def Awaits (c : ServerConfig n) (t : Tid n) : Op → Prop
  | .lock (.connection conn) => Reserved c conn.accept
  | .readLock (.connection conn) =>
      Reserved c conn.accept ∧ ∀ fd, c.shared.connections.lookup fd ≠ some (some conn)
  | .lock (.ssl accept) => Reserved c accept ∧ held c t = .idle
  | _ => False

theorem Awaits.not_connections (awaits : Awaits c t op) : op.asks ≠ some .connections := by
  intro asks
  cases op <;> cases asks <;> exact awaits

theorem Awaits.reserved (awaits : Awaits c t op) (asks : op.asks = some (.connection conn)) :
    Reserved c conn.accept := by
  cases op with
  | lock name =>
      cases asks
      exact awaits
  | readLock name =>
      cases asks
      exact awaits.1
  | _ => cases asks

theorem Awaits.ssl {accept : Nat} (awaits : Awaits c t op) (asks : op.asks = some (.ssl accept)) :
    Reserved c accept ∧ held c t = .idle := by
  cases op with
  | lock name =>
      cases asks
      exact awaits
  | readLock name =>
      cases asks
      exact awaits.elim
  | _ => cases asks

/-- Whoever is so waiting holds `connections_lock_` neither for writing nor for reading. -/
theorem Awaits.not_holds (inv : LockInvariant c) (awaits : Awaits c t op)
    (program : c.prog t = op :: rest) {name : LockName} (asks : op.asks = some name) :
    ¬ Holds c .connections (.thread t) := by
  intro holds
  rcases holds.asks inv program asks with ⟨under, conn, rfl⟩ | ⟨accept, rfl⟩
  · have reserved := awaits.reserved asks
    cases op with
    | lock name =>
        cases asks
        exact (under.guarded program).unreserved inv reserved
    | readLock name =>
        cases asks
        obtain ⟨fd, entry⟩ := inv.found t conn rest (RwLock.mode_eq_writing.mpr under) program
        exact awaits.2 fd entry
    | _ => cases asks
  · exact holds (awaits.ssl asks).2

/-- The lock of a connection that it has is of such a connection. -/
theorem Awaits.of_writes (inv : LockInvariant c) (awaits : Awaits c t op)
    (program : c.prog t = op :: rest) {name : LockName} (asks : op.asks = some name)
    (writes : Writes c (.connection conn) (.thread t)) :
    Reserved c conn.accept ∧ ∀ fd, c.shared.connections.lookup fd ≠ some (some conn) := by
  obtain ⟨⟨lower, rfl, same, _⟩ | ⟨rfl, _⟩, gone⟩ := writes.asks inv program asks
  · exact ⟨same ▸ awaits.reserved asks, gone⟩
  · exact ⟨(awaits.ssl asks).1, gone⟩

/-- Whoever waits for somebody who is so waiting is so waiting too. -/
theorem Awaits.of_waitsFor (inv : LockInvariant c) (ssl : SslInvariant c) {t' : Tid n} {op' : Op}
    {rest' : List Op} (awaits : Awaits c t' op') (next : c.prog t' = op' :: rest')
    {name : LockName} (asks : op'.asks = some name)
    (waits : WaitsFor c (.thread t) (.thread t')) (program : c.prog t = op :: rest) :
    Awaits c t op := by
  obtain ⟨other, later, ⟨first, holds⟩ | ⟨first, writes⟩⟩ := waits.cases
  · change c.prog t = _ at first
    rw [program] at first
    cases first
    cases other with
    | connections => exact absurd holds (awaits.not_holds inv next asks)
    | connection conn =>
        rcases holds with writes | reads
        · exact (awaits.of_writes inv next asks writes).1
        · exact reads.reserved
    | ssl accept =>
        have writes : Writes c (.ssl accept) (.thread t') := holds
        obtain ⟨⟨_, same, writer, closing⟩, asked⟩ := writes.closing ssl next asks
        cases same
        have reserved : Reserved c accept := by
          rcases asked with rfl | ⟨rfl, _⟩
          · exact awaits.reserved asks
          · exact absurd asks awaits.not_connections
        refine ⟨reserved, ?_⟩
        by_contra notIdle
        rcases handles_or_guarded inv ssl notIdle program with handles | guarded
        · exact ssl.apart accept t t' handles writer closing
        · exact guarded.unreserved inv reserved
  · change c.prog t = _ at first
    rw [program] at first
    cases first
    cases other with
    | connections => exact absurd writes.holds (awaits.not_holds inv next asks)
    | connection conn => exact awaits.of_writes inv next asks writes
    | ssl accept => exact absurd program (not_readsSsl (a := .thread t) ssl)

/-- So waits everybody in a circle. -/
theorem awaits_of_circle (inv : LockInvariant c) (ssl : SslInvariant c)
    (circle : Circle (WaitsFor c) (ServedBy c) D) (member : .thread t ∈ D)
    (program : c.prog t = op :: rest) : Awaits c t op := by
  induction ranked : rank c (.thread t) using WellFoundedLT.induction generalizing t op rest with
  | ind r ih =>
      obtain ⟨b, inside, waits⟩ := waits_of_circle circle member
      cases b with
      | thread t' =>
          obtain ⟨d, _, further⟩ := waits_of_circle circle inside
          obtain ⟨op', rest', name, next, asks⟩ := further.asks
          have below := ranked ▸ rank_lt inv ssl waits ⟨d, further⟩
          exact (ih _ below inside next rfl).of_waitsFor inv ssl next asks waits program
      | task task =>
          obtain ⟨other, later, ⟨first, holds⟩ | ⟨first, writes⟩⟩ := waits.cases
          · change c.prog t = _ at first
            rw [program] at first
            cases first
            cases other with
            | connection conn => exact holds.elim (fun writes => writes.elim) Reads.reserved
            | _ => exact holds.elim
          · exact writes.elim

/-! ### Threads to spare -/

/-- Only the listening thread takes read locks of connections. -/
theorem Rule.listens_of_reads {s s' : ServerState n} (rule : Rule t e s op flow s') {new : Op}
    (member : new ∈ pushes flow) (reads : new.reads = true) : op.listens = true := by
  have common := fun spreads => rule.common_of_pushed spreads _ member
  cases rule with
  | registered | indeterminateRegistered | lookupError | found => rfl
  | takeTask | callbackUses | shutdown | deregister | drain | userUses =>
      have quiet := common rfl
      cases new with
      | readLock name =>
          cases name with
          | connection other => cases quiet
          | _ => cases reads
      | _ => cases reads
  | _ => exact absurd reads (List.any_eq_false.mp rfl new member)

/-- The lock invariants, and that some thread for tasks is left for those that hold read
locks. -/
structure Manned (c : ServerConfig n) : Prop where
  locks : LockInvariant c
  ssl : SslInvariant c
  reading : AllOps (fun _ t op => op.reads = true → t = .listen) c
  spared : ∀ i, Stuck c (.worker i) → ∃ j, ¬ Stuck c (.worker j)

theorem Manned.init (serverfd : Nat) (ssl : Bool) (maxIdle : Int32) :
    Manned (init n serverfd ssl maxIdle) where
  locks := LockInvariant.init serverfd ssl maxIdle
  ssl := SslInvariant.init serverfd ssl maxIdle
  reading := forall_init nofun nofun (fun _ => nofun) nofun
  spared i stuck := by
    obtain ⟨op, member, accept, ties, _⟩ := stuck
    cases List.mem_singleton.mp member
    cases ties

theorem Rule.takes_of_pushed {s s' : ServerState n} (rule : Rule t e s .takeTask flow s')
    (pushed : .shutdown conn ∈ pushes flow) : Op.takeTask.takesShutdown s = some conn := by
  cases rule with
  | takeTask task tasks queue =>
      cases task <;>
        simp only [pushes, taskOps, List.cons_append, List.nil_append, List.mem_cons,
          List.not_mem_nil, or_false, reduceCtorEq, Op.shutdown.injEq] at pushed
      rw [pushed, Op.takesShutdown, queue]

/-- How a thread comes to be tied to a connection: it is the listening thread, takes the
shutdown of the queue, decides on it as the reaper, or goes on to use it without
`connections_lock_`. -/
theorem tied_of_step (inv : LockInvariant c) (taken : Taken c c' t e op rest flow)
    {accept : Nat} {t' : Tid n} (tied : TiedTo c' accept t') :
    TiedTo c accept t' ∨ t' = t ∧ (op.listens = true ∨ ∃ conn : Handle, conn.accept = accept ∧
      (op.takesShutdown c.shared = some conn ∨ op.expires c.shared = some conn ∨
        op.reaches e c.shared = some conn ∧ held c t = .idle ∧ c.shared.Made conn)) := by
  obtain ⟨op', member, ties⟩ := tied
  rcases Op.ties_cases ties with ⟨conn, shuts, rfl⟩ | ⟨rfl, idle⟩
  · have before : op' ∈ c.prog t' → TiedTo c conn.accept t' :=
      fun there => ⟨op', there, Op.ties_of_shuts shuts⟩
    rcases taken.mem member with ⟨rfl, pushed⟩ | ⟨rfl, old⟩ | ⟨_, old⟩
    · rcases taken.rule.shuts pushed shuts with ⟨outer, was, same, _⟩ |
        ⟨rfl, ⟨fd, events, rfl, _⟩ | ⟨rfl, _⟩ | ⟨rfl, up⟩⟩
      · exact Or.inl ⟨op, taken.first, same ▸ Op.ties_of_shuts was⟩
      · exact Or.inr ⟨rfl, Or.inl rfl⟩
      · exact Or.inr ⟨rfl, Or.inr ⟨conn, rfl, Or.inl (Rule.takes_of_pushed taken.rule pushed)⟩⟩
      · exact Or.inr ⟨rfl, Or.inr ⟨conn, rfl, Or.inr (Or.inl (if_neg (ne_true_of_eq_false up)))⟩⟩
    · exact Or.inl (before (taken.program ▸ List.mem_cons_of_mem _ old))
    · exact Or.inl (before old)
  · have before : .lock (.ssl accept) ∈ c.prog t' → held c t' = .idle → TiedTo c accept t' :=
      fun there idle => ⟨_, there, if_pos idle⟩
    rw [(inv.modes taken).2 t'] at idle
    rcases taken.mem member with ⟨rfl, pushed⟩ | ⟨rfl, old⟩ | ⟨other, old⟩
    · rw [if_pos rfl] at idle
      rcases taken.rule.locksSsl pushed with ⟨conn, reaches, made, rfl⟩ | ⟨conn, shuts, rfl⟩
      · rw [Op.entered_of_not_guards (Op.guards_of_continues (Op.continues_of_reaches reaches))] at idle
        exact Or.inr ⟨rfl, Or.inr ⟨conn, rfl, Or.inr (Or.inr ⟨reaches, idle, made⟩)⟩⟩
      · exact Or.inl ⟨op, taken.first, Op.ties_of_shuts shuts⟩
    · rw [if_pos rfl] at idle
      have ordered := inv.ordered t'
      rw [taken.program] at ordered
      have uses : op.uses = true := (List.pairwise_cons.mp ordered).1 _ old
      rw [Op.entered_of_not_guards (Op.guards_of_uses uses)] at idle
      exact Or.inl (before (taken.program ▸ List.mem_cons_of_mem _ old) idle)
    · rw [if_neg other] at idle
      exact Or.inl (before old idle)

/-- What a thread is tied to was made. -/
theorem TiedTo.accepted (inv : LockInvariant c) (ssl : SslInvariant c) {accept : Nat}
    (tied : TiedTo c accept t) : accept < c.shared.nextAccept := by
  obtain ⟨op, member, ties⟩ := tied
  rcases Op.ties_cases ties with ⟨conn, shuts, rfl⟩ | ⟨rfl, _⟩
  · exact (inv.made t op member conn (Op.concerns_of_shuts shuts)).1
  · exact (ssl.made t _ member accept rfl).1

theorem Stuck.tiedTo (stuck : Stuck c t) : ∃ accept, TiedTo c accept t ∧ Reserved c accept := by
  obtain ⟨op, member, accept, ties, reserved⟩ := stuck
  exact ⟨accept, ⟨op, member, ties⟩, reserved⟩

theorem TiedTo.stuck {accept : Nat} (tied : TiedTo c accept t) (reserved : Reserved c accept) :
    Stuck c t := by
  obtain ⟨op, member, ties⟩ := tied
  exact ⟨op, member, accept, ties, reserved⟩

/-- A thread for tasks gets stuck only when it takes the shutdown of a connection with a read
lock reserved, or goes on to use one without `connections_lock_`, or when the listening
thread picks a connection that it is tied to. -/
theorem stuck_of_step (inv : LockInvariant c) (ssl : SslInvariant c) (orderly : Orderly c t e)
    (taken : Taken c c' t e op rest flow) {i : Fin n} (stuck : Stuck c' (.worker i)) :
    Stuck c (.worker i) ∨
      (t = .worker i ∧ ∃ conn, (op.takesShutdown c.shared = some conn ∨
        op.reaches e c.shared = some conn ∧ held c t = .idle) ∧ Reserved c conn.accept) ∨
      ∃ conn ∈ op.picks c.shared, TiedTo c conn.accept (.worker i) := by
  obtain ⟨accept, tied, reserved⟩ := stuck.tiedTo
  have since : accept < c.shared.nextAccept →
      Reserved c accept ∨ ∃ conn ∈ op.picks c.shared, conn.accept = accept := by
    intro accepted
    rcases inv.reserved_of_step taken reserved with old | fresh | ⟨picked, picks, same⟩
    · exact Or.inl old
    · exact absurd (fresh ▸ accepted) (Nat.lt_irrefl _)
    · exact Or.inr ⟨picked, picks, same⟩
  rcases tied_of_step inv taken tied with
    before | ⟨same, listens | ⟨conn, rfl, takes | expires | ⟨reaches, idle, made⟩⟩⟩
  · rcases since (before.accepted inv ssl) with old | ⟨picked, picks, rfl⟩
    · exact Or.inl (before.stuck old)
    · exact Or.inr (Or.inr ⟨picked, picks, before⟩)
  · cases same.trans (inv.listens t op taken.first listens)
  · obtain ⟨rfl, queued⟩ := Op.queued_of_takesShutdown takes
    rcases since (inv.queued conn queued).1 with old | ⟨_, picks, _⟩
    · exact Or.inr (Or.inl ⟨same.symm, conn, Or.inl takes, old⟩)
    · cases picks
  · obtain rfl := Op.eq_of_expires expires
    rcases since (inv.made t _ taken.first conn rfl).1 with old | ⟨_, picks, _⟩
    · exact absurd old ((orderly.of_prog taken.program).2.2 conn expires)
    · cases picks
  · rcases since made.1 with old | ⟨_, picks, _⟩
    · exact Or.inr (Or.inl ⟨same.symm, conn, Or.inr ⟨reaches, idle⟩, old⟩)
    · rw [Op.not_picks_of_continues (Op.continues_of_reaches reaches)] at picks
      cases picks

/-- What is left of a thread to spare after the step is not stuck either. -/
theorem Spare.not_stuck (inv : LockInvariant c) (ssl : SslInvariant c)
    (taken : Taken c c' t e op rest flow) {accept : Nat} (spare : Spare c accept t)
    (only : ∀ conn ∈ op.picks c.shared, conn.accept = accept) :
    ∃ i, ¬ Stuck c' (.worker i) := by
  obtain ⟨i, other, apart, free⟩ := spare
  refine ⟨i, fun stuck => ?_⟩
  obtain ⟨number, ⟨op', member, ties⟩, reserved⟩ := stuck.tiedTo
  rw [taken.other other] at member
  rw [(inv.modes taken).2, if_neg other] at ties
  have tied : TiedTo c number (.worker i) := ⟨op', member, ties⟩
  rcases inv.reserved_of_step taken reserved with old | fresh | ⟨picked, picks, same⟩
  · exact free (tied.stuck old)
  · exact absurd (fresh ▸ tied.accepted inv ssl) (Nat.lt_irrefl _)
  · exact apart (only picked picks ▸ same ▸ tied)

/-- Some thread for tasks stays free for those that hold read locks. -/
theorem Manned.step (manned : Manned c) (orderly : Orderly c t e) (apart : Apart c t e)
    (spares : Spares c t e) (stepped : (server n).step t e c = some c') : Manned c' := by
  obtain ⟨op, rest, flow, program, rule, progs⟩ := rule_of_step stepped
  have taken : Taken c c' t e op rest flow := ⟨program, rule, progs⟩
  obtain ⟨takes, reaches, picks⟩ := spares.of_prog program
  refine ⟨manned.locks.step orderly stepped, manned.ssl.step manned.locks apart stepped, ?_,
    fun i stuck => ?_⟩
  · intro t' op' member reads
    rcases taken.mem member with ⟨rfl, pushed⟩ | ⟨rfl, old⟩ | ⟨_, old⟩
    · exact manned.locks.listens t' op taken.first (Rule.listens_of_reads rule pushed reads)
    · exact manned.reading t' op' (program ▸ List.mem_cons_of_mem _ old) reads
    · exact manned.reading t' op' old reads
  · by_contra all
    have everybody : ∀ j, Stuck c' (.worker j) := fun j => by
      by_contra free
      exact all ⟨j, free⟩
    -- Who was free before gets stuck, although there was one to spare.
    obtain ⟨j, free⟩ : ∃ j, ¬ Stuck c (.worker j) := by
      by_contra none
      obtain ⟨j, free⟩ := manned.spared i (by_contra fun free => none ⟨i, free⟩)
      exact none ⟨j, free⟩
    rcases stuck_of_step manned.locks manned.ssl orderly taken (everybody j) with
      before | ⟨rfl, conn, there | ⟨there, idle⟩, reserved⟩ | ⟨conn, there, tied⟩
    · exact free before
    · obtain ⟨rfl, _⟩ := Op.queued_of_takesShutdown there
      exact all ((takes conn there reserved ⟨j, rfl⟩).not_stuck manned.locks manned.ssl taken nofun)
    · refine all ((reaches conn there idle reserved ⟨j, rfl⟩).not_stuck manned.locks manned.ssl
        taken fun other picks => ?_)
      rw [Op.not_picks_of_continues (Op.continues_of_reaches there)] at picks
      cases picks
    · refine all ((picks conn there ⟨j, tied⟩).not_stuck manned.locks manned.ssl taken
        fun other same => ?_)
      rw [Option.mem_unique same there]

/-! ### No circle -/

/-- A thread for tasks in a circle is stuck. -/
theorem stuck_of_circle (manned : Manned c) (circle : Circle (WaitsFor c) (ServedBy c) D)
    {i : Fin n} (member : .thread (.worker i) ∈ D) : Stuck c (.worker i) := by
  obtain ⟨_, _, waits⟩ := waits_of_circle circle member
  obtain ⟨op, rest, name, program, asks⟩ := waits.asks
  change c.prog (.worker i) = _ at program
  have awaits := awaits_of_circle manned.locks manned.ssl circle member program
  have first : op ∈ c.prog (.worker i) := program ▸ List.mem_cons_self
  cases op with
  | lock other =>
      cases other with
      | connections => exact awaits.elim
      | connection conn => exact ⟨_, first, conn.accept, rfl, awaits⟩
      | ssl accept => exact ⟨_, first, accept, if_pos awaits.2, awaits.1⟩
  | readLock other =>
      cases other with
      | connection conn => cases manned.reading (.worker i) _ first rfl
      | _ => exact awaits.elim
  | _ => cases asks

theorem Manned.noCircle (manned : Manned c) : NoCircle c := by
  intro D circle
  obtain ⟨a, _, ⟨b, served⟩, everybody⟩ :=
    circle.exists_served (rank c) fun _ _ => rank_lt manned.locks manned.ssl
  cases a with
  | thread t => exact served
  | task task =>
      cases b with
      | task other => exact served
      | thread t =>
          cases t with
          | worker i =>
              have stuck := fun j => stuck_of_circle manned circle
                (everybody (.thread (.worker j)) served)
              obtain ⟨j, free⟩ := manned.spared i (stuck i)
              exact free (stuck j)
          | _ => exact served

/-- In every run, under any interleaving of the listening thread, the executor and the
reaper, in which constructors and draining loops do not throw, the reaper expires no
connection with a read lock outstanding, callbacks under `connections_lock_` use no TLS
connection in the middle of its shutdown, and a thread for tasks is to spare whenever
another shuts down, or uses without `connections_lock_`, a connection with a read lock
reserved, nobody ever waits in a circle. -/
theorem noCircle_of_orderly (serverfd : Nat) (ssl : Bool) (maxIdle : Int32)
    (schedule : Schedule n)
    (orderly : (server n).Along (fun c t e => Orderly c t e ∧ Apart c t e ∧ Spares c t e) schedule
      (init n serverfd ssl maxIdle)) :
    (server n).Always NoCircle schedule (init n serverfd ssl maxIdle) :=
  Interleaving.Machine.always_of_invariant Manned
    (fun _ _ _ _ manned ⟨orderly, apart, spares⟩ stepped =>
      manned.step orderly apart spares stepped)
    (fun _ manned => manned.noCircle) (Manned.init serverfd ssl maxIdle) orderly

/-- A connection gets an event, the executor does `served` steps of the task for it,
and the reaper finds the connection idle and takes `later` steps more. -/
def expiryRun (served later : Nat) : Schedule 1 :=
  acceptOne 3 5 ++ steps .only 6 ++ steps .listen 1 ++
    choose .listen { ready := some [⟨5, EPOLLIN⟩] } ++ steps .listen 8 ++
    steps .only served ++ steps .reaper 3 ++ choose .reaper { now := 100 } ++
    steps .reaper later

/-- A connection gets an event, and the executor calls `DataReady` for it; after `early` the
peer hangs up, and the listening thread begins to shut the connection down; then `late`. -/
def disconnectRun (early late : Schedule 1) : Schedule 1 :=
  acceptOne 3 5 ++ steps .only 6 ++ steps .listen 1 ++
    choose .listen { ready := some [⟨5, EPOLLIN⟩] } ++ steps .listen 10 ++ steps .only 3 ++
    early ++ choose .listen { ready := some [⟨5, EPOLLRDHUP⟩] } ++ steps .listen 6 ++ late

/-- A callback calls `Receive` on the connection. -/
def receives : Schedule 1 := choose .only { handler := .acts (.use ⟨0, 0⟩) }

theorem noCircle_of_served_first :
    (server 1).Always NoCircle (expiryRun 6 13) (init 1 3 false 1) ∧
      (server 1).Always NoCircle (disconnectRun (receives ++ steps .only 6) (steps .listen 8))
        (init 1 3 true (-1)) :=
  ⟨noCircle_of_orderly 3 false 1 (expiryRun 6 13) (by decide +kernel),
    noCircle_of_orderly 3 true (-1) (disconnectRun (receives ++ steps .only 6) (steps .listen 8))
      (by decide +kernel)⟩

/-- `ConnectionEstablished` defers the shutdown of its connection, data comes for it before
the shutdown begins, and the one thread for tasks takes the shutdown. -/
def starvingRun : Schedule 1 :=
  acceptOne 3 5 ++ steps .only 3 ++
    choose .only { handler := .acts (.deferredShutdown ⟨0, 0⟩) } ++ steps .only 3 ++
    steps .listen 1 ++ choose .listen { ready := some [⟨5, EPOLLIN⟩] } ++ steps .listen 8 ++
    steps .only 7

theorem not_noCircle_of_waitsFor (there : WaitsFor c a b) (back : WaitsFor c b a) :
    ¬ NoCircle c :=
  fun none => none _ (.of_transGen (.tail (.single there) back))

/-- The reaper waits, under `connections_lock_`, for the read lock that the task holds,
and the task for `connections_lock_`.  The only thread for tasks waits for a read lock
that a queued task holds.  And the listening thread waits, under `ssl_mtx_`, for
`connections_lock_`, and under this the callback for `ssl_mtx_`.  None of these can ever
go on. -/
theorem noCircle_fails :
    (∃ c, (server 1).run (expiryRun 1 6) (init 1 3 false 1) = some c ∧
      WaitsFor c (.thread .reaper) (.thread .only) ∧
      WaitsFor c (.thread .only) (.thread .reaper) ∧
      (∀ e, (server 1).step .reaper e c = none) ∧
      (∀ e, (server 1).step .only e c = none) ∧ ¬ NoCircle c) ∧
    (∃ c, (server 1).run starvingRun (init 1 3 false (-1)) = some c ∧
      WaitsFor c (.thread .only) (.task (.lockCallAndUnlock .dataReady ⟨0, 0⟩)) ∧
      (∀ e, (server 1).step .only e c = none) ∧ ¬ NoCircle c) ∧
    ∃ c, (server 1).run (disconnectRun [] receives) (init 1 3 true (-1)) = some c ∧
      WaitsFor c (.thread .listen) (.thread .only) ∧
      WaitsFor c (.thread .only) (.thread .listen) ∧
      (∀ e, (server 1).step .listen e c = none) ∧
      (∀ e, (server 1).step .only e c = none) ∧ ¬ NoCircle c := by
  refine ⟨?_, ?_, ?_⟩
  · suffices circle : ∃ c, (server 1).run (expiryRun 1 6) (init 1 3 false 1) = some c ∧
        WaitsFor c (.thread .reaper) (.thread .only) ∧
        WaitsFor c (.thread .only) (.thread .reaper) ∧
        (∀ e, (server 1).step .reaper e c = none) ∧
        ∀ e, (server 1).step .only e c = none by
      obtain ⟨c, run, there, back, reaper, worker⟩ := circle
      exact ⟨c, run, there, back, reaper, worker, not_noCircle_of_waitsFor there back⟩
    refine ⟨_, rfl, Or.inr (Or.inr ?_), rfl, fun _ => rfl, fun _ => rfl⟩
    exact ⟨.unlock (.connection ⟨0, 0⟩) false, .tail _ (.tail _ (.head _)), rfl⟩
  · suffices circle : ∃ c, (server 1).run starvingRun (init 1 3 false (-1)) = some c ∧
        WaitsFor c (.thread .only) (.task (.lockCallAndUnlock .dataReady ⟨0, 0⟩)) ∧
        (∀ e, (server 1).step .only e c = none) ∧
        .lockCallAndUnlock .dataReady ⟨0, 0⟩ ∈ c.shared.executor by
      obtain ⟨c, run, waits, stands, queued⟩ := circle
      refine ⟨c, run, waits, stands, fun none => none
        { .thread .only, .task (.lockCallAndUnlock .dataReady ⟨0, 0⟩) } ⟨⟨_, Or.inl rfl⟩, ?_⟩⟩
      rintro a (rfl | rfl)
      · exact Or.inl ⟨_, Or.inr rfl, waits⟩
      · refine Or.inr ⟨⟨.thread .only, queued⟩, fun b served => ?_⟩
        cases b with
        | task other => exact served.elim
        | thread t =>
            cases t with
            | worker i =>
                obtain rfl : i = 0 := Subsingleton.elim i 0
                exact Or.inl rfl
            | _ => exact served.elim
    refine ⟨_, rfl, Or.inr (Or.inr ?_), fun _ => rfl, List.mem_cons_self⟩
    exact ⟨.unlock (.connection ⟨0, 0⟩) false, .tail _ (.tail _ (.head _)), rfl⟩
  · suffices circle : ∃ c, (server 1).run (disconnectRun [] receives) (init 1 3 true (-1)) = some c ∧
        WaitsFor c (.thread .listen) (.thread .only) ∧
        WaitsFor c (.thread .only) (.thread .listen) ∧
        (∀ e, (server 1).step .listen e c = none) ∧
        ∀ e, (server 1).step .only e c = none by
      obtain ⟨c, run, there, back, listen, worker⟩ := circle
      exact ⟨c, run, there, back, listen, worker, not_noCircle_of_waitsFor there back⟩
    exact ⟨_, rfl, nofun, rfl, fun _ => rfl, fun _ => rfl⟩

end ServerConfig

end LibSiot
