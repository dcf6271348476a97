/-
Module: LibSiot.Proofs.Server.LockOrder
Purpose: Who holds which lock and waits for whose, and the order of the locks: along
  every wait for someone who waits too a rank goes down.
Trusted boundary: none
Main exports: Actor, ServerConfig.WaitsFor, ServerConfig.rank_lt
-/
import LibSiot.Proofs.Server.SslMutex

namespace LibSiot

open Interleaving (Flow)
open RwLock (Mode)

namespace Op

/-- The lock that an operation takes. -/
def asks : Op → Option LockName
  | .lock name => some name
  | .readLock name => some name
  | _ => none

/-- The read lock of a connection that an operation hands to a task. -/
def passes : Op → Option Handle
  | .addTask task => task.reserves
  | _ => none

/-- The read lock of a connection that an operation gives back. -/
def returns : Op → Option Handle
  | .unlock (.connection conn) _ => some conn
  | _ => none

theorem passes_of_asks {op : Op} {name : LockName} (asks : op.asks = some name) :
    op.passes = none := by
  cases op <;> first | rfl | cases asks

theorem eq_unlock_of_returns {op : Op} {conn : Handle} (returns : op.returns = some conn) :
    ∃ destructor, op = .unlock (.connection conn) destructor := by
  cases op with
  | unlock name destructor =>
      cases name <;> cases returns
      exact ⟨destructor, rfl⟩
  | _ => cases returns

end Op

/-- Who can hold locks and wait for them: a thread, or a task that no thread has
taken yet. -/
inductive Actor (n : Nat) where
  | thread (t : Tid n)
  | task (task : Closure)
deriving DecidableEq, Repr

/-- Whoever gives the read lock of a connection back, after user code and uses, reads. -/
theorem Disciplined.reading_of_unlock {m : Mode} {op : Op} {rest : List Op}
    (disciplined : Disciplined m (op :: rest))
    (ordered : (op :: rest).Pairwise fun a b => a.precedes b = true) (other : op.guards = false)
    {conn : Handle} {destructor : Bool}
    (later : .unlock (.connection conn) destructor ∈ rest) : m = .reading := by
  induction rest generalizing op with
  | nil => cases later
  | cons next rest ih =>
      obtain ⟨before, ordered⟩ := List.pairwise_cons.mp ordered
      have inTask : op.inTask = true := before _ later
      cases disciplined with
      | cons moves leaves alone after =>
          cases moves with
          | stay allowed =>
              rcases List.mem_cons.mp later with rfl | later
              · cases after with
                | cons moves leaves alone after =>
                    cases moves with
                    | stay allowed => exact of_decide_eq_true allowed
              · refine ih after ordered ?_ later
                have inTask' : next.inTask = true := (List.pairwise_cons.mp ordered).1 _ later
                have first := before next List.mem_cons_self
                cases next with
                | lock name | unlock name => cases name <;> first | rfl | cases inTask'
                | readLock name => cases first
                | _ => rfl
          | acquire | acquireRead | release => cases other
          | find => cases inTask

/-- Under `connections_lock_` for reading nothing is shut down. -/
theorem Disciplined.not_shuts {ops : List Op} (disciplined : Disciplined .reading ops) {op : Op}
    (member : op ∈ inside ops) : op.shuts = none := by
  induction ops with
  | nil => cases member
  | cons first rest ih =>
      rw [inside, List.takeWhile_cons] at member
      split at member
      · rename_i opened
        cases disciplined with
        | cons moves leaves alone after =>
            cases moves with
            | release => cases opened
            | stay allowed =>
                rcases List.mem_cons.mp member with rfl | later
                · cases op with
                  | lock name => cases name <;> first | rfl | cases allowed
                  | _ => first | rfl | cases allowed
                · exact ih after later
      · cases member

namespace ServerConfig

open ServerState

variable {n : Nat}

/-- What an actor has still to do. -/
def todo (c : ServerConfig n) : Actor n → List Op
  | .thread t => c.prog t
  | .task task => if task ∈ c.shared.executor then taskOps task else []

/-- The actor holds the lock for writing. -/
def Writes (c : ServerConfig n) (name : LockName) : Actor n → Prop
  | .thread t => (c.shared.locks name).writer = some t
  | .task _ => False

/-- The actor holds the read lock of the connection, taken by itself or for it: it is
about to pass it on to a task, or has to give it back. -/
def Reads (c : ServerConfig n) (conn : Handle) (a : Actor n) : Prop :=
  (c.todo a).head?.bind Op.passes = some conn ∨ ∃ op ∈ c.todo a, op.returns = some conn

/-- The actor holds the lock, for writing or reading. -/
def Holds (c : ServerConfig n) : LockName → Actor n → Prop
  | .connections, .thread t => held c t ≠ .idle
  | .connections, .task _ => False
  | .connection conn, a => Writes c (.connection conn) a ∨ Reads c conn a
  | .ssl accept, a => Writes c (.ssl accept) a

/-- What `a` does next is to take a lock that `b` holds: for writing, or for reading
one that `b` holds for writing. -/
def WaitsFor (c : ServerConfig n) (a b : Actor n) : Prop :=
  match (c.todo a).head? with
  | some (.lock name) => Holds c name b
  | some (.readLock name) => Writes c name b
  | _ => False

/-! ### The rank of who waits -/

instance (c : ServerConfig n) (name : LockName) (a : Actor n) : Decidable (Writes c name a) :=
  match a with
  | .thread t => inferInstanceAs (Decidable (_ = some t))
  | .task _ => isFalse id

instance (c : ServerConfig n) (a : Actor n) : Decidable (Holds c .connections a) :=
  match a with
  | .thread t => inferInstanceAs (Decidable (held c t ≠ .idle))
  | .task _ => isFalse id

/-- First come the locks of connections, inner objects before outer ones and `ssl_mtx_`
between the socket object and the others, where they are taken under `connections_lock_`
or by someone in the way of that; then `connections_lock_`; and last the other locks of
connections. -/
def rank (c : ServerConfig n) (a : Actor n) : Nat ×ₗ Nat :=
  match (c.todo a).head?.bind Op.asks with
  | none => toLex (0, 0)
  | some .connections => toLex (1, 0)
  | some (.connection conn) =>
      if Writes c .connections a ∨ Guarded c conn.accept then toLex (0, 2 * conn.level)
      else toLex (2, 2 * conn.level)
  | some (.ssl accept) =>
      if Holds c .connections a ∨ Guarded c accept then toLex (0, 1) else toLex (2, 1)

variable {c : ServerConfig n} {a b : Actor n} {op : Op} {rest : List Op} {conn : Handle}
  {accept : Nat}

theorem rank_of_connections (next : c.todo a = op :: rest) (asks : op.asks = some .connections) :
    rank c a = toLex (1, 0) := by
  simp [rank, next, asks]

theorem rank_of_connection (next : c.todo a = op :: rest)
    (asks : op.asks = some (.connection conn)) :
    rank c a = if Writes c .connections a ∨ Guarded c conn.accept then toLex (0, 2 * conn.level)
      else toLex (2, 2 * conn.level) := by
  simp [rank, next, asks]

theorem rank_of_ssl (next : c.todo a = op :: rest) (asks : op.asks = some (.ssl accept)) :
    rank c a = if Holds c .connections a ∨ Guarded c accept then toLex (0, 1) else toLex (2, 1) := by
  simp [rank, next, asks]

/-- Whoever waits is about to take a lock: for writing, whatever the other holds, or
for reading. -/
theorem WaitsFor.cases (waits : WaitsFor c a b) :
    ∃ name rest, (c.todo a = .lock name :: rest ∧ Holds c name b) ∨
      (c.todo a = .readLock name :: rest ∧ Writes c name b) := by
  rw [WaitsFor] at waits
  cases next : c.todo a with
  | nil =>
      rw [next] at waits
      exact waits.elim
  | cons op rest =>
      rw [next] at waits
      cases op with
      | lock name => exact ⟨name, rest, Or.inl ⟨rfl, waits⟩⟩
      | readLock name => exact ⟨name, rest, Or.inr ⟨rfl, waits⟩⟩
      | _ => exact waits.elim

theorem WaitsFor.asks (waits : WaitsFor c a b) :
    ∃ op rest name, c.todo a = op :: rest ∧ op.asks = some name := by
  obtain ⟨name, rest, ⟨next, _⟩ | ⟨next, _⟩⟩ := waits.cases
  · exact ⟨_, rest, name, next, rfl⟩
  · exact ⟨_, rest, name, next, rfl⟩

/-- Whoever has a read lock of a connection and takes another lock is about to begin a
task, or takes `ssl_mtx_` in its callback. -/
theorem Reads.asks (inv : LockInvariant c) (reads : Reads c conn b)
    {name : LockName} (next : c.todo b = op :: rest) (asks : op.asks = some name) :
    Reserved c conn.accept ∧
      (name = .connections ∨ (∃ accept, name = .ssl accept) ∧ Holds c .connections b) := by
  rcases reads with passes | ⟨op', member, returns⟩
  · rw [next] at passes
    change op.passes = some conn at passes
    rw [Op.passes_of_asks asks] at passes
    cases passes
  · obtain ⟨destructor, rfl⟩ := Op.eq_unlock_of_returns returns
    cases b with
    | thread t =>
        refine ⟨Or.inr ⟨t, _, member, rfl⟩, ?_⟩
        have ordered := inv.ordered t
        rw [next] at member
        change c.prog t = op :: rest at next
        rw [next] at ordered
        rcases List.mem_cons.mp member with rfl | later
        · cases asks
        · have inTask : op.inTask = true := (List.pairwise_cons.mp ordered).1 _ later
          cases op with
          | lock name' =>
              cases name' with
              | ssl accept =>
                  cases asks
                  have disciplined := inv.disciplined t
                  rw [next] at disciplined
                  refine Or.inr ⟨⟨accept, rfl⟩, fun idle => ?_⟩
                  rw [disciplined.reading_of_unlock ordered rfl later] at idle
                  cases idle
              | _ => cases inTask
          | readLock name' =>
              cases asks
              cases name with
              | connections => exact Or.inl rfl
              | _ => cases inTask
          | _ => cases asks
    | task task =>
        rw [todo] at next member
        split at next
        · rename_i queued
          rw [if_pos queued] at member
          cases task with
          | lockCallAndUnlock callback other =>
              cases next
              cases asks
              simp only [taskOps, List.mem_cons, List.not_mem_nil, or_false, reduceCtorEq,
                false_or, Op.unlock.injEq, LockName.connection.injEq, false_and] at member
              exact ⟨Or.inl ⟨_, queued, by rw [member.1]; rfl⟩, Or.inl rfl⟩
          | connectionTerminated other =>
              cases next
              cases asks
          | shutdown other =>
              cases next
              cases asks
        · cases next

/-- Whoever holds `connections_lock_` and takes another lock writes and takes that of
a connection, or takes `ssl_mtx_`. -/
theorem Holds.asks (inv : LockInvariant c) (holds : Holds c .connections b)
    {name : LockName} (next : c.todo b = op :: rest) (asks : op.asks = some name) :
    (Writes c .connections b ∧ ∃ conn, name = .connection conn) ∨ ∃ accept, name = .ssl accept := by
  cases b with
  | thread t =>
      obtain ⟨m', moves⟩ := inv.moves (t := t) next
      change held c t ≠ .idle at holds
      have writes : ∀ m, held c t = m → m ≠ .idle → m ≠ .reading →
          Writes c .connections (.thread t) := by
        intro m mode notIdle notReading
        cases m with
        | idle => exact absurd rfl notIdle
        | reading => exact absurd rfl notReading
        | writing => exact RwLock.mode_eq_writing.mp mode
      generalize mode : held c t = m at moves holds
      cases moves with
      | acquire => exact absurd rfl holds
      | acquireRead => exact absurd rfl holds
      | release => cases asks
      | find => cases asks
      | stay allowed =>
          cases op with
          | lock name' | readLock name' =>
              cases name' with
              | connections => cases allowed
              | connection conn =>
                  cases asks
                  exact Or.inl ⟨writes _ mode holds (of_decide_eq_true allowed), conn, rfl⟩
              | ssl accept =>
                  cases asks
                  exact Or.inr ⟨accept, rfl⟩
          | _ => cases asks
  | task task => exact holds.elim

/-- Whoever writes a connection and takes another lock takes that of an object
further in, or `ssl_mtx_` for an object further in. -/
theorem Writes.asks (inv : LockInvariant c) (writes : Writes c (.connection conn) b)
    {name : LockName} (next : c.todo b = op :: rest) (asks : op.asks = some name) :
    ((∃ lower : Handle, name = .connection lower ∧ lower.accept = conn.accept ∧
      lower.level < conn.level) ∨ name = .ssl conn.accept ∧ 0 < conn.level) ∧
        ∀ fd, c.shared.connections.lookup fd ≠ some (some conn) := by
  cases b with
  | thread t =>
      obtain ⟨⟨body, post, split, within⟩, _, gone⟩ := inv.sectioned t conn writes
      change c.prog t = op :: rest at next
      rw [next] at split
      cases body with
      | nil =>
          cases split
          cases asks
      | cons first body =>
          cases split
          have here := within op List.mem_cons_self
          cases op with
          | lock name' =>
              cases asks
              cases name with
              | connections => exact here.elim
              | connection lower =>
                  exact ⟨Or.inl ⟨lower, rfl, here.1, here.2⟩, gone (Nat.ne_zero_of_lt here.2)⟩
              | ssl accept =>
                  obtain ⟨rfl, wraps⟩ := here
                  exact ⟨Or.inr ⟨rfl, wraps⟩, gone (Nat.ne_zero_of_lt wraps)⟩
          | readLock name' => exact here.elim
          | _ => cases asks
  | task task => exact writes.elim

/-- Whoever has `ssl_mtx_` and takes another lock is in `OpenSSLConnection::Shutdown()`, and
takes the lock of the object, or `connections_lock_` where nobody expires the connection. -/
theorem Writes.closing (ssl : SslInvariant c) (writes : Writes c (.ssl accept) b)
    {name : LockName} (next : c.todo b = op :: rest) (asks : op.asks = some name) :
    (∃ t, b = .thread t ∧ (c.shared.locks (.ssl accept)).writer = some t ∧ Closing c accept t) ∧
      (name = .connection { accept := accept, level := 0 } ∨
        name = .connections ∧ ¬ Guarded c accept) := by
  cases b with
  | thread t =>
      change c.prog t = op :: rest at next
      rcases ssl.holding accept t writes with ⟨front, post, split, leaves, left⟩ |
        ⟨front, post, split, ends⟩
      · refine ⟨⟨t, rfl, writes, ?_⟩, ?_⟩
        · rw [Closing, split]
          exact List.mem_append_right _ List.mem_cons_self
        · rw [next] at split
          cases front with
          | nil =>
              cases split
              cases asks
              exact Or.inl rfl
          | cons first front =>
              cases split
              have here := leaves op List.mem_cons_self
              cases op with
              | lock name' =>
                  cases asks
                  cases name with
                  | connections => exact Or.inr ⟨rfl, (left List.mem_cons_self).2⟩
                  | _ => cases here
              | readLock name' => cases here
              | _ => cases asks
      · rw [next] at split
        cases front with
        | nil =>
            cases split
            cases asks
        | cons first front =>
            cases split
            have here := ends op List.mem_cons_self
            cases op with
            | lock | readLock => cases here
            | _ => cases asks
  | task task => exact writes.elim

/-- Who takes `ssl_mtx_` under `connections_lock_` is in a callback, or shuts the connection
down there. -/
theorem handles_or_guarded {t : Tid n} (inv : LockInvariant c) (ssl : SslInvariant c)
    (notIdle : held c t ≠ .idle) (program : c.prog t = .lock (.ssl accept) :: rest) :
    Handles c accept t ∨ Guarded c accept := by
  have guarded : ∀ op ∈ inside rest, op.shuts.map Handle.accept = some accept →
      Guarded c accept := by
    intro op member shut
    have there : op ∈ inside (c.prog t) := program ▸ mem_inside_cons rfl (Or.inr member)
    obtain ⟨conn, shuts, _⟩ := Option.map_eq_some_iff.mp shut
    refine ⟨t, ?_, op, there, shut⟩
    have disciplined := inv.disciplined t
    cases mode : held c t with
    | idle => exact absurd mode notIdle
    | reading =>
        rw [mode] at disciplined
        rw [disciplined.not_shuts there] at shuts
        cases shuts
    | writing => rfl
  have entered := ssl.enters t [] accept rest program
  cases entered with
  | userCode conn runs =>
      obtain ⟨op, member, runs⟩ := runs
      refine Or.inl ⟨notIdle, ⟨op, ?_, runs⟩, program ▸ List.mem_cons_self⟩
      exact program ▸ List.mem_cons_of_mem _ (List.mem_cons_of_mem _ (List.mem_cons_of_mem _ member))
  | drain conn shuts =>
      obtain ⟨op, member, shut⟩ := shuts
      exact Or.inr (guarded op (mem_inside_cons rfl (Or.inr (mem_inside_cons rfl (Or.inr member)))) shut)
  | shutdown post => exact Or.inr (guarded _ (mem_inside_cons rfl (Or.inl rfl)) rfl)

theorem not_readsSsl (ssl : SslInvariant c) : c.todo a ≠ .readLock (.ssl accept) :: rest := by
  intro next
  cases a with
  | thread t =>
      change c.prog t = _ at next
      exact ssl.writing t _ (next ▸ List.mem_cons_self) accept rfl
  | task task =>
      rw [todo] at next
      split at next
      · cases task <;> cases next
      · cases next

theorem Guarded.unreserved (inv : LockInvariant c) (guarded : Guarded c accept) :
    ¬ Reserved c accept := (guarded.abandoned inv).1

/-- Who is about to take the lock of a connection under `connections_lock_` shuts it
down there. -/
theorem Writes.guarded (writes : Writes c .connections a)
    (next : c.todo a = .lock (.connection conn) :: rest) : Guarded c conn.accept := by
  cases a with
  | thread t =>
      change c.prog t = _ at next
      refine ⟨t, RwLock.mode_eq_writing.mpr writes, .lock (.connection conn), ?_, rfl⟩
      rw [next]
      exact List.mem_cons_self
  | task task => exact writes.elim

theorem Writes.holds (writes : Writes c .connections b) : Holds c .connections b := by
  cases b with
  | thread t =>
      have mode : held c t = .writing := RwLock.mode_eq_writing.mpr writes
      change held c t ≠ .idle
      rw [mode]
      decide
  | task task => exact writes.elim

/-- Whoever waits for the writer of a connection, who waits too, ranks above it. -/
theorem rank_lt_of_writes (inv : LockInvariant c) {op' : Op} {rest' : List Op} {name : LockName}
    (next : c.todo a = op :: rest) (asks : op.asks = some (.connection conn))
    (next' : c.todo b = op' :: rest') (asks' : op'.asks = some name)
    (writes : Writes c (.connection conn) b)
    (guards : Writes c .connections a → Guarded c conn.accept) : rank c b < rank c a := by
  rw [rank_of_connection next asks]
  have low : ∀ {k : Nat}, k < 2 * conn.level → ∀ {p : Prop} [Decidable p],
      (if p then toLex (0, k) else toLex (2, k)) < toLex (2, 2 * conn.level) := by
    intro k below p _
    split
    · exact Prod.Lex.toLex_lt_toLex.mpr (Or.inl Nat.zero_lt_two)
    · exact Prod.Lex.toLex_lt_toLex.mpr (Or.inr ⟨rfl, below⟩)
  have outside : ¬ Guarded c conn.accept → ¬ (Writes c .connections a ∨ Guarded c conn.accept) :=
    fun unguarded either => unguarded (either.elim guards id)
  obtain ⟨⟨lower, rfl, same, below⟩ | ⟨rfl, wraps⟩, _⟩ := writes.asks inv next' asks'
  · rw [rank_of_connection next' asks', same]
    have twice : 2 * lower.level < 2 * conn.level := by omega
    by_cases guarded : Guarded c conn.accept
    · rw [if_pos (Or.inr guarded), if_pos (Or.inr guarded)]
      exact Prod.Lex.toLex_lt_toLex.mpr (Or.inr ⟨rfl, twice⟩)
    · rw [if_neg (outside guarded)]
      exact low twice
  · rw [rank_of_ssl next' asks']
    have twice : 1 < 2 * conn.level := by omega
    by_cases guarded : Guarded c conn.accept
    · rw [if_pos (Or.inr guarded), if_pos (Or.inr guarded)]
      exact Prod.Lex.toLex_lt_toLex.mpr (Or.inr ⟨rfl, twice⟩)
    · rw [if_neg (outside guarded)]
      exact low twice

/-- Whoever waits for a thread that holds `connections_lock_`, and waits too, ranks
above it. -/
theorem rank_lt_of_holds (inv : LockInvariant c) {op' : Op} {rest' : List Op} {name : LockName}
    (next : c.todo a = op :: rest) (asks : op.asks = some .connections)
    (next' : c.todo b = op' :: rest') (asks' : op'.asks = some name)
    (holds : Holds c .connections b) : rank c b < rank c a := by
  rw [rank_of_connections next asks]
  rcases holds.asks inv next' asks' with ⟨writes, conn, rfl⟩ | ⟨accept, rfl⟩
  · rw [rank_of_connection next' asks', if_pos (Or.inl writes)]
    exact Prod.Lex.toLex_lt_toLex.mpr (Or.inl Nat.zero_lt_one)
  · rw [rank_of_ssl next' asks', if_pos (Or.inl holds)]
    exact Prod.Lex.toLex_lt_toLex.mpr (Or.inl Nat.zero_lt_one)

/-- Whoever waits for `ssl_mtx_`, whose holder waits too, ranks above it. -/
theorem rank_lt_of_ssl (inv : LockInvariant c) (ssl : SslInvariant c) {op' : Op}
    {rest' : List Op} {name : LockName} (next : c.todo a = .lock (.ssl accept) :: rest)
    (next' : c.todo b = op' :: rest') (asks' : op'.asks = some name)
    (writes : Writes c (.ssl accept) b) : rank c b < rank c a := by
  obtain ⟨⟨t', rfl, writer, closing⟩, asked⟩ := writes.closing ssl next' asks'
  rw [rank_of_ssl next rfl]
  by_cases guarded : Guarded c accept
  · rw [if_pos (Or.inr guarded)]
    rcases asked with rfl | ⟨_, unguarded⟩
    · rw [rank_of_connection next' asks', if_pos (Or.inr guarded)]
      exact Prod.Lex.toLex_lt_toLex.mpr (Or.inr ⟨rfl, Nat.zero_lt_one⟩)
    · exact absurd guarded unguarded
  · have outside : ¬ Holds c .connections a := by
      intro holds
      cases a with
      | thread t =>
          have handles := (handles_or_guarded inv ssl holds next).resolve_right guarded
          exact ssl.apart accept t t' handles writer closing
      | task task => exact holds
    rw [if_neg (not_or.mpr ⟨outside, guarded⟩)]
    rcases asked with rfl | ⟨rfl, _⟩
    · rw [rank_of_connection next' asks']
      split
      · exact Prod.Lex.toLex_lt_toLex.mpr (Or.inl Nat.zero_lt_two)
      · exact Prod.Lex.toLex_lt_toLex.mpr (Or.inr ⟨rfl, Nat.zero_lt_one⟩)
    · rw [rank_of_connections next' asks']
      exact Prod.Lex.toLex_lt_toLex.mpr (Or.inl Nat.one_lt_two)

/-- Along every wait for someone who waits too the rank goes down. -/
theorem rank_lt (inv : LockInvariant c) (ssl : SslInvariant c) (waits : WaitsFor c a b)
    (further : ∃ d, WaitsFor c b d) : rank c b < rank c a := by
  obtain ⟨d, further⟩ := further
  obtain ⟨op', rest', name', next', asks'⟩ := further.asks
  obtain ⟨name, rest, ⟨next, holds⟩ | ⟨next, writes⟩⟩ := waits.cases
  · cases name with
    | connections => exact rank_lt_of_holds inv next rfl next' asks' holds
    | ssl accept => exact rank_lt_of_ssl inv ssl next next' asks' holds
    | connection conn =>
        have guards : Writes c .connections a → Guarded c conn.accept :=
          fun under => under.guarded next
        rcases holds with writes | reads
        · exact rank_lt_of_writes inv next rfl next' asks' writes guards
        · -- The read lock waits for `connections_lock_`, which `a` is not in the way of, or
          -- under it.
          obtain ⟨reserved, asked⟩ := reads.asks inv next' asks'
          have outside : ¬ (Writes c .connections a ∨ Guarded c conn.accept) :=
            fun either => (either.elim guards id).unreserved inv reserved
          rw [rank_of_connection next rfl, if_neg outside]
          rcases asked with rfl | ⟨⟨accept, rfl⟩, under⟩
          · rw [rank_of_connections next' asks']
            exact Prod.Lex.toLex_lt_toLex.mpr (Or.inl Nat.one_lt_two)
          · rw [rank_of_ssl next' asks', if_pos (Or.inl under)]
            exact Prod.Lex.toLex_lt_toLex.mpr (Or.inl Nat.zero_lt_two)
  · cases name with
    | connections => exact rank_lt_of_holds inv next rfl next' asks' writes.holds
    | ssl accept => exact absurd next (not_readsSsl ssl)
    | connection conn =>
        refine rank_lt_of_writes inv next rfl next' asks' writes fun under => ?_
        -- Who reads under `connections_lock_` found the connection in the pool, which
        -- it has left once it is shut down.
        obtain ⟨_, gone⟩ := writes.asks inv next' asks'
        cases a with
        | thread t =>
            obtain ⟨fd, entry⟩ := inv.found t conn rest (RwLock.mode_eq_writing.mpr under) next
            exact absurd entry (gone fd)
        | task task => exact under.elim

end ServerConfig

end LibSiot
