/-
Module: LibSiot.Proofs.Server.StackShutdown
Purpose: `Shutdown()` on the outermost handle of a stack of decorators that own
  what they wrap: it works through the levels one after the other, of which
  only the first is in the pool.  Every level is shut down once; whether the
  socket is closed depends on the class of the innermost connection.
Trusted boundary: none
Main exports: ServerState.Standing, ServerState.ReleasedOnce,
  ServerState.releasedOnce_iff
-/
import LibSiot.Server.Rules

namespace LibSiot

open Interleaving (Flow)
open Interleaving.Machine (Performs)

namespace Op

/-- The connection whose socket the operation closes. -/
def closedSocket : Op → Option Handle
  | .closeSocket conn => some conn
  | _ => none

end Op

namespace ServerState

variable {n : Nat} {t : Tid n} {e : Choice} {s s' : ServerState n} {accept level : Nat}

/-- The handle around all decorators of a connection. -/
def outermost (s : ServerState n) (accept : Nat) : Handle :=
  { accept := accept, level := (s.decorators accept).length }

/-- A connection that is registered by its outermost handle, with decorators that
own what they wrap, and with nobody at work on it or on the pool. -/
structure Standing (s : ServerState n) (accept : Nat) : Prop where
  owned : ∀ decorator ∈ s.decorators accept, decorator.owned = true
  entry : s.connections.lookup (s.socket accept) = some (some (s.outermost accept))
  only : ∀ fd conn, s.connections.lookup fd = some (some conn) → conn.accept = accept →
    fd = s.socket accept ∧ conn = s.outermost accept
  watched : s.socket accept ∈ s.epollSet
  pool : s.locks .connections = .free
  unlocked : ∀ level ≤ (s.decorators accept).length,
    s.locks (.connection { accept := accept, level := level }) = .free
  unused : s.locks (.ssl accept) = .free

/-- What `Shutdown()` is to do to a connection: its entry is gone from the pool
and its descriptor from the epoll set, and nothing else; the `Shutdown()` of each
level was called once; and one descriptor was closed, that of the socket. -/
structure ReleasedOnce (s s' : ServerState n) (accept : Nat) (performed : List Op) : Prop where
  connections : s'.connections = s.connections.erase (s.socket accept)
  epollSet : s'.epollSet = s.epollSet.filter (· ≠ s.socket accept)
  shutdowns : ∀ level ≤ (s.decorators accept).length,
    performed.count (.shutdown { accept := accept, level := level }) = 1
  closed : (performed.filterMap Op.closedSocket).map (fun conn => s.socket conn.accept) =
    [s.socket accept]

/-! ### Single operations -/

theorem exec_lock {name : LockName} (free : s.locks name = .free) :
    (server n).exec t (.lock name) e s =
      some (.next [], s.setLock name { writer := some t, readers := [] }) := by
  simp only [server, exec, lock, free]
  rfl

theorem exec_epollDel {fd : Nat} (there : fd ∈ s.epollSet) :
    (server n).exec t (.epollDel fd) e s =
      some (.next [], { s with epollSet := s.epollSet.filter (· ≠ fd) }) := by
  simp only [server, exec, epollDel, if_pos there, goOn]

theorem exec_delete {conn : Handle} :
    (server n).exec t (.delete conn) e s =
      some (.next [], (s.record (.destroyed conn)).setLock (.connection conn) .free) := rfl

/-- A handle that is not in the pool has nothing to dequeue. -/
theorem exec_deregister_absent {conn : Handle}
    (absent : ∀ fd, s.connections.lookup fd ≠ some (some conn)) :
    (server n).exec t (.deregister conn) e s =
      some (.next [], { s with isShutdown := Function.update s.isShutdown conn true }) := by
  have none : s.connections.keysWhere (· = some conn) = [] := by
    apply OrderedMap.keysWhere_eq_nil
    intro fd value entry
    apply decide_eq_false
    rintro rfl
    exact absent fd entry
  simp [server, exec, deregister, none, goOn]

/-! ### What is done under `ssl_mtx_` -/

/-- The operations, under `ssl_mtx_` where `Shutdown()` of the connection takes it. -/
def guarded (conn : Handle) (ops : List Op) (s : ServerState n) : List Op :=
  if conn.level = 0 then s.underSsl conn.accept ops else ops

/-- `Shutdown()` of the connection has `ssl_mtx_`, if it takes it. -/
def entered (t : Tid n) (conn : Handle) (s : ServerState n) : ServerState n :=
  if conn.level = 0 ∧ s.ssl = true then
    s.setLock (.ssl conn.accept) { writer := some t, readers := [] }
  else s

/-- `Shutdown()` of the connection gave `ssl_mtx_` back, if it took it. -/
def left (t : Tid n) (conn : Handle) (encrypted : Bool) (s : ServerState n) : ServerState n :=
  if conn.level = 0 ∧ encrypted = true then
    s.setLock (.ssl conn.accept) ((s.locks (.ssl conn.accept)).unlock t)
  else s

/-- The states agree in what `Shutdown()` works on. -/
structure Agree (s s' : ServerState n) : Prop where
  connections : s'.connections = s.connections
  epollSet : s'.epollSet = s.epollSet
  ssl : s'.ssl = s.ssl
  decorators : s'.decorators = s.decorators
  socket : s'.socket = s.socket
  pool : s'.locks .connections = s.locks .connections
  locks : ∀ conn, s'.locks (.connection conn) = s.locks (.connection conn)

theorem agree_entered (t : Tid n) (conn : Handle) (s : ServerState n) :
    Agree s (s.entered t conn) := by
  unfold entered
  split <;> constructor <;> simp [setLock]

theorem agree_left (t : Tid n) (conn : Handle) (encrypted : Bool) (s : ServerState n) :
    Agree s (s.left t conn encrypted) := by
  unfold left
  split <;> constructor <;> simp [setLock]

theorem entered_of_wraps {conn : Handle} (wraps : conn.level ≠ 0) : s.entered t conn = s :=
  if_neg fun both => wraps both.1

/-- What is performed under `ssl_mtx_`. -/
theorem performs_guarded {conn : Handle} {ops performed : List Op}
    (free : s.locks (.ssl conn.accept) = .free)
    (body : Performs (server n) t e ops (s.entered t conn) performed s') :
    Performs (server n) t e (s.guarded conn ops) s (s.guarded conn performed)
      (s'.left t conn s.ssl) := by
  by_cases takes : conn.level = 0 ∧ s.ssl = true
  · rw [entered, if_pos takes] at body
    simp only [guarded, underSsl, takes.1, takes.2, left, if_true, and_self]
    exact ((Performs.single (exec_lock free)).append body).append (.single rfl)
  · rw [entered, if_neg takes] at body
    rw [left, if_neg takes]
    unfold guarded underSsl
    split
    · rename_i socket
      rw [if_neg fun encrypted => takes ⟨socket, encrypted⟩,
        if_neg fun encrypted => takes ⟨socket, encrypted⟩]
      exact body
    · exact body

/-- Calls of `Receive` or `Send` of a connection that nobody else uses. -/
theorem performs_useOps (conn : Handle) (calls : Nat)
    (free : s.locks (.ssl conn.accept) = .free) :
    ∃ lastUse, Performs (server n) t e (s.useOps conn calls) s (s.useOps conn calls)
      { s with lastUse := lastUse } := by
  induction calls generalizing s with
  | zero => exact ⟨s.lastUse, .done s⟩
  | succ calls ih =>
      let used := { s with lastUse := Function.update s.lastUse conn.accept e.now }
      have one : Performs (server n) t e (s.underSsl conn.accept [.use conn]) s
          (s.underSsl conn.accept [.use conn]) used := by
        by_cases encrypted : s.ssl = true
        · have locked := Performs.single (e := e) (exec_lock (t := t) free)
          have back : used = ({ s.setLock (.ssl conn.accept) { writer := some t, readers := [] } with
              lastUse := Function.update s.lastUse conn.accept e.now } : ServerState n).setLock
                (.ssl conn.accept) .free := by
            simp only [used, setLock, Function.update_idem]
            rw [← free, Function.update_eq_self]
          rw [underSsl, if_pos encrypted, back]
          refine (locked.append (.single rfl)).append (.single ?_)
          simp [server, exec, unlock, setLock, RwLock.unlock, goOn, RwLock.free]
        · rw [underSsl, if_neg encrypted]
          exact .single rfl
      obtain ⟨lastUse, rest⟩ := ih (s := used) free
      exact ⟨lastUse, one.append rest⟩

/-- The draining loop, if it ends. -/
theorem performs_drain (quiet : e.throws = false) {conn : Handle}
    (free : s.locks (.ssl conn.accept) = .free) :
    ∃ lastUse, Performs (server n) t e [.drain conn] s
      (.drain conn :: (s.useOps conn e.turns ++ [.drained conn]))
      { s with lastUse := lastUse } := by
  obtain ⟨lastUse, used⟩ := performs_useOps (t := t) (e := e) conn e.turns free
  refine ⟨lastUse, .pushing rfl (used.append (.single ?_))⟩
  simp [server, exec, drained, quiet, goOn]

/-! ### The levels that are not in the pool -/

/-- The levels up to `level` can be shut down: they are not locked, and those
below `level` are not in the pool. -/
structure Lower (s : ServerState n) (accept level : Nat) : Prop where
  inside : level ≤ (s.decorators accept).length
  owned : ∀ decorator ∈ s.decorators accept, decorator.owned = true
  absent : ∀ fd conn, s.connections.lookup fd = some (some conn) → conn.accept = accept →
    level ≤ conn.level
  unlocked : ∀ level' ≤ level,
    s.locks (.connection { accept := accept, level := level' }) = .free
  unused : level ≠ 0 → s.locks (.ssl accept) = .free

/-- What the body of `Shutdown()` at `level` comes to. -/
structure TornDown (s s' : ServerState n) (accept level : Nat) (performed : List Op) :
    Prop where
  connections : s'.connections = s.connections
  epollSet : s'.epollSet =
    if s.ssl then s.epollSet else s.epollSet.filter (· ≠ s.socket accept)
  shutdowns : ∀ level', performed.count (.shutdown { accept := accept, level := level' }) =
    if level' < level then 1 else 0
  closed : performed.filterMap Op.closedSocket =
    if s.ssl then [] else [{ accept := accept, level := 0 }]

/-- The innermost level. -/
theorem performs_socket (free : s.locks (.connection { accept := accept, level := 0 }) = .free) :
    ∃ performed s', Performs (server n) t e (s.shutdownBody { accept := accept, level := 0 }) s
      performed s' ∧ TornDown s s' accept 0 performed := by
  cases encrypted : s.ssl with
  | true =>
      have body : s.shutdownBody { accept := accept, level := 0 } =
          [.lock (.connection { accept := accept, level := 0 }),
            .delete { accept := accept, level := 0 }] := by
        simp [shutdownBody, encrypted]
      rw [body]
      refine ⟨_, _, (Performs.single (exec_lock free)).append (.single rfl), ?_⟩
      constructor
      · rfl
      · rw [encrypted, if_pos rfl]
        rfl
      · simp
      · simp [Op.closedSocket, encrypted]
  | false =>
      have body : s.shutdownBody { accept := accept, level := 0 } =
          [.lock (.connection { accept := accept, level := 0 }),
            .closeSocket { accept := accept, level := 0 },
            .delete { accept := accept, level := 0 }] := by
        simp [shutdownBody, encrypted]
      rw [body]
      refine ⟨_, _, (Performs.single (exec_lock free)).append
        ((Performs.single rfl).append (.single rfl)), ?_⟩
      constructor
      · rfl
      · rw [encrypted]
        rfl
      · simp
      · rw [encrypted]
        rfl

/-- A level around others: it is locked, a range reader is drained, and then the
next level below is shut down. -/
theorem shutdownBody_succ (owned : ∀ decorator ∈ s.decorators accept, decorator.owned = true)
    (inside : level < (s.decorators accept).length) :
    ∃ drains, (drains = [] ∨ drains = [.drain { accept := accept, level := level + 1 }]) ∧
      s.shutdownBody { accept := accept, level := level + 1 } =
        [.lock (.connection { accept := accept, level := level + 1 })] ++ drains ++
          [.shutdown { accept := accept, level := level }] ++
          [.delete { accept := accept, level := level + 1 }] := by
  have owns := owned _ (List.getElem_mem inside)
  have there : (s.decorators accept)[level]? = some (s.decorators accept)[level] :=
    List.getElem?_eq_getElem inside
  simp only [shutdownBody, there, owns, if_true]
  split
  · exact ⟨_, Or.inr rfl, rfl⟩
  · exact ⟨_, Or.inl rfl, rfl⟩

/-- The state in which the body of `Shutdown()` starts, for a handle that is not in
the pool. -/
def deregistered (t : Tid n) (conn : Handle) (s : ServerState n) : ServerState n :=
  { (s.record (.shutdownStarted conn)).entered t conn with
    isShutdown := Function.update s.isShutdown conn true }

theorem agree_deregistered (t : Tid n) (conn : Handle) (s : ServerState n) :
    Agree s (s.deregistered t conn) where
  connections := (agree_entered t conn _).connections
  epollSet := (agree_entered t conn _).epollSet
  ssl := (agree_entered t conn _).ssl
  decorators := (agree_entered t conn _).decorators
  socket := (agree_entered t conn _).socket
  pool := (agree_entered t conn _).pool
  locks := (agree_entered t conn _).locks

theorem shutdownBody_congr (ssl : s'.ssl = s.ssl) (decorators : s'.decorators = s.decorators)
    (conn : Handle) : s'.shutdownBody conn = s.shutdownBody conn := by
  simp only [shutdownBody, ssl, decorators]

theorem performs_shutdown_absent {conn : Handle}
    (absent : ∀ fd, s.connections.lookup fd ≠ some (some conn))
    (free : s.locks (.ssl conn.accept) = .free) {performed : List Op}
    (body : Performs (server n) t e (s.shutdownBody conn) (s.deregistered t conn) performed s') :
    Performs (server n) t e [.shutdown conn] s
      (.shutdown conn :: s.guarded conn (.deregister conn :: performed))
      (s'.left t conn s.ssl) := by
  have agree := agree_entered t conn (s.record (.shutdownStarted conn))
  have absent' : ∀ fd, ((s.record (.shutdownStarted conn)).entered t conn).connections.lookup fd ≠
      some (some conn) := by
    intro fd
    rw [agree.connections]
    exact absent fd
  have isShutdown : ((s.record (.shutdownStarted conn)).entered t conn).isShutdown =
      s.isShutdown := by
    unfold entered
    split <;> rfl
  have first := exec_deregister_absent (t := t) (e := e) absent'
  rw [isShutdown] at first
  apply Performs.pushing rfl
  exact performs_guarded (s := s.record (.shutdownStarted conn)) free (.step first body)

theorem count_guarded (conn part : Handle) (ops : List Op) :
    (s.guarded conn ops).count (.shutdown part) = ops.count (.shutdown part) := by
  unfold guarded underSsl
  split
  · split <;> simp
  · rfl

theorem closedSocket_guarded (conn : Handle) (ops : List Op) :
    (s.guarded conn ops).filterMap Op.closedSocket = ops.filterMap Op.closedSocket := by
  unfold guarded underSsl
  split
  · split
    · rw [List.filterMap_append, List.filterMap_cons_none rfl]
      exact List.append_nil _
    · rfl
  · rfl

/-- What a range reader does before it shuts down what it wraps. -/
theorem performs_drains (quiet : e.throws = false) {conn : Handle} {drains : List Op}
    (cases : drains = [] ∨ drains = [.drain conn]) (free : s.locks (.ssl conn.accept) = .free) :
    ∃ performed lastUse, Performs (server n) t e drains s performed
        { s with lastUse := lastUse } ∧
      (∀ part, performed.count (.shutdown part) = 0) ∧
      performed.filterMap Op.closedSocket = [] := by
  rcases cases with rfl | rfl
  · exact ⟨[], s.lastUse, .done s, fun _ => rfl, rfl⟩
  · obtain ⟨lastUse, performs⟩ := performs_drain (t := t) quiet free
    refine ⟨_, lastUse, performs, fun part => ?_, ?_⟩
    · apply List.count_eq_zero.mpr
      intro member
      rcases List.mem_cons.mp member with impossible | member
      · cases impossible
      · rcases mem_useOps_append member with impossible | impossible | impossible | impossible <;>
          cases impossible
    · apply List.filterMap_eq_nil_iff.mpr
      intro op member
      rcases List.mem_cons.mp member with rfl | member
      · rfl
      · rcases mem_useOps_append member with rfl | rfl | rfl | rfl <;> rfl

/-- All the levels from `level` down, by induction over them. -/
theorem performs_body (quiet : e.throws = false) (lower : Lower s accept level) :
    ∃ performed s', Performs (server n) t e
      (s.shutdownBody { accept := accept, level := level }) s performed s' ∧
        TornDown s s' accept level performed := by
  induction level generalizing s with
  | zero => exact performs_socket (lower.unlocked 0 (Nat.le_refl 0))
  | succ level ih =>
      obtain ⟨drains, cases, body⟩ := shutdownBody_succ lower.owned lower.inside
      have free := lower.unused (Nat.succ_ne_zero level)
      let locked := s.setLock (.connection { accept := accept, level := level + 1 })
        { writer := some t, readers := [] }
      have free' : locked.locks (.ssl accept) = .free := by
        simpa [locked, setLock] using free
      obtain ⟨drained, lastUse, drain, uncounted, unclosed⟩ :=
        performs_drains (t := t) quiet cases free'
      let emptied : ServerState n := { locked with lastUse := lastUse }
      have absent : ∀ fd, emptied.connections.lookup fd ≠
          some (some { accept := accept, level := level }) := fun fd entry =>
        absurd (lower.absent fd _ entry rfl) (Nat.not_succ_le_self level)
      have agree := agree_deregistered t { accept := accept, level := level } emptied
      have lower' : Lower (emptied.deregistered t { accept := accept, level := level }) accept
          level := by
        constructor
        · rw [agree.decorators]
          exact Nat.le_of_succ_le lower.inside
        · rw [agree.decorators]
          exact lower.owned
        · intro fd conn entry same
          rw [agree.connections] at entry
          exact Nat.le_of_succ_le (lower.absent fd conn entry same)
        · intro level' below
          have other : (LockName.connection { accept := accept, level := level' }) ≠
              .connection { accept := accept, level := level + 1 } := by
            simp only [ne_eq, LockName.connection.injEq, Handle.mk.injEq, true_and]
            omega
          rw [agree.locks]
          exact (Function.update_of_ne other _ _).trans
            (lower.unlocked level' (Nat.le_succ_of_le below))
        · intro wraps
          rw [deregistered, entered_of_wraps wraps]
          exact free'
      obtain ⟨performed, s', inner, torn⟩ := ih lower'
      rw [shutdownBody_congr agree.ssl agree.decorators] at inner
      have toLower := (Performs.single (exec_lock (lower.unlocked (level + 1)
        (Nat.le_refl _)))).append drain
      rw [body]
      refine ⟨_, _, (toLower.append (performs_shutdown_absent absent free' inner)).append
        (.single exec_delete), ?_⟩
      have leaves := agree_left t { accept := accept, level := level } emptied.ssl s'
      constructor
      · exact leaves.connections.trans (torn.connections.trans agree.connections)
      · refine leaves.epollSet.trans (torn.epollSet.trans ?_)
        rw [agree.ssl, agree.epollSet, agree.socket]
        rfl
      · intro level'
        simp only [List.count_append, List.count_cons, uncounted, count_guarded,
          torn.shutdowns level', List.count_nil, beq_iff_eq, reduceCtorEq, if_false,
          Op.shutdown.injEq, Handle.mk.injEq, true_and]
        split_ifs <;> omega
      · simp only [List.filterMap_append, List.filterMap_cons, Op.closedSocket, unclosed,
          closedSocket_guarded, torn.closed, List.filterMap_nil, List.nil_append,
          List.append_nil, agree.ssl]
        rfl

/-! ### The outermost level -/

/-- The only entry of the connection is taken from the pool and the epoll set. -/
theorem performs_deregister (standing : Standing s accept) {mid : ServerState n}
    (agree : Agree s mid) :
    ∃ s', Performs (server n) t e [.deregister (s.outermost accept)] mid
        (.deregister (s.outermost accept) :: dequeueOps (s.socket accept)) s' ∧
      s'.connections = s.connections.erase (s.socket accept) ∧
      s'.epollSet = s.epollSet.filter (· ≠ s.socket accept) ∧
      s'.ssl = s.ssl ∧ s'.decorators = s.decorators ∧ s'.socket = s.socket ∧
      ∀ name, name ≠ .connections → s'.locks name = mid.locks name := by
  have keys : mid.connections.keysWhere (· = some (s.outermost accept)) = [s.socket accept] := by
    rw [agree.connections]
    apply OrderedMap.keysWhere_eq_singleton standing.entry (by simp)
    intro fd value entry same
    rw [of_decide_eq_true same] at entry
    exact (standing.only fd _ entry rfl).1
  have deregistered : (server n).exec t (.deregister (s.outermost accept)) e mid =
      some (.next (dequeueOps (s.socket accept)),
        { mid with isShutdown := Function.update mid.isShutdown (s.outermost accept) true }) := by
    simp [server, exec, deregister, keys, goOn]
  have locked : (server n).exec t (.lock .connections) e
      { mid with isShutdown := Function.update mid.isShutdown (s.outermost accept) true } = _ :=
    exec_lock (agree.pool.trans standing.pool)
  have watched : s.socket accept ∈ mid.epollSet := agree.epollSet ▸ standing.watched
  refine ⟨_, .pushing deregistered (.step locked (.step rfl
    (.step (exec_epollDel watched) (.step rfl (.done _))))), ?_⟩
  refine ⟨?_, ?_, agree.ssl, agree.decorators, agree.socket, fun name other => ?_⟩
  · rw [← agree.connections]
    rfl
  · rw [← agree.epollSet]
    rfl
  · simp [setLock, record, other]

/-- The run of `Shutdown()` on the outermost handle, and what it comes to. -/
theorem performs_shutdown (quiet : e.throws = false) (standing : Standing s accept) :
    ∃ performed s', Performs (server n) t e [.shutdown (s.outermost accept)] s performed s' ∧
      (ReleasedOnce s s' accept performed ↔ s.ssl = false) := by
  let started := s.record (.shutdownStarted (s.outermost accept))
  have agree : Agree s (started.entered t (s.outermost accept)) := by
    have same := agree_entered t (s.outermost accept) started
    exact ⟨same.1, same.2, same.3, same.4, same.5, same.6, same.7⟩
  obtain ⟨s₁, deregistered, connections, epollSet, ssl, decorators, socket, locks⟩ :=
    performs_deregister (t := t) (e := e) standing agree
  have lower : Lower s₁ accept (s.decorators accept).length := by
    constructor
    · rw [decorators]
    · rw [decorators]
      exact standing.owned
    · intro fd conn entry same
      rw [connections, OrderedMap.lookup_erase] at entry
      split at entry
      · cases entry
      · rename_i other
        exact absurd (standing.only fd conn entry same).1 other
    · intro level below
      rw [locks _ (by simp), agree.locks]
      exact standing.unlocked level below
    · intro wraps
      rw [locks _ (by simp), entered_of_wraps wraps]
      exact standing.unused
  obtain ⟨performed, s', body, torn⟩ := performs_body (t := t) quiet lower
  rw [shutdownBody_congr ssl decorators] at body
  refine ⟨_, _, .pushing rfl (performs_guarded (s := started) standing.unused
    (deregistered.append body)), ?_⟩
  have closed : (Op.shutdown (s.outermost accept) :: started.guarded (s.outermost accept)
      (.deregister (s.outermost accept) :: dequeueOps (s.socket accept) ++ performed)).filterMap
        Op.closedSocket = if s.ssl then [] else [{ accept := accept, level := 0 }] := by
    rw [List.filterMap_cons_none rfl, closedSocket_guarded, ← ssl, ← torn.closed]
    rfl
  have leaves := agree_left t (s.outermost accept) started.ssl s'
  constructor
  · intro released
    have once := released.closed
    by_contra encrypted
    rw [closed, if_pos (Bool.not_eq_false _ ▸ encrypted)] at once
    cases once
  · intro plain
    constructor
    · rw [leaves.connections, torn.connections, connections]
    · rw [leaves.epollSet, torn.epollSet, epollSet, ssl, plain, socket]
      simp
    · intro level inside
      rw [List.count_cons, count_guarded]
      simp only [dequeueOps, List.cons_append, List.nil_append, List.count_cons,
        torn.shutdowns level, outermost, beq_iff_eq, reduceCtorEq, if_false,
        Op.shutdown.injEq, Handle.mk.injEq, true_and]
      split_ifs <;> omega
    · rw [closed, plain]
      rfl

/-- One call of `Shutdown()` on the outermost handle of a connection that stands
alone runs to its end, and releases everything exactly once if the server
does not use TLS: the class of TLS connections never closes its socket. -/
theorem releasedOnce_iff (t : Tid n) (e : Choice) (quiet : e.throws = false)
    {s : ServerState n} {accept : Nat} (standing : Standing s accept) :
    (∃ performed s', Performs (server n) t e [.shutdown (s.outermost accept)] s performed s') ∧
      ∀ performed s', Performs (server n) t e [.shutdown (s.outermost accept)] s performed s' →
        (ReleasedOnce s s' accept performed ↔ s.ssl = false) := by
  obtain ⟨performed, s', performs, released⟩ := performs_shutdown (t := t) quiet standing
  refine ⟨⟨performed, s', performs⟩, fun performed' s'' performs' => ?_⟩
  obtain ⟨rfl, rfl⟩ := performs.unique performs'
  exact released

/-- Two connections: the first, at descriptor 5, has a line buffer around a range
reader around its socket, the second, at descriptor 7, has no decorators. -/
def layered (ssl : Bool) : ServerState 1 :=
  { ServerState.init 1 3 ssl (-1) with
    connections := (OrderedMap.empty.insert 5 (some { accept := 0, level := 2 })).insert 7
      (some { accept := 1, level := 0 })
    epollSet := [7, 5, 3]
    openFds := [7, 5, 3]
    nextAccept := 2
    socket := fun accept => if accept = 0 then 5 else 7
    decorators := fun accept => if accept = 0 then
      [{ cls := .rangeReader, owned := true }, { cls := .lineBuffer, owned := true }] else [] }

theorem layered_standing (ssl : Bool) : Standing (layered ssl) 0 where
  owned := by simp [layered]
  entry := rfl
  only := by
    intro fd conn entry same
    simp only [layered, OrderedMap.lookup_insert, OrderedMap.lookup_empty] at entry
    split at entry
    · cases entry
      cases same
    · split at entry
      · rename_i first
        cases entry
        exact ⟨first, rfl⟩
      · cases entry
  watched := by simp [layered]
  pool := rfl
  unlocked := fun _ _ => rfl
  unused := rfl

/-- The first connection is shut down by a worker of a plain server. -/
theorem releasedOnce_of_layered :
    (∃ performed s', Performs (server 1) Tid.only {}
      [.shutdown ((layered false).outermost 0)] (layered false) performed s') ∧
      ∀ performed s', Performs (server 1) Tid.only {}
        [.shutdown ((layered false).outermost 0)] (layered false) performed s' →
        (ReleasedOnce (layered false) s' 0 performed ↔ (layered false).ssl = false) :=
  releasedOnce_iff Tid.only {} rfl (layered_standing false)

/-- The same with TLS: the socket stays open. -/
theorem layered_not_releasedOnce :
    ∃ performed s', Performs (server 1) Tid.only {}
      [.shutdown ((layered true).outermost 0)] (layered true) performed s' ∧
        ¬ ReleasedOnce (layered true) s' 0 performed := by
  obtain ⟨performed, s', performs, released⟩ : ∃ performed s', Performs (server 1) Tid.only {}
      [.shutdown ((layered true).outermost 0)] (layered true) performed s' ∧
      (ReleasedOnce (layered true) s' 0 performed ↔ (layered true).ssl = false) :=
    performs_shutdown rfl (layered_standing true)
  exact ⟨performed, s', performs, fun once => absurd (released.mp once) (by decide)⟩

end ServerState

end LibSiot
