/-
Module: LibSiot.Proofs.Server.DescriptorReuse
Purpose: Events of a client and descriptors that the kernel gives out again: in
  runs of the whole server, whatever is queued or shut down while an event is
  handled is the connection that had the descriptor when `epoll_wait` returned
  the event.
Trusted boundary: none
Main exports: ServerConfig.Returned, ServerConfig.ForRegistered,
  ServerConfig.forRegistered_of_constructorsSucceed
-/
import LibSiot.Proofs.Server.Batch
import LibSiot.Proofs.Server.NewConnection

namespace LibSiot

open Interleaving (Flow)
open Interleaving.Machine (pushes AllOps continuation_split)

/-- The connection that a task is about. -/
def Closure.about : Closure → Handle
  | .lockCallAndUnlock _ conn => conn
  | .connectionTerminated conn => conn
  | .shutdown conn => conn

namespace Op

/-- The operation is one of the loops of `ListenEpoll`. -/
def loops : Op → Bool
  | .listenWhile => true
  | .epollWait => true
  | .forLoop _ _ => true
  | _ => false

/-- The operation is part of the accept branch, up to `epoll_ctl`. -/
def accepts : Op → Bool
  | .accept => true
  | .construct _ => true
  | .addDecorators _ _ => true
  | .epollAdd _ _ => true
  | _ => false

/-- The operation waits for events. -/
def waits : Op → Bool
  | .epollWait => true
  | _ => false

theorem listens_of_loops {op : Op} (loops : op.loops = true) : op.listens = true := by
  cases op <;> first | rfl | cases loops

theorem loops_of_common {op : Op} (common : op.common = true) : op.loops = false := by
  cases op <;> first | rfl | cases common

theorem survives_of_loops {op : Op} (loops : op.loops = true) : op.survives = false := by
  cases op <;> first | rfl | cases loops

end Op

namespace ServerState

variable {n : Nat} {t : Tid n} {e : Choice} {s s' : ServerState n} {op : Op}
  {flow : Flow Op}

/-! ### One step -/

/-- What the loop knows of the events changes only by the loops themselves. -/
structure SameEvents (s s' : ServerState n) : Prop where
  serverfd : s'.serverfd = s.serverfd
  batch : s'.batch = s.batch
  examined : s'.examined = s.examined

theorem Rule.sameEvents (rule : Rule t e s op flow s') (body : op.loops = false) :
    SameEvents s s' := by
  cases rule with
  | waited | examineListening | examineClient | examineZero => cases body
  | _ => exact ⟨rfl, rfl, rfl⟩

/-- Loops are pushed last, and by loops. -/
theorem Rule.loops_last (rule : Rule t e s op flow s') {pre between : List Op} {loop : Op}
    (loops : loop.loops = true) (pushed : pushes flow = pre ++ loop :: between) :
    op.loops = true ∧ between = [] := by
  have member : loop ∈ pushes flow := pushed ▸ List.mem_append_right _ List.mem_cons_self
  have common := fun spreads => rule.common_of_pushed spreads loop member
  have single : ∀ first : Op, pushes flow = [first] → between = [] := by
    intro first only
    rw [only] at pushed
    cases pre with
    | nil => exact (List.cons.inj pushed).2.symm
    | cons _ pre => simp at pushed
  have double : ∀ first last : Op, first.loops = false → pushes flow = [first, last] →
      between = [] := by
    intro first last body only
    rw [only] at pushed
    match pre, pushed with
    | [], pushed =>
        rw [← (List.cons.inj pushed).1, body] at loops
        cases loops
    | [_], pushed => exact (List.cons.inj (List.cons.inj pushed).2).2.symm
    | _ :: _ :: pre, pushed => simp at pushed
  cases rule with
  | keepListening | waitRetried | waited | examineZero => exact ⟨rfl, single _ rfl⟩
  | examineListening | examineClient | loopOver => exact ⟨rfl, double _ _ rfl rfl⟩
  | takeTask | callbackUses | shutdown | deregister | drain | userUses =>
      rw [Op.loops_of_common (common rfl)] at loops
      cases loops
  | _ => exact absurd loops (List.any_eq_false.mp rfl loop member)

/-- The array changes only by `epoll_wait` and by being cleared. -/
theorem Rule.array_eq (rule : Rule t e s op flow s') (other : op.waits = false) :
    s'.batch = s.batch ∧ ((op ≠ .clearEvents ∧ s'.events = s.events) ∨
      op = .clearEvents ∧ s'.events = s.events.map fun _ => .zero) := by
  cases rule with
  | waited => cases other
  | clearEvents => exact ⟨rfl, Or.inr ⟨rfl, rfl⟩⟩
  | _ => exact ⟨rfl, Or.inl ⟨nofun, rfl⟩⟩

theorem Rule.unlock_flow {name : LockName} {destructor : Bool}
    (rule : Rule t e s (.unlock name destructor) flow s') : flow = .next [] := by
  cases rule
  rfl

/-- `epoll_wait` leaves the pool as it is.  It fails and leaves the array, too; or the
array begins with what it returns. -/
theorem Rule.epollWait_returns (rule : Rule t e s .epollWait flow s') :
    s'.connections = s.connections ∧ s'.nextAccept = s.nextAccept ∧
      ((s' = s ∧ ∀ new ∈ pushes flow, new = .listenWhile) ∨
        s'.batch <+: s'.events ∧ pushes flow = [.forLoop 0 s'.batch.length]) := by
  cases rule with
  | waitLeft => exact ⟨rfl, rfl, Or.inl ⟨rfl, fun new member => by cases member⟩⟩
  | waitRetried => exact ⟨rfl, rfl, Or.inl ⟨rfl, fun new => List.mem_singleton.mp⟩⟩
  | waited batch => exact ⟨rfl, rfl, Or.inr ⟨List.prefix_append _ _, rfl⟩⟩

/-- `AddDecorators` goes on, or brings no connection into the pool. -/
theorem Rule.adds_flow {fd : Nat} {conn : Pointer}
    (rule : Rule t e s (.addDecorators fd conn) flow s') :
    flow = .next [] ∨ ∀ fd' other, s'.connections.lookup fd' = some (some other) →
      s.connections.lookup fd' = some (some other) := by
  cases rule with
  | decoratorsThrew | indeterminateThrew =>
      exact Or.inr fun _ _ entry => stored_of_subscript entry
  | decoratedNull | decorated | indeterminateDecorated => exact Or.inl rfl

end ServerState

namespace ServerConfig

open ServerState

variable {n : Nat}

/-! ### What is remembered of a batch -/

/-- The pool, and the number of connections made, when `epoll_wait` returned last. -/
structure Returned where
  connections : OrderedMap Nat (Option Handle)
  accepted : Nat

/-- Each return of `epoll_wait` is remembered. -/
def remember (c : ServerConfig n) (t : Tid n) (_ : Choice) (returned : Returned) : Returned :=
  match c.prog t with
  | .epollWait :: _ => ⟨c.shared.connections, c.shared.nextAccept⟩
  | _ => returned

/-- The connection was registered for the descriptor of the client event that is being
handled when `epoll_wait` returned the event. -/
def Serves (returned : Returned) (s : ServerState n) (conn : Handle) : Prop :=
  ∀ event ∈ s.examined.getLast?, event.fd ≠ s.serverfd →
    event ∈ s.batch ∧ returned.connections.lookup event.fd = some (some conn) ∧
      conn.accept < returned.accepted

/-- While a client event is handled, every callback queued is for the connection that
was registered for its descriptor when `epoll_wait` returned the event, and every
object shut down is that connection or one that it wraps. -/
structure ForRegistered (returned : Returned) (c : ServerConfig n) : Prop where
  queued : ∀ task rest, c.prog .listen = .addTask task :: rest →
    Serves returned c.shared task.about
  shutdown : ∀ conn rest, c.prog .listen = .shutdown conn :: rest →
    ∃ registered : Handle, Serves returned c.shared registered ∧
      conn.accept = registered.accept ∧ conn.level ≤ registered.level

/-! ### The invariant -/

/-- Every connection in the pool was there when `epoll_wait` returned. -/
def PoolFrom (returned : Returned) (s : ServerState n) : Prop :=
  ∀ fd conn, s.connections.lookup fd = some (some conn) →
    returned.connections.lookup fd = some (some conn)

/-- What is known of an operation that the listening thread has still to do: which
event it belongs to, and which connection was registered for that. -/
def About (returned : Returned) (s : ServerState n) : Op → Prop
  | .forLoop _ nfds => nfds ≤ s.batch.length
  | .accept | .construct _ | .addDecorators _ _ | .epollAdd _ _ =>
      ∀ event ∈ s.examined.getLast?, event.fd = s.serverfd
  | .lookup fd events =>
      PoolFrom returned s ∧ s.examined.getLast? = some ⟨fd, events⟩ ∧ ⟨fd, events⟩ ∈ s.batch
  | .find _ conn => Serves returned s conn
  | .addTask task => Serves returned s task.about
  | .shutdown conn =>
      ∃ registered : Handle, Serves returned s registered ∧
        conn.accept = registered.accept ∧ conn.level ≤ registered.level
  | .reapStart | .reapWait _ | .reapTime _ | .reapNext _ _ _ | .reapShutdown _ | .takeTask
  | .call _ _ | .running _ _ | .userCode => False
  | _ => True

/-- The array holds the batch and the pool nothing new; or the array was cleared; or
the listening thread clears it before it reads another event. -/
inductive ArrayState (returned : Returned) (c : ServerConfig n) : Prop where
  | unread (pool : PoolFrom returned c.shared) (batch : c.shared.batch <+: c.shared.events)
  | cleared (zero : ∀ event ∈ c.shared.events, event.fd = 0)
  | unlocking (rest : List Op)
      (program : c.prog .listen = .unlock .connections false :: .clearEvents :: rest)
  | clearing (rest : List Op) (program : c.prog .listen = .clearEvents :: rest)

/-- The invariant behind the dispatch of events. -/
structure Dispatches (returned : Returned) (c : ServerConfig n) : Prop where
  numbered : Numbered c
  last : ∀ pre op post, c.prog .listen = pre ++ op :: post → op.loops = true → post = []
  followed : ∀ pre fd conn post, c.prog .listen = pre ++ .addDecorators fd conn :: post →
    ∃ post', post = .unlock .connections false :: .clearEvents :: post'
  remembered : ∀ fd conn, returned.connections.lookup fd = some (some conn) →
    conn.accept < returned.accepted
  array : ArrayState returned c
  about : ∀ op ∈ c.prog .listen, About returned c.shared op

theorem Dispatches.init (serverfd : Nat) (ssl : Bool) (maxIdle : Int32) :
    Dispatches ⟨.empty, 0⟩ (init n serverfd ssl maxIdle) where
  numbered := Numbered.init serverfd ssl maxIdle
  last pre op post split _ := by
    cases pre with
    | nil => exact (List.cons.inj split).2.symm
    | cons first pre => simp [ServerConfig.init] at split
  followed pre fd conn post split := by
    cases pre with
    | nil => cases (List.cons.inj split).1
    | cons first pre => simp [ServerConfig.init] at split
  remembered fd conn entry := by cases entry
  array := .unread (fun fd conn entry => by cases entry) List.nil_prefix
  about op member := by
    rw [List.mem_singleton.mp member]
    trivial

variable {c c' : ServerConfig n} {t : Tid n} {e : Choice} {op : Op} {rest : List Op}
  {flow : Flow Op} {returned : Returned} {s s' : ServerState n}

/-! ### What is known of operations -/

theorem Serves.congr {conn : Handle} (same : SameEvents s s') (serves : Serves returned s conn) :
    Serves returned s' conn := by
  intro event last client
  rw [same.examined] at last
  rw [same.serverfd] at client
  rw [same.batch]
  exact serves event last client

/-- What is known of an operation stays so while no event is examined. -/
theorem About.congr (same : SameEvents s s')
    (pool : (∃ fd events, op = .lookup fd events) → PoolFrom returned s → PoolFrom returned s')
    (about : About returned s op) : About returned s' op := by
  cases op with
  | forLoop i nfds =>
      change nfds ≤ s'.batch.length
      rw [same.batch]
      exact about
  | accept | construct clientfd | addDecorators clientfd conn | epollAdd clientfd conn =>
      intro event last
      rw [same.examined] at last
      rw [same.serverfd]
      exact about event last
  | lookup fd events =>
      obtain ⟨old, last, member⟩ := about
      refine ⟨pool ⟨fd, events, rfl⟩ old, ?_, ?_⟩
      · rw [same.examined, last]
      · rwa [same.batch]
  | find fd conn => exact Serves.congr same about
  | addTask task => exact Serves.congr same about
  | shutdown conn =>
      obtain ⟨registered, serves, whole⟩ := about
      exact ⟨registered, serves.congr same, whole⟩
  | _ => exact about

/-- The connection that a lookup finds was there when `epoll_wait` returned. -/
theorem serves_of_lookup {fd : Nat} {events : UInt32} {conn : Handle}
    (remembered : ∀ fd conn, returned.connections.lookup fd = some (some conn) →
      conn.accept < returned.accepted)
    (about : About returned s (.lookup fd events))
    (entry : s.connections.lookup fd = some (some conn)) : Serves returned s conn := by
  intro event last _
  obtain ⟨pool, examined, member⟩ := about
  rw [examined, Option.mem_some_iff] at last
  subst last
  have there := pool fd conn entry
  exact ⟨member, there, remembered fd conn there⟩

/-- While the listening descriptor is handled, nothing is claimed. -/
theorem serves_of_listening {conn : Handle}
    (listening : ∀ event ∈ s.examined.getLast?, event.fd = s.serverfd) :
    Serves returned s conn :=
  fun event last client => absurd (listening event last) client

theorem about_lockAndAdd {callback : Callback} {conn : Handle}
    (serves : Serves returned s conn) : ∀ new ∈ lockAndAdd callback conn, About returned s new := by
  intro new member
  simp only [lockAndAdd, List.mem_cons, List.not_mem_nil, or_false] at member
  rcases member with rfl | rfl
  · trivial
  · exact serves

/-- What a turn of the loop leads to: the event is one of the batch, and the pool has
nothing new. -/
theorem about_of_examined {i nfds : Nat} (array : ArrayState returned c)
    (program : c.prog .listen = .forLoop i nfds :: rest)
    (about : About returned c.shared (.forLoop i nfds)) (inside : i < nfds)
    (positive : (c.shared.events.getD i .zero).fd > 0) :
    PoolFrom returned c.shared ∧ c.shared.events.getD i .zero ∈ c.shared.batch := by
  cases array with
  | unread pool batch =>
      have short : i < c.shared.batch.length := Nat.lt_of_lt_of_le inside about
      obtain ⟨others, whole⟩ := batch
      refine ⟨pool, ?_⟩
      rw [← whole, List.getD_append _ _ _ _ short, List.getD_eq_getElem _ _ short]
      exact List.getElem_mem short
  | cleared zero =>
      rw [List.getD_eq_getElem?_getD] at positive
      cases there : c.shared.events[i]? with
      | none =>
          rw [there] at positive
          exact absurd positive (Nat.lt_irrefl 0)
      | some event =>
          rw [there, Option.getD_some, zero event (List.mem_of_getElem? there)] at positive
          exact absurd positive (Nat.lt_irrefl 0)
  | unlocking rest' unlocks =>
      rw [program] at unlocks
      cases unlocks
  | clearing rest' clears =>
      rw [program] at clears
      cases clears

/-- What is pushed belongs to the same event. -/
theorem Dispatches.about_pushed (inv : Dispatches returned c)
    (taken : Taken c c' .listen e op rest flow) (other : op.waits = false) :
    ∀ new ∈ pushes flow, About returned c'.shared new := by
  obtain ⟨program, rule, _⟩ := taken
  have about := inv.about op (program ▸ List.mem_cons_self)
  have array := inv.array
  generalize c'.shared = s' at rule
  intro new member
  cases rule with
  | examineListening i nfds inside listening =>
      simp only [pushes, List.mem_cons, List.not_mem_nil, or_false] at member
      rcases member with rfl | rfl
      · intro event last
        rw [List.getLast?_concat, Option.mem_some_iff] at last
        rw [← last]
        exact listening
      · exact about
  | examineClient i nfds inside client positive =>
      obtain ⟨pool, real⟩ := about_of_examined array program about inside positive
      simp only [pushes, List.mem_cons, List.not_mem_nil, or_false] at member
      rcases member with rfl | rfl
      · exact ⟨pool, List.getLast?_concat, real⟩
      · exact about
  | examineZero i nfds inside client zero =>
      rw [List.mem_singleton.mp member]
      exact about
  | waited | waitRetried => cases other
  | accepted clientfd given fresh =>
      rw [List.mem_singleton.mp member]
      exact about
  | constructed | constructorThrew =>
      simp only [pushes, afterConstruct, List.mem_cons, List.not_mem_nil, or_false] at member
      rcases member with rfl | rfl | rfl | rfl | rfl
      · trivial
      · exact about
      · trivial
      · trivial
      · exact about
  | registered | indeterminateRegistered =>
      exact about_lockAndAdd (serves_of_listening about) new member
  | lookupHangup fd events conn entry selects =>
      have serves := serves_of_lookup inv.remembered about entry
      simp only [pushes, List.mem_cons, List.not_mem_nil, or_false] at member
      rcases member with rfl | rfl
      · exact serves
      · exact ⟨conn, serves, rfl, Nat.le_refl _⟩
  | lookupError fd events conn entry selects =>
      exact about_lockAndAdd (serves_of_lookup inv.remembered about entry) new member
  | lookupDataReady fd events conn entry selects =>
      simp only [pushes, List.mem_cons, List.not_mem_nil, or_false] at member
      rcases member with rfl | rfl
      · trivial
      · exact serves_of_lookup inv.remembered about entry
  | findMissing =>
      rw [List.mem_singleton.mp member]
      trivial
  | found fd conn value entry =>
      rcases List.mem_append.mp member with member | last
      · exact about_lockAndAdd about new member
      · rw [List.mem_singleton.mp last]
        trivial
  | shutdown conn =>
      obtain ⟨registered, serves, same, level⟩ := about
      rcases mem_shutdownOps member with rfl | rfl | member | rfl
      · trivial
      · trivial
      · rcases mem_shutdownBody member with rfl | rfl | rfl | ⟨lower, rfl, same', below⟩ | rfl
        · trivial
        · trivial
        · trivial
        · exact ⟨registered, serves, same'.trans same, Nat.le_of_lt (Nat.lt_of_lt_of_le below level)⟩
        · trivial
      · trivial
  | drain conn =>
      rcases mem_useOps_append member with rfl | rfl | rfl | rfl <;> trivial
  | deregister conn =>
      obtain ⟨fd, _, rfl | rfl | rfl | rfl⟩ := mem_dequeueOps member <;> trivial
  | keepListening =>
      rw [List.mem_singleton.mp member]
      trivial
  | loopOver =>
      simp only [pushes, List.mem_cons, List.not_mem_nil, or_false] at member
      rcases member with rfl | rfl <;> trivial
  | _ => first | exact about.elim | cases member

/-! ### One step -/

namespace Dispatches

theorem step_last (inv : Dispatches returned c) (taken : Taken c c' .listen e op rest flow)
    (pre : List Op) (op' : Op) (post : List Op) (split : c'.prog .listen = pre ++ op' :: post)
    (loops : op'.loops = true) : post = [] := by
  rw [taken.self] at split
  rcases continuation_split split (Op.survives_of_loops loops) with
    ⟨between, pushed, rfl⟩ | ⟨pre', rfl, rfl⟩
  · obtain ⟨loop, rfl⟩ := taken.rule.loops_last loops pushed
    exact inv.last [] op rest taken.program loop
  · exact inv.last (op :: pre') op' post taken.program loops

theorem step_followed (inv : Dispatches returned c) (taken : Taken c c' .listen e op rest flow)
    (pre : List Op) (fd : Nat) (conn : Pointer) (post : List Op)
    (split : c'.prog .listen = pre ++ .addDecorators fd conn :: post) :
    ∃ post', post = .unlock .connections false :: .clearEvents :: post' := by
  rw [taken.self] at split
  rcases continuation_split split rfl with ⟨between, pushed, rfl⟩ | ⟨pre', rfl, rfl⟩
  · obtain rfl := taken.rule.adds_followed pushed
    exact ⟨.epollAdd fd conn :: rest, rfl⟩
  · exact inv.followed (op :: pre') fd conn post taken.program

/-- Only `AddDecorators` makes the pool hold a connection that it did not hold when
`epoll_wait` returned. -/
theorem step_pool (taken : Taken c c' t e op rest flow) (other : op.adds = false)
    (pool : PoolFrom returned c.shared) : PoolFrom returned c'.shared :=
  fun fd conn entry => pool fd conn (taken.rule.entry_added other entry)

/-- After a new connection got into the pool, the array is cleared first. -/
theorem step_array (inv : Dispatches returned c) (taken : Taken c c' .listen e op rest flow)
    (other : op.waits = false) : ArrayState returned c' := by
  obtain ⟨batch, ⟨kept, events⟩ | ⟨rfl, events⟩⟩ := taken.rule.array_eq other
  · by_cases adds : op.adds = true
    · cases op with
      | addDecorators fd conn =>
          rcases taken.rule.adds_flow with rfl | same
          · obtain ⟨post, rfl⟩ := inv.followed [] fd conn rest taken.program
            exact .unlocking post taken.self
          · cases inv.array with
            | unread pool old =>
                exact .unread (fun fd conn entry => pool fd conn (same fd conn entry))
                  (by rwa [batch, events])
            | cleared zero => exact .cleared (events ▸ zero)
            | unlocking rest' program => cases taken.program.symm.trans program
            | clearing rest' program => cases taken.program.symm.trans program
      | _ => cases adds
    · cases inv.array with
      | unread pool old =>
          exact .unread (step_pool taken (Bool.eq_false_of_not_eq_true adds) pool)
            (by rwa [batch, events])
      | cleared zero => exact .cleared (events ▸ zero)
      | unlocking rest' program =>
          cases taken.program.symm.trans program
          have next := taken.self
          rw [taken.rule.unlock_flow] at next
          exact .clearing rest' next
      | clearing rest' program =>
          cases taken.program.symm.trans program
          exact absurd rfl kept
  · refine .cleared fun event member => ?_
    rw [events] at member
    obtain ⟨_, _, rfl⟩ := List.mem_map.mp member
    rfl

/-- The listening thread, but for `epoll_wait`. -/
theorem step_listen (inv : Dispatches returned c) (taken : Taken c c' .listen e op rest flow)
    (succeed : ConstructorsSucceed c .listen e) (other : op.waits = false) :
    Dispatches returned c' where
  numbered := inv.numbered.step taken succeed
  last := inv.step_last taken
  followed := inv.step_followed taken
  remembered := inv.remembered
  array := inv.step_array taken other
  about op' member := by
    rcases taken.mem member with ⟨_, pushed⟩ | ⟨_, old⟩ | ⟨impossible, _⟩
    · exact inv.about_pushed taken other op' pushed
    · -- The operation is not a loop, as something is left after it, and no lookup is.
      have body : op.loops = false := by
        by_contra loops
        rw [inv.last [] op rest taken.program (Bool.eq_true_of_not_eq_false loops)] at old
        cases old
      refine (inv.about op' (taken.program ▸ List.mem_cons_of_mem _ old)).congr
        (taken.rule.sameEvents body) ?_
      rintro ⟨fd, events, rfl⟩
      have ordered := inv.numbered.ordered .listen
      rw [taken.program] at ordered
      cases (List.pairwise_cons.mp ordered).1 _ old
    · exact absurd rfl impossible

/-- `epoll_wait` returns, and the pool is remembered. -/
theorem step_wait (inv : Dispatches returned c) (taken : Taken c c' .listen e .epollWait rest flow)
    (succeed : ConstructorsSucceed c .listen e) :
    Dispatches ⟨c.shared.connections, c.shared.nextAccept⟩ c' := by
  obtain ⟨connections, nextAccept, returns⟩ := taken.rule.epollWait_returns
  have pool : PoolFrom ⟨c.shared.connections, c.shared.nextAccept⟩ c'.shared := by
    intro fd conn entry
    rwa [connections] at entry
  obtain rfl : rest = [] := inv.last [] .epollWait rest taken.program rfl
  refine ⟨inv.numbered.step taken succeed, inv.step_last taken, inv.step_followed taken,
    fun fd conn entry => (inv.numbered.pool fd conn entry).1, ?_, ?_⟩
  · rcases returns with ⟨same, _⟩ | ⟨batch, _⟩
    · cases inv.array with
      | unread _ batch => exact .unread pool (by rwa [same])
      | cleared zero => exact .cleared (by rwa [same])
      | unlocking rest' program => cases taken.program.symm.trans program
      | clearing rest' program => cases taken.program.symm.trans program
    · exact .unread pool batch
  · intro op' member
    rcases taken.mem member with ⟨_, pushed⟩ | ⟨_, old⟩ | ⟨impossible, _⟩
    · rcases returns with ⟨_, loops⟩ | ⟨_, loop⟩
      · rw [loops op' pushed]
        trivial
      · rw [loop] at pushed
        rw [List.mem_singleton.mp pushed]
        exact Nat.le_refl _
    · cases old
    · exact absurd rfl impossible

/-- Another thread: it does nothing to the array, and makes no entry. -/
theorem step_other (inv : Dispatches returned c) (taken : Taken c c' t e op rest flow)
    (succeed : ConstructorsSucceed c t e) (other : t ≠ .listen) : Dispatches returned c' := by
  have aside : op.listens = false :=
    Bool.eq_false_of_not_eq_true fun listens => other (inv.numbered.listens t op taken.first listens)
  have body : op.loops = false :=
    Bool.eq_false_of_not_eq_true fun loops => by
      rw [Op.listens_of_loops loops] at aside
      cases aside
  have waits : op.waits = false := by cases op <;> first | rfl | cases aside
  have adds : op.adds = false := by cases op <;> first | rfl | cases aside
  have same : c'.prog .listen = c.prog .listen := taken.other (Ne.symm other)
  obtain ⟨batch, ⟨_, events⟩ | ⟨rfl, _⟩⟩ := taken.rule.array_eq waits
  · refine ⟨inv.numbered.step taken succeed, ?_, ?_, inv.remembered, ?_, fun op' member => ?_⟩
    · rw [same]
      exact inv.last
    · rw [same]
      exact inv.followed
    · cases inv.array with
      | unread pool old => exact .unread (step_pool taken adds pool) (by rwa [batch, events])
      | cleared zero => exact .cleared (events ▸ zero)
      | unlocking rest' program => exact .unlocking rest' (same.trans program)
      | clearing rest' program => exact .clearing rest' (same.trans program)
    · rw [same] at member
      exact (inv.about op' member).congr (taken.rule.sameEvents body) fun _ =>
        step_pool taken adds
  · cases aside

theorem step (inv : Dispatches returned c) (succeed : ConstructorsSucceed c t e)
    (stepped : (server n).step t e c = some c') : Dispatches (remember c t e returned) c' := by
  obtain ⟨op, rest, flow, program, rule, progs⟩ := rule_of_step stepped
  have taken : Taken c c' t e op rest flow := ⟨program, rule, progs⟩
  have kept : op.waits = false → remember c t e returned = returned := by
    intro other
    rw [remember, program]
    cases op <;> first | rfl | cases other
  by_cases listen : t = .listen
  · subst listen
    by_cases waits : op.waits = true
    · cases op with
      | epollWait =>
          rw [remember, program]
          exact inv.step_wait taken succeed
      | _ => cases waits
    · rw [kept (Bool.eq_false_of_not_eq_true waits)]
      exact inv.step_listen taken succeed (Bool.eq_false_of_not_eq_true waits)
  · rw [kept]
    · exact inv.step_other taken succeed listen
    · by_contra waits
      refine listen (inv.numbered.listens t op taken.first ?_)
      cases op <;> first | rfl | exact absurd rfl waits

theorem forRegistered (inv : Dispatches returned c) : ForRegistered returned c where
  queued task _ program := inv.about (.addTask task) (program ▸ List.mem_cons_self)
  shutdown conn _ program := inv.about (.shutdown conn) (program ▸ List.mem_cons_self)

end Dispatches

/-- In every run of a server whose constructors succeed, under any interleaving:
whatever callback is queued and whatever is shut down while an event of a client is
handled, is for the connection that was registered for its descriptor when
`epoll_wait` returned the event, and for none that was accepted after that. -/
theorem forRegistered_of_constructorsSucceed (serverfd : Nat) (ssl : Bool) (maxIdle : Int32)
    (schedule : Schedule n)
    (succeed : (server n).Along ConstructorsSucceed schedule (init n serverfd ssl maxIdle)) :
    (server n).AlwaysWith remember ForRegistered schedule ⟨.empty, 0⟩
      (init n serverfd ssl maxIdle) :=
  Interleaving.Machine.alwaysWith_of_invariant Dispatches
    (fun _ c t e _ inv succeed taken => inv.step (c := c) (t := t) (e := e) succeed taken)
    (fun _ _ inv => inv.forRegistered) (Dispatches.init serverfd ssl maxIdle) succeed

/-- A connection at descriptor 5 is shut down while the array holds an event of it
behind one of the listening descriptor, and `accept` gives 5 again. -/
def reuseRun : Schedule 2 :=
  acceptOne 3 5 ++ steps .first 3 ++
    choose .first { handler := .acts (.deferredShutdown ⟨0, 0⟩) } ++
    steps .first 3 ++ steps .listen 1 ++
    choose .listen { ready := some [⟨3, EPOLLIN⟩, ⟨5, EPOLLIN⟩] } ++ steps .first 10 ++
    steps .listen 1 ++ choose .listen { accepted := some 5 } ++ steps .listen 10

theorem forRegistered_of_reuse :
    (server 2).AlwaysWith remember ForRegistered reuseRun ⟨.empty, 0⟩ (init 2 3 false (-1)) ∧
      ∃ c, (server 2).run reuseRun (init 2 3 false (-1)) = some c ∧
        c.shared.batch = [⟨3, EPOLLIN⟩, ⟨5, EPOLLIN⟩] ∧ c.shared.Destroyed ⟨0, 0⟩ ∧
        c.shared.connections.lookup 5 = some (some ⟨1, 0⟩) := by
  refine ⟨?_, _, rfl, rfl, by decide, rfl⟩
  exact forRegistered_of_constructorsSucceed 3 false (-1) reuseRun (by decide)

end ServerConfig

end LibSiot
