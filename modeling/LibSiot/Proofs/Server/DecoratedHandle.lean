/-
Module: LibSiot.Proofs.Server.DecoratedHandle
Purpose: Which handle of a connection the callbacks get: the one that
  `AddDecorators` returned, in runs of the whole server in which it returns its
  argument.  The accept branch gives `ConnectionEstablished` what the
  constructor made.
Trusted boundary: none
Main exports: ServerConfig.ReturnsArgument, ServerConfig.HandleReturned,
  ServerConfig.handleReturned_of_returnsArgument
-/
import LibSiot.Proofs.Server.NewConnection

namespace LibSiot

open Interleaving (Flow)
open Interleaving.Machine (pushes AllOps Finishes continuation_split)

/-- The handle that a task delivers to a callback. -/
def Closure.delivers : Closure → Option Handle
  | .lockCallAndUnlock _ conn => some conn
  | .connectionTerminated conn => some conn
  | .shutdown _ => none

/-- The handle that an operation delivers to a callback, or that a thread keeps to do
so. -/
def Op.delivers : Op → Option Handle
  | .addTask task => task.delivers
  | .find _ conn => some conn
  | .reapShutdown conn => some conn
  | .call _ conn => some conn
  | _ => none

/-- The operation adds a new connection to the epoll set. -/
def Op.establishes : Op → Bool
  | .epollAdd _ _ => true
  | _ => false

namespace ServerState

variable {n : Nat} {t : Tid n} {e : Choice} {s s' : ServerState n} {op : Op}
  {flow : Flow Op} {conn : Handle}

/-- `AddDecorators` returned the handle, and it was stored. -/
def Accepted (conn : Handle) (s : ServerState n) : Prop :=
  ∃ fd, .accepted fd (some conn) ∈ s.trace

/-! ### One step -/

theorem Accepted.of_rule (rule : Rule t e s op flow s') (accepted : s.Accepted conn) :
    s'.Accepted conn := by
  obtain ⟨fd, recorded⟩ := accepted
  exact ⟨fd, rule.trace_mono recorded⟩

/-- A callback is called by its operation only. -/
theorem Rule.called (rule : Rule t e s op flow s') {callback : Callback}
    (called : .called callback conn ∈ s'.trace) :
    .called callback conn ∈ s.trace ∨ op = .call callback conn := by
  cases rule with
  | call other conn' =>
      rcases List.mem_cons.mp called with now | old
      · cases now
        exact Or.inr rfl
      · exact Or.inl old
  | constructorThrew | decoratedNull | decorated | indeterminateDecorated | lookupHangup
  | reapExpired | callbackDefers | shutdown | erase | delete | userDefers =>
      exact Or.inl ((List.mem_cons.mp called).resolve_left (by simp))
  | _ => exact Or.inl called

/-- A handle comes to be passed to a callback from the pool, from a task, or from the
constructor. -/
theorem Rule.delivers (rule : Rule t e s op flow s') {new : Op} (member : new ∈ pushes flow)
    (delivers : new.delivers = some conn) :
    op.delivers = some conn ∨ (∃ fd, s.connections.lookup fd = some (some conn)) ∨
      (∃ task ∈ s.executor, task.delivers = some conn) ∨
      ∃ fd pointer, op = .epollAdd fd pointer ∧
        (pointer = .constructed conn ∨ pointer = .indeterminate) := by
  cases rule with
  | registered clientfd raw succeeds =>
      simp only [pushes, lockAndAdd, List.mem_cons, List.not_mem_nil, or_false] at member
      rcases member with rfl | rfl <;> cases delivers
      exact Or.inr (Or.inr (Or.inr ⟨_, _, rfl, Or.inl rfl⟩))
  | indeterminateRegistered clientfd other succeeds =>
      exact Or.inr (Or.inr (Or.inr ⟨_, _, rfl, Or.inr rfl⟩))
  | lookupHangup fd events other entry selects =>
      simp only [pushes, List.mem_cons, List.not_mem_nil, or_false] at member
      rcases member with rfl | rfl <;> cases delivers
      exact Or.inr (Or.inl ⟨fd, entry⟩)
  | lookupError fd events other entry selects =>
      simp only [pushes, lockAndAdd, List.mem_cons, List.not_mem_nil, or_false] at member
      rcases member with rfl | rfl <;> cases delivers
      exact Or.inr (Or.inl ⟨fd, entry⟩)
  | lookupDataReady fd events other entry selects =>
      simp only [pushes, List.mem_cons, List.not_mem_nil, or_false] at member
      rcases member with rfl | rfl <;> cases delivers
      exact Or.inr (Or.inl ⟨fd, entry⟩)
  | found fd other value entry =>
      simp only [pushes, lockAndAdd, List.cons_append, List.nil_append, List.mem_cons,
        List.not_mem_nil, or_false] at member
      rcases member with rfl | rfl | rfl <;> cases delivers
      exact Or.inl rfl
  | reapDue maxIdle tm after fd other entry due =>
      simp only [pushes, List.mem_cons, List.not_mem_nil, or_false] at member
      rcases member with rfl | rfl | rfl | rfl <;> cases delivers
      exact Or.inr (Or.inl ⟨fd, (OrderedMap.lookup_of_next entry).1⟩)
  | reapExpired other up =>
      simp only [pushes, List.mem_cons, List.not_mem_nil, or_false] at member
      rcases member with rfl | rfl <;> cases delivers
      exact Or.inl rfl
  | takeTask task tasks queue =>
      refine Or.inr (Or.inr (Or.inl ⟨task, queue ▸ List.mem_cons_self, ?_⟩))
      cases task with
      | lockCallAndUnlock callback other =>
          simp only [pushes, taskOps, List.cons_append, List.nil_append, List.mem_cons,
            List.not_mem_nil, or_false] at member
          rcases member with rfl | rfl | rfl | rfl | rfl <;>
            first | exact delivers | cases delivers
      | connectionTerminated other =>
          simp only [pushes, taskOps, List.cons_append, List.nil_append, List.mem_cons,
            List.not_mem_nil, or_false] at member
          rcases member with rfl | rfl <;> first | exact delivers | cases delivers
      | shutdown other => exact absurd delivers (ne_some_of_all rfl member)
  | shutdown outer =>
      rcases mem_shutdownOps member with rfl | rfl | member | rfl
      · cases delivers
      · cases delivers
      · rcases mem_shutdownBody member with rfl | rfl | rfl | ⟨_, rfl, _⟩ | rfl <;> cases delivers
      · cases delivers
  | callbackUses | drain | userUses =>
      rcases mem_useOps_append member with rfl | rfl | rfl | rfl <;> cases delivers
  | deregister outer =>
      obtain ⟨fd, _, rfl | rfl | rfl | rfl⟩ := mem_dequeueOps member <;> cases delivers
  | _ => exact absurd delivers (ne_some_of_all rfl member)

/-- Tasks that pass a handle to a callback get into the queue by `addTask`. -/
theorem Rule.queued_delivers (rule : Rule t e s op flow s') {task : Closure}
    (queued : task ∈ s'.executor) (delivers : task.delivers = some conn) :
    task ∈ s.executor ∨ op.delivers = some conn := by
  cases rule with
  | addTask added =>
      rcases List.mem_append.mp queued with old | new
      · exact Or.inl old
      · rw [List.mem_singleton.mp new] at delivers
        exact Or.inr delivers
  | takeTask first tasks queue => exact Or.inl (queue ▸ List.mem_cons_of_mem _ queued)
  | callbackDefers | userDefers =>
      rcases List.mem_append.mp queued with old | new
      · exact Or.inl old
      · rw [List.mem_singleton.mp new] at delivers
        cases delivers
  | _ => exact Or.inl queued

/-- The step's constructor succeeds, and its `AddDecorators` returns its argument if it
returns at all. -/
def Returns (op : Op) (e : Choice) (s : ServerState n) : Prop :=
  (op.constructs = true → s.ssl = true → OpenSSLConnection.construct e.ssl = .ok ()) ∧
    (op.decorates = true → e.decorated = .stack [] ∨ e.decorated = .threw)

instance (op : Op) (e : Choice) (s : ServerState n) : Decidable (Returns op e s) :=
  inferInstanceAs (Decidable (_ ∧ _))

/-- `AddDecorators` stores the object that was made. -/
theorem Rule.stored {fd : Nat} {raw : Handle}
    (rule : Rule t e s (.addDecorators fd (.constructed raw)) flow s')
    (returns : Returns (.addDecorators fd (.constructed raw)) e s) :
    (flow = .unwind ∧ s' = s.subscript fd) ∨
      (s'.connections = s.connections.insert fd (some { raw with level := 0 }) ∧
        s'.trace = .accepted fd (some { raw with level := 0 }) :: s.trace) := by
  have argument := returns.2 rfl
  cases rule with
  | decoratorsThrew => exact Or.inl ⟨rfl, rfl⟩
  | decoratedNull _ _ null =>
      rw [null] at argument
      rcases argument with impossible | impossible <;> cases impossible
  | decorated _ _ decorators returned =>
      rw [returned] at argument
      rcases argument with none | impossible
      · cases none
        exact Or.inr ⟨rfl, rfl⟩
      · cases impossible

/-- `epoll_ctl` comes for an object that `AddDecorators` gets before. -/
theorem Rule.establishes (rule : Rule t e s op flow s')
    (succeeds : op.constructs = true → s.ssl = true → OpenSSLConnection.construct e.ssl = .ok ())
    {pre between : List Op} {fd : Nat} {pointer : Pointer}
    (pushed : pushes flow = pre ++ .epollAdd fd pointer :: between) :
    ∃ raw, pointer = .constructed raw ∧ .addDecorators fd (.constructed raw) ∈ pre := by
  have establishes : Op.establishes (.epollAdd fd pointer) = true := rfl
  have member : .epollAdd fd pointer ∈ pushes flow :=
    pushed ▸ List.mem_append_right _ List.mem_cons_self
  have common := fun spreads => rule.common_of_pushed spreads _ member
  have ordered := rule.ordered
  rw [pushed] at ordered
  obtain ⟨follows, _⟩ := List.pairwise_cons.mp (List.pairwise_append.mp ordered).2.1
  cases rule with
  | constructed clientfd =>
      simp only [pushes, afterConstruct, List.mem_cons, List.not_mem_nil, or_false, reduceCtorEq,
        false_or] at member
      cases member
      refine ⟨_, rfl, ?_⟩
      have before : .addDecorators fd (.constructed { accept := s.nextAccept, level := 0 }) ∈
          pre ++ .epollAdd fd (.constructed { accept := s.nextAccept, level := 0 }) ::
            between := by
        rw [← pushed]
        exact List.mem_cons_of_mem _ List.mem_cons_self
      rcases List.mem_append.mp before with first | later
      · exact first
      · -- `AddDecorators` never comes after `epoll_ctl`.
        rcases List.mem_cons.mp later with impossible | later
        · cases impossible
        · cases follows _ later
  | constructorThrew clientfd error encrypted threw =>
      rw [succeeds rfl encrypted] at threw
      cases threw
  | takeTask | callbackUses | shutdown | deregister | drain | userUses => cases common rfl
  | _ => exact absurd establishes (List.any_eq_false.mp rfl _ member)

/-- Without `AddDecorators` nothing is stored. -/
theorem Rule.accepted_old (rule : Rule t e s op flow s') (other : op.adds = false) {fd : Nat}
    {stored : Option Handle} (recorded : .accepted fd stored ∈ s'.trace) :
    .accepted fd stored ∈ s.trace := by
  cases rule with
  | decoratedNull | decorated | indeterminateDecorated => cases other
  | constructorThrew | lookupHangup | reapExpired | call | callbackDefers | shutdown | erase
  | delete | userDefers => exact (List.mem_cons.mp recorded).resolve_left (by simp)
  | _ => exact recorded

end ServerState

namespace ServerConfig

open ServerState

variable {n : Nat}

/-- In the step no constructor fails, and `AddDecorators` returns its argument. -/
def ReturnsArgument (c : ServerConfig n) (t : Tid n) (e : Choice) : Prop := Next Returns c t e

instance (c : ServerConfig n) (t : Tid n) (e : Choice) : Decidable (ReturnsArgument c t e) :=
  inferInstanceAs (Decidable (Next Returns c t e))

/-- Every callback was passed the handle that `AddDecorators` returned for its
connection, and `Deregister()` on it, with which `Shutdown()` begins, takes the
connection from the pool. -/
structure HandleReturned (c : ServerConfig n) : Prop where
  returned : ∀ callback conn, .called callback conn ∈ c.shared.trace →
    c.shared.Accepted conn ∧ ∀ other, c.shared.Accepted other → other.accept = conn.accept →
      other = conn
  removes : ∀ callback conn, .called callback conn ∈ c.shared.trace →
    c.shared.locks .connections = .free → ∀ t e, ∃ s',
      Finishes (server n) t e [.deregister conn] c.shared s' ∧
        ∀ fd other, s'.connections.lookup fd = some (some other) → other.accept ≠ conn.accept

/-! ### The invariant -/

/-- The new connection is stored before `ConnectionEstablished` is queued. -/
def Established (s : ServerState n) (ops : List Op) : Prop :=
  ∀ pre fd pointer post, ops = pre ++ .epollAdd fd pointer :: post →
    ∃ raw, pointer = .constructed raw ∧
      (.addDecorators fd (.constructed raw) ∈ pre ∨ s.Accepted raw)

/-- Handles are those of socket objects, and whatever is passed to a callback was
stored. -/
structure Undecorated (c : ServerConfig n) : Prop where
  numbered : Numbered c
  established : ∀ t, Established c.shared (c.prog t)
  pool : ∀ fd conn, c.shared.connections.lookup fd = some (some conn) →
    c.shared.Accepted conn
  bare : ∀ conn, c.shared.Accepted conn → conn.level = 0
  delivers : AllOps (fun s _ op => ∀ conn, op.delivers = some conn → s.Accepted conn) c
  queued : ∀ task ∈ c.shared.executor, ∀ conn, task.delivers = some conn → c.shared.Accepted conn
  called : ∀ callback conn, .called callback conn ∈ c.shared.trace → c.shared.Accepted conn

theorem Undecorated.init (serverfd : Nat) (ssl : Bool) (maxIdle : Int32) :
    Undecorated (init n serverfd ssl maxIdle) where
  numbered := Numbered.init serverfd ssl maxIdle
  established t pre fd pointer post split := absurd split (init_prog_ne rfl)
  pool fd conn entry := by cases entry
  bare conn accepted := by
    obtain ⟨fd, recorded⟩ := accepted
    cases recorded
  delivers := forall_init nofun nofun (fun _ => nofun) nofun
  queued task member := by cases member
  called callback conn recorded := by cases recorded

variable {c c' : ServerConfig n} {t : Tid n} {e : Choice} {op : Op} {rest : List Op}
  {flow : Flow Op}

namespace Undecorated

theorem succeeds (returns : ReturnsArgument c t e) : ConstructorsSucceed c t e := by
  rw [ConstructorsSucceed, Next]
  split
  · trivial
  · rename_i op rest program
    exact (returns.of_prog program).1

/-- A handle that is stored was so before, or is what `AddDecorators` got. -/
theorem accepted_old (inv : Undecorated c) (taken : Taken c c' t e op rest flow)
    (returns : Returns op e c.shared) {conn : Handle} (accepted : c'.shared.Accepted conn) :
    c.shared.Accepted conn ∨
      ∃ fd, op = .addDecorators fd (.constructed conn) ∧ c.shared.Fresh fd conn := by
  obtain ⟨fd, recorded⟩ := accepted
  by_cases adds : op.adds = true
  · cases op with
    | addDecorators fd' pointer =>
        obtain ⟨⟨accept, level⟩, rfl, fresh⟩ :=
          inv.numbered.adding t _ taken.first fd' pointer rfl
        obtain rfl : level = 0 := fresh.level
        rcases taken.rule.stored returns with ⟨_, same⟩ | ⟨_, trace⟩
        · rw [same] at recorded
          exact Or.inl ⟨fd, recorded⟩
        · rw [trace] at recorded
          rcases List.mem_cons.mp recorded with now | old
          · cases now
            exact Or.inr ⟨fd, rfl, fresh⟩
          · exact Or.inl ⟨fd, old⟩
    | _ => cases adds
  · exact Or.inl ⟨fd, taken.rule.accepted_old (Bool.eq_false_of_not_eq_true adds) recorded⟩

theorem step_established (inv : Undecorated c) (taken : Taken c c' t e op rest flow)
    (returns : Returns op e c.shared) (t' : Tid n) : Established c'.shared (c'.prog t') := by
  intro pre fd pointer post split
  by_cases same : t' = t
  · subst same
    have member : .epollAdd fd pointer ∈ (server n).continuation flow rest := by
      rw [← taken.self, split]
      exact List.mem_append_right _ List.mem_cons_self
    rw [taken.self] at split
    rcases continuation_split split rfl with ⟨between, pushed, rfl⟩ | ⟨pre', rfl, rfl⟩
    · obtain ⟨raw, rfl, before⟩ := taken.rule.establishes returns.1 pushed
      exact ⟨raw, rfl, Or.inl before⟩
    · obtain ⟨raw, rfl, before | accepted⟩ :=
        inv.established t' (op :: pre') fd pointer post taken.program
      · refine ⟨raw, rfl, ?_⟩
        rcases List.mem_cons.mp before with now | later
        · right
          subst now
          rcases taken.rule.stored returns with ⟨rfl, _⟩ | ⟨_, trace⟩
          · -- An exception would have skipped the rest.
            cases (List.mem_filter.mp member).2
          · obtain ⟨_, pointer, fresh⟩ := inv.numbered.adding t' _ taken.first fd _ rfl
            cases pointer
            exact ⟨fd, by rw [trace, ← fresh.level]; exact List.mem_cons_self⟩
        · exact Or.inl (List.mem_append_right _ later)
      · exact ⟨raw, rfl, Or.inr (accepted.of_rule taken.rule)⟩
  · rw [taken.other same] at split
    obtain ⟨raw, rfl, before | accepted⟩ := inv.established t' pre fd pointer post split
    · exact ⟨raw, rfl, Or.inl before⟩
    · exact ⟨raw, rfl, Or.inr (accepted.of_rule taken.rule)⟩

theorem step_pool (inv : Undecorated c) (taken : Taken c c' t e op rest flow)
    (returns : Returns op e c.shared) (fd : Nat) (conn : Handle)
    (entry : c'.shared.connections.lookup fd = some (some conn)) : c'.shared.Accepted conn := by
  rcases inv.numbered.entry_old taken entry with ⟨old, _⟩ | ⟨raw, rfl, _, fresh⟩
  · exact (inv.pool fd conn old).of_rule taken.rule
  · rcases taken.rule.stored returns with ⟨_, same⟩ | ⟨connections, trace⟩
    · rw [same] at entry
      exact (inv.pool fd conn (stored_of_subscript entry)).of_rule taken.rule
    · rw [connections, OrderedMap.lookup_insert, if_pos rfl] at entry
      cases entry
      exact ⟨fd, trace ▸ List.mem_cons_self⟩

theorem step_delivers (inv : Undecorated c) (taken : Taken c c' t e op rest flow) :
    AllOps (fun s _ op => ∀ conn, op.delivers = some conn → s.Accepted conn) c' := by
  intro t' op' member conn delivers
  apply Accepted.of_rule taken.rule
  rcases taken.mem member with ⟨rfl, pushed⟩ | ⟨rfl, old⟩ | ⟨_, old⟩
  · rcases taken.rule.delivers pushed delivers with kept | ⟨fd, entry⟩ | ⟨task, queued, delivers⟩ |
      ⟨fd, pointer, rfl, same⟩
    · exact inv.delivers t' op taken.first conn kept
    · exact inv.pool fd conn entry
    · exact inv.queued task queued conn delivers
    · obtain ⟨raw, rfl, none | accepted⟩ := inv.established t' [] fd pointer rest taken.program
      · cases none
      · rcases same with same | same <;> cases same
        exact accepted
  · exact inv.delivers t' op' (taken.program ▸ List.mem_cons_of_mem _ old) conn delivers
  · exact inv.delivers t' op' old conn delivers

theorem step (inv : Undecorated c) (returns : ReturnsArgument c t e)
    (stepped : (server n).step t e c = some c') : Undecorated c' := by
  obtain ⟨op, rest, flow, program, rule, progs⟩ := rule_of_step stepped
  have taken : Taken c c' t e op rest flow := ⟨program, rule, progs⟩
  have returned : Returns op e c.shared := returns.of_prog program
  exact {
    numbered := inv.numbered.step taken (succeeds returns)
    established := inv.step_established taken returned
    pool := inv.step_pool taken returned
    bare := fun conn accepted => by
      rcases inv.accepted_old taken returned accepted with old | ⟨_, _, fresh⟩
      · exact inv.bare conn old
      · exact fresh.level
    delivers := inv.step_delivers taken
    queued := fun task queued conn delivers => by
      apply Accepted.of_rule rule
      rcases rule.queued_delivers queued delivers with old | passed
      · exact inv.queued task old conn delivers
      · exact inv.delivers t op taken.first conn passed
    called := fun callback conn called => by
      apply Accepted.of_rule rule
      rcases rule.called called with old | rfl
      · exact inv.called callback conn old
      · exact inv.delivers t _ taken.first conn rfl }

end Undecorated

/-! ### `Deregister()` -/

/-- However `epoll_ctl` ends, the lock is given back, and the pool is left as it is. -/
theorem finishes_epollDel (t : Tid n) (e : Choice) (fd : Nat) (s : ServerState n) :
    ∃ s', Finishes (server n) t e [.epollDel fd, .unlock .connections true] s s' ∧
      s'.connections = s.connections := by
  by_cases watched : fd ∈ s.epollSet
  · have removed : (server n).exec t (.epollDel fd) e s =
        some (.next [], { s with epollSet := s.epollSet.filter (· ≠ fd) }) := by
      simp only [server, exec, epollDel, if_pos watched, goOn]
    exact ⟨_, .step removed (.step rfl (.done _)), rfl⟩
  · cases throws : e.throws with
    | false =>
        have failed : (server n).exec t (.epollDel fd) e s = some (.next [], s) := by
          simp [server, exec, epollDel, watched, connectionFailed, throws, goOn]
        exact ⟨_, .step failed (.step rfl (.done _)), rfl⟩
    | true =>
        have left : (server n).exec t (.epollDel fd) e s = some (.unwind, s) := by
          simp [server, exec, epollDel, watched, connectionFailed, throws]
        exact ⟨_, .step left (.step rfl (.done _)), rfl⟩

/-- A thread alone takes the only entry of a connection from the pool. -/
theorem finishes_deregister {s : ServerState n} {conn : Handle} (t : Tid n) (e : Choice)
    (free : s.locks .connections = .free)
    (single : ∀ fd, s.connections.lookup fd = some (some conn) →
      s.connections.keysWhere (· = some conn) = [fd]) :
    ∃ s', Finishes (server n) t e [.deregister conn] s s' ∧
      (∀ fd, s'.connections.lookup fd ≠ some (some conn)) ∧
      ∀ fd value, s'.connections.lookup fd = some value → s.connections.lookup fd = some value := by
  let marked : ServerState n :=
    { s with isShutdown := Function.update s.isShutdown conn true }
  have deregistered : (server n).exec t (.deregister conn) e s =
      some (.next ((s.connections.keysWhere (· = some conn)).flatMap dequeueOps), marked) := rfl
  by_cases present : ∃ fd, s.connections.lookup fd = some (some conn)
  · obtain ⟨fd, entry⟩ := present
    rw [single fd entry] at deregistered
    have locked : (server n).exec t (.lock .connections) e marked = some (.next [],
        marked.setLock .connections { writer := some t, readers := [] }) := by
      simp only [server, exec, lock, marked, free]
      rfl
    have erased : ∀ fd', (s.connections.erase fd).lookup fd' ≠ some (some conn) := by
      intro fd' other
      rw [OrderedMap.lookup_erase] at other
      split at other
      · cases other
      · have there := single fd' other
        rw [single fd entry] at there
        cases there
        contradiction
    have older : ∀ fd' value, (s.connections.erase fd).lookup fd' = some value →
        s.connections.lookup fd' = some value := by
      intro fd' value other
      rw [OrderedMap.lookup_erase] at other
      split at other
      · cases other
      · exact other
    obtain ⟨s', finished, same⟩ := finishes_epollDel t e fd
      (record (.dequeued fd) { marked.setLock .connections { writer := some t, readers := [] } with
        connections := s.connections.erase fd })
    refine ⟨s', .step deregistered (.step locked (.step rfl finished)), fun fd' => ?_,
      fun fd' value => ?_⟩
    · rw [same]
      exact erased fd'
    · rw [same]
      exact older fd' value
  · have none : s.connections.keysWhere (· = some conn) = [] := by
      apply OrderedMap.keysWhere_eq_nil
      intro fd value entry
      apply decide_eq_false
      rintro rfl
      exact present ⟨fd, entry⟩
    rw [none] at deregistered
    exact ⟨marked, .step deregistered (.done _), fun fd entry => present ⟨fd, entry⟩,
      fun _ _ entry => entry⟩

theorem Undecorated.handleReturned {c : ServerConfig n} (inv : Undecorated c) :
    HandleReturned c := by
  have same : ∀ conn other, c.shared.Accepted conn → c.shared.Accepted other →
      other.accept = conn.accept → other = conn := by
    rintro ⟨accept, level⟩ ⟨accept', level'⟩ accepted accepted' same
    have first : level = 0 := inv.bare _ accepted
    have second : level' = 0 := inv.bare _ accepted'
    rw [first, second, show accept' = accept from same]
  constructor
  · intro callback conn called
    exact ⟨inv.called callback conn called, fun other => same conn other
      (inv.called callback conn called)⟩
  · intro callback conn called free t e
    have single : ∀ fd, c.shared.connections.lookup fd = some (some conn) →
        c.shared.connections.keysWhere (· = some conn) = [fd] := by
      intro fd entry
      apply OrderedMap.keysWhere_eq_singleton entry (decide_eq_true rfl)
      intro fd' value entry' stored
      rw [of_decide_eq_true stored] at entry'
      exact inv.numbered.fd_eq entry entry' rfl
    obtain ⟨s', finished, gone, older⟩ := finishes_deregister t e free single
    refine ⟨s', finished, fun fd other entry accept => ?_⟩
    have stored := inv.pool fd other (older fd _ entry)
    rw [same conn other (inv.called callback conn called) stored accept] at entry
    exact gone fd entry

/-- In every run, under any interleaving, in which no constructor fails and
`AddDecorators` returns its argument: every callback is passed the handle that
`AddDecorators` returned for the connection, and whenever the pool is not locked,
`Deregister()` on that handle runs to its end and leaves no entry of the connection. -/
theorem handleReturned_of_returnsArgument (serverfd : Nat) (ssl : Bool) (maxIdle : Int32)
    (schedule : Schedule n)
    (returns : (server n).Along ReturnsArgument schedule (init n serverfd ssl maxIdle)) :
    (server n).Always HandleReturned schedule (init n serverfd ssl maxIdle) :=
  Interleaving.Machine.always_of_invariant Undecorated
    (fun _ _ _ _ inv returns taken => inv.step returns taken) (fun _ inv => inv.handleReturned)
    (Undecorated.init serverfd ssl maxIdle) returns

/-- A connection is accepted, `AddDecorators` returns what `decorated` says, and the
handler of `ConnectionEstablished` calls `DeferredShutdown()` on its argument, which
the executor then runs. -/
def establishedRun (decorated : Decorated) (later : Nat) : Schedule 1 :=
  steps .listen 1 ++ choose .listen { ready := some [⟨3, EPOLLIN⟩] } ++ steps .listen 1 ++
    choose .listen { accepted := some 5 } ++ steps .listen 2 ++
    choose .listen { decorated := decorated } ++ steps .listen 7 ++ steps .only 3 ++
    choose .only { handler := .acts (.deferredShutdown ⟨0, 0⟩) } ++ steps .only later

theorem handleReturned_of_bare :
    (server 1).Always HandleReturned (establishedRun (.stack []) 13) (init 1 3 false (-1)) :=
  handleReturned_of_returnsArgument 3 false (-1) (establishedRun (.stack []) 13) (by decide)

/-- With a line buffer around the socket, the callback gets the socket object.  After
its shutdown the connection is still in the pool, with the line buffer around a
destroyed object. -/
theorem handleReturned_fails :
    ∃ c, (server 1).run (establishedRun (.stack [⟨.lineBuffer, true⟩]) 9) (init 1 3 false (-1)) =
        some c ∧
      .called .connectionEstablished ⟨0, 0⟩ ∈ c.shared.trace ∧
      c.shared.connections.lookup 5 = some (some ⟨0, 1⟩) ∧ c.shared.Destroyed ⟨0, 0⟩ ∧
      ¬ HandleReturned c := by
  refine ⟨_, rfl, by decide, rfl, by decide, fun holds => ?_⟩
  have same := (holds.returned .connectionEstablished ⟨0, 0⟩ (by decide)).2 ⟨0, 1⟩
    ⟨5, by decide⟩ rfl
  exact absurd same (by decide)

end ServerConfig

end LibSiot
