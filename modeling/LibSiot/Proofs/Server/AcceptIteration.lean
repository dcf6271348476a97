/-
Module: LibSiot.Proofs.Server.AcceptIteration
Purpose: The accept branch of the loop, run alone: when it registers all of the
  new connection or none of it, for every state of the server and every outcome
  of the calls it makes.
Trusted boundary: none
Main exports: ServerState.Registered, ServerState.RolledBack,
  ServerState.AllOrNothing, ServerState.acceptIteration_allOrNothing_iff
-/
import LibSiot.Server.Rules

namespace LibSiot

open Interleaving (Flow)
open Interleaving.Machine (Finishes finishes_nil)

namespace ServerState

variable {n : Nat} {s s' : ServerState n} {e : Choice}

/-! ### All of the connection or nothing -/

/-- The handle that `AddDecorators` returns for the socket object `raw`. -/
def decoratedHandle (decorated : Decorated) (raw : Handle) : Option Handle :=
  match decorated with
  | .stack decorators => some { raw with level := decorators.length }
  | _ => none

/-- The socket object that the next constructor call makes. -/
def nextSocket (s : ServerState n) : Handle := { accept := s.nextAccept, level := 0 }

/-- All of the new connection is registered: the entry in the pool, the epoll
set, and one `ConnectionEstablished` task. -/
structure Registered (e : Choice) (s s' : ServerState n) (clientfd : Nat) : Prop where
  accepted : e.accepted = some clientfd
  connections : s'.connections =
    s.connections.insert clientfd (decoratedHandle e.decorated s.nextSocket)
  epollSet : s'.epollSet = clientfd :: s.epollSet
  executor : s'.executor =
    s.executor ++ [.lockCallAndUnlock .connectionEstablished s.nextSocket]

/-- Nothing of the new connection is left, its descriptor closed. -/
structure RolledBack (e : Choice) (s s' : ServerState n) : Prop where
  connections : s'.connections = s.connections
  epollSet : s'.epollSet = s.epollSet
  executor : s'.executor = s.executor
  locks : s'.locks = s.locks
  closed : ∀ clientfd, e.accepted = some clientfd → clientfd ∉ s'.openFds

/-- The iteration registered everything or nothing, and read the variable `conn`
only if a constructor call had assigned it. -/
def AllOrNothing (e : Choice) (s s' : ServerState n) : Prop :=
  ((∃ clientfd, Registered e s s' clientfd) ∨ RolledBack e s s') ∧
    s'.indeterminateRead = false

/-- The constructor call of the iteration succeeds. -/
def Constructs (e : Choice) (s : ServerState n) : Prop :=
  s.ssl = true → OpenSSLConnection.construct e.ssl = .ok ()

/-- Nothing fails after a successful `accept`. -/
def Completes (e : Choice) (s : ServerState n) : Prop :=
  e.accepted = none ∨
    (Constructs e s ∧ e.decorated ≠ .threw ∧ e.registered = true)

/-! ### The operations of the branch -/

/-- `accept` failing, or giving a descriptor that is then open. -/
theorem accept_finishes (finished : Finishes (server n) .listen e [.accept] s s') :
    (e.accepted = none ∧ s' = { s with handled := s.handled ++ [.accepted] }) ∨
      ∃ clientfd, e.accepted = some clientfd ∧
        Finishes (server n) .listen e [.construct clientfd]
          { s with
            handled := s.handled ++ [.accepted]
            openFds := clientfd :: s.openFds } s' := by
  obtain ⟨flow, next, rule, remaining⟩ := rule_of_finishes finished
  cases rule with
  | acceptThrew failed _ => exact Or.inl ⟨failed, finishes_nil.mp remaining⟩
  | acceptFailed failed _ => exact Or.inl ⟨failed, finishes_nil.mp remaining⟩
  | accepted clientfd given _ => exact Or.inr ⟨clientfd, given, remaining⟩

/-- Both ways out of the `try` lead to the same operations. -/
theorem construct_finishes {clientfd : Nat}
    (finished : Finishes (server n) .listen e [.construct clientfd] s s') :
    (Constructs e s ∧ Finishes (server n) .listen e
        (afterConstruct clientfd (.constructed s.nextSocket))
        { s with
          nextAccept := s.nextAccept + 1
          socket := Function.update s.socket s.nextAccept clientfd
          decorators := Function.update s.decorators s.nextAccept []
          lastUse := Function.update s.lastUse s.nextAccept e.now } s') ∨
      (¬ Constructs e s ∧ ∃ error, Finishes (server n) .listen e
        (afterConstruct clientfd .indeterminate)
        (s.record (.constructorThrew error)) s') := by
  obtain ⟨flow, next, rule, remaining⟩ := rule_of_finishes finished
  cases rule with
  | constructed _ succeeds => exact Or.inl ⟨succeeds, remaining⟩
  | constructorThrew _ error encrypted threw =>
      refine Or.inr ⟨fun constructs => ?_, error.identifier, remaining⟩
      rw [constructs encrypted] at threw
      cases threw

/-- The read lock is taken and the task queued. -/
theorem lockAndAdd_finishes {callback : Callback} {conn : Handle}
    (finished : Finishes (server n) .listen e (lockAndAdd callback conn) s s') :
    ∃ l, s' = { s.setLock (.connection conn) l with
      executor := s.executor ++ [.lockCallAndUnlock callback conn] } := by
  obtain ⟨_, _, rule, remaining⟩ := rule_of_finishes finished
  cases rule with
  | readLock _ l taken =>
      obtain ⟨_, _, rule, remaining⟩ := rule_of_finishes remaining
      cases rule
      exact ⟨l, finishes_nil.mp remaining⟩

/-- `AddDecorators` under the pool lock: it throws, or makes the entry. -/
theorem addDecorators_finishes {clientfd : Nat} {raw : Handle} {rest : List Op}
    (skipped : rest.filter (server n).survives = [])
    (finished : Finishes (server n) .listen e
      (.lock .connections :: .addDecorators clientfd (.constructed raw) ::
        .unlock .connections false :: rest) s s') :
    (e.decorated = .threw ∧ s'.executor = s.executor ∧ s'.openFds = s.openFds ∧
        s'.indeterminateRead = s.indeterminateRead) ∨
      (e.decorated ≠ .threw ∧ ∃ next, Finishes (server n) .listen e rest next s' ∧
        next.connections =
          s.connections.insert clientfd (decoratedHandle e.decorated raw) ∧
        next.epollSet = s.epollSet ∧ next.executor = s.executor ∧
        next.openFds = s.openFds ∧ next.indeterminateRead = s.indeterminateRead) := by
  obtain ⟨_, _, rule, remaining⟩ := rule_of_finishes finished
  cases rule
  obtain ⟨_, _, rule, remaining⟩ := rule_of_finishes remaining
  cases rule with
  | decoratorsThrew _ _ threw =>
      have ended : (server n).continuation .unwind (.unlock .connections false :: rest) = [] := by
        rw [Interleaving.Machine.continuation_unwind,
          List.filter_cons_of_neg Bool.false_ne_true, skipped]
      rw [ended] at remaining
      rw [finishes_nil.mp remaining]
      exact Or.inl ⟨threw, rfl, rfl, rfl⟩
  | decoratedNull _ _ null =>
      obtain ⟨_, _, rule, remaining⟩ := rule_of_finishes remaining
      cases rule
      exact Or.inr ⟨by simp [null], _, remaining, by rw [null]; rfl, rfl, rfl, rfl, rfl⟩
  | decorated _ _ decorators returned =>
      obtain ⟨_, _, rule, remaining⟩ := rule_of_finishes remaining
      cases rule
      exact Or.inr ⟨by simp [returned], _, remaining, by rw [returned]; rfl, rfl, rfl, rfl, rfl⟩

/-- `epoll_ctl`: with it the task, or neither. -/
theorem epollAdd_finishes {clientfd : Nat} {raw : Handle}
    (finished : Finishes (server n) .listen e
      [.clearEvents, .epollAdd clientfd (.constructed raw)] s s') :
    s'.indeterminateRead = s.indeterminateRead ∧ s'.openFds = s.openFds ∧
      s'.connections = s.connections ∧
      (if e.registered = true then
        s'.epollSet = clientfd :: s.epollSet ∧
          s'.executor = s.executor ++ [.lockCallAndUnlock .connectionEstablished raw]
      else s'.executor = s.executor) := by
  obtain ⟨_, _, rule, remaining⟩ := rule_of_finishes finished
  cases rule
  obtain ⟨_, _, rule, remaining⟩ := rule_of_finishes remaining
  cases rule with
  | registered _ _ succeeds =>
      obtain ⟨l, rfl⟩ := lockAndAdd_finishes remaining
      rw [if_pos succeeds]
      exact ⟨rfl, rfl, rfl, rfl, rfl⟩
  | notRegistered _ _ fails _ =>
      rw [finishes_nil.mp remaining]
      exact ⟨rfl, rfl, rfl, by simp [fails]⟩
  | notRegisteredThrew _ _ fails _ =>
      rw [finishes_nil.mp remaining]
      exact ⟨rfl, rfl, rfl, by simp [fails]⟩

/-- The branch after the constructor gave an object: it registers everything, or
leaves the descriptor open without a task. -/
theorem afterConstruct_finishes {clientfd : Nat} {raw : Handle}
    (finished : Finishes (server n) .listen e
      (afterConstruct clientfd (.constructed raw)) s s') :
    s'.indeterminateRead = s.indeterminateRead ∧ s'.openFds = s.openFds ∧
      (if e.decorated ≠ .threw ∧ e.registered = true then
        s'.connections = s.connections.insert clientfd (decoratedHandle e.decorated raw) ∧
          s'.epollSet = clientfd :: s.epollSet ∧
          s'.executor = s.executor ++ [.lockCallAndUnlock .connectionEstablished raw]
      else s'.executor = s.executor) := by
  rcases addDecorators_finishes rfl finished with
    ⟨threw, executor, fds, read⟩ |
    ⟨returned, next, rest, connections, epollSet, executor, fds, read⟩
  · exact ⟨read, fds, by simp [threw, executor]⟩
  · obtain ⟨read', fds', connections', outcome⟩ := epollAdd_finishes rest
    refine ⟨read'.trans read, fds'.trans fds, ?_⟩
    rw [connections', connections, ← epollSet, ← executor]
    split at outcome
    · rename_i registered
      rw [if_pos ⟨returned, registered⟩]
      exact ⟨rfl, outcome⟩
    · rename_i unregistered
      rwa [if_neg fun completes => unregistered completes.2]

/-- No operation takes back that the unassigned variable was read. -/
theorem Rule.indeterminateRead {t : Tid n} {op : Op} {flow : Flow Op}
    (rule : Rule t e s op flow s') (read : s.indeterminateRead = true) :
    s'.indeterminateRead = true := by
  cases rule <;> first | exact read | rfl

theorem indeterminateRead_of_finishes {t : Tid n} {ops : List Op}
    (finished : Finishes (server n) t e ops s s') (read : s.indeterminateRead = true) :
    s'.indeterminateRead = true := by
  induction finished with
  | done => exact read
  | step executed _ ih => exact ih ((rule_of_exec executed).indeterminateRead read)

/-- The unassigned variable is read: `AddDecorators` is called with it. -/
theorem afterConstruct_indeterminate {clientfd : Nat}
    (finished : Finishes (server n) .listen e
      (afterConstruct clientfd .indeterminate) s s') : s'.indeterminateRead = true := by
  obtain ⟨_, _, rule, remaining⟩ := rule_of_finishes finished
  cases rule
  obtain ⟨_, _, rule, remaining⟩ := rule_of_finishes remaining
  cases rule with
  | indeterminateThrew => exact indeterminateRead_of_finishes remaining rfl
  | indeterminateDecorated => exact indeterminateRead_of_finishes remaining rfl

/-! ### The iteration -/

/-- For every state of the server and every outcome of the calls: the accept
iteration, run to its end, is all or nothing exactly if `accept` gave nothing, or
the constructor, `AddDecorators` and `epoll_ctl` all succeeded. -/
theorem acceptIteration_allOrNothing_iff
    (finished : Finishes (server n) .listen e [.accept]
      { s with indeterminateRead := false } s') :
    AllOrNothing e s s' ↔ Completes e s := by
  rcases accept_finishes finished with ⟨none, rfl⟩ | ⟨clientfd, accepted, constructing⟩
  · refine ⟨fun _ => Or.inl none, fun _ => ⟨Or.inr ⟨rfl, rfl, rfl, rfl, ?_⟩, rfl⟩⟩
    intro clientfd accepted
    rw [none] at accepted
    cases accepted
  · have absent : e.accepted ≠ none := by simp [accepted]
    rcases construct_finishes constructing with ⟨constructs, rest⟩ | ⟨threw, error, rest⟩
    · obtain ⟨unread, fds, outcome⟩ := afterConstruct_finishes rest
      simp only [Completes, absent, false_or]
      split at outcome
      · rename_i succeeds
        obtain ⟨connections, epollSet, executor⟩ := outcome
        refine ⟨fun _ => ⟨constructs, succeeds⟩, fun _ => ⟨Or.inl ⟨clientfd, ?_⟩, unread⟩⟩
        exact ⟨accepted, connections, epollSet, executor⟩
      · rename_i fails
        constructor
        · rintro ⟨⟨_, registered⟩ | rolledBack, _⟩
          · have queued := registered.executor
            rw [outcome] at queued
            simp at queued
          · have closed := rolledBack.closed clientfd accepted
            rw [fds] at closed
            exact absurd List.mem_cons_self closed
        · exact fun completes => absurd completes.2 fails
    · have read := afterConstruct_indeterminate rest
      constructor
      · rintro ⟨_, unread⟩
        rw [read] at unread
        cases unread
      · rintro (none | ⟨constructs, _⟩)
        · exact absurd none absent
        · exact absurd constructs threw

/-- A plain server and a TLS server, before any connection. -/
def plainServer : ServerState 1 := .init 1 3 false (-1)

def tlsServer : ServerState 1 := .init 1 3 true (-1)

theorem acceptIteration_registers :
    ∃ s', Finishes (server 1) .listen { accepted := some 5 } [.accept] plainServer s' ∧
      AllOrNothing { accepted := some 5 } plainServer s' := by
  obtain ⟨s', finished⟩ : ∃ s', Finishes (server 1) .listen { accepted := some 5 } [.accept]
      { plainServer with indeterminateRead := false } s' :=
    ⟨_, .step rfl (.step rfl (.step rfl (.step rfl (.step rfl (.step rfl (.step rfl
      (.step rfl (.step rfl (.done _)))))))))⟩
  have succeeds : Completes { accepted := some 5 } plainServer :=
    Or.inr ⟨fun encrypted => absurd encrypted (by decide), by decide, rfl⟩
  exact ⟨s', finished, (acceptIteration_allOrNothing_iff finished).mpr succeeds⟩

/-- A failed handshake: the branch goes on with the variable `conn` that nothing
was assigned to.  A failed `epoll_ctl`: the entry of the pool and the open
descriptor stay. -/
theorem acceptIteration_not_allOrNothing :
    (∃ s', Finishes (server 1) .listen { accepted := some 5, ssl := { accept := -1 } }
        [.accept] tlsServer s' ∧
      ¬ AllOrNothing { accepted := some 5, ssl := { accept := -1 } } tlsServer s') ∧
    (∃ s', Finishes (server 1) .listen { accepted := some 5, registered := false }
        [.accept] plainServer s' ∧
      ¬ AllOrNothing { accepted := some 5, registered := false } plainServer s') := by
  constructor
  · refine ⟨_, .step rfl (.step rfl (.step rfl (.step rfl (.step rfl (.step rfl (.step rfl
      (.done _))))))), fun allOrNothing => ?_⟩
    exact absurd allOrNothing.2 (by decide)
  · refine ⟨_, .step rfl (.step rfl (.step rfl (.step rfl (.step rfl (.step rfl (.step rfl
      (.done _))))))), ?_⟩
    rintro ⟨⟨clientfd, registered⟩ | rolledBack, _⟩
    · exact absurd registered.executor (by decide)
    · exact absurd (rolledBack.closed 5 rfl) (by decide)

end ServerState

end LibSiot
