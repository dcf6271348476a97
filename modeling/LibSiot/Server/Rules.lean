/-
Module: LibSiot.Server.Rules
Purpose: The operations of the server as rules, one for each way an operation
  can go, with all that it needs and all that it changes.  Proofs about steps
  go by cases over these rules instead of unfolding the operations.
Trusted boundary: none
Main exports: ServerState.Rule, ServerState.rule_of_exec,
  ServerState.rule_of_step
-/
import LibSiot.Server.Step

namespace LibSiot

open Interleaving (Flow)
open Interleaving.Machine (Finishes finishes_cons pushes)

namespace ServerState

variable {n : Nat}

/-- Thread `t`, with choices `e`, performs an operation in state `s`. -/
inductive Rule (t : Tid n) (e : Choice) (s : ServerState n) :
    Op → Flow Op → ServerState n → Prop where
  | lock (name : LockName) (l : RwLock (Tid n)) (taken : (s.locks name).lock t = some l) :
      Rule t e s (.lock name) (.next []) (s.setLock name l)
  | readLock (name : LockName) (l : RwLock (Tid n))
      (taken : (s.locks name).readLock t = some l) :
      Rule t e s (.readLock name) (.next []) (s.setLock name l)
  | unlock (name : LockName) (destructor : Bool) :
      Rule t e s (.unlock name destructor) (.next [])
        (s.setLock name ((s.locks name).unlock t))
  | keepListening : Rule t e s .listenWhile (.next [.epollWait]) s
  | stopListening : Rule t e s .listenWhile (.next []) s
  | waitLeft (failed : e.ready = none) (left : e.throws = true ∨ e.retry = false) :
      Rule t e s .epollWait .unwind s
  | waitRetried (failed : e.ready = none) : Rule t e s .epollWait (.next [.listenWhile]) s
  | waited (batch : List EpollEvent) (fits : batch.length ≤ s.events.length)
      (real : ∀ event ∈ batch, event.fd ∈ s.epollSet ∧ event.events ≠ 0) :
      Rule t e s .epollWait (.next [.forLoop 0 batch.length])
        { s with
          events := batch ++ s.events.drop batch.length
          batch := batch
          examined := []
          handled := [] }
  | examineListening (i nfds : Nat) (inside : i < nfds)
      (listening : (s.events.getD i .zero).fd = s.serverfd) :
      Rule t e s (.forLoop i nfds) (.next [.accept, .forLoop (i + 1) nfds])
        { s with examined := s.examined ++ [s.events.getD i .zero] }
  | examineClient (i nfds : Nat) (inside : i < nfds)
      (client : (s.events.getD i .zero).fd ≠ s.serverfd)
      (positive : (s.events.getD i .zero).fd > 0) :
      Rule t e s (.forLoop i nfds)
        (.next [.lookup (s.events.getD i .zero).fd (s.events.getD i .zero).events,
          .forLoop (i + 1) nfds])
        { s with examined := s.examined ++ [s.events.getD i .zero] }
  | examineZero (i nfds : Nat) (inside : i < nfds)
      (client : (s.events.getD i .zero).fd ≠ s.serverfd)
      (zero : (s.events.getD i .zero).fd = 0) :
      Rule t e s (.forLoop i nfds) (.next [.forLoop (i + 1) nfds])
        { s with
          examined := s.examined ++ [s.events.getD i .zero]
          handled := s.handled ++
            [.dispatched (s.connections.lookup (s.events.getD i .zero).fd) none] }
  | loopOver (i nfds : Nat) (outside : ¬ i < nfds) :
      Rule t e s (.forLoop i nfds) (.next [.clearEvents, .listenWhile]) s
  | acceptThrew (failed : e.accepted = none) (throws : e.throws = true) :
      Rule t e s .accept .unwind { s with handled := s.handled ++ [.accepted] }
  | acceptFailed (failed : e.accepted = none) (quiet : e.throws = false) :
      Rule t e s .accept (.next []) { s with handled := s.handled ++ [.accepted] }
  | accepted (clientfd : Nat) (given : e.accepted = some clientfd)
      (fresh : clientfd ∉ s.openFds) :
      Rule t e s .accept (.next [.construct clientfd])
        { s with
          handled := s.handled ++ [.accepted]
          openFds := clientfd :: s.openFds }
  | constructed (clientfd : Nat)
      (succeeds : s.ssl = true → OpenSSLConnection.construct e.ssl = .ok ()) :
      Rule t e s (.construct clientfd)
        (.next (afterConstruct clientfd
          (.constructed { accept := s.nextAccept, level := 0 })))
        { s with
          nextAccept := s.nextAccept + 1
          socket := Function.update s.socket s.nextAccept clientfd
          decorators := Function.update s.decorators s.nextAccept []
          lastUse := Function.update s.lastUse s.nextAccept e.now }
  | constructorThrew (clientfd : Nat) (error : ClientConnectionException)
      (encrypted : s.ssl = true)
      (threw : OpenSSLConnection.construct e.ssl = .error error) :
      Rule t e s (.construct clientfd) (.next (afterConstruct clientfd .indeterminate))
        (s.record (.constructorThrew error.identifier))
  | decoratorsThrew (clientfd : Nat) (raw : Handle) (threw : e.decorated = .threw) :
      Rule t e s (.addDecorators clientfd (.constructed raw)) .unwind (s.subscript clientfd)
  | decoratedNull (clientfd : Nat) (raw : Handle) (null : e.decorated = .null) :
      Rule t e s (.addDecorators clientfd (.constructed raw)) (.next [])
        (s.setConnection clientfd none)
  | decorated (clientfd : Nat) (raw : Handle) (decorators : List Decorator)
      (returned : e.decorated = .stack decorators) :
      Rule t e s (.addDecorators clientfd (.constructed raw)) (.next [])
        { s.setConnection clientfd (some { raw with level := decorators.length }) with
          decorators := Function.update s.decorators raw.accept decorators }
  | indeterminateThrew (clientfd : Nat) (threw : e.decorated = .threw) :
      Rule t e s (.addDecorators clientfd .indeterminate) .unwind
        (subscript clientfd { s with indeterminateRead := true })
  | indeterminateDecorated (clientfd : Nat) (returned : e.decorated ≠ .threw) :
      Rule t e s (.addDecorators clientfd .indeterminate) (.next [])
        (setConnection clientfd e.garbage { s with indeterminateRead := true })
  | clearEvents :
      Rule t e s .clearEvents (.next []) { s with events := s.events.map fun _ => .zero }
  | registered (clientfd : Nat) (raw : Handle) (succeeds : e.registered = true) :
      Rule t e s (.epollAdd clientfd (.constructed raw))
        (.next (lockAndAdd .connectionEstablished raw))
        { s with epollSet := clientfd :: s.epollSet }
  | indeterminateRegistered (clientfd : Nat) (conn : Handle)
      (succeeds : e.registered = true) :
      Rule t e s (.epollAdd clientfd .indeterminate)
        (.next (lockAndAdd .connectionEstablished conn))
        { s with epollSet := clientfd :: s.epollSet, indeterminateRead := true }
  | indeterminateNull (clientfd : Nat) (succeeds : e.registered = true)
      (null : e.garbage = none) :
      Rule t e s (.epollAdd clientfd .indeterminate) .halt
        { s with
          epollSet := clientfd :: s.epollSet
          indeterminateRead := true
          nullDereference := true }
  | notRegistered (clientfd : Nat) (conn : Pointer) (fails : e.registered = false)
      (quiet : e.throws = false) :
      Rule t e s (.epollAdd clientfd conn) (.next []) s
  | notRegisteredThrew (clientfd : Nat) (conn : Pointer) (fails : e.registered = false)
      (throws : e.throws = true) :
      Rule t e s (.epollAdd clientfd conn) .unwind s
  | addTask (task : Closure) :
      Rule t e s (.addTask task) (.next []) { s with executor := s.executor ++ [task] }
  | lookupHangup (fd : Nat) (events : UInt32) (conn : Handle)
      (entry : s.connections.lookup fd = some (some conn))
      (selects : selectBranch events = some .hangup) :
      Rule t e s (.lookup fd events)
        (.next [.addTask (.connectionTerminated conn), .shutdown conn])
        (record (.hangup conn)
          { s with
            handled := s.handled ++ [.dispatched (some (some conn)) (some .hangup)] })
  | lookupError (fd : Nat) (events : UInt32) (conn : Handle)
      (entry : s.connections.lookup fd = some (some conn))
      (selects : selectBranch events = some .error) :
      Rule t e s (.lookup fd events) (.next (lockAndAdd .error conn))
        { s with handled := s.handled ++ [.dispatched (some (some conn)) (some .error)] }
  | lookupDataReady (fd : Nat) (events : UInt32) (conn : Handle)
      (entry : s.connections.lookup fd = some (some conn))
      (selects : selectBranch events = some .dataReady) :
      Rule t e s (.lookup fd events) (.next [.lock .connections, .find fd conn])
        { s with
          handled := s.handled ++ [.dispatched (some (some conn)) (some .dataReady)] }
  | lookupUnselected (fd : Nat) (events : UInt32) (conn : Handle)
      (entry : s.connections.lookup fd = some (some conn))
      (selects : selectBranch events = none) :
      Rule t e s (.lookup fd events) (.next [])
        { s with handled := s.handled ++ [.dispatched (some (some conn)) none] }
  | lookupNull (fd : Nat) (events : UInt32)
      (entry : s.connections.lookup fd = some none) :
      Rule t e s (.lookup fd events) (.next [])
        { s with handled := s.handled ++ [.dispatched (some none) none] }
  | lookupMissing (fd : Nat) (events : UInt32) (entry : s.connections.lookup fd = none) :
      Rule t e s (.lookup fd events) (.next [])
        { s with
          connections := s.connections.insert fd none
          handled := s.handled ++ [.dispatched none none] }
  | findMissing (fd : Nat) (conn : Handle) (entry : s.connections.lookup fd = none) :
      Rule t e s (.find fd conn) (.next [.unlock .connections false]) s
  | found (fd : Nat) (conn : Handle) (value : Option Handle)
      (entry : s.connections.lookup fd = some value) :
      Rule t e s (.find fd conn)
        (.next (lockAndAdd .dataReady conn ++ [.unlock .connections false])) s
  | reapStart : Rule t e s .reapStart (.next [.reapWait (UInt64.ofInt s.maxIdle.toInt)]) s
  | reapWaited (maxIdle : UInt64) :
      Rule t e s (.reapWait maxIdle)
        (.next [.lock .connections, .reapTime maxIdle, .unlock .connections true,
          .reapWait maxIdle]) s
  | reapStopped (maxIdle : UInt64) : Rule t e s (.reapWait maxIdle) (.next []) s
  | reapTime (maxIdle : UInt64) :
      Rule t e s (.reapTime maxIdle) (.next [.reapNext maxIdle e.now none]) s
  | reapOver (maxIdle tm : UInt64) (after : Option Nat)
      (none : s.connections.next after = none) :
      Rule t e s (.reapNext maxIdle tm after) (.next []) s
  | reapNull (maxIdle tm : UInt64) (after : Option Nat) (fd : Nat)
      (entry : s.connections.next after = some (fd, none)) :
      Rule t e s (.reapNext maxIdle tm after) .halt { s with nullDereference := true }
  | reapDue (maxIdle tm : UInt64) (after : Option Nat) (fd : Nat) (conn : Handle)
      (entry : s.connections.next after = some (fd, some conn))
      (due : s.due maxIdle tm conn = true) :
      Rule t e s (.reapNext maxIdle tm after)
        (.next [.erase fd, .epollDel fd, .reapShutdown conn,
          .reapNext maxIdle tm (some fd)]) s
  | reapKept (maxIdle tm : UInt64) (after : Option Nat) (fd : Nat) (conn : Handle)
      (entry : s.connections.next after = some (fd, some conn))
      (notDue : s.due maxIdle tm conn = false) :
      Rule t e s (.reapNext maxIdle tm after) (.next [.reapNext maxIdle tm (some fd)]) s
  | reapIsShutdown (conn : Handle) (down : s.isShutdownOf conn = true) :
      Rule t e s (.reapShutdown conn) (.next []) s
  | reapExpired (conn : Handle) (up : s.isShutdownOf conn = false) :
      Rule t e s (.reapShutdown conn)
        (.next [.shutdown conn, .call .connectionTerminated conn])
        (s.record (.expired conn))
  | takeTask (task : Closure) (tasks : List Closure) (queue : s.executor = task :: tasks) :
      Rule t e s .takeTask (.next (taskOps task ++ [.takeTask]))
        { s with executor := tasks }
  | call (callback : Callback) (conn : Handle) :
      Rule t e s (.call callback conn) (.next [.running callback conn])
        (s.record (.called callback conn))
  | callbackReturns (callback : Callback) (conn : Handle) :
      Rule t e s (.running callback conn) (.next []) s
  | callbackThrows (callback : Callback) (conn : Handle) (throws : e.handler = .throws) :
      Rule t e s (.running callback conn) .unwind s
  | callbackSetMaxIdle (callback : Callback) (conn : Handle) (maxIdle : Int32) :
      Rule t e s (.running callback conn) (.next [.running callback conn])
        { s with maxIdle := maxIdle }
  | callbackShutdownServer (callback : Callback) (conn : Handle) :
      Rule t e s (.running callback conn) (.next [.running callback conn])
        { s with running := false }
  | callbackDefers (callback : Callback) (conn other : Handle)
      (acts : e.handler = .acts (.deferredShutdown other)) (made : s.Made other) :
      Rule t e s (.running callback conn) (.next [.running callback conn])
        (record (.deferred other) { s with executor := s.executor ++ [.shutdown other] })
  | callbackUses (callback : Callback) (conn other : Handle)
      (acts : e.handler = .acts (.use other)) (made : s.Made other) :
      Rule t e s (.running callback conn) (.next (s.useOps other 1 ++ [.running callback conn])) s
  | use (conn : Handle) :
      Rule t e s (.use conn) (.next [])
        { s with lastUse := Function.update s.lastUse conn.accept e.now }
  | shutdown (conn : Handle) :
      Rule t e s (.shutdown conn) (.next (s.shutdownOps conn))
        (s.record (.shutdownStarted conn))
  | deregister (conn : Handle) :
      Rule t e s (.deregister conn)
        (.next ((s.connections.keysWhere (· = some conn)).flatMap dequeueOps))
        { s with isShutdown := Function.update s.isShutdown conn true }
  | erase (fd : Nat) :
      Rule t e s (.erase fd) (.next [])
        (record (.dequeued fd) { s with connections := s.connections.erase fd })
  | epollDel (fd : Nat) (there : fd ∈ s.epollSet) :
      Rule t e s (.epollDel fd) (.next [])
        { s with epollSet := s.epollSet.filter (· ≠ fd) }
  | epollDelFailed (fd : Nat) (absent : fd ∉ s.epollSet) :
      Rule t e s (.epollDel fd) (.next []) s
  | epollDelThrew (fd : Nat) (absent : fd ∉ s.epollSet) (throws : e.throws = true) :
      Rule t e s (.epollDel fd) .unwind s
  | closeSocket (conn : Handle) :
      Rule t e s (.closeSocket conn) (.next [])
        { s with
          openFds := s.openFds.filter (· ≠ s.socket conn.accept)
          epollSet := s.epollSet.filter (· ≠ s.socket conn.accept) }
  | drain (conn : Handle) :
      Rule t e s (.drain conn) (.next (s.useOps conn e.turns ++ [.drained conn])) s
  | drained (conn : Handle) (quiet : e.throws = false) :
      Rule t e s (.drained conn) (.next []) s
  | drainThrew (conn : Handle) (throws : e.throws = true) :
      Rule t e s (.drained conn) .unwind s
  | delete (conn : Handle) :
      Rule t e s (.delete conn) (.next [])
        ((s.record (.destroyed conn)).setLock (.connection conn) .free)
  | userIdle : Rule t e s .userCode (.next [.userCode]) s
  | userSetMaxIdle (maxIdle : Int32) :
      Rule t e s .userCode (.next [.userCode]) { s with maxIdle := maxIdle }
  | userShutdownServer :
      Rule t e s .userCode (.next [.userCode]) { s with running := false }
  | userDefers (other : Handle)
      (acts : e.handler = .acts (.deferredShutdown other)) (made : s.Made other) :
      Rule t e s .userCode (.next [.userCode])
        (record (.deferred other) { s with executor := s.executor ++ [.shutdown other] })
  | userUses (other : Handle) (acts : e.handler = .acts (.use other)) (made : s.Made other) :
      Rule t e s .userCode (.next (s.useOps other 1 ++ [.userCode])) s

variable {t : Tid n} {e : Choice} {s s' : ServerState n} {op : Op} {flow : Flow Op}

/-- An entry stays as it is where another is looked up. -/
theorem entry_subscript {clientfd fd : Nat} {value : Option Handle}
    (entry : s.connections.lookup fd = some value) :
    (s.subscript clientfd).connections.lookup fd = some value := by
  rw [subscript]
  split
  · rename_i missing
    have other : fd ≠ clientfd := by
      rintro rfl
      rw [entry] at missing
      cases missing
    rw [OrderedMap.lookup_insert, if_neg other]
    exact entry
  · exact entry

/-- Looking an entry up makes none but a null one. -/
theorem entry_of_subscript {clientfd fd : Nat} {value : Option Handle}
    (entry : (s.subscript clientfd).connections.lookup fd = some value) :
    s.connections.lookup fd = some value ∨ (fd = clientfd ∧ value = none) := by
  rw [subscript] at entry
  split at entry
  · rw [OrderedMap.lookup_insert] at entry
    split at entry
    · rename_i same
      exact Or.inr ⟨same, (Option.some.inj entry).symm⟩
    · exact Or.inl entry
  · exact Or.inl entry

theorem stored_of_subscript {clientfd fd : Nat} {conn : Handle}
    (entry : (s.subscript clientfd).connections.lookup fd = some (some conn)) :
    s.connections.lookup fd = some (some conn) :=
  (entry_of_subscript entry).resolve_right fun null => by cases null.2

/-- If no operation of a list has a value of some kind, none of its members does. -/
theorem ne_some_of_all {α : Type*} {f : Op → Option α} {ops : List Op} {new : Op} {value : α}
    (none : ops.all (fun new => (f new).isNone) = true) (member : new ∈ ops) :
    f new ≠ some value := by
  intro some
  have isNone := List.all_eq_true.mp none new member
  rw [some] at isNone
  cases isNone

/-- Whatever an operation does is by one of the rules. -/
theorem rule_of_exec (executed : exec t op e s = some (flow, s')) :
    Rule t e s op flow s' := by
  cases op with
  | lock name =>
      simp only [exec, lock, goOn] at executed
      split at executed
      · cases executed
      · rename_i l taken
        cases executed
        exact .lock name l taken
  | readLock name =>
      simp only [exec, readLock, goOn] at executed
      split at executed
      · cases executed
      · rename_i l taken
        cases executed
        exact .readLock name l taken
  | unlock name destructor =>
      cases executed
      exact .unlock name destructor
  | listenWhile =>
      simp only [exec, listenWhile, goOn] at executed
      split at executed <;> cases executed
      · exact .keepListening
      · exact .stopListening
  | epollWait =>
      simp only [exec, epollWait, goOn] at executed
      split at executed
      · rename_i failed
        split at executed <;> cases executed
        · rename_i left
          exact .waitLeft failed left
        · exact .waitRetried failed
      · rename_i batch _
        split at executed
        · rename_i possible
          cases executed
          exact .waited batch possible.1 possible.2
        · cases executed
  | forLoop i nfds =>
      simp only [exec, forLoop, goOn] at executed
      split at executed
      · rename_i inside
        split at executed
        · rename_i listening
          cases executed
          exact .examineListening i nfds inside listening
        · rename_i client
          split at executed <;> cases executed
          · rename_i positive
            exact .examineClient i nfds inside client positive
          · rename_i notPositive
            exact .examineZero i nfds inside client (Nat.eq_zero_of_not_pos notPositive)
      · rename_i outside
        cases executed
        exact .loopOver i nfds outside
  | accept =>
      simp only [exec, accept, connectionFailed, goOn] at executed
      split at executed
      · rename_i failed
        split at executed <;> cases executed
        · rename_i throws
          exact .acceptThrew failed throws
        · rename_i quiet
          exact .acceptFailed failed (by simpa using quiet)
      · rename_i clientfd given
        split at executed
        · cases executed
        · rename_i fresh
          cases executed
          exact .accepted clientfd given fresh
  | construct clientfd =>
      simp only [exec, construct, goOn] at executed
      split at executed
      · rename_i succeeded
        cases executed
        exact .constructed clientfd fun encrypted => by simpa [encrypted] using succeeded
      · rename_i error failed
        cases executed
        by_cases encrypted : s.ssl = true
        · exact .constructorThrew clientfd error encrypted (by simpa [encrypted] using failed)
        · simp [encrypted] at failed
  | addDecorators clientfd conn =>
      simp only [exec, addDecorators, goOn] at executed
      cases conn with
      | constructed raw =>
          simp only at executed
          split at executed <;> cases executed
          · rename_i threw
            exact .decoratorsThrew clientfd raw threw
          · rename_i null
            exact .decoratedNull clientfd raw null
          · rename_i decorators returned
            exact .decorated clientfd raw decorators returned
      | indeterminate =>
          simp only at executed
          split at executed <;> cases executed
          · rename_i threw
            exact .indeterminateThrew clientfd threw
          · rename_i returned
            exact .indeterminateDecorated clientfd returned
  | clearEvents =>
      cases executed
      exact .clearEvents
  | epollAdd clientfd conn =>
      simp only [exec, epollAdd, connectionFailed, crash, goOn] at executed
      split at executed
      · rename_i succeeds
        split at executed
        · cases executed
          exact .registered clientfd _ succeeds
        · split at executed <;> cases executed
          · rename_i null
            exact .indeterminateNull clientfd succeeds null
          · exact .indeterminateRegistered clientfd _ succeeds
      · rename_i fails
        have unregistered : e.registered = false := by simpa using fails
        split at executed <;> cases executed
        · rename_i throws
          exact .notRegisteredThrew clientfd conn unregistered throws
        · rename_i quiet
          exact .notRegistered clientfd conn unregistered (by simpa using quiet)
  | addTask task =>
      cases executed
      exact .addTask task
  | lookup fd events =>
      simp only [exec, lookup, subscript, goOn] at executed
      cases entry : s.connections.lookup fd with
      | none =>
          simp only [entry] at executed
          cases executed
          exact .lookupMissing fd events entry
      | some value =>
          cases value with
          | none =>
              simp only [entry] at executed
              cases executed
              exact .lookupNull fd events entry
          | some conn =>
              simp only [entry] at executed
              cases selects : selectBranch events with
              | none =>
                  simp only [selects] at executed
                  cases executed
                  exact .lookupUnselected fd events conn entry selects
              | some branch =>
                  cases branch <;> simp only [selects] at executed <;> cases executed
                  · exact .lookupHangup fd events conn entry selects
                  · exact .lookupError fd events conn entry selects
                  · exact .lookupDataReady fd events conn entry selects
  | find fd conn =>
      simp only [exec, find, goOn] at executed
      split at executed
      · rename_i absent
        cases executed
        exact .findMissing fd conn (by simpa using absent)
      · rename_i present
        cases executed
        obtain ⟨value, entry⟩ := Option.ne_none_iff_exists'.mp (by simpa using present)
        exact .found fd conn value entry
  | reapStart =>
      cases executed
      exact .reapStart
  | reapWait maxIdle =>
      simp only [exec, reapWait, goOn] at executed
      split at executed <;> cases executed
      · exact .reapWaited maxIdle
      · exact .reapStopped maxIdle
  | reapTime maxIdle =>
      cases executed
      exact .reapTime maxIdle
  | reapNext maxIdle tm after =>
      simp only [exec, reapNext, goOn, crash] at executed
      split at executed
      · rename_i ended
        cases executed
        exact .reapOver maxIdle tm after ended
      · rename_i fd entry
        cases executed
        exact .reapNull maxIdle tm after fd entry
      · rename_i fd conn entry
        split at executed <;> cases executed
        · rename_i due
          exact .reapDue maxIdle tm after fd conn entry due
        · rename_i notDue
          exact .reapKept maxIdle tm after fd conn entry (by simpa using notDue)
  | reapShutdown conn =>
      simp only [exec, reapShutdown, goOn] at executed
      split at executed <;> cases executed
      · rename_i down
        exact .reapIsShutdown conn down
      · rename_i up
        exact .reapExpired conn (by simpa using up)
  | takeTask =>
      simp only [exec, takeTask, goOn] at executed
      split at executed
      · cases executed
      · rename_i task tasks queue
        cases executed
        exact .takeTask task tasks queue
  | call callback conn =>
      cases executed
      exact .call callback conn
  | running callback conn =>
      simp only [exec, callbackMove, goOn] at executed
      split at executed
      · cases executed
        exact .callbackReturns callback conn
      · rename_i throws
        cases executed
        exact .callbackThrows callback conn throws
      · rename_i action acts
        cases action with
        | setMaxIdle maxIdle =>
            cases executed
            exact .callbackSetMaxIdle callback conn maxIdle
        | shutdownServer =>
            cases executed
            exact .callbackShutdownServer callback conn
        | deferredShutdown other =>
            by_cases made : s.Made other
            · simp only [perform, made, if_true] at executed
              cases executed
              exact .callbackDefers callback conn other acts made
            · simp only [perform, made, if_false] at executed
              cases executed
        | use other =>
            by_cases made : s.Made other
            · simp only [perform, made, if_true] at executed
              cases executed
              exact .callbackUses callback conn other acts made
            · simp only [perform, made, if_false] at executed
              cases executed
  | use conn =>
      cases executed
      exact .use conn
  | shutdown conn =>
      cases executed
      exact .shutdown conn
  | deregister conn =>
      cases executed
      exact .deregister conn
  | erase fd =>
      cases executed
      exact .erase fd
  | epollDel fd =>
      simp only [exec, epollDel, connectionFailed, goOn] at executed
      split at executed
      · rename_i there
        cases executed
        exact .epollDel fd there
      · rename_i absent
        split at executed <;> cases executed
        · rename_i throws
          exact .epollDelThrew fd absent throws
        · exact .epollDelFailed fd absent
  | closeSocket conn =>
      cases executed
      exact .closeSocket conn
  | drain conn =>
      cases executed
      exact .drain conn
  | drained conn =>
      simp only [exec, drained, goOn] at executed
      split at executed <;> cases executed
      · rename_i throws
        exact .drainThrew conn throws
      · rename_i quiet
        exact .drained conn (by simpa using quiet)
  | delete conn =>
      cases executed
      exact .delete conn
  | userCode =>
      simp only [exec, userCode, goOn] at executed
      split at executed
      · rename_i action acts
        cases action with
        | setMaxIdle maxIdle =>
            cases executed
            exact .userSetMaxIdle maxIdle
        | shutdownServer =>
            cases executed
            exact .userShutdownServer
        | deferredShutdown other =>
            by_cases made : s.Made other
            · simp only [perform, made, if_true] at executed
              cases executed
              exact .userDefers other acts made
            · simp only [perform, made, if_false] at executed
              cases executed
        | use other =>
            by_cases made : s.Made other
            · simp only [perform, made, if_true] at executed
              cases executed
              exact .userUses other acts made
            · simp only [perform, made, if_false] at executed
              cases executed
      · cases executed
        exact .userIdle

/-- What the body of `Shutdown()` is made of. -/
theorem mem_shutdownBody {conn : Handle} (member : op ∈ s.shutdownBody conn) :
    op = .lock (.connection conn) ∨ op = .closeSocket conn ∨ op = .drain conn ∨
      (∃ lower : Handle, op = .shutdown lower ∧ lower.accept = conn.accept ∧
        lower.level < conn.level) ∨
      op = .delete conn := by
  obtain ⟨accept, level⟩ := conn
  cases level with
  | zero =>
      simp only [shutdownBody] at member
      split at member
      · simp only [List.mem_cons, List.not_mem_nil, or_false] at member
        rcases member with rfl | rfl <;> simp
      · simp only [List.mem_cons, List.not_mem_nil, or_false] at member
        rcases member with rfl | rfl | rfl <;> simp
  | succ level =>
      simp only [shutdownBody] at member
      split at member
      · cases member
      · rename_i decorator _
        simp only [List.cons_append, List.mem_cons, List.mem_append, List.mem_ite_nil_right,
          List.not_mem_nil, or_false] at member
        rcases member with rfl | (⟨_, rfl⟩ | ⟨_, rfl⟩) | rfl
        · simp
        · simp
        · exact Or.inr (Or.inr (Or.inr (Or.inl ⟨_, rfl, rfl, Nat.lt_succ_self level⟩)))
        · simp

/-- What is done under `ssl_mtx_`, or without it. -/
theorem mem_underSsl {accept : Nat} {ops : List Op} (member : op ∈ s.underSsl accept ops) :
    op = .lock (.ssl accept) ∨ op ∈ ops ∨ op = .unlock (.ssl accept) true := by
  rw [underSsl] at member
  split at member
  · simpa [or_assoc] using member
  · exact Or.inr (Or.inl member)

/-- What calls of `Receive` or `Send` are made of. -/
theorem mem_useOps {conn : Handle} {calls : Nat} (member : op ∈ s.useOps conn calls) :
    op = .lock (.ssl conn.accept) ∨ op = .use conn ∨ op = .unlock (.ssl conn.accept) true := by
  obtain ⟨call, repeated, member⟩ := List.mem_flatten.mp member
  rw [List.eq_of_mem_replicate repeated] at member
  simpa using mem_underSsl member

theorem mem_useOps_append {conn : Handle} {calls : Nat} {last : Op}
    (member : op ∈ s.useOps conn calls ++ [last]) :
    op = .lock (.ssl conn.accept) ∨ op = .use conn ∨ op = .unlock (.ssl conn.accept) true ∨
      op = last := by
  rcases List.mem_append.mp member with member | member
  · rcases mem_useOps member with rfl | rfl | rfl <;> simp
  · exact Or.inr (Or.inr (Or.inr (List.mem_singleton.mp member)))

/-- What holds of calls of `Receive` or `Send` and of what follows them. -/
theorem forall_useOps {P : Op → Prop} {conn : Handle} {calls : Nat} {ops : List Op}
    (locks : P (.lock (.ssl conn.accept))) (uses : P (.use conn))
    (unlocks : P (.unlock (.ssl conn.accept) true)) (rest : ∀ op ∈ ops, P op) :
    ∀ op ∈ s.useOps conn calls ++ ops, P op := by
  intro op member
  rcases List.mem_append.mp member with member | member
  · rcases mem_useOps member with rfl | rfl | rfl
    · exact locks
    · exact uses
    · exact unlocks
  · exact rest op member

/-- What `Shutdown()` is made of. -/
theorem mem_shutdownOps {conn : Handle} (member : op ∈ s.shutdownOps conn) :
    op = .lock (.ssl conn.accept) ∨ op = .deregister conn ∨ op ∈ s.shutdownBody conn ∨
      op = .unlock (.ssl conn.accept) true := by
  rw [shutdownOps] at member
  split at member
  · simpa [or_assoc] using mem_underSsl member
  · exact Or.inr (by simpa [or_assoc] using Or.inl (List.mem_cons.mp member))

/-- `Shutdown()` is `Deregister()` and its body, or these under `ssl_mtx_`. -/
theorem shutdownOps_cases (conn : Handle) (s : ServerState n) :
    s.shutdownOps conn = .deregister conn :: s.shutdownBody conn ∨
      conn.level = 0 ∧ s.ssl = true ∧
        s.shutdownOps conn = .lock (.ssl conn.accept) :: .deregister conn ::
          (s.shutdownBody conn ++ [.unlock (.ssl conn.accept) true]) := by
  unfold shutdownOps underSsl
  split
  · rename_i socket
    split
    · rename_i encrypted
      exact Or.inr ⟨socket, encrypted, rfl⟩
    · exact Or.inl rfl
  · exact Or.inl rfl

theorem shutdownOps_plain (plain : s.ssl = false) (conn : Handle) :
    s.shutdownOps conn = .deregister conn :: s.shutdownBody conn := by
  rcases shutdownOps_cases conn s with same | ⟨_, encrypted, _⟩
  · exact same
  · rw [plain] at encrypted
    cases encrypted

/-- A weight that calls of `Receive` or `Send` do not have. -/
theorem sum_useOps (weight : Op → Nat) (conn : Handle) (calls : Nat) (ops : List Op)
    (locks : weight (.lock (.ssl conn.accept)) = 0) (uses : weight (.use conn) = 0)
    (unlocks : weight (.unlock (.ssl conn.accept) true) = 0) :
    ((s.useOps conn calls ++ ops).map weight).sum = (ops.map weight).sum := by
  have none : ((s.useOps conn calls).map weight).sum = 0 := by
    apply List.sum_eq_zero
    intro w weighed
    obtain ⟨op, member, rfl⟩ := List.mem_map.mp weighed
    rcases mem_useOps member with rfl | rfl | rfl
    · exact locks
    · exact uses
    · exact unlocks
  rw [List.map_append, List.sum_append, none, Nat.zero_add]

/-- A weight that the work on `ssl_mtx_` does not have. -/
theorem sum_shutdownOps (weight : Op → Nat) (conn : Handle)
    (locks : weight (.lock (.ssl conn.accept)) = 0)
    (unlocks : weight (.unlock (.ssl conn.accept) true) = 0) :
    ((s.shutdownOps conn).map weight).sum =
      weight (.deregister conn) + ((s.shutdownBody conn).map weight).sum := by
  rcases shutdownOps_cases conn s with plain | ⟨_, _, guarded⟩
  · rw [plain, List.map_cons, List.sum_cons]
  · simp [guarded, locks, unlocks]

/-- What the loop of `DequeueConnection` is made of. -/
theorem mem_dequeueOps {fds : List Nat} (member : op ∈ fds.flatMap dequeueOps) :
    ∃ fd ∈ fds, op = .lock .connections ∨ op = .erase fd ∨ op = .epollDel fd ∨
      op = .unlock .connections true := by
  obtain ⟨fd, key, member⟩ := List.mem_flatMap.mp member
  simp only [dequeueOps, List.mem_cons, List.not_mem_nil, or_false] at member
  exact ⟨fd, key, member⟩

/-! ### What tasks and `Shutdown()` push -/

end ServerState

namespace Op

/-- How much the operation pushes depends on a task, on a connection or on the pool. -/
def spreads : Op → Bool
  | .takeTask => true
  | .running _ _ => true
  | .shutdown _ => true
  | .deregister _ => true
  | .drain _ => true
  | .userCode => true
  | _ => false

/-- The operation is one of those that tasks, user code, `Shutdown()` and `Deregister()`
push. -/
def common : Op → Bool
  | .lock _ => true
  | .readLock .connections => true
  | .unlock _ _ => true
  | .takeTask => true
  | .call _ _ => true
  | .running _ _ => true
  | .use _ => true
  | .shutdown _ => true
  | .deregister _ => true
  | .erase _ => true
  | .epollDel _ => true
  | .closeSocket _ => true
  | .drain _ => true
  | .drained _ => true
  | .delete _ => true
  | .userCode => true
  | _ => false

end Op

namespace ServerState

variable {n : Nat} {t : Tid n} {e : Choice} {s s' : ServerState n} {op : Op} {flow : Flow Op}

theorem Rule.common_of_pushed (rule : Rule t e s op flow s') (spreads : op.spreads = true) :
    ∀ new ∈ pushes flow, new.common = true := by
  intro new member
  cases rule with
  | takeTask task => cases task <;> exact List.all_eq_true.mp rfl new member
  | callbackUses | drain | userUses =>
      exact forall_useOps (P := (·.common = true)) rfl rfl rfl (List.all_eq_true.mp rfl) new member
  | shutdown conn =>
      rcases mem_shutdownOps member with rfl | rfl | member | rfl
      · rfl
      · rfl
      · rcases mem_shutdownBody member with rfl | rfl | rfl | ⟨_, rfl, _⟩ | rfl <;> rfl
      · rfl
  | deregister conn =>
      obtain ⟨fd, _, rfl | rfl | rfl | rfl⟩ := mem_dequeueOps member <;> rfl
  | _ => first | exact List.all_eq_true.mp rfl new member | cases spreads

/-! ### Steps -/

/-- A thread alone performs its first operation by a rule, and then the rest. -/
theorem rule_of_finishes {rest : List Op}
    (finished : Finishes (server n) t e (op :: rest) s s') :
    ∃ flow next, Rule t e s op flow next ∧
      Finishes (server n) t e ((server n).continuation flow rest) next s' := by
  obtain ⟨flow, next, executed, remaining⟩ := finishes_cons.mp finished
  exact ⟨flow, next, rule_of_exec executed, remaining⟩

/-- A step of the server is a rule for the first operation of its thread. -/
theorem rule_of_step {c c' : ServerConfig n} (taken : (server n).step t e c = some c') :
    ∃ op rest flow, c.prog t = op :: rest ∧ Rule t e c.shared op flow c'.shared ∧
      c'.prog = Function.update c.prog t ((server n).continuation flow rest) := by
  obtain ⟨op, rest, flow, program, executed, progs⟩ := (server n).step_eq_some taken
  exact ⟨op, rest, flow, program, rule_of_exec executed, progs⟩

end ServerState

/-! ### Conditions on steps -/

namespace Op

/-- A thread of a new server has the operation to do. -/
def initial : Op → Bool
  | .listenWhile | .reapStart | .takeTask | .userCode => true
  | _ => false

def constructs : Op → Bool
  | .construct _ => true
  | _ => false

def decorates : Op → Bool
  | .addDecorators _ _ => true
  | _ => false

end Op

namespace ServerConfig

variable {n : Nat}

/-- A condition on the operation that thread `t` is about to perform. -/
def Next (P : Op → Choice → ServerState n → Prop) (c : ServerConfig n) (t : Tid n)
    (e : Choice) : Prop :=
  match c.prog t with
  | [] => True
  | op :: _ => P op e c.shared

instance (P : Op → Choice → ServerState n → Prop) [∀ op e s, Decidable (P op e s)]
    (c : ServerConfig n) (t : Tid n) (e : Choice) : Decidable (Next P c t e) :=
  match program : c.prog t with
  | [] => isTrue (by simp [Next, program])
  | op :: _ => decidable_of_iff (P op e c.shared) (by simp [Next, program])

theorem Next.of_prog {P : Op → Choice → ServerState n → Prop} {c : ServerConfig n} {t : Tid n}
    {e : Choice} {op : Op} {rest : List Op} (next : Next P c t e)
    (program : c.prog t = op :: rest) : P op e c.shared := by
  rw [Next, program] at next
  exact next

/-- In the step no constructor fails. -/
def ConstructorsSucceed (c : ServerConfig n) (t : Tid n) (e : Choice) : Prop :=
  Next (fun op e s =>
    op.constructs = true → s.ssl = true → OpenSSLConnection.construct e.ssl = .ok ()) c t e

instance (c : ServerConfig n) (t : Tid n) (e : Choice) :
    Decidable (ConstructorsSucceed c t e) :=
  inferInstanceAs (Decidable (Next (fun op e s =>
    op.constructs = true → s.ssl = true → OpenSSLConnection.construct e.ssl = .ok ()) c t e))

/-- The operations that the threads of a new server have to do. -/
theorem forall_init {P : Tid n → Op → Prop} {serverfd : Nat} {ssl : Bool} {maxIdle : Int32}
    (listen : P .listen .listenWhile) (reaper : P .reaper .reapStart)
    (task : ∀ t, P t .takeTask) (user : P .user .userCode) :
    ∀ t, ∀ op ∈ (init n serverfd ssl maxIdle).prog t, P t op := by
  intro t op member
  cases t <;> simp only [init, List.mem_cons, List.not_mem_nil, or_false] at member
  · exact member ▸ listen
  · rcases member with rfl | rfl
    · exact reaper
    · exact task _
  · exact member ▸ task _
  · exact member ▸ user

theorem not_mem_init {serverfd : Nat} {ssl : Bool} {maxIdle : Int32} {t : Tid n} {op : Op}
    (later : op.initial = false) : op ∉ (init n serverfd ssl maxIdle).prog t := by
  intro member
  have first := forall_init (P := fun _ op => op.initial = true) rfl rfl (fun _ => rfl) rfl
    t op member
  rw [later] at first
  cases first

theorem init_prog_ne {serverfd : Nat} {ssl : Bool} {maxIdle : Int32} {t : Tid n} {op : Op}
    {pre post : List Op} (later : op.initial = false) :
    (init n serverfd ssl maxIdle).prog t ≠ pre ++ op :: post := by
  intro split
  have member : op ∈ (init n serverfd ssl maxIdle).prog t :=
    split ▸ List.mem_append_right _ List.mem_cons_self
  exact not_mem_init later member

end ServerConfig

end LibSiot
