/-
Module: LibSiot.Server.Step
Purpose: What each operation of the server does, function by function of the
  source, and the server as a machine whose threads interleave at these
  operations.  Where a function of the source runs to its end without touching
  anything another thread can see, it is one operation.
Trusted boundary: human-reviewed model
Main exports: ServerState.exec, server, ServerConfig, ServerConfig.init
-/
import LibSiot.Server.State

namespace LibSiot

open Interleaving (Flow Machine)

namespace ServerState

variable {n : Nat}

/-- What an operation gives: nothing while it is blocked, else what its thread
does next and the new state. -/
abbrev Result (n : Nat) := Option (Flow Op × ServerState n)

/-- The thread goes on with `ops`. -/
def goOn (ops : List Op) (s : ServerState n) : Result n := some (.next ops, s)

/-- `ConnectionFailed` is called, and the thread goes on with `ops` unless that
throws. -/
def connectionFailed (e : Choice) (ops : List Op) (s : ServerState n) : Result n :=
  if e.throws then some (.unwind, s) else s.goOn ops

/-- A null pointer is dereferenced: the thread does nothing any more. -/
def crash (s : ServerState n) : Result n :=
  some (.halt, { s with nullDereference := true })

/-! ### Locks -/

def setLock (name : LockName) (l : RwLock (Tid n)) (s : ServerState n) : ServerState n :=
  { s with locks := Function.update s.locks name l }

/-- `Lock()`. -/
def lock (t : Tid n) (name : LockName) (s : ServerState n) : Result n :=
  match (s.locks name).lock t with
  | none => none
  | some l => (s.setLock name l).goOn []

/-- `ReadLock()`. -/
def readLock (t : Tid n) (name : LockName) (s : ServerState n) : Result n :=
  match (s.locks name).readLock t with
  | none => none
  | some l => (s.setLock name l).goOn []

/-- `Unlock()`, for any kind of lock. -/
def unlock (t : Tid n) (name : LockName) (s : ServerState n) : Result n :=
  (s.setLock name ((s.locks name).unlock t)).goOn []

/-! ### `Server::ListenEpoll` -/

/-- `while (running_)`. -/
def listenWhile (s : ServerState n) : Result n :=
  if s.running then s.goOn [.epollWait] else s.goOn []

/-- `epoll_wait`, into the array `events`.  The kernel reports descriptors of the
epoll set only, each with some event, and no more than the array holds. -/
def epollWait (e : Choice) (s : ServerState n) : Result n :=
  match e.ready with
  | none =>
      if e.throws ∨ e.retry = false then some (.unwind, s) else s.goOn [.listenWhile]
  | some batch =>
      if batch.length ≤ s.events.length ∧
          ∀ event ∈ batch, event.fd ∈ s.epollSet ∧ event.events ≠ 0 then
        goOn [.forLoop 0 batch.length]
          { s with
            events := batch ++ s.events.drop batch.length
            batch := batch
            examined := []
            handled := [] }
      else none

/-- One turn of `for (int n = 0; n < nfds; ++n)`, as far as telling the listening
descriptor from the others. -/
def forLoop (n' nfds : Nat) (s : ServerState n) : Result n :=
  if n' < nfds then
    let event := s.events.getD n' .zero
    let examined := { s with examined := s.examined ++ [event] }
    if event.fd = s.serverfd then examined.goOn [.accept, .forLoop (n' + 1) nfds]
    else if event.fd > 0 then
      examined.goOn [.lookup event.fd event.events, .forLoop (n' + 1) nfds]
    else
      goOn [.forLoop (n' + 1) nfds]
        { examined with
          handled := s.handled ++ [.dispatched (s.connections.lookup event.fd) none] }
  else s.goOn [.clearEvents, .listenWhile]

/-- `accept`.  The kernel gives a descriptor that is not open. -/
def accept (e : Choice) (s : ServerState n) : Result n :=
  let handled := { s with handled := s.handled ++ [Handling.accepted] }
  match e.accepted with
  | none => handled.connectionFailed e []
  | some clientfd =>
      if clientfd ∈ s.openFds then none
      else goOn [.construct clientfd] { handled with openFds := clientfd :: s.openFds }

/-- The rest of the accept branch, entered whether or not the constructor threw. -/
def afterConstruct (clientfd : Nat) (conn : Pointer) : List Op :=
  [.lock .connections, .addDecorators clientfd conn, .unlock .connections false,
    .clearEvents, .epollAdd clientfd conn]

/-- `new OpenSSLConnection(...)` or `new UNIXSocketConnection(...)`, with the
`catch` around it.  After the `catch` the branch goes on. -/
def construct (clientfd : Nat) (e : Choice) (s : ServerState n) : Result n :=
  match (if s.ssl then OpenSSLConnection.construct e.ssl else .ok ()) with
  | .ok () =>
      goOn (afterConstruct clientfd (.constructed { accept := s.nextAccept, level := 0 }))
        { s with
          nextAccept := s.nextAccept + 1
          socket := Function.update s.socket s.nextAccept clientfd
          decorators := Function.update s.decorators s.nextAccept []
          lastUse := Function.update s.lastUse s.nextAccept e.now }
  | .error error =>
      (s.record (.constructorThrew error.identifier)).goOn
        (afterConstruct clientfd .indeterminate)

/-- `connections_[fd]` by itself, which makes a null entry where there is none. -/
def subscript (fd : Nat) (s : ServerState n) : ServerState n :=
  { s with
    connections :=
      if (s.connections.lookup fd).isNone then s.connections.insert fd none
      else s.connections }

/-- `connections_[clientfd] = conn`. -/
def setConnection (clientfd : Nat) (conn : Option Handle) (s : ServerState n) :
    ServerState n :=
  record (.accepted clientfd conn)
    { s with connections := s.connections.insert clientfd conn }

/-- `connections_[clientfd] = connected_->AddDecorators(conn)`.  The left side comes
first, so a call that throws leaves its entry behind. -/
def addDecorators (clientfd : Nat) (conn : Pointer) (e : Choice) (s : ServerState n) :
    Result n :=
  match conn with
  | .constructed raw =>
      match e.decorated with
      | .threw => some (.unwind, s.subscript clientfd)
      | .null => (s.setConnection clientfd none).goOn []
      | .stack decorators =>
          goOn []
            { s.setConnection clientfd (some { raw with level := decorators.length }) with
              decorators := Function.update s.decorators raw.accept decorators }
  | .indeterminate =>
      let read := { s with indeterminateRead := true }
      match e.decorated with
      | .threw => some (.unwind, read.subscript clientfd)
      | _ => (read.setConnection clientfd e.garbage).goOn []

/-- `memset(events, 0, num_threads_ * sizeof(struct epoll_event))`. -/
def clearEvents (s : ServerState n) : Result n :=
  goOn [] { s with events := s.events.map fun _ => .zero }

/-- `conn->ReadLock()`, and the task for `callback`. -/
def lockAndAdd (callback : Callback) (conn : Handle) : List Op :=
  [.readLock (.connection conn), .addTask (.lockCallAndUnlock callback conn)]

/-- `epoll_ctl(EPOLL_CTL_ADD)`, and the `ConnectionEstablished` task after it. -/
def epollAdd (clientfd : Nat) (conn : Pointer) (e : Choice) (s : ServerState n) :
    Result n :=
  if e.registered then
    let added := { s with epollSet := clientfd :: s.epollSet }
    match conn with
    | .constructed raw => added.goOn (lockAndAdd .connectionEstablished raw)
    | .indeterminate =>
        let read := { added with indeterminateRead := true }
        match e.garbage with
        | none => read.crash
        | some conn => read.goOn (lockAndAdd .connectionEstablished conn)
  else s.connectionFailed e []

/-- `executor_.Add`. -/
def addTask (task : Closure) (s : ServerState n) : Result n :=
  goOn [] { s with executor := s.executor ++ [task] }

/-- `connections_[fd]`, and the branch that the flags select if the entry is not
null. -/
def lookup (fd : Nat) (events : UInt32) (s : ServerState n) : Result n :=
  let entry := s.connections.lookup fd
  let branch := if entry.join.isSome then selectBranch events else none
  let looked :=
    { s.subscript fd with handled := s.handled ++ [Handling.dispatched entry branch] }
  match entry.join, branch with
  | some conn, some .hangup =>
      (looked.record (.hangup conn)).goOn
        [.addTask (.connectionTerminated conn), .shutdown conn]
  | some conn, some .error => looked.goOn (lockAndAdd .error conn)
  | some conn, some .dataReady => looked.goOn [.lock .connections, .find fd conn]
  | _, _ => looked.goOn []

/-- `connections_.find(fd) == connections_.end()`, under `connections_lock_`. -/
def find (fd : Nat) (conn : Handle) (s : ServerState n) : Result n :=
  if (s.connections.lookup fd).isNone then s.goOn [.unlock .connections false]
  else s.goOn (lockAndAdd .dataReady conn ++ [.unlock .connections false])

/-! ### `Server::ReapConnectionsEpoll` -/

/-- `const uint64_t max_idle = (uint64_t) max_idle_`. -/
def reapStart (s : ServerState n) : Result n :=
  s.goOn [.reapWait (UInt64.ofInt s.maxIdle.toInt)]

/-- The loop over `running_` and the wait in it, and the scope of `MutexLock lk`. -/
def reapWait (maxIdle : UInt64) (s : ServerState n) : Result n :=
  if s.running then
    s.goOn [.lock .connections, .reapTime maxIdle, .unlock .connections true,
      .reapWait maxIdle]
  else s.goOn []

/-- `const uint64_t tm = time(NULL)`. -/
def reapTime (maxIdle : UInt64) (e : Choice) (s : ServerState n) : Result n :=
  s.goOn [.reapNext maxIdle e.now none]

/-- The test of one entry: it is shut down, or idle for too long. -/
def due (maxIdle tm : UInt64) (conn : Handle) (s : ServerState n) : Bool :=
  s.isShutdownOf conn || (0 < s.maxIdle && tm - s.lastUse conn.accept > maxIdle)

/-- One turn of `for (std::pair<int, Connection*> s : connections_)`: the entry
after the one for `after`. -/
def reapNext (maxIdle tm : UInt64) (after : Option Nat) (s : ServerState n) : Result n :=
  match s.connections.next after with
  | none => s.goOn []
  | some (_, none) => s.crash
  | some (fd, some conn) =>
      if s.due maxIdle tm conn then
        s.goOn [.erase fd, .epollDel fd, .reapShutdown conn, .reapNext maxIdle tm (some fd)]
      else s.goOn [.reapNext maxIdle tm (some fd)]

/-- `if (!conn->IsShutdown())`, `conn->Shutdown()` and the callback after it. -/
def reapShutdown (conn : Handle) (s : ServerState n) : Result n :=
  if s.isShutdownOf conn then s.goOn []
  else
    (s.record (.expired conn)).goOn
      [.shutdown conn, .call .connectionTerminated conn]

/-! ### Tasks and callbacks -/

/-- What a task of the executor does; `Server::LockCallAndUnlock` is the first. -/
def taskOps : Closure → List Op
  | .lockCallAndUnlock callback conn =>
      [.readLock .connections, .call callback conn, .unlock (.connection conn) false,
        .unlock .connections true]
  | .connectionTerminated conn => [.call .connectionTerminated conn]
  | .shutdown conn => [.shutdown conn]

/-- A thread of the executor takes the first task, and afterwards the next. -/
def takeTask (s : ServerState n) : Result n :=
  match s.executor with
  | [] => none
  | task :: tasks => goOn (taskOps task ++ [.takeTask]) { s with executor := tasks }

/-- What an `OpenSSLConnection` does under `MutexLock l(ssl_mtx_)`. -/
def underSsl (accept : Nat) (ops : List Op) (s : ServerState n) : List Op :=
  if s.ssl then .lock (.ssl accept) :: ops ++ [.unlock (.ssl accept) true] else ops

/-- Calls of `Receive` or `Send` that reach the socket object. -/
def useOps (conn : Handle) (calls : Nat) (s : ServerState n) : List Op :=
  (List.replicate calls (s.underSsl conn.accept [.use conn])).flatten

/-- `last_use_ = time(NULL)`. -/
def use (conn : Handle) (e : Choice) (s : ServerState n) : Result n :=
  goOn [] { s with lastUse := Function.update s.lastUse conn.accept e.now }

/-- What user code does to the server, at once and by operations that follow.  Objects
are used, and `DeferredShutdown` is called on them, after they were given to it. -/
def perform (action : UserAction) (s : ServerState n) : Option (List Op × ServerState n) :=
  match action with
  | .setMaxIdle maxIdle => some ([], { s with maxIdle := maxIdle })
  | .shutdownServer => some ([], { s with running := false })
  | .deferredShutdown conn =>
      if s.Made conn then
        some ([], record (.deferred conn) { s with executor := s.executor ++ [.shutdown conn] })
      else none
  | .use conn => if s.Made conn then some (s.useOps conn 1, s) else none

/-- A callback is called. -/
def call (callback : Callback) (conn : Handle) (s : ServerState n) : Result n :=
  (s.record (.called callback conn)).goOn [.running callback conn]

/-- The next move of a callback that was called. -/
def callbackMove (callback : Callback) (conn : Handle) (e : Choice) (s : ServerState n) :
    Result n :=
  match e.handler with
  | .returns => s.goOn []
  | .throws => some (.unwind, s)
  | .acts action =>
      match s.perform action with
      | none => none
      | some (ops, s') => s'.goOn (ops ++ [.running callback conn])

/-- The next move of user code on its own thread. -/
def userCode (e : Choice) (s : ServerState n) : Result n :=
  match e.handler with
  | .acts action =>
      match s.perform action with
      | none => none
      | some (ops, s') => s'.goOn (ops ++ [.userCode])
  | _ => s.goOn [.userCode]

/-! ### `Shutdown` -/

/-- The body of `Shutdown()` after `Deregister()`, by class of the connection. -/
def shutdownBody (conn : Handle) (s : ServerState n) : List Op :=
  match conn.level with
  | 0 =>
      if s.ssl then [.lock (.connection conn), .delete conn]
      else [.lock (.connection conn), .closeSocket conn, .delete conn]
  | level + 1 =>
      match (s.decorators conn.accept)[level]? with
      | none => []
      | some decorator =>
          .lock (.connection conn) ::
            (if decorator.cls = .rangeReader then [.drain conn] else []) ++
            (if decorator.owned then [.shutdown { conn with level := level }] else []) ++
            [.delete conn]

/-- `Shutdown()`.  That of an `OpenSSLConnection` is all under `ssl_mtx_`. -/
def shutdownOps (conn : Handle) (s : ServerState n) : List Op :=
  if conn.level = 0 then s.underSsl conn.accept (.deregister conn :: s.shutdownBody conn)
  else .deregister conn :: s.shutdownBody conn

def shutdown (conn : Handle) (s : ServerState n) : Result n :=
  (s.record (.shutdownStarted conn)).goOn (s.shutdownOps conn)

/-- What `DequeueConnection` does for each entry of the connection. -/
def dequeueOps (fd : Nat) : List Op :=
  [.lock .connections, .erase fd, .epollDel fd, .unlock .connections true]

/-- `Connection::Deregister` and `Server::DequeueConnection`.  The loop over
`connections_` is taken to find all entries of the connection at once. -/
def deregister (conn : Handle) (s : ServerState n) : Result n :=
  goOn ((s.connections.keysWhere (· = some conn)).flatMap dequeueOps)
    { s with isShutdown := Function.update s.isShutdown conn true }

/-- `connections_.erase(fd)`. -/
def erase (fd : Nat) (s : ServerState n) : Result n :=
  goOn [] (record (.dequeued fd) { s with connections := s.connections.erase fd })

/-- `epoll_ctl(EPOLL_CTL_DEL)`, which fails for a descriptor not in the set. -/
def epollDel (fd : Nat) (e : Choice) (s : ServerState n) : Result n :=
  if fd ∈ s.epollSet then goOn [] { s with epollSet := s.epollSet.filter (· ≠ fd) }
  else s.connectionFailed e []

/-- `shutdown(socket_, SHUT_RDWR)` and `close(socket_)`, which also takes the
descriptor from the epoll set. -/
def closeSocket (conn : Handle) (s : ServerState n) : Result n :=
  let fd := s.socket conn.accept
  goOn []
    { s with
      openFds := s.openFds.filter (· ≠ fd)
      epollSet := s.epollSet.filter (· ≠ fd) }

/-- The loop of `RangeReaderDecorator::Shutdown`, if it ends. -/
def drain (conn : Handle) (e : Choice) (s : ServerState n) : Result n :=
  s.goOn (s.useOps conn e.turns ++ [.drained conn])

/-- It ends at the end of the range, or by an exception. -/
def drained (e : Choice) (s : ServerState n) : Result n :=
  if e.throws then some (.unwind, s) else s.goOn []

/-- `delete this`.  The lock of the object goes with it. -/
def delete (conn : Handle) (s : ServerState n) : Result n :=
  ((s.record (.destroyed conn)).setLock (.connection conn) .free).goOn []

/-! ### All operations -/

/-- What an operation of thread `t` does. -/
def exec (t : Tid n) (op : Op) (e : Choice) (s : ServerState n) : Result n :=
  match op with
  | .lock name => s.lock t name
  | .readLock name => s.readLock t name
  | .unlock name _ => s.unlock t name
  | .listenWhile => s.listenWhile
  | .epollWait => s.epollWait e
  | .forLoop n' nfds => s.forLoop n' nfds
  | .accept => s.accept e
  | .construct clientfd => s.construct clientfd e
  | .addDecorators clientfd conn => s.addDecorators clientfd conn e
  | .clearEvents => s.clearEvents
  | .epollAdd clientfd conn => s.epollAdd clientfd conn e
  | .addTask task => s.addTask task
  | .lookup fd events => s.lookup fd events
  | .find fd conn => s.find fd conn
  | .reapStart => s.reapStart
  | .reapWait maxIdle => s.reapWait maxIdle
  | .reapTime maxIdle => s.reapTime maxIdle e
  | .reapNext maxIdle tm after => s.reapNext maxIdle tm after
  | .reapShutdown conn => s.reapShutdown conn
  | .takeTask => s.takeTask
  | .call callback conn => s.call callback conn
  | .running callback conn => s.callbackMove callback conn e
  | .use conn => s.use conn e
  | .shutdown conn => s.shutdown conn
  | .deregister conn => s.deregister conn
  | .erase fd => s.erase fd
  | .epollDel fd => s.epollDel fd e
  | .closeSocket conn => s.closeSocket conn
  | .drain conn => s.drain conn e
  | .drained _ => s.drained e
  | .delete conn => s.delete conn
  | .userCode => s.userCode e

end ServerState

/-- Destructors of lock guards run when an exception passes, and a thread of the
executor swallows it and takes the next task. -/
def Op.survives : Op → Bool
  | .unlock _ destructor => destructor
  | .takeTask => true
  | _ => false

/-- The server with `n` threads for tasks. -/
def server (n : Nat) : Machine (Tid n) Op Choice (ServerState n) where
  exec := ServerState.exec
  survives := Op.survives

/-- What the threads of a server have still to do, and what they share. -/
abbrev ServerConfig (n : Nat) := Interleaving.Config (Tid n) Op (ServerState n)

/-- The server as `ListenEpoll` reaches its loop. -/
def ServerConfig.init (n serverfd : Nat) (ssl : Bool) (maxIdle : Int32) : ServerConfig n where
  prog
    | .listen => [.listenWhile]
    | .reaper => [.reapStart, .takeTask]
    | .worker _ => [.takeTask]
    | .user => [.userCode]
  shared := .init n serverfd ssl maxIdle

/-! ### Schedules -/

/-- The thread for tasks of a server that has one. -/
abbrev Tid.only : Tid 1 := .worker 0

/-- The threads for tasks of a server that has two. -/
abbrev Tid.first : Tid 2 := .worker 0

abbrev Tid.second : Tid 2 := .worker 1

/-- Which thread takes each step, and what the environment decides in it. -/
abbrev Schedule (n : Nat) := List (Tid n × Choice)

/-- `k` steps of a thread in which the environment has nothing to decide. -/
def steps {n : Nat} (t : Tid n) (k : Nat) : Schedule n := List.replicate k (t, {})

/-- One step of a thread, and what the environment decides in it. -/
def choose {n : Nat} (t : Tid n) (e : Choice) : Schedule n := [(t, e)]

/-- `ListenEpoll` from the loop over `running_` on: a batch of one event of the
listening descriptor, handled up to the constructed connection at `clientfd`
and its `ConnectionEstablished` task, and the end of the batch. -/
def acceptOne {n : Nat} (serverfd clientfd : Nat) : Schedule n :=
  steps .listen 1 ++ choose .listen { ready := some [⟨serverfd, EPOLLIN⟩] } ++
    steps .listen 1 ++ choose .listen { accepted := some clientfd } ++ steps .listen 10

end LibSiot
