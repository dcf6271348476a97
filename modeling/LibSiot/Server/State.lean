/-
Module: LibSiot.Server.State
Purpose: The data of a running server: its threads and the operations they have
  still to do, connection handles, executor tasks, the kernel's side of epoll,
  and the history that properties of whole runs speak about.
Trusted boundary: human-reviewed model
Main exports: Tid, Handle, Closure, EpollEvent, Op, Choice, Event, ServerState
-/
import LibSiot.Library.Interleaving
import LibSiot.Library.OrderedMap
import LibSiot.Library.RwLock
import LibSiot.OpenSSLConnection

namespace LibSiot

/-- The threads: the one in `Listen()`, the executor thread that runs
`ReapConnectionsEpoll`, the `n` others of the executor, and one of the user. -/
inductive Tid (n : Nat) where
  | listen
  | reaper
  | worker (i : Fin n)
  | user
deriving DecidableEq, Fintype, Repr

/-! ### Connections -/

/-- A connection object: the accepted connection it belongs to, and its level in
the stack of decorators around the socket object, which is level 0. -/
structure Handle where
  accept : Nat
  level : Nat
deriving DecidableEq, Repr

inductive DecoratorClass where
  | lineBuffer
  | acknowledgement
  | rangeReader
deriving DecidableEq, Repr

/-- One decorator, and whether it owns what it wraps. -/
structure Decorator where
  cls : DecoratorClass
  owned : Bool
deriving DecidableEq, Repr

/-- A pointer to a connection: one that a constructor call just gave, or the
variable `conn` that no constructor assigned. -/
inductive Pointer where
  | constructed (conn : Handle)
  | indeterminate
deriving DecidableEq, Repr

/-! ### Tasks -/

/-- The methods of `ConnectionCallback` that are given a connection. -/
inductive Callback where
  | connectionEstablished
  | dataReady
  | error
  | connectionTerminated
deriving DecidableEq, Repr

/-- What is queued on `executor_`. -/
inductive Closure where
  | lockCallAndUnlock (callback : Callback) (conn : Handle)
  | connectionTerminated (conn : Handle)
  | shutdown (conn : Handle)
deriving DecidableEq, Repr

/-! ### Events of epoll -/

def EPOLLIN : UInt32 := 0x001

def EPOLLERR : UInt32 := 0x008

def EPOLLHUP : UInt32 := 0x010

def EPOLLRDHUP : UInt32 := 0x2000

/-- The fields of `struct epoll_event` that the server uses. -/
structure EpollEvent where
  fd : Nat
  events : UInt32
deriving DecidableEq, Repr

/-- What `memset(events, 0, ...)` leaves of an event. -/
def EpollEvent.zero : EpollEvent := { fd := 0, events := 0 }

/-- The branches of `ListenEpoll` for an event of a client. -/
inductive Branch where
  | hangup
  | error
  | dataReady
deriving DecidableEq, Repr

/-- The branch that flags select, for a connection that is there. -/
def selectBranch (events : UInt32) : Option Branch :=
  if events &&& (EPOLLHUP ||| EPOLLRDHUP) ≠ 0 then some .hangup
  else if events &&& EPOLLERR ≠ 0 then some .error
  else if events &&& EPOLLIN ≠ 0 then some .dataReady
  else none

/-! ### Operations -/

/-- The locks: `connections_lock_`, the `mtx_` of each connection object, and the
`ssl_mtx_` of each socket object that is an `OpenSSLConnection`. -/
inductive LockName where
  | connections
  | connection (conn : Handle)
  | ssl (accept : Nat)
deriving DecidableEq, Repr

/-- The atomic operations that the functions of the server are made of, in the
order in which the functions appear in the source. -/
inductive Op where
  | lock (name : LockName)
  | readLock (name : LockName)
  | unlock (name : LockName) (destructor : Bool)
  | listenWhile
  | epollWait
  | forLoop (n nfds : Nat)
  | accept
  | construct (clientfd : Nat)
  | addDecorators (clientfd : Nat) (conn : Pointer)
  | clearEvents
  | epollAdd (clientfd : Nat) (conn : Pointer)
  | addTask (task : Closure)
  | lookup (fd : Nat) (events : UInt32)
  | find (fd : Nat) (conn : Handle)
  | reapStart
  | reapWait (maxIdle : UInt64)
  | reapTime (maxIdle : UInt64)
  | reapNext (maxIdle tm : UInt64) (after : Option Nat)
  | reapShutdown (conn : Handle)
  | takeTask
  | call (callback : Callback) (conn : Handle)
  | running (callback : Callback) (conn : Handle)
  | use (conn : Handle)
  | shutdown (conn : Handle)
  | deregister (conn : Handle)
  | erase (fd : Nat)
  | epollDel (fd : Nat)
  | closeSocket (conn : Handle)
  | drain (conn : Handle)
  | drained (conn : Handle)
  | delete (conn : Handle)
  | userCode
deriving DecidableEq, Repr

/-! ### Choices of the environment -/

/-- What user code does to the server: in a callback, or on a thread of its own.  It uses
a connection by a `Receive` or a `Send` that reaches the socket object. -/
inductive UserAction where
  | setMaxIdle (maxIdle : Int32)
  | shutdownServer
  | deferredShutdown (conn : Handle)
  | use (conn : Handle)
deriving DecidableEq, Repr

/-- The next move of a callback. -/
inductive HandlerMove where
  | returns
  | throws
  | acts (action : UserAction)
deriving DecidableEq, Repr

/-- How `AddDecorators` ends: with a null pointer, or with the given decorators
around its argument, innermost first. -/
inductive Decorated where
  | threw
  | null
  | stack (decorators : List Decorator)
deriving DecidableEq, Repr

/-- All that the kernel, OpenSSL, the clock and user code decide.  An operation
looks only at the fields it asks for. -/
structure Choice where
  /-- The result of `epoll_wait`, if it is not -1. -/
  ready : Option (List EpollEvent) := some []
  /-- `errno` after a failed `epoll_wait` is one of those that are retried. -/
  retry : Bool := true
  /-- The result of `accept`, if it is not -1. -/
  accepted : Option Nat := none
  ssl : SslReplies := {}
  /-- What happens to be in the variable `conn` that no constructor assigned. -/
  garbage : Option Handle := none
  decorated : Decorated := .stack []
  /-- `epoll_ctl(EPOLL_CTL_ADD)` succeeds. -/
  registered : Bool := true
  /-- `ConnectionFailed`, or the `Receive` of a draining loop, throws. -/
  throws : Bool := false
  /-- The turns of a draining loop whose `Receive` reaches the socket object. -/
  turns : Nat := 0
  handler : HandlerMove := .returns
  now : UInt64 := 0
deriving DecidableEq, Repr

/-! ### History -/

/-- What happened to an event when its turn came: `accept` was called; or the
entry of its descriptor was looked up, and a branch entered or none. -/
inductive Handling where
  | accepted
  | dispatched (entry : Option (Option Handle)) (branch : Option Branch)
deriving DecidableEq, Repr

/-- Steps of a run that properties speak about. -/
inductive Event where
  | constructorThrew (identifier : String)
  | accepted (fd : Nat) (conn : Option Handle)
  | dequeued (fd : Nat)
  | hangup (conn : Handle)
  | expired (conn : Handle)
  | deferred (conn : Handle)
  | called (callback : Callback) (conn : Handle)
  | shutdownStarted (conn : Handle)
  | destroyed (conn : Handle)
deriving DecidableEq, Repr

/-! ### The shared state -/

/-- What the threads share. -/
structure ServerState (n : Nat) where
  serverfd : Nat
  /-- `SetServerSSLContext` was called. -/
  ssl : Bool
  running : Bool
  maxIdle : Int32
  connections : OrderedMap Nat (Option Handle)
  locks : LockName → RwLock (Tid n)
  executor : List Closure
  /-- The descriptors in the epoll set, and all open ones. -/
  epollSet : List Nat
  openFds : List Nat
  /-- The array `events` of `ListenEpoll`. -/
  events : List EpollEvent
  /-- Connection objects made so far are those of `accept` numbers below. -/
  nextAccept : Nat
  socket : Nat → Nat
  decorators : Nat → List Decorator
  isShutdown : Handle → Bool
  lastUse : Nat → UInt64
  /-- The events of the last `epoll_wait`, those read from the array since, and
  what was done about them. -/
  batch : List EpollEvent
  examined : List EpollEvent
  handled : List Handling
  /-- The steps of the run so far, the last one first. -/
  trace : List Event
  /-- The variable `conn` was read without having been assigned. -/
  indeterminateRead : Bool
  /-- A null pointer was dereferenced. -/
  nullDereference : Bool

namespace ServerState

variable {n : Nat}

/-- A listening server, before any connection. -/
def init (n serverfd : Nat) (ssl : Bool) (maxIdle : Int32) : ServerState n :=
  { serverfd := serverfd
    ssl := ssl
    running := true
    maxIdle := maxIdle
    connections := .empty
    locks := fun _ => .free
    executor := []
    epollSet := [serverfd]
    openFds := [serverfd]
    events := List.replicate n .zero
    nextAccept := 0
    socket := fun _ => 0
    decorators := fun _ => []
    isShutdown := fun _ => false
    lastUse := fun _ => 0
    batch := []
    examined := []
    handled := []
    trace := []
    indeterminateRead := false
    nullDereference := false }

/-- Note a step in the history. -/
def record (event : Event) (s : ServerState n) : ServerState n :=
  { s with trace := event :: s.trace }

/-- The object was deleted. -/
def Destroyed (conn : Handle) (s : ServerState n) : Prop :=
  .destroyed conn ∈ s.trace

instance (conn : Handle) (s : ServerState n) : Decidable (s.Destroyed conn) :=
  inferInstanceAs (Decidable (_ ∈ s.trace))

/-- `conn->IsShutdown()`.  A decorator asks the connection it wraps. -/
def isShutdownOf (conn : Handle) (s : ServerState n) : Bool :=
  s.isShutdown { conn with level := 0 }

/-- The object was made and handed to user code: it is a socket object, or one
of the decorators around it. -/
def Made (conn : Handle) (s : ServerState n) : Prop :=
  conn.accept < s.nextAccept ∧ conn.level ≤ (s.decorators conn.accept).length

instance (conn : Handle) (s : ServerState n) : Decidable (s.Made conn) :=
  inferInstanceAs (Decidable (_ ∧ _))

end ServerState

end LibSiot
