/-
Module: LibSiot.Server.Lifetime
Purpose: The life of a server from its constructor to its destructor, as far as
  its own two descriptors go: the set-up of `ListenEpoll` with its four error
  paths, and the system calls made on the descriptors.
Trusted boundary: human-reviewed model
Main exports: Syscall, LoopCall, ListenOutcome, ServerDescriptors,
  ServerDescriptors.listenEpoll, ServerDescriptors.lifetime
-/
import Mathlib

namespace LibSiot

/-- A descriptor that the server was given: by the how manieth of its successful
calls of `socket` and `epoll_create`.  The kernel may give a closed number
again, but not for the same descriptor. -/
abbrev Descriptor := Nat

/-- The system calls of the server that return or name one of its descriptors.
`socket` and `epollCreate` are those that succeed. -/
inductive Syscall where
  | socket (fd : Descriptor)
  | epollCreate (fd : Descriptor)
  | bind (fd : Descriptor)
  | listen (fd : Descriptor)
  | accept (fd : Descriptor)
  | epollCtl (epollfd : Descriptor)
  | epollWait (epollfd : Descriptor)
  | shutdown (fd : Descriptor)
  | close (fd : Descriptor)
deriving DecidableEq, Repr

namespace Syscall

/-- The call gave the server this descriptor. -/
def obtained : Syscall → Option Descriptor
  | socket fd => some fd
  | epollCreate fd => some fd
  | _ => none

/-- The descriptor the call is made on. -/
def madeOn : Syscall → Option Descriptor
  | socket _ => none
  | epollCreate _ => none
  | bind fd => some fd
  | listen fd => some fd
  | accept fd => some fd
  | epollCtl fd => some fd
  | epollWait fd => some fd
  | shutdown fd => some fd
  | close fd => some fd

end Syscall

/-- What the event loop, the reaper and connections do with the descriptors of
the server: `epoll_ctl` stands for adding and removing descriptors of clients. -/
inductive LoopCall where
  | epollWait
  | accept
  | epollCtl
deriving DecidableEq, Repr

/-- How one call of `Listen()` goes.  In the last case the set-up succeeds, and
the loop runs until `Shutdown()`. -/
inductive ListenOutcome where
  | bindFails
  | listenFails
  | epollCreateFails
  | epollCtlFails
  | runs (calls : List LoopCall)
deriving DecidableEq, Repr

/-- The fields of class `Server` that its set-up and its end use, and the system
calls made so far, the first one first.  `epollfd` is `none` before the first
`epoll_create` and when it returned -1. -/
structure ServerDescriptors where
  serverfd : Descriptor
  epollfd : Option Descriptor
  /-- `info_` is not null. -/
  info : Bool
  running : Bool
  /-- The number of descriptors obtained so far. -/
  obtained : Nat
  calls : List Syscall
deriving DecidableEq, Repr

namespace ServerDescriptors

/-- One more system call. -/
def syscall (call : Syscall) (s : ServerDescriptors) : ServerDescriptors :=
  { s with calls := s.calls ++ [call] }

/-- The constructor, when `c_str2addrinfo` and `socket` succeed. -/
def new : ServerDescriptors :=
  { serverfd := 0, epollfd := none, info := true, running := true, obtained := 1,
    calls := [.socket 0] }

/-- `epollfd_ = epoll_create(num_threads_)`, when it succeeds. -/
def epollCreate (s : ServerDescriptors) : ServerDescriptors :=
  syscall (.epollCreate s.obtained)
    { s with epollfd := some s.obtained, obtained := s.obtained + 1 }

/-- One call of the loop.  `epollfd_` was set before it. -/
def loopCall (s : ServerDescriptors) (call : LoopCall) : ServerDescriptors :=
  match call with
  | .accept => s.syscall (.accept s.serverfd)
  | .epollWait => (s.epollfd.map fun fd => s.syscall (.epollWait fd)).getD s
  | .epollCtl => (s.epollfd.map fun fd => s.syscall (.epollCtl fd)).getD s

/-- `while (running_)`, until `Shutdown()` sets `running_` to false.  Nothing
ever sets it back: the loop of a later `Listen()` is not entered. -/
def loop (calls : List LoopCall) (s : ServerDescriptors) : ServerDescriptors :=
  if s.running then { calls.foldl loopCall s with running := false } else s

/-- `Server::ListenEpoll`.  Each failure ends it with an exception. -/
def listenEpoll (outcome : ListenOutcome) (s : ServerDescriptors) : ServerDescriptors :=
  let bound := s.syscall (.bind s.serverfd)
  let listening := bound.syscall (.listen s.serverfd)
  let created := listening.epollCreate
  let registered := created.loopCall .epollCtl
  match outcome with
  | .bindFails => { bound.syscall (.close s.serverfd) with info := false }
  | .listenFails => listening
  | .epollCreateFails => { listening with epollfd := none }
  | .epollCtlFails => registered
  | .runs calls => registered.loop calls

/-- The destructor. -/
def destroy (s : ServerDescriptors) : ServerDescriptors :=
  syscall (.close s.serverfd) (syscall (.shutdown s.serverfd) { s with info := false })

theorem destroy_calls (s : ServerDescriptors) :
    s.destroy.calls = s.calls ++ [.shutdown s.serverfd, .close s.serverfd] := by
  simp [destroy, syscall]

/-- A server that is made, listens some times and is destroyed. -/
def lifetime (outcomes : List ListenOutcome) : ServerDescriptors :=
  (outcomes.foldl (fun s outcome => s.listenEpoll outcome) new).destroy

end ServerDescriptors

end LibSiot
