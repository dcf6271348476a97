/-
Module: LibSiot.Proofs.Server.Pool
Purpose: The entries of the pool of connections in runs of the whole server:
  they are exactly the registrations not dequeued since, as long as no entry is
  looked up with the subscript operator that is not there.
Trusted boundary: none
Main exports: ServerState.current, ServerState.PoolReal, ServerState.InPool,
  ServerConfig.poolReal_iff
-/
import LibSiot.Server.Rules

namespace LibSiot

open Interleaving (Flow)
open Interleaving.Machine (pushes)

/-- The operation does not use the variable `conn` unassigned. -/
def Op.assigned : Op → Bool
  | .addDecorators _ .indeterminate => false
  | .epollAdd _ .indeterminate => false
  | _ => true

theorem Op.assigned_of_common {op : Op} (common : op.common = true) : op.assigned = true := by
  cases op <;> first | rfl | cases common

/-- The descriptor for which the entry is asked for and nothing is stored in it: that of
a client event, or of a connection for which `AddDecorators` throws. -/
def Op.subscripts (e : Choice) : Op → Option Nat
  | .lookup fd _ => some fd
  | .addDecorators clientfd _ => if e.decorated = .threw then some clientfd else none
  | _ => none

namespace ServerState

variable {n : Nat} {t : Tid n} {e : Choice} {s s' : ServerState n} {op : Op}
  {flow : Flow Op}

/-- What the history says is registered for a descriptor: what the last accept
that gave it registered, unless that was dequeued since. -/
def current : List Event → Nat → Option Handle
  | [], _ => none
  | .accepted fd' conn :: trace, fd => if fd = fd' then conn else current trace fd
  | .dequeued fd' :: trace, fd => if fd = fd' then none else current trace fd
  | _ :: trace, fd => current trace fd

/-- Every entry is the connection last registered for its descriptor, none is
null, and none was dereferenced as null. -/
structure PoolReal (s : ServerState n) : Prop where
  real : ∀ fd value, s.connections.lookup fd = some value →
    ∃ conn, value = some conn ∧ current s.trace fd = some conn
  notNull : s.nullDereference = false

/-- The pool and the history agree for every descriptor. -/
def Synced (s : ServerState n) : Prop :=
  ∀ fd, s.connections.lookup fd = (current s.trace fd).map some

/-- What is assumed of the service: the constructor succeeds, and
`AddDecorators` does not return null. -/
def Assumed (op : Op) (e : Choice) (s : ServerState n) : Prop :=
  (op.constructs = true → s.ssl = true → OpenSSLConnection.construct e.ssl = .ok ()) ∧
    (op.decorates = true → e.decorated ≠ .null)

instance (op : Op) (e : Choice) (s : ServerState n) : Decidable (Assumed op e s) :=
  inferInstanceAs (Decidable (_ ∧ _))

/-- An entry that is asked for, with nothing stored in it, is there. -/
def SubscriptHits (op : Op) (e : Choice) (s : ServerState n) : Prop :=
  ∀ fd ∈ op.subscripts e, s.connections.lookup fd ≠ none

instance (op : Op) (e : Choice) (s : ServerState n) : Decidable (SubscriptHits op e s) :=
  inferInstanceAs (Decidable (∀ fd ∈ op.subscripts e, _))

/-! ### One step -/

/-- Only a constructor that threw leaves the variable unassigned. -/
theorem Rule.assigned (rule : Rule t e s op flow s') (assumed : Assumed op e s) :
    ∀ new ∈ pushes flow, new.assigned = true := by
  have common := rule.common_of_pushed
  cases rule with
  | constructorThrew clientfd error encrypted threw =>
      rw [assumed.1 rfl encrypted] at threw
      cases threw
  | takeTask | callbackUses | shutdown | deregister | drain | userUses =>
      exact fun new member => Op.assigned_of_common (common rfl new member)
  | _ => exact List.all_eq_true.mp rfl

theorem setConnection_synced {fd : Nat} {conn : Handle} (synced : Synced s) :
    Synced (s.setConnection fd (some conn)) := by
  intro fd'
  simp only [setConnection, record, OrderedMap.lookup_insert, current]
  split
  · rfl
  · exact synced fd'

theorem subscript_eq {fd : Nat} (there : s.connections.lookup fd ≠ none) :
    s.subscript fd = s := by
  have some : ¬ (s.connections.lookup fd).isNone = true := by simpa using there
  rw [subscript, if_neg some]

/-- The pool follows the history, unless the subscript operator makes an entry. -/
theorem Rule.synced (rule : Rule t e s op flow s') (determinate : op.assigned = true)
    (assumed : Assumed op e s) (hits : SubscriptHits op e s) (synced : Synced s) :
    Synced s' := by
  cases rule with
  | decoratorsThrew clientfd raw threw =>
      rw [subscript_eq (hits clientfd (if_pos threw))]
      exact synced
  | decoratedNull clientfd raw null => exact absurd null (assumed.2 rfl)
  | decorated clientfd raw decorators returned => exact setConnection_synced synced
  | indeterminateThrew => cases determinate
  | indeterminateDecorated => cases determinate
  | lookupMissing fd events entry => exact absurd entry (hits fd rfl)
  | erase fd =>
      intro fd'
      simp only [record, OrderedMap.lookup_erase, current]
      split
      · rfl
      · exact synced fd'
  | _ => exact synced

theorem lookup_subscript {fd : Nat} (missing : s.connections.lookup fd = none) :
    (s.subscript fd).connections.lookup fd = some none := by
  rw [subscript, if_pos (by rw [missing]; rfl), OrderedMap.lookup_insert, if_pos rfl]

/-- An operation that asks for an entry that is not there leaves a null one. -/
theorem exec_of_subscripts (t : Tid n) {fd : Nat} (subscripts : fd ∈ op.subscripts e)
    (missing : s.connections.lookup fd = none) :
    ∃ flow s', exec t op e s = some (flow, s') ∧ s'.connections.lookup fd = some none := by
  cases op with
  | lookup fd' events =>
      cases subscripts
      refine ⟨.next [], { s.subscript fd with handled := s.handled ++ [.dispatched none none] },
        ?_, lookup_subscript missing⟩
      simp [exec, lookup, missing, goOn]
  | addDecorators clientfd conn =>
      rw [Op.subscripts] at subscripts
      split at subscripts
      · rename_i threw
        cases subscripts
        cases conn with
        | constructed raw =>
            exact ⟨.unwind, s.subscript fd, by simp [exec, addDecorators, threw],
              lookup_subscript missing⟩
        | indeterminate =>
            refine ⟨.unwind, subscript fd { s with indeterminateRead := true }, ?_,
              lookup_subscript missing⟩
            simp [exec, addDecorators, threw]
      · cases subscripts
  | _ => cases subscripts

/-- With the pool following the history, no pointer is null. -/
theorem Rule.notNull (rule : Rule t e s op flow s') (determinate : op.assigned = true)
    (synced : Synced s) (notNull : s.nullDereference = false) :
    s'.nullDereference = false := by
  cases rule with
  | indeterminateNull => cases determinate
  | reapNull maxIdle tm after fd entry =>
      have null := (OrderedMap.lookup_of_next entry).1
      rw [synced fd] at null
      simp at null
  | _ => exact notNull

end ServerState

namespace ServerConfig

open ServerState
open Interleaving.Machine (AllOps)

variable {n : Nat}

/-- The invariant behind the pool: it follows the history, no null pointer was
used, and no thread is about to use the unassigned variable. -/
structure PoolInvariant (c : ServerConfig n) : Prop where
  assigned : AllOps (fun _ _ op => op.assigned = true) c
  synced : Synced c.shared
  notNull : c.shared.nullDereference = false

theorem PoolInvariant.init (serverfd : Nat) (ssl : Bool) (maxIdle : Int32) :
    PoolInvariant (init n serverfd ssl maxIdle) where
  assigned := forall_init rfl rfl (fun _ => rfl) rfl
  synced _ := rfl
  notNull := rfl

theorem PoolInvariant.step {c c' : ServerConfig n} {t : Tid n} {e : Choice}
    (invariant : PoolInvariant c) (assumed : Next Assumed c t e)
    (hits : Next SubscriptHits c t e)
    (taken : (server n).step t e c = some c') : PoolInvariant c' := by
  obtain ⟨op, rest, flow, program, rule, _⟩ := rule_of_step taken
  have determinate := invariant.assigned t op (program ▸ List.mem_cons_self)
  refine ⟨?_, ?_, ?_⟩
  · refine invariant.assigned.step taken ?_ fun _ _ _ holds => holds
    intro op ops rest program _ executed new member
    exact (rule_of_exec executed).assigned (assumed.of_prog program) new member
  · exact rule.synced determinate (assumed.of_prog program) (hits.of_prog program)
      invariant.synced
  · exact rule.notNull determinate invariant.synced invariant.notNull

theorem PoolInvariant.real {c : ServerConfig n} (invariant : PoolInvariant c) :
    PoolReal c.shared where
  real fd value entry := by
    rw [invariant.synced fd] at entry
    obtain ⟨conn, registered, rfl⟩ := Option.map_eq_some_iff.mp entry
    exact ⟨conn, rfl, registered⟩
  notNull := invariant.notNull

/-- Asking for an entry that is not there makes a null one. -/
theorem subscript_needed {c : ServerConfig n} {t : Tid n} {e : Choice}
    (real : ∀ c', (server n).step t e c = some c' → PoolReal c'.shared) :
    Next SubscriptHits c t e := by
  rw [Next]
  split
  · trivial
  · rename_i op rest program
    intro fd subscripts missing
    obtain ⟨flow, s', executed, made⟩ := exec_of_subscripts t subscripts missing
    obtain ⟨conn, null, _⟩ :=
      (real _ ((server n).step_of_exec program executed)).real fd none made
    cases null

/-- In runs of a server whose constructors succeed and whose `AddDecorators` never
returns null, under any interleaving: every entry of the pool is in every state
the connection last registered and not dequeued since, and the reaper never
dereferences a null handle, exactly if no client event is ever handled for a
descriptor without an entry, and `AddDecorators` does not throw for one. -/
theorem poolReal_iff (serverfd : Nat) (ssl : Bool) (maxIdle : Int32)
    (schedule : Schedule n)
    (assumed : (server n).Along (Next Assumed) schedule (init n serverfd ssl maxIdle)) :
    (server n).Always (fun c => PoolReal c.shared) schedule (init n serverfd ssl maxIdle) ↔
      (server n).Along (Next SubscriptHits) schedule
        (init n serverfd ssl maxIdle) := by
  constructor
  · exact Interleaving.Machine.along_of_always (fun _ => True) (fun _ _ _ _ _ _ _ => trivial)
      (fun c t e _ real => subscript_needed real) trivial
  · intro hits
    exact Interleaving.Machine.always_of_invariant PoolInvariant
      (fun c t e c' invariant guard taken => invariant.step guard.1 guard.2 taken)
      (fun c invariant => invariant.real) (PoolInvariant.init serverfd ssl maxIdle)
      (assumed.and hits)

/-- A connection is accepted, data arrives on it, and `DataReady` is queued. -/
def dataReadyRun : Schedule 1 :=
  acceptOne 3 5 ++ steps .listen 1 ++ choose .listen { ready := some [⟨5, EPOLLIN⟩] } ++
    steps .listen 8

theorem poolReal_iff_dataReady :
    (server 1).Always (fun c => PoolReal c.shared) dataReadyRun (init 1 3 false (-1)) := by
  have assumed : (server 1).Along (Next Assumed) dataReadyRun (init 1 3 false (-1)) := by decide
  exact (poolReal_iff 3 false (-1) dataReadyRun assumed).mpr (by decide)

/-- The handler of a connection defers its shutdown, an event of the connection
is returned, and the shutdown takes the connection from the pool before the
event is handled.  The lookup puts a null entry there, and the reaper
dereferences it. -/
def staleEventRun : Schedule 1 :=
  acceptOne 3 5 ++ steps .only 3 ++
    choose .only { handler := .acts (.deferredShutdown ⟨0, 0⟩) } ++
    steps .only 3 ++ steps .listen 1 ++
    choose .listen { ready := some [⟨5, EPOLLIN⟩] } ++ steps .only 8 ++
    steps .listen 2 ++ steps .reaper 5

theorem poolReal_fails :
    (server 1).Along (Next Assumed) staleEventRun (init 1 3 false (-1)) ∧
      ∃ c, (server 1).run staleEventRun (init 1 3 false (-1)) = some c ∧
        c.shared.connections.lookup 5 = some none ∧ c.shared.nullDereference = true ∧
        ¬ PoolReal c.shared := by
  refine ⟨by decide, _, rfl, rfl, rfl, fun real => ?_⟩
  exact absurd real.notNull (by decide)

end ServerConfig

end LibSiot
