/-
Module: LibSiot.Proofs.Server.Removal
Purpose: How a connection leaves the pool: what a thread has still to do between
  the decision to shut a connection down and the removal of its entry.
Trusted boundary: none
Main exports: Op.reaps, ServerConfig.Going,
  ServerConfig.Numbered.going_continuation
-/
import LibSiot.Proofs.Server.NewConnection

namespace LibSiot

open Interleaving (Flow)
open Interleaving.Machine (pushes)

namespace Op

/-- The operation is one of `ReapConnectionsEpoll` itself. -/
def reaps : Op → Bool
  | .reapStart => true
  | .reapWait _ => true
  | .reapTime _ => true
  | .reapNext _ _ _ => true
  | .reapShutdown _ => true
  | _ => false

theorem not_reaps_of_common {op : Op} (common : op.common = true) : op.reaps = false := by
  cases op <;> first | rfl | cases common

end Op

namespace ServerState

variable {n : Nat} {t : Tid n} {e : Choice} {s s' : ServerState n} {op : Op}
  {flow : Flow Op}

/-! ### How operations on the way go on -/

/-- Only `ReapConnectionsEpoll` does what it does. -/
theorem Rule.reaped (rule : Rule t e s op flow s') {new : Op} (member : new ∈ pushes flow)
    (reaps : new.reaps = true) : op.reaps = true := by
  have common := fun spreads => rule.common_of_pushed spreads _ member
  cases rule with
  | reapStart | reapWaited | reapTime | reapDue | reapKept => rfl
  | takeTask | callbackUses | shutdown | deregister | drain | userUses =>
      rw [Op.not_reaps_of_common (common rfl)] at reaps
      cases reaps
  | _ => exact absurd reaps (List.any_eq_false.mp rfl _ member)

theorem Rule.addTask_flow {task : Closure} (rule : Rule t e s (.addTask task) flow s') :
    flow = .next [] := by
  cases rule
  rfl

theorem Rule.readLock_flow {name : LockName} (rule : Rule t e s (.readLock name) flow s') :
    flow = .next [] := by
  cases rule
  rfl

theorem Rule.shutdown_flow {conn : Handle} (rule : Rule t e s (.shutdown conn) flow s') :
    flow = .next (s.shutdownOps conn) := by
  cases rule
  rfl

theorem Rule.deregister_flow {conn : Handle} (rule : Rule t e s (.deregister conn) flow s') :
    flow = .next ((s.connections.keysWhere (· = some conn)).flatMap dequeueOps) := by
  cases rule
  rfl

theorem Rule.erase_state {fd : Nat} (rule : Rule t e s (.erase fd) flow s') :
    flow = .next [] ∧
      s' = record (.dequeued fd) { s with connections := s.connections.erase fd } := by
  cases rule
  exact ⟨rfl, rfl⟩

/-- The reaper decides on a connection right after it erased the entry that it met. -/
theorem Rule.reaps_split (rule : Rule t e s op flow s') {pre between : List Op} {conn : Handle}
    (pushed : pushes flow = pre ++ .reapShutdown conn :: between) :
    s' = s ∧ ∃ fd maxIdle tm after, op = .reapNext maxIdle tm after ∧
      s.connections.lookup fd = some (some conn) ∧ pre = [.erase fd, .epollDel fd] ∧
        between = [.reapNext maxIdle tm (some fd)] := by
  have decides : ServerState.decides (.reapShutdown conn) = true := rfl
  have member : .reapShutdown conn ∈ pushes flow :=
    pushed ▸ List.mem_append_right _ List.mem_cons_self
  have common := fun spreads => rule.common_of_pushed spreads _ member
  cases rule with
  | reapDue maxIdle tm after fd other entry due =>
      have there : conn = other := by simpa [pushes] using member
      subst there
      rcases pre with _ | ⟨first, _ | ⟨second, pre⟩⟩
      · cases pushed
      · cases pushed
      · simp only [pushes, List.cons_append, List.cons.injEq] at pushed
        obtain ⟨rfl, rfl, pushed⟩ := pushed
        obtain ⟨rfl, rfl⟩ := split_first (by simp) pushed
        exact ⟨rfl, fd, maxIdle, tm, after, rfl, (OrderedMap.lookup_of_next entry).1, rfl, rfl⟩
  | takeTask | callbackUses | shutdown | deregister | drain | userUses => cases common rfl
  | _ => exact absurd decides (List.any_eq_false.mp rfl _ member)

end ServerState

namespace ServerConfig

open ServerState

variable {n : Nat}

/-- A thread is about to take the entry of a connection from the pool, and does nothing
before that but queue a task and wait for `connections_lock_` and `ssl_mtx_`. -/
inductive Going (fd : Nat) (conn : Handle) : List Op → Prop where
  | addTask {task : Closure} {ops : List Op} (later : Going fd conn ops) :
      Going fd conn (.addTask task :: ops)
  | lock {ops : List Op} (later : Going fd conn ops) : Going fd conn (.lock .connections :: ops)
  | ssl {accept : Nat} {ops : List Op} (later : Going fd conn ops) :
      Going fd conn (.lock (.ssl accept) :: ops)
  | shutdown (ops : List Op) : Going fd conn (.shutdown conn :: ops)
  | deregister (ops : List Op) : Going fd conn (.deregister conn :: ops)
  | erase (ops : List Op) : Going fd conn (.erase fd :: ops)

variable {c c' : ServerConfig n} {t : Tid n} {e : Choice} {op : Op} {rest : List Op}
  {flow : Flow Op}

namespace Numbered

/-- A thread goes on towards the entry, until it erases it. -/
theorem going_continuation (inv : Numbered c) (taken : Taken c c' t e op rest flow) {fd : Nat}
    {conn : Handle} (going : Going fd conn (c.prog t))
    (entry : c.shared.connections.lookup fd = some (some conn)) (other : op ≠ .erase fd) :
    Going fd conn (c'.prog t) := by
  rw [taken.self]
  have rule := taken.rule
  rw [taken.program] at going
  cases going with
  | addTask later => rwa [rule.addTask_flow]
  | lock later | ssl later => rwa [rule.lock_flow]
  | shutdown =>
      rw [rule.shutdown_flow]
      rcases shutdownOps_cases conn c.shared with plain | ⟨_, _, guarded⟩
      · rw [plain]
        exact .deregister _
      · rw [guarded]
        exact .ssl (.deregister _)
  | deregister =>
      have alone : c.shared.connections.keysWhere (· = some conn) = [fd] := by
        apply OrderedMap.keysWhere_eq_singleton entry (decide_eq_true rfl)
        intro fd' value entry' same
        rw [of_decide_eq_true same] at entry'
        exact inv.fd_eq entry entry' rfl
      rw [rule.deregister_flow, alone]
      exact .lock (.erase _)
  | erase => exact absurd rfl other

end Numbered

end ServerConfig

end LibSiot
