/-
Module: LibSiot.Proofs.Server.ProgramOrder
Purpose: In which order operations stand in what a thread has still to do: the
  lookups and waits that come first, the sections in which a thread holds the
  lock of a connection, and those in which it holds `connections_lock_`.
Trusted boundary: none
Main exports: Op.precedes, Section, Closed, Opened,
  ServerState.Rule.precedes, ServerState.Rule.closed, ServerState.Rule.opened
-/
import LibSiot.Proofs.Server.LockModes

namespace LibSiot

open Interleaving (Flow)
open Interleaving.Machine (pushes pairwise_continuation continuation_split)

namespace Op

/-! ### What may come before an operation -/

/-- The operation is part of a call of `Receive` or `Send`. -/
def uses : Op → Bool
  | .lock (.ssl _) => true
  | .use _ => true
  | .unlock (.ssl _) _ => true
  | _ => false

/-- The operation is part of `LockCallAndUnlock`, before the `Unlock()`. -/
def inTask : Op → Bool
  | .readLock .connections => true
  | .call _ _ => true
  | .running _ _ => true
  | .lock (.ssl _) => true
  | .use _ => true
  | .unlock (.ssl _) _ => true
  | _ => false

/-- The operation takes an entry of the pool away. -/
def dequeues : Op → Bool
  | .erase _ => true
  | .epollDel _ => true
  | _ => false

/-- `a` may stand somewhere before `b`.  What waits for a lock to read, or handles an
event, is at once the next operation of its thread. -/
def precedes (a b : Op) : Bool :=
  match b with
  | .readLock _ => false
  | .lock (.ssl _) => a.uses
  | .accept => false
  | .construct _ => false
  | .lookup _ _ => false
  | .find _ _ => a = .lock .connections
  | .addDecorators _ _ => a = .lock .connections
  | .running _ _ => a.uses
  | .unlock (.connection _) _ => a.inTask
  | .reapShutdown _ => a.dequeues
  | .userCode => a.uses
  | _ => true

/-- Anything may stand before the operation. -/
def free (b : Op) : Bool :=
  match b with
  | .readLock _ => false
  | .lock (.ssl _) => false
  | .accept => false
  | .construct _ => false
  | .lookup _ _ => false
  | .find _ _ => false
  | .addDecorators _ _ => false
  | .running _ _ => false
  | .unlock (.connection _) _ => false
  | .reapShutdown _ => false
  | .userCode => false
  | _ => true

theorem inTask_of_uses {a : Op} (uses : a.uses = true) : a.inTask = true := by
  cases a with
  | lock name | unlock name => cases name <;> first | rfl | cases uses
  | _ => first | rfl | cases uses

/-- Some operation asks for this one, or one like it, before it. -/
def leads (a : Op) : Bool :=
  match a with
  | .lock .connections => true
  | op => op.inTask || op.dequeues

theorem precedes_of_free {a b : Op} (free : b.free = true) : a.precedes b = true := by
  cases b with
  | lock name | unlock name => cases name <;> first | rfl | cases free
  | _ => first | rfl | cases free

theorem free_of_precedes {a b : Op} (leads : a.leads = false) (precedes : a.precedes b = true) :
    b.free = true := by
  have notLock : a ≠ .lock .connections := by rintro rfl; cases leads
  have notTask : a.inTask = false := by
    cases a with
    | lock name | readLock name | unlock name =>
        cases name <;> first | rfl | cases leads
    | _ => first | rfl | cases leads
  have notDequeue : a.dequeues = false := by cases a <;> first | rfl | cases leads
  cases b with
  | lock name =>
      cases name with
      | connections | connection => rfl
      | ssl accept =>
          rw [inTask_of_uses precedes] at notTask
          cases notTask
  | unlock name destructor =>
      cases name with
      | connections | ssl => rfl
      | connection conn => rw [Op.precedes, notTask] at precedes; cases precedes
  | running | userCode =>
      rw [inTask_of_uses precedes] at notTask
      cases notTask
  | find fd conn => exact absurd (of_decide_eq_true precedes) notLock
  | addDecorators clientfd conn => exact absurd (of_decide_eq_true precedes) notLock
  | reapShutdown conn => rw [Op.precedes, notDequeue] at precedes; cases precedes
  | _ => first | rfl | cases precedes

theorem pairwise_of_all_free {ops : List Op} (free : ∀ b ∈ ops, b.free = true) :
    ops.Pairwise (fun a b => a.precedes b = true) :=
  List.pairwise_iff_forall_sublist.mpr fun both =>
    precedes_of_free (free _ (both.subset (by simp)))

/-- Operations that follow any other are in order behind a first one. -/
theorem pairwise_of_free {a : Op} {ops : List Op} (free : ∀ b ∈ ops, b.free = true) :
    (a :: ops).Pairwise (fun a b => a.precedes b = true) :=
  List.pairwise_cons.mpr
    ⟨fun b member => precedes_of_free (free b member), pairwise_of_all_free free⟩

end Op

namespace ServerState

variable {n : Nat} {t : Tid n} {e : Choice} {s s' : ServerState n} {op : Op}
  {flow : Flow Op}

theorem free_shutdownBody {conn : Handle} : ∀ op ∈ s.shutdownBody conn, op.free = true := by
  intro op member
  rcases mem_shutdownBody member with rfl | rfl | rfl | ⟨_, rfl, _⟩ | rfl <;> rfl

/-- `Shutdown()` takes `ssl_mtx_` before all else. -/
theorem pairwise_shutdownOps (conn : Handle) :
    (s.shutdownOps conn).Pairwise fun a b => a.precedes b = true := by
  rcases shutdownOps_cases conn s with plain | ⟨_, _, guarded⟩
  · rw [plain]
    exact Op.pairwise_of_free free_shutdownBody
  · rw [guarded]
    refine Op.pairwise_of_free (List.forall_mem_cons.mpr ⟨rfl, List.forall_mem_append.mpr
      ⟨free_shutdownBody, List.forall_mem_singleton.mpr rfl⟩⟩)

/-- Calls of `Receive` or `Send` come one after the other, before anything that may follow
them. -/
theorem pairwise_useOps (conn : Handle) (calls : Nat) {last : Op}
    (follows : ∀ a : Op, a.uses = true → a.precedes last = true) :
    (s.useOps conn calls ++ [last]).Pairwise fun a b => a.precedes b = true := by
  have uses : ∀ a ∈ s.useOps conn calls, a.uses = true := by
    intro a member
    rcases mem_useOps member with rfl | rfl | rfl <;> rfl
  refine List.pairwise_append.mpr ⟨?_, List.pairwise_singleton _ _, ?_⟩
  · refine List.pairwise_iff_forall_sublist.mpr fun {a b} both => ?_
    have first := uses a (both.subset List.mem_cons_self)
    rcases mem_useOps (both.subset (List.mem_cons_of_mem a List.mem_cons_self)) with
      rfl | rfl | rfl
    · exact first
    · exact Op.precedes_of_free rfl
    · exact Op.precedes_of_free rfl
  · intro a member b there
    exact List.mem_singleton.mp there ▸ follows a (uses a member)

theorem free_dequeueOps {fds : List Nat} : ∀ op ∈ fds.flatMap dequeueOps, op.free = true := by
  intro op member
  obtain ⟨fd, _, rfl | rfl | rfl | rfl⟩ := mem_dequeueOps member <;> rfl

/-- What is pushed is in order. -/
theorem Rule.ordered (rule : Rule t e s op flow s') :
    (pushes flow).Pairwise fun a b => a.precedes b = true := by
  cases rule with
  | examineListening | examineClient | loopOver | lookupHangup | lookupError | registered
  | indeterminateRegistered | reapWaited | reapExpired | found =>
      exact Op.pairwise_of_free (List.all_eq_true.mp rfl)
  | constructed | constructorThrew =>
      exact List.pairwise_cons.mpr ⟨List.all_eq_true.mp rfl,
        Op.pairwise_of_free (List.all_eq_true.mp rfl)⟩
  | lookupDataReady =>
      exact List.pairwise_cons.mpr ⟨List.all_eq_true.mp rfl, List.pairwise_singleton _ _⟩
  | reapDue =>
      exact List.pairwise_cons.mpr ⟨List.all_eq_true.mp rfl,
        List.pairwise_cons.mpr ⟨List.all_eq_true.mp rfl,
          Op.pairwise_of_free (List.all_eq_true.mp rfl)⟩⟩
  | takeTask task =>
      cases task with
      | lockCallAndUnlock callback conn =>
          exact List.pairwise_cons.mpr ⟨List.all_eq_true.mp rfl,
            List.pairwise_cons.mpr ⟨List.all_eq_true.mp rfl,
              Op.pairwise_of_free (List.all_eq_true.mp rfl)⟩⟩
      | connectionTerminated conn => exact Op.pairwise_of_free (List.all_eq_true.mp rfl)
      | shutdown conn => exact Op.pairwise_of_free (List.all_eq_true.mp rfl)
  | shutdown conn => exact pairwise_shutdownOps conn
  | callbackUses callback conn other => exact pairwise_useOps other 1 fun _ uses => uses
  | userUses other => exact pairwise_useOps other 1 fun _ uses => uses
  | drain conn => exact pairwise_useOps conn e.turns fun _ _ => Op.precedes_of_free rfl
  | deregister conn => exact Op.pairwise_of_all_free free_dequeueOps
  | waitLeft | acceptThrew | decoratorsThrew | indeterminateThrew | indeterminateNull
  | notRegisteredThrew | reapNull | callbackThrows | epollDelThrew | drainThrew =>
      exact List.Pairwise.nil
  | _ => first | exact List.Pairwise.nil | exact List.pairwise_singleton _ _

/-- What is pushed may stand where its operation stood. -/
theorem Rule.precedes (rule : Rule t e s op flow s') :
    ∀ a ∈ pushes flow, ∀ b, op.precedes b = true → a.precedes b = true := by
  cases rule with
  | lock | readLock | unlock | use | erase | epollDel | epollDelFailed | epollDelThrew
  | callbackReturns | callbackThrows => exact nofun
  | call | callbackSetMaxIdle | callbackShutdownServer | callbackDefers =>
      intro a member b before
      rw [List.mem_singleton.mp member]
      cases b with
      | lock name | unlock name => cases name <;> exact before
      | _ => exact before
  | callbackUses callback conn =>
      intro a member b before
      revert a
      cases b with
      | lock name =>
          cases name with
          | ssl accept => cases before
          | _ =>
              exact forall_useOps before before before (List.forall_mem_singleton.mpr before)
      | unlock name =>
          cases name <;> exact forall_useOps before before before
            (List.forall_mem_singleton.mpr before)
      | find | addDecorators | running | reapShutdown | userCode => cases before
      | _ =>
          exact forall_useOps before before before (List.forall_mem_singleton.mpr before)
  | _ => exact fun a _ b before => Op.precedes_of_free (Op.free_of_precedes rfl before)

/-- What is left to a thread after a step is in order. -/
theorem Rule.pairwise_precedes {rest : List Op} (rule : Rule t e s op flow s')
    (ordered : (op :: rest).Pairwise fun a b => a.precedes b = true) :
    ((server n).continuation flow rest).Pairwise fun a b => a.precedes b = true :=
  pairwise_continuation ordered rule.ordered rule.precedes

end ServerState

/-! ### Sections -/

namespace Op

/-- The operation takes the connection down: the object whose `Shutdown()` it is in,
up to the point at which the lock of the object is held. -/
def tears : Op → Option Handle
  | .shutdown conn => some conn
  | .deregister conn => some conn
  | .lock (.connection conn) => some conn
  | _ => none

/-- The operation ends what is done under `connections_lock_`. -/
def closes : Op → Bool
  | .unlock .connections _ => true
  | .find _ _ => true
  | _ => false

/-- The operation is part of the shutdown of the connection: it takes it down, or comes
after that and may still wait. -/
def shuts : Op → Option Handle
  | .drain conn => some conn
  | .drained conn => some conn
  | op => op.tears

def drains : Op → Bool
  | .drain _ => true
  | .drained _ => true
  | _ => false

theorem tears_of_shuts {op : Op} (other : op.drains = false) : op.tears = op.shuts := by
  cases op <;> first | rfl | cases other

theorem closes_of_shuts {op : Op} {conn : Handle} (shuts : op.shuts = some conn) :
    op.closes = false := by
  cases op <;> first | rfl | cases shuts

/-- The operation may be done under the lock of the connection: it is the shutdown of
a wrapped one, or its own end. -/
def within (conn : Handle) : Op → Prop
  | .shutdown lower => lower.accept = conn.accept ∧ lower.level < conn.level
  | .deregister lower => lower.accept = conn.accept ∧ lower.level < conn.level
  | .lock (.connection lower) => lower.accept = conn.accept ∧ lower.level < conn.level
  | .delete lower => lower.accept = conn.accept ∧ lower.level < conn.level
  | .drain lower => lower.accept = conn.accept ∧ 0 < conn.level
  | .drained _ => True
  | .lock (.ssl lower) => lower = conn.accept ∧ 0 < conn.level
  | .use _ => True
  | .unlock (.ssl _) _ => True
  | .closeSocket _ => True
  | _ => False

/-- The operation takes `connections_lock_` for writing. -/
def acquires : Op → Bool
  | .lock .connections => true
  | _ => false

end Op

/-- A thread that holds the lock of a connection: it deletes the connection after
what it does within. -/
def Section (conn : Handle) (ops : List Op) : Prop :=
  ∃ body post, ops = body ++ .delete conn :: post ∧ ∀ op ∈ body, op.within conn

/-- Once it takes the lock of a connection, the thread is in its section. -/
def Closed (ops : List Op) : Prop :=
  ∀ pre conn post, ops = pre ++ .lock (.connection conn) :: post → Section conn post

/-- What a thread does before it gives `connections_lock_` back. -/
def inside (ops : List Op) : List Op := ops.takeWhile fun op => !op.closes

/-- Once it takes `connections_lock_`, the thread shuts nothing down under it but by
a decision still to come. -/
def Opened (ops : List Op) : Prop :=
  ∀ pre post, ops = pre ++ .lock .connections :: post → ∀ op ∈ inside post, op.shuts = none

theorem Section.append {conn : Handle} {ops : List Op} (inSection : Section conn ops)
    (rest : List Op) : Section conn (ops ++ rest) := by
  obtain ⟨body, post, rfl, within⟩ := inSection
  exact ⟨body, post ++ rest, by rw [List.append_assoc, List.cons_append], within⟩

/-- Where an operation can stand that comes first, and only there. -/
theorem split_first {op : Op} {tail pre post : List Op} (absent : op ∉ tail)
    (split : op :: tail = pre ++ op :: post) : pre = [] ∧ post = tail := by
  cases pre with
  | nil =>
      cases split
      exact ⟨rfl, rfl⟩
  | cons first pre =>
      cases split
      exact absurd (List.mem_append_right _ List.mem_cons_self) absent

/-- Where an operation can stand that comes last, and only there. -/
theorem split_last {op : Op} {front pre post : List Op} (absent : op ∉ front)
    (split : front ++ [op] = pre ++ op :: post) : pre = front ∧ post = [] := by
  induction front generalizing pre with
  | nil =>
      have whole : op :: [] = pre ++ op :: post := split
      obtain ⟨rfl, rfl⟩ := split_first List.not_mem_nil whole
      exact ⟨rfl, rfl⟩
  | cons first front ih =>
      cases pre with
      | nil =>
          cases split
          exact absurd List.mem_cons_self absent
      | cons first' pre =>
          obtain ⟨rfl, later⟩ := List.cons.inj split
          obtain ⟨rfl, rfl⟩ := ih (fun member => absent (List.mem_cons_of_mem _ member)) later
          exact ⟨rfl, rfl⟩

/-- What comes before the end of two parts: it is in the first, or the first does
not end it. -/
theorem mem_inside_append {op : Op} {ops rest : List Op} (member : op ∈ inside (ops ++ rest)) :
    op ∈ ops ∨ (ops.any Op.closes = false ∧ op ∈ inside rest) := by
  induction ops with
  | nil => exact Or.inr ⟨rfl, member⟩
  | cons first ops ih =>
      rw [inside, List.cons_append, List.takeWhile_cons] at member
      split at member
      · rename_i opened
        rcases List.mem_cons.mp member with rfl | later
        · exact Or.inl List.mem_cons_self
        · rcases ih later with pushed | ⟨open', old⟩
          · exact Or.inl (List.mem_cons_of_mem _ pushed)
          · refine Or.inr ⟨?_, old⟩
            rw [List.any_cons, open', Bool.or_false]
            exact (Bool.not_eq_true' _).mp opened
      · cases member

theorem mem_inside_cons {op first : Op} {rest : List Op} (opened : first.closes = false)
    (member : op = first ∨ op ∈ inside rest) : op ∈ inside (first :: rest) := by
  rw [inside, List.takeWhile_cons, opened]
  exact List.mem_cons.mpr member

theorem mem_inside_front {op : Op} {ops rest : List Op}
    (opened : ∀ op ∈ ops, (!op.closes) = true) (member : op ∈ ops) :
    op ∈ inside (ops ++ rest) := by
  rw [inside, List.takeWhile_append_of_pos opened]
  exact List.mem_append_left _ member

namespace ServerState

variable {n : Nat} {t : Tid n} {e : Choice} {s s' : ServerState n} {op : Op}
  {flow : Flow Op} {rest : List Op}

/-- The body of `Shutdown()` locks the object and ends with its deletion. -/
theorem shutdownBody_eq (conn : Handle) :
    s.shutdownBody conn = [] ∨ ∃ body,
      s.shutdownBody conn = .lock (.connection conn) :: (body ++ [.delete conn]) ∧
        ∀ op ∈ body, op = .closeSocket conn ∨ (op = .drain conn ∧ 0 < conn.level) ∨
          ∃ lower : Handle, op = .shutdown lower ∧ lower.accept = conn.accept ∧
            lower.level < conn.level := by
  obtain ⟨accept, level⟩ := conn
  cases level with
  | zero =>
      simp only [shutdownBody]
      split
      · exact Or.inr ⟨[], rfl, by simp⟩
      · exact Or.inr ⟨[.closeSocket _], rfl, by simp⟩
  | succ level =>
      simp only [shutdownBody]
      split
      · exact Or.inl rfl
      · rename_i decorator _
        refine Or.inr ⟨(if decorator.cls = .rangeReader then
          [.drain ⟨accept, level + 1⟩] else []) ++
          (if decorator.owned then [.shutdown ⟨accept, level⟩] else []), by simp, ?_⟩
        intro op member
        rcases List.mem_append.mp member with drain | lower
        · split at drain
          · exact Or.inr (Or.inl ⟨List.mem_singleton.mp drain, Nat.succ_pos level⟩)
          · cases drain
        · split at lower
          · exact Or.inr (Or.inr ⟨_, List.mem_singleton.mp lower, rfl, Nat.lt_succ_self level⟩)
          · cases lower

/-- How a thread comes to shut down an object: it already does, or does so with one
around it; or it decides on it, or takes the task. -/
theorem Rule.tears (rule : Rule t e s op flow s') {new : Op} {conn : Handle}
    (member : new ∈ pushes flow) (tears : new.tears = some conn) :
    (∃ outer : Handle, op = .shutdown outer ∧ conn.accept = outer.accept ∧
      conn.level ≤ outer.level) ∨
      new = .shutdown conn ∧
        ((∃ fd events, op = .lookup fd events ∧ s.connections.lookup fd = some (some conn)) ∨
          (op = .takeTask ∧ .shutdown conn ∈ s.executor) ∨
          (op = .reapShutdown conn ∧ s.isShutdownOf conn = false)) := by
  cases rule with
  | lookupHangup fd events other entry =>
      simp only [pushes, List.mem_cons, List.not_mem_nil, or_false] at member
      rcases member with rfl | rfl
      · cases tears
      · cases tears
        exact Or.inr ⟨rfl, Or.inl ⟨fd, events, rfl, entry⟩⟩
  | takeTask task tasks queue =>
      cases task with
      | shutdown other =>
          simp only [pushes, taskOps, List.cons_append, List.nil_append, List.mem_cons,
            List.not_mem_nil, or_false] at member
          rcases member with rfl | rfl
          · cases tears
            exact Or.inr ⟨rfl, Or.inr (Or.inl ⟨rfl, queue ▸ List.mem_cons_self⟩)⟩
          · cases tears
      | lockCallAndUnlock callback other =>
          simp only [pushes, taskOps, List.cons_append, List.nil_append, List.mem_cons,
            List.not_mem_nil, or_false] at member
          rcases member with rfl | rfl | rfl | rfl | rfl <;> cases tears
      | connectionTerminated other =>
          simp only [pushes, taskOps, List.cons_append, List.nil_append, List.mem_cons,
            List.not_mem_nil, or_false] at member
          rcases member with rfl | rfl <;> cases tears
  | reapExpired other up =>
      simp only [pushes, List.mem_cons, List.not_mem_nil, or_false] at member
      rcases member with rfl | rfl
      · cases tears
        exact Or.inr ⟨rfl, Or.inr (Or.inr ⟨rfl, up⟩)⟩
      · cases tears
  | shutdown outer =>
      left
      rcases mem_shutdownOps member with rfl | rfl | member | rfl
      · cases tears
      · cases tears
        exact ⟨_, rfl, rfl, Nat.le_refl _⟩
      · rcases mem_shutdownBody member with rfl | rfl | rfl | ⟨lower, rfl, same, below⟩ | rfl
        · cases tears
          exact ⟨_, rfl, rfl, Nat.le_refl _⟩
        · cases tears
        · cases tears
        · cases tears
          exact ⟨outer, rfl, same, Nat.le_of_lt below⟩
        · cases tears
      · cases tears
  | callbackUses | drain | userUses =>
      rcases mem_useOps_append member with rfl | rfl | rfl | rfl <;> cases tears
  | deregister outer =>
      obtain ⟨fd, _, rfl | rfl | rfl | rfl⟩ := mem_dequeueOps member <;> cases tears
  | _ => exact absurd tears (ne_some_of_all rfl member)

/-- So it comes to do any part of the shutdown. -/
theorem Rule.shuts (rule : Rule t e s op flow s') {new : Op} {conn : Handle}
    (member : new ∈ pushes flow) (shuts : new.shuts = some conn) :
    (∃ outer : Handle, op.shuts = some outer ∧ conn.accept = outer.accept ∧
      conn.level ≤ outer.level) ∨
      new = .shutdown conn ∧
        ((∃ fd events, op = .lookup fd events ∧ s.connections.lookup fd = some (some conn)) ∨
          (op = .takeTask ∧ .shutdown conn ∈ s.executor) ∨
          (op = .reapShutdown conn ∧ s.isShutdownOf conn = false)) := by
  cases other : new.drains with
  | false =>
      rcases rule.tears member ((Op.tears_of_shuts other).trans shuts) with ⟨outer, rfl, below⟩ | new
      · exact Or.inl ⟨outer, rfl, below⟩
      · exact Or.inr new
  | true =>
      left
      cases rule with
      | shutdown outer =>
          rcases mem_shutdownOps member with rfl | rfl | member | rfl
          · cases other
          · cases other
          · rcases mem_shutdownBody member with rfl | rfl | rfl | ⟨_, rfl, _⟩ | rfl
            · cases other
            · cases other
            · cases shuts
              exact ⟨_, rfl, rfl, Nat.le_refl _⟩
            · cases other
            · cases other
          · cases other
      | drain outer =>
          rcases mem_useOps_append member with rfl | rfl | rfl | rfl
          · cases other
          · cases other
          · cases other
          · cases shuts
            exact ⟨_, rfl, rfl, Nat.le_refl _⟩
      | callbackUses | userUses =>
          rcases mem_useOps_append member with rfl | rfl | rfl | rfl <;> cases other
      | deregister outer =>
          obtain ⟨fd, _, rfl | rfl | rfl | rfl⟩ := mem_dequeueOps member <;> cases other
      | takeTask task =>
          cases task <;> exact absurd other (List.any_eq_false.mp rfl new member)
      | _ => exact absurd other (List.any_eq_false.mp rfl new member)

theorem split_shutdownBody {conn outer : Handle} {pre between : List Op}
    (split : s.shutdownBody outer = pre ++ .lock (.connection conn) :: between) :
    conn = outer ∧ Section conn between := by
  rcases s.shutdownBody_eq outer with none | ⟨body, whole, members⟩
  · rw [none] at split
    simp at split
  · have absent : ∀ other, .lock (.connection other) ∉ body ++ [.delete outer] := by
      intro other member
      rcases List.mem_append.mp member with member | last
      · rcases members _ member with impossible | ⟨impossible, _⟩ | ⟨_, impossible, _⟩ <;>
          cases impossible
      · cases List.mem_singleton.mp last
    rw [whole] at split
    obtain rfl : conn = outer := by
      cases pre with
      | nil =>
          cases split
          rfl
      | cons first pre =>
          refine absurd ?_ (absent conn)
          rw [(List.cons.inj split).2]
          exact List.mem_append_right _ List.mem_cons_self
    obtain ⟨rfl, rfl⟩ := split_first (absent conn) split
    refine ⟨rfl, body, [], rfl, fun op member => ?_⟩
    rcases members op member with rfl | ⟨rfl, decorated⟩ | ⟨lower, rfl, same, below⟩
    · trivial
    · exact ⟨rfl, decorated⟩
    · exact ⟨same, below⟩

/-- When `Shutdown()` begins, the lock of the object itself comes after
`Deregister()`, and its section after it. -/
theorem split_shutdownOps {conn outer : Handle} {pre between : List Op}
    (split : s.shutdownOps outer = pre ++ .lock (.connection conn) :: between) :
    conn = outer ∧ .deregister conn ∈ pre ∧ Section conn between := by
  have front : ∀ {pre between : List Op}, .deregister outer :: s.shutdownBody outer =
      pre ++ .lock (.connection conn) :: between →
      conn = outer ∧ .deregister conn ∈ pre ∧ Section conn between := by
    intro pre between split
    cases pre with
    | nil => cases split
    | cons first pre =>
        obtain ⟨rfl, tail⟩ := List.cons.inj split
        obtain ⟨rfl, inSection⟩ := split_shutdownBody tail
        exact ⟨rfl, List.mem_cons_self, inSection⟩
  rcases shutdownOps_cases outer s with plain | ⟨_, _, guarded⟩
  · exact front (plain ▸ split)
  · rw [guarded] at split
    cases pre with
    | nil => cases split
    | cons first pre =>
        obtain ⟨rfl, tail⟩ := List.cons.inj split
        rw [← List.cons_append] at tail
        rcases List.append_eq_append_iff.mp tail with ⟨pre', rfl, last⟩ | ⟨later, body, rest⟩
        · have member : .lock (.connection conn) ∈ [Op.unlock (.ssl outer.accept) true] :=
            last ▸ List.mem_append_right _ List.mem_cons_self
          cases List.mem_singleton.mp member
        · cases later with
          | nil => cases rest
          | cons first later =>
              obtain ⟨rfl, rfl⟩ := List.cons.inj rest
              obtain ⟨rfl, dequeued, inSection⟩ := front body
              exact ⟨rfl, List.mem_cons_of_mem _ dequeued, inSection.append _⟩

theorem Rule.closed (rule : Rule t e s op flow s') (closed : Closed (op :: rest)) :
    Closed ((server n).continuation flow rest) := by
  intro pre conn post split
  rcases continuation_split split rfl with ⟨between, pushed, rfl⟩ | ⟨pre', rfl, rfl⟩
  · have member : .lock (.connection conn) ∈ pushes flow :=
      pushed ▸ List.mem_append_right _ List.mem_cons_self
    rcases rule.tears member rfl with ⟨outer, rfl, _⟩ | ⟨impossible, _⟩
    · cases rule
      exact (split_shutdownOps pushed).2.2.append rest
    · cases impossible
  · exact closed (op :: pre') conn post rfl

/-- The thread is in the section of a connection until it deletes it, if the loop
that drains a range does not throw, and a wrapped connection is not in the pool. -/
theorem Rule.section {conn : Handle} (rule : Rule t e s op flow s')
    (inSection : Section conn (op :: rest))
    (quiet : ∀ part, op = .drained part → e.throws = false)
    (absent : ∀ lower : Handle, op = .deregister lower → lower.accept = conn.accept →
      lower.level < conn.level → s.connections.keysWhere (· = some lower) = []) :
    op = .delete conn ∨ Section conn ((server n).continuation flow rest) := by
  obtain ⟨body, post, split, within⟩ := inSection
  cases body with
  | nil =>
      cases split
      exact Or.inl rfl
  | cons first body =>
      cases split
      obtain ⟨here, later⟩ := List.forall_mem_cons.mp within
      have same : Section conn (body ++ .delete conn :: post) := ⟨body, post, rfl, later⟩
      right
      cases rule with
      | shutdown lower =>
          obtain ⟨accept, level⟩ := here
          have wraps : 0 < conn.level := Nat.zero_lt_of_lt level
          refine ⟨s.shutdownOps lower ++ body, post, (List.append_assoc ..).symm,
            fun op member => ?_⟩
          rcases List.mem_append.mp member with new | old
          · rcases mem_shutdownOps new with rfl | rfl | new | rfl
            · exact ⟨accept, wraps⟩
            · exact ⟨accept, level⟩
            · rcases mem_shutdownBody new with rfl | rfl | rfl | ⟨part, rfl, same, below⟩ | rfl
              · exact ⟨accept, level⟩
              · trivial
              · exact ⟨accept, wraps⟩
              · exact ⟨same.trans accept, below.trans level⟩
              · exact ⟨accept, level⟩
            · trivial
          · exact later op old
      | drain part =>
          refine ⟨s.useOps part e.turns ++ [.drained part] ++ body, post, (List.append_assoc ..).symm,
            List.forall_mem_append.mpr ⟨forall_useOps here trivial trivial ?_, later⟩⟩
          exact List.forall_mem_singleton.mpr trivial
      | deregister lower =>
          rw [absent lower rfl here.1 here.2]
          exact same
      | drainThrew part throws =>
          rw [quiet part rfl] at throws
          cases throws
      | lock | unlock | use | closeSocket | drained | delete => exact same
      | _ => cases here

theorem none_acquires {ops : List Op} (quiet : ops.all (fun new => !new.acquires) = true) :
    .lock .connections ∉ ops := by
  intro member
  cases List.all_eq_true.mp quiet _ member

/-- What `DequeueConnection` does after it takes the lock. -/
theorem dequeueOps_opened {fds : List Nat} {pre between : List Op}
    (split : fds.flatMap dequeueOps = pre ++ .lock .connections :: between) :
    ∀ op ∈ inside (between ++ rest), op.shuts = none := by
  induction fds generalizing pre with
  | nil => simp at split
  | cons fd fds ih =>
      rw [List.flatMap_cons] at split
      rcases List.append_eq_append_iff.mp split with ⟨pre', rfl, old⟩ | ⟨tail, pushed, later⟩
      · exact ih old
      · cases tail with
        | nil =>
            have next : fds.flatMap dequeueOps = [] ++ .lock .connections :: between := later.symm
            exact ih next
        | cons first tail =>
            obtain ⟨rfl, rfl⟩ := List.cons.inj later
            obtain ⟨rfl, rfl⟩ := split_first (none_acquires rfl) pushed
            simp [inside, Op.closes, Op.shuts, Op.tears]

theorem Rule.opened (rule : Rule t e s op flow s') (opened : Opened (op :: rest)) :
    Opened ((server n).continuation flow rest) := by
  intro pre post split
  rcases continuation_split split rfl with ⟨between, pushed, rfl⟩ | ⟨pre', rfl, rfl⟩
  · cases rule with
    | constructed | constructorThrew | lookupDataReady | reapWaited =>
        obtain ⟨_, rfl⟩ := split_first (none_acquires rfl) pushed
        simp [inside, Op.closes, Op.shuts, Op.tears]
    | takeTask task =>
        cases task <;> exact absurd (pushed ▸ List.mem_append_right _ List.mem_cons_self)
          (none_acquires rfl)
    | shutdown conn =>
        have member : .lock .connections ∈ s.shutdownOps conn := by
          change .lock .connections ∈ pushes (.next (s.shutdownOps conn))
          rw [pushed]
          exact List.mem_append_right _ List.mem_cons_self
        rcases mem_shutdownOps member with impossible | impossible | member | impossible
        · cases impossible
        · cases impossible
        · rcases mem_shutdownBody member with impossible | impossible | impossible |
            ⟨_, impossible, _⟩ | impossible <;> cases impossible
        · cases impossible
    | callbackUses | drain | userUses =>
        have quiet := forall_useOps (P := fun new => (!new.acquires) = true) rfl rfl rfl
          (List.forall_mem_singleton.mpr rfl) _
          (pushed ▸ List.mem_append_right _ List.mem_cons_self)
        cases quiet
    | deregister conn => exact dequeueOps_opened pushed
    | _ =>
        exact absurd (pushed ▸ List.mem_append_right _ List.mem_cons_self) (none_acquires rfl)
  · exact opened (op :: pre') post rfl

end ServerState

end LibSiot
