/-
Module: LibSiot.Proofs.Server.ServerShutdown
Purpose: What a server does after `Server::Shutdown()`, which only clears `running_`:
  each of its two loops is left when it next tests the flag, so what is still done is
  at most the rest of one turn of each.
Trusted boundary: none
Main exports: Since, ServerConfig.Drains, ServerConfig.drains_of_positive
-/
import LibSiot.Proofs.Server.NewConnection

namespace LibSiot

open Interleaving (Flow)
open Interleaving.Machine (pushes AllOps total total_eq_zero total_step_le le_total
  total_eq_of_first eq_zero_of_total_le_one continuation_split)

/-! ### The two loops -/

namespace Op

/-- The listening thread is at `while (running_)`, or in a turn of it. -/
def listening : Op → Nat
  | .listenWhile => 1
  | .epollWait => 1
  | .forLoop _ _ => 1
  | _ => 0

/-- The reaper is at `while (running_)`, or in a turn of it. -/
def reaping : Op → Nat
  | .reapStart => 1
  | .reapWait _ => 1
  | _ => 0

def polls : Op → Nat
  | .epollWait => 1
  | _ => 0

def takesIn : Op → Nat
  | .accept => 1
  | _ => 0

/-- The pass over the pool is still to begin. -/
def scans : Op → Nat
  | .reapTime _ => 1
  | _ => 0

/-- What can still bring a connection in before the next test of `running_`, but for
the loop over the events. -/
def admits (op : Op) : Nat := op.polls + op.takesIn

/-- The operation empties the array of events, or goes on to do so. -/
def clears : Op → Bool
  | .construct _ => true
  | .clearEvents => true
  | _ => false

theorem light_of_common {op : Op} (common : op.common = true) :
    op.listening = 0 ∧ op.reaping = 0 ∧ op.scans = 0 ∧ op.admits = 0 := by
  cases op <;> first | exact ⟨rfl, rfl, rfl, rfl⟩ | cases common

end Op

namespace ServerState

variable {n : Nat} {t : Tid n} {e : Choice} {s s' : ServerState n} {op : Op}
  {flow : Flow Op}

theorem sum_eq_zero_of_all {weight : Op → Nat} {ops : List Op}
    (light : ∀ op ∈ ops, weight op = 0) : (ops.map weight).sum = 0 := by
  apply List.sum_eq_zero
  intro w member
  obtain ⟨op, there, rfl⟩ := List.mem_map.mp member
  exact light op there

/-- A thread in one of the loops is at one place of it. -/
theorem Rule.loops (rule : Rule t e s op flow s') :
    ((pushes flow).map Op.listening).sum ≤ op.listening ∧
      ((pushes flow).map Op.reaping).sum ≤ op.reaping := by
  have common := fun spreads new member =>
    Op.light_of_common (rule.common_of_pushed spreads new member)
  cases rule with
  | takeTask | callbackUses | shutdown | deregister | drain | userUses =>
      exact ⟨(sum_eq_zero_of_all fun new member => (common rfl new member).1).le,
        (sum_eq_zero_of_all fun new member => (common rfl new member).2.1).le⟩
  | _ => exact ⟨Nat.le_of_ble_eq_true rfl, Nat.le_of_ble_eq_true rfl⟩

/-- Who waits for events or accepts comes from the head of the loop or from an event. -/
theorem Rule.admits (rule : Rule t e s op flow s') :
    ((pushes flow).map Op.admits).sum ≤ 1 ∧
      (((pushes flow).map Op.admits).sum ≠ 0 → op = .listenWhile ∨
        ∃ i nfds, op = .forLoop i nfds ∧ (s.events.getD i .zero).fd = s.serverfd) := by
  have common := fun spreads new member =>
    Op.light_of_common (rule.common_of_pushed spreads new member)
  cases rule with
  | takeTask | callbackUses | shutdown | deregister | drain | userUses =>
      have none := sum_eq_zero_of_all fun new member => (common rfl new member).2.2.2
      exact ⟨none.le.trans (Nat.zero_le 1), fun some => absurd none some⟩
  | keepListening => exact ⟨Nat.le_of_ble_eq_true rfl, fun _ => Or.inl rfl⟩
  | examineListening i nfds _ listening =>
      exact ⟨Nat.le_of_ble_eq_true rfl, fun _ => Or.inr ⟨i, nfds, rfl, listening⟩⟩
  | _ => exact ⟨Nat.le_of_ble_eq_true rfl, fun some => absurd rfl some⟩

theorem Rule.polls (rule : Rule t e s op flow s') (some : ((pushes flow).map Op.polls).sum ≠ 0) :
    op = .listenWhile := by
  have common := fun spreads new member =>
    Op.light_of_common (rule.common_of_pushed spreads new member)
  cases rule with
  | takeTask | callbackUses | shutdown | deregister | drain | userUses =>
      have none := sum_eq_zero_of_all fun new member =>
        Nat.eq_zero_of_add_eq_zero_right (common rfl new member).2.2.2
      exact absurd none some
  | keepListening => rfl
  | _ => exact absurd rfl some

/-- A pass comes from the head of the reaper's loop, and is followed by it. -/
theorem Rule.scans (rule : Rule t e s op flow s') :
    ((pushes flow).map Op.scans).sum ≤ 1 ∧
      (((pushes flow).map Op.scans).sum ≠ 0 → ∃ maxIdle, op = .reapWait maxIdle) ∧
      ∀ pre maxIdle between, pushes flow = pre ++ .reapTime maxIdle :: between →
        .reapWait maxIdle ∈ between := by
  have common := fun spreads new member =>
    Op.light_of_common (rule.common_of_pushed spreads new member)
  have member : ∀ {pre maxIdle between}, pushes flow = pre ++ .reapTime maxIdle :: between →
      .reapTime maxIdle ∈ pushes flow :=
    fun split => split ▸ List.mem_append_right _ List.mem_cons_self
  cases rule with
  | takeTask | callbackUses | shutdown | deregister | drain | userUses =>
      have none := sum_eq_zero_of_all fun new member => (common rfl new member).2.2.1
      refine ⟨none.le.trans (Nat.zero_le 1), fun some => absurd none some, ?_⟩
      intro pre maxIdle between split
      cases (common rfl _ (member split)).2.2.1
  | reapWaited maxIdle =>
      refine ⟨Nat.le_of_ble_eq_true rfl, fun _ => ⟨maxIdle, rfl⟩, ?_⟩
      intro pre maxIdle' between split
      have pushed := member split
      simp only [pushes, List.mem_cons, List.not_mem_nil, or_false, reduceCtorEq, false_or,
        Op.reapTime.injEq] at pushed
      subst pushed
      cases pre with
      | nil => cases split
      | cons first pre =>
          obtain ⟨_, rfl⟩ := split_first (by simp) (List.cons.inj split).2
          exact List.mem_cons_of_mem _ List.mem_cons_self
  | _ =>
      refine ⟨Nat.le_of_ble_eq_true rfl, fun some => absurd rfl some, ?_⟩
      intro pre maxIdle between split
      exact absurd rfl
        ((List.any_eq_false (p := fun new => new.scans != 0)).mp rfl _ (member split))

/-- The test of `running_` fails once it is cleared. -/
theorem exec_of_stopped (stopped : s.running = false) (executed : exec t op e s = some (flow, s'))
    (head : op = .listenWhile ∨ ∃ maxIdle, op = .reapWait maxIdle) : flow = .next [] := by
  rcases head with rfl | ⟨maxIdle, rfl⟩
  · simp only [exec, listenWhile, stopped, goOn, Bool.false_eq_true, if_false] at executed
    cases executed
    rfl
  · simp only [exec, reapWait, stopped, goOn, Bool.false_eq_true, if_false] at executed
    cases executed
    rfl

/-- The loop over the events is entered after a wait. -/
theorem Rule.loops_over (rule : Rule t e s op flow s') {i nfds : Nat}
    (pushed : .forLoop i nfds ∈ pushes flow) :
    op = .epollWait ∨ ∃ j nfds', op = .forLoop j nfds' := by
  have common := fun spreads => rule.common_of_pushed spreads _ pushed
  cases rule with
  | waited => exact Or.inl rfl
  | examineListening | examineClient | examineZero => exact Or.inr ⟨_, _, rfl⟩
  | takeTask | callbackUses | shutdown | deregister | drain | userUses => cases common rfl
  | keepListening | waitRetried | loopOver => simp [pushes] at pushed
  | _ => exact absurd rfl ((List.any_eq_false (p := fun new => new.listening != 0)).mp rfl _ pushed)

/-- Only a wait fills the array of events. -/
theorem Rule.fills (rule : Rule t e s op flow s') :
    op = .epollWait ∨ s'.events = s.events ∨ ∀ event ∈ s'.events, event = .zero := by
  cases rule with
  | waited => exact Or.inl rfl
  | clearEvents =>
      refine Or.inr (Or.inr fun event member => ?_)
      obtain ⟨_, _, rfl⟩ := List.mem_map.mp member
      rfl
  | _ => exact Or.inr (Or.inl rfl)

theorem Rule.brings (rule : Rule t e s .accept flow s') (given : e.accepted.isSome = true) :
    ∃ clientfd, flow = .next [.construct clientfd] := by
  cases rule with
  | acceptThrew failed =>
      rw [failed] at given
      cases given
  | acceptFailed failed =>
      rw [failed] at given
      cases given
  | accepted clientfd => exact ⟨clientfd, rfl⟩

/-- After `accept` the array is emptied, unless an exception leaves the loop. -/
theorem Rule.clears (rule : Rule t e s op flow s') (clears : op.clears = true) :
    (∃ new ∈ pushes flow, new.clears = true) ∨ ∀ event ∈ s'.events, event = .zero := by
  cases rule with
  | constructed | constructorThrew =>
      exact Or.inl ⟨.clearEvents, by simp [pushes, afterConstruct], rfl⟩
  | clearEvents =>
      refine Or.inr fun event member => ?_
      obtain ⟨_, _, rfl⟩ := List.mem_map.mp member
      rfl
  | _ => cases clears

/-- `running_` is never set again. -/
theorem Rule.stays_stopped (rule : Rule t e s op flow s') (stopped : s.running = false) :
    s'.running = false := by
  cases rule <;> first | exact stopped | rfl

end ServerState

namespace ServerConfig

open ServerState

variable {n : Nat}

/-! ### The property -/

/-- What was done since `running_` was cleared: returns of `epoll_wait`, connections
that `accept` brought in, and passes of the reaper. -/
structure Since where
  stopped : Bool := false
  waits : Nat := 0
  accepted : Nat := 0
  passes : Nat := 0
deriving DecidableEq, Repr

def Since.note (op : Op) (e : Choice) (k : Since) : Since where
  stopped := true
  waits := k.waits + op.polls
  accepted := k.accepted + if e.accepted.isSome then op.takesIn else 0
  passes := k.passes + op.scans

def noteStop (c : ServerConfig n) (t : Tid n) (e : Choice) (k : Since) : Since :=
  match c.prog t with
  | [] => k
  | op :: _ => if c.shared.running then k else k.note op e

/-- After `Shutdown()` the loops are not resumed: what is done is at most the rest of a
turn of each. -/
structure Drains (k : Since) (c : ServerConfig n) : Prop where
  stopped : k.stopped = true → c.shared.running = false
  waits : k.waits ≤ 1
  accepted : k.accepted ≤ 1
  passes : k.passes ≤ 1

instance (k : Since) (c : ServerConfig n) : Decidable (Drains k c) :=
  decidable_of_iff ((k.stopped = true → c.shared.running = false) ∧ k.waits ≤ 1 ∧
      k.accepted ≤ 1 ∧ k.passes ≤ 1)
    ⟨fun ⟨stopped, waits, accepted, passes⟩ => ⟨stopped, waits, accepted, passes⟩,
      fun drains => ⟨drains.stopped, drains.waits, drains.accepted, drains.passes⟩⟩

/-! ### The invariant -/

/-- Each loop is at one place, and so is what is left of its turn. -/
structure Looping (c : ServerConfig n) : Prop where
  listens : AllOps (fun _ t op => op.listens = true → t = .listen) c
  ordered : ∀ t, (c.prog t).Pairwise fun a b => a.precedes b = true
  listening : total Op.listening c.prog ≤ 1
  reaping : total Op.reaping c.prog ≤ 1
  admits : total Op.admits c.prog ≤ 1
  scans : total Op.scans c.prog ≤ 1
  returning : ∀ t pre maxIdle post, c.prog t = pre ++ .reapTime maxIdle :: post →
    .reapWait maxIdle ∈ post

/-- The last connection is accepted: before the loop goes on, the array is emptied. -/
structure Spent (c : ServerConfig n) : Prop where
  admits : total Op.admits c.prog = 0
  cleared : ∀ t pre i nfds post, c.prog t = pre ++ .forLoop i nfds :: post →
    (∃ op ∈ pre, op.clears = true) ∨ ∀ event ∈ c.shared.events, event = .zero

/-- What was done, and what is still left of a turn. -/
structure Draining (k : Since) (c : ServerConfig n) : Prop where
  looping : Looping c
  serverfd : c.shared.serverfd ≠ 0
  fresh : c.shared.running = true → k = {}
  waits : c.shared.running = false → k.waits + total Op.polls c.prog ≤ 1
  passes : c.shared.running = false → k.passes + total Op.scans c.prog ≤ 1
  accepted : k.accepted = 0 ∨ k.accepted = 1 ∧ Spent c

variable {c c' : ServerConfig n} {t : Tid n} {e : Choice} {op : Op} {rest : List Op}
  {flow : Flow Op} {ops : List Op} {k : Since}

namespace Looping

theorem init (serverfd : Nat) (ssl : Bool) (maxIdle : Int32) :
    Looping (init n serverfd ssl maxIdle) where
  listens := forall_init (fun _ => rfl) nofun (fun _ => nofun) nofun
  ordered t := by
    cases t <;> exact Op.pairwise_of_free (List.all_eq_true.mp rfl)
  listening := by
    have program : (ServerConfig.init n serverfd ssl maxIdle).prog .listen = [.listenWhile] := rfl
    refine (total_eq_of_first program fun t op left => ?_).le
    by_cases same : t = .listen
    · rw [same, Function.update_self] at left
      cases left
    · rw [Function.update_of_ne same] at left
      exact forall_init (P := fun t op => t ≠ .listen → op.listening = 0)
        (fun other => absurd rfl other) (fun _ => rfl) (fun _ _ => rfl) (fun _ => rfl)
        t op left same
  reaping := by
    have program : (ServerConfig.init n serverfd ssl maxIdle).prog .reaper =
        [.reapStart, .takeTask] := rfl
    refine (total_eq_of_first program fun t op left => ?_).le
    by_cases same : t = .reaper
    · rw [same, Function.update_self] at left
      rw [List.mem_singleton.mp left]
      rfl
    · rw [Function.update_of_ne same] at left
      exact forall_init (P := fun t op => t ≠ .reaper → op.reaping = 0)
        (fun _ => rfl) (fun other => absurd rfl other) (fun _ _ => rfl) (fun _ => rfl)
        t op left same
  admits := (total_eq_zero (forall_init rfl rfl (fun _ => rfl) rfl)).le.trans (Nat.zero_le 1)
  scans := (total_eq_zero (forall_init rfl rfl (fun _ => rfl) rfl)).le.trans (Nat.zero_le 1)
  returning t pre maxIdle post split := absurd split (init_prog_ne rfl)

/-- What is left but for the first operation. -/
theorem mem_left {t' : Tid n} {op' : Op} (taken : Taken c c' t e op rest flow)
    (left : op' ∈ Function.update c.prog t rest t') :
    (t' = t ∧ op' ∈ rest) ∨ (t' ≠ t ∧ op' ∈ c.prog t') := by
  by_cases same : t' = t
  · subst same
    rw [Function.update_self] at left
    exact Or.inl ⟨rfl, left⟩
  · rw [Function.update_of_ne same] at left
    exact Or.inr ⟨same, left⟩

/-- At the head of the loop, and at an event, nothing is left of a turn. -/
theorem step_admits (inv : Looping c) (taken : Taken c c' t e op rest flow) :
    total Op.admits c'.prog ≤ 1 := by
  have moved := total_step_le Op.admits taken.program taken.progs
  obtain ⟨few, source⟩ := taken.rule.admits
  have before := inv.admits
  by_cases none : ((pushes flow).map Op.admits).sum = 0
  · omega
  · have at_loop : op.listens = true ∧ op.listening ≠ 0 := by
      rcases source none with rfl | ⟨i, nfds, rfl, _⟩ <;> exact ⟨rfl, nofun⟩
    have alone : total Op.admits c.prog = op.admits := by
      refine total_eq_of_first taken.program fun t' op' left => ?_
      have quiet := eq_zero_of_total_le_one inv.listening taken.program at_loop.2 left
      cases op' with
      | accept =>
          exact (taken.not_follows inv.listens inv.ordered at_loop.1 rfl rfl
            (mem_left taken left)).elim
      | epollWait => cases quiet
      | _ => rfl
    omega

theorem step_scans (inv : Looping c) (taken : Taken c c' t e op rest flow) :
    total Op.scans c'.prog ≤ 1 := by
  have moved := total_step_le Op.scans taken.program taken.progs
  obtain ⟨few, source, _⟩ := taken.rule.scans
  have before := inv.scans
  by_cases none : ((pushes flow).map Op.scans).sum = 0
  · omega
  · obtain ⟨maxIdle, rfl⟩ := source none
    have alone : total Op.scans c.prog = 0 := by
      refine total_eq_of_first taken.program fun t' op' left => ?_
      cases op' with
      | reapTime maxIdle' =>
          -- The head of the loop would be there twice.
          obtain ⟨pre, post, split⟩ := List.append_of_mem left
          have again : .reapWait maxIdle' ∈ post := by
            by_cases same : t' = t
            · subst same
              rw [Function.update_self] at split
              exact inv.returning t' (.reapWait maxIdle :: pre) maxIdle' post
                (by rw [taken.program, split, List.cons_append])
            · rw [Function.update_of_ne same] at split
              exact inv.returning t' pre maxIdle' post split
          have twice : .reapWait maxIdle' ∈ Function.update c.prog t rest t' :=
            split ▸ List.mem_append_right _ (List.mem_cons_of_mem _ again)
          cases eq_zero_of_total_le_one inv.reaping taken.program nofun twice
      | _ => rfl
    omega

theorem step (inv : Looping c) (taken : Taken c c' t e op rest flow) : Looping c' where
  listens := taken.listens inv.listens
  ordered t' := by
    by_cases same : t' = t
    · subst same
      rw [taken.self]
      exact taken.rule.pairwise_precedes (taken.program ▸ inv.ordered t')
    · rw [taken.other same]
      exact inv.ordered t'
  listening := by
    have moved := total_step_le Op.listening taken.program taken.progs
    have one := taken.rule.loops.1
    have before := inv.listening
    omega
  reaping := by
    have moved := total_step_le Op.reaping taken.program taken.progs
    have one := taken.rule.loops.2
    have before := inv.reaping
    omega
  admits := inv.step_admits taken
  scans := inv.step_scans taken
  returning t' pre maxIdle post split := by
    by_cases same : t' = t
    · subst same
      rw [taken.self] at split
      rcases continuation_split split rfl with ⟨between, pushed, rfl⟩ | ⟨pre', rfl, rfl⟩
      · exact List.mem_append_left _ (taken.rule.scans.2.2 pre maxIdle between pushed)
      · exact inv.returning t' (op :: pre') maxIdle post taken.program
    · rw [taken.other same] at split
      exact inv.returning t' pre maxIdle post split

end Looping

/-! ### After the flag is cleared -/

/-- When `accept` brings a connection in during the last turn, it is the last one. -/
theorem Looping.spent_of_accepted {clientfd : Nat} (inv : Looping c)
    (taken : Taken c c' t e .accept rest (.next [.construct clientfd])) : Spent c' where
  admits := by
    have moved := total_step_le Op.admits taken.program taken.progs
    have before := inv.admits
    have one : Op.admits .accept = 1 := rfl
    have none : ((pushes (.next [Op.construct clientfd])).map Op.admits).sum = 0 := rfl
    omega
  cleared t' pre i nfds post split := by
    have member : .forLoop i nfds ∈ c'.prog t' := split ▸ List.mem_append_right _ List.mem_cons_self
    obtain rfl := taken.listens inv.listens t' _ member rfl
    obtain rfl := inv.listens t _ taken.first rfl
    rw [taken.self] at split
    cases pre with
    | nil => cases split
    | cons first pre =>
        cases split
        exact Or.inl ⟨_, List.mem_cons_self, rfl⟩

namespace Spent

theorem quiet (spent : Spent c) (taken : Taken c c' t e op rest flow) : op.admits = 0 := by
  have single := le_total Op.admits taken.first
  rw [spent.admits] at single
  exact Nat.le_zero.mp single

theorem not_epollWait (spent : Spent c) (taken : Taken c c' t e op rest flow) :
    op ≠ .epollWait := by
  rintro rfl
  cases spent.quiet taken

/-- Where the loop goes on, the array is empty. -/
theorem empty (spent : Spent c) {i nfds : Nat} (program : c.prog t = .forLoop i nfds :: rest) :
    ∀ event ∈ c.shared.events, event = .zero := by
  rcases spent.cleared t [] i nfds rest program with ⟨_, impossible, _⟩ | empty
  · cases impossible
  · exact empty

theorem stays_empty (spent : Spent c) (taken : Taken c c' t e op rest flow)
    (empty : ∀ event ∈ c.shared.events, event = .zero) :
    ∀ event ∈ c'.shared.events, event = .zero := by
  rcases taken.rule.fills with waits | same | cleared
  · exact absurd waits (spent.not_epollWait taken)
  · rw [same]
    exact empty
  · exact cleared

/-- An event that was cleared is not one of the listening descriptor. -/
theorem none_admitted (spent : Spent c) (serverfd : c.shared.serverfd ≠ 0)
    (stopped : c.shared.running = false) (taken : Taken c c' t e op rest flow)
    (executed : exec t op e c.shared = some (flow, c'.shared)) :
    ((pushes flow).map Op.admits).sum = 0 := by
  by_contra some
  rcases taken.rule.admits.2 some with rfl | ⟨i, nfds, rfl, listening⟩
  · rw [exec_of_stopped stopped executed (Or.inl rfl)] at some
    exact some rfl
  · have zero : c.shared.events.getD i .zero = .zero := by
      rcases lt_or_ge i c.shared.events.length with inside | outside
      · rw [List.getD_eq_getElem _ _ inside]
        exact spent.empty taken.program _ (List.getElem_mem inside)
      · exact List.getD_eq_default _ _ outside
    rw [zero] at listening
    exact serverfd listening.symm

theorem step (spent : Spent c) (serverfd : c.shared.serverfd ≠ 0)
    (stopped : c.shared.running = false) (taken : Taken c c' t e op rest flow)
    (executed : exec t op e c.shared = some (flow, c'.shared)) : Spent c' := by
  constructor
  · have moved := total_step_le Op.admits taken.program taken.progs
    rw [spent.admits, spent.none_admitted serverfd stopped taken executed] at moved
    omega
  · intro t' pre i nfds post split
    by_cases same : t' = t
    · subst same
      rw [taken.self] at split
      rcases continuation_split split rfl with ⟨between, pushed, rfl⟩ | ⟨pre', rfl, rfl⟩
      · have member : .forLoop i nfds ∈ pushes flow :=
          pushed ▸ List.mem_append_right _ List.mem_cons_self
        rcases taken.rule.loops_over member with waits | ⟨j, nfds', rfl⟩
        · exact absurd waits (spent.not_epollWait taken)
        · exact Or.inr (spent.stays_empty taken (spent.empty taken.program))
      · rcases spent.cleared t' (op :: pre') i nfds post taken.program with
          ⟨op', member, clears⟩ | empty
        · rcases List.mem_cons.mp member with rfl | later
          · rcases taken.rule.clears clears with ⟨new, pushed, clears⟩ | cleared
            · exact Or.inl ⟨new, List.mem_append_left _ pushed, clears⟩
            · exact Or.inr cleared
          · exact Or.inl ⟨op', List.mem_append_right _ later, clears⟩
        · exact Or.inr (spent.stays_empty taken empty)
    · rw [taken.other same] at split
      rcases spent.cleared t' pre i nfds post split with there | empty
      · exact Or.inl there
      · exact Or.inr (spent.stays_empty taken empty)

end Spent

namespace Draining

theorem init {serverfd : Nat} (positive : 0 < serverfd) (ssl : Bool) (maxIdle : Int32) :
    Draining {} (init n serverfd ssl maxIdle) where
  looping := .init serverfd ssl maxIdle
  serverfd := positive.ne'
  fresh _ := rfl
  waits := nofun
  passes := nofun
  accepted := Or.inl rfl

theorem total_polls_le : total Op.polls c.prog ≤ total Op.admits c.prog :=
  Finset.sum_le_sum fun _ _ => List.sum_le_sum fun _ _ => Nat.le_add_right _ _

/-- A step that is counted: what it begins was left before. -/
theorem step_stopped (inv : Draining k c) (stopped : c.shared.running = false)
    (taken : Taken c c' t e op rest flow)
    (executed : exec t op e c.shared = some (flow, c'.shared)) : Draining (k.note op e) c' where
  looping := inv.looping.step taken
  serverfd := by
    rw [taken.rule.same_setup.2]
    exact inv.serverfd
  fresh running := by
    rw [taken.rule.stays_stopped stopped] at running
    cases running
  waits _ := by
    have moved := total_step_le Op.polls taken.program taken.progs
    have none : ((pushes flow).map Op.polls).sum = 0 := by
      by_contra some
      rw [exec_of_stopped stopped executed (Or.inl (taken.rule.polls some))] at some
      exact some rfl
    have before := inv.waits stopped
    simp only [Since.note]
    omega
  passes _ := by
    have moved := total_step_le Op.scans taken.program taken.progs
    have none : ((pushes flow).map Op.scans).sum = 0 := by
      by_contra some
      obtain ⟨maxIdle, head⟩ := taken.rule.scans.2.1 some
      rw [exec_of_stopped stopped executed (Or.inr ⟨maxIdle, head⟩)] at some
      exact some rfl
    have before := inv.passes stopped
    simp only [Since.note]
    omega
  accepted := by
    rcases inv.accepted with none | ⟨one, spent⟩
    · by_cases brings : e.accepted.isSome = true ∧ op = .accept
      · obtain ⟨given, rfl⟩ := brings
        refine Or.inr ⟨by simp only [Since.note, none, given, if_true, Op.takesIn], ?_⟩
        obtain ⟨clientfd, rfl⟩ := taken.rule.brings given
        exact inv.looping.spent_of_accepted taken
      · refine Or.inl ?_
        simp only [Since.note, none, Nat.zero_add]
        split
        · rename_i given
          cases op with
          | accept => exact absurd ⟨given, rfl⟩ brings
          | _ => rfl
        · rfl
    · have quiet : op.takesIn = 0 := Nat.eq_zero_of_add_eq_zero_left (spent.quiet taken)
      refine Or.inr ⟨?_, spent.step inv.serverfd stopped taken executed⟩
      rw [Since.note, quiet, ite_self, one]

theorem step (inv : Draining k c) (stepped : (server n).step t e c = some c') :
    Draining (noteStop c t e k) c' := by
  obtain ⟨op, rest, flow, program, executed, progs⟩ := (server n).step_eq_some stepped
  have taken : Taken c c' t e op rest flow := ⟨program, rule_of_exec executed, progs⟩
  rw [noteStop, program]
  cases running : c.shared.running with
  | false => exact inv.step_stopped running taken executed
  | true =>
      -- Nothing is counted yet, and what is left of a turn is at most one of each.
      have looping := inv.looping.step taken
      have kept : Draining {} c' := by
        refine ⟨looping, ?_, fun _ => rfl, fun _ => ?_, fun _ => ?_, Or.inl rfl⟩
        · rw [taken.rule.same_setup.2]
          exact inv.serverfd
        · exact (Nat.zero_add _).le.trans (total_polls_le.trans looping.admits)
        · exact (Nat.zero_add _).le.trans looping.scans
      rw [inv.fresh running]
      exact kept

theorem drains (inv : Draining k c) : Drains k c := by
  have accepted : k.accepted ≤ 1 := by
    rcases inv.accepted with none | ⟨one, _⟩ <;> omega
  cases running : c.shared.running with
  | true =>
      rw [inv.fresh running]
      exact ⟨nofun, Nat.zero_le 1, Nat.zero_le 1, Nat.zero_le 1⟩
  | false =>
      have waits := inv.waits running
      have passes := inv.passes running
      exact ⟨fun _ => running, by omega, accepted, by omega⟩

end Draining

/-! ### Every run -/

/-- In every run: from the step on in which user code calls `Shutdown()`, the server does
not wait for events, accept a connection or begin a pass more than once each. -/
theorem drains_of_positive {serverfd : Nat} {ssl : Bool} {maxIdle : Int32}
    {schedule : Schedule n} (positive : 0 < serverfd) :
    (server n).AlwaysWith noteStop Drains schedule {} (init n serverfd ssl maxIdle) := by
  apply Interleaving.Machine.alwaysWith_of_invariant Draining _ _ _
    (.of_forall (G := fun _ _ _ => True) (fun _ _ _ => trivial) schedule _)
  · intro k c t e c' inv _ stepped
    exact inv.step stepped
  · intro k c inv
    exact inv.drains
  · exact .init positive ssl maxIdle

/-- `Shutdown()` is called while the reaper begins a pass and the listening thread waits:
a client still comes in, and both loops end. -/
def lastTurnRun : Schedule 2 :=
  steps .listen 1 ++ steps .reaper 2 ++ choose .user { handler := .acts .shutdownServer } ++
    choose .listen { ready := some [⟨3, EPOLLIN⟩] } ++ steps .listen 1 ++
    choose .listen { accepted := some 5 } ++ steps .listen 11 ++ steps .reaper 6

theorem drains_of_last_turn :
    (server 2).AlwaysWith noteStop Drains lastTurnRun {} (init 2 3 false (-1)) ∧
      ∃ c, (server 2).run lastTurnRun (init 2 3 false (-1)) = some c ∧
        c.prog .listen = [] ∧ c.prog .reaper = [.takeTask] ∧
        c.shared.connections.lookup 5 = some (some ⟨0, 0⟩) :=
  ⟨drains_of_positive (by decide), _, rfl, rfl, rfl, rfl⟩

/-- The listening descriptor is 0, as what `memset` leaves of the second event is. -/
def zeroRun : Schedule 2 :=
  acceptOne 0 5 ++ steps .listen 1 ++ choose .user { handler := .acts .shutdownServer } ++
    choose .listen { ready := some [⟨0, EPOLLIN⟩, ⟨5, EPOLLIN⟩] } ++ steps .listen 1 ++
    choose .listen { accepted := some 7 } ++ steps .listen 9 ++
    choose .listen { accepted := some 9 }

/-- With it, more than one connection is accepted. -/
theorem drains_fails :
    ((server 2).run zeroRun (init 2 0 false (-1))).isSome = true ∧
      ¬ (server 2).AlwaysWith noteStop Drains zeroRun {} (init 2 0 false (-1)) := by
  decide +kernel

end ServerConfig

end LibSiot
