/-
Module: LibSiot.Proofs.Server.ErasingLoops
Purpose: The loops of `DequeueConnection` and of the reaper over `connections_`, with
  the iterator they use.  Each erases the entry it stands at and then advances.
Trusted boundary: none
Main exports: ServerState.DequeueLoop, ServerState.ReapLoop, ServerState.RemovesAll,
  ServerState.erasingLoops_iff
-/
import LibSiot.Library.MapIterator
import LibSiot.Proofs.Server.IdleLimit

namespace LibSiot

open Interleaving (Flow)
open Interleaving.Machine (Performs pushes)
open OrderedMap (Ending RangeFor Erases)

namespace Op

/-- The operation, and what it pushes, puts nothing into the pool. -/
def removesOnly : Op → Bool
  | .erase _ => true
  | .epollDel _ => true
  | .reapShutdown _ => true
  | .running _ _ => true
  | op => op.common

theorem removesOnly_of_common {op : Op} (common : op.common = true) : op.removesOnly = true := by
  cases op <;> first | rfl | exact common

end Op

namespace ServerState

variable {n : Nat} {t : Tid n} {e : Choice} {s s' : ServerState n} {op : Op} {flow : Flow Op}
  {maxIdle tm : UInt64} {conn : Handle} {visited : List Nat} {ending : Ending}

/-! ### The two loops -/

/-- What the loop of `DequeueConnection` does for an entry. -/
def dequeueTurn (conn : Handle) (fd : Nat) (value : Option Handle) : Option (List Op) :=
  some (if value = some conn then dequeueOps fd else [])

/-- What the loop of the reaper does for an entry.  The null pointer is dereferenced. -/
def reapTurn (maxIdle tm : UInt64) (fd : Nat) (value : Option Handle) (s : ServerState n) :
    Option (List Op) :=
  match value with
  | none => none
  | some conn =>
      some (if s.due maxIdle tm conn then [.erase fd, .epollDel fd, .reapShutdown conn] else [])

/-- A thread does `ops` to the end, or crashes. -/
def Does (t : Tid n) (e : Choice) (ops : Option (List Op)) (s : ServerState n)
    (result : Option (ServerState n)) : Prop :=
  match ops with
  | none => result = none
  | some ops => ∃ performed s', Performs (server n) t e ops s performed s' ∧ result = some s'

/-- The loop of `DequeueConnection`, from `connections_.begin()`. -/
def DequeueLoop (t : Tid n) (e : Choice) (conn : Handle) (s : ServerState n) :
    List Nat → Ending → ServerState n → Prop :=
  RangeFor ServerState.connections (fun fd value => Does t e (dequeueTurn conn fd value))
    (s.connections.position none) s

/-- The loop of the reaper, from `connections_.begin()`. -/
def ReapLoop (t : Tid n) (e : Choice) (maxIdle tm : UInt64) (s : ServerState n) :
    List Nat → Ending → ServerState n → Prop :=
  RangeFor ServerState.connections
    (fun fd value s => Does t e (s.reapTurn maxIdle tm fd value) s)
    (s.connections.position none) s

/-- `DequeueConnection` as one operation does the turns of its loop for all entries. -/
theorem deregister_eq (conn : Handle) (s : ServerState n) :
    s.deregister conn =
      goOn (s.connections.entries.flatMap fun entry =>
          (dequeueTurn conn entry.1 entry.2).getD [])
        { s with isShutdown := Function.update s.isShutdown conn true } := by
  have each : ∀ entries : List (Nat × Option Handle),
      ((entries.filter fun entry => entry.2 = some conn).map (·.1)).flatMap dequeueOps =
        entries.flatMap fun entry => (dequeueTurn conn entry.1 entry.2).getD [] := by
    intro entries
    induction entries with
    | nil => rfl
    | cons entry entries ih =>
        by_cases same : entry.2 = some conn
        · simp [dequeueTurn, same, ih]
        · simp [dequeueTurn, same, ih]
  rw [deregister, OrderedMap.keysWhere, each]

/-- The walk over the pool by key does the turns of the loop of the reaper. -/
theorem reapNext_eq {after : Option Nat} {fd : Nat} {value : Option Handle}
    (met : s.connections.next after = some (fd, value)) :
    s.reapNext maxIdle tm after =
      (s.reapTurn maxIdle tm fd value).elim s.crash fun ops =>
        s.goOn (ops ++ [.reapNext maxIdle tm (some fd)]) := by
  simp only [reapNext, met]
  cases value with
  | none => rfl
  | some conn =>
      by_cases due : s.due maxIdle tm conn = true
      · simp [reapTurn, due]
      · simp [reapTurn, due]

/-- What such a loop is to do: it returns without having advanced an iterator whose
element was erased, it visits every entry once, and it leaves those that do not match. -/
structure RemovesAll (matching : Option Handle → Prop) (s : ServerState n) (visited : List Nat)
    (ending : Ending) (s' : ServerState n) : Prop where
  returned : ending = .returned
  visited : visited = s.connections.entries.map (·.1)
  left : ∀ fd value, s'.connections.lookup fd = some value ↔
    s.connections.lookup fd = some value ∧ ¬ matching value

/-! ### What a turn does to its entry -/

theorem Rule.removesOnly (rule : Rule t e s op flow s') (removes : op.removesOnly = true) :
    (∀ new ∈ pushes flow, new.removesOnly = true) ∧
      ∀ fd, s.connections.lookup fd = none → s'.connections.lookup fd = none := by
  constructor
  · intro new member
    by_cases spreads : op.spreads = true
    · exact Op.removesOnly_of_common (rule.common_of_pushed spreads new member)
    · cases rule with
      | takeTask | callbackUses | shutdown | deregister | drain | userUses => exact absurd rfl spreads
      | _ => first | exact List.all_eq_true.mp rfl new member | cases removes
  · intro fd absent
    cases rule with
    | erase fd' =>
        rw [record, OrderedMap.lookup_erase]
        split
        · rfl
        · exact absent
    | _ => first | exact absent | cases removes

/-- What is not in the pool stays out of it. -/
theorem absent_of_performs {ops performed : List Op} {fd : Nat}
    (performs : Performs (server n) t e ops s performed s')
    (removes : ∀ op ∈ ops, op.removesOnly = true) (absent : s.connections.lookup fd = none) :
    s'.connections.lookup fd = none := by
  induction performs with
  | done => exact absent
  | @step op rest pushed performed s next s' executed _ ih =>
      obtain ⟨removes', stays⟩ :=
        (rule_of_exec executed).removesOnly (removes op List.mem_cons_self)
      apply ih
      · intro new member
        rcases List.mem_append.mp member with new' | old
        · exact removes' new new'
        · exact removes new (List.mem_cons_of_mem _ old)
      · exact stays fd absent

/-- An entry that was erased is gone afterwards. -/
theorem gone_of_erase {after performed : List Op} {fd : Nat}
    (performs : Performs (server n) t e (.erase fd :: after) s performed s')
    (removes : ∀ op ∈ after, op.removesOnly = true) : s'.connections.lookup fd = none := by
  cases performs with
  | step executed remaining =>
      cases executed
      apply absent_of_performs remaining removes
      rw [record, OrderedMap.lookup_erase, if_pos rfl]

theorem gone_of_dequeue {performed : List Op} {fd : Nat}
    (performs : Performs (server n) t e (dequeueOps fd) s performed s') :
    s'.connections.lookup fd = none := by
  cases performs with
  | @step _ _ pushed _ _ next _ executed remaining =>
      have rule : Rule t e s (.lock .connections) (.next pushed) next := rule_of_exec executed
      cases rule
      exact gone_of_erase remaining (List.all_eq_true.mp rfl)

/-- A turn with nothing to do. -/
theorem Does.nothing {result : Option (ServerState n)} (does : Does t e (some []) s result) :
    result = some s := by
  obtain ⟨performed, s', performs, rfl⟩ := does
  cases performs
  rfl

theorem dequeueLoop_erases (t : Tid n) (e : Choice) (conn : Handle) (s : ServerState n) :
    Erases ServerState.connections (fun fd value => Does t e (dequeueTurn conn fd value))
      (fun _ value => value = some conn) s where
  kept fd value result other does := by
    rw [dequeueTurn, if_neg other] at does
    exact does.nothing
  gone fd value next same does := by
    rw [dequeueTurn, if_pos same] at does
    obtain ⟨performed, s', performs, ⟨⟩⟩ := does
    exact gone_of_dequeue performs

/-- The entry is one that the loop of the reaper does not leave alone. -/
def NullOrDue (maxIdle tm : UInt64) (s : ServerState n) (value : Option Handle) : Prop :=
  ∀ conn, value = some conn → s.due maxIdle tm conn = true

theorem reapLoop_erases (t : Tid n) (e : Choice) (maxIdle tm : UInt64) (s : ServerState n) :
    Erases ServerState.connections
      (fun fd value s => Does t e (s.reapTurn maxIdle tm fd value) s)
      (fun _ value => s.NullOrDue maxIdle tm value) s where
  kept fd value result alone does := by
    cases value with
    | none => exact absurd nofun alone
    | some conn =>
        have notDue : ¬ s.due maxIdle tm conn = true := by
          intro due
          apply alone
          rintro _ ⟨⟩
          exact due
        rw [reapTurn, if_neg notDue] at does
        exact does.nothing
  gone fd value next due does := by
    cases value with
    | none => cases does
    | some conn =>
        rw [reapTurn, if_pos (due conn rfl)] at does
        obtain ⟨performed, s', performs, ⟨⟩⟩ := does
        exact gone_of_erase performs (List.all_eq_true.mp rfl)

/-! ### Where the loops do what they are to do -/

/-- A loop that leaves every entry alone is right if none matches, and one that touches
an entry is not. -/
theorem removesAll_iff {body : Nat → Option Handle → ServerState n → Option (ServerState n) → Prop}
    {touches : Nat → Option Handle → Prop} {matching : Option Handle → Prop}
    (erases : Erases ServerState.connections body touches s)
    (matched : ∀ fd value, matching value → touches fd value)
    (loop : RangeFor ServerState.connections body (s.connections.position none) s visited ending
      s') :
    RemovesAll matching s visited ending s' ↔
      ∀ fd value, s.connections.lookup fd = some value → ¬ touches fd value := by
  constructor
  · intro removes
    exact (loop.returned_iff erases).mp removes.returned
  · intro alone
    have untouched : ∀ entry ∈ s.connections.above none, ¬ touches entry.1 entry.2 := by
      intro entry member
      exact alone entry.1 entry.2 (OrderedMap.mem_above.mp member).1
    obtain ⟨returned, all, rfl⟩ := loop.of_untouched erases rfl untouched
    refine ⟨returned, by rw [all, OrderedMap.above_none], ?_⟩
    intro fd value
    constructor
    · intro there
      exact ⟨there, fun matches' => alone fd value there (matched fd value matches')⟩
    · exact And.left

theorem performs_dequeue (quiet : e.throws = false) (free : s.locks .connections = .free)
    (fd : Nat) : ∃ performed s', Performs (server n) t e (dequeueOps fd) s performed s' := by
  let locked := s.setLock .connections { writer := some t, readers := [] }
  obtain ⟨mid, erased, _⟩ := performs_erase (t := t) (s := locked) quiet fd
  have unlocked : Performs (server n) t e [.unlock .connections true] mid
      [.unlock .connections true] _ := .single rfl
  exact ⟨_, _, ((Performs.single (exec_lock free)).append erased).append unlocked⟩

/-- Where nobody holds `connections_lock_`, the loop of `DequeueConnection` goes on. -/
theorem dequeueLoop_exists (quiet : e.throws = false) (free : s.locks .connections = .free) :
    ∃ visited ending s', DequeueLoop t e conn s visited ending s' := by
  apply OrderedMap.rangeFor_exists (dequeueLoop_erases t e conn s)
  intro fd value _
  rw [dequeueTurn]
  split
  · obtain ⟨_, s', performs⟩ := performs_dequeue (t := t) quiet free fd
    exact ⟨_, _, _, performs, rfl⟩
  · exact ⟨_, _, _, .done s, rfl⟩

/-- Where nobody holds the locks of the connections, the loop of the reaper goes on. -/
theorem Sound.reapLoop_exists (sound : Sound s) (quiet : e.throws = false)
    (returns : e.handler = .returns)
    (free : ∀ name, name ≠ .connections → s.locks name = .free) :
    ∃ visited ending s', ReapLoop t e maxIdle tm s visited ending s' := by
  apply OrderedMap.rangeFor_exists (reapLoop_erases t e maxIdle tm s)
  intro fd value there
  obtain ⟨conn, rfl, _⟩ := sound fd value there
  simp only [reapTurn]
  split
  · obtain ⟨_, s', performs, _⟩ := sound.performs_turn (t := t) quiet returns free there
    exact ⟨_, _, _, performs, rfl⟩
  · exact ⟨_, _, _, .done s, rfl⟩

/-- Neither loop erases and goes on soundly: the loop of `DequeueConnection` is right
exactly where the connection is in no entry, and that of the reaper where no entry is
null and none is due. -/
theorem erasingLoops_iff (t : Tid n) (e : Choice) (conn : Handle) (maxIdle tm : UInt64)
    (s : ServerState n) :
    (∀ visited ending s', DequeueLoop t e conn s visited ending s' →
      (RemovesAll (fun value => value = some conn) s visited ending s' ↔
        ∀ fd, s.connections.lookup fd ≠ some (some conn))) ∧
    (∀ visited ending s', ReapLoop t e maxIdle tm s visited ending s' →
      (RemovesAll (fun value => ∃ conn, value = some conn ∧ s.due maxIdle tm conn = true)
          s visited ending s' ↔
        ∀ fd value, s.connections.lookup fd = some value →
          ∃ conn, value = some conn ∧ s.due maxIdle tm conn = false)) ∧
    (e.throws = false → s.locks .connections = .free →
      ∃ visited ending s', DequeueLoop t e conn s visited ending s') ∧
    (Sound s → e.throws = false → e.handler = .returns →
      (∀ name, name ≠ .connections → s.locks name = .free) →
      ∃ visited ending s', ReapLoop t e maxIdle tm s visited ending s') := by
  refine ⟨?_, ?_, dequeueLoop_exists, Sound.reapLoop_exists⟩
  · intro visited ending s' loop
    rw [removesAll_iff (dequeueLoop_erases t e conn s) (fun _ _ same => same) loop]
    constructor
    · intro alone fd entry
      exact alone fd _ entry rfl
    · rintro absent fd value entry rfl
      exact absent fd entry
  · intro visited ending s' loop
    rw [removesAll_iff (reapLoop_erases t e maxIdle tm s) ?_ loop]
    · apply forall₃_congr
      intro fd value _
      rw [NullOrDue]
      push Not
      apply exists_congr
      intro conn
      rw [ne_eq, Bool.not_eq_true]
    · rintro fd value ⟨conn, rfl, due⟩ _ ⟨⟩
      exact due

/-- With a connection that is in no entry, and none that is due. -/
theorem erasingLoops_of_untouched :
    (∃ visited s', DequeueLoop .reaper {} { accept := 7, level := 0 } (oneConnection 5) visited
      .returned s') ∧
    ∃ visited s', ReapLoop .reaper {} 5 12 (oneConnection 5) visited .returned s' := by
  obtain ⟨dequeues, reaps, dequeued, reaped⟩ :=
    erasingLoops_iff .reaper {} { accept := 7, level := 0 } 5 12 (oneConnection 5)
  constructor
  · obtain ⟨visited, ending, s', loop⟩ := dequeued rfl rfl
    have removes := (dequeues visited ending s' loop).mpr fun fd entry => by
      obtain ⟨_, ⟨⟩⟩ := eq_of_oneConnection entry
    exact ⟨visited, s', removes.returned ▸ loop⟩
  · obtain ⟨visited, ending, s', loop⟩ :=
      reaped (oneConnection_sound 5) rfl rfl fun _ _ => rfl
    have removes := (reaps visited ending s' loop).mpr fun fd value entry => by
      obtain ⟨_, rfl⟩ := eq_of_oneConnection entry
      exact ⟨_, rfl, by decide⟩
    exact ⟨visited, s', removes.returned ▸ loop⟩

/-- With the connection of the only entry, and with that entry due, either loop advances
an iterator whose element was erased. -/
theorem erasingLoops_fail :
    (∃ s', DequeueLoop Tid.only {} { accept := 0, level := 0 } (oneConnection 5) [5]
      .invalidated s') ∧
    ∃ s', ReapLoop .reaper {} 5 16 (oneConnection 5) [5] .invalidated s' := by
  constructor
  · obtain ⟨_, s', performs⟩ :=
      performs_dequeue (t := Tid.only) (e := {}) (s := oneConnection 5) rfl rfl 5
    exact ⟨s', .invalidated rfl ⟨_, _, performs, rfl⟩ (gone_of_dequeue performs)⟩
  · have entry : (oneConnection 5).connections.lookup 5 = some (some ⟨0, 0⟩) := rfl
    obtain ⟨_, s', performs, _⟩ := (oneConnection_sound 5).performs_turn (t := .reaper)
      (e := {}) rfl rfl (fun _ _ => rfl) entry
    exact ⟨s', .invalidated rfl ⟨_, _, performs, rfl⟩
      (gone_of_erase performs (List.all_eq_true.mp rfl))⟩

end ServerState

end LibSiot
