/-
Module: LibSiot.Proofs.Server.DescriptorOwners
Purpose: Who has which descriptor.  In a plain server in which each connection is shut
  down at most once, every open descriptor has one owner through accept, the constructor
  and `close`: none is left open without one, and none is closed for another.
Trusted boundary: none
Main exports: Owner, Owners, ServerConfig.Owned, ServerConfig.owned_of_singleRequest
-/
import LibSiot.Proofs.Server.NewConnection
import LibSiot.Proofs.Server.Teardown
import LibSiot.Proofs.Server.TerminationNotice

namespace LibSiot

open Interleaving (Flow)
open Interleaving.Machine (pushes AllOps total total_step_le le_total continuation_split)

/-- Who has an open descriptor: the server, which listens at it, `ListenEpoll`, which has
just accepted a connection at it, or the connection. -/
inductive Owner where
  | server
  | arriving
  | client (accept : Nat)
deriving DecidableEq, Repr

/-- The owners of the open descriptors. -/
abbrev Owners := Nat → Option Owner

namespace Op

/-- The sockets of a connection that an operation closes. -/
def closings (accept : Nat) : Op → Nat
  | .closeSocket conn => if conn.accept = accept then 1 else 0
  | _ => 0

/-- The operation closes a socket or deletes an object. -/
def releases : Op → Bool
  | .closeSocket _ => true
  | .delete _ => true
  | _ => false

/-- The owners after an operation. -/
def own {n : Nat} (e : Choice) (s : ServerState n) (k : Owners) : Op → Owners
  | .accept =>
      match e.accepted with
      | none => k
      | some clientfd => Function.update k clientfd (some .arriving)
  | .construct clientfd => Function.update k clientfd (some (.client s.nextAccept))
  | .closeSocket conn => Function.update k (s.socket conn.accept) none
  | _ => k

end Op

namespace ServerState

variable {n : Nat} {t : Tid n} {e : Choice} {s s' : ServerState n} {op : Op}
  {flow : Flow Op} {k : Owners}

/-! ### One step -/

/-- What an operation does with descriptors. -/
inductive Shift (s s' : ServerState n) (k : Owners) : Op → Flow Op → Owners → Prop where
  | arrives (clientfd : Nat) (unused : clientfd ∉ s.openFds)
      (opens : s'.openFds = clientfd :: s.openFds) (next : s'.nextAccept = s.nextAccept)
      (socket : s'.socket = s.socket) :
      Shift s s' k .accept (.next [.construct clientfd])
        (Function.update k clientfd (some .arriving))
  | made (clientfd : Nat) (flow : Flow Op) (opens : s'.openFds = s.openFds)
      (next : s'.nextAccept = s.nextAccept + 1)
      (socket : s'.socket = Function.update s.socket s.nextAccept clientfd)
      (none : ∀ fd, .construct fd ∉ pushes flow) :
      Shift s s' k (.construct clientfd) flow
        (Function.update k clientfd (some (.client s.nextAccept)))
  | closes (conn : Handle) (opens : s'.openFds = s.openFds.filter (· ≠ s.socket conn.accept))
      (next : s'.nextAccept = s.nextAccept) (socket : s'.socket = s.socket) :
      Shift s s' k (.closeSocket conn) (.next [])
        (Function.update k (s.socket conn.accept) none)
  | stays (op : Op) (flow : Flow Op) (other : ∀ conn, op ≠ .closeSocket conn)
      (constructs : op.constructs = false)
      (opens : s'.openFds = s.openFds) (next : s'.nextAccept = s.nextAccept)
      (socket : s'.socket = s.socket) (none : ∀ fd, .construct fd ∉ pushes flow) :
      Shift s s' k op flow k

theorem not_construct_of_all {ops : List Op}
    (none : ops.any Op.constructs = false) (fd : Nat) : .construct fd ∉ ops := by
  intro member
  exact absurd rfl (List.any_eq_false.mp none _ member)

theorem Rule.shift (rule : Rule t e s op flow s') (plain : s.ssl = false) :
    Shift s s' k op flow (op.own e s k) := by
  have common : op.spreads = true → ∀ fd, .construct fd ∉ pushes flow := by
    intro spreads fd member
    cases rule.common_of_pushed spreads _ member
  cases rule with
  | accepted clientfd given fresh =>
      rw [Op.own, given]
      exact .arrives clientfd fresh rfl rfl rfl
  | acceptThrew failed =>
      rw [Op.own, failed]
      exact .stays _ _ nofun rfl rfl rfl rfl (not_construct_of_all rfl)
  | acceptFailed failed =>
      rw [Op.own, failed]
      exact .stays _ _ nofun rfl rfl rfl rfl (not_construct_of_all rfl)
  | constructed clientfd => exact .made clientfd _ rfl rfl rfl (not_construct_of_all rfl)
  | constructorThrew clientfd error encrypted =>
      rw [plain] at encrypted
      cases encrypted
  | closeSocket conn => exact .closes conn rfl rfl rfl
  | takeTask | callbackUses | shutdown | deregister | drain | userUses => exact .stays _ _ nofun rfl rfl rfl rfl (common rfl)
  | _ => exact .stays _ _ nofun rfl rfl rfl rfl (not_construct_of_all rfl)

/-! ### `close` in `Shutdown()` -/

theorem shutdownBody_zero (plain : s.ssl = false) (accept : Nat) :
    s.shutdownBody ⟨accept, 0⟩ = [.lock (.connection ⟨accept, 0⟩), .closeSocket ⟨accept, 0⟩,
      .delete ⟨accept, 0⟩] := by
  simp [shutdownBody, plain]

/-- A decorator closes nothing itself. -/
theorem mem_shutdownBody_succ {accept level : Nat}
    (member : op ∈ s.shutdownBody ⟨accept, level + 1⟩) :
    (∀ conn, op ≠ .closeSocket conn) ∧ ∀ accept', op ≠ .delete ⟨accept', 0⟩ := by
  simp only [shutdownBody] at member
  split at member
  · cases member
  · simp only [List.cons_append, List.mem_cons, List.mem_append, List.mem_ite_nil_right,
      List.not_mem_nil, or_false] at member
    rcases member with rfl | (⟨_, rfl⟩ | ⟨_, rfl⟩) | rfl <;> simp

theorem sum_shutdownBody_closings (plain : s.ssl = false) (conn : Handle) (accept : Nat) :
    ((s.shutdownBody conn).map (Op.closings accept)).sum = if conn = ⟨accept, 0⟩ then 1 else 0 := by
  obtain ⟨accept', level⟩ := conn
  cases level with
  | zero => simp [shutdownBody_zero plain, Op.closings]
  | succ level =>
      rw [if_neg (by simp)]
      apply List.sum_eq_zero
      intro weight member
      obtain ⟨op, inside, rfl⟩ := List.mem_map.mp member
      cases op with
      | closeSocket conn => exact absurd rfl ((mem_shutdownBody_succ inside).1 conn)
      | _ => rfl

/-- A socket is closed for each body of `Shutdown()` that starts. -/
theorem Rule.closings_le (rule : Rule t e s op flow s') (plain : s.ssl = false) (accept : Nat) :
    s.starts ⟨accept, 0⟩ + ((pushes flow).map (Op.closings accept)).sum ≤
      s'.starts ⟨accept, 0⟩ := by
  cases rule with
  | takeTask task tasks queue => cases task <;> exact Nat.le_refl _
  | shutdown conn =>
      have body := sum_shutdownBody_closings plain conn accept
      have pushed := sum_shutdownOps (s := s) (Op.closings accept) conn rfl rfl
      simp only [starts, record, pushes, List.count_cons, pushed, Op.closings, beq_iff_eq,
        Event.shutdownStarted.injEq] at body ⊢
      omega
  | callbackUses | drain | userUses =>
      rw [pushes, sum_useOps (Op.closings accept) _ _ _ rfl rfl rfl]
      exact Nat.le_refl _
  | deregister conn =>
      have none := sum_dequeueOps (Op.closings accept)
        (s.connections.keysWhere (· = some conn)) fun fd => rfl
      simp only [pushes, none]
      exact Nat.le_refl _
  | _ => exact Nat.le_refl _

/-- Sockets are closed, and objects deleted, in `Shutdown()`. -/
theorem Rule.releases_from (rule : Rule t e s op flow s') (plain : s.ssl = false) {new : Op}
    (member : new ∈ pushes flow) (releases : new.releases = true) :
    ∃ outer, pushes flow = .deregister outer :: s.shutdownBody outer := by
  cases rule with
  | shutdown outer => exact ⟨outer, shutdownOps_plain plain outer⟩
  | callbackUses | drain | userUses =>
      rcases mem_useOps_append member with rfl | rfl | rfl | rfl <;> cases releases
  | takeTask task =>
      cases task <;> exact absurd releases (List.any_eq_false.mp rfl _ member)
  | deregister conn =>
      obtain ⟨fd, _, rfl | rfl | rfl | rfl⟩ := mem_dequeueOps member <;> cases releases
  | _ => exact absurd releases (List.any_eq_false.mp rfl _ member)

theorem Rule.closes_split (rule : Rule t e s op flow s') (plain : s.ssl = false)
    {pre between : List Op} {conn : Handle}
    (pushed : pushes flow = pre ++ .closeSocket conn :: between) :
    conn.level = 0 ∧ between = [.delete conn] := by
  have member : .closeSocket conn ∈ pushes flow :=
    pushed ▸ List.mem_append_right _ List.mem_cons_self
  obtain ⟨⟨accept, level⟩, body⟩ := rule.releases_from plain member rfl
  cases level with
  | zero =>
      rw [body, shutdownBody_zero plain] at pushed
      rcases pre with _ | ⟨_, _ | ⟨_, _ | ⟨_, _ | ⟨_, pre⟩⟩⟩⟩ <;> simp at pushed
      obtain ⟨_, _, rfl, rfl⟩ := pushed
      exact ⟨rfl, rfl⟩
  | succ level =>
      rw [body] at member
      rcases List.mem_cons.mp member with impossible | inside
      · cases impossible
      · exact absurd rfl ((mem_shutdownBody_succ inside).1 conn)

theorem Rule.deletes_split (rule : Rule t e s op flow s') (plain : s.ssl = false)
    {pre between : List Op} {accept : Nat}
    (pushed : pushes flow = pre ++ .delete ⟨accept, 0⟩ :: between) :
    .closeSocket ⟨accept, 0⟩ ∈ pre := by
  have member : .delete ⟨accept, 0⟩ ∈ pushes flow :=
    pushed ▸ List.mem_append_right _ List.mem_cons_self
  obtain ⟨⟨accept', level⟩, body⟩ := rule.releases_from plain member rfl
  cases level with
  | zero =>
      rw [body, shutdownBody_zero plain] at pushed
      rcases pre with _ | ⟨_, _ | ⟨_, _ | ⟨_, _ | ⟨_, pre⟩⟩⟩⟩ <;> simp at pushed
      obtain ⟨_, _, rfl, rfl, _⟩ := pushed
      simp
  | succ level =>
      rw [body] at member
      rcases List.mem_cons.mp member with impossible | inside
      · cases impossible
      · exact absurd rfl ((mem_shutdownBody_succ inside).2 accept)

/-! ### Requests -/

/-- A shutdown is requested for what is in the pool, by the reaper, or for what was made. -/
theorem Rule.requested (rule : Rule t e s op flow s') {accept : Nat}
    (requested : s'.Requested accept) :
    s.Requested accept ∨
      (∃ fd conn, s.connections.lookup fd = some (some conn) ∧ conn.accept = accept) ∨
      (∃ conn : Handle, op = .reapShutdown conn ∧ conn.accept = accept) ∨
      accept < s.nextAccept := by
  by_cases before : s.Requested accept
  · exact Or.inl before
  · right
    have none : s.trace.countP (Event.requests accept) = 0 := not_not.mp before
    cases rule with
    | lookupHangup fd events conn entry =>
        simp only [Requested, requests, record, List.countP_cons, none, Event.requests] at requested
        exact Or.inl ⟨fd, conn, entry, by simpa using requested⟩
    | reapExpired conn =>
        simp only [Requested, requests, record, List.countP_cons, none, Event.requests] at requested
        exact Or.inr (Or.inl ⟨conn, rfl, by simpa using requested⟩)
    | callbackDefers callback conn other acts made =>
        simp only [Requested, requests, record, List.countP_cons, none, Event.requests] at requested
        have same : other.accept = accept := by simpa using requested
        exact Or.inr (Or.inr (same ▸ made.1))
    | userDefers other acts made =>
        simp only [Requested, requests, record, List.countP_cons, none, Event.requests] at requested
        have same : other.accept = accept := by simpa using requested
        exact Or.inr (Or.inr (same ▸ made.1))
    | _ => exact absurd requested before

theorem Rule.delete_destroys {conn : Handle} (rule : Rule t e s (.delete conn) flow s') :
    s'.Destroyed conn := by
  cases rule
  exact List.mem_cons_self

end ServerState

namespace ServerConfig

open ServerState

variable {n : Nat}

/-! ### The property -/

/-- The connection has its descriptor. -/
def Has (k : Owners) (s : ServerState n) (accept : Nat) : Prop :=
  k (s.socket accept) = some (.client accept)

/-- The owners after a step. -/
def noteOwners (c : ServerConfig n) (t : Tid n) (e : Choice) (k : Owners) : Owners :=
  match c.prog t with
  | [] => k
  | op :: _ => op.own e c.shared k

/-- At first the server has the one descriptor at which it listens. -/
def listeningAt (serverfd : Nat) : Owners := Function.update (fun _ => none) serverfd (some .server)

/-- Every open descriptor has its owner: the server, a connection on its way through the
constructor, or one that was not deleted.  A connection has its own until right before it
is deleted, and nobody closes that of another. -/
structure Owned (k : Owners) (c : ServerConfig n) : Prop where
  opened : ∀ fd, fd ∈ c.shared.openFds ↔ k fd ≠ none
  listening : k c.shared.serverfd = some .server
  arriving : ∀ fd, k fd = some .arriving → ∃ t rest, c.prog t = .construct fd :: rest
  client : ∀ fd accept, k fd = some (.client accept) → accept < c.shared.nextAccept ∧
    c.shared.socket accept = fd ∧ ¬ c.shared.Destroyed ⟨accept, 0⟩
  standing : ∀ accept, accept < c.shared.nextAccept → ¬ c.shared.Destroyed ⟨accept, 0⟩ →
    Has k c.shared accept ∨ ∃ t rest, c.prog t = .delete ⟨accept, 0⟩ :: rest
  closes : ∀ t conn rest, c.prog t = .closeSocket conn :: rest → Has k c.shared conn.accept

/-! ### The invariant -/

/-- Requests are counted, and are for connections that were made. -/
structure Accounts (c : ServerConfig n) : Prop where
  plain : c.shared.ssl = false
  numbered : Numbered c
  paid : Paid c
  expiring : AllOps (fun s _ op => ∀ conn, op = .reapShutdown conn →
    conn.accept < s.nextAccept) c
  requested : ∀ accept, c.shared.Requested accept → accept < c.shared.nextAccept

/-- What of the descriptors is settled, and what of each connection is still to close. -/
structure Ledger (k : Owners) (c : ServerConfig n) : Prop where
  opened : ∀ fd, fd ∈ c.shared.openFds ↔ k fd ≠ none
  listening : k c.shared.serverfd = some .server
  coming : AllOps (fun _ _ op => ∀ fd, op = .construct fd → k fd = some .arriving) c
  arriving : ∀ fd, k fd = some .arriving → ∃ t rest, c.prog t = .construct fd :: rest
  client : ∀ fd accept, k fd = some (.client accept) →
    accept < c.shared.nextAccept ∧ c.shared.socket accept = fd
  few : ∀ accept, total (Op.closings accept) c.prog ≤ c.shared.starts ⟨accept, 0⟩
  spent : ∀ accept, accept < c.shared.nextAccept → ¬ Has k c.shared accept →
    total (Op.closings accept) c.prog = 0 ∧ c.shared.starts ⟨accept, 0⟩ ≠ 0
  closing : ∀ t pre conn post, c.prog t = pre ++ .closeSocket conn :: post →
    conn.level = 0 ∧ ∃ post', post = .delete conn :: post'
  deleting : ∀ t pre accept post, c.prog t = pre ++ .delete ⟨accept, 0⟩ :: post →
    ¬ Has k c.shared accept ∨ .closeSocket ⟨accept, 0⟩ ∈ pre
  destroyed : ∀ accept, c.shared.Destroyed ⟨accept, 0⟩ → ¬ Has k c.shared accept
  standing : ∀ accept, accept < c.shared.nextAccept → ¬ c.shared.Destroyed ⟨accept, 0⟩ →
    Has k c.shared accept ∨ ∃ t rest, c.prog t = .delete ⟨accept, 0⟩ :: rest

variable {c c' : ServerConfig n} {t : Tid n} {e : Choice} {op : Op} {rest : List Op}
  {flow : Flow Op} {k k' : Owners}

namespace Accounts

theorem init (serverfd : Nat) (maxIdle : Int32) : Accounts (init n serverfd false maxIdle) where
  plain := rfl
  numbered := .init serverfd false maxIdle
  paid := .init serverfd false maxIdle
  expiring := forall_init nofun nofun (fun _ => nofun) nofun
  requested _ requested := absurd rfl requested

/-- In a plain server no constructor fails. -/
theorem succeed (acc : Accounts c) (t : Tid n) (e : Choice) : ConstructorsSucceed c t e := by
  rw [ConstructorsSucceed, Next]
  split
  · trivial
  · intro _ encrypted
    rw [acc.plain] at encrypted
    cases encrypted

theorem step (acc : Accounts c) (single : SingleRequest c t e)
    (stepped : (server n).step t e c = some c') (taken : Taken c c' t e op rest flow) :
    Accounts c' where
  plain := taken.rule.same_setup.1.trans acc.plain
  numbered := acc.numbered.step taken (acc.succeed t e)
  paid := acc.paid.step single stepped
  expiring := by
    rintro t' _ member conn rfl
    have old : .reapShutdown conn ∈ c.prog t' → conn.accept < c'.shared.nextAccept := fun there =>
      (taken.rule.numbered (acc.expiring t' _ there conn rfl)).1
    rcases taken.mem member with ⟨rfl, pushed⟩ | ⟨rfl, later⟩ | ⟨_, there⟩
    · obtain ⟨fd, entry, _⟩ := taken.rule.reaps pushed
      exact (taken.rule.numbered (acc.numbered.pool fd conn entry).1).1
    · exact old (taken.program ▸ List.mem_cons_of_mem _ later)
    · exact old there
  requested accept requested := by
    refine (taken.rule.numbered ?_).1
    rcases taken.rule.requested requested with before | ⟨fd, conn, entry, rfl⟩ | ⟨conn, rfl, rfl⟩ |
      made
    · exact acc.requested accept before
    · exact (acc.numbered.pool fd conn entry).1
    · exact acc.expiring t _ taken.first conn rfl
    · exact made

/-- What is shut down was made, and is shut down once. -/
theorem starts_le (acc : Accounts c) (accept : Nat) : c.shared.starts ⟨accept, 0⟩ ≤ 1 := by
  have paid := acc.paid.starts ⟨accept, 0⟩
  have single := acc.paid.single accept
  simp only at paid
  omega

theorem made_of_starts (acc : Accounts c) (accept : Nat)
    (started : c.shared.starts ⟨accept, 0⟩ ≠ 0) :
    accept < c.shared.nextAccept := by
  refine acc.requested accept fun none => started ?_
  have paid := acc.paid.starts ⟨accept, 0⟩
  simp only at paid
  omega

theorem made_of_destroyed (acc : Accounts c) {accept : Nat}
    (destroyed : c.shared.Destroyed ⟨accept, 0⟩) : accept < c.shared.nextAccept := by
  have deleted : 0 < c.shared.deletes ⟨accept, 0⟩ := List.count_pos_iff.mpr destroyed
  have paid := acc.paid.deletes ⟨accept, 0⟩
  exact acc.made_of_starts accept (by omega)

theorem made_of_pending (acc : Accounts c) {accept : Nat}
    (pending : .delete ⟨accept, 0⟩ ∈ c.prog t) : accept < c.shared.nextAccept := by
  have weight := le_total (Op.deletions ⟨accept, 0⟩) pending
  rw [Op.deletions, if_pos rfl] at weight
  have paid := acc.paid.deletes ⟨accept, 0⟩
  exact acc.made_of_starts accept (by omega)

end Accounts

namespace Ledger

theorem init (serverfd : Nat) (maxIdle : Int32) :
    Ledger (listeningAt serverfd) (init n serverfd false maxIdle) where
  opened fd := by
    simp [ServerConfig.init, ServerState.init, listeningAt, Function.update_apply]
  listening := Function.update_self ..
  coming := forall_init nofun nofun (fun _ => nofun) nofun
  arriving fd owner := by
    simp [listeningAt, Function.update_apply] at owner
  client fd accept owner := by
    simp [listeningAt, Function.update_apply] at owner
  few accept := by
    rw [Interleaving.Machine.total_eq_zero (forall_init rfl rfl (fun _ => rfl) rfl)]
    exact Nat.zero_le _
  spent accept made := absurd made (Nat.not_lt_zero accept)
  closing t pre conn post split := absurd split (init_prog_ne rfl)
  deleting t pre accept post split := absurd split (init_prog_ne rfl)
  destroyed accept destroyed := by cases destroyed
  standing accept made := absurd made (Nat.not_lt_zero accept)

/-- Who closes a socket closes that of its own connection. -/
theorem has_of_closeSocket (led : Ledger k c) (acc : Accounts c) {conn : Handle}
    (program : c.prog t = .closeSocket conn :: rest) :
    conn.accept < c.shared.nextAccept ∧ Has k c.shared conn.accept := by
  have weight := le_total (Op.closings conn.accept)
    (program ▸ List.mem_cons_self : .closeSocket conn ∈ c.prog t)
  rw [Op.closings, if_pos rfl] at weight
  have few := led.few conn.accept
  have made := acc.made_of_starts conn.accept (by omega)
  refine ⟨made, ?_⟩
  by_contra without
  have none := (led.spent conn.accept made without).1
  omega

/-- A connection keeps its descriptor until it is closed. -/
theorem has_iff (led : Ledger k c) (acc : Accounts c) (taken : Taken c c' t e op rest flow)
    (shift : Shift c.shared c'.shared k op flow k') {accept : Nat}
    (made : accept < c.shared.nextAccept) :
    Has k' c'.shared accept ↔
      Has k c.shared accept ∧ ∀ conn, op = .closeSocket conn → conn.accept ≠ accept := by
  rw [Has, Has, (taken.rule.numbered made).2]
  cases shift with
  | arrives clientfd unused =>
      have free : k clientfd = none := not_not.mp fun owned => unused ((led.opened _).mpr owned)
      by_cases same : c.shared.socket accept = clientfd
      · rw [same, Function.update_self, free]
        simp
      · rw [Function.update_of_ne same]
        simp
  | made clientfd =>
      have coming := led.coming t _ taken.first clientfd rfl
      by_cases same : c.shared.socket accept = clientfd
      · rw [same, Function.update_self, coming]
        simp [Nat.ne_of_gt made]
      · rw [Function.update_of_ne same]
        simp
  | closes conn =>
      have owner : k _ = _ := (led.has_of_closeSocket acc taken.program).2
      by_cases same : c.shared.socket accept = c.shared.socket conn.accept
      · rw [same, Function.update_self, owner]
        simp
      · rw [Function.update_of_ne same]
        have other : conn.accept ≠ accept := by
          rintro rfl
          exact same rfl
        simp [other]
  | stays op flow other => simp [other]

/-- A thread that does something else next still does so after a step of another kind. -/
theorem head_kept (taken : Taken c c' t e op rest flow) {t' : Tid n} {first : Op}
    {rest' : List Op} (program : c.prog t' = first :: rest') (other : op ≠ first) :
    c'.prog t' = first :: rest' := by
  have elsewhere : t' ≠ t := by
    rintro rfl
    rw [taken.program] at program
    exact other (List.cons.inj program).1
  rw [taken.other elsewhere, program]

/-- A new connection has its descriptor. -/
theorem has_of_made (shift : Shift c.shared c'.shared k op flow k') {accept : Nat}
    (made : accept < c'.shared.nextAccept)
    (new : ¬ accept < c.shared.nextAccept) : Has k' c'.shared accept := by
  cases shift with
  | made clientfd _ _ next socket =>
      rw [next] at made
      obtain rfl : accept = c.shared.nextAccept := by omega
      rw [Has, socket, Function.update_self, Function.update_self]
  | arrives _ _ _ next => exact absurd (next ▸ made) new
  | closes _ _ next => exact absurd (next ▸ made) new
  | stays _ _ _ _ _ next => exact absurd (next ▸ made) new

theorem step_closing (led : Ledger k c) (acc : Accounts c)
    (taken : Taken c c' t e op rest flow) (t' : Tid n) (pre : List Op) (conn : Handle) (post : List Op)
    (split : c'.prog t' = pre ++ .closeSocket conn :: post) :
    conn.level = 0 ∧ ∃ post', post = .delete conn :: post' := by
  by_cases same : t' = t
  · subst same
    rw [taken.self] at split
    rcases continuation_split split rfl with ⟨between, pushed, rfl⟩ | ⟨pre', rfl, rfl⟩
    · obtain ⟨bottom, rfl⟩ := taken.rule.closes_split acc.plain pushed
      exact ⟨bottom, rest, rfl⟩
    · exact led.closing t' (op :: pre') conn post taken.program
  · rw [taken.other same] at split
    exact led.closing t' pre conn post split

section Step

variable (led : Ledger k c) (acc : Accounts c) (taken : Taken c c' t e op rest flow)
  (shift : Shift c.shared c'.shared k op flow k')

include led taken shift

theorem step_opened (fd : Nat) : fd ∈ c'.shared.openFds ↔ k' fd ≠ none := by
  have before := led.opened fd
  cases shift with
  | arrives clientfd _ opens =>
      rw [opens, List.mem_cons, before, Function.update_apply]
      split <;> simp_all
  | made clientfd _ opens =>
      have coming := led.coming t _ taken.first clientfd rfl
      rw [opens, before, Function.update_apply]
      split <;> simp_all
  | closes conn opens =>
      rw [opens, List.mem_filter, before, Function.update_apply]
      split <;> simp_all
  | stays _ _ _ _ opens => rw [opens, before]

theorem step_arriving (fd : Nat) (owner : k' fd = some .arriving) :
    ∃ t rest, c'.prog t = .construct fd :: rest := by
  have kept : k fd = some .arriving → op ≠ .construct fd →
      ∃ t rest, c'.prog t = .construct fd :: rest := by
    intro before other
    obtain ⟨t', rest', program⟩ := led.arriving fd before
    exact ⟨t', rest', head_kept taken program other⟩
  cases shift with
  | arrives clientfd =>
      by_cases same : fd = clientfd
      · subst same
        exact ⟨t, rest, taken.self⟩
      · rw [Function.update_of_ne same] at owner
        exact kept owner nofun
  | made clientfd =>
      by_cases same : fd = clientfd
      · rw [same, Function.update_self] at owner
        cases owner
      · rw [Function.update_of_ne same] at owner
        exact kept owner fun impossible => same (Op.construct.inj impossible).symm
  | closes conn =>
      rw [Function.update_apply] at owner
      split at owner
      · cases owner
      · exact kept owner nofun
  | stays _ _ _ constructs =>
      refine kept owner ?_
      rintro rfl
      cases constructs

theorem step_client (fd accept : Nat) (owner : k' fd = some (.client accept)) :
    accept < c'.shared.nextAccept ∧ c'.shared.socket accept = fd := by
  have kept : k fd = some (.client accept) →
      accept < c'.shared.nextAccept ∧ c'.shared.socket accept = fd := by
    intro before
    obtain ⟨made, socket⟩ := led.client fd accept before
    obtain ⟨made', same⟩ := taken.rule.numbered made
    exact ⟨made', same.trans socket⟩
  cases shift with
  | arrives clientfd =>
      rw [Function.update_apply] at owner
      split at owner
      · cases owner
      · exact kept owner
  | made clientfd _ _ next socket =>
      rw [Function.update_apply] at owner
      split at owner
      · rename_i same
        cases owner
        rw [next, socket, same, Function.update_self]
        exact ⟨Nat.lt_succ_self _, rfl⟩
      · exact kept owner
  | closes conn =>
      rw [Function.update_apply] at owner
      split at owner
      · cases owner
      · exact kept owner
  | stays => exact kept owner

include acc

theorem step_listening : k' c'.shared.serverfd = some .server := by
  rw [taken.rule.same_setup.2]
  have before := led.listening
  cases shift with
  | arrives clientfd unused =>
      rw [Function.update_of_ne, before]
      rintro rfl
      exact unused ((led.opened _).mpr (by simp [before]))
  | made clientfd =>
      have coming := led.coming t _ taken.first clientfd rfl
      rw [Function.update_of_ne, before]
      rintro rfl
      rw [before] at coming
      cases coming
  | closes conn =>
      have owner : k _ = _ := (led.has_of_closeSocket acc taken.program).2
      rw [Function.update_of_ne, before]
      intro same
      rw [← same, before] at owner
      cases owner
  | stays => exact before

theorem step_coming :
    AllOps (fun _ _ op => ∀ fd, op = .construct fd → k' fd = some .arriving) c' := by
  rintro t' _ member fd rfl
  rcases taken.mem member with ⟨rfl, pushed⟩ | old
  · cases shift with
    | arrives clientfd =>
        cases List.mem_singleton.mp pushed
        exact Function.update_self ..
    | made _ _ _ _ _ none => exact absurd pushed (none fd)
    | closes => cases pushed
    | stays _ _ _ _ _ _ _ none => exact absurd pushed (none fd)
  · have there : .construct fd ∈ c.prog t' := by
      rcases old with ⟨rfl, later⟩ | ⟨_, there⟩
      · exact taken.program ▸ List.mem_cons_of_mem _ later
      · exact there
    have before := led.coming t' _ there fd rfl
    cases shift with
    | arrives clientfd unused =>
        rw [Function.update_of_ne, before]
        rintro rfl
        exact unused ((led.opened _).mpr (by simp [before]))
    | made clientfd =>
        exact (taken.not_follows acc.numbered.listens acc.numbered.ordered rfl rfl rfl old).elim
    | closes conn =>
        have owner : k _ = _ := (led.has_of_closeSocket acc taken.program).2
        rw [Function.update_of_ne, before]
        rintro rfl
        rw [before] at owner
        cases owner
    | stays => exact before

theorem step_spent (acc' : Accounts c') (accept : Nat) (made : accept < c'.shared.nextAccept)
    (without : ¬ Has k' c'.shared accept) :
    total (Op.closings accept) c'.prog = 0 ∧ c'.shared.starts ⟨accept, 0⟩ ≠ 0 := by
  have moved := total_step_le (Op.closings accept) taken.program taken.progs
  have started := taken.rule.closings_le acc.plain accept
  have few := led.few accept
  have once := acc'.starts_le accept
  have single := le_total (Op.closings accept) taken.first
  by_cases old : accept < c.shared.nextAccept
  · by_cases has : Has k c.shared accept
    · -- The step closes its socket.
      have closes : op.closings accept = 1 := by
        by_contra other
        refine without ((led.has_iff acc taken shift old).mpr ⟨has, ?_⟩)
        rintro conn rfl
        intro same
        exact other (if_pos same)
      omega
    · obtain ⟨none, before⟩ := led.spent accept old has
      omega
  · exact absurd (has_of_made shift made old) without

theorem step_deleting (t' : Tid n) (pre : List Op) (accept : Nat) (post : List Op)
    (split : c'.prog t' = pre ++ .delete ⟨accept, 0⟩ :: post) :
    ¬ Has k' c'.shared accept ∨ .closeSocket ⟨accept, 0⟩ ∈ pre := by
  have stays : .delete ⟨accept, 0⟩ ∈ c.prog t' → ¬ Has k c.shared accept →
      ¬ Has k' c'.shared accept := by
    intro pending without has
    have made := acc.made_of_pending pending
    exact without ((led.has_iff acc taken shift made).mp has).1
  by_cases same : t' = t
  · subst same
    rw [taken.self] at split
    rcases continuation_split split rfl with ⟨between, pushed, rfl⟩ | ⟨pre', rfl, rfl⟩
    · exact Or.inr (taken.rule.deletes_split acc.plain pushed)
    · have pending : .delete ⟨accept, 0⟩ ∈ c.prog t' := taken.program ▸
        List.mem_cons_of_mem _ (List.mem_append_right _ List.mem_cons_self)
      rcases led.deleting t' (op :: pre') accept post taken.program with without | closes
      · exact Or.inl (stays pending without)
      · rcases List.mem_cons.mp closes with rfl | later
        · -- It is closed in this step.
          refine Or.inl fun has => ?_
          have made := acc.made_of_pending pending
          exact ((led.has_iff acc taken shift made).mp has).2 _ rfl rfl
        · exact Or.inr (List.mem_append_right _ later)
  · rw [taken.other same] at split
    have pending : .delete ⟨accept, 0⟩ ∈ c.prog t' :=
      split ▸ List.mem_append_right _ List.mem_cons_self
    exact (led.deleting t' pre accept post split).imp_left (stays pending)

theorem step_destroyed (accept : Nat) (destroyed : c'.shared.Destroyed ⟨accept, 0⟩) :
    ¬ Has k' c'.shared accept := by
  intro has
  rcases taken.rule.destroyed destroyed with before | deletes
  · have made := acc.made_of_destroyed before
    exact led.destroyed accept before ((led.has_iff acc taken shift made).mp has).1
  · cases op <;> cases deletes
    have made := acc.made_of_pending taken.first
    rcases led.deleting t [] accept rest taken.program with without | impossible
    · exact without ((led.has_iff acc taken shift made).mp has).1
    · cases impossible

theorem step_standing (accept : Nat) (made : accept < c'.shared.nextAccept)
    (alive : ¬ c'.shared.Destroyed ⟨accept, 0⟩) :
    Has k' c'.shared accept ∨ ∃ t rest, c'.prog t = .delete ⟨accept, 0⟩ :: rest := by
  by_cases old : accept < c.shared.nextAccept
  · have before : ¬ c.shared.Destroyed ⟨accept, 0⟩ := fun destroyed =>
      alive (taken.rule.trace_mono destroyed)
    rcases led.standing accept old before with has | ⟨t', rest', program⟩
    · by_cases closes : ∀ conn, op = .closeSocket conn → conn.accept ≠ accept
      · exact Or.inl ((led.has_iff acc taken shift old).mpr ⟨has, closes⟩)
      · -- Its deletion comes next.
        simp only [not_forall, not_not] at closes
        obtain ⟨⟨accept', level⟩, rfl, rfl⟩ := closes
        obtain ⟨rfl, post, rfl⟩ := led.closing t [] _ rest taken.program
        have goesOn : flow = .next [] := by
          cases shift with
          | closes => rfl
          | stays _ _ other => exact absurd rfl (other _)
        refine Or.inr ⟨t, post, ?_⟩
        rw [taken.self, goesOn]
        rfl
    · refine Or.inr ⟨t', rest', head_kept taken program ?_⟩
      rintro rfl
      exact alive taken.rule.delete_destroys
  · exact Or.inl (has_of_made shift made old)

end Step

theorem step (led : Ledger k c) (acc : Accounts c) (acc' : Accounts c')
    (taken : Taken c c' t e op rest flow) : Ledger (noteOwners c t e k) c' := by
  rw [noteOwners, taken.program]
  have shift : Shift c.shared c'.shared k op flow (op.own e c.shared k) :=
    taken.rule.shift acc.plain
  exact {
    opened := led.step_opened taken shift
    listening := led.step_listening acc taken shift
    coming := led.step_coming acc taken shift
    arriving := led.step_arriving taken shift
    client := led.step_client taken shift
    few := by
      intro accept
      have moved := total_step_le (Op.closings accept) taken.program taken.progs
      have started := taken.rule.closings_le acc.plain accept
      have few := led.few accept
      omega
    spent := led.step_spent acc taken shift acc'
    closing := led.step_closing acc taken
    deleting := led.step_deleting acc taken shift
    destroyed := led.step_destroyed acc taken shift
    standing := led.step_standing acc taken shift }

theorem owned (led : Ledger k c) (acc : Accounts c) : Owned k c where
  opened := led.opened
  listening := led.listening
  arriving := led.arriving
  client fd accept owner := by
    obtain ⟨made, socket⟩ := led.client fd accept owner
    refine ⟨made, socket, fun destroyed => led.destroyed accept destroyed ?_⟩
    rw [Has, socket, owner]
  standing := led.standing
  closes t conn rest program := (led.has_of_closeSocket acc program).2

end Ledger

/-! ### Every run -/

/-- In every run of a plain server, under any interleaving, in which no connection gets a
second request for a shutdown: every open descriptor has its owner. -/
theorem owned_of_singleRequest (serverfd : Nat) (maxIdle : Int32) (schedule : Schedule n)
    (single : (server n).Along SingleRequest schedule (init n serverfd false maxIdle)) :
    (server n).AlwaysWith noteOwners Owned schedule (listeningAt serverfd)
      (init n serverfd false maxIdle) := by
  apply Interleaving.Machine.alwaysWith_of_invariant
    (fun k c => Ledger k c ∧ Accounts c) _ _ _ single
  · rintro k c t e c' ⟨led, acc⟩ guard stepped
    obtain ⟨op, rest, flow, program, rule, progs⟩ := rule_of_step stepped
    have taken : Taken c c' t e op rest flow := ⟨program, rule, progs⟩
    have acc' := acc.step guard stepped taken
    exact ⟨led.step acc acc' taken, acc'⟩
  · rintro k c ⟨led, acc⟩
    exact led.owned acc
  · exact ⟨.init serverfd maxIdle, .init serverfd maxIdle⟩

/-- A connection is shut down once, and the next client comes at its descriptor. -/
def reopenedRun : Schedule 1 := deferredRun 1 13 ++ acceptOne 3 5

theorem owned_of_reopened :
    (server 1).AlwaysWith noteOwners Owned reopenedRun (listeningAt 3) (init 1 3 false (-1)) ∧
      ∃ c, (server 1).run reopenedRun (init 1 3 false (-1)) = some c ∧
        c.shared.Destroyed ⟨0, 0⟩ ∧ c.shared.socket 1 = c.shared.socket 0 ∧
        c.shared.socket 1 ∈ c.shared.openFds :=
  ⟨owned_of_singleRequest 3 (-1) reopenedRun (by decide +kernel), _, rfl, by decide, by decide,
    by decide⟩

/-- With a second request the next client comes between the two, and its socket is closed. -/
theorem owned_fails :
    ∃ c, (server 1).run (deferredRun 2 14 ++ acceptOne 3 5 ++ steps .only 4)
        (init 1 3 false (-1)) = some c ∧
      c.shared.connections.lookup 5 = some (some ⟨1, 0⟩) ∧ ¬ c.shared.Destroyed ⟨1, 0⟩ ∧
      c.shared.socket 1 ∉ c.shared.openFds :=
  ⟨_, rfl, rfl, by decide, by decide⟩

end ServerConfig

end LibSiot
