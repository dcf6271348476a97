/-
Module: LibSiot.Proofs.Server.ConnectionLife
Purpose: The life of an accepted connection, as far as the pool goes, as a machine of
  its own: it comes, is registered once, under one descriptor and with one handle,
  and is removed for good.  The server refines this machine for each connection.
Trusted boundary: none
Main exports: Life, Life.Step, ServerConfig.Lives, ServerConfig.lives_of_step,
  ServerConfig.life_of_constructorsSucceed
-/
import LibSiot.Proofs.Server.NewConnection

namespace LibSiot

open Interleaving (Flow)
open Interleaving.Machine (pushes)
open Relation (ReflTransGen)

/-! ### The abstract machine -/

/-- Where a connection is in its life. -/
inductive Life where
  | unborn
  | coming (fd : Nat)
  | pooled (fd : Nat) (outer : Handle)
  | gone
deriving DecidableEq, Repr

/-- What can happen to it. -/
inductive Life.Step : Life → Life → Prop where
  | make (fd : Nat) : Step .unborn (.coming fd)
  | register (fd : Nat) (outer : Handle) : Step (.coming fd) (.pooled fd outer)
  | refuse (fd : Nat) : Step (.coming fd) .gone
  | remove (fd : Nat) (outer : Handle) : Step (.pooled fd outer) .gone

namespace ServerState

variable {n : Nat} {t : Tid n} {e : Choice} {s s' : ServerState n} {op : Op} {flow : Flow Op}

/-- Connections are numbered by a constructor, which goes on to register them. -/
theorem Rule.nextAccept (rule : Rule t e s op flow s') :
    s'.nextAccept = s.nextAccept ∨ s'.nextAccept = s.nextAccept + 1 ∧
      ∃ fd ops, flow = .next ops ∧
        .addDecorators fd (.constructed { accept := s.nextAccept, level := 0 }) ∈ ops := by
  cases rule with
  | constructed clientfd => exact Or.inr ⟨rfl, clientfd, _, rfl, .tail _ (.head _)⟩
  | _ => exact Or.inl rfl

/-- What comes of the call of `AddDecorators`. -/
theorem Rule.addDecorators {fd : Nat} {raw : Handle}
    (rule : Rule t e s (.addDecorators fd (.constructed raw)) flow s') :
    (∃ level, s'.connections.lookup fd = some (some { raw with level := level })) ∨
      ∀ fd' conn, s'.connections.lookup fd' = some (some conn) →
        s.connections.lookup fd' = some (some conn) := by
  cases rule with
  | decoratorsThrew => exact Or.inr fun _ _ entry => stored_of_subscript entry
  | decoratedNull =>
      right
      intro fd' conn entry
      simp only [setConnection, record, OrderedMap.lookup_insert] at entry
      split at entry
      · cases entry
      · exact entry
  | decorated clientfd raw decorators =>
      exact Or.inl ⟨decorators.length, by simp [setConnection, record, OrderedMap.lookup_insert]⟩

end ServerState

namespace ServerConfig

open ServerState

variable {n : Nat}

/-! ### The server as that machine -/

/-- Where connection `accept` is in its life. -/
inductive Lives (c : ServerConfig n) (accept : Nat) : Life → Prop where
  | unborn (later : c.shared.nextAccept ≤ accept) : Lives c accept .unborn
  | coming (t : Tid n) (fd : Nat) (raw : Handle)
      (member : .addDecorators fd (.constructed raw) ∈ c.prog t) (same : raw.accept = accept) :
      Lives c accept (.coming fd)
  | pooled (fd : Nat) (outer : Handle)
      (entry : c.shared.connections.lookup fd = some (some outer))
      (same : outer.accept = accept) : Lives c accept (.pooled fd outer)
  | gone (made : accept < c.shared.nextAccept)
      (absent : ∀ fd outer, c.shared.connections.lookup fd = some (some outer) →
        outer.accept ≠ accept)
      (registered : ∀ t fd raw, .addDecorators fd (.constructed raw) ∈ c.prog t →
        raw.accept ≠ accept) : Lives c accept .gone

variable {c c' : ServerConfig n} {t : Tid n} {e : Choice} {op : Op} {rest : List Op}
  {flow : Flow Op} {accept : Nat} {a b : Life}

theorem exists_lives (c : ServerConfig n) (accept : Nat) : ∃ a, Lives c accept a := by
  by_cases later : c.shared.nextAccept ≤ accept
  · exact ⟨_, .unborn later⟩
  · by_cases there : ∃ fd outer, c.shared.connections.lookup fd = some (some outer) ∧
        outer.accept = accept
    · obtain ⟨fd, outer, entry, same⟩ := there
      exact ⟨_, .pooled fd outer entry same⟩
    · by_cases comes : ∃ t fd raw, .addDecorators fd (.constructed raw) ∈ c.prog t ∧
          raw.accept = accept
      · obtain ⟨t, fd, raw, member, same⟩ := comes
        exact ⟨_, .coming t fd raw member same⟩
      · refine ⟨_, .gone (Nat.not_le.mp later) ?_ ?_⟩
        · exact fun fd outer entry same => there ⟨fd, outer, entry, same⟩
        · exact fun t fd raw member same => comes ⟨t, fd, raw, member, same⟩

namespace Numbered

theorem fresh (inv : Numbered c) {fd : Nat} {raw : Handle}
    (member : .addDecorators fd (.constructed raw) ∈ c.prog t) : c.shared.Fresh fd raw := by
  obtain ⟨raw', same, fresh⟩ := inv.adding t _ member fd _ rfl
  cases same
  exact fresh

/-- One connection at a time is about to be registered. -/
theorem adding_unique (inv : Numbered c) {t' : Tid n} {fd fd' : Nat} {conn conn' : Pointer}
    (first : .addDecorators fd conn ∈ c.prog t) (second : .addDecorators fd' conn' ∈ c.prog t') :
    fd' = fd := by
  obtain rfl := inv.listens t _ first rfl
  obtain rfl := inv.listens t' _ second rfl
  obtain ⟨i, inside, here⟩ := List.mem_iff_getElem.mp first
  obtain ⟨j, inside', there⟩ := List.mem_iff_getElem.mp second
  have ordered := List.pairwise_iff_getElem.mp (inv.ordered .listen)
  rcases Nat.lt_trichotomy i j with less | rfl | more
  · have precedes := ordered i j inside inside' less
    rw [here, there] at precedes
    cases precedes
  · rw [here] at there
    cases there
    rfl
  · have precedes := ordered j i inside' inside more
    rw [here, there] at precedes
    cases precedes

/-- A connection that is somewhere in its life was made. -/
theorem made_of_lives (inv : Numbered c) (lives : Lives c accept a) (born : a ≠ .unborn) :
    accept < c.shared.nextAccept := by
  cases lives with
  | unborn => exact absurd rfl born
  | coming t fd raw member same => exact same ▸ (inv.fresh member).accepted
  | pooled fd outer entry same => exact same ▸ (inv.pool fd outer entry).1
  | gone made => exact made

theorem lives_unique (inv : Numbered c) (first : Lives c accept a) (second : Lives c accept b) :
    b = a := by
  by_cases later : c.shared.nextAccept ≤ accept
  · have unborn : ∀ {a}, Lives c accept a → a = .unborn := by
      intro a lives
      by_contra born
      exact absurd (inv.made_of_lives lives born) (Nat.not_lt.mpr later)
    rw [unborn first, unborn second]
  · cases first with
    | unborn impossible => exact absurd impossible later
    | coming t fd raw member same =>
        cases second with
        | unborn impossible => exact absurd impossible later
        | coming t' fd' raw' member' => rw [inv.adding_unique member member']
        | pooled fd' outer entry same' =>
            exact absurd (same'.trans same.symm) ((inv.fresh member).absent fd' outer entry)
        | gone _ _ registered => exact absurd same (registered t fd raw member)
    | pooled fd outer entry same =>
        cases second with
        | unborn impossible => exact absurd impossible later
        | coming t fd' raw member same' =>
            exact absurd (same.trans same'.symm) ((inv.fresh member).absent fd outer entry)
        | pooled fd' outer' entry' same' =>
            obtain rfl := inv.fd_eq entry entry' (same'.trans same.symm)
            rw [entry] at entry'
            cases entry'
            rfl
        | gone _ absent => exact absurd same (absent fd outer entry)
    | gone _ absent registered =>
        cases second with
        | unborn impossible => exact absurd impossible later
        | coming t fd raw member same => exact absurd same (registered t fd raw member)
        | pooled fd outer entry same => exact absurd same (absent fd outer entry)
        | gone => rfl

/-! ### One step -/

/-- Who is about to be registered after a step was so before, or is new. -/
theorem adding_of_step (taken : Taken c c' t e op rest flow) {t' : Tid n} {fd : Nat} {raw : Handle}
    (member : .addDecorators fd (.constructed raw) ∈ c'.prog t') :
    raw.accept = c.shared.nextAccept ∨
      (t' = t ∧ .addDecorators fd (.constructed raw) ∈ rest) ∨
        (t' ≠ t ∧ .addDecorators fd (.constructed raw) ∈ c.prog t') := by
  refine (taken.mem member).imp_left fun pushed => ?_
  rw [(taken.rule.adds pushed.2).2.1]

theorem adding_before (taken : Taken c c' t e op rest flow) {t' : Tid n} {fd : Nat} {raw : Handle}
    (old : (t' = t ∧ .addDecorators fd (.constructed raw) ∈ rest) ∨
      (t' ≠ t ∧ .addDecorators fd (.constructed raw) ∈ c.prog t')) :
    .addDecorators fd (.constructed raw) ∈ c.prog t' := by
  rcases old with ⟨rfl, later⟩ | ⟨_, there⟩
  · exact taken.program ▸ List.mem_cons_of_mem _ later
  · exact there

theorem lives_unborn (taken : Taken c c' t e op rest flow)
    (later : c.shared.nextAccept ≤ accept) :
    Lives c' accept .unborn ∨ ∃ fd, Lives c' accept (.coming fd) := by
  by_cases still : c'.shared.nextAccept ≤ accept
  · exact Or.inl (.unborn still)
  · rcases taken.rule.nextAccept with same | ⟨next, fd, ops, pushes, member⟩
    · rw [same] at still
      exact absurd later still
    · have here : c.shared.nextAccept = accept := by omega
      refine Or.inr ⟨fd, .coming t fd { accept := c.shared.nextAccept, level := 0 } ?_ here⟩
      rw [taken.self, pushes]
      exact List.mem_append_left _ member

/-- Once it is made, a connection that is neither in the pool nor about to get there is
gone. -/
theorem lives_gone (taken : Taken c c' t e op rest flow)
    (made : accept < c.shared.nextAccept)
    (absent : ∀ fd outer, c'.shared.connections.lookup fd = some (some outer) →
      outer.accept ≠ accept)
    (registered : ∀ t' fd raw, (t' = t ∧ .addDecorators fd (.constructed raw) ∈ rest) ∨
      (t' ≠ t ∧ .addDecorators fd (.constructed raw) ∈ c.prog t') → raw.accept ≠ accept) :
    Lives c' accept .gone := by
  refine .gone (taken.rule.numbered made).1 absent fun t' fd raw member => ?_
  rcases adding_of_step taken member with fresh | old
  · rw [fresh]
    exact Nat.ne_of_gt made
  · exact registered t' fd raw old

theorem lives_coming (inv : Numbered c) (taken : Taken c c' t e op rest flow) {t' : Tid n}
    {fd : Nat} {raw : Handle} (member : .addDecorators fd (.constructed raw) ∈ c.prog t') :
    ∃ a, Lives c' raw.accept a ∧ (a = .coming fd ∨ Life.Step (.coming fd) a) := by
  have fresh := inv.fresh member
  by_cases here : t' = t
  · subst here
    rw [taken.program] at member
    rcases List.mem_cons.mp member with rfl | later
    · rcases taken.rule.addDecorators with ⟨level, entry⟩ | absent
      · exact ⟨_, .pooled fd _ entry rfl, Or.inr (.register fd _)⟩
      · refine ⟨.gone, lives_gone taken fresh.accepted ?_ ?_, Or.inr (.refuse fd)⟩
        · exact fun fd' outer entry => fresh.absent fd' outer (absent fd' outer entry)
        · exact fun t'' fd' raw' old => (inv.not_adding taken rfl old).elim
    · have ordered := inv.ordered t'
      rw [taken.program] at ordered
      have first : op = .lock .connections :=
        of_decide_eq_true ((List.pairwise_cons.mp ordered).1 _ later)
      subst first
      refine ⟨_, .coming t' fd raw ?_ rfl, Or.inl rfl⟩
      rw [taken.self, taken.rule.lock_flow]
      exact later
  · exact ⟨_, .coming t' fd raw (taken.other here ▸ member) rfl, Or.inl rfl⟩

theorem lives_pooled (inv : Numbered c) (taken : Taken c c' t e op rest flow) {fd : Nat}
    {outer : Handle} (entry : c.shared.connections.lookup fd = some (some outer)) :
    ∃ a, Lives c' outer.accept a ∧ (a = .pooled fd outer ∨ Life.Step (.pooled fd outer) a) := by
  by_cases still : c'.shared.connections.lookup fd = some (some outer)
  · exact ⟨_, .pooled fd outer still rfl, Or.inl rfl⟩
  · refine ⟨.gone, lives_gone taken (inv.pool fd outer entry).1 ?_ ?_,
      Or.inr (.remove fd outer)⟩
    · intro fd' conn entry' same
      rcases inv.entry_old taken entry' with ⟨old, _⟩ | ⟨raw, _, other, fresh⟩
      · obtain rfl := inv.fd_eq entry old same
        rw [entry] at old
        cases old
        exact still entry'
      · exact fresh.absent fd outer entry (same.symm.trans other)
    · intro t' fd' raw old same
      exact (inv.fresh (adding_before taken old)).absent fd outer entry same.symm

theorem lives_still_gone (inv : Numbered c) (taken : Taken c c' t e op rest flow)
    (made : accept < c.shared.nextAccept)
    (absent : ∀ fd outer, c.shared.connections.lookup fd = some (some outer) →
      outer.accept ≠ accept)
    (registered : ∀ t fd raw, .addDecorators fd (.constructed raw) ∈ c.prog t →
      raw.accept ≠ accept) : Lives c' accept .gone := by
  refine lives_gone taken made ?_ ?_
  · intro fd outer entry same
    rcases inv.entry_old taken entry with ⟨old, _⟩ | ⟨raw, rfl, other, _⟩
    · exact absent fd outer old same
    · exact registered t fd raw taken.first (other.symm.trans same)
  · exact fun t' fd raw old => registered t' fd raw (adding_before taken old)

/-- Each step of the server is one of each connection's life, or leaves it as it is. -/
theorem lives_step (inv : Numbered c) (taken : Taken c c' t e op rest flow)
    (lives : Lives c accept a) : ∃ a', Lives c' accept a' ∧ (a' = a ∨ Life.Step a a') := by
  cases lives with
  | unborn later =>
      rcases lives_unborn taken later with still | ⟨fd, coming⟩
      · exact ⟨_, still, Or.inl rfl⟩
      · exact ⟨_, coming, Or.inr (.make fd)⟩
  | coming t' fd raw member same => exact same ▸ inv.lives_coming taken member
  | pooled fd outer entry same => exact same ▸ inv.lives_pooled taken entry
  | gone made absent registered =>
      exact ⟨_, inv.lives_still_gone taken made absent registered, Or.inl rfl⟩

end Numbered

/-! ### Every run -/

/-- In every run in which no constructor fails, from any state of it to any later one: each
connection is at exactly one point of its life, and gets from the one point to the other by
steps of it. -/
theorem life_of_constructorsSucceed {serverfd : Nat} {ssl : Bool} {maxIdle : Int32}
    {before during : Schedule n} {c c' : ServerConfig n} (accept : Nat)
    (succeed : (server n).Along ConstructorsSucceed before (init n serverfd ssl maxIdle))
    (reached : (server n).run before (init n serverfd ssl maxIdle) = some c)
    (succeed' : (server n).Along ConstructorsSucceed during c)
    (run : (server n).run during c = some c') :
    ∃ a a', (∀ b, Lives c accept b ↔ b = a) ∧ (∀ b, Lives c' accept b ↔ b = a') ∧
      ReflTransGen Life.Step a a' := by
  have kept : ∀ c t e c', Numbered c → ConstructorsSucceed c t e →
      (server n).step t e c = some c' → Numbered c' := by
    intro c t e c' inv succeed stepped
    obtain ⟨op, rest, flow, program, rule, progs⟩ := rule_of_step stepped
    exact inv.step ⟨program, rule, progs⟩ succeed
  have inv : Numbered c := Interleaving.Machine.invariant_of_run Numbered kept
    (Numbered.init serverfd ssl maxIdle) succeed reached
  have inv' : Numbered c' := Interleaving.Machine.invariant_of_run Numbered kept inv succeed' run
  obtain ⟨a, lives⟩ := exists_lives c accept
  obtain ⟨a', lives', path⟩ :=
    Interleaving.Machine.refines_of_run (fun c => Lives c accept) Numbered kept
      (fun c t e c' a inv _ stepped lives => by
        obtain ⟨op, rest, flow, program, rule, progs⟩ := rule_of_step stepped
        exact inv.lives_step ⟨program, rule, progs⟩ lives)
      inv lives succeed' run
  refine ⟨a, a', fun b => ⟨inv.lives_unique lives, ?_⟩, fun b => ⟨inv'.lives_unique lives', ?_⟩,
    path⟩
  · rintro rfl
    exact lives
  · rintro rfl
    exact lives'

/-- A connection that is registered hangs up, and is removed. -/
def removedRun : Schedule 1 :=
  steps .listen 1 ++ choose .listen { ready := some [⟨5, EPOLLHUP⟩] } ++ steps .listen 8

theorem life_of_removed :
    ∃ c c', (server 1).run (acceptOne 3 5) (init 1 3 false (-1)) = some c ∧
      (server 1).run removedRun c = some c' ∧ c'.shared.connections.lookup 5 = none ∧
      ∃ a', (∀ b, Lives c' 0 b ↔ b = a') ∧ ReflTransGen Life.Step (.pooled 5 ⟨0, 0⟩) a' := by
  have succeed : ∀ c ∈ (server 1).run (acceptOne 3 5) (init 1 3 false (-1)),
      (server 1).Along ConstructorsSucceed removedRun c := by
    decide +kernel
  have runs : ∃ c c', (server 1).run (acceptOne 3 5) (init 1 3 false (-1)) = some c ∧
      (server 1).run removedRun c = some c' ∧
      c.shared.connections.lookup 5 = some (some ⟨0, 0⟩) ∧
      c'.shared.connections.lookup 5 = none := ⟨_, _, rfl, rfl, rfl, rfl⟩
  obtain ⟨c, c', reached, run, entry, removed⟩ := runs
  obtain ⟨a, a', here, there, path⟩ :=
    life_of_constructorsSucceed 0 (by decide +kernel) reached (succeed c reached) run
  rw [← (here _).mp (.pooled 5 ⟨0, 0⟩ entry rfl)] at path
  exact ⟨c, c', reached, run, removed, a', there, path⟩

end ServerConfig

end LibSiot
