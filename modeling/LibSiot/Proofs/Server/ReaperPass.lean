/-
Module: LibSiot.Proofs.Server.ReaperPass
Purpose: One pass of the reaper: it takes the entries that are due by its test from
  the pool and the epoll set, and shuts those of them down that are not shut down yet.
Trusted boundary: none
Main exports: ServerState.Reaps, ServerState.reapPass, ServerState.Sound.reaps_pass,
  ServerState.Sound.pass_finishes
-/
import LibSiot.Proofs.Server.StackShutdown

namespace LibSiot

open Interleaving (Flow)
open Interleaving.Machine (Finishes Performs finishes_cons finishes_nil)

namespace Op

/-- The operation is part of the `Shutdown()` of an object of the connection, and shuts
down only levels below `level`. -/
def partOf (accept level : Nat) : Op → Prop
  | .shutdown conn => conn.accept = accept ∧ conn.level < level
  | .deregister conn => conn.accept = accept
  | .lock (.connection conn) => conn.accept = accept
  | .closeSocket conn => conn.accept = accept
  | .drain conn => conn.accept = accept
  | .drained _ => True
  | .lock (.ssl _) => True
  | .use conn => conn.accept = accept
  | .unlock (.ssl _) _ => True
  | .delete conn => conn.accept = accept
  | _ => False

end Op

namespace ServerState

variable {n : Nat} {t : Tid n} {e : Choice} {s s' s'' : ServerState n} {op : Op}
  {flow : Flow Op} {accept level : Nat}

/-! ### `Shutdown()` of one connection -/

/-- What `Shutdown()` of an object of the connection leaves as it is, the object being
in no entry of the pool. -/
structure Torn (accept level : Nat) (s s' : ServerState n) : Prop where
  connections : s'.connections = s.connections
  maxIdle : s'.maxIdle = s.maxIdle
  lastUse : ∀ other, other ≠ accept → s'.lastUse other = s.lastUse other
  socket : s'.socket = s.socket
  epollSet : ∀ fd, fd ≠ s.socket accept → (fd ∈ s'.epollSet ↔ fd ∈ s.epollSet)
  unwatched : ∀ fd ∈ s'.epollSet, fd ∈ s.epollSet
  openFds : ∀ fd, fd ≠ s.socket accept → (fd ∈ s'.openFds ↔ fd ∈ s.openFds)
  isShutdown : ∀ conn, conn.accept ≠ accept → s'.isShutdown conn = s.isShutdown conn
  locks : ∀ conn, conn.accept ≠ accept →
    s'.locks (.connection conn) = s.locks (.connection conn)
  destroyed : ∀ conn, conn.accept ≠ accept → (s'.Destroyed conn ↔ s.Destroyed conn)
  called : ∀ callback conn,
    s'.trace.count (.called callback conn) = s.trace.count (.called callback conn)
  shutdowns : ∀ conn, conn.accept ≠ accept ∨ level ≤ conn.level →
    s'.trace.count (.shutdownStarted conn) = s.trace.count (.shutdownStarted conn)

theorem Torn.refl (accept level : Nat) (s : ServerState n) : Torn accept level s s where
  connections := rfl
  maxIdle := rfl
  lastUse _ _ := rfl
  socket := rfl
  epollSet _ _ := Iff.rfl
  unwatched _ member := member
  openFds _ _ := Iff.rfl
  isShutdown _ _ := rfl
  locks _ _ := rfl
  destroyed _ _ := Iff.rfl
  called _ _ := rfl
  shutdowns _ _ := rfl

theorem Torn.trans (first : Torn accept level s s') (second : Torn accept level s' s'') :
    Torn accept level s s'' where
  connections := second.connections.trans first.connections
  maxIdle := second.maxIdle.trans first.maxIdle
  lastUse other differ := (second.lastUse other differ).trans (first.lastUse other differ)
  socket := second.socket.trans first.socket
  epollSet fd other :=
    (second.epollSet fd (first.socket ▸ other)).trans (first.epollSet fd other)
  unwatched fd member := first.unwatched fd (second.unwatched fd member)
  openFds fd other := (second.openFds fd (first.socket ▸ other)).trans (first.openFds fd other)
  isShutdown conn other := (second.isShutdown conn other).trans (first.isShutdown conn other)
  locks conn other := (second.locks conn other).trans (first.locks conn other)
  destroyed conn other := (second.destroyed conn other).trans (first.destroyed conn other)
  called callback conn := (second.called callback conn).trans (first.called callback conn)
  shutdowns conn other := (second.shutdowns conn other).trans (first.shutdowns conn other)

/-- What `Shutdown()` of a layer pushes tears this connection down, and no layer above. -/
theorem partOf_shutdown {conn : Handle} (same : conn.accept = accept)
    (within : conn.level ≤ level) (s : ServerState n) :
    ∀ op ∈ s.shutdownOps conn, op.partOf accept level := by
  intro op member
  rcases mem_shutdownOps member with rfl | rfl | member | rfl
  · trivial
  · exact same
  · rcases mem_shutdownBody member with rfl | rfl | rfl | ⟨lower, rfl, equal, below⟩ | rfl
    · exact same
    · exact same
    · exact same
    · exact ⟨equal.trans same, Nat.lt_of_lt_of_le below within⟩
    · exact same
  · trivial

/-- One operation of `Shutdown()`. -/
theorem Rule.torn (rule : Rule t e s op flow s') (quiet : e.throws = false)
    (part : op.partOf accept level)
    (absent : ∀ fd conn, s.connections.lookup fd = some (some conn) → conn.accept ≠ accept) :
    ∃ pushed, flow = .next pushed ∧ (∀ new ∈ pushed, new.partOf accept level) ∧
      Torn accept level s s' := by
  have names : ∀ {conn other : Handle}, other.accept ≠ accept → conn.accept = accept →
      LockName.connection other ≠ .connection conn := by
    rintro conn other differ same names
    cases names
    exact differ same
  cases rule with
  | lock name l taken =>
      cases name with
      | connections => cases part
      | connection conn =>
          refine ⟨[], rfl, nofun, { Torn.refl accept level s with locks := ?_ }⟩
          intro other differ
          exact Function.update_of_ne (names differ part) _ _
      | ssl lower =>
          refine ⟨[], rfl, nofun, { Torn.refl accept level s with locks := ?_ }⟩
          intro other _
          simp [setLock]
  | unlock name destructor =>
      cases name with
      | connections | connection => cases part
      | ssl lower =>
          refine ⟨[], rfl, nofun, { Torn.refl accept level s with locks := ?_ }⟩
          intro other _
          simp [setLock]
  | use conn =>
      refine ⟨[], rfl, nofun, { Torn.refl accept level s with lastUse := ?_ }⟩
      intro other differ
      exact Function.update_of_ne (fun same => differ (same.trans part)) _ _
  | drain conn =>
      exact ⟨_, rfl, forall_useOps trivial part trivial (List.forall_mem_singleton.mpr trivial),
        .refl accept level s⟩
  | shutdown conn =>
      have pushed := partOf_shutdown part.1 (Nat.le_of_lt part.2) s
      refine ⟨_, rfl, pushed, { Torn.refl accept level s with
        destroyed := ?_, called := ?_, shutdowns := ?_ }⟩
      · intro other _
        simp [Destroyed, record]
      · intro callback other
        simp [record]
      · intro other differ
        have differ : conn ≠ other := by
          rintro rfl
          rcases differ with differ | above
          · exact differ part.1
          · exact Nat.not_le_of_lt part.2 above
        simp [record, differ]
  | deregister conn =>
      have none : s.connections.keysWhere (· = some conn) = [] := by
        apply OrderedMap.keysWhere_eq_nil
        intro fd value entry
        apply decide_eq_false
        rintro rfl
        exact absent fd conn entry part
      rw [none]
      refine ⟨[], rfl, nofun, { Torn.refl accept level s with isShutdown := ?_ }⟩
      intro other differ
      have differ : other ≠ conn := by
        rintro rfl
        exact differ part
      exact Function.update_of_ne differ _ _
  | closeSocket conn =>
      refine ⟨[], rfl, nofun, { Torn.refl accept level s with
        epollSet := ?_, unwatched := ?_, openFds := ?_ }⟩
      · intro fd other
        rw [← show conn.accept = accept from part] at other
        simp [other]
      · intro fd member
        exact (List.mem_filter.mp member).1
      · intro fd other
        rw [← show conn.accept = accept from part] at other
        simp [other]
  | drained conn => exact ⟨[], rfl, nofun, .refl accept level s⟩
  | drainThrew conn throws =>
      rw [quiet] at throws
      cases throws
  | delete conn =>
      refine ⟨[], rfl, nofun, { Torn.refl accept level s with
        locks := ?_, destroyed := ?_, called := ?_, shutdowns := ?_ }⟩
      · intro other differ
        exact Function.update_of_ne (names differ part) _ _
      · intro other differ
        have differ : other ≠ conn := by
          rintro rfl
          exact differ part
        simp [Destroyed, record, setLock, differ]
      · intro callback other
        simp [record, setLock]
      · intro other _
        simp [record, setLock]
  | _ => cases part

/-- What of a program is part of `Shutdown()` is done before the rest of it. -/
theorem torn_of_finishes (quiet : e.throws = false) {ops rest : List Op}
    (finished : Finishes (server n) t e (ops ++ rest) s s')
    (parts : ∀ op ∈ ops, op.partOf accept level)
    (absent : ∀ fd conn, s.connections.lookup fd = some (some conn) → conn.accept ≠ accept) :
    ∃ mid, Torn accept level s mid ∧ Finishes (server n) t e rest mid s' := by
  generalize whole : ops ++ rest = program at finished
  induction finished generalizing ops with
  | done s =>
      obtain ⟨rfl, rfl⟩ := List.append_eq_nil_iff.mp whole
      exact ⟨s, .refl accept level s, .done s⟩
  | @step op later flow s next s' executed remaining ih =>
      cases ops with
      | nil =>
          refine ⟨s, .refl accept level s, ?_⟩
          rw [show rest = op :: later from whole]
          exact .step executed remaining
      | cons first ops =>
          obtain ⟨rfl, rfl⟩ := List.cons.inj whole
          obtain ⟨pushed, rfl, part, torn⟩ :=
            (rule_of_exec executed).torn quiet (parts first List.mem_cons_self) absent
          have parts' : ∀ op ∈ pushed ++ ops, op.partOf accept level := by
            intro op member
            rcases List.mem_append.mp member with new | old
            · exact part op new
            · exact parts op (List.mem_cons_of_mem _ old)
          obtain ⟨mid, torn', finished⟩ := ih parts'
            (fun fd conn entry => absent fd conn (torn.connections ▸ entry))
            (List.append_assoc ..)
          exact ⟨mid, torn.trans torn', finished⟩

/-! ### What a pass does -/

/-- A pool without null pointers, each connection being the one of its descriptor. -/
def Sound (s : ServerState n) : Prop :=
  ∀ fd value, s.connections.lookup fd = some value →
    ∃ conn, value = some conn ∧ s.socket conn.accept = fd

/-- The connection at `fd` is as it was. -/
structure Untouched (s s' : ServerState n) (fd : Nat) (conn : Handle) : Prop where
  isShutdown : s'.isShutdownOf conn = s.isShutdownOf conn
  lock : s'.locks (.connection conn) = s.locks (.connection conn)
  destroyed : s'.Destroyed conn ↔ s.Destroyed conn
  opened : fd ∈ s'.openFds ↔ fd ∈ s.openFds

/-- The entries that are `due` are taken from the pool and from the epoll set.  Those of
them that were not shut down are shut down and reported as terminated, each once, and
nobody else is.  Other entries are left as they were. -/
structure Reaps (due : Handle → Bool) (s s' : ServerState n) : Prop where
  connections : ∀ fd value, s'.connections.lookup fd = some value ↔
    s.connections.lookup fd = some value ∧ ∀ conn, value = some conn → due conn = false
  epollSet : ∀ fd, fd ∈ s'.epollSet ↔ fd ∈ s.epollSet ∧
    ∀ conn, s.connections.lookup fd = some (some conn) → due conn = false
  expired : ∀ fd conn, s.connections.lookup fd = some (some conn) → due conn = true →
    s.isShutdownOf conn = false →
      s'.trace.count (.shutdownStarted conn) = s.trace.count (.shutdownStarted conn) + 1 ∧
        s'.trace.count (.called .connectionTerminated conn) =
          s.trace.count (.called .connectionTerminated conn) + 1
  spared : ∀ conn : Handle, (∀ fd other, s.connections.lookup fd = some (some other) →
      other.accept = conn.accept → due other = true → s.isShutdownOf other = true) →
    s'.trace.count (.shutdownStarted conn) = s.trace.count (.shutdownStarted conn)
  unreported : ∀ conn, (∀ fd, s.connections.lookup fd = some (some conn) → due conn = true →
      s.isShutdownOf conn = true) →
    s'.trace.count (.called .connectionTerminated conn) =
      s.trace.count (.called .connectionTerminated conn)
  untouched : ∀ fd conn, s.connections.lookup fd = some (some conn) → due conn = false →
    Untouched s s' fd conn

/-- What decides about other entries is as it was. -/
structure SameLimits (s s' : ServerState n) : Prop where
  maxIdle : s'.maxIdle = s.maxIdle
  lastUse : ∀ fd conn, s'.connections.lookup fd = some (some conn) →
    s'.lastUse conn.accept = s.lastUse conn.accept
  socket : s'.socket = s.socket

/-- An entry is the only one of its connection. -/
theorem Sound.conn_eq (sound : Sound s) {fd fd' : Nat} {conn other : Handle}
    (entry : s.connections.lookup fd = some (some conn))
    (entry' : s.connections.lookup fd' = some (some other))
    (same : other.accept = conn.accept) : other = conn := by
  obtain ⟨_, ⟨⟩, own⟩ := sound fd _ entry
  obtain ⟨_, ⟨⟩, own'⟩ := sound fd' _ entry'
  rw [← own', same, own, entry] at entry'
  cases entry'
  rfl

theorem Sound.reaps {due : Handle → Bool} (sound : Sound s) (same : SameLimits s s')
    (reaps : Reaps due s s') : Sound s' := by
  intro fd value entry
  rw [same.socket]
  exact sound fd value ((reaps.connections fd value).mp entry).1

theorem Reaps.refl (s : ServerState n) : Reaps (fun _ => false) s s where
  connections fd value := by simp
  epollSet fd := by simp
  expired fd conn _ impossible := by cases impossible
  spared conn _ := rfl
  unreported conn _ := rfl
  untouched fd conn _ _ := ⟨rfl, rfl, Iff.rfl, Iff.rfl⟩

/-- The entries that are left are those that were not due. -/
theorem Reaps.lookup_left {due : Handle → Bool} (reaps : Reaps due s s') (fd : Nat)
    (conn : Handle) : s'.connections.lookup fd = some (some conn) ↔
      s.connections.lookup fd = some (some conn) ∧ due conn = false := by
  rw [reaps.connections]
  simp

/-- No entry of a connection that was due is left. -/
theorem Reaps.gone {due : Handle → Bool} (reaps : Reaps due s s') (sound : Sound s) {fd : Nat}
    {conn : Handle} (entry : s.connections.lookup fd = some (some conn))
    (isDue : due conn = true) {fd' : Nat} {other : Handle}
    (entry' : s'.connections.lookup fd' = some (some other)) : other.accept ≠ conn.accept := by
  intro same
  obtain ⟨there, kept⟩ := (reaps.lookup_left fd' other).mp entry'
  rw [sound.conn_eq entry there same, isDue] at kept
  cases kept

/-- One part of the entries after the other. -/
theorem Reaps.trans {first second : Handle → Bool} (sound : Sound s)
    (reaps : Reaps first s s') (reaps' : Reaps second s' s'') :
    Reaps (fun conn => first conn || second conn) s s'' := by
  have left := reaps.lookup_left
  constructor
  · intro fd value
    rw [reaps'.connections, reaps.connections, and_assoc]
    apply and_congr_right
    intro _
    constructor
    · rintro ⟨notFirst, notSecond⟩ conn same
      rw [notFirst conn same, notSecond conn same]
      rfl
    · intro neither
      constructor <;> intro conn same
      · exact (Bool.or_eq_false_iff.mp (neither conn same)).1
      · exact (Bool.or_eq_false_iff.mp (neither conn same)).2
  · intro fd
    rw [reaps'.epollSet, reaps.epollSet, and_assoc]
    apply and_congr_right
    intro _
    constructor
    · rintro ⟨notFirst, notSecond⟩ conn entry
      rw [notFirst conn entry, notSecond conn ((left fd conn).mpr ⟨entry, notFirst conn entry⟩)]
      rfl
    · intro neither
      constructor <;> intro conn entry
      · exact (Bool.or_eq_false_iff.mp (neither conn entry)).1
      · exact (Bool.or_eq_false_iff.mp (neither conn ((left fd conn).mp entry).1)).2
  · intro fd conn entry either up
    cases first' : first conn with
    | true =>
        obtain ⟨started, told⟩ := reaps.expired fd conn entry first' up
        have spared := reaps'.spared conn fun _ _ entry' same _ =>
          absurd same (reaps.gone sound entry first' entry')
        have unreported := reaps'.unreported conn fun _ entry' _ =>
          absurd rfl (reaps.gone sound entry first' entry')
        rw [spared, unreported]
        exact ⟨started, told⟩
    | false =>
        rw [first', Bool.false_or] at either
        have untouched := reaps.untouched fd conn entry first'
        obtain ⟨started, told⟩ := reaps'.expired fd conn ((left fd conn).mpr ⟨entry, first'⟩)
          either (untouched.isShutdown.trans up)
        rw [started, told]
        rw [reaps.spared conn, reaps.unreported conn]
        · exact ⟨rfl, rfl⟩
        · intro fd' _ due
          rw [first'] at due
          cases due
        · intro fd' other entry' same due
          rw [sound.conn_eq entry entry' same, first'] at due
          cases due
  · intro conn down
    rw [reaps'.spared conn, reaps.spared conn]
    · intro fd other entry same due
      exact down fd other entry same (Bool.or_eq_true_iff.mpr (Or.inl due))
    · intro fd other entry same due
      obtain ⟨there, kept⟩ := (left fd other).mp entry
      rw [(reaps.untouched fd other there kept).isShutdown]
      exact down fd other there same (Bool.or_eq_true_iff.mpr (Or.inr due))
  · intro conn down
    rw [reaps'.unreported conn, reaps.unreported conn]
    · intro fd entry due
      exact down fd entry (Bool.or_eq_true_iff.mpr (Or.inl due))
    · intro fd entry due
      obtain ⟨there, kept⟩ := (left fd conn).mp entry
      rw [(reaps.untouched fd conn there kept).isShutdown]
      exact down fd there (Bool.or_eq_true_iff.mpr (Or.inr due))
  · intro fd conn entry neither
    obtain ⟨notFirst, notSecond⟩ := Bool.or_eq_false_iff.mp neither
    have one := reaps.untouched fd conn entry notFirst
    have two := reaps'.untouched fd conn ((left fd conn).mpr ⟨entry, notFirst⟩) notSecond
    exact ⟨two.isShutdown.trans one.isShutdown, two.lock.trans one.lock,
      two.destroyed.trans one.destroyed, two.opened.trans one.opened⟩

/-- The predicate only matters for entries of the pool. -/
theorem Reaps.congr {first second : Handle → Bool} (reaps : Reaps first s s')
    (agree : ∀ fd conn, s.connections.lookup fd = some (some conn) → first conn = second conn) :
    Reaps second s s' where
  connections fd value := by
    rw [reaps.connections]
    apply and_congr_right
    intro entry
    apply forall₂_congr
    rintro conn rfl
    rw [agree fd conn entry]
  epollSet fd := by
    rw [reaps.epollSet]
    apply and_congr_right
    intro _
    apply forall₂_congr
    intro conn entry
    rw [agree fd conn entry]
  expired fd conn entry due := reaps.expired fd conn entry ((agree fd conn entry).trans due)
  spared conn down := reaps.spared conn fun fd other entry same due =>
    down fd other entry same ((agree fd other entry).symm.trans due)
  unreported conn down := reaps.unreported conn fun fd entry due =>
    down fd entry ((agree fd conn entry).symm.trans due)
  untouched fd conn entry kept := reaps.untouched fd conn entry ((agree fd conn entry).trans kept)

/-- What was taken from the pool tells which entries were due. -/
theorem Reaps.iff_agree {first second : Handle → Bool} (reaps : Reaps first s s') :
    Reaps second s s' ↔
      ∀ fd conn, s.connections.lookup fd = some (some conn) → first conn = second conn := by
  refine ⟨?_, reaps.congr⟩
  intro reaps' fd conn entry
  have same := (reaps.connections fd (some conn)).symm.trans (reaps'.connections fd (some conn))
  simp only [entry, Option.some.injEq, forall_eq', true_and] at same
  cases kept : second conn with
  | false => exact same.mpr kept
  | true =>
      cases kept' : first conn with
      | true => rfl
      | false =>
          rw [same.mp kept'] at kept
          cases kept

/-- Taking or giving back `connections_lock_` reaps nothing. -/
theorem Reaps.setLock (s : ServerState n) (l : RwLock (Tid n)) :
    Reaps (fun _ => false) s (s.setLock .connections l) where
  connections fd value := by simp [ServerState.setLock]
  epollSet fd := by simp [ServerState.setLock]
  expired fd conn _ impossible := by cases impossible
  spared conn _ := rfl
  unreported conn _ := rfl
  untouched fd conn _ _ :=
    ⟨rfl, by simp [ServerState.setLock], Iff.rfl, Iff.rfl⟩

/-! ### The turn of one entry -/

/-- The entry is taken from the pool and from the epoll set. -/
def taken (fd : Nat) (s : ServerState n) : ServerState n :=
  record (.dequeued fd)
    { s with
      connections := s.connections.erase fd
      epollSet := s.epollSet.filter (· ≠ fd) }

/-- The first two operations of the turn. -/
theorem taken_of_finishes (quiet : e.throws = false) {fd : Nat} {rest : List Op}
    (finished : Finishes (server n) t e (.erase fd :: .epollDel fd :: rest) s s') :
    Finishes (server n) t e rest (s.taken fd) s' := by
  obtain ⟨_, mid, rule, finished⟩ := rule_of_finishes finished
  cases rule
  obtain ⟨_, mid, rule, finished⟩ := rule_of_finishes finished
  cases rule with
  | epollDel _ there => exact finished
  | epollDelFailed _ absent =>
      have same : s.epollSet.filter (· ≠ fd) = s.epollSet := by
        apply List.filter_eq_self.mpr
        intro other member
        apply decide_eq_true
        rintro rfl
        exact absent member
      rw [taken, same]
      exact finished
  | epollDelThrew _ _ throws =>
      rw [quiet] at throws
      cases throws

/-- What is left in the pool are the other connections. -/
theorem Sound.lookup_taken (sound : Sound s) {fd : Nat} {conn : Handle}
    (entry : s.connections.lookup fd = some (some conn)) (fd' : Nat) (value : Option Handle) :
    (s.taken fd).connections.lookup fd' = some value ↔
      s.connections.lookup fd' = some value ∧
        ∀ other, value = some other → other.accept ≠ conn.accept := by
  rw [taken, record, OrderedMap.lookup_erase]
  split
  · rename_i same
    subst same
    constructor
    · intro impossible
      cases impossible
    · rintro ⟨there, others⟩
      rw [entry] at there
      exact absurd rfl (others conn (Option.some.inj there).symm)
  · rename_i differ
    constructor
    · intro there
      refine ⟨there, ?_⟩
      rintro other rfl same
      obtain ⟨_, ⟨⟩, own⟩ := sound fd _ entry
      obtain ⟨_, ⟨⟩, own'⟩ := sound fd' _ there
      exact differ (own'.symm.trans ((congrArg s.socket same).trans own))
    · exact And.left

/-- What has to be known of the turn of one entry. -/
theorem Sound.reaps_one (sound : Sound s) {fd : Nat} {conn : Handle}
    (entry : s.connections.lookup fd = some (some conn))
    (pool : s'.connections = s.connections.erase fd)
    (watched : ∀ fd', fd' ∈ s'.epollSet ↔ fd' ∈ s.epollSet ∧ fd' ≠ fd)
    (expired : s.isShutdownOf conn = false →
      s'.trace.count (.shutdownStarted conn) = s.trace.count (.shutdownStarted conn) + 1 ∧
        s'.trace.count (.called .connectionTerminated conn) =
          s.trace.count (.called .connectionTerminated conn) + 1)
    (spared : ∀ other : Handle, s.isShutdownOf conn = true ∨ other.accept ≠ conn.accept →
      s'.trace.count (.shutdownStarted other) = s.trace.count (.shutdownStarted other))
    (unreported : ∀ other, s.isShutdownOf conn = true ∨ other ≠ conn →
      s'.trace.count (.called .connectionTerminated other) =
        s.trace.count (.called .connectionTerminated other))
    (untouched : ∀ fd' other, fd' ≠ fd → other.accept ≠ conn.accept →
      Untouched s s' fd' other) :
    Reaps (fun other => decide (other = conn)) s s' where
  connections fd' value := by
    rw [pool]
    apply (sound.lookup_taken entry fd' value).trans
    apply and_congr_right
    intro there
    apply forall₂_congr
    rintro other rfl
    rw [decide_eq_false_iff_not]
    constructor
    · rintro differ rfl
      exact differ rfl
    · intro differ same
      exact differ (sound.conn_eq entry there same)
  epollSet fd' := by
    rw [watched]
    apply and_congr_right
    intro _
    constructor
    · intro differ other there
      apply decide_eq_false
      rintro rfl
      obtain ⟨_, ⟨⟩, own⟩ := sound fd _ entry
      obtain ⟨_, ⟨⟩, own'⟩ := sound fd' _ there
      exact differ (own'.symm.trans own)
    · rintro others rfl
      exact of_decide_eq_false (others conn entry) rfl
  expired fd' other _ same up := by
    cases of_decide_eq_true same
    exact expired up
  spared other down := by
    apply spared
    by_cases same : conn.accept = other.accept
    · exact Or.inl (down fd conn entry same (decide_eq_true rfl))
    · exact Or.inr (Ne.symm same)
  unreported other down := by
    apply unreported
    by_cases same : other = conn
    · subst same
      exact Or.inl (down fd entry (decide_eq_true rfl))
    · exact Or.inr same
  untouched fd' other there differ := by
    have differ : other ≠ conn := of_decide_eq_false differ
    apply untouched
    · rintro rfl
      rw [entry] at there
      cases there
      exact differ rfl
    · intro same
      exact differ (sound.conn_eq entry there same)

/-- An entry whose connection is down is only taken. -/
theorem Sound.reaps_taken (sound : Sound s) {fd : Nat} {conn : Handle}
    (entry : s.connections.lookup fd = some (some conn)) (down : s.isShutdownOf conn = true) :
    Reaps (fun other => decide (other = conn)) s (s.taken fd) := by
  apply sound.reaps_one entry rfl
  · intro fd'
    simp [taken, record]
  · intro up
    rw [down] at up
    cases up
  · intro other _
    simp [taken, record]
  · intro other _
    simp [taken, record]
  · intro fd' other _ _
    exact ⟨rfl, rfl, by simp [taken, record, Destroyed], Iff.rfl⟩

/-- A connection that is not down is shut down and reported. -/
theorem Sound.reaps_expired (sound : Sound s) {fd : Nat} {conn : Handle} {mid : ServerState n}
    (entry : s.connections.lookup fd = some (some conn)) (up : s.isShutdownOf conn = false)
    (torn : Torn conn.accept conn.level
      (record (.shutdownStarted conn) (record (.expired conn) (s.taken fd))) mid) :
    Reaps (fun other => decide (other = conn)) s
      (record (.called .connectionTerminated conn) mid) := by
  obtain ⟨_, ⟨⟩, own⟩ := sound fd _ entry
  have pool : (record (.called .connectionTerminated conn) mid).connections =
      s.connections.erase fd := torn.connections
  apply sound.reaps_one entry pool
  · intro fd'
    by_cases same : fd' = fd
    · subst same
      simp only [ne_eq, not_true_eq_false, and_false, iff_false]
      intro member
      simpa [taken, record] using torn.unwatched _ member
    · apply (torn.epollSet fd' (own ▸ same)).trans
      simp [taken, record]
  · intro _
    constructor
    · simp [record, torn.shutdowns conn (Or.inr (Nat.le_refl _)), taken]
    · simp [record, torn.called, taken]
  · intro other differ
    have differ : other.accept ≠ conn.accept := by simpa [up] using differ
    have differ' : conn ≠ other := by
      rintro rfl
      exact differ rfl
    simp [record, torn.shutdowns other (Or.inl differ), taken, differ']
  · intro other differ
    have differ : conn ≠ other := by simpa [up, eq_comm] using differ
    simp [record, torn.called, taken, differ]
  · intro fd' other differ differ'
    constructor
    · exact torn.isShutdown { other with level := 0 } differ'
    · exact torn.locks other differ'
    · rw [show Destroyed other (record (.called .connectionTerminated conn) mid) ↔
        mid.Destroyed other by simp [record, Destroyed], torn.destroyed other differ']
      simp [record, Destroyed, taken]
    · exact torn.openFds fd' (own ▸ differ)

/-- The turn of an entry that is due. -/
theorem Sound.reaps_turn (sound : Sound s) (quiet : e.throws = false)
    (returns : e.handler = .returns) {fd : Nat} {conn : Handle} {rest : List Op}
    (entry : s.connections.lookup fd = some (some conn))
    (finished : Finishes (server n) t e
      (.erase fd :: .epollDel fd :: .reapShutdown conn :: rest) s s') :
    ∃ mid, Reaps (fun other => decide (other = conn)) s mid ∧ SameLimits s mid ∧
      mid.connections = s.connections.erase fd ∧ Finishes (server n) t e rest mid s' := by
  have finished := taken_of_finishes quiet finished
  obtain ⟨_, next, rule, finished⟩ := rule_of_finishes finished
  cases rule with
  | reapIsShutdown _ down =>
      exact ⟨s.taken fd, sound.reaps_taken entry down, ⟨rfl, fun _ _ _ => rfl, rfl⟩, rfl,
        finished⟩
  | reapExpired _ up =>
      obtain ⟨_, next, rule, finished⟩ := rule_of_finishes finished
      cases rule
      have parts := partOf_shutdown rfl (Nat.le_refl conn.level) (record (.expired conn) (s.taken fd))
      obtain ⟨mid, torn, finished⟩ := torn_of_finishes quiet finished parts
        fun fd' other there => ((sound.lookup_taken entry fd' _).mp there).2 other rfl
      obtain ⟨_, next, called, finished⟩ := finishes_cons.mp finished
      cases called
      obtain ⟨_, next, returned, finished⟩ := finishes_cons.mp finished
      simp only [server, exec, callbackMove, returns] at returned
      cases returned
      refine ⟨_, sound.reaps_expired entry up torn, ⟨torn.maxIdle, ?_, torn.socket⟩,
        torn.connections, finished⟩
      intro fd' other there
      have left : (s.taken fd).connections.lookup fd' = some (some other) :=
        torn.connections ▸ there
      exact torn.lastUse other.accept (((sound.lookup_taken entry fd' _).mp left).2 other rfl)

theorem SameLimits.trans {due : Handle → Bool} (first : SameLimits s s')
    (second : SameLimits s' s'') (reaps : Reaps due s' s'') : SameLimits s s'' where
  maxIdle := second.maxIdle.trans first.maxIdle
  lastUse fd conn there := (second.lastUse fd conn there).trans
    (first.lastUse fd conn ((reaps.lookup_left fd conn).mp there).1)
  socket := second.socket.trans first.socket

/-- The test of an entry gives the same for a connection that was left as it was. -/
theorem SameLimits.due {maxIdle tm : UInt64} {fd : Nat} {conn : Handle}
    (same : SameLimits s s') (there : s'.connections.lookup fd = some (some conn))
    (isShutdown : s'.isShutdownOf conn = s.isShutdownOf conn) :
    s'.due maxIdle tm conn = s.due maxIdle tm conn := by
  rw [ServerState.due, ServerState.due, isShutdown, same.maxIdle, same.lastUse fd conn there]

/-! ### The loop over the pool -/

/-- Of the entries that are left to the loop those are reaped that are due. -/
theorem Sound.reaps_loop (quiet : e.throws = false) (returns : e.handler = .returns)
    {maxIdle tm : UInt64} {rest : List Op} {left : List (Nat × Option Handle)}
    {after : Option Nat} (sound : Sound s) (toCome : s.connections.above after = left)
    (finished : Finishes (server n) t e (.reapNext maxIdle tm after :: rest) s s') :
    ∃ mid, Reaps (fun conn =>
        decide ((s.socket conn.accept, some conn) ∈ left) && s.due maxIdle tm conn) s mid ∧
      SameLimits s mid ∧ Finishes (server n) t e rest mid s' := by
  induction left generalizing s after with
  | nil =>
      obtain ⟨_, next, rule, finished⟩ := rule_of_finishes finished
      have none := OrderedMap.next_of_above_nil toCome
      cases rule with
      | reapOver _ _ _ _ =>
          refine ⟨s, (Reaps.refl s).congr ?_, ⟨rfl, fun _ _ _ => rfl, rfl⟩, finished⟩
          intro fd conn _
          rw [decide_eq_false List.not_mem_nil, Bool.false_and]
      | reapNull _ _ _ _ entry => rw [none] at entry; cases entry
      | reapDue _ _ _ _ _ entry => rw [none] at entry; cases entry
      | reapKept _ _ _ _ _ entry => rw [none] at entry; cases entry
  | cons first left ih =>
      have met := OrderedMap.next_of_above_cons toCome
      have toCome' := OrderedMap.above_of_above_cons toCome
      obtain ⟨_, next, rule, finished⟩ := rule_of_finishes finished
      cases rule with
      | reapOver _ _ _ none => rw [met] at none; cases none
      | reapNull _ _ _ fd entry =>
          obtain ⟨_, ⟨⟩, _⟩ := sound fd none (OrderedMap.lookup_of_next entry).1
      | reapDue _ _ _ fd conn entry due =>
          rw [met] at entry
          cases entry
          have there := (OrderedMap.lookup_of_next met).1
          obtain ⟨mid, reaps, same, pool, finished⟩ :=
            sound.reaps_turn quiet returns there finished
          have toCome'' : mid.connections.above (some fd) = left := by
            rw [pool, OrderedMap.above_erase]
            exact toCome'
          obtain ⟨mid', reaps', same', finished⟩ := ih (sound.reaps same reaps) toCome'' finished
          refine ⟨mid', (reaps.trans sound reaps').congr ?_, same.trans same' reaps', finished⟩
          intro fd' other there'
          obtain ⟨_, ⟨⟩, own⟩ := sound fd' _ there'
          rw [same.socket]
          by_cases self : other = conn
          · subst self
            obtain ⟨_, ⟨⟩, own'⟩ := sound fd _ there
            simp [own', due]
          · have untouched := reaps.untouched fd' other there' (decide_eq_false self)
            have left := (reaps.lookup_left fd' other).mpr ⟨there', decide_eq_false self⟩
            rw [same.due left untouched.isShutdown]
            simp [self]
      | reapKept _ _ _ fd conn entry kept =>
          rw [met] at entry
          cases entry
          obtain ⟨mid, reaps, same, finished⟩ := ih sound toCome' finished
          refine ⟨mid, reaps.congr ?_, same, finished⟩
          intro fd' other there'
          by_cases self : other = conn
          · subst self
            simp [kept]
          · simp [self]

/-! ### A pass -/

/-- What the reaper does after each wait, with its copy of the limit. -/
def reapPass (maxIdle : UInt64) : List Op :=
  [.lock .connections, .reapTime maxIdle, .unlock .connections true]

theorem reapWait_eq (running : s.running = true) (maxIdle : UInt64) :
    s.reapWait maxIdle = s.goOn (reapPass maxIdle ++ [.reapWait maxIdle]) := by
  rw [reapWait, if_pos running]
  rfl

/-- A pass reaps the entries that are due by its test. -/
theorem Sound.reaps_pass (sound : Sound s) (quiet : e.throws = false)
    (returns : e.handler = .returns) {maxIdle : UInt64}
    (finished : Finishes (server n) t e (reapPass maxIdle) s s') :
    Reaps (s.due maxIdle e.now) s s' ∧ SameLimits s s' := by
  obtain ⟨_, next, rule, finished⟩ := rule_of_finishes finished
  cases rule with
  | lock _ l _ =>
      obtain ⟨_, next, rule, finished⟩ := rule_of_finishes finished
      cases rule
      obtain ⟨mid, reaps, same, finished⟩ := Sound.reaps_loop quiet returns
        (s := s.setLock .connections l) sound rfl finished
      obtain ⟨_, next, rule, finished⟩ := rule_of_finishes finished
      cases rule
      cases finishes_nil.mp finished
      have sound' : Sound (s.setLock .connections l) := sound
      have whole := (Reaps.setLock s l).trans sound
        (reaps.trans sound' (Reaps.setLock mid ((mid.locks .connections).unlock t)))
      refine ⟨whole.congr ?_, same.maxIdle, same.lastUse, same.socket⟩
      intro fd conn there
      obtain ⟨_, ⟨⟩, own⟩ := sound fd _ there
      have member : ((s.setLock .connections l).socket conn.accept, some conn) ∈
          (s.setLock .connections l).connections.above none :=
        OrderedMap.mem_above.mpr ⟨own.symm ▸ there, nofun⟩
      rw [Bool.false_or, Bool.or_false, decide_eq_true member]
      rfl

/-! ### That a pass comes to its end -/

/-- What the reaper's own progress depends on is as it was. -/
structure Steady (s s' : ServerState n) : Prop where
  socket : s'.socket = s.socket
  locks : s'.locks = s.locks

/-- The body of `Shutdown()` under the lock of its connection. -/
theorem performs_locked {conn : Handle} {ops : List Op} {performed : List Op}
    {mid : ServerState n} (free : s.locks (.connection conn) = .free)
    (inner : Performs (server n) t e ops
      (s.setLock (.connection conn) { writer := some t, readers := [] }) performed mid)
    (steady : Steady (s.setLock (.connection conn) { writer := some t, readers := [] }) mid)
    (pool : mid.connections = s.connections) :
    ∃ performed s', Performs (server n) t e
        ([.lock (.connection conn)] ++ ops ++ [.delete conn]) s performed s' ∧
      Steady s s' ∧ s'.connections = s.connections := by
  refine ⟨_, _, ((Performs.single (exec_lock free)).append inner).append (.single exec_delete),
    ⟨steady.socket, ?_⟩, pool⟩
  simp only [ServerState.setLock, record, steady.locks]
  rw [Function.update_idem, ← free, Function.update_eq_self]

/-- `Shutdown()` gives `ssl_mtx_` back as it took it. -/
theorem locks_left {conn : Handle} (free : s.locks (.ssl conn.accept) = .free)
    (same : s'.locks = (s.entered t conn).locks) : (s'.left t conn s.ssl).locks = s.locks := by
  by_cases takes : conn.level = 0 ∧ s.ssl = true
  · rw [entered, if_pos takes] at same
    rw [left, if_pos takes]
    simp only [ServerState.setLock] at same ⊢
    rw [same, Function.update_self, Function.update_idem]
    have back : RwLock.unlock t { writer := some t, readers := [] } = .free := by
      simp [RwLock.unlock, RwLock.free]
    rw [back, ← free, Function.update_eq_self]
  · rw [entered, if_neg takes] at same
    rw [left, if_neg takes, same]

/-- Before the body of `Shutdown()` nothing waits. -/
theorem performs_of_body {conn : Handle}
    (absent : ∀ fd other, s.connections.lookup fd = some (some other) →
      other.accept ≠ conn.accept)
    (unused : s.locks (.ssl conn.accept) = .free)
    (body : ∃ performed s', Performs (server n) t e (s.shutdownBody conn) (s.deregistered t conn)
      performed s' ∧ Steady (s.deregistered t conn) s' ∧ s'.connections = s.connections) :
    ∃ performed s', Performs (server n) t e [.shutdown conn] s performed s' ∧ Steady s s' ∧
      s'.connections = s.connections := by
  obtain ⟨performed, s', performs, steady, pool⟩ := body
  have absent' : ∀ fd, s.connections.lookup fd ≠ some (some conn) :=
    fun fd entry => absent fd conn entry rfl
  have leaves := agree_left t conn s.ssl s'
  refine ⟨_, _, performs_shutdown_absent absent' unused performs, ⟨?_, ?_⟩, ?_⟩
  · exact leaves.socket.trans (steady.socket.trans (agree_deregistered t conn s).socket)
  · exact locks_left (s := s.record (.shutdownStarted conn)) unused steady.locks
  · exact leaves.connections.trans pool

/-- `Shutdown()` of a connection that is in no entry and whose levels nobody holds, by
induction over its level. -/
theorem performs_teardown (quiet : e.throws = false)
    (absent : ∀ fd conn, s.connections.lookup fd = some (some conn) → conn.accept ≠ accept)
    (free : ∀ lower ≤ level, s.locks (.connection { accept := accept, level := lower }) = .free)
    (unused : s.locks (.ssl accept) = .free) :
    ∃ performed s', Performs (server n) t e [.shutdown { accept := accept, level := level }] s
      performed s' ∧ Steady s s' ∧ s'.connections = s.connections := by
  induction level generalizing s with
  | zero =>
      apply performs_of_body absent unused
      have agree := agree_deregistered t { accept := accept, level := 0 } s
      have free' := (agree.locks { accept := accept, level := 0 }).trans (free 0 (Nat.le_refl 0))
      cases encrypted : s.ssl with
      | true =>
          have body : s.shutdownBody { accept := accept, level := 0 } =
              [.lock (.connection { accept := accept, level := 0 })] ++ [] ++
                [.delete { accept := accept, level := 0 }] := by
            simp [shutdownBody, encrypted]
          rw [body, ← agree.connections]
          exact performs_locked free' (.done _) ⟨rfl, rfl⟩ rfl
      | false =>
          have body : s.shutdownBody { accept := accept, level := 0 } =
              [.lock (.connection { accept := accept, level := 0 })] ++
                [.closeSocket { accept := accept, level := 0 }] ++
                [.delete { accept := accept, level := 0 }] := by
            simp [shutdownBody, encrypted]
          rw [body, ← agree.connections]
          exact performs_locked free' (.single rfl) ⟨rfl, rfl⟩ rfl
  | succ level ih =>
      apply performs_of_body absent unused
      cases found : (s.decorators accept)[level]? with
      | none =>
          have body : s.shutdownBody { accept := accept, level := level + 1 } = [] := by
            simp [shutdownBody, found]
          rw [body]
          exact ⟨[], _, .done _, ⟨rfl, rfl⟩, (agree_deregistered ..).connections⟩
      | some decorator =>
          let drains : List Op := if decorator.cls = .rangeReader then
            [.drain { accept := accept, level := level + 1 }] else []
          let lowers : List Op := if decorator.owned then
            [.shutdown { accept := accept, level := level }] else []
          have body : s.shutdownBody { accept := accept, level := level + 1 } =
              [.lock (.connection { accept := accept, level := level + 1 })] ++
                (drains ++ lowers) ++ [.delete { accept := accept, level := level + 1 }] := by
            simp [shutdownBody, found, drains, lowers]
          have either : drains = [] ∨
              drains = [.drain { accept := accept, level := level + 1 }] := by
            unfold drains
            split
            · exact Or.inr rfl
            · exact Or.inl rfl
          rw [body]
          have lowered : ∀ s : ServerState n,
              (∀ fd conn, s.connections.lookup fd = some (some conn) → conn.accept ≠ accept) →
              (∀ lower ≤ level,
                s.locks (.connection { accept := accept, level := lower }) = .free) →
              s.locks (.ssl accept) = .free →
              ∃ performed s', Performs (server n) t e lowers s performed s' ∧ Steady s s' ∧
                s'.connections = s.connections := by
            intro s absent free unused
            unfold lowers
            split
            · exact ih absent free unused
            · exact ⟨_, s, .done s, ⟨rfl, rfl⟩, rfl⟩
          have started : s.deregistered t { accept := accept, level := level + 1 } =
              { s.record (.shutdownStarted { accept := accept, level := level + 1 }) with
                isShutdown := Function.update s.isShutdown
                  { accept := accept, level := level + 1 } true } := by
            rw [deregistered, entered_of_wraps (Nat.succ_ne_zero level)]
          rw [started]
          let locked := ({ s.record (.shutdownStarted { accept := accept, level := level + 1 }) with
            isShutdown := Function.update s.isShutdown
              { accept := accept, level := level + 1 } true } : ServerState n).setLock
            (.connection { accept := accept, level := level + 1 })
            { writer := some t, readers := [] }
          have below : ∀ lower ≤ level,
              locked.locks (.connection { accept := accept, level := lower }) = .free := by
            intro lower below
            have other : LockName.connection { accept := accept, level := lower } ≠
                .connection { accept := accept, level := level + 1 } := by
              simp only [ne_eq, LockName.connection.injEq, Handle.mk.injEq, true_and]
              omega
            exact (Function.update_of_ne other _ _).trans
              (free lower (Nat.le_succ_of_le below))
          have unused' : locked.locks (.ssl accept) = .free := by
            simpa [locked, ServerState.setLock, record] using unused
          obtain ⟨_, lastUse, first, _⟩ := performs_drains (t := t) quiet either unused'
          obtain ⟨_, mid, second, steady, pool⟩ :=
            lowered { locked with lastUse := lastUse } absent below unused'
          exact performs_locked (free _ (Nat.le_refl _)) (first.append second)
            ⟨steady.socket, steady.locks⟩ pool

/-- The first two operations of a turn. -/
theorem performs_erase (quiet : e.throws = false) (fd : Nat) :
    ∃ mid, Performs (server n) t e [.erase fd, .epollDel fd] s [.erase fd, .epollDel fd] mid ∧
      Steady s mid ∧ mid.connections = s.connections.erase fd := by
  let erased := record (.dequeued fd) { s with connections := s.connections.erase fd }
  have first : Performs (server n) t e [.erase fd] s [.erase fd] erased := .single rfl
  by_cases there : fd ∈ erased.epollSet
  · exact ⟨_, first.append (.single (exec_epollDel there)), ⟨rfl, rfl⟩, rfl⟩
  · have failed : (server n).exec t (.epollDel fd) e erased = some (.next [], erased) := by
      simp [server, exec, epollDel, there, connectionFailed, quiet, goOn]
    exact ⟨erased, first.append (.single failed), ⟨rfl, rfl⟩, rfl⟩

/-- The turn of an entry that is due. -/
theorem Sound.performs_turn (sound : Sound s) (quiet : e.throws = false)
    (returns : e.handler = .returns) (free : ∀ name, name ≠ .connections → s.locks name = .free)
    {fd : Nat} {conn : Handle} (entry : s.connections.lookup fd = some (some conn)) :
    ∃ performed s', Performs (server n) t e [.erase fd, .epollDel fd, .reapShutdown conn] s
      performed s' ∧ Steady s s' ∧ s'.connections = s.connections.erase fd := by
  obtain ⟨mid, first, steady, pool⟩ := performs_erase (t := t) (s := s) quiet fd
  by_cases down : mid.isShutdownOf conn = true
  · have stopped : (server n).exec t (.reapShutdown conn) e mid = some (.next [], mid) := by
      simp [server, exec, reapShutdown, down, goOn]
    exact ⟨_, mid, first.append (.single stopped), steady, pool⟩
  · have expired : (server n).exec t (.reapShutdown conn) e mid =
        some (.next [.shutdown conn, .call .connectionTerminated conn],
          mid.record (.expired conn)) := by
      simp [server, exec, reapShutdown, down, goOn]
    have absent : ∀ fd' other, (mid.record (.expired conn)).connections.lookup fd' =
        some (some other) → other.accept ≠ conn.accept := by
      intro fd' other there
      rw [record, pool] at there
      exact ((sound.lookup_taken entry fd' _).mp there).2 other rfl
    have free' : ∀ lower ≤ conn.level, (mid.record (.expired conn)).locks
        (.connection { accept := conn.accept, level := lower }) = .free := by
      intro lower _
      rw [record, steady.locks]
      exact free _ (by simp)
    have unused : (mid.record (.expired conn)).locks (.ssl conn.accept) = .free := by
      rw [record, steady.locks]
      exact free _ (by simp)
    obtain ⟨_, mid', torn, steady', pool'⟩ := performs_teardown quiet absent free' unused
    have returned : (server n).exec t (.running .connectionTerminated conn) e
        (mid'.record (.called .connectionTerminated conn)) =
          some (.next [], mid'.record (.called .connectionTerminated conn)) := by
      simp only [server, exec, callbackMove, returns, goOn]
    have called : Performs (server n) t e [.call .connectionTerminated conn] mid'
        [.call .connectionTerminated conn, .running .connectionTerminated conn]
        (mid'.record (.called .connectionTerminated conn)) :=
      .pushing rfl (.single returned)
    refine ⟨_, _, first.append (.pushing expired (torn.append called)), ?_, ?_⟩
    · exact ⟨steady'.socket.trans steady.socket, steady'.locks.trans steady.locks⟩
    · exact pool'.trans pool

/-- The loop comes to its end, by induction over the entries that are left to it. -/
theorem Sound.performs_loop (quiet : e.throws = false) (returns : e.handler = .returns)
    {maxIdle tm : UInt64} {left : List (Nat × Option Handle)} {after : Option Nat}
    (sound : Sound s) (free : ∀ name, name ≠ .connections → s.locks name = .free)
    (toCome : s.connections.above after = left) :
    ∃ performed s', Performs (server n) t e [.reapNext maxIdle tm after] s performed s' := by
  induction left generalizing s after with
  | nil =>
      have ended : (server n).exec t (.reapNext maxIdle tm after) e s = some (.next [], s) := by
        simp only [server, exec, reapNext, OrderedMap.next_of_above_nil toCome, goOn]
      exact ⟨_, s, .single ended⟩
  | cons first left ih =>
      have met := OrderedMap.next_of_above_cons toCome
      have toCome' := OrderedMap.above_of_above_cons toCome
      obtain ⟨fd, value⟩ := first
      have there := (OrderedMap.lookup_of_next met).1
      obtain ⟨conn, rfl, _⟩ := sound fd value there
      by_cases due : s.due maxIdle tm conn = true
      · have found : (server n).exec t (.reapNext maxIdle tm after) e s =
            some (.next ([.erase fd, .epollDel fd, .reapShutdown conn] ++
              [.reapNext maxIdle tm (some fd)]), s) := by
          simp only [server, exec, reapNext, met, due, if_true, goOn]
          rfl
        obtain ⟨_, mid, turn, steady, pool⟩ := sound.performs_turn quiet returns free there
        have sound' : Sound mid := by
          intro fd' value' there'
          rw [pool] at there'
          rw [steady.socket]
          exact sound fd' value' ((sound.lookup_taken there fd' value').mp there').1
        have free' : ∀ name, name ≠ .connections → mid.locks name = .free := by
          intro name other
          rw [steady.locks]
          exact free name other
        have toCome'' : mid.connections.above (some fd) = left := by
          rw [pool, OrderedMap.above_erase]
          exact toCome'
        obtain ⟨_, s', rest⟩ := ih sound' free' toCome''
        exact ⟨_, s', .pushing found (turn.append rest)⟩
      · have found : (server n).exec t (.reapNext maxIdle tm after) e s =
            some (.next [.reapNext maxIdle tm (some fd)], s) := by
          simp only [server, exec, reapNext, met, due, goOn]
          rfl
        obtain ⟨_, s', rest⟩ := ih sound free toCome'
        exact ⟨_, s', .pushing found rest⟩

/-- A pass comes to its end where nobody holds a lock. -/
theorem Sound.pass_finishes (sound : Sound s) (quiet : e.throws = false)
    (returns : e.handler = .returns) (free : ∀ name, s.locks name = .free) (maxIdle : UInt64) :
    ∃ s', Finishes (server n) t e (reapPass maxIdle) s s' := by
  let locked := s.setLock .connections { writer := some t, readers := [] }
  have free' : ∀ name, name ≠ .connections → locked.locks name = .free := by
    intro name other
    exact (Function.update_of_ne other _ _).trans (free name)
  have sound' : Sound locked := sound
  obtain ⟨performed, s', loop⟩ : ∃ performed s',
      Performs (server n) t e [.reapNext maxIdle e.now none] locked performed s' :=
    sound'.performs_loop quiet returns free' rfl
  have time : (server n).exec t (.reapTime maxIdle) e locked =
      some (.next [.reapNext maxIdle e.now none], locked) := rfl
  have release : (server n).exec t (.unlock .connections true) e s' =
      some (.next [], s'.setLock .connections ((s'.locks .connections).unlock t)) := rfl
  have pass := (Performs.single (exec_lock (free .connections))).append
    ((Performs.pushing time loop).append (.single release))
  exact ⟨_, pass.finishes⟩

end ServerState

end LibSiot
