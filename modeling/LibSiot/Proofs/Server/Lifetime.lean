/-
Module: LibSiot.Proofs.Server.Lifetime
Purpose: Which lives of a server close each of its own descriptors exactly once
  and use none after that.  A failed bind closes the listening socket, which
  the destructor closes again; the descriptor of epoll is closed by nobody.
Trusted boundary: none
Main exports: Linear, ServerDescriptors.linear_lifetime_iff
-/
import LibSiot.Server.Lifetime

namespace LibSiot

/-- Descriptors are owned linearly in this sequence of calls: each one obtained
is closed exactly once, and no call is made on one after it was closed. -/
structure Linear (calls : List Syscall) : Prop where
  closedOnce : ∀ fd, (∃ call ∈ calls, call.obtained = some fd) →
    calls.count (.close fd) = 1
  unused : calls.Pairwise fun earlier later =>
    ∀ fd, earlier = .close fd → later.madeOn ≠ some fd

namespace ServerDescriptors

/-! ### Lives that are not linear -/

/-- What `Listen()` adds to the history: the calls `more`, of which `closes` close
the listening socket and none closes another descriptor. -/
structure Extends (s s' : ServerDescriptors) (more : List Syscall) (closes : Nat) : Prop where
  calls : s'.calls = s.calls ++ more
  serverfd : s'.serverfd = s.serverfd
  obtained : s.obtained ≤ s'.obtained
  closed : more.count (.close s.serverfd) = closes
  others : ∀ fd, fd ≠ s.serverfd → .close fd ∉ more

theorem Extends.refl (s : ServerDescriptors) : Extends s s [] 0 where
  calls := (List.append_nil _).symm
  serverfd := rfl
  obtained := Nat.le_refl _
  closed := rfl
  others := fun _ _ => List.not_mem_nil

theorem Extends.trans {s s' s'' : ServerDescriptors} {more more' : List Syscall}
    {closes closes' : Nat} (first : Extends s s' more closes)
    (second : Extends s' s'' more' closes') :
    Extends s s'' (more ++ more') (closes + closes') where
  calls := by rw [second.calls, first.calls, List.append_assoc]
  serverfd := second.serverfd.trans first.serverfd
  obtained := Nat.le_trans first.obtained second.obtained
  closed := by rw [List.count_append, first.closed, ← first.serverfd, second.closed]
  others := by
    intro fd other member
    rcases List.mem_append.mp member with early | late
    · exact first.others fd other early
    · exact second.others fd (first.serverfd ▸ other) late

/-- One call that closes nothing. -/
theorem Extends.syscall {s : ServerDescriptors} {call : Syscall}
    (harmless : ∀ fd, call ≠ .close fd) : Extends s (s.syscall call) [call] 0 where
  calls := rfl
  serverfd := rfl
  obtained := Nat.le_refl _
  closed := List.count_eq_zero.mpr fun member =>
    harmless _ (List.mem_singleton.mp member).symm
  others := fun fd _ member => harmless fd (List.mem_singleton.mp member).symm

theorem Extends.loopCall (s : ServerDescriptors) (call : LoopCall) :
    ∃ more, Extends s (s.loopCall call) more 0 := by
  cases call with
  | accept => exact ⟨_, .syscall (by simp)⟩
  | epollWait =>
      cases fd : s.epollfd with
      | none => exact ⟨[], by simpa [ServerDescriptors.loopCall, fd] using Extends.refl s⟩
      | some epollfd =>
          refine ⟨[.epollWait epollfd], ?_⟩
          simp only [ServerDescriptors.loopCall, fd, Option.map_some, Option.getD_some]
          exact .syscall (by simp)
  | epollCtl =>
      cases fd : s.epollfd with
      | none => exact ⟨[], by simpa [ServerDescriptors.loopCall, fd] using Extends.refl s⟩
      | some epollfd =>
          refine ⟨[.epollCtl epollfd], ?_⟩
          simp only [ServerDescriptors.loopCall, fd, Option.map_some, Option.getD_some]
          exact .syscall (by simp)

theorem Extends.loop (s : ServerDescriptors) (calls : List LoopCall) :
    ∃ more, Extends s (s.loop calls) more 0 := by
  have folded : ∃ more, Extends s (calls.foldl ServerDescriptors.loopCall s) more 0 := by
    induction calls generalizing s with
    | nil => exact ⟨[], .refl s⟩
    | cons call calls ih =>
        obtain ⟨first, extends_first⟩ := Extends.loopCall s call
        obtain ⟨rest, extends_rest⟩ := ih (s.loopCall call)
        exact ⟨first ++ rest, extends_first.trans extends_rest⟩
  rw [ServerDescriptors.loop]
  split
  · obtain ⟨more, extends_more⟩ := folded
    exact ⟨more, extends_more.calls, extends_more.serverfd, extends_more.obtained,
      extends_more.closed, extends_more.others⟩
  · exact ⟨[], .refl s⟩

/-- A `Listen()` that fails at bind closes the listening socket; one that gets as
far as a descriptor of epoll closes nothing. -/
theorem Extends.listenEpoll (s : ServerDescriptors) (outcome : ListenOutcome) :
    ∃ more, Extends s (s.listenEpoll outcome) more (if outcome = .bindFails then 1 else 0) ∧
      (outcome ∈ [.bindFails, .listenFails, .epollCreateFails] ∨
        .epollCreate s.obtained ∈ more) := by
  have registered : Extends s
      (((s.syscall (.bind s.serverfd)).syscall (.listen s.serverfd)).epollCreate.loopCall
        .epollCtl)
      [.bind s.serverfd, .listen s.serverfd, .epollCreate s.obtained, .epollCtl s.obtained]
      0 :=
    { calls := by simp [ServerDescriptors.loopCall, epollCreate, ServerDescriptors.syscall]
      serverfd := rfl
      obtained := Nat.le_succ _
      closed := by simp
      others := by simp }
  cases outcome with
  | bindFails =>
      refine ⟨[.bind s.serverfd, .close s.serverfd], ?_, Or.inl (by simp)⟩
      constructor
      · simp [ServerDescriptors.listenEpoll, ServerDescriptors.syscall]
      · rfl
      · exact Nat.le_refl _
      · simp
      · simp
  | listenFails =>
      exact ⟨_, (Extends.syscall (by simp)).trans (.syscall (by simp)), Or.inl (by simp)⟩
  | epollCreateFails =>
      refine ⟨[.bind s.serverfd, .listen s.serverfd], ?_, Or.inl (by simp)⟩
      constructor
      · simp [ServerDescriptors.listenEpoll, ServerDescriptors.syscall]
      · rfl
      · exact Nat.le_refl _
      · simp
      · simp
  | epollCtlFails => exact ⟨_, registered, Or.inr (by simp)⟩
  | runs calls =>
      obtain ⟨more, looped⟩ := Extends.loop _ calls
      exact ⟨_, registered.trans looped, Or.inr (by simp)⟩

/-- All calls of `Listen()` together: the failed binds are the closes, and a
descriptor of epoll, if one was obtained, is never closed. -/
theorem Extends.listens (s : ServerDescriptors) (outcomes : List ListenOutcome) :
    ∃ more, Extends s (outcomes.foldl (fun s outcome => s.listenEpoll outcome) s) more
        (outcomes.count .bindFails) ∧
      ((∀ outcome ∈ outcomes, outcome ∈ [.bindFails, .listenFails, .epollCreateFails]) ∨
        ∃ fd, s.obtained ≤ fd ∧ .epollCreate fd ∈ more) := by
  induction outcomes generalizing s with
  | nil => exact ⟨[], .refl s, Or.inl (by simp)⟩
  | cons outcome outcomes ih =>
      obtain ⟨first, extends_first, created_first⟩ := Extends.listenEpoll s outcome
      obtain ⟨rest, extends_rest, created_rest⟩ := ih (s.listenEpoll outcome)
      refine ⟨first ++ rest, ?_, ?_⟩
      · have counted : (outcome :: outcomes).count .bindFails =
            (if outcome = .bindFails then 1 else 0) + outcomes.count .bindFails := by
          rw [List.count_cons, Nat.add_comm]
          simp
        rw [counted]
        exact extends_first.trans extends_rest
      · rcases created_first with early | created
        · rcases created_rest with late | ⟨fd, new, created⟩
          · left
            intro outcome' member
            rcases List.mem_cons.mp member with rfl | later
            · exact early
            · exact late outcome' later
          · exact Or.inr ⟨fd, Nat.le_trans extends_first.obtained new,
              List.mem_append_right _ created⟩
        · exact Or.inr ⟨s.obtained, Nat.le_refl _, List.mem_append_left _ created⟩

/-! ### Lives that are linear -/

/-- The listening socket was not closed, and is the only descriptor there was. -/
structure Untouched (s : ServerDescriptors) : Prop where
  serverfd : s.serverfd = 0
  only : ∀ call ∈ s.calls, ∀ fd, call.obtained = some fd → fd = 0
  unclosed : ∀ call ∈ s.calls, ∀ fd, call ≠ .close fd

theorem Untouched.syscall {s : ServerDescriptors} {call : Syscall} (untouched : Untouched s)
    (gives : call.obtained = none) (closes : ∀ fd, call ≠ .close fd) :
    Untouched (s.syscall call) where
  serverfd := untouched.serverfd
  only := by
    intro call' member fd obtained
    rcases List.mem_append.mp member with old | new
    · exact untouched.only call' old fd obtained
    · rw [List.mem_singleton.mp new, gives] at obtained
      cases obtained
  unclosed := by
    intro call' member
    rcases List.mem_append.mp member with old | new
    · exact untouched.unclosed call' old
    · rw [List.mem_singleton.mp new]
      exact closes

theorem Untouched.listenEpoll {s : ServerDescriptors} {outcome : ListenOutcome}
    (untouched : Untouched s) (fails : outcome = .listenFails ∨ outcome = .epollCreateFails) :
    Untouched (s.listenEpoll outcome) := by
  have listening : Untouched ((s.syscall (.bind s.serverfd)).syscall (.listen s.serverfd)) :=
    (untouched.syscall rfl (by simp)).syscall rfl (by simp)
  rcases fails with rfl | rfl
  · exact listening
  · exact ⟨listening.serverfd, listening.only, listening.unclosed⟩

/-- The destructor is the one that closes the listening socket. -/
theorem Untouched.linear_destroy {s : ServerDescriptors} (untouched : Untouched s) :
    Linear s.destroy.calls := by
  have calls : s.destroy.calls = s.calls ++ [.shutdown 0, .close 0] := by
    rw [destroy_calls, untouched.serverfd]
  rw [calls]
  constructor
  · rintro fd ⟨call, member, obtained⟩
    have first : fd = 0 := by
      rcases List.mem_append.mp member with old | new
      · exact untouched.only call old fd obtained
      · rcases List.mem_pair.mp new with rfl | rfl <;> cases obtained
    have before : s.calls.count (.close 0) = 0 :=
      List.count_eq_zero.mpr fun member => untouched.unclosed _ member 0 rfl
    rw [first, List.count_append, before]
    rfl
  · rw [List.pairwise_append]
    refine ⟨?_, by simp, ?_⟩
    · exact List.pairwise_of_forall_mem_list fun earlier member _ _ fd closed =>
        absurd closed (untouched.unclosed earlier member fd)
    · intro earlier member later _ fd closed
      exact absurd closed (untouched.unclosed earlier member fd)

/-- The descriptors of a server are owned linearly exactly if every `Listen()` of
its life fails at `listen` or at `epoll_create`. -/
theorem linear_lifetime_iff (outcomes : List ListenOutcome) :
    Linear (lifetime outcomes).calls ↔
      ∀ outcome ∈ outcomes, outcome = .listenFails ∨ outcome = .epollCreateFails := by
  constructor
  · intro linear
    obtain ⟨more, extended, created⟩ := Extends.listens new outcomes
    have calls : (lifetime outcomes).calls =
        .socket 0 :: more ++ [.shutdown 0, .close 0] := by
      rw [lifetime, destroy_calls, extended.calls, extended.serverfd]
      rfl
    rw [calls] at linear
    have once := linear.closedOnce 0 ⟨_, List.mem_append_left _ List.mem_cons_self, rfl⟩
    have binds : outcomes.count .bindFails = 0 := by
      have closes : more.count (.close 0) = outcomes.count .bindFails := extended.closed
      simp only [List.cons_append, List.count_cons, List.count_append, closes] at once
      simpa using once
    have kept : ∀ outcome ∈ outcomes,
        outcome ∈ [ListenOutcome.bindFails, .listenFails, .epollCreateFails] := by
      rcases created with all | ⟨fd, new, member⟩
      · exact all
      · -- A descriptor of epoll is closed by nobody.
        have closed := linear.closedOnce fd ⟨.epollCreate fd, by simp [member], rfl⟩
        have other : fd ≠ 0 := Nat.ne_of_gt new
        have never : more.count (.close fd) = 0 :=
          List.count_eq_zero.mpr (extended.others fd other)
        simp [never, other.symm] at closed
    intro outcome member
    have bound : outcome ≠ .bindFails := by
      rintro rfl
      exact List.count_eq_zero.mp binds member
    simpa [bound] using kept outcome member
  · intro fails
    have untouched : ∀ s, Untouched s →
        Untouched (outcomes.foldl (fun s outcome => s.listenEpoll outcome) s) := by
      induction outcomes with
      | nil => exact fun s start => start
      | cons outcome outcomes ih =>
          intro s start
          exact ih (fun outcome member => fails outcome (List.mem_cons_of_mem _ member)) _
            (start.listenEpoll (fails outcome List.mem_cons_self))
    exact (untouched new ⟨rfl, by simp [new, Syscall.obtained], by simp [new]⟩).linear_destroy

/-- A failed bind, and then the destructor: the listening socket is closed
twice. -/
theorem lifetime_not_linear : ¬ Linear (lifetime [.bindFails]).calls := by
  intro linear
  exact absurd (linear.closedOnce 0 ⟨.socket 0, by decide, rfl⟩) (by decide)

end ServerDescriptors

end LibSiot
