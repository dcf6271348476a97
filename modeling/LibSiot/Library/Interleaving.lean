/-
Module: LibSiot.Library.Interleaving
Purpose: Threads that interleave at single operations.  A thread is the list of
  operations it has still to do; an operation acts on the shared state and says
  what its thread does next: more operations before the rest, an exception that
  leaves only destructors, or nothing any more.
Trusted boundary: none
Main exports: Interleaving.Flow, Interleaving.Machine, Interleaving.Config,
  Interleaving.Machine.step_eq_some, Interleaving.Machine.always_of_invariant,
  Interleaving.Machine.refines_of_run, Interleaving.Machine.total_step_le,
  Interleaving.Circle.exists_served, Interleaving.exists_end_of_rank
-/
import Mathlib

namespace Interleaving

universe u v w x y z

/-- What a thread does after one operation. -/
inductive Flow (τ : Type v) where
  | next (ops : List τ)
  | unwind
  | halt
deriving Repr, DecidableEq

/-- A program for threads `ι` with operations `τ`, the choices `ε` the
environment makes and shared state `σ`.  An operation that gives no result is
blocked.  `survives` marks the operations that an exception does not skip. -/
structure Machine (ι : Type u) (τ : Type v) (ε : Type w) (σ : Type x) where
  exec : ι → τ → ε → σ → Option (Flow τ × σ)
  survives : τ → Bool

/-- What all threads have still to do, and the shared state. -/
structure Config (ι : Type u) (τ : Type v) (σ : Type x) where
  prog : ι → List τ
  shared : σ

namespace Machine

variable {ι : Type u} {τ : Type v} {ε : Type w} {σ : Type x} {κ : Type z} (M : Machine ι τ ε σ)

/-- The operations left to a thread that had `rest` left before. -/
def continuation (flow : Flow τ) (rest : List τ) : List τ :=
  match flow with
  | .next ops => ops ++ rest
  | .unwind => rest.filter M.survives
  | .halt => []

@[simp] theorem continuation_next (ops rest : List τ) :
    M.continuation (.next ops) rest = ops ++ rest := rfl

@[simp] theorem continuation_unwind (rest : List τ) :
    M.continuation .unwind rest = rest.filter M.survives := rfl

@[simp] theorem continuation_halt (rest : List τ) :
    M.continuation .halt rest = [] := rfl

/-- Whatever is left was pushed now or was left before. -/
theorem mem_continuation {flow : Flow τ} {rest : List τ} {op : τ}
    (member : op ∈ M.continuation flow rest) :
    (∃ ops, flow = .next ops ∧ op ∈ ops) ∨ op ∈ rest := by
  cases flow with
  | next ops =>
      rcases List.mem_append.mp member with pushed | old
      · exact Or.inl ⟨ops, rfl, pushed⟩
      · exact Or.inr old
  | unwind => exact Or.inr (List.mem_filter.mp member).1
  | halt => cases member

variable [DecidableEq ι]

/-- One operation of thread `t`. -/
def step (t : ι) (e : ε) (c : Config ι τ σ) : Option (Config ι τ σ) :=
  match c.prog t with
  | [] => none
  | op :: rest =>
      (M.exec t op e c.shared).map fun result =>
        { prog := Function.update c.prog t (M.continuation result.1 rest)
          shared := result.2 }

/-- What a step is: the first operation of its thread is executed, and no other
thread is touched. -/
theorem step_eq_some {t : ι} {e : ε} {c c' : Config ι τ σ} (taken : M.step t e c = some c') :
    ∃ op rest flow, c.prog t = op :: rest ∧
      M.exec t op e c.shared = some (flow, c'.shared) ∧
      c'.prog = Function.update c.prog t (M.continuation flow rest) := by
  rw [step] at taken
  split at taken
  · cases taken
  · rename_i op rest program
    obtain ⟨⟨flow, shared⟩, executed, rfl⟩ := Option.map_eq_some_iff.mp taken
    exact ⟨op, rest, flow, program, executed, rfl⟩

/-- An operation that is not blocked makes a step. -/
theorem step_of_exec {t : ι} {e : ε} {c : Config ι τ σ} {op : τ} {rest : List τ}
    {flow : Flow τ} {shared : σ} (program : c.prog t = op :: rest)
    (executed : M.exec t op e c.shared = some (flow, shared)) :
    M.step t e c = some
      { prog := Function.update c.prog t (M.continuation flow rest), shared := shared } := by
  rw [step, program]
  simp only [executed, Option.map_some]

/-- Take the steps of a schedule one after the other. -/
def run : List (ι × ε) → Config ι τ σ → Option (Config ι τ σ)
  | [], c => some c
  | (t, e) :: schedule, c => (M.step t e c).bind (run schedule)

/-- Every step of the schedule meets `G` in the state it is taken in. -/
def Along (G : Config ι τ σ → ι → ε → Prop) :
    List (ι × ε) → Config ι τ σ → Prop
  | [], _ => True
  | (t, e) :: schedule, c => G c t e ∧ ∀ c', M.step t e c = some c' → Along G schedule c'

/-- The state before the schedule, and every state its steps lead to, has `P`. -/
def Always (P : Config ι τ σ → Prop) :
    List (ι × ε) → Config ι τ σ → Prop
  | [], c => P c
  | (t, e) :: schedule, c => P c ∧ ∀ c', M.step t e c = some c' → Always P schedule c'

/-- The same with a history variable: before each step `advance` brings up to date
what is remembered of the run. -/
def AlwaysWith (advance : Config ι τ σ → ι → ε → κ → κ) (P : κ → Config ι τ σ → Prop) :
    List (ι × ε) → κ → Config ι τ σ → Prop
  | [], k, c => P k c
  | (t, e) :: schedule, k, c =>
      P k c ∧ ∀ c', M.step t e c = some c' → AlwaysWith advance P schedule (advance c t e k) c'

/-- A condition along a given schedule can be computed. -/
instance decidableAlong (G : Config ι τ σ → ι → ε → Prop) [∀ c t e, Decidable (G c t e)] :
    ∀ schedule c, Decidable (M.Along G schedule c)
  | [], _ => isTrue trivial
  | (t, e) :: schedule, c =>
      match taken : M.step t e c with
      | none =>
          decidable_of_iff (G c t e)
            ⟨fun guard => ⟨guard, fun c' impossible => by rw [taken] at impossible; cases impossible⟩,
              And.left⟩
      | some next =>
          have := decidableAlong G schedule next
          decidable_of_iff (G c t e ∧ M.Along G schedule next)
            ⟨fun both => ⟨both.1, fun c' same => by
                rw [taken] at same; cases same; exact both.2⟩,
              fun along => ⟨along.1, along.2 next taken⟩⟩

/-- So can a property with a history variable. -/
instance decidableAlwaysWith (advance : Config ι τ σ → ι → ε → κ → κ)
    (P : κ → Config ι τ σ → Prop) [∀ k c, Decidable (P k c)] :
    ∀ schedule k c, Decidable (M.AlwaysWith advance P schedule k c)
  | [], k, c => inferInstanceAs (Decidable (P k c))
  | (t, e) :: schedule, k, c =>
      match taken : M.step t e c with
      | none =>
          decidable_of_iff (P k c)
            ⟨fun holds => ⟨holds, fun c' impossible => by rw [taken] at impossible; cases impossible⟩,
              And.left⟩
      | some next =>
          have := decidableAlwaysWith advance P schedule (advance c t e k) next
          decidable_of_iff
            (P k c ∧ M.AlwaysWith advance P schedule (advance c t e k) next)
            ⟨fun both => ⟨both.1, fun c' same => by
                rw [taken] at same; cases same; exact both.2⟩,
              fun always => ⟨always.1, always.2 next taken⟩⟩

variable {M}

/-- The invariant rule: what holds at first and is kept by every step that meets
`G` holds in every state of every run along `G`. -/
theorem always_of_invariant {G : Config ι τ σ → ι → ε → Prop} {P : Config ι τ σ → Prop}
    (I : Config ι τ σ → Prop)
    (kept : ∀ c t e c', I c → G c t e → M.step t e c = some c' → I c')
    (enough : ∀ c, I c → P c) {schedule : List (ι × ε)} {c : Config ι τ σ} (start : I c)
    (along : M.Along G schedule c) : M.Always P schedule c := by
  induction schedule generalizing c with
  | nil => exact enough c start
  | cons label schedule ih =>
      obtain ⟨t, e⟩ := label
      obtain ⟨guard, rest⟩ := along
      exact ⟨enough c start, fun c' taken => ih (kept c t e c' start guard taken) (rest c' taken)⟩

/-- The state that a run along `G` ends in. -/
theorem invariant_of_run {G : Config ι τ σ → ι → ε → Prop} (I : Config ι τ σ → Prop)
    (kept : ∀ c t e c', I c → G c t e → M.step t e c = some c' → I c')
    {schedule : List (ι × ε)} {c c' : Config ι τ σ} (start : I c)
    (along : M.Along G schedule c) (run : M.run schedule c = some c') : I c' := by
  induction schedule generalizing c with
  | nil =>
      cases run
      exact start
  | cons label schedule ih =>
      obtain ⟨t, e⟩ := label
      obtain ⟨guard, rest⟩ := along
      obtain ⟨next, taken, remaining⟩ := Option.bind_eq_some_iff.mp run
      exact ih (kept c t e next start guard taken) (rest next taken) remaining

/-- The refinement rule: where each step that meets `G` is at most one step of `A`, a run along
`G` is a run of `A`. -/
theorem refines_of_run {α : Type y} {G : Config ι τ σ → ι → ε → Prop} {A : α → α → Prop}
    (R : Config ι τ σ → α → Prop) (I : Config ι τ σ → Prop)
    (kept : ∀ c t e c', I c → G c t e → M.step t e c = some c' → I c')
    (simulates : ∀ c t e c' a, I c → G c t e → M.step t e c = some c' → R c a →
      ∃ a', R c' a' ∧ (a' = a ∨ A a a'))
    {schedule : List (ι × ε)} {c c' : Config ι τ σ} {a : α} (start : I c) (related : R c a)
    (along : M.Along G schedule c) (run : M.run schedule c = some c') :
    ∃ a', R c' a' ∧ Relation.ReflTransGen A a a' := by
  have simulated : I c' ∧ ∃ a', R c' a' ∧ Relation.ReflTransGen A a a' := by
    refine invariant_of_run (fun c => I c ∧ ∃ a', R c a' ∧ Relation.ReflTransGen A a a') ?_
      ⟨start, a, related, .refl⟩ along run
    rintro c t e c' ⟨inv, b, related, path⟩ guard taken
    obtain ⟨b', related', same | step⟩ := simulates c t e c' b inv guard taken related
    · exact ⟨kept c t e c' inv guard taken, b', related', same ▸ path⟩
    · exact ⟨kept c t e c' inv guard taken, b', related', path.tail step⟩
  exact simulated.2

/-- The invariant rule with a history variable. -/
theorem alwaysWith_of_invariant {G : Config ι τ σ → ι → ε → Prop}
    {advance : Config ι τ σ → ι → ε → κ → κ} {P : κ → Config ι τ σ → Prop}
    (I : κ → Config ι τ σ → Prop)
    (kept : ∀ k c t e c', I k c → G c t e → M.step t e c = some c' → I (advance c t e k) c')
    (enough : ∀ k c, I k c → P k c) {schedule : List (ι × ε)} {k : κ} {c : Config ι τ σ}
    (start : I k c) (along : M.Along G schedule c) : M.AlwaysWith advance P schedule k c := by
  induction schedule generalizing k c with
  | nil => exact enough k c start
  | cons label schedule ih =>
      obtain ⟨t, e⟩ := label
      obtain ⟨guard, rest⟩ := along
      exact ⟨enough k c start,
        fun c' taken => ih (kept k c t e c' start guard taken) (rest c' taken)⟩

/-- If no step that breaks `G` leads from a state with `P` to another, then `P` in
all states means that all steps meet `G`.  The invariant may rest on `G`, which
holds of the steps before. -/
theorem along_of_always {G : Config ι τ σ → ι → ε → Prop} {P : Config ι τ σ → Prop}
    (I : Config ι τ σ → Prop)
    (kept : ∀ c t e c', I c → G c t e → M.step t e c = some c' → I c')
    (needed : ∀ c t e, I c → (∀ c', M.step t e c = some c' → P c') → G c t e)
    {schedule : List (ι × ε)} {c : Config ι τ σ} (start : I c)
    (always : M.Always P schedule c) : M.Along G schedule c := by
  induction schedule generalizing c with
  | nil => trivial
  | cons label schedule ih =>
      obtain ⟨t, e⟩ := label
      obtain ⟨_, rest⟩ := always
      have guard : G c t e := by
        refine needed c t e start fun c' taken => ?_
        cases schedule with
        | nil => exact rest c' taken
        | cons => exact (rest c' taken).1
      exact ⟨guard, fun c' taken => ih (kept c t e c' start guard taken) (rest c' taken)⟩

/-- A condition that every step meets is met along every run. -/
theorem Along.of_forall {G : Config ι τ σ → ι → ε → Prop} (all : ∀ c t e, G c t e) :
    ∀ (schedule : List (ι × ε)) (c : Config ι τ σ), M.Along G schedule c
  | [], _ => trivial
  | (t, e) :: schedule, c => ⟨all c t e, fun c' _ => Along.of_forall all schedule c'⟩

/-- Two conditions along one run. -/
theorem Along.and {G H : Config ι τ σ → ι → ε → Prop} {schedule : List (ι × ε)}
    {c : Config ι τ σ} (first : M.Along G schedule c) (second : M.Along H schedule c) :
    M.Along (fun c t e => G c t e ∧ H c t e) schedule c := by
  induction schedule generalizing c with
  | nil => trivial
  | cons label schedule ih =>
      exact ⟨⟨first.1, second.1⟩, fun c' taken => ih (first.2 c' taken) (second.2 c' taken)⟩

/-! ### One thread alone -/

omit [DecidableEq ι] in
variable (M) in
/-- Thread `t` alone, with choice `e` throughout, does `ops` and all they push. -/
inductive Finishes (t : ι) (e : ε) : List τ → σ → σ → Prop where
  | done (s : σ) : Finishes t e [] s s
  | step {op : τ} {rest : List τ} {flow : Flow τ} {s next s' : σ}
      (executed : M.exec t op e s = some (flow, next))
      (remaining : Finishes t e (M.continuation flow rest) next s') :
      Finishes t e (op :: rest) s s'

omit [DecidableEq ι] in
theorem finishes_nil {t : ι} {e : ε} {s s' : σ} : M.Finishes t e [] s s' ↔ s' = s := by
  constructor
  · intro finished
    cases finished
    rfl
  · rintro rfl
    exact .done s'

omit [DecidableEq ι] in
theorem finishes_cons {t : ι} {e : ε} {op : τ} {rest : List τ} {s s' : σ} :
    M.Finishes t e (op :: rest) s s' ↔
      ∃ flow next, M.exec t op e s = some (flow, next) ∧
        M.Finishes t e (M.continuation flow rest) next s' := by
  constructor
  · intro finished
    cases finished with
    | step executed remaining => exact ⟨_, _, executed, remaining⟩
  · rintro ⟨flow, next, executed, remaining⟩
    exact .step executed remaining

/-- What a thread does alone is a run in which no other thread takes a step. -/
theorem Finishes.run {t : ι} {e : ε} {ops : List τ} {s s' : σ}
    (finished : M.Finishes t e ops s s') {c : Config ι τ σ} (program : c.prog t = ops)
    (shared : c.shared = s) :
    ∃ k, M.run (List.replicate k (t, e)) c =
      some { prog := Function.update c.prog t [], shared := s' } := by
  induction finished generalizing c with
  | done s =>
      refine ⟨0, ?_⟩
      rw [← program, Function.update_eq_self, ← shared]
      rfl
  | @step op rest flow s next s' executed remaining ih =>
      have taken := M.step_of_exec program (shared ▸ executed)
      have followed : Function.update c.prog t (M.continuation flow rest) t =
          M.continuation flow rest := Function.update_self ..
      obtain ⟨k, run⟩ := @ih ⟨Function.update c.prog t (M.continuation flow rest), next⟩
        followed rfl
      refine ⟨k + 1, ?_⟩
      rw [List.replicate_succ, Machine.run, taken, Option.bind_some, run,
        Function.update_idem]

omit [DecidableEq ι] in
variable (M) in
/-- Thread `t` alone, with choice `e` throughout, does `ops` and all they push
without an exception; `performed` are the operations in the order in which they
come. -/
inductive Performs (t : ι) (e : ε) : List τ → σ → List τ → σ → Prop where
  | done (s : σ) : Performs t e [] s [] s
  | step {op : τ} {rest pushed performed : List τ} {s next s' : σ}
      (executed : M.exec t op e s = some (.next pushed, next))
      (remaining : Performs t e (pushed ++ rest) next performed s') :
      Performs t e (op :: rest) s (op :: performed) s'

section Performs

variable {t : ι} {e : ε} {ops ops' performed performed' pushed : List τ} {op : τ}
  {s next s' s'' : σ}

omit [DecidableEq ι] in
theorem Performs.finishes (performs : M.Performs t e ops s performed s') :
    M.Finishes t e ops s s' := by
  induction performs with
  | done s => exact .done s
  | step executed _ ih => exact .step executed ih

omit [DecidableEq ι] in
/-- One operation after the other. -/
theorem Performs.append (first : M.Performs t e ops s performed s')
    (second : M.Performs t e ops' s' performed' s'') :
    M.Performs t e (ops ++ ops') s (performed ++ performed') s'' := by
  induction first with
  | done s => exact second
  | step executed _ ih =>
      have remaining := ih second
      rw [List.append_assoc] at remaining
      exact .step executed remaining

omit [DecidableEq ι] in
/-- An operation and all that it pushes. -/
theorem Performs.pushing (executed : M.exec t op e s = some (.next pushed, next))
    (body : M.Performs t e pushed next performed s') :
    M.Performs t e [op] s (op :: performed) s' := by
  apply Performs.step executed
  rwa [List.append_nil]

omit [DecidableEq ι] in
/-- An operation that pushes nothing. -/
theorem Performs.single (executed : M.exec t op e s = some (.next [], next)) :
    M.Performs t e [op] s [op] next :=
  .pushing executed (.done next)

omit [DecidableEq ι] in
theorem Performs.unique (first : M.Performs t e ops s performed s')
    (second : M.Performs t e ops s performed' s'') : performed' = performed ∧ s'' = s' := by
  induction first generalizing performed' with
  | done s =>
      cases second
      exact ⟨rfl, rfl⟩
  | step executed _ ih =>
      cases second with
      | step executed' remaining' =>
          cases executed.symm.trans executed'
          obtain ⟨rfl, rfl⟩ := ih remaining'
          exact ⟨rfl, rfl⟩

end Performs

/-! ### Operations of all threads -/

/-- A property of operations, in a shared state, that every operation still to be
done has. -/
def AllOps (P : σ → ι → τ → Prop) (c : Config ι τ σ) : Prop :=
  ∀ t, ∀ op ∈ c.prog t, P c.shared t op

/-- To keep a property of all operations, show it of what the step pushes, and
that the step does not take it from the others. -/
theorem AllOps.step {P : σ → ι → τ → Prop} {t : ι} {e : ε} {c c' : Config ι τ σ}
    (all : AllOps P c) (taken : M.step t e c = some c')
    (pushed : ∀ op ops rest, c.prog t = op :: rest → P c.shared t op →
      M.exec t op e c.shared = some (.next ops, c'.shared) →
        ∀ new ∈ ops, P c'.shared t new)
    (stays : ∀ t' op', op' ∈ c.prog t' → P c.shared t' op' → P c'.shared t' op') :
    AllOps P c' := by
  obtain ⟨op, rest, flow, program, executed, progs⟩ := M.step_eq_some taken
  intro t' op' member
  rw [progs] at member
  by_cases same : t' = t
  · subst same
    rw [Function.update_self] at member
    rcases M.mem_continuation member with ⟨ops, rfl, new⟩ | old
    · exact pushed op ops rest program (all _ _ (program ▸ List.mem_cons_self)) executed _ new
    · have before : op' ∈ c.prog t' := program ▸ List.mem_cons_of_mem _ old
      exact stays t' op' before (all t' op' before)
  · rw [Function.update_of_ne same] at member
    exact stays t' op' member (all t' op' member)

/-! ### The order of operations -/

/-- What a step pushes. -/
def pushes (flow : Flow τ) : List τ :=
  match flow with
  | .next ops => ops
  | .unwind => []
  | .halt => []

omit [DecidableEq ι] in
/-- To keep an order on the operations of a thread, let what an operation pushes be
in order and come before all that the operation may come before. -/
theorem pairwise_continuation {R : τ → τ → Prop} {op : τ} {rest : List τ} {flow : Flow τ}
    (ordered : (op :: rest).Pairwise R) (pushed : (pushes flow).Pairwise R)
    (before : ∀ a ∈ pushes flow, ∀ b, R op b → R a b) :
    (M.continuation flow rest).Pairwise R := by
  obtain ⟨first, rest⟩ := List.pairwise_cons.mp ordered
  cases flow with
  | next ops =>
      exact List.pairwise_append.mpr
        ⟨pushed, rest, fun a new b old => before a new b (first b old)⟩
  | unwind => exact rest.sublist List.filter_sublist
  | halt => exact List.Pairwise.nil

omit [DecidableEq ι] in
/-- Where an operation that exceptions skip stands after a step: among those
pushed, or behind all of them where it stood before. -/
theorem continuation_split {op : τ} {rest pre post : List τ} {flow : Flow τ}
    (split : M.continuation flow rest = pre ++ op :: post) (skipped : M.survives op = false) :
    (∃ between, pushes flow = pre ++ op :: between ∧ post = between ++ rest) ∨
      ∃ pre', pre = pushes flow ++ pre' ∧ rest = pre' ++ op :: post := by
  cases flow with
  | next ops =>
      rcases List.append_eq_append_iff.mp split with ⟨pre', rfl, old⟩ | ⟨tail, pushed, rest⟩
      · exact Or.inr ⟨pre', rfl, old⟩
      · cases tail with
        | nil =>
            refine Or.inr ⟨[], ?_, rest.symm⟩
            rw [List.append_nil] at pushed ⊢
            exact pushed.symm
        | cons first between =>
            cases rest
            exact Or.inl ⟨between, pushed, rfl⟩
  | unwind =>
      have member : op ∈ rest.filter M.survives := by
        rw [← M.continuation_unwind, split]
        exact List.mem_append_right _ List.mem_cons_self
      rw [(List.mem_filter.mp member).2] at skipped
      cases skipped
  | halt => exact absurd split (by simp)

/-! ### Weights -/

/-- The weight of all operations still to be done. -/
def total [Fintype ι] (weight : τ → Nat) (prog : ι → List τ) : Nat :=
  ∑ t, ((prog t).map weight).sum

/-- If one thread alone changes, a sum over all threads changes by the difference. -/
theorem sum_change [Fintype ι] {f g : ι → Nat} {t : ι} (others : ∀ t', t' ≠ t → f t' = g t') :
    (∑ t', f t') + g t = (∑ t', g t') + f t := by
  have split : ∀ h : ι → Nat, ∑ t', h t' = h t + ∑ t' ∈ Finset.univ.erase t, h t' :=
    fun h => (Finset.add_sum_erase _ _ (Finset.mem_univ t)).symm
  have rest : ∑ t' ∈ Finset.univ.erase t, f t' = ∑ t' ∈ Finset.univ.erase t, g t' :=
    Finset.sum_congr rfl fun t' member => others t' (Finset.ne_of_mem_erase member)
  rw [split f, split g, rest]
  omega

/-- Giving a thread another program changes the total by the difference. -/
theorem total_update [Fintype ι] (weight : τ → Nat) (prog : ι → List τ) (t : ι)
    (ops : List τ) :
    total weight (Function.update prog t ops) + ((prog t).map weight).sum =
      total weight prog + (ops.map weight).sum := by
  have change := sum_change (f := fun t' => ((Function.update prog t ops t').map weight).sum)
    (g := fun t' => ((prog t').map weight).sum) (t := t)
    fun t' other => by rw [Function.update_of_ne other]
  rwa [Function.update_self] at change

omit [DecidableEq ι] in
theorem total_eq_zero [Fintype ι] {weight : τ → Nat} {prog : ι → List τ}
    (zero : ∀ t, ∀ op ∈ prog t, weight op = 0) : total weight prog = 0 := by
  apply Finset.sum_eq_zero
  intro t _
  apply List.sum_eq_zero
  intro w member
  obtain ⟨op, there, rfl⟩ := List.mem_map.mp member
  exact zero t op there

omit [DecidableEq ι] in
/-- A single operation weighs no more than all of them. -/
theorem le_total [Fintype ι] (weight : τ → Nat) {prog : ι → List τ} {t : ι} {op : τ}
    (member : op ∈ prog t) : weight op ≤ total weight prog := by
  have inThread : weight op ≤ ((prog t).map weight).sum :=
    List.single_le_sum (fun _ _ => Nat.zero_le _) _ (List.mem_map_of_mem member)
  exact inThread.trans
    (Finset.single_le_sum (f := fun t => ((prog t).map weight).sum)
      (fun _ _ => Nat.zero_le _) (Finset.mem_univ t))

/-- Where all operations together weigh at most one, a first operation that weighs
something leaves nothing that does. -/
theorem eq_zero_of_total_le_one [Fintype ι] {weight : τ → Nat} {prog : ι → List τ} {t t' : ι}
    {op op' : τ} {rest : List τ} (light : total weight prog ≤ 1) (program : prog t = op :: rest)
    (heavy : weight op ≠ 0) (left : op' ∈ Function.update prog t rest t') : weight op' = 0 := by
  have updated := total_update weight prog t rest
  rw [program, List.map_cons, List.sum_cons] at updated
  have single := le_total weight left
  omega

/-- If nothing else weighs anything, a first operation is all the weight. -/
theorem total_eq_of_first [Fintype ι] {weight : τ → Nat} {prog : ι → List τ} {t : ι} {op : τ}
    {rest : List τ} (program : prog t = op :: rest)
    (light : ∀ t', ∀ op' ∈ Function.update prog t rest t', weight op' = 0) :
    total weight prog = weight op := by
  have updated := total_update weight prog t rest
  rw [program, List.map_cons, List.sum_cons, total_eq_zero light] at updated
  omega

/-- A step takes the weight of its operation and adds at most that of what it
pushes. -/
theorem total_step_le [Fintype ι] (weight : τ → Nat) {t : ι} {c c' : Config ι τ σ} {op : τ}
    {rest : List τ} {flow : Flow τ} (program : c.prog t = op :: rest)
    (progs : c'.prog = Function.update c.prog t (M.continuation flow rest)) :
    total weight c'.prog + weight op ≤
      total weight c.prog + ((pushes flow).map weight).sum := by
  have updated := total_update weight c.prog t (M.continuation flow rest)
  rw [← progs, program, List.map_cons, List.sum_cons] at updated
  have left : ((M.continuation flow rest).map weight).sum ≤
      ((pushes flow).map weight).sum + (rest.map weight).sum := by
    cases flow with
    | next ops => simp [continuation, pushes]
    | unwind =>
        simp only [continuation, pushes, List.map_nil, List.sum_nil, Nat.zero_add]
        exact ((List.filter_sublist).map weight).sum_le_sum fun _ _ => Nat.zero_le _
    | halt => simp [continuation]
  omega

/-- A step moves weight exactly, if it goes on, or if what it skips weighs nothing. -/
theorem total_step_eq [Fintype ι] (weight : τ → Nat) {t : ι} {c c' : Config ι τ σ} {op : τ}
    {rest : List τ} {flow : Flow τ} (program : c.prog t = op :: rest)
    (progs : c'.prog = Function.update c.prog t (M.continuation flow rest))
    (kept : (∃ ops, flow = .next ops) ∨ ∀ op ∈ rest, weight op = 0) :
    total weight c'.prog + weight op = total weight c.prog + ((pushes flow).map weight).sum := by
  have updated := total_update weight c.prog t (M.continuation flow rest)
  rw [← progs, program, List.map_cons, List.sum_cons] at updated
  have left : ((M.continuation flow rest).map weight).sum =
      ((pushes flow).map weight).sum + (rest.map weight).sum := by
    have none : (∀ op ∈ rest, weight op = 0) → ∀ ops ⊆ rest, (ops.map weight).sum = 0 :=
      fun nothing ops inside => List.sum_eq_zero fun w member => by
        obtain ⟨op, there, rfl⟩ := List.mem_map.mp member
        exact nothing op (inside there)
    rcases kept with ⟨ops, rfl⟩ | nothing
    · simp [continuation, pushes]
    · cases flow with
      | next ops => simp [continuation, pushes]
      | unwind =>
          rw [none nothing rest (List.Subset.refl _)]
          exact none nothing _ (List.filter_sublist.subset)
      | halt =>
          rw [none nothing rest (List.Subset.refl _)]
          rfl
  omega

omit [DecidableEq ι] in
/-- If every thread weighs no more by one measure than by the other, and one thread
weighs less, so do all together. -/
theorem total_add_le [Fintype ι] {less more : τ → Nat} {prog : ι → List τ} {t : ι} {extra : Nat}
    (le : ∀ t, ((prog t).map less).sum ≤ ((prog t).map more).sum)
    (here : ((prog t).map less).sum + extra ≤ ((prog t).map more).sum) :
    total less prog + extra ≤ total more prog := by
  classical
  have split : ∀ weight : τ → Nat, total weight prog =
      ((prog t).map weight).sum + ∑ t' ∈ Finset.univ.erase t, ((prog t').map weight).sum :=
    fun weight => (Finset.add_sum_erase _ _ (Finset.mem_univ t)).symm
  have others : ∑ t' ∈ Finset.univ.erase t, ((prog t').map less).sum ≤
      ∑ t' ∈ Finset.univ.erase t, ((prog t').map more).sum :=
    Finset.sum_le_sum fun t' _ => le t'
  rw [split less, split more]
  omega

end Machine

/-! ### Waiting in a circle -/

/-- Everybody in `D` waits: for somebody in `D`, or for any of those who can serve it, who
are there and all in `D`.  Then nobody in `D` goes on before somebody in `D` does. -/
structure Circle {α : Type u} (waits serves : α → α → Prop) (D : Set α) : Prop where
  nonempty : D.Nonempty
  waiting : ∀ a ∈ D, (∃ b ∈ D, waits a b) ∨ ((∃ b, serves a b) ∧ ∀ b, serves a b → b ∈ D)

/-- Whoever waits for itself through others waits with them in a circle. -/
theorem Circle.of_transGen {α : Type u} {waits serves : α → α → Prop} {a : α}
    (path : Relation.TransGen waits a a) :
    Circle waits serves { b | Relation.TransGen waits a b ∧ Relation.TransGen waits b a } := by
  refine ⟨⟨a, path, path⟩, ?_⟩
  rintro b ⟨there, back⟩
  obtain ⟨c, next, further⟩ := Relation.TransGen.head'_iff.mp back
  refine Or.inl ⟨c, ⟨there.tail next, ?_⟩, next⟩
  rcases Relation.reflTransGen_iff_eq_or_transGen.mp further with rfl | further
  · exact path
  · exact further

/-- If along every wait for someone who waits too a rank goes down, a circle is only closed
by one who waits to be served. -/
theorem Circle.exists_served {α : Type u} {β : Type y} [Preorder β] [WellFoundedLT β]
    {waits serves : α → α → Prop} {D : Set α} (circle : Circle waits serves D) (rank : α → β)
    (down : ∀ a b, waits a b → (∃ c, waits b c) → rank b < rank a) :
    ∃ a ∈ D, (∃ b, serves a b) ∧ ∀ b, serves a b → b ∈ D := by
  by_contra none
  have waiting : ∀ a ∈ D, ∃ b ∈ D, waits a b := fun a member =>
    (circle.waiting a member).resolve_right fun served => none ⟨a, member, served⟩
  have empty : ∀ r, ∀ a ∈ D, rank a ≠ r := by
    intro r
    induction r using WellFoundedLT.induction with
    | ind r ih =>
        rintro a member rfl
        obtain ⟨b, inside, edge⟩ := waiting a member
        obtain ⟨c, _, further⟩ := waiting b inside
        exact ih (rank b) (down a b edge ⟨c, further⟩) b inside rfl
  obtain ⟨a, member⟩ := circle.nonempty
  exact empty (rank a) a member rfl

/-- Under such a rank every chain of waits ends with someone who waits for nobody. -/
theorem exists_end_of_rank {α : Type u} {β : Type y} [Preorder β] [WellFoundedLT β]
    {waits : α → α → Prop} (rank : α → β)
    (down : ∀ a b, waits a b → (∃ c, waits b c) → rank b < rank a) {a b : α} (edge : waits a b) :
    ∃ d, Relation.TransGen waits a d ∧ ∃ c, waits c d ∧ ∀ d', ¬ waits d d' := by
  induction goal : rank a using WellFoundedLT.induction generalizing a b with
  | ind r ih =>
      by_cases further : ∃ c, waits b c
      · obtain ⟨c, next⟩ := further
        obtain ⟨d, path, ends⟩ := ih (rank b) (goal ▸ down a b edge ⟨c, next⟩) next rfl
        exact ⟨d, .head edge path, ends⟩
      · exact ⟨b, .single edge, a, edge, fun d' next => further ⟨d', next⟩⟩

end Interleaving
