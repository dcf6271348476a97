/-
Module: LibSiot.Connection
Purpose: The interface every connection class implements, as state passing:
  how one virtual call ends, what an object offers, and what a sequence of
  calls on one object leaves behind.
Trusted boundary: human-reviewed model
Main exports: Bytes, ClientConnectionException, Outcome, Connection,
  Connection.Called, Connection.EndsForGood, ReadCall, ReadResult,
  Connection.answer, Recorded, recorded, callAll,
  callAll_induction, callAll_left_induction, callAll_invariant, callAll_agree,
  CallsMeet, StatesMeet, observed, Unseen, observed_agree, observed_filter,
  UnseenExactly, UnseenExactly.of_iff, seenResults, callAll_hidden,
  consume, consume_invariant
-/
import Mathlib

namespace LibSiot

universe u v w x

/-- The contents of a `std::string` used as a byte buffer. -/
abbrev Bytes := List UInt8

/-- The conversion of a length to `size_t` is exact for what fits into memory. -/
theorem Bytes.toNat_length {data : Bytes} (fits : data.length < 2 ^ 64) :
    data.length.toUInt64.toNat = data.length := by
  rw [Nat.toUInt64_eq]
  exact UInt64.toNat_ofNat_of_lt' fits

def CR : UInt8 := 13

def LF : UInt8 := 10

/-- The default `maxlen = -1` of `Connection::Receive`, as a `size_t`. -/
def sizeMax : UInt64 := 0 - 1

/-- Exceptions the library throws for one client connection. -/
structure ClientConnectionException where
  identifier : String
  errmsg : String
deriving Repr, DecidableEq

/-- How one call on an object ends.  A C++ exception leaves the object as far
as the call had changed it, so `threw` carries a state too.  `running` is a
call that has not returned: it is blocked, or its loop is still going round. -/
inductive Outcome (σ : Type u) (α : Type v) where
  | returned (value : α) (state : σ)
  | threw (error : ClientConnectionException) (state : σ)
  | running
deriving Repr, DecidableEq

/-- The part of class `Connection` that its decorators use, for an object with
state `σ`.  Any behaviour fits: results may be short or empty, calls may throw,
and `IsEOF` may itself change the object. -/
structure Connection (σ : Type u) where
  receive : UInt64 → UInt32 → σ → Outcome σ Bytes
  isEOF : σ → Bool × σ

namespace Connection

variable {σ : Type u}

/-- One call of `Receive` or `IsEOF` that ended, and what it made of the
object. -/
inductive Called (c : Connection σ) : σ → σ → Prop where
  | received {maxlen : UInt64} {flags : UInt32} {s s' : σ} {data : Bytes}
      (call : c.receive maxlen flags s = .returned data s') : Called c s s'
  | threw {maxlen : UInt64} {flags : UInt32} {s s' : σ} {error : ClientConnectionException}
      (call : c.receive maxlen flags s = .threw error s') : Called c s s'
  | asked {s s' : σ} {atEnd : Bool} (call : c.isEOF s = (atEnd, s')) : Called c s s'

/-- The object is at its end for good: whatever is called from here on, `IsEOF`
is true and every `Receive` returns the empty string. -/
def EndsForGood (c : Connection σ) (s : σ) : Prop :=
  ∀ s', Relation.ReflTransGen c.Called s s' →
    (c.isEOF s').1 = true ∧
      ∀ maxlen flags, ∃ s'', c.receive maxlen flags s' = .returned [] s''

/-- To be at the end for good is to be in some set of such states that no call
leaves. -/
theorem EndsForGood.of_closed {c : Connection σ} (P : σ → Prop)
    (closed : ∀ s s', P s → c.Called s s' → P s')
    (ended : ∀ s, P s → (c.isEOF s).1 = true ∧
      ∀ maxlen flags, ∃ s', c.receive maxlen flags s = .returned [] s')
    {s : σ} (start : P s) : c.EndsForGood s := by
  intro s' calls
  apply ended
  induction calls with
  | refl => exact start
  | tail _ call ih => exact closed _ _ ih call

theorem EndsForGood.called {c : Connection σ} {s s' : σ} (ends : c.EndsForGood s)
    (call : c.Called s s') : c.EndsForGood s' :=
  fun s'' calls => ends s'' (calls.head call)

theorem EndsForGood.isEOF {c : Connection σ} {s : σ} (ends : c.EndsForGood s) :
    (c.isEOF s).1 = true :=
  (ends s .refl).1

/-- At the end a read gives the empty string and stays at the end. -/
theorem EndsForGood.receive {c : Connection σ} {s : σ} (ends : c.EndsForGood s)
    (maxlen : UInt64) (flags : UInt32) :
    ∃ s', c.receive maxlen flags s = .returned [] s' ∧ c.EndsForGood s' := by
  obtain ⟨s', call⟩ := (ends s .refl).2 maxlen flags
  exact ⟨s', call, ends.called (.received call)⟩

end Connection

/-! ### Calls as data -/

/-- The calls that read from a connection. -/
inductive ReadCall where
  | receive (len : UInt64) (flags : UInt32)
  | isEOF
deriving Repr, DecidableEq

/-- What these calls give back. -/
inductive ReadResult where
  | received (data : Bytes)
  | atEnd (ended : Bool)
deriving Repr, DecidableEq

/-- One call on a connection. -/
def Connection.answer {σ : Type u} (c : Connection σ) (i : ReadCall) (s : σ) :
    Outcome σ ReadResult :=
  match i with
  | .receive len flags =>
      match c.receive len flags s with
      | .running => .running
      | .threw error s => .threw error s
      | .returned data s => .returned (.received data) s
  | .isEOF => .returned (.atEnd (c.isEOF s).1) (c.isEOF s).2

/-! ### Recording what is drawn from a wrapped connection -/

/-- A connection together with the lengths it was asked for and the bytes it
handed out. -/
structure Recorded (σ : Type u) where
  inner : σ
  requests : List UInt64
  drawn : Bytes
deriving Repr, DecidableEq

/-- Start recording. -/
def Recorded.start (s : σ) : Recorded σ :=
  { inner := s, requests := [], drawn := [] }

/-- The same connection with its reads recorded. -/
def recorded {σ : Type u} (w : Connection σ) : Connection (Recorded σ) where
  receive maxlen flags r :=
    match w.receive maxlen flags r.inner with
    | .returned data s =>
        .returned data
          { inner := s, requests := r.requests ++ [maxlen], drawn := r.drawn ++ data }
    | .threw error s =>
        .threw error { r with inner := s, requests := r.requests ++ [maxlen] }
    | .running => .running
  isEOF r := ((w.isEOF r.inner).1, { r with inner := (w.isEOF r.inner).2 })

section Recorded

variable {σ : Type u} {w : Connection σ} {maxlen : UInt64} {flags : UInt32}
  {r r' : Recorded σ}

/-- A recorded read that returns adds exactly its result to the drawn bytes. -/
theorem recorded_returned {data : Bytes}
    (call : (recorded w).receive maxlen flags r = .returned data r') :
    r'.drawn = r.drawn ++ data ∧ r'.requests = r.requests ++ [maxlen] ∧
      w.receive maxlen flags r.inner = .returned data r'.inner := by
  simp only [recorded] at call
  split at call
  · cases call
    exact ⟨rfl, rfl, by assumption⟩
  · cases call
  · cases call

/-- A recorded read that throws draws nothing. -/
theorem recorded_threw {error : ClientConnectionException}
    (call : (recorded w).receive maxlen flags r = .threw error r') :
    r'.drawn = r.drawn ∧ r'.requests = r.requests ++ [maxlen] ∧
      w.receive maxlen flags r.inner = .threw error r'.inner := by
  simp only [recorded] at call
  split at call
  · cases call
  · cases call
    exact ⟨rfl, rfl, by assumption⟩
  · cases call

/-- Asking for the end of file draws nothing. -/
theorem recorded_isEOF {atEnd : Bool}
    (call : (recorded w).isEOF r = (atEnd, r')) :
    r'.drawn = r.drawn ∧ r'.requests = r.requests ∧
      w.isEOF r.inner = (atEnd, r'.inner) := by
  cases call
  exact ⟨rfl, rfl, rfl⟩

end Recorded

/-! ### Sequences of calls -/

/-- Run calls one after the other on one object, collecting how each ended.
There is no result while some call has not returned. -/
def callAll {σ : Type u} {α : Type v} {ι : Type w} (call : ι → σ → Outcome σ α) :
    List ι → σ → Option (List (Except ClientConnectionException α) × σ)
  | [], s => some ([], s)
  | i :: is, s =>
      match call i s with
      | .returned value s' =>
          (callAll call is s').map fun rest => (.ok value :: rest.1, rest.2)
      | .threw error s' =>
          (callAll call is s').map fun rest => (.error error :: rest.1, rest.2)
      | .running => none

/-- The values of the calls that returned. -/
def returnedValues {α : Type v} (results : List (Except ClientConnectionException α)) :
    List α :=
  results.filterMap Except.toOption

section CallAll

variable {σ : Type u} {α : Type v} {ι : Type w} {call : ι → σ → Outcome σ α}

@[simp] theorem returnedValues_nil :
    returnedValues ([] : List (Except ClientConnectionException α)) = [] := rfl

@[simp] theorem returnedValues_append
    (first second : List (Except ClientConnectionException α)) :
    returnedValues (first ++ second) = returnedValues first ++ returnedValues second :=
  List.filterMap_append ..

@[simp] theorem returnedValues_ok_cons (value : α)
    (results : List (Except ClientConnectionException α)) :
    returnedValues (.ok value :: results) = value :: returnedValues results := rfl

@[simp] theorem returnedValues_error_cons (error : ClientConnectionException)
    (results : List (Except ClientConnectionException α)) :
    returnedValues (.error error :: results) = returnedValues results := rfl

/-- Induction along a run of calls, one call at a time from the front. -/
theorem callAll_induction
    (motive : σ → List ι → List (Except ClientConnectionException α) → σ → Prop)
    (nil : ∀ s, motive s [] [] s)
    (returned : ∀ s i value t is results s', call i s = .returned value t →
      motive t is results s' → motive s (i :: is) (.ok value :: results) s')
    (threw : ∀ s i error t is results s', call i s = .threw error t →
      motive t is results s' → motive s (i :: is) (.error error :: results) s')
    {is : List ι} {s s' : σ} {results : List (Except ClientConnectionException α)}
    (run : callAll call is s = some (results, s')) : motive s is results s' := by
  induction is generalizing s results with
  | nil =>
      simp only [callAll, Option.some.injEq, Prod.mk.injEq] at run
      obtain ⟨rfl, rfl⟩ := run
      exact nil s
  | cons i is ih =>
      simp only [callAll] at run
      split at run
      case h_1 value t called =>
        obtain ⟨⟨rest, last⟩, tail, equal⟩ := Option.map_eq_some_iff.mp run
        cases equal
        exact returned s i value t is rest last called (ih tail)
      case h_2 error t called =>
        obtain ⟨⟨rest, last⟩, tail, equal⟩ := Option.map_eq_some_iff.mp run
        cases equal
        exact threw s i error t is rest last called (ih tail)
      case h_3 => cases run

/-- A run without exceptions starts with a call that returned. -/
theorem callAll_cons_quiet {i : ι} {is : List ι} {s s' : σ}
    {results : List (Except ClientConnectionException α)}
    (run : callAll call (i :: is) s = some (results, s'))
    (quiet : ∀ error, .error error ∉ results) :
    ∃ value t rest, results = .ok value :: rest ∧ call i s = .returned value t ∧
      callAll call is t = some (rest, s') := by
  simp only [callAll] at run
  split at run
  case h_1 value t called =>
    obtain ⟨⟨rest, last⟩, tail, equal⟩ := Option.map_eq_some_iff.mp run
    cases equal
    exact ⟨value, t, rest, rfl, called, tail⟩
  case h_2 error t called =>
    obtain ⟨⟨rest, last⟩, tail, equal⟩ := Option.map_eq_some_iff.mp run
    cases equal
    exact absurd List.mem_cons_self (quiet error)
  case h_3 => cases run

/-- The invariant rule for call sequences: what holds of no results and the
first state, and is kept by every call that returns or throws, holds of all
results and the last state. -/
theorem callAll_invariant
    (I : List (Except ClientConnectionException α) → σ → Prop)
    (returned : ∀ results s i value s', I results s →
      call i s = .returned value s' → I (results ++ [.ok value]) s')
    (threw : ∀ results s i error s', I results s →
      call i s = .threw error s' → I (results ++ [.error error]) s')
    {is : List ι} {s s' : σ} {results : List (Except ClientConnectionException α)}
    (start : I [] s) (run : callAll call is s = some (results, s')) : I results s' := by
  -- Generalise over the results before the part of the run still to come.
  have extended : ∀ before, I before s → I (before ++ results) s' := by
    refine callAll_induction
      (fun s _ results s' => ∀ before, I before s → I (before ++ results) s') ?_ ?_ ?_ run
    · intro s before holds
      simpa using holds
    · intro s i value t is results s' called rest before holds
      simpa using rest _ (returned _ _ _ _ _ holds called)
    · intro s i error t is results s' called rest before holds
      simpa using rest _ (threw _ _ _ _ _ holds called)
  simpa using extended [] start

/-! ### Two objects in step -/

/-- Two calls end the same way, or neither has returned, and `R` relates the objects they
leave. -/
inductive Outcome.Agree {τ : Type x} (R : σ → τ → Prop) : Outcome σ α → Outcome τ α → Prop where
  | returned {value : α} {s : σ} {t : τ} (related : R s t) :
      Agree R (.returned value s) (.returned value t)
  | threw {error : ClientConnectionException} {s : σ} {t : τ} (related : R s t) :
      Agree R (.threw error s) (.threw error t)
  | running : Agree R .running .running

theorem Outcome.Agree.answer {τ : Type x} {R : σ → τ → Prop} {c : Connection σ}
    {c' : Connection τ} {len : UInt64} {flags : UInt32} {s : σ} {t : τ}
    (agree : (c.receive len flags s).Agree R (c'.receive len flags t)) :
    (c.answer (.receive len flags) s).Agree R (c'.answer (.receive len flags) t) := by
  simp only [Connection.answer]
  generalize c.receive len flags s = outcome at agree
  generalize c'.receive len flags t = outcome' at agree
  cases agree with
  | returned related => exact .returned related
  | threw related => exact .threw related
  | running => exact .running

/-- The simulation rule for call sequences: objects whose calls agree give the same
results all along. -/
theorem callAll_agree {τ : Type x} {call' : ι → τ → Outcome τ α} (R : σ → τ → Prop)
    (step : ∀ i s t, R s t → (call i s).Agree R (call' i t)) {is : List ι} {s : σ} {t : τ}
    (start : R s t) :
    (callAll call is s = none ∧ callAll call' is t = none) ∨
      ∃ results s' t', callAll call is s = some (results, s') ∧
        callAll call' is t = some (results, t') ∧ R s' t' := by
  induction is generalizing s t with
  | nil => exact Or.inr ⟨[], s, t, rfl, rfl, start⟩
  | cons i is ih =>
      have agree := step i s t start
      generalize first : call i s = outcome at agree
      generalize second : call' i t = outcome' at agree
      cases agree with
      | returned related | threw related =>
          simp only [callAll, first, second]
          rcases ih related with ⟨none, none'⟩ | ⟨results, s', t', some, some', last⟩
          · left
            rw [none, none']
            exact ⟨rfl, rfl⟩
          · right
            rw [some, some']
            exact ⟨_, s', t', rfl, rfl, last⟩
      | running =>
          left
          simp only [callAll, first, second, and_self]

/-! ### Every call and every state of a sequence -/

/-- The object after a call that ended. -/
def Outcome.left : Outcome σ α → Option σ
  | .returned _ s => some s
  | .threw _ s => some s
  | .running => none

/-- Induction along a run whose calls ended in either way. -/
theorem callAll_left_induction (motive : σ → List ι → σ → Prop) (nil : ∀ s, motive s [] s)
    (cons : ∀ s i t is s', (call i s).left = some t → motive t is s' → motive s (i :: is) s')
    {is : List ι} {s s' : σ} {results : List (Except ClientConnectionException α)}
    (run : callAll call is s = some (results, s')) : motive s is s' := by
  refine callAll_induction (fun s is _ s' => motive s is s') nil ?_ ?_ run
  · intro s i value t is _ s' called ih
    exact cons s i t is s' (by rw [called]; rfl) ih
  · intro s i error t is _ s' called ih
    exact cons s i t is s' (by rw [called]; rfl) ih

/-- Runs are the same if their first calls are, and what comes after these. -/
theorem callAll_cons_congr {call' : ι → σ → Outcome σ α} {i : ι} {is : List ι} {s t : σ}
    (same : call' i s = call i s) (left : (call i s).left = some t)
    (rest : callAll call' is t = callAll call is t) :
    callAll call' (i :: is) s = callAll call (i :: is) s := by
  rw [callAll, callAll, same]
  cases called : call i s with
  | returned value s' | threw error s' =>
      rw [called] at left
      obtain rfl : s' = t := Option.some.inj left
      dsimp only
      rw [rest]
  | running => rfl

/-- Every call of the sequence meets `G` in the state it is made in. -/
def CallsMeet (call : ι → σ → Outcome σ α) (G : ι → σ → Prop) : List ι → σ → Prop
  | [], _ => True
  | i :: is, s => G i s ∧ ∀ s' ∈ (call i s).left, CallsMeet call G is s'

/-- Every state between the calls of the sequence has `P`, the first and the last one
included. -/
def StatesMeet (call : ι → σ → Outcome σ α) (P : σ → Prop) : List ι → σ → Prop
  | [], s => P s
  | i :: is, s => P s ∧ ∀ s' ∈ (call i s).left, StatesMeet call P is s'

/-- From a state with `P`, all states have it if every call leads to one. -/
theorem statesMeet_iff {P : σ → Prop} {is : List ι} {s : σ} (start : P s) :
    StatesMeet call P is s ↔ CallsMeet call (fun i s => ∀ s' ∈ (call i s).left, P s') is s := by
  induction is generalizing s with
  | nil => exact iff_of_true start trivial
  | cons i is ih =>
      constructor
      · rintro ⟨_, rest⟩
        have next : ∀ s' ∈ (call i s).left, P s' := by
          intro s' ended
          cases is with
          | nil => exact rest s' ended
          | cons => exact (rest s' ended).1
        exact ⟨next, fun s' ended => (ih (next s' ended)).mp (rest s' ended)⟩
      · rintro ⟨next, rest⟩
        exact ⟨start, fun s' ended => (ih (next s' ended)).mpr (rest s' ended)⟩

/-- Two conditions on calls are the same along a sequence if they are in the states of
an invariant. -/
theorem CallsMeet.congr {G H : ι → σ → Prop} (I : σ → Prop) {is : List ι} {s : σ} (start : I s)
    (same : ∀ i ∈ is, ∀ s, I s → (G i s ↔ H i s))
    (kept : ∀ i ∈ is, ∀ s, I s → G i s → ∀ s' ∈ (call i s).left, I s') :
    CallsMeet call G is s ↔ CallsMeet call H is s := by
  induction is generalizing s with
  | nil => exact Iff.rfl
  | cons i is ih =>
      have first : i ∈ i :: is := List.mem_cons_self
      have later : ∀ s', I s' → (CallsMeet call G is s' ↔ CallsMeet call H is s') := by
        intro s' inv
        apply ih inv
        · exact fun j member => same j (List.mem_cons_of_mem _ member)
        · exact fun j member => kept j (List.mem_cons_of_mem _ member)
      constructor
      · rintro ⟨meets, rest⟩
        refine ⟨(same i first s start).mp meets, fun s' ended => ?_⟩
        exact (later s' (kept i first s start meets s' ended)).mp (rest s' ended)
      · rintro ⟨meets, rest⟩
        have meets := (same i first s start).mpr meets
        refine ⟨meets, fun s' ended => ?_⟩
        exact (later s' (kept i first s start meets s' ended)).mpr (rest s' ended)

/-! ### Hidden calls -/

/-- The results of the calls of a sequence that are not hidden. -/
def observed (hidden : ι → Bool) (call : ι → σ → Outcome σ α) :
    List ι → σ → Option (List (Except ClientConnectionException α))
  | [], _ => some []
  | i :: is, s =>
      match call i s with
      | .returned value s' =>
          (observed hidden call is s').map fun rest =>
            if hidden i then rest else .ok value :: rest
      | .threw error s' =>
          (observed hidden call is s').map fun rest =>
            if hidden i then rest else .error error :: rest
      | .running => none

/-- Whatever calls that are not hidden are made next, they have the results that they have
without this one. -/
def Unseen (hidden : ι → Bool) (call : ι → σ → Outcome σ α) (i : ι) (s : σ) : Prop :=
  ∀ later, (∀ j ∈ later, hidden j = false) →
    observed hidden call (i :: later) s = observed hidden call later s

section Hidden

variable {hidden : ι → Bool}

theorem observed_cons_hidden {i : ι} {is : List ι} {s s' : σ} (hides : hidden i = true)
    (left : (call i s).left = some s') :
    observed hidden call (i :: is) s = observed hidden call is s' := by
  rw [observed]
  cases called : call i s with
  | returned value t | threw error t =>
      rw [called] at left
      obtain rfl : t = s' := Option.some.inj left
      simp only [hides, if_true, Option.map_id_fun', id_eq]
  | running =>
      rw [called] at left
      cases left

/-- A hidden call that ended is unseen if the later ones have the same results in the state
that it left. -/
theorem unseen_iff {i : ι} {s s' : σ} (hides : hidden i = true)
    (left : (call i s).left = some s') :
    Unseen hidden call i s ↔ ∀ later, (∀ j ∈ later, hidden j = false) →
      observed hidden call later s' = observed hidden call later s := by
  rw [Unseen]
  simp only [observed_cons_hidden hides left]

/-- The simulation rule for what is seen of two objects. -/
theorem observed_agree (R : σ → σ → Prop)
    (step : ∀ i s t, hidden i = false → R s t → (call i s).Agree R (call i t)) {is : List ι}
    (seen : ∀ i ∈ is, hidden i = false) {s t : σ} (start : R s t) :
    observed hidden call is s = observed hidden call is t := by
  induction is generalizing s t with
  | nil => rfl
  | cons i is ih =>
      have rest : ∀ j ∈ is, hidden j = false :=
        fun j member => seen j (List.mem_cons_of_mem i member)
      have agree := step i s t (seen i List.mem_cons_self) start
      rw [observed, observed]
      generalize call i s = outcome at agree
      generalize call i t = outcome' at agree
      cases agree with
      | returned related | threw related =>
          dsimp only
          rw [ih rest related]
      | running => rfl

/-- If each hidden call of a run is unseen where it is made, they can all be left out. -/
theorem observed_filter {is : List ι} {s : σ}
    (unseen : CallsMeet call (fun i s => hidden i = true → Unseen hidden call i s) is s) :
    observed hidden call is s = observed hidden call (is.filter fun i => !hidden i) s := by
  induction is generalizing s with
  | nil => rfl
  | cons i is ih =>
      obtain ⟨first, later⟩ := unseen
      have rest : ∀ s' ∈ (call i s).left, observed hidden call is s' =
          observed hidden call (is.filter fun i => !hidden i) s' :=
        fun s' left => ih (later s' left)
      have inserted : observed hidden call (i :: is) s =
          observed hidden call (i :: is.filter fun i => !hidden i) s := by
        rw [observed, observed]
        cases called : call i s with
        | returned value s' | threw error s' =>
            rw [called] at rest
            dsimp only
            rw [rest s' rfl]
        | running => rfl
      cases hides : hidden i with
      | true =>
          rw [inserted, List.filter_cons_of_neg (by simp [hides])]
          apply first hides
          intro j member
          simpa using (List.mem_filter.mp member).2
      | false => rw [inserted, List.filter_cons_of_pos (by simp [hides])]

/-- In every run from `s` that makes a hidden call only under its condition, the others have
the results of the run without the hidden ones; and a hidden call in `s` is unseen, whatever
comes later, only under its condition. -/
structure UnseenExactly (hidden : ι → Bool) (call : ι → σ → Outcome σ α)
    (condition : ι → σ → Prop) (s : σ) : Prop where
  run : ∀ calls, CallsMeet call (fun i s => hidden i = true → condition i s) calls s →
    observed hidden call calls s = observed hidden call (calls.filter fun i => !hidden i) s
  exactly : ∀ i, hidden i = true → (Unseen hidden call i s ↔ condition i s)

theorem UnseenExactly.of_iff {condition : ι → σ → Prop} (I : σ → Prop)
    (kept : ∀ i s s', I s → (call i s).left = some s' → I s')
    (exactly : ∀ i s, I s → hidden i = true → (Unseen hidden call i s ↔ condition i s))
    {s : σ} (start : I s) : UnseenExactly hidden call condition s where
  run calls meets := by
    apply observed_filter
    refine (CallsMeet.congr I start ?_ ?_).mpr meets
    · intro i _ s begins
      exact forall_congr' (exactly i s begins)
    · intro i _ s begins _ s' left
      exact kept i s s' begins left
  exactly i := exactly i s start

/-- The results at the calls that are not hidden. -/
def seenResults (hidden : ι → Bool) :
    List ι → List (Except ClientConnectionException α) → List (Except ClientConnectionException α)
  | i :: is, result :: results =>
      if hidden i then seenResults hidden is results
      else result :: seenResults hidden is results
  | _, _ => []

/-- The rule for a run with hidden calls beside one that has none.  `R` relates the objects;
calls that are not hidden agree, and a hidden one that ended leaves the first object related. -/
theorem callAll_hidden {τ : Type x} {call' : ι → τ → Outcome τ α} (R : σ → τ → Prop)
    (agree : ∀ i s t, hidden i = false → R s t → (call i s).Agree R (call' i t))
    (unseen : ∀ i s s' t, hidden i = true → R s t → (call i s).left = some s' → R s' t)
    {is : List ι} {s s' : σ} {t : τ} {results : List (Except ClientConnectionException α)}
    (start : R s t) (run : callAll call is s = some (results, s')) :
    ∃ t', callAll call' (is.filter fun i => !hidden i) t =
      some (seenResults hidden is results, t') ∧ R s' t' := by
  refine callAll_induction (fun s is results s' => ∀ t, R s t →
    ∃ t', callAll call' (is.filter fun i => !hidden i) t =
      some (seenResults hidden is results, t') ∧ R s' t') ?_ ?_ ?_ run t start
  · intro s t related
    exact ⟨t, rfl, related⟩
  · intro s i value s₁ is results s' called ih t related
    cases hides : hidden i with
    | true =>
        rw [List.filter_cons_of_neg (by simp [hides]), seenResults, if_pos hides]
        exact ih t (unseen i s s₁ t hides related (by rw [called]; rfl))
    | false =>
        have agreed := agree i s t hides related
        rw [called] at agreed
        generalize answered : call' i t = outcome at agreed
        cases agreed with
        | returned next =>
            obtain ⟨t', rest, last⟩ := ih _ next
            refine ⟨t', ?_, last⟩
            rw [List.filter_cons_of_pos (by simp [hides])]
            simp only [callAll, answered, rest, Option.map_some, seenResults, hides,
              Bool.false_eq_true, if_false]
  · intro s i error s₁ is results s' called ih t related
    cases hides : hidden i with
    | true =>
        rw [List.filter_cons_of_neg (by simp [hides]), seenResults, if_pos hides]
        exact ih t (unseen i s s₁ t hides related (by rw [called]; rfl))
    | false =>
        have agreed := agree i s t hides related
        rw [called] at agreed
        generalize answered : call' i t = outcome at agreed
        cases agreed with
        | threw next =>
            obtain ⟨t', rest, last⟩ := ih _ next
            refine ⟨t', ?_, last⟩
            rw [List.filter_cons_of_pos (by simp [hides])]
            simp only [callAll, answered, rest, Option.map_some, seenResults, hides,
              Bool.false_eq_true, if_false]

end Hidden

end CallAll

/-! ### Reading to the end of file -/

/-- The loop `while (!c->IsEOF()) c->Receive();` of a caller who also goes on
after an exception.  There is no result while the loop has not ended; `fuel`
bounds its turns. -/
def consume {σ : Type u} (c : Connection σ) :
    Nat → σ → Option (List (Except ClientConnectionException Bytes) × σ)
  | 0, _ => none
  | fuel + 1, s =>
      match c.isEOF s with
      | (true, s) => some ([], s)
      | (false, s) =>
          match c.receive sizeMax 0 s with
          | .returned data s =>
              (consume c fuel s).map fun rest => (.ok data :: rest.1, rest.2)
          | .threw error s =>
              (consume c fuel s).map fun rest => (.error error :: rest.1, rest.2)
          | .running => none

/-- The invariant rule of the loop.  It holds of all results when the question
for the end of file that ends the loop is put. -/
theorem consume_invariant {σ : Type u} {c : Connection σ}
    (I : List (Except ClientConnectionException Bytes) → σ → Prop)
    (asked : ∀ results s atEnd s', I results s → c.isEOF s = (atEnd, s') → I results s')
    (returned : ∀ results s data s', I results s →
      c.receive sizeMax 0 s = .returned data s' → I (results ++ [.ok data]) s')
    (threw : ∀ results s error s', I results s →
      c.receive sizeMax 0 s = .threw error s' → I (results ++ [.error error]) s')
    {fuel : Nat} {s s' : σ} {results : List (Except ClientConnectionException Bytes)}
    (start : I [] s) (run : consume c fuel s = some (results, s')) :
    ∃ t, I results t ∧ c.isEOF t = (true, s') := by
  -- Generalise over the results before the turns still to come.
  have extended : ∀ fuel before s results, I before s →
      consume c fuel s = some (results, s') →
      ∃ t, I (before ++ results) t ∧ c.isEOF t = (true, s') := by
    intro fuel
    induction fuel with
    | zero => simp [consume]
    | succ fuel ih =>
        intro before s results holds run
        simp only [consume] at run
        split at run
        · rename_i t atEnd
          cases run
          exact ⟨s, by simpa using holds, atEnd⟩
        · rename_i t more
          have still := asked before s false t holds more
          split at run
          · rename_i data t' received
            obtain ⟨⟨rest, last⟩, tail, equal⟩ := Option.map_eq_some_iff.mp run
            cases equal
            simpa using ih _ _ _ (returned _ _ _ _ still received) tail
          · rename_i error t' thrown
            obtain ⟨⟨rest, last⟩, tail, equal⟩ := Option.map_eq_some_iff.mp run
            cases equal
            simpa using ih _ _ _ (threw _ _ _ _ still thrown) tail
          · cases run
  simpa using extended fuel [] s results start run

end LibSiot
