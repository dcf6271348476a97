/-
Module: LibSiot.Library.RwLock
Purpose: A read/write lock between any number of actors: a writer waits for all
  readers and for the other writer, a reader for the writer.
Trusted boundary: none
Main exports: RwLock, RwLock.lock, RwLock.readLock, RwLock.unlock, RwLock.mode,
  RwLock.holds, RwLock.Exclusive
-/
import Mathlib

universe u

/-- Who holds the lock.  `readers` names the actor that took each read lock. -/
structure RwLock (ι : Type u) where
  writer : Option ι
  readers : List ι
deriving Repr, DecidableEq

namespace RwLock

variable {ι : Type u}

/-- Held by nobody. -/
def free : RwLock ι := { writer := none, readers := [] }

/-- Take the lock for writing, or wait. -/
def lock (t : ι) (l : RwLock ι) : Option (RwLock ι) :=
  if l.writer = none ∧ l.readers = [] then some { writer := some t, readers := [] } else none

/-- Take the lock for reading, or wait. -/
def readLock (t : ι) (l : RwLock ι) : Option (RwLock ι) :=
  if l.writer = none then some { l with readers := t :: l.readers } else none

theorem lock_eq_some {t : ι} {l l' : RwLock ι} :
    l.lock t = some l' ↔
      l.writer = none ∧ l.readers = [] ∧ l' = { writer := some t, readers := [] } := by
  rw [lock]
  split
  · rename_i free
    simp [free, eq_comm]
  · rename_i taken
    simp only [reduceCtorEq, false_iff, not_and]
    intro unwritten unread
    exact absurd ⟨unwritten, unread⟩ taken

theorem readLock_eq_some {t : ι} {l l' : RwLock ι} :
    l.readLock t = some l' ↔
      l.writer = none ∧ l' = { writer := none, readers := t :: l.readers } := by
  rw [readLock]
  split
  · rename_i free
    simp [free, eq_comm]
  · rename_i taken
    simp [taken]

variable [DecidableEq ι]

/-- Give back what `t` holds.  A read lock may be given back by an actor that did
not take it; it then stands for one of those taken. -/
def unlock (t : ι) (l : RwLock ι) : RwLock ι :=
  if l.writer = some t then { l with writer := none }
  else { l with readers := if t ∈ l.readers then l.readers.erase t else l.readers.tail }

/-- Giving a lock back makes nobody its writer. -/
theorem writer_of_unlock {t t' : ι} {l : RwLock ι} (writes : (l.unlock t).writer = some t') :
    l.writer = some t' := by
  rw [unlock] at writes
  split at writes
  · cases writes
  · exact writes

/-! ### Modes -/

/-- How an actor holds a lock. -/
inductive Mode where
  | idle
  | reading
  | writing
deriving DecidableEq, Repr

/-- How `t` holds the lock. -/
def mode (t : ι) (l : RwLock ι) : Mode :=
  if l.writer = some t then .writing else if t ∈ l.readers then .reading else .idle

theorem mode_eq_writing {t : ι} {l : RwLock ι} : l.mode t = .writing ↔ l.writer = some t := by
  rw [mode]
  split
  · rename_i writes
    simp [writes]
  · rename_i other
    split <;> simp [other]

/-- Readers and a writer exclude each other, and nobody reads twice. -/
structure Exclusive (l : RwLock ι) : Prop where
  alone : l.writer ≠ none → l.readers = []
  once : l.readers.Nodup

omit [DecidableEq ι] in
theorem Exclusive.free : Exclusive (free : RwLock ι) := ⟨fun _ => rfl, List.nodup_nil⟩

theorem mode_free (t : ι) : (free : RwLock ι).mode t = .idle := by simp [mode, RwLock.free]

/-- Taking a lock for writing. -/
theorem Exclusive.lock {t : ι} {l l' : RwLock ι} (taken : l.lock t = some l') :
    Exclusive l' ∧ ∀ t', l'.mode t' = if t' = t then .writing else l.mode t' := by
  obtain ⟨unwritten, unread, rfl⟩ := lock_eq_some.mp taken
  refine ⟨⟨fun _ => rfl, List.nodup_nil⟩, fun t' => ?_⟩
  by_cases same : t' = t
  · simp [mode, same]
  · simp [mode, unwritten, unread, same, Ne.symm same]

/-- Taking a lock for reading, for an actor that does not hold it. -/
theorem Exclusive.readLock {t : ι} {l l' : RwLock ι} (exclusive : Exclusive l)
    (idle : l.mode t = .idle) (taken : l.readLock t = some l') :
    Exclusive l' ∧ ∀ t', l'.mode t' = if t' = t then .reading else l.mode t' := by
  obtain ⟨unwritten, rfl⟩ := readLock_eq_some.mp taken
  have absent : t ∉ l.readers := by
    intro reads
    simp [mode, unwritten, reads] at idle
  refine ⟨⟨fun written => absurd rfl written, List.nodup_cons.mpr ⟨absent, exclusive.once⟩⟩,
    fun t' => ?_⟩
  by_cases same : t' = t
  · simp [mode, same]
  · simp [mode, unwritten, same]

/-- Giving back what one holds. -/
theorem Exclusive.unlock {t : ι} {l : RwLock ι} (exclusive : Exclusive l)
    (held : l.mode t ≠ .idle) :
    Exclusive (l.unlock t) ∧ ∀ t', (l.unlock t).mode t' = if t' = t then .idle else l.mode t' := by
  by_cases writes : l.writer = some t
  · have unread := exclusive.alone (by simp [writes])
    refine ⟨⟨fun written => by simp [RwLock.unlock, writes] at written, ?_⟩, fun t' => ?_⟩
    · simpa [RwLock.unlock, writes] using exclusive.once
    · by_cases same : t' = t
      · simp [mode, RwLock.unlock, writes, unread, same]
      · simp [mode, RwLock.unlock, writes, unread, same, Ne.symm same]
  · have reads : t ∈ l.readers := by
      by_contra absent
      simp [mode, writes, absent] at held
    refine ⟨⟨fun written => ?_, ?_⟩, fun t' => ?_⟩
    · have unread := exclusive.alone (by simpa [RwLock.unlock, writes] using written)
      rw [unread] at reads
      cases reads
    · simpa [RwLock.unlock, writes, reads] using exclusive.once.erase t
    · by_cases same : t' = t
      · subst same
        simp [mode, RwLock.unlock, writes, reads, exclusive.once.not_mem_erase]
      · simp [mode, RwLock.unlock, writes, reads, same, List.mem_erase_of_ne same]

/-! ### How often an actor holds a lock -/

/-- How often `t` holds the lock. -/
def holds (t : ι) (l : RwLock ι) : Nat :=
  (if l.writer = some t then 1 else 0) + l.readers.count t

theorem mode_ne_idle {t : ι} {l : RwLock ι} (reads : t ∈ l.readers) : l.mode t ≠ .idle := by
  rw [mode, if_pos reads]
  split <;> nofun

theorem holds_pos {t : ι} {l : RwLock ι} (held : l.mode t ≠ .idle) : 0 < l.holds t := by
  by_cases writes : l.writer = some t
  · simp [holds, writes]
  · have reads : t ∈ l.readers := by
      by_contra absent
      exact held (by rw [mode, if_neg writes, if_neg absent])
    have positive := List.count_pos_iff.mpr reads
    rw [holds]
    omega

theorem holds_free (t : ι) : (free : RwLock ι).holds t = 0 := by simp [holds, free]

theorem holds_lock {t : ι} {l l' : RwLock ι} (taken : l.lock t = some l') (t' : ι) :
    l'.holds t' = l.holds t' + if t' = t then 1 else 0 := by
  obtain ⟨unwritten, unread, rfl⟩ := lock_eq_some.mp taken
  simp [holds, unwritten, unread, eq_comm]

theorem holds_readLock {t : ι} {l l' : RwLock ι} (taken : l.readLock t = some l') (t' : ι) :
    l'.holds t' = l.holds t' + if t' = t then 1 else 0 := by
  obtain ⟨unwritten, rfl⟩ := readLock_eq_some.mp taken
  by_cases same : t' = t
  · simp [holds, unwritten, same]
  · simp [holds, unwritten, same, Ne.symm same]

/-- Giving back what one holds takes it from nobody else. -/
theorem holds_unlock {t : ι} {l : RwLock ι} (held : 0 < l.holds t) (t' : ι) :
    (l.unlock t).holds t' + (if t' = t then 1 else 0) = l.holds t' := by
  by_cases writes : l.writer = some t
  · by_cases same : t' = t
    · simp [holds, unlock, writes, same, Nat.add_comm]
    · simp [holds, unlock, writes, same, Ne.symm same]
  · have reads : t ∈ l.readers := by simpa [holds, writes, List.count_pos_iff] using held
    by_cases same : t' = t
    · simp [holds, unlock, writes, reads, same]
    · simp [holds, unlock, writes, reads, same, List.count_erase_of_ne same]

end RwLock
