/-
Module: LibSiot.Proofs.Server.SslMutex
Purpose: The `ssl_mtx_` of TLS connections: what a thread that has one does until it gives
  it back, and which callbacks under `connections_lock_` would wait for it meanwhile.
Trusted boundary: none
Main exports: ServerConfig.Guarded, ServerConfig.Handles, ServerConfig.Closing,
  ServerConfig.Apart, ServerConfig.SslInvariant, ServerConfig.SslInvariant.step
-/
import LibSiot.Proofs.Server.LockInvariant

namespace LibSiot

open Interleaving (Flow)
open Interleaving.Machine (pushes AllOps continuation_split)
open RwLock (Mode)

namespace Op

/-- User code goes on: a callback, or what a thread of the user does. -/
def continues : Op → Bool
  | .running _ _ => true
  | .userCode => true
  | _ => false

/-- The connection whose `ssl_mtx_` an operation takes. -/
def locksSsl : Op → Option Nat
  | .lock (.ssl number) => some number
  | _ => none

/-- The object that user code goes on to use, by way of `ssl_mtx_`. -/
def reaches {n : Nat} (e : Choice) (s : ServerState n) (op : Op) : Option Handle :=
  match e.handler with
  | .acts (.use conn) => if op.continues && s.ssl then some conn else none
  | _ => none

/-- What a thread with `ssl_mtx_` does without waiting, at the end. -/
def settles (accept : Nat) : Op → Bool
  | .use _ => true
  | .delete conn => conn = { accept := accept, level := 0 }
  | .unlock .connections _ => true
  | _ => false

/-- What `Deregister()` of a socket object does. -/
def unlists (accept : Nat) : Op → Bool
  | .deregister conn => conn = { accept := accept, level := 0 }
  | .lock .connections => true
  | .erase _ => true
  | .epollDel _ => true
  | .unlock .connections _ => true
  | _ => false

theorem eq_of_locksSsl {op : Op} {accept : Nat} (locks : op.locksSsl = some accept) :
    op = .lock (.ssl accept) := by
  cases op with
  | lock name => cases name <;> cases locks; rfl
  | _ => cases locks

theorem continues_of_reaches {n : Nat} {e : Choice} {s : ServerState n} {op : Op} {conn : Handle}
    (reaches : op.reaches e s = some conn) : op.continues = true := by
  simp only [Op.reaches] at reaches
  split at reaches
  · split at reaches
    · rename_i both
      exact (Bool.and_eq_true_iff.mp both).1
    · cases reaches
  · cases reaches

theorem reaches_of_acts {n : Nat} {e : Choice} {s : ServerState n} {op : Op} {conn : Handle}
    (runs : op.continues = true) (acts : e.handler = .acts (.use conn)) (encrypted : s.ssl = true) :
    op.reaches e s = some conn := by
  rw [reaches, acts]
  exact if_pos (by rw [runs, encrypted]; rfl)

theorem guards_of_uses {op : Op} (uses : op.uses = true) : op.guards = false := by
  cases op with
  | lock name | unlock name => cases name <;> first | rfl | cases uses
  | _ => first | rfl | cases uses

theorem not_continues_of_shuts {op : Op} {conn : Handle} (shuts : op.shuts = some conn) :
    op.continues = false := by
  cases op <;> first | rfl | cases shuts

theorem not_uses_of_shuts {op : Op} {conn : Handle} (shuts : op.shuts = some conn) :
    op.uses = false := by
  cases op with
  | lock name | unlock name => cases name <;> first | rfl | cases shuts
  | _ => first | rfl | cases shuts

theorem guards_of_continues {op : Op} (runs : op.continues = true) : op.guards = false := by
  cases op <;> first | rfl | cases runs

theorem uses_of_precedes {a b : Op} (runs : b.continues = true) (precedes : a.precedes b = true) :
    a.uses = true := by
  cases b <;> first | exact precedes | cases runs

theorem entered_of_not_guards {m : Mode} {op : Op} (other : op.guards = false) :
    op.entered m = m := by
  cases op with
  | lock name | readLock name | unlock name => cases name <;> first | rfl | cases other
  | _ => rfl

end Op

/-! ### What a thread with `ssl_mtx_` does -/

/-- What a thread does once it has taken `ssl_mtx_`: one call for user code, one turn of a
draining loop, or the shutdown of the socket object. -/
inductive Entered (accept : Nat) : List Op → Prop where
  | userCode (conn : Handle) {rest : List Op} (runs : ∃ op ∈ rest, op.continues = true) :
      Entered accept (.use conn :: .unlock (.ssl accept) true :: rest)
  | drain (conn : Handle) {rest : List Op}
      (shuts : ∃ op ∈ inside rest, op.shuts.map Handle.accept = some accept) :
      Entered accept (.use conn :: .unlock (.ssl accept) true :: rest)
  | shutdown (rest : List Op) :
      Entered accept (.deregister { accept := accept, level := 0 } ::
        .lock (.connection { accept := accept, level := 0 }) ::
        .delete { accept := accept, level := 0 } :: .unlock (.ssl accept) true :: rest)

/-- Wherever the thread takes `ssl_mtx_`, it is to do this. -/
def Enters (ops : List Op) : Prop :=
  ∀ pre accept post, ops = pre ++ .lock (.ssl accept) :: post → Entered accept post

/-- The thread gives `ssl_mtx_` back without waiting any more. -/
def Releasing (accept : Nat) (ops : List Op) : Prop :=
  ∃ front post, ops = front ++ .unlock (.ssl accept) true :: post ∧
    ∀ op ∈ front, op.settles accept = true

/-- The thread is in `OpenSSLConnection::Shutdown()`, before `Lock()`.  Where
`connections_lock_` is still to be taken, `P` holds. -/
def Leaving (P : Prop) (accept : Nat) (ops : List Op) : Prop :=
  ∃ front post, ops = front ++ .lock (.connection { accept := accept, level := 0 }) ::
      .delete { accept := accept, level := 0 } :: .unlock (.ssl accept) true :: post ∧
    (∀ op ∈ front, op.unlists accept = true) ∧ (.lock .connections ∈ front → P)

namespace ServerState

variable {n : Nat} {t : Tid n} {e : Choice} {s s' : ServerState n} {op : Op}
  {flow : Flow Op} {rest : List Op} {accept : Nat}

/-- A call of `Receive` or `Send` is one use of the object under `ssl_mtx_`. -/
theorem split_useOps {conn : Handle} {calls : Nat} {last : Op} {pre between : List Op}
    (split : s.useOps conn calls ++ [last] = pre ++ .lock (.ssl accept) :: between)
    (other : last.locksSsl = none) :
    accept = conn.accept ∧ s.ssl = true ∧ ∃ more,
      between = .use conn :: .unlock (.ssl accept) true :: (s.useOps conn more ++ [last]) := by
  induction calls generalizing pre with
  | zero =>
      have member : .lock (.ssl accept) ∈ [last] :=
        (show [last] = _ from split) ▸ List.mem_append_right _ List.mem_cons_self
      rw [← List.mem_singleton.mp member] at other
      cases other
  | succ calls ih =>
      have whole : s.useOps conn (calls + 1) ++ [last] =
          s.underSsl conn.accept [.use conn] ++ (s.useOps conn calls ++ [last]) := by
        rw [useOps, List.replicate_succ, List.flatten_cons, List.append_assoc]
        rfl
      rw [whole, underSsl] at split
      split at split
      · rename_i encrypted
        rcases pre with _ | ⟨first, _ | ⟨second, _ | ⟨third, pre⟩⟩⟩
        · cases split
          exact ⟨rfl, encrypted, calls, rfl⟩
        · cases split
        · cases split
        · simp only [List.cons_append, List.nil_append, List.cons.injEq] at split
          exact ih split.2.2.2
      · cases pre with
        | nil => cases split
        | cons first pre => exact ih (List.cons.inj split).2

/-- `ssl_mtx_` is taken in `OpenSSLConnection::Shutdown()` alone, and first. -/
theorem split_sslShutdown {conn : Handle} {pre between : List Op}
    (split : s.shutdownOps conn = pre ++ .lock (.ssl accept) :: between) :
    conn = { accept := accept, level := 0 } ∧
      between = [.deregister conn, .lock (.connection conn), .delete conn,
        .unlock (.ssl accept) true] := by
  have quiet : ∀ op ∈ s.shutdownBody conn, op.locksSsl = none := by
    intro op member
    rcases mem_shutdownBody member with rfl | rfl | rfl | ⟨_, rfl, _⟩ | rfl <;> rfl
  have absent : .lock (.ssl accept) ∉ s.shutdownBody conn := fun member => by
    cases quiet _ member
  have member : .lock (.ssl accept) ∈ s.shutdownOps conn :=
    split ▸ List.mem_append_right _ List.mem_cons_self
  rcases shutdownOps_cases conn s with plain | ⟨socket, encrypted, guarded⟩
  · rw [plain] at member
    rcases List.mem_cons.mp member with impossible | member
    · cases impossible
    · exact absurd member absent
  · obtain ⟨accept', level⟩ := conn
    obtain rfl : level = 0 := socket
    obtain rfl : accept = accept' := by
      rcases mem_shutdownOps member with same | impossible | member | impossible
      · cases same
        rfl
      · cases impossible
      · exact absurd member absent
      · cases impossible
    have body : s.shutdownBody ⟨accept, 0⟩ =
        [.lock (.connection ⟨accept, 0⟩), .delete ⟨accept, 0⟩] := by
      simp [shutdownBody, encrypted]
    rw [guarded, body] at split
    exact ⟨rfl, (split_first (by simp) split).2⟩

/-- The operations between taking `ssl_mtx_` and what follows stay as they were pushed. -/
theorem Rule.enters (rule : Rule t e s op flow s') (enters : Enters (op :: rest)) :
    Enters ((server n).continuation flow rest) := by
  intro pre accept post split
  rcases continuation_split split rfl with ⟨between, pushed, rfl⟩ | ⟨pre', rfl, rfl⟩
  · have member : .lock (.ssl accept) ∈ pushes flow :=
      pushed ▸ List.mem_append_right _ List.mem_cons_self
    have locks : Op.locksSsl (.lock (.ssl accept)) = some accept := rfl
    cases rule with
    | callbackUses callback conn other =>
        obtain ⟨rfl, _, more, rfl⟩ := split_useOps pushed rfl
        exact .userCode other ⟨.running callback conn, by simp, rfl⟩
    | userUses other =>
        obtain ⟨rfl, _, more, rfl⟩ := split_useOps pushed rfl
        exact .userCode other ⟨.userCode, by simp, rfl⟩
    | drain conn =>
        obtain ⟨rfl, _, more, rfl⟩ := split_useOps pushed rfl
        have opened : ∀ op ∈ s.useOps conn more ++ [.drained conn], (!op.closes) = true :=
          forall_useOps rfl rfl rfl (List.forall_mem_singleton.mpr rfl)
        have last : .drained conn ∈ s.useOps conn more ++ [.drained conn] := by simp
        have there : .drained conn ∈ inside (s.useOps conn more ++ [.drained conn] ++ rest) :=
          mem_inside_front opened last
        exact .drain conn ⟨.drained conn, there, rfl⟩
    | shutdown conn =>
        obtain ⟨rfl, rfl⟩ := split_sslShutdown pushed
        exact .shutdown rest
    | takeTask task => cases task <;> exact absurd locks (ne_some_of_all rfl member)
    | deregister conn =>
        obtain ⟨fd, _, impossible | impossible | impossible | impossible⟩ :=
          mem_dequeueOps member <;> cases impossible
    | _ => exact absurd locks (ne_some_of_all rfl member)
  · exact enters (op :: pre') accept post rfl

theorem Rule.releasing (rule : Rule t e s op flow s') (releasing : Releasing accept (op :: rest)) :
    op = .unlock (.ssl accept) true ∨ Releasing accept ((server n).continuation flow rest) := by
  obtain ⟨front, post, split, ends⟩ := releasing
  cases front with
  | nil =>
      cases split
      exact Or.inl rfl
  | cons first front =>
      cases split
      obtain ⟨here, later⟩ := List.forall_mem_cons.mp ends
      right
      cases rule with
      | unlock | use | delete => exact ⟨front, post, rfl, later⟩
      | _ => cases here

/-- `OpenSSLConnection::Shutdown()` goes on to `Lock()`, unless an exception ends it. -/
theorem Rule.leaving {P Q : Prop} (rule : Rule t e s op flow s')
    (leaving : Leaving P accept (op :: rest)) (still : P → Q)
    (dequeues : op = .deregister { accept := accept, level := 0 } →
      s.connections.keysWhere (· = some { accept := accept, level := 0 }) ≠ [] → Q) :
    Leaving Q accept ((server n).continuation flow rest) ∨
      Releasing accept ((server n).continuation flow rest) := by
  obtain ⟨front, post, split, leaves, left⟩ := leaving
  cases front with
  | nil =>
      cases split
      cases rule
      exact Or.inr ⟨[.delete _], post, rfl, List.forall_mem_singleton.mpr (decide_eq_true rfl)⟩
  | cons first front =>
      cases split
      obtain ⟨here, later⟩ := List.forall_mem_cons.mp leaves
      have left' : .lock .connections ∈ front → Q :=
        fun member => still (left (List.mem_cons_of_mem _ member))
      cases rule with
      | lock | unlock | erase | epollDel | epollDelFailed =>
          exact Or.inl ⟨front, post, rfl, later, left'⟩
      | deregister conn =>
          obtain rfl : conn = { accept := accept, level := 0 } := of_decide_eq_true here
          refine Or.inl ⟨(s.connections.keysWhere _).flatMap dequeueOps ++ front, post,
            (List.append_assoc ..).symm, ?_, fun member => ?_⟩
          · refine List.forall_mem_append.mpr ⟨fun op member => ?_, later⟩
            obtain ⟨fd, _, rfl | rfl | rfl | rfl⟩ := mem_dequeueOps member <;> rfl
          · rcases List.mem_append.mp member with new | old
            · obtain ⟨fd, key, _⟩ := mem_dequeueOps new
              exact dequeues rfl (List.ne_nil_of_mem key)
            · exact left' old
      | epollDelThrew =>
          refine Or.inr ⟨front.filter Op.survives, post.filter Op.survives, ?_, fun op member => ?_⟩
          · exact List.filter_append (p := Op.survives) front _
          · obtain ⟨there, survives⟩ := List.mem_filter.mp member
            have leaves := later op there
            cases op with
            | unlock name => cases name <;> first | rfl | cases leaves
            | takeTask => cases leaves
            | _ => cases survives
      | _ => cases here

/-- `ssl_mtx_` is had by whoever took it, until the end of its guard. -/
theorem Rule.ssl_writer (rule : Rule t e s op flow s') {t' : Tid n}
    (writes : (s'.locks (.ssl accept)).writer = some t') :
    ((s.locks (.ssl accept)).writer = some t' ∧ (op = .unlock (.ssl accept) true → t' ≠ t)) ∨
      (op = .lock (.ssl accept) ∧ t' = t) := by
  cases rule with
  | lock name l taken =>
      by_cases same : name = .ssl accept
      · subst same
        obtain ⟨_, _, rfl⟩ := RwLock.lock_eq_some.mp taken
        simp only [setLock, Function.update_self, Option.some.injEq] at writes
        exact Or.inr ⟨rfl, writes.symm⟩
      · simp only [setLock, Function.update_of_ne (Ne.symm same)] at writes
        exact Or.inl ⟨writes, by simp⟩
  | readLock name l taken =>
      by_cases same : name = .ssl accept
      · subst same
        obtain ⟨_, rfl⟩ := RwLock.readLock_eq_some.mp taken
        simp [setLock] at writes
      · simp only [setLock, Function.update_of_ne (Ne.symm same)] at writes
        exact Or.inl ⟨writes, by simp⟩
  | unlock name destructor =>
      by_cases same : name = .ssl accept
      · subst same
        simp only [setLock, Function.update_self] at writes
        refine Or.inl ⟨RwLock.writer_of_unlock writes, ?_⟩
        rintro _ rfl
        simp [RwLock.unlock, RwLock.writer_of_unlock writes] at writes
      · simp only [setLock, Function.update_of_ne (Ne.symm same)] at writes
        exact Or.inl ⟨writes, fun this => absurd (Op.unlock.inj this).1 same⟩
  | delete conn =>
      have other : LockName.ssl accept ≠ .connection conn := by simp
      simp only [setLock, Function.update_of_ne other] at writes
      exact Or.inl ⟨writes, by simp⟩
  | _ => exact Or.inl ⟨writes, by simp⟩

theorem Rule.ssl_readers (rule : Rule t e s op flow s') (other : op ≠ .readLock (.ssl accept))
    (unread : (s.locks (.ssl accept)).readers = []) :
    (s'.locks (.ssl accept)).readers = [] := by
  cases rule with
  | lock name l taken =>
      by_cases same : name = .ssl accept
      · subst same
        obtain ⟨_, _, rfl⟩ := RwLock.lock_eq_some.mp taken
        simp [setLock]
      · simpa [setLock, Function.update_of_ne (Ne.symm same)] using unread
  | readLock name l taken =>
      have same : name ≠ .ssl accept := by
        rintro rfl
        exact other rfl
      simpa [setLock, Function.update_of_ne same.symm] using unread
  | unlock name destructor =>
      by_cases same : name = .ssl accept
      · subst same
        simp only [setLock, Function.update_self, RwLock.unlock]
        split
        · exact unread
        · simp [unread]
      · simpa [setLock, Function.update_of_ne (Ne.symm same)] using unread
  | delete conn => simpa [setLock, record] using unread
  | _ => exact unread

/-- No connection comes up again. -/
theorem Rule.isShutdown_kept (rule : Rule t e s op flow s') {conn : Handle}
    (down : s.isShutdown conn = true) : s'.isShutdown conn = true := by
  cases rule with
  | deregister other =>
      change Function.update s.isShutdown other true conn = true
      rw [Function.update_apply]
      split
      · rfl
      · exact down
  | _ => exact down

theorem Rule.isShutdown_marked {conn : Handle} (rule : Rule t e s (.deregister conn) flow s') :
    s'.isShutdown conn = true := by
  cases rule
  exact Function.update_self ..

/-- `ssl_mtx_` is taken by user code that uses a connection, and in a shutdown. -/
theorem Rule.locksSsl (rule : Rule t e s op flow s') (member : .lock (.ssl accept) ∈ pushes flow) :
    (∃ conn, op.reaches e s = some conn ∧ s.Made conn ∧ conn.accept = accept) ∨
      ∃ conn, op.shuts = some conn ∧ conn.accept = accept := by
  have locks : Op.locksSsl (.lock (.ssl accept)) = some accept := rfl
  have used : ∀ {conn : Handle} {calls : Nat} {last : Op}, last.locksSsl = none →
      .lock (.ssl accept) ∈ s.useOps conn calls ++ [last] → accept = conn.accept ∧ s.ssl = true := by
    intro conn calls last other member
    obtain ⟨pre, between, split⟩ := List.append_of_mem member
    obtain ⟨same, encrypted, _⟩ := split_useOps split other
    exact ⟨same, encrypted⟩
  cases rule with
  | callbackUses callback conn other acts made =>
      obtain ⟨rfl, encrypted⟩ := used rfl member
      exact Or.inl ⟨other, Op.reaches_of_acts rfl acts encrypted, made, rfl⟩
  | userUses other acts made =>
      obtain ⟨rfl, encrypted⟩ := used rfl member
      exact Or.inl ⟨other, Op.reaches_of_acts rfl acts encrypted, made, rfl⟩
  | drain conn =>
      obtain ⟨rfl, _⟩ := used rfl member
      exact Or.inr ⟨conn, rfl, rfl⟩
  | shutdown conn =>
      obtain ⟨pre, between, split⟩ := List.append_of_mem member
      obtain ⟨rfl, _⟩ := split_sslShutdown split
      exact Or.inr ⟨_, rfl, rfl⟩
  | takeTask task => cases task <;> exact absurd locks (ne_some_of_all rfl member)
  | deregister conn =>
      obtain ⟨fd, _, impossible | impossible | impossible | impossible⟩ :=
        mem_dequeueOps member <;> cases impossible
  | _ => exact absurd locks (ne_some_of_all rfl member)

theorem Rule.not_readsSsl (rule : Rule t e s op flow s') :
    .readLock (.ssl accept) ∉ pushes flow := by
  intro member
  have common := fun spreads => rule.common_of_pushed spreads _ member
  cases rule with
  | takeTask | callbackUses | shutdown | deregister | drain | userUses => cases common rfl
  | registered | indeterminateRegistered | lookupError | found =>
      simp [pushes, lockAndAdd] at member
  | _ => exact absurd member (by simp [pushes, afterConstruct])

/-- What is about to be used or shut down has nothing of user code in front of it. -/
theorem Rule.continues (rule : Rule t e s op flow s') {new : Op} (member : new ∈ pushes flow)
    (runs : new.continues = true) : op.continues = true ∨ ∃ callback conn, op = .call callback conn := by
  cases rule with
  | call callback conn => exact Or.inr ⟨callback, conn, rfl⟩
  | callbackSetMaxIdle | callbackShutdownServer | callbackDefers | callbackUses | userIdle
  | userSetMaxIdle | userShutdownServer | userDefers | userUses => exact Or.inl rfl
  | shutdown conn =>
      rcases mem_shutdownOps member with rfl | rfl | member | rfl
      · cases runs
      · cases runs
      · rcases mem_shutdownBody member with rfl | rfl | rfl | ⟨_, rfl, _⟩ | rfl <;> cases runs
      · cases runs
  | drain conn =>
      rcases mem_useOps_append member with rfl | rfl | rfl | rfl <;> cases runs
  | deregister conn =>
      obtain ⟨fd, _, rfl | rfl | rfl | rfl⟩ := mem_dequeueOps member <;> cases runs
  | takeTask task => cases task <;> exact absurd runs (List.any_eq_false.mp rfl new member)
  | _ => exact absurd runs (List.any_eq_false.mp rfl new member)

theorem Rule.uses_pushes (rule : Rule t e s op flow s') (uses : op.uses = true) :
    flow = .next [] := by
  cases rule <;> first | rfl | cases uses

end ServerState

namespace ServerConfig

open ServerState

variable {n : Nat}

/-! ### Who keeps whom from `ssl_mtx_` -/

/-- A thread shuts the connection down while it holds `connections_lock_`. -/
def Guarded (c : ServerConfig n) (accept : Nat) : Prop :=
  ∃ t, held c t = .writing ∧ ∃ op ∈ inside (c.prog t), op.shuts.map Handle.accept = some accept

/-- Under `connections_lock_`, a callback is about to take the `ssl_mtx_`. -/
def Handles (c : ServerConfig n) (accept : Nat) (t : Tid n) : Prop :=
  held c t ≠ .idle ∧ (∃ op ∈ c.prog t, op.continues = true) ∧ .lock (.ssl accept) ∈ c.prog t

/-- The thread is in `Shutdown()` of the socket object, before `Lock()`. -/
def Closing (c : ServerConfig n) (accept : Nat) (t : Tid n) : Prop :=
  .lock (.connection { accept := accept, level := 0 }) ∈ c.prog t

/-- In the step `OpenSSLConnection::Shutdown()` takes `ssl_mtx_` only if no callback under
`connections_lock_` is about to, and a callback under `connections_lock_` is about to only
if no thread has it in `OpenSSLConnection::Shutdown()` before `Lock()`. -/
def Apart (c : ServerConfig n) (t : Tid n) (e : Choice) : Prop :=
  Next (fun op e s =>
    (∀ accept ∈ op.locksSsl, Closing c accept t → ∀ t', ¬ Handles c accept t') ∧
      ∀ conn ∈ op.reaches e s, held c t ≠ .idle →
        ∀ t', (s.locks (.ssl conn.accept)).writer = some t' → ¬ Closing c conn.accept t') c t e

instance (c : ServerConfig n) (accept : Nat) : Decidable (Guarded c accept) :=
  inferInstanceAs (Decidable (∃ _, _))

instance (c : ServerConfig n) (accept : Nat) (t : Tid n) : Decidable (Handles c accept t) :=
  inferInstanceAs (Decidable (_ ∧ _))

instance (c : ServerConfig n) (accept : Nat) (t : Tid n) : Decidable (Closing c accept t) :=
  inferInstanceAs (Decidable (_ ∈ _))

instance (c : ServerConfig n) (t : Tid n) (e : Choice) : Decidable (Apart c t e) :=
  inferInstanceAs (Decidable (Next (fun op e s =>
    (∀ accept ∈ op.locksSsl, Closing c accept t → ∀ t', ¬ Handles c accept t') ∧
      ∀ conn ∈ op.reaches e s, held c t ≠ .idle →
        ∀ t', (s.locks (.ssl conn.accept)).writer = some t' → ¬ Closing c conn.accept t') c t e))

/-- The socket object is shut down, and nobody waits for that under `connections_lock_`. -/
def Left (c : ServerConfig n) (accept : Nat) : Prop :=
  c.shared.isShutdown { accept := accept, level := 0 } = true ∧ ¬ Guarded c accept

/-- Who has which `ssl_mtx_`, and where. -/
structure SslInvariant (c : ServerConfig n) : Prop where
  unread : ∀ accept, (c.shared.locks (.ssl accept)).readers = []
  writing : AllOps (fun _ _ op => ∀ accept, op ≠ .readLock (.ssl accept)) c
  made : AllOps (fun s _ op => ∀ accept, op = .lock (.ssl accept) →
    s.Made { accept := accept, level := 0 }) c
  enters : ∀ t, Enters (c.prog t)
  holding : ∀ accept t, (c.shared.locks (.ssl accept)).writer = some t →
    Leaving (Left c accept) accept (c.prog t) ∨ Releasing accept (c.prog t)
  apart : ∀ accept t t', Handles c accept t →
    (c.shared.locks (.ssl accept)).writer = some t' → ¬ Closing c accept t'

theorem SslInvariant.init (serverfd : Nat) (ssl : Bool) (maxIdle : Int32) :
    SslInvariant (init n serverfd ssl maxIdle) where
  unread accept := rfl
  writing := forall_init nofun nofun (fun _ => nofun) nofun
  made := forall_init nofun nofun (fun _ => nofun) nofun
  enters t pre accept post split := absurd split (init_prog_ne rfl)
  holding accept t writes := by cases writes
  apart accept t t' handles writes := by cases writes

variable {c c' : ServerConfig n} {t : Tid n} {e : Choice} {op : Op} {rest : List Op}
  {flow : Flow Op} {accept : Nat}

/-- A connection that is shut down under `connections_lock_` has no read lock
outstanding, and is not in the pool. -/
theorem Guarded.abandoned (inv : LockInvariant c) (guarded : Guarded c accept) :
    Abandoned c accept := by
  obtain ⟨t, writes, op, member, shut⟩ := guarded
  obtain ⟨conn, shuts, rfl⟩ := Option.map_eq_some_iff.mp shut
  exact inv.expiring t writes op member conn shuts

/-- The reaper begins to shut a connection down, or was about it. -/
theorem Guarded.of_step (inv : LockInvariant c) (taken : Taken c c' t e op rest flow)
    (guarded : Guarded c' accept) : Guarded c accept ∨
      ∃ conn, op = .reapShutdown conn ∧ conn.accept = accept ∧
        c.shared.isShutdownOf conn = false := by
  obtain ⟨t', writes, op', member, shut⟩ := guarded
  obtain ⟨conn, shuts, rfl⟩ := Option.map_eq_some_iff.mp shut
  obtain ⟨wrote, there | ⟨rfl, pushed⟩⟩ := inv.inside_of_step taken writes member shuts
  · exact Or.inl ⟨t', wrote, op', there, shut⟩
  · obtain ⟨m', moves⟩ := inv.moves taken.program
    rw [wrote] at moves
    rcases taken.rule.shuts pushed shuts with ⟨outer, was, same, _⟩ |
      ⟨_, ⟨fd, events, rfl, _⟩ | ⟨rfl, _⟩ | ⟨rfl, up⟩⟩
    · refine Or.inl ⟨t', wrote, op, ?_, by rw [was, same]; rfl⟩
      exact taken.program ▸ mem_inside_cons (Op.closes_of_shuts was) (Or.inl rfl)
    · cases moves with
      | stay allowed => cases allowed
    · cases moves with
      | stay allowed => cases allowed
    · exact Or.inr ⟨conn, rfl, rfl, up⟩

/-- Once a socket object is shut down, nobody begins that under `connections_lock_`. -/
theorem Left.of_step (inv : LockInvariant c) (taken : Taken c c' t e op rest flow)
    (left : Left c accept) : Left c' accept := by
  refine ⟨taken.rule.isShutdown_kept left.1, fun guarded => ?_⟩
  rcases guarded.of_step inv taken with before | ⟨conn, _, rfl, up⟩
  · exact left.2 before
  · rw [isShutdownOf, left.1] at up
    cases up

namespace SslInvariant

/-- Whoever has `ssl_mtx_` gives it back, and takes no task before. -/
theorem gives_back (ssl : SslInvariant c)
    (writes : (c.shared.locks (.ssl accept)).writer = some t) :
    ∃ front post, c.prog t = front ++ .unlock (.ssl accept) true :: post ∧ .takeTask ∉ front := by
  rcases ssl.holding accept t writes with ⟨front, post, split, leaves, _⟩ |
    ⟨front, post, split, ends⟩
  · refine ⟨front ++ [.lock (.connection { accept := accept, level := 0 }),
      .delete { accept := accept, level := 0 }], post, by simp [split], fun member => ?_⟩
    rcases List.mem_append.mp member with there | impossible
    · cases leaves _ there
    · simp at impossible
  · exact ⟨front, post, split, fun member => by cases ends _ member⟩

theorem step_made (inv : LockInvariant c) (ssl : SslInvariant c)
    (taken : Taken c c' t e op rest flow) :
    AllOps (fun s _ op => ∀ accept, op = .lock (.ssl accept) →
      s.Made { accept := accept, level := 0 }) c' := by
  rintro t' _ member accept rfl
  refine taken.rule.made (inv.adding t op taken.first) ?_
  rcases taken.mem member with ⟨rfl, pushed⟩ | ⟨rfl, old⟩ | ⟨_, old⟩
  · rcases taken.rule.locksSsl pushed with ⟨conn, _, made, rfl⟩ | ⟨conn, shuts, rfl⟩
    · exact ⟨made.1, Nat.zero_le _⟩
    · exact ⟨(inv.made t' op taken.first conn (Op.concerns_of_shuts shuts)).1, Nat.zero_le _⟩
  · exact ssl.made t' _ (taken.program ▸ List.mem_cons_of_mem _ old) accept rfl
  · exact ssl.made t' _ old accept rfl

theorem step_writing (ssl : SslInvariant c) (taken : Taken c c' t e op rest flow) :
    AllOps (fun _ _ op => ∀ accept, op ≠ .readLock (.ssl accept)) c' := by
  rintro t' _ member accept rfl
  rcases taken.mem member with ⟨rfl, pushed⟩ | ⟨rfl, old⟩ | ⟨_, old⟩
  · exact taken.rule.not_readsSsl pushed
  · exact ssl.writing t' _ (taken.program ▸ List.mem_cons_of_mem _ old) accept rfl
  · exact ssl.writing t' _ old accept rfl

theorem step_enters (ssl : SslInvariant c) (taken : Taken c c' t e op rest flow) (t' : Tid n) :
    Enters (c'.prog t') := by
  by_cases same : t' = t
  · subst same
    rw [taken.self]
    exact taken.rule.enters (taken.program ▸ ssl.enters t')
  · rw [taken.other same]
    exact ssl.enters t'

theorem step_holding (inv : LockInvariant c) (ssl : SslInvariant c)
    (taken : Taken c c' t e op rest flow) (t' : Tid n)
    (writes : (c'.shared.locks (.ssl accept)).writer = some t') :
    Leaving (Left c' accept) accept (c'.prog t') ∨ Releasing accept (c'.prog t') := by
  have still : Left c accept → Left c' accept := Left.of_step inv taken
  rcases taken.rule.ssl_writer writes with ⟨wrote, kept⟩ | ⟨rfl, rfl⟩
  · by_cases same : t' = t
    · subst same
      have holding := ssl.holding accept t' wrote
      rw [taken.program] at holding
      rw [taken.self]
      rcases holding with leaving | releasing
      · refine taken.rule.leaving leaving still ?_
        rintro rfl entries
        -- `Deregister()` found the object in the pool, so nobody expires it.
        obtain ⟨fd, key⟩ := List.exists_mem_of_ne_nil _ entries
        obtain ⟨value, entry, found⟩ := OrderedMap.mem_keysWhere.mp key
        rw [of_decide_eq_true found] at entry
        refine ⟨taken.rule.isShutdown_marked, fun guarded => ?_⟩
        rcases guarded.of_step inv taken with before | ⟨conn, impossible, _⟩
        · exact (before.abandoned inv).2 fd _ entry rfl
        · cases impossible
      · exact Or.inr ((taken.rule.releasing releasing).resolve_left fun this => kept this rfl)
    · rw [taken.other same]
      rcases ssl.holding accept t' wrote with ⟨front, post, split, leaves, left⟩ | releasing
      · exact Or.inl ⟨front, post, split, leaves, fun member => still (left member)⟩
      · exact Or.inr releasing
  · have entered := ssl.enters t' [] accept rest taken.program
    rw [taken.self, taken.rule.lock_flow]
    cases entered with
    | userCode conn | drain conn =>
        exact Or.inr ⟨[.use conn], _, rfl, List.forall_mem_singleton.mpr rfl⟩
    | shutdown post =>
        exact Or.inl ⟨[.deregister _], post, rfl,
          List.forall_mem_singleton.mpr (decide_eq_true rfl), nofun⟩

/-- How a callback under `connections_lock_` comes to take `ssl_mtx_`. -/
theorem handles_of_step (inv : LockInvariant c) (taken : Taken c c' t e op rest flow) {t' : Tid n}
    (handles : Handles c' accept t') : Handles c accept t' ∨
      t' = t ∧ held c t ≠ .idle ∧ ∃ conn ∈ op.reaches e c.shared, conn.accept = accept := by
  obtain ⟨notIdle, ⟨op', member, runs⟩, locks⟩ := handles
  rw [(inv.modes taken).2 t'] at notIdle
  by_cases same : t' = t
  · subst same
    rw [if_pos rfl] at notIdle
    rw [taken.self] at member locks
    have ordered := inv.ordered t'
    rw [taken.program] at ordered
    have before := (List.pairwise_cons.mp ordered).1
    rcases (server n).mem_continuation locks with ⟨ops, rfl, pushed⟩ | old
    · rcases taken.rule.locksSsl pushed with ⟨conn, reaches, _, rfl⟩ | ⟨conn, shuts, _⟩
      · refine Or.inr ⟨rfl, ?_, conn, reaches, rfl⟩
        rwa [Op.entered_of_not_guards (Op.guards_of_continues (Op.continues_of_reaches reaches))] at notIdle
      · -- Nothing of a shutdown stands before user code that goes on.
        exfalso
        rcases (server n).mem_continuation member with ⟨ops', same, pushed'⟩ | old
        · cases same
          rcases taken.rule.continues pushed' runs with also | ⟨callback, conn', rfl⟩
          · rw [Op.not_continues_of_shuts shuts] at also
            cases also
          · cases shuts
        · have uses := Op.uses_of_precedes runs (before op' old)
          rw [Op.not_uses_of_shuts shuts] at uses
          cases uses
    · have uses : op.uses = true := before _ old
      rw [taken.rule.uses_pushes uses] at member
      refine Or.inl ⟨?_, ⟨op', taken.program ▸ List.mem_cons_of_mem _ member, runs⟩,
        taken.program ▸ List.mem_cons_of_mem _ old⟩
      rwa [Op.entered_of_not_guards (Op.guards_of_uses uses)] at notIdle
  · rw [if_neg same] at notIdle
    rw [taken.other same] at member locks
    exact Or.inl ⟨notIdle, ⟨op', member, runs⟩, locks⟩

/-- How a thread comes to have `ssl_mtx_` before `Lock()`. -/
theorem closing_of_step (ssl : SslInvariant c) (taken : Taken c c' t e op rest flow) {t' : Tid n}
    (writes : (c'.shared.locks (.ssl accept)).writer = some t') (closing : Closing c' accept t') :
    Closing c accept t' ∧ ((c.shared.locks (.ssl accept)).writer = some t' ∨
      t' = t ∧ op = .lock (.ssl accept)) := by
  have old : .lock (.connection { accept := accept, level := 0 }) ∈ pushes flow → t' = t → False := by
    intro pushed same
    rcases taken.rule.tears pushed rfl with ⟨outer, rfl, _⟩ | ⟨impossible, _⟩
    · rcases taken.rule.ssl_writer writes with ⟨wrote, _⟩ | ⟨impossible, _⟩
      · have holding := ssl.holding accept t' wrote
        rw [same, taken.program] at holding
        rcases holding with ⟨front, post, split, leaves, _⟩ | ⟨front, post, split, ends⟩
        · cases front with
          | nil => cases split
          | cons first front =>
              cases split
              cases leaves _ List.mem_cons_self
        · cases front with
          | nil => cases split
          | cons first front =>
              cases split
              cases ends _ List.mem_cons_self
      · cases impossible
    · cases impossible
  refine ⟨?_, ?_⟩
  · rcases taken.mem closing with ⟨same, pushed⟩ | ⟨rfl, later⟩ | ⟨_, there⟩
    · exact (old pushed same).elim
    · rw [Closing, taken.program]
      exact List.mem_cons_of_mem _ later
    · exact there
  · rcases taken.rule.ssl_writer writes with ⟨wrote, _⟩ | ⟨locks, same⟩
    · exact Or.inl wrote
    · exact Or.inr ⟨same, locks⟩

theorem step_apart (inv : LockInvariant c) (ssl : SslInvariant c)
    (taken : Taken c c' t e op rest flow) (apart : Apart c t e) (t' t'' : Tid n)
    (handles : Handles c' accept t')
    (writes : (c'.shared.locks (.ssl accept)).writer = some t'') : ¬ Closing c' accept t'' := by
  intro closing
  obtain ⟨enters, reaches⟩ := apart.of_prog taken.program
  obtain ⟨closing, wrote | ⟨rfl, rfl⟩⟩ := closing_of_step ssl taken writes closing
  · rcases handles_of_step inv taken handles with before | ⟨_, notIdle, conn, reached, rfl⟩
    · exact ssl.apart accept t' t'' before wrote closing
    · exact reaches conn reached notIdle t'' wrote closing
  · rcases handles_of_step inv taken handles with before | ⟨_, _, conn, reached, _⟩
    · exact enters accept rfl closing t' before
    · cases Op.continues_of_reaches reached

/-- A step that keeps callbacks and shutdowns apart keeps the invariant. -/
theorem step (inv : LockInvariant c) (ssl : SslInvariant c) (apart : Apart c t e)
    (stepped : (server n).step t e c = some c') : SslInvariant c' := by
  obtain ⟨op, rest, flow, program, rule, progs⟩ := rule_of_step stepped
  have taken : Taken c c' t e op rest flow := ⟨program, rule, progs⟩
  exact {
    unread := fun accept => rule.ssl_readers (ssl.writing t op taken.first accept) (ssl.unread accept)
    writing := step_writing ssl taken
    made := step_made inv ssl taken
    enters := step_enters ssl taken
    holding := fun _ => step_holding inv ssl taken
    apart := fun _ => step_apart inv ssl taken apart }

end SslInvariant

end ServerConfig

end LibSiot
