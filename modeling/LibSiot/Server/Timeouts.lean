/-
Module: LibSiot.Server.Timeouts
Purpose: The two waiting times that are computed from `max_idle_`: the timeout of
  `epoll_wait` in `ListenEpoll`, and the interval of `ReapConnectionsEpoll`.
Trusted boundary: human-reviewed model
Main exports: intMul, ServerState.epollTimeout, ServerState.reapInterval,
  intMul_eq_some_iff
-/
import LibSiot.Server.Step

namespace LibSiot

/-- The product of two values of type `int`.  There is none if it does not fit:
the behaviour of the program is undefined then. -/
def intMul (a b : Int32) : Option Int32 :=
  if -2 ^ 31 ≤ a.toInt * b.toInt ∧ a.toInt * b.toInt < 2 ^ 31 then some (a * b) else none

theorem intMul_eq_some_iff {a b c : Int32} :
    intMul a b = some c ↔ c.toInt = a.toInt * b.toInt := by
  by_cases fits : -2 ^ 31 ≤ a.toInt * b.toInt ∧ a.toInt * b.toInt < 2 ^ 31
  · have product : (a * b).toInt = a.toInt * b.toInt := by
      rw [Int32.toInt_mul]
      exact Int.bmod_eq_of_le (by omega) (by omega)
    rw [intMul, if_pos fits, Option.some.injEq, ← Int32.toInt_inj, product]
    exact eq_comm
  · have low := c.le_toInt
    have high := c.toInt_lt
    rw [intMul, if_neg fits]
    constructor
    · intro none
      cases none
    · intro same
      exact absurd ⟨same ▸ low, same ▸ high⟩ fits

namespace ServerState

variable {n : Nat}

/-- The timeout `max_idle_ < 0 ? -1 : max_idle_ * 1000` of `epoll_wait`, in
milliseconds; -1 waits without limit. -/
def epollTimeout (s : ServerState n) : Option Int32 :=
  if s.maxIdle < 0 then some (-1) else intMul s.maxIdle 1000

/-- The interval `max_idle_ > 2 ? max_idle_ * 500 : 500` of the reaper, in
milliseconds. -/
def reapInterval (s : ServerState n) : Option Int32 :=
  if s.maxIdle > 2 then intMul s.maxIdle 500 else some 500

end ServerState

end LibSiot
