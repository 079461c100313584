import Mathlib

/-! # Condition variables

The waiters of a condition variable are the threads that sleep and have not been
signalled. A signal wakes one of them, chosen freely, if there is one. A thread
that is no longer a waiter runs again once it has the mutex. -/

namespace CStabilizer.Library.ConditionVariable

universe u

variable {Thread : Type u} [DecidableEq Thread]

inductive Signal : Finset Thread → Finset Thread → Prop
  | nobody : Signal ∅ ∅
  | wake {waiters : Finset Thread} {t : Thread} (h : t ∈ waiters) :
      Signal waiters (waiters.erase t)

theorem Signal.eq_empty {waiters waiters' : Finset Thread} (h : Signal waiters waiters')
    {t : Thread} (hOnly : ∀ t' ∈ waiters, t' = t) : waiters' = ∅ := by
  cases h with
  | nobody => rfl
  | @wake _ t' hMem =>
    apply Finset.eq_empty_of_forall_notMem
    intro t'' hMem''
    have hBoth := Finset.mem_erase.mp hMem''
    exact hBoth.1 ((hOnly t'' hBoth.2).trans (hOnly t' hMem).symm)

end CStabilizer.Library.ConditionVariable
