import Mathlib

/-! # Conditions on every element of a list and what precedes it

A run is a list of inputs, and a requirement on one input may refer to the run
before it. Such a requirement holds of a run when it holds at every split. -/

namespace CStabilizer.Library.Splits

universe u

variable {α : Type u} {P : List α → α → Prop}

def Stepwise (P : List α → α → Prop) (run : List α) : Prop :=
  ∀ before x after, run = before ++ x :: after → P before x

theorem stepwise_nil : Stepwise P [] := by
  intro before x after h
  exact absurd h.symm (by simp)

theorem stepwise_concat {run : List α} {x : α} :
    Stepwise P (run ++ [x]) ↔ Stepwise P run ∧ P run x := by
  constructor
  · intro h
    constructor
    · intro before y after hRun
      exact h before y (after ++ [x]) (by rw [hRun]; simp)
    · exact h run x [] rfl
  · rintro ⟨hFront, hLast⟩ before y after hRun
    obtain rfl | ⟨after, last, rfl⟩ := List.eq_nil_or_concat' after
    · obtain ⟨rfl, hEq⟩ := List.append_inj' hRun rfl
      cases hEq
      exact hLast
    · rw [← List.cons_append, ← List.append_assoc] at hRun
      exact hFront before y after (List.append_inj' hRun rfl).1

/-- Elements that meet the condition wherever they stand do not matter. -/
theorem stepwise_append {run xs : List α} (h : ∀ before, ∀ x ∈ xs, P before x) :
    Stepwise P (run ++ xs) ↔ Stepwise P run := by
  induction xs using List.reverseRecOn with
  | nil => rw [List.append_nil]
  | append_singleton xs x ih =>
    rw [← List.append_assoc, stepwise_concat,
      ih fun before y hy => h before y (List.mem_append_left _ hy)]
    exact and_iff_left (h (run ++ xs) x (by simp))

theorem stepwise_singleton {x : α} : Stepwise P [x] ↔ P [] x :=
  (@stepwise_concat _ _ [] x).trans (and_iff_right stepwise_nil)

end CStabilizer.Library.Splits
