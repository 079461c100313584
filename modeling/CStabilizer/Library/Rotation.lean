import Mathlib

/-! # Walks over a list that they change

A walk takes each element off the front, and some elements come back behind the
last one. The cursor moves on before an element comes back, so that one which
comes back to an empty list is behind the cursor. -/

namespace CStabilizer.Library.Rotation

open scoped List

universe u

variable {α : Type u} (returns : α → Bool)

/-- The elements met until the cursor is at the end, if the fuel is enough. -/
def visits : (fuel : Nat) → (atEnd : Bool) → List α → Option (List α)
  | 0, _, _ => none
  | _ + 1, true, _ => some []
  | _ + 1, false, [] => some []
  | fuel + 1, false, x :: rest =>
    (visits fuel rest.isEmpty (rest ++ if returns x then [x] else [])).map (x :: ·)

variable {returns}

theorem visits_cons {fuel : Nat} {x : α} {rest visited : List α}
    (h : visits returns (fuel + 1) false (x :: rest) = some visited) :
    ∃ tail, visits returns fuel rest.isEmpty (rest ++ if returns x then [x] else []) = some tail ∧
      visited = x :: tail := by
  obtain ⟨tail, hTail, rfl⟩ := Option.map_eq_some_iff.mp h
  exact ⟨tail, hTail, rfl⟩

/-- Every element is met, and those that come back before the last one are met again. -/
theorem length_visits {fuel : Nat} {l visited : List α}
    (h : visits returns fuel false l = some visited) :
    l.length + l.dropLast.countP returns ≤ visited.length := by
  induction fuel generalizing l visited with
  | zero => cases h
  | succ fuel ih =>
    cases l with
    | nil => simp
    | cons x rest =>
      obtain ⟨tail, hTail, rfl⟩ := visits_cons h
      cases rest with
      | nil => simp
      | cons y rest =>
        have hMore := ih hTail
        have hSub : (y :: rest).dropLast.countP returns ≤ (y :: rest).countP returns :=
          (List.dropLast_sublist _).countP_le
        rw [List.dropLast_cons_cons, List.countP_cons]
        split at hMore
        · rename_i hReturns
          rw [List.dropLast_concat] at hMore
          simp only [hReturns, if_true, List.length_cons, List.length_append] at hMore ⊢
          omega
        · rename_i hGone
          rw [List.append_nil] at hMore
          simp only [hGone, Bool.false_eq_true, if_false, List.length_cons] at hMore ⊢
          omega

/-- Nothing comes back before the last element. -/
theorem visits_of_none_returns {l : List α} (h : ∀ x ∈ l.dropLast, returns x = false) :
    visits returns (l.length + 1) false l = some l := by
  induction l with
  | nil => rfl
  | cons x rest ih =>
    rw [List.length_cons, visits]
    cases rest with
    | nil => rfl
    | cons y rest =>
      rw [h x (by simp)]
      have hRest := ih fun z hz => h z (by simp [hz])
      simpa using hRest

theorem visits_once_iff {l : List α} :
    (∃ fuel visited, visits returns fuel false l = some visited ∧ visited ~ l) ↔
      ∀ x ∈ l.dropLast, returns x = false := by
  constructor
  · rintro ⟨fuel, visited, hVisits, hPerm⟩
    have hLength := length_visits hVisits
    rw [hPerm.length_eq] at hLength
    have hNone : l.dropLast.countP returns = 0 := by omega
    intro x hx
    exact Bool.eq_false_iff.mpr (List.countP_eq_zero.mp hNone x hx)
  · intro h
    exact ⟨_, l, visits_of_none_returns h, .refl l⟩

/-- Two elements that come back keep each other in front of the cursor. -/
theorem visits_eq_none {l : List α} (hTwo : 2 ≤ l.countP returns) (fuel : Nat) :
    visits returns fuel false l = none := by
  induction fuel generalizing l with
  | zero => rfl
  | succ fuel ih =>
    cases l with
    | nil => simp at hTwo
    | cons x rest =>
      have hMore : rest.isEmpty = false := by
        cases rest with
        | nil =>
          have hLe := List.countP_le_length (p := returns) (l := [x])
          exact absurd (hTwo.trans hLe) (by simp)
        | cons y rest => rfl
      have hStill : 2 ≤ (rest ++ if returns x then [x] else []).countP returns := by
        rw [List.countP_cons] at hTwo
        rw [List.countP_append]
        split
        · rename_i hReturns
          simpa [hReturns] using hTwo
        · rename_i hGone
          simpa [hGone] using hTwo
      rw [visits, hMore, ih hStill]
      rfl

end CStabilizer.Library.Rotation
