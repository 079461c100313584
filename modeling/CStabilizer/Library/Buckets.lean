import Mathlib

/-! # Tables of lists

A table of `n` lists, and what all its lists hold together. Taking from one list
or adding to it changes the whole by as much, up to order. -/

namespace CStabilizer.Library.Buckets

open scoped List

universe u v

variable {α : Type u} {n i : Nat} {table : Nat → List α}

/-- Not unfolded by unification, which would enumerate the table. -/
@[irreducible] def contents (n : Nat) (table : Nat → List α) : List α := (List.range n).flatMap table

theorem mem_contents {x : α} : x ∈ contents n table ↔ ∃ i < n, x ∈ table i := by
  simp [contents]

@[simp] theorem contents_empty : contents n (fun _ => ([] : List α)) = [] := by
  simp [contents]

theorem contents_update_of_le (h : n ≤ i) (l : List α) :
    contents n (Function.update table i l) = contents n table := by
  unfold contents
  apply List.flatMap_congr
  intro j hj
  rw [Function.update_of_ne (by have := List.mem_range.mp hj; omega)]

/-- A list of the table, taken out of the whole. -/
theorem contents_update_perm (h : i < n) (l : List α) :
    contents n (Function.update table i l) ~ l ++ contents n (Function.update table i []) := by
  induction n with
  | zero => exact absurd h (Nat.not_lt_zero i)
  | succ n ih =>
    have hSucc (f : Nat → List α) : contents (n + 1) f = contents n f ++ f n := by
      simp [contents, List.range_succ, List.flatMap_append]
    rw [hSucc, hSucc]
    obtain hLt | rfl := Nat.lt_succ_iff_lt_or_eq.mp h
    · rw [Function.update_of_ne hLt.ne', Function.update_of_ne hLt.ne', ← List.append_assoc]
      exact (ih hLt).append_right _
    · rw [contents_update_of_le le_rfl, contents_update_of_le le_rfl, Function.update_self,
        Function.update_self, List.append_nil]
      exact List.perm_append_comm

theorem contents_perm (h : i < n) :
    contents n table ~ table i ++ contents n (Function.update table i []) := by
  calc
    contents n table = contents n (Function.update table i (table i)) := by
      rw [Function.update_eq_self]
    _ ~ table i ++ contents n (Function.update table i []) := contents_update_perm h _

theorem contents_push_perm (h : i < n) (x : α) :
    contents n (Function.update table i (table i ++ [x])) ~ x :: contents n table := by
  calc
    _ ~ (table i ++ [x]) ++ contents n (Function.update table i []) := contents_update_perm h _
    _ ~ x :: (table i ++ contents n (Function.update table i [])) :=
      (List.perm_append_singleton x (table i)).append_right _
    _ ~ x :: contents n table := (contents_perm h).symm.cons x

theorem contents_pop_perm (h : i < n) {x : α} {rest : List α} (hHead : table i = x :: rest) :
    contents n table ~ x :: contents n (Function.update table i rest) := by
  calc
    contents n table ~ table i ++ contents n (Function.update table i []) := contents_perm h
    _ ~ x :: (rest ++ contents n (Function.update table i [])) := by rw [hHead]; rfl
    _ ~ x :: contents n (Function.update table i rest) := (contents_update_perm h rest).symm.cons x

/-- Where the elements of the table are told apart by `f`, no two lists share one. -/
theorem index_unique {β : Type v} {f : α → β} (h : ((contents n table).map f).Nodup) {j : Nat}
    (hi : i < n) (hj : j < n) {x y : α} (hx : x ∈ table i) (hy : y ∈ table j) (hEq : f x = f y) :
    i = j := by
  by_contra hNe
  have hNodup := ((contents_perm hi).map f).nodup_iff.mp h
  rw [List.map_append] at hNodup
  have hOther : y ∈ contents n (Function.update table i []) := by
    refine mem_contents.mpr ⟨j, hj, ?_⟩
    rwa [Function.update_of_ne (Ne.symm hNe)]
  have hApart := (List.nodup_append.mp hNodup).2.2
  exact hApart _ (List.mem_map_of_mem hx) _ (List.mem_map_of_mem hOther) hEq

end CStabilizer.Library.Buckets
