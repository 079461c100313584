import Mathlib

/-! # Codes that delimit themselves

A code word is recognised whatever follows it. A stream of code words can then be read
in one way only, also while it goes on. -/

namespace CStabilizer.Library.Codes

universe u v

variable {α : Type u} {β : Type v}

structure Delimits (S : Set α) (f : α → List β) : Prop where
  nonempty : ∀ a ∈ S, f a ≠ []
  unique : ∀ a ∈ S, ∀ b ∈ S, ∀ r s, f a ++ r = f b ++ s → a = b

variable {S : Set α} {f : α → List β}

theorem Delimits.front (h : Delimits S f) {as bs : List α} (has : ∀ a ∈ as, a ∈ S)
    (hbs : ∀ b ∈ bs, b ∈ S) (hFront : as.flatMap f <+: bs.flatMap f) : as <+: bs := by
  induction as generalizing bs with
  | nil => exact List.nil_prefix
  | cons a as ih =>
    have ha := has a List.mem_cons_self
    rw [List.flatMap_cons] at hFront
    cases bs with
    | nil =>
      rw [List.flatMap_nil, List.prefix_nil, List.append_eq_nil_iff] at hFront
      exact absurd hFront.1 (h.nonempty a ha)
    | cons b bs =>
      obtain ⟨rest, hRest⟩ := hFront
      rw [List.flatMap_cons, List.append_assoc] at hRest
      obtain rfl := h.unique a ha b (hbs b List.mem_cons_self) _ _ hRest
      have hBehind : as.flatMap f <+: bs.flatMap f := ⟨rest, List.append_cancel_left hRest⟩
      have hTail := ih (fun a ha => has a (List.mem_cons_of_mem _ ha))
        (fun b hb => hbs b (List.mem_cons_of_mem _ hb)) hBehind
      exact (List.prefix_cons_inj a).mpr hTail

theorem Delimits.unique_of_length (h : Delimits S f) {as bs : List α} (has : ∀ a ∈ as, a ∈ S)
    (hbs : ∀ b ∈ bs, b ∈ S) (hLength : as.length = bs.length) {r s : List β}
    (hEq : as.flatMap f ++ r = bs.flatMap f ++ s) : as = bs := by
  induction as generalizing bs with
  | nil => exact (List.length_eq_zero_iff.mp hLength.symm).symm
  | cons a as ih =>
    cases bs with
    | nil => cases hLength
    | cons b bs =>
      rw [List.flatMap_cons, List.flatMap_cons, List.append_assoc, List.append_assoc] at hEq
      obtain rfl := h.unique a (has a List.mem_cons_self) b (hbs b List.mem_cons_self) _ _ hEq
      rw [ih (fun a ha => has a (List.mem_cons_of_mem _ ha))
        (fun b hb => hbs b (List.mem_cons_of_mem _ hb)) (Nat.succ.inj hLength)
        (List.append_cancel_left hEq)]

/-- Code words of one length delimit themselves. -/
theorem delimits_of_length {n : Nat} (hLength : ∀ a ∈ S, (f a).length = n + 1)
    (hInjective : Set.InjOn f S) : Delimits S f where
  nonempty a ha hNil := by
    have hEq := hLength a ha
    rw [hNil] at hEq
    cases hEq
  unique a ha b hb r s hEq :=
    hInjective ha hb (List.append_inj hEq ((hLength a ha).trans (hLength b hb).symm)).1

/-- A length and as many code words delimit themselves. -/
theorem Delimits.counted (h : Delimits S f) {N : Nat} {header : Nat → List β}
    (hHeader : Delimits (Set.Iio N) header) :
    Delimits {l : List α | l.length < N ∧ ∀ a ∈ l, a ∈ S}
      fun l => header l.length ++ l.flatMap f where
  nonempty l hl hNil := hHeader.nonempty l.length hl.1 (List.append_eq_nil_iff.mp hNil).1
  unique l hl l' hl' r s hEq := by
    rw [List.append_assoc, List.append_assoc] at hEq
    have hLength := hHeader.unique l.length hl.1 l'.length hl'.1 _ _ hEq
    rw [hLength] at hEq
    exact h.unique_of_length hl.2 hl'.2 hLength (List.append_cancel_left hEq)

end CStabilizer.Library.Codes
