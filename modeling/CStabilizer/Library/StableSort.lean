import Mathlib

/-! # Sorting by a key with ties in insertion order

A list sorted by its keys is determined by its fibres, the sublists of one
key. Inserting behind every element of no greater key adds the new element at
the end of its fibre, so repeated insertion is the stable sort. -/

namespace CStabilizer.Library.StableSort

universe u v

variable {α : Type u} {κ : Type v} [LinearOrder κ] (key : α → κ)

def Sorted (l : List α) : Prop := l.Pairwise (fun a b => key a ≤ key b)

def insertUpper (x : α) : List α → List α
  | [] => [x]
  | y :: ys => if key y ≤ key x then y :: insertUpper x ys else x :: y :: ys

def insertAll (l xs : List α) : List α := xs.foldl (fun acc x => insertUpper key x acc) l

def stableSort (l : List α) : List α := l.mergeSort (fun a b => decide (key a ≤ key b))

/-- The elements of one key, in the order of the list. -/
def fibre (k : κ) (l : List α) : List α := l.filter (fun a => key a = k)

@[simp] theorem insertAll_nil (l : List α) : insertAll key l [] = l := rfl

@[simp] theorem insertAll_cons (l : List α) (x : α) (xs : List α) :
    insertAll key l (x :: xs) = insertAll key (insertUpper key x l) xs := rfl

theorem insertUpper_perm (x : α) (l : List α) : (insertUpper key x l).Perm (x :: l) := by
  induction l with
  | nil => exact .refl _
  | cons y ys ih =>
    rw [insertUpper]
    split
    · exact (ih.cons y).trans (.swap x y ys)
    · exact .refl _

theorem mem_insertUpper {x a : α} {l : List α} : a ∈ insertUpper key x l ↔ a = x ∨ a ∈ l := by
  rw [(insertUpper_perm key x l).mem_iff, List.mem_cons]

theorem insertUpper_sorted (x : α) {l : List α} (h : Sorted key l) :
    Sorted key (insertUpper key x l) := by
  induction l with
  | nil => exact List.pairwise_singleton _ _
  | cons y ys ih =>
    obtain ⟨hHead, hTail⟩ := List.pairwise_cons.mp h
    rw [insertUpper]
    split
    · rename_i hLe
      refine List.pairwise_cons.mpr ⟨fun a ha => ?_, ih hTail⟩
      obtain rfl | ha := (mem_insertUpper key).mp ha
      · exact hLe
      · exact hHead a ha
    · rename_i hLt
      have hLe : key x ≤ key y := (not_le.mp hLt).le
      refine List.pairwise_cons.mpr ⟨fun a ha => ?_, h⟩
      obtain rfl | ha := List.mem_cons.mp ha
      · exact hLe
      · exact hLe.trans (hHead a ha)

theorem insertAll_sorted (xs : List α) {l : List α} (h : Sorted key l) :
    Sorted key (insertAll key l xs) := by
  induction xs generalizing l with
  | nil => exact h
  | cons x xs ih => exact ih (insertUpper_sorted key x h)

theorem insertAll_perm (l xs : List α) : (insertAll key l xs).Perm (l ++ xs) := by
  induction xs generalizing l with
  | nil => simp
  | cons x xs ih =>
    have hMove : (x :: l ++ xs).Perm (l ++ x :: xs) := List.perm_middle.symm
    exact (ih _).trans (((insertUpper_perm key x l).append_right xs).trans hMove)

theorem insertUpper_append (x : α) {front : List α} (back : List α)
    (h : ∀ a ∈ front, key a ≤ key x) :
    insertUpper key x (front ++ back) = front ++ insertUpper key x back := by
  induction front with
  | nil => rfl
  | cons y ys ih =>
    rw [List.cons_append, insertUpper, if_pos (h y List.mem_cons_self),
      ih (fun a ha => h a (List.mem_cons_of_mem _ ha)), List.cons_append]

theorem insertAll_append (xs : List α) {front : List α} (back : List α)
    (h : ∀ x ∈ xs, ∀ a ∈ front, key a ≤ key x) :
    insertAll key (front ++ back) xs = front ++ insertAll key back xs := by
  induction xs generalizing back with
  | nil => rfl
  | cons x xs ih =>
    rw [insertAll_cons, insertUpper_append key x back (h x List.mem_cons_self),
      ih _ (fun y hy => h y (List.mem_cons_of_mem _ hy)), insertAll_cons]

/-! ## Fibres -/

@[simp] theorem fibre_append (k : κ) (l r : List α) :
    fibre key k (l ++ r) = fibre key k l ++ fibre key k r := List.filter_append ..

theorem fibre_insertUpper (k : κ) (x : α) {l : List α} (h : Sorted key l) :
    fibre key k (insertUpper key x l) = fibre key k (l ++ [x]) := by
  induction l with
  | nil => rfl
  | cons y ys ih =>
    obtain ⟨hHead, hTail⟩ := List.pairwise_cons.mp h
    rw [insertUpper]
    split
    · have hTail := ih hTail
      simp only [fibre, List.cons_append, List.filter_cons] at hTail ⊢
      rw [hTail]
    · rename_i hLt
      -- No element of `y :: ys` shares the key of `x`.
      have hx : ∀ a ∈ y :: ys, key x < key a := by
        intro a ha
        obtain rfl | ha := List.mem_cons.mp ha
        · exact not_le.mp hLt
        · exact (not_le.mp hLt).trans_le (hHead a ha)
      by_cases hk : key x = k
      · have hNone : fibre key k (y :: ys) = [] := by
          rw [fibre, List.filter_eq_nil_iff]
          intro a ha
          simpa [← hk] using (hx a ha).ne'
        rw [fibre_append, hNone, ← List.singleton_append, fibre_append, hNone, List.append_nil,
          List.nil_append]
      · simp [fibre, hk, List.filter_cons]

theorem fibre_insertAll (k : κ) (xs : List α) {l : List α} (h : Sorted key l) :
    fibre key k (insertAll key l xs) = fibre key k (l ++ xs) := by
  induction xs generalizing l with
  | nil => simp
  | cons x xs ih =>
    rw [insertAll_cons, ih (insertUpper_sorted key x h), fibre_append, fibre_insertUpper key k x h,
      ← fibre_append, List.append_assoc, List.singleton_append]

/-- A list sorted by its keys is determined by its fibres. -/
theorem eq_of_fibre_eq {l r : List α} (hl : Sorted key l) (hr : Sorted key r)
    (h : ∀ k, fibre key k l = fibre key k r) : l = r := by
  induction l generalizing r with
  | nil =>
    cases r with
    | nil => rfl
    | cons b r => simpa [fibre] using h (key b)
  | cons a l ih =>
    cases r with
    | nil => simpa [fibre] using h (key a)
    | cons b r =>
      obtain ⟨hHead, hTail⟩ := List.pairwise_cons.mp hl
      obtain ⟨hHead', hTail'⟩ := List.pairwise_cons.mp hr
      -- Each head is a member of the other list, so the two keys bound each other.
      have ha : a ∈ b :: r := List.mem_of_mem_filter
        (h (key a) ▸ List.mem_filter.mpr ⟨List.mem_cons_self, by simp⟩ : a ∈ fibre key (key a) (b :: r))
      have hb : b ∈ a :: l := List.mem_of_mem_filter
        ((h (key b)).symm ▸ List.mem_filter.mpr ⟨List.mem_cons_self, by simp⟩ :
          b ∈ fibre key (key b) (a :: l))
      have hKey : key a = key b := by
        apply le_antisymm
        · obtain rfl | hb := List.mem_cons.mp hb
          · exact le_rfl
          · exact hHead b hb
        · obtain rfl | ha := List.mem_cons.mp ha
          · exact le_rfl
          · exact hHead' a ha
      have hEq : a = b := by
        have hFibre := h (key a)
        simp only [fibre, List.filter_cons, decide_true, if_true, ← hKey] at hFibre
        exact (List.cons.inj hFibre).1
      subst hEq
      refine congrArg (a :: ·) (ih hTail hTail' fun k => ?_)
      have hFibre := h k
      simp only [fibre, List.filter_cons] at hFibre
      split at hFibre
      · exact (List.cons.inj hFibre).2
      · exact hFibre

/-! ## The stable sort -/

theorem le_trans_bool (a b c : α) (hab : decide (key a ≤ key b) = true)
    (hbc : decide (key b ≤ key c) = true) : decide (key a ≤ key c) = true :=
  decide_eq_true ((of_decide_eq_true hab).trans (of_decide_eq_true hbc))

theorem le_total_bool (a b : α) : (decide (key a ≤ key b) || decide (key b ≤ key a)) = true := by
  simpa using le_total (key a) (key b)

theorem stableSort_sorted (l : List α) : Sorted key (stableSort key l) :=
  (List.pairwise_mergeSort (le_trans_bool key) (le_total_bool key) l).imp of_decide_eq_true

theorem stableSort_perm (l : List α) : (stableSort key l).Perm l := List.mergeSort_perm ..

theorem fibre_stableSort (k : κ) (l : List α) : fibre key k (stableSort key l) = fibre key k l := by
  -- a fibre is already sorted, so it is a sublist of the sorted list, of the same length
  have hFibre : (fibre key k l).Pairwise (fun a b => decide (key a ≤ key b) = true) := by
    apply List.pairwise_of_forall_mem_list
    intro a ha b hb
    have hKeys := And.intro (List.mem_filter.mp ha).2 (List.mem_filter.mp hb).2
    simp only [decide_eq_true_eq] at hKeys ⊢
    exact (hKeys.1.trans hKeys.2.symm).le
  have hSub : (fibre key k l).Sublist (stableSort key l) :=
    List.sublist_mergeSort (le_trans_bool key) (le_total_bool key) hFibre List.filter_sublist
  have hInner : (fibre key k l).Sublist (fibre key k (stableSort key l)) := by
    simpa [fibre] using hSub.filter (fun a => decide (key a = k))
  exact (hInner.eq_of_length ((stableSort_perm key l).filter _).length_eq.symm).symm

theorem insertAll_stableSort (l xs : List α) :
    insertAll key (stableSort key l) xs = stableSort key (l ++ xs) := by
  apply eq_of_fibre_eq key (insertAll_sorted key xs (stableSort_sorted key l))
    (stableSort_sorted key _)
  intro k
  rw [fibre_insertAll key k xs (stableSort_sorted key l), fibre_stableSort, fibre_append,
    fibre_append, fibre_stableSort]

theorem filter_stableSort (p : α → Bool) (l : List α) :
    (stableSort key l).filter p = stableSort key (l.filter p) := by
  apply eq_of_fibre_eq key ((stableSort_sorted key l).filter p) (stableSort_sorted key _)
  intro k
  rw [fibre_stableSort]
  simp only [fibre, List.filter_comm _ p]
  exact congrArg (List.filter p) (fibre_stableSort key k l)

/-! ## Cutting a sorted list at a bound -/

def upperBound (t : κ) (l : List α) : Nat := (l.takeWhile fun a => key a ≤ t).length

@[simp] theorem upperBound_nil (t : κ) : upperBound key t [] = 0 := rfl

theorem upperBound_cons_of_le {t : κ} {a : α} (l : List α) (h : key a ≤ t) :
    upperBound key t (a :: l) = upperBound key t l + 1 := by simp [upperBound, h]

theorem upperBound_cons_of_lt {t : κ} {a : α} (l : List α) (h : t < key a) :
    upperBound key t (a :: l) = 0 := by simp [upperBound, h]

theorem upperBound_le_length (t : κ) (l : List α) : upperBound key t l ≤ l.length :=
  (List.takeWhile_prefix _).length_le

theorem upperBound_append_of_le {t : κ} {l : List α} (r : List α) (h : ∀ a ∈ l, key a ≤ t) :
    upperBound key t (l ++ r) = l.length + upperBound key t r := by
  induction l with
  | nil => simp
  | cons a l ih =>
    obtain ⟨hHead, hTail⟩ := List.forall_mem_cons.mp h
    rw [List.cons_append, upperBound_cons_of_le key _ hHead, ih hTail, List.length_cons]
    omega

theorem upperBound_append_of_lt {t : κ} (l : List α) {a : α} (r : List α) (h : t < key a) :
    upperBound key t (l ++ a :: r) = upperBound key t l := by
  induction l with
  | nil => exact upperBound_cons_of_lt key r h
  | cons b l ih =>
    rw [List.cons_append]
    obtain hb | hb := le_or_gt (key b) t
    · rw [upperBound_cons_of_le key _ hb, upperBound_cons_of_le key _ hb, ih]
    · rw [upperBound_cons_of_lt key _ hb, upperBound_cons_of_lt key _ hb]

theorem take_drop_upperBound (t : κ) {l : List α} (h : Sorted key l) :
    l.take (upperBound key t l) = l.filter (fun a => key a ≤ t) ∧
    l.drop (upperBound key t l) = l.filter (fun a => t < key a) := by
  induction l with
  | nil => exact ⟨rfl, rfl⟩
  | cons a l ih =>
    obtain ⟨hHead, hTail⟩ := List.pairwise_cons.mp h
    by_cases ha : key a ≤ t
    · simp [upperBound_cons_of_le key l ha, ha, ih hTail]
    · have hLt : t < key a := not_le.mp ha
      have hAll : ∀ b ∈ l, t < key b := fun b hb => hLt.trans_le (hHead b hb)
      have hSelf : l.filter (fun b => t < key b) = l := by simpa using hAll
      have hNone : l.filter (fun b => key b ≤ t) = [] := by simpa using hAll
      simp [upperBound_cons_of_lt key l hLt, ha, hLt, hSelf, hNone]

end CStabilizer.Library.StableSort
