import CStabilizer.Library.StableSort

/-! # Ordered associative containers

An ordered map holds one entry a key in strict key order; an ordered multimap
holds entries in key order, equal keys in insertion order. Both carry their
order as a field. Iterators are positions; the end is the number of entries. -/

namespace CStabilizer.Library.Containers

open StableSort

universe u v

structure OrderedMap (κ : Type u) (ν : Type v) [LinearOrder κ] where
  entries : List (κ × ν)
  ordered : entries.Pairwise (fun a b => a.1 < b.1)

structure Multimap (κ : Type u) (ν : Type v) [LinearOrder κ] where
  entries : List (κ × ν)
  ordered : Sorted Prod.fst entries

variable {κ : Type u} {ν : Type v} [LinearOrder κ]

/-! ## Maps -/

def assignEntries (k : κ) (x : ν) : List (κ × ν) → List (κ × ν)
  | [] => [(k, x)]
  | (k', x') :: rest =>
    if k < k' then (k, x) :: (k', x') :: rest
    else if k = k' then (k, x) :: rest
    else (k', x') :: assignEntries k x rest

theorem mem_assignEntries {k : κ} {x : ν} {e : κ × ν} {l : List (κ × ν)}
    (h : l.Pairwise (fun a b => a.1 < b.1)) :
    e ∈ assignEntries k x l ↔ e = (k, x) ∨ e.1 ≠ k ∧ e ∈ l := by
  induction l with
  | nil => simp [assignEntries]
  | cons head rest ih =>
    obtain ⟨k', x'⟩ := head
    obtain ⟨hHead, hRest⟩ := List.pairwise_cons.mp h
    rw [assignEntries]
    split
    · rename_i hLt
      have hNe : ∀ a ∈ (k', x') :: rest, a.1 ≠ k := by
        intro a ha
        obtain rfl | ha := List.mem_cons.mp ha
        · exact hLt.ne'
        · exact (hLt.trans (hHead a ha)).ne'
      rw [List.mem_cons]
      exact or_congr_right ⟨fun he => ⟨hNe e he, he⟩, And.right⟩
    · split
      · rename_i hEq
        subst hEq
        have hNe : ∀ a ∈ rest, a.1 ≠ k := fun a ha => (hHead a ha).ne'
        rw [List.mem_cons, List.mem_cons]
        refine or_congr_right ⟨fun he => ⟨hNe e he, .inr he⟩, ?_⟩
        rintro ⟨hKey, rfl | he⟩
        · exact absurd rfl hKey
        · exact he
      · rename_i hNe
        rw [List.mem_cons, ih hRest, List.mem_cons]
        constructor
        · rintro (rfl | rfl | ⟨hKey, he⟩)
          · exact .inr ⟨Ne.symm hNe, .inl rfl⟩
          · exact .inl rfl
          · exact .inr ⟨hKey, .inr he⟩
        · rintro (rfl | ⟨hKey, rfl | he⟩)
          · exact .inr (.inl rfl)
          · exact .inl rfl
          · exact .inr (.inr ⟨hKey, he⟩)

theorem assignEntries_ordered (k : κ) (x : ν) {l : List (κ × ν)}
    (h : l.Pairwise (fun a b => a.1 < b.1)) :
    (assignEntries k x l).Pairwise (fun a b => a.1 < b.1) := by
  induction l with
  | nil => exact List.pairwise_singleton _ _
  | cons head rest ih =>
    obtain ⟨k', x'⟩ := head
    obtain ⟨hHead, hRest⟩ := List.pairwise_cons.mp h
    rw [assignEntries]
    split
    · rename_i hLt
      refine List.pairwise_cons.mpr ⟨fun a ha => ?_, h⟩
      obtain rfl | ha := List.mem_cons.mp ha
      · exact hLt
      · exact hLt.trans (hHead a ha)
    · split
      · rename_i hEq
        exact List.pairwise_cons.mpr ⟨fun a ha => hEq ▸ hHead a ha, hRest⟩
      · rename_i hLt hNe
        refine List.pairwise_cons.mpr ⟨fun a ha => ?_, ih hRest⟩
        obtain rfl | ⟨_, ha⟩ := (mem_assignEntries hRest).mp ha
        · exact lt_of_le_of_ne (not_lt.mp hLt) (Ne.symm hNe)
        · exact hHead a ha

namespace OrderedMap

def empty : OrderedMap κ ν := ⟨[], .nil⟩

/-- Assignment through the subscript operator. -/
def assign (m : OrderedMap κ ν) (k : κ) (x : ν) : OrderedMap κ ν :=
  ⟨assignEntries k x m.entries, assignEntries_ordered k x m.ordered⟩

def lookup (m : OrderedMap κ ν) (k : κ) : Option ν := (m.entries.find? (fun e => e.1 = k)).map Prod.snd

/-- Reading through the subscript operator inserts the default at an absent key. -/
def index (m : OrderedMap κ ν) (k : κ) (absent : ν) : OrderedMap κ ν × ν :=
  match m.lookup k with
  | some x => (m, x)
  | none => (m.assign k absent, absent)

def values (m : OrderedMap κ ν) : List ν := m.entries.map Prod.snd

theorem ext_entries {m m' : OrderedMap κ ν} (h : m.entries = m'.entries) : m = m' := by
  cases m; cases m'; cases h; rfl

theorem entry_unique (m : OrderedMap κ ν) {k : κ} {x y : ν}
    (hx : (k, x) ∈ m.entries) (hy : (k, y) ∈ m.entries) : x = y := by
  have hNodup : (m.entries.map Prod.fst).Nodup :=
    List.pairwise_map.mpr (m.ordered.imp fun h => h.ne)
  have hEq := List.inj_on_of_nodup_map hNodup hx hy rfl
  exact congrArg Prod.snd hEq

theorem lookup_eq_some_iff {m : OrderedMap κ ν} {k : κ} {x : ν} :
    m.lookup k = some x ↔ (k, x) ∈ m.entries := by
  rw [lookup, Option.map_eq_some_iff]
  constructor
  · rintro ⟨⟨k', x'⟩, hFind, rfl⟩
    have hKey : k' = k := by simpa using List.find?_some hFind
    exact hKey ▸ List.mem_of_find?_eq_some hFind
  · intro h
    cases hFind : m.entries.find? (fun e => e.1 = k) with
    | none => simpa using List.find?_eq_none.mp hFind _ h
    | some e =>
      obtain ⟨k', x'⟩ := e
      have hKey : k' = k := by simpa using List.find?_some hFind
      subst hKey
      exact ⟨_, rfl, m.entry_unique (List.mem_of_find?_eq_some hFind) h⟩

theorem mem_assign {m : OrderedMap κ ν} {k : κ} {x : ν} {e : κ × ν} :
    e ∈ (m.assign k x).entries ↔ e = (k, x) ∨ e.1 ≠ k ∧ e ∈ m.entries := mem_assignEntries m.ordered

@[simp] theorem lookup_empty (k : κ) : (empty : OrderedMap κ ν).lookup k = none := rfl

theorem lookup_assign (m : OrderedMap κ ν) (k k' : κ) (x : ν) :
    (m.assign k x).lookup k' = if k' = k then some x else m.lookup k' := by
  apply Option.ext
  intro y
  rw [lookup_eq_some_iff, mem_assign]
  split
  · rename_i hEq
    simp [hEq, eq_comm]
  · rename_i hNe
    simp [hNe, lookup_eq_some_iff]

@[simp] theorem lookup_assign_self (m : OrderedMap κ ν) (k : κ) (x : ν) :
    (m.assign k x).lookup k = some x := by rw [lookup_assign, if_pos rfl]

theorem index_of_lookup {m : OrderedMap κ ν} {k : κ} {x : ν} (absent : ν) (h : m.lookup k = some x) :
    m.index k absent = (m, x) := by rw [index, h]

theorem mem_values_iff {m : OrderedMap κ ν} {x : ν} : x ∈ m.values ↔ ∃ k, m.lookup k = some x := by
  simp [values, lookup_eq_some_iff]

theorem ext_lookup {m m' : OrderedMap κ ν} (h : ∀ k, m.lookup k = m'.lookup k) : m = m' := by
  have hMem : ∀ e, e ∈ m.entries ↔ e ∈ m'.entries := by
    rintro ⟨k, x⟩
    rw [← lookup_eq_some_iff, ← lookup_eq_some_iff, h k]
  have hNodup (n : OrderedMap κ ν) : n.entries.Nodup :=
    n.ordered.imp fun hLt he => hLt.ne (congrArg Prod.fst he)
  have hPerm : m.entries.Perm m'.entries :=
    (List.perm_ext_iff_of_nodup (hNodup m) (hNodup m')).mpr hMem
  exact ext_entries (hPerm.eq_of_pairwise
    (fun a b _ _ hab hba => absurd hab (not_lt.mpr hba.le)) m.ordered m'.ordered)

end OrderedMap

/-! ## Multimaps -/

namespace Multimap

def empty : Multimap κ ν := ⟨[], .nil⟩

/-- A new entry goes behind the entries of an equal key. -/
def insert (m : Multimap κ ν) (e : κ × ν) : Multimap κ ν :=
  ⟨insertUpper Prod.fst e m.entries, insertUpper_sorted Prod.fst e m.ordered⟩

def eraseFront (m : Multimap κ ν) (it : Nat) : Multimap κ ν :=
  ⟨m.entries.drop it, m.ordered.sublist (List.drop_sublist _ _)⟩

@[simp] theorem entries_insertAll (m : Multimap κ ν) (es : List (κ × ν)) :
    (es.foldl insert m).entries = insertAll Prod.fst m.entries es := by
  induction es generalizing m with
  | nil => rfl
  | cons e es ih => exact ih (m.insert e)

end Multimap

/-! ## The least value of a scan -/

section Scan

variable [LinearOrder ν]

def scanMin (start : ν) (l : List ν) : ν := l.foldl (fun low x => if x < low then x else low) start

theorem scanMin_isLeast (start : ν) (l : List ν) : IsLeast {x | x ∈ start :: l} (scanMin start l) := by
  induction l generalizing start with
  | nil => simp [scanMin]
  | cons x l ih =>
    have hNext := ih (if x < start then x else start)
    change IsLeast _ (scanMin (if x < start then x else start) l)
    split at hNext
    · rename_i hLt
      rw [if_pos hLt]
      constructor
      · exact List.mem_cons_of_mem _ hNext.1
      · intro y hy
        obtain rfl | hy := List.mem_cons.mp hy
        · exact (hNext.2 List.mem_cons_self).trans hLt.le
        · exact hNext.2 hy
    · rename_i hLe
      rw [if_neg hLe]
      constructor
      · obtain h | h := List.mem_cons.mp hNext.1
        · exact List.mem_cons.mpr (.inl h)
        · exact List.mem_cons_of_mem _ (List.mem_cons_of_mem _ h)
      · intro y hy
        obtain rfl | hy := List.mem_cons.mp hy
        · exact hNext.2 List.mem_cons_self
        obtain rfl | hy := List.mem_cons.mp hy
        · exact (hNext.2 List.mem_cons_self).trans (not_lt.mp hLe)
        · exact hNext.2 (List.mem_cons_of_mem _ hy)

theorem scanMin_isLeast_of_mem {start : ν} {l : List ν} (h : start ∈ l) :
    IsLeast {x | x ∈ l} (scanMin start l) := by
  have hSet : {x | x ∈ start :: l} = {x | x ∈ l} := by
    ext x
    exact List.mem_cons.trans (or_iff_right_of_imp fun hx => hx ▸ h)
  exact hSet ▸ scanMin_isLeast start l

end Scan

end CStabilizer.Library.Containers
