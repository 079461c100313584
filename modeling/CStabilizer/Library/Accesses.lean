import Mathlib

/-! # Code as single accesses

Code reads and writes one location after the other, and what it does next depends
on what it has read. A location without a value is not allocated, and an access to
it fails. The footprint of a run is what it accesses. -/

namespace CStabilizer.Library.Accesses

universe u v w

variable {Loc : Type u} {Val : Loc → Type v} {ρ : Type w}

abbrev Memory (Val : Loc → Type v) := (l : Loc) → Option (Val l)

inductive Code (Val : Loc → Type v) (ρ : Type w) where
  | done (r : ρ)
  | fault
  | read (l : Loc) (k : Val l → Code Val ρ)
  | write (l : Loc) (v : Val l) (k : Code Val ρ)

structure Access (Loc : Type u) where
  location : Loc
  isWrite : Bool

def Access.Conflicts (a b : Access Loc) : Prop :=
  a.location = b.location ∧ (a.isWrite = true ∨ b.isWrite = true)

namespace Code

def bind {σ : Type w} : Code Val ρ → (ρ → Code Val σ) → Code Val σ
  | done r, f => f r
  | fault, _ => fault
  | read l k, f => read l fun v => (k v).bind f
  | write l v k, f => write l v (k.bind f)

instance instMonad : Monad (Code.{u, v, w} Val) where
  pure := done
  bind := bind

@[simp] theorem pure_eq (r : ρ) : (pure r : Code Val ρ) = done r := rfl

section Bind

variable {σ : Type w}

@[simp] theorem done_bind (r : ρ) (f : ρ → Code Val σ) : (done r >>= f) = f r := rfl

@[simp] theorem fault_bind (f : ρ → Code Val σ) : (fault >>= f) = fault := rfl

@[simp] theorem read_bind (l : Loc) (k : Val l → Code Val ρ) (f : ρ → Code Val σ) :
    (read l k >>= f) = read l fun v => k v >>= f := rfl

@[simp] theorem write_bind (l : Loc) (v : Val l) (k : Code Val ρ) (f : ρ → Code Val σ) :
    (write l v k >>= f) = write l v (k >>= f) := rfl

end Bind

/-- The access that is next. -/
def access : Code Val ρ → Option (Access Loc)
  | done _ | fault => none
  | read l _ => some ⟨l, false⟩
  | write l _ _ => some ⟨l, true⟩

variable [DecidableEq Loc]

/-- One access. -/
def next : Code Val ρ → Memory Val → Option (Code Val ρ × Memory Val)
  | done _, _ | fault, _ => none
  | read l k, m => (m l).map fun v => (k v, m)
  | write l v k, m => (m l).map fun _ => (k, Function.update m l (some v))

/-- All accesses, if none fails. -/
def run : Code Val ρ → Memory Val → Option (ρ × Memory Val)
  | done r, m => some (r, m)
  | fault, _ => none
  | read l k, m => match m l with
    | none => none
    | some v => (k v).run m
  | write l v k, m => match m l with
    | none => none
    | some _ => k.run (Function.update m l (some v))

def footprint : Code Val ρ → Memory Val → Set Loc
  | done _, _ | fault, _ => ∅
  | read l k, m => insert l (match m l with
    | none => ∅
    | some v => (k v).footprint m)
  | write l v k, m => insert l (k.footprint (Function.update m l (some v)))

section Equations

variable {l : Loc} {v : Val l} {m : Memory Val}

@[simp] theorem run_done (r : ρ) : (done r : Code Val ρ).run m = some (r, m) := rfl

@[simp] theorem run_fault : (fault : Code Val ρ).run m = none := rfl

theorem run_read {k : Val l → Code Val ρ} (h : m l = some v) : (read l k).run m = (k v).run m := by
  rw [run, h]

theorem run_write {k : Code Val ρ} (h : (m l).isSome) :
    (write l v k).run m = k.run (Function.update m l (some v)) := by
  obtain ⟨old, hOld⟩ := Option.isSome_iff_exists.mp h
  rw [run, hOld]

@[simp] theorem footprint_done (r : ρ) : (done r : Code Val ρ).footprint m = ∅ := rfl

theorem footprint_read {k : Val l → Code Val ρ} (h : m l = some v) :
    (read l k).footprint m = insert l ((k v).footprint m) := by
  rw [footprint, h]

@[simp] theorem footprint_write {k : Code Val ρ} :
    (write l v k).footprint m = insert l (k.footprint (Function.update m l (some v))) := rfl

end Equations

variable {c c' : Code Val ρ} {m m' m₁ : Memory Val} {r : ρ}

theorem run_read_eq_some {l : Loc} {k : Val l → Code Val ρ} :
    (read l k).run m = some (r, m₁) ↔ ∃ v, m l = some v ∧ (k v).run m = some (r, m₁) := by
  cases h : m l with
  | none => simp [run, h]
  | some v => simp [run_read h]

theorem run_write_eq_some {l : Loc} {v : Val l} {k : Code Val ρ} :
    (write l v k).run m = some (r, m₁) ↔
      (m l).isSome ∧ k.run (Function.update m l (some v)) = some (r, m₁) := by
  cases h : m l with
  | none => simp [run, h]
  | some old => simp [run_write (v := v) (k := k) (h ▸ rfl : (m l).isSome)]

theorem run_bind {σ : Type w} (f : ρ → Code Val σ) (m : Memory Val) :
    (c >>= f).run m = (c.run m).bind fun x => (f x.1).run x.2 := by
  induction c generalizing m with
  | done r => rfl
  | fault => rfl
  | read l k ih =>
    cases h : m l with
    | none => simp [run, h]
    | some v => rw [read_bind, run_read h, run_read h, ih]
  | write l v k ih =>
    cases h : m l with
    | none => simp [run, h]
    | some old =>
      have hSome : (m l).isSome := by rw [h]; rfl
      rw [write_bind, run_write hSome, run_write hSome, ih]

theorem footprint_bind {σ : Type w} (h : c.run m = some (r, m₁)) (f : ρ → Code Val σ) :
    (c >>= f).footprint m = c.footprint m ∪ (f r).footprint m₁ := by
  induction c generalizing m with
  | done r' => cases h; rw [done_bind, footprint_done, Set.empty_union]
  | fault => cases h
  | read l k ih =>
    obtain ⟨v, hRead, hRun⟩ := run_read_eq_some.mp h
    rw [read_bind, footprint_read hRead, footprint_read hRead, ih v hRun, Set.insert_union]
  | write l v k ih =>
    obtain ⟨-, hRun⟩ := run_write_eq_some.mp h
    rw [write_bind, footprint_write, footprint_write, ih hRun, Set.insert_union]

/-- A write leaves the same locations allocated. -/
theorem isSome_update {l : Loc} (v : Val l) (h : (m l).isSome) (l' : Loc) :
    (Function.update m l (some v) l').isSome = (m l').isSome := by
  by_cases hEq : l' = l
  · subst hEq
    rw [Function.update_self, h]
    rfl
  · rw [Function.update_of_ne hEq]

/-- Reads and writes allocate nothing and free nothing. -/
theorem isSome_of_run (h : c.run m = some (r, m₁)) (l : Loc) : (m₁ l).isSome = (m l).isSome := by
  induction c generalizing m with
  | done r' => cases h; rfl
  | fault => cases h
  | read l' k ih =>
    obtain ⟨v, -, hRun⟩ := run_read_eq_some.mp h
    exact ih v hRun
  | write l' v k ih =>
    obtain ⟨hSome, hRun⟩ := run_write_eq_some.mp h
    rw [ih hRun, isSome_update v hSome]

theorem allocated_of_run (h : c.run m = some (r, m₁)) {l : Loc} (hl : l ∈ c.footprint m) :
    (m l).isSome := by
  induction c generalizing m with
  | done r' => cases hl
  | fault => cases h
  | read l' k ih =>
    obtain ⟨v, hRead, hRun⟩ := run_read_eq_some.mp h
    rw [footprint_read hRead] at hl
    obtain rfl | hl := hl
    · rw [hRead]
      rfl
    · exact ih v hRun hl
  | write l' v k ih =>
    obtain ⟨hSome, hRun⟩ := run_write_eq_some.mp h
    obtain rfl | hl := hl
    · exact hSome
    · rw [← isSome_update v hSome]
      exact ih hRun hl

/-- A run changes nothing outside its footprint. -/
theorem run_frame (h : c.run m = some (r, m₁)) {l : Loc} (hl : l ∉ c.footprint m) :
    m₁ l = m l := by
  induction c generalizing m with
  | done r' => cases h; rfl
  | fault => cases h
  | read l' k ih =>
    obtain ⟨v, hRead, hRun⟩ := run_read_eq_some.mp h
    rw [footprint_read hRead, Set.mem_insert_iff, not_or] at hl
    exact ih v hRun hl.2
  | write l' v k ih =>
    obtain ⟨-, hRun⟩ := run_write_eq_some.mp h
    rw [footprint_write, Set.mem_insert_iff, not_or] at hl
    rw [ih hRun hl.2, Function.update_of_ne hl.1]

/-- A run depends on nothing outside its footprint. -/
theorem run_agree {S : Set Loc} (h : c.run m = some (r, m₁)) (hSub : c.footprint m ⊆ S)
    (hSame : ∀ l ∈ S, m' l = m l) :
    ∃ m₁', c.run m' = some (r, m₁') ∧ c.footprint m' = c.footprint m ∧ ∀ l ∈ S, m₁' l = m₁ l := by
  induction c generalizing m m' with
  | done r' => cases h; exact ⟨m', rfl, rfl, hSame⟩
  | fault => cases h
  | read l k ih =>
    obtain ⟨v, hRead, hRun⟩ := run_read_eq_some.mp h
    rw [footprint_read hRead] at hSub ⊢
    have hRead' : m' l = some v := (hSame l (hSub (Set.mem_insert ..))).trans hRead
    obtain ⟨m₁', hRun', hFootprint, hAgree⟩ :=
      ih v hRun (fun l hl => hSub (Set.mem_insert_of_mem _ hl)) hSame
    exact ⟨m₁', run_read hRead' ▸ hRun', by rw [footprint_read hRead', hFootprint], hAgree⟩
  | write l v k ih =>
    obtain ⟨hSome, hRun⟩ := run_write_eq_some.mp h
    rw [footprint_write] at hSub ⊢
    have hSome' : (m' l).isSome := by rwa [hSame l (hSub (Set.mem_insert ..))]
    have hSame' : ∀ l' ∈ S,
        Function.update m' l (some v) l' = Function.update m l (some v) l' := by
      intro l' hl'
      by_cases hEq : l' = l
      · subst hEq
        rw [Function.update_self, Function.update_self]
      · rw [Function.update_of_ne hEq, Function.update_of_ne hEq, hSame l' hl']
    obtain ⟨m₁', hRun', hFootprint, hAgree⟩ :=
      ih hRun (fun l hl => hSub (Set.mem_insert_of_mem _ hl)) hSame'
    exact ⟨m₁', run_write_eq_some.mpr ⟨hSome', hRun'⟩, by rw [footprint_write, hFootprint], hAgree⟩

/-- An access is the first one of the run that it leaves. -/
theorem next_spec (h : c.next m = some (c', m')) :
    ∃ l, c.run m = c'.run m' ∧ c.footprint m = insert l (c'.footprint m') ∧
      ∀ l', l' ≠ l → m' l' = m l' := by
  cases c with
  | done r' => cases h
  | fault => cases h
  | read l k =>
    obtain ⟨v, hRead, hEq⟩ := Option.map_eq_some_iff.mp h
    cases hEq
    exact ⟨l, run_read hRead, footprint_read hRead, fun _ _ => rfl⟩
  | write l v k =>
    obtain ⟨old, hOld, hEq⟩ := Option.map_eq_some_iff.mp h
    cases hEq
    exact ⟨l, run_write (by rw [hOld]; rfl), rfl, fun l' hNe => Function.update_of_ne hNe ..⟩

theorem progress_of_run (h : c.run m = some (r, m₁)) : c = done r ∨ (c.next m).isSome := by
  cases c with
  | done r' => cases h; exact .inl rfl
  | fault => cases h
  | read l k =>
    obtain ⟨v, hRead, -⟩ := run_read_eq_some.mp h
    exact .inr (by rw [next, hRead]; rfl)
  | write l v k =>
    obtain ⟨hSome, -⟩ := run_write_eq_some.mp h
    exact .inr (by rwa [next, Option.isSome_map])

theorem mem_footprint_of_access {a : Access Loc} (h : c.access = some a) (m : Memory Val) :
    a.location ∈ c.footprint m := by
  cases c with
  | done r' => cases h
  | fault => cases h
  | read l k =>
    cases h
    rw [footprint]
    exact Set.mem_insert ..
  | write l v k =>
    cases h
    exact Set.mem_insert ..

end Code

end CStabilizer.Library.Accesses
