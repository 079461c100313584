import CStabilizer.Library.Machine

/-! # Totals along a run

Every step of a run has a cost. What each step balances is balanced over any part of
the run, by the totals of the costs. -/

namespace CStabilizer.Library.Machine

universe u v

variable {σ : Type u} {ι : Type v} {m : Machine σ ι}

/-- The cost of a part of a run, from the state it starts in. -/
def total (m : Machine σ ι) (cost : σ → ι → Nat) : σ → List ι → Nat
  | _, [] => 0
  | s, input :: rest => cost s input + (m.step s input).elim 0 (total m cost · rest)

theorem total_nil (cost : σ → ι → Nat) (s : σ) : m.total cost s [] = 0 := rfl

theorem total_cons {cost : σ → ι → Nat} {s s' : σ} {input : ι} (h : m.step s input = some s')
    (rest : List ι) : m.total cost s (input :: rest) = cost s input + m.total cost s' rest := by
  rw [total, h, Option.elim_some]

theorem total_concat {cost : σ → ι → Nat} {s s' : σ} {inputs : List ι} (input : ι)
    (h : inputs.foldlM m.step s = some s') :
    m.total cost s (inputs ++ [input]) = m.total cost s inputs + cost s' input := by
  induction inputs generalizing s with
  | nil =>
    obtain rfl := Option.some.inj h
    cases hStep : m.step s input <;> simp [total, hStep]
  | cons first inputs ih =>
    obtain ⟨s₁, hStep, hRest⟩ := Option.bind_eq_some_iff.mp h
    rw [List.cons_append, total_cons hStep, total_cons hStep, ih hRest, Nat.add_assoc]

theorem total_add (c d : σ → ι → Nat) (s : σ) (inputs : List ι) :
    m.total (fun s input => c s input + d s input) s inputs =
      m.total c s inputs + m.total d s inputs := by
  induction inputs generalizing s with
  | nil => rfl
  | cons input inputs ih =>
    cases hStep : m.step s input with
    | none => simp [total, hStep]
    | some s' =>
      rw [total_cons hStep, total_cons hStep, total_cons hStep, ih]
      omega

theorem total_zero (s : σ) (inputs : List ι) : m.total (fun _ _ => 0) s inputs = 0 := by
  induction inputs generalizing s with
  | nil => rfl
  | cons input inputs ih =>
    cases hStep : m.step s input with
    | none => simp [total, hStep]
    | some s' => rw [total_cons hStep, ih]

/-- A potential that each step raises by no more than what it costs beyond what it yields. -/
theorem Meets.total_le {cond : σ → ι → Prop} {Φ : σ → Int} {g c : σ → ι → Nat}
    (hStep : ∀ inputs s input s', m.Meets cond inputs → m.run inputs = some s → cond s input →
      m.step s input = some s' → Φ s' + g s input ≤ Φ s + c s input)
    {before after : List ι} (h : m.Meets cond (before ++ after)) {s s' : σ}
    (hBefore : m.run before = some s) (hRun : m.run (before ++ after) = some s') :
    Φ s' + m.total g s after ≤ Φ s + m.total c s after := by
  induction after using List.reverseRecOn generalizing s' with
  | nil =>
    rw [List.append_nil, hBefore] at hRun
    obtain rfl := Option.some.inj hRun
    rw [total_nil, total_nil]
  | append_singleton after input ih =>
    rw [← List.append_assoc] at h hRun
    obtain ⟨hFront, hLast⟩ := meets_concat.mp h
    obtain ⟨s₁, hRun₁, hInput⟩ := run_concat_eq_some.mp hRun
    have hAfter : after.foldlM m.step s = some s₁ := run_append hBefore after ▸ hRun₁
    have hTotal := ih hFront hRun₁
    have hLastStep := hStep (before ++ after) s₁ input s' hFront hRun₁ (hLast s₁ hRun₁) hInput
    rw [total_concat input hAfter, total_concat input hAfter]
    push_cast
    omega

end CStabilizer.Library.Machine
