import CStabilizer.Library.Splits

/-! # Machines that take inputs

A machine takes one input after the other, and takes no step on an input that is
not possible in its state. What holds at the start and is preserved by every
step holds in every state reached. -/

namespace CStabilizer.Library

open CStabilizer.Library.Splits

universe u v w

structure Machine (σ : Type u) (ι : Type v) where
  init : σ
  step : σ → ι → Option σ

namespace Machine

variable {σ : Type u} {ι : Type v} {τ : Type w} {m : Machine σ ι}

def run (m : Machine σ ι) (inputs : List ι) : Option σ := inputs.foldlM m.step m.init

/-- A condition on the steps of a run, each with the state before it. -/
def Meets (m : Machine σ ι) (cond : σ → ι → Prop) (inputs : List ι) : Prop :=
  Stepwise (fun before input => ∀ s, m.run before = some s → cond s input) inputs

theorem run_concat (inputs : List ι) (input : ι) :
    m.run (inputs ++ [input]) = (m.run inputs).bind (m.step · input) := by
  rw [Machine.run, Machine.run, List.foldlM_append]
  simp

/-- A run goes on from the state that is reached. -/
theorem run_append {inputs : List ι} {s : σ} (h : m.run inputs = some s) (rest : List ι) :
    m.run (inputs ++ rest) = rest.foldlM m.step s := by
  have hRun : inputs.foldlM m.step m.init = some s := h
  rw [Machine.run, List.foldlM_append, hRun]
  rfl

theorem run_append_eq_some {before after : List ι} {s' : σ} :
    m.run (before ++ after) = some s' ↔
      ∃ s, m.run before = some s ∧ after.foldlM m.step s = some s' := by
  rw [Machine.run, List.foldlM_append]
  exact Option.bind_eq_some_iff

theorem run_concat_eq_some {inputs : List ι} {input : ι} {s' : σ} :
    m.run (inputs ++ [input]) = some s' ↔
      ∃ s, m.run inputs = some s ∧ m.step s input = some s' := by
  rw [run_concat, Option.bind_eq_some_iff]

theorem meets_nil {cond : σ → ι → Prop} : m.Meets cond [] := stepwise_nil

theorem meets_true (inputs : List ι) : m.Meets (fun _ _ => True) inputs :=
  fun _ _ _ _ _ _ => trivial

theorem meets_concat {cond : σ → ι → Prop} {inputs : List ι} {input : ι} :
    m.Meets cond (inputs ++ [input]) ↔
      m.Meets cond inputs ∧ ∀ s, m.run inputs = some s → cond s input :=
  stepwise_concat

theorem Meets.mono {cond cond' : σ → ι → Prop} {inputs : List ι} (h : m.Meets cond inputs)
    (hCond : ∀ s input, cond s input → cond' s input) : m.Meets cond' inputs :=
  fun before input after hSplit s hRun => hCond s input (h before input after hSplit s hRun)

theorem Meets.front {cond : σ → ι → Prop} {before after : List ι}
    (h : m.Meets cond (before ++ after)) : m.Meets cond before := by
  rintro front input back rfl
  exact h front input (back ++ after) (by simp)

/-- Conditions that agree in every state of a run are met by the same runs. -/
theorem meets_congr {cond cond' : σ → ι → Prop} {inputs : List ι}
    (h : ∀ before input after s, inputs = before ++ input :: after → m.run before = some s →
      (cond s input ↔ cond' s input)) : m.Meets cond inputs ↔ m.Meets cond' inputs := by
  constructor
  · rintro hMeets before input after hSplit s hRun
    exact (h before input after s hSplit hRun).mp (hMeets before input after hSplit s hRun)
  · rintro hMeets before input after hSplit s hRun
    exact (h before input after s hSplit hRun).mpr (hMeets before input after hSplit s hRun)

/-- An invariant of the runs whose steps meet a condition, with the inputs so far in view. -/
theorem Meets.induction {cond : σ → ι → Prop} {P : List ι → σ → Prop} (hInit : P [] m.init)
    (hStep : ∀ inputs s input s', m.run inputs = some s → P inputs s → cond s input →
      m.step s input = some s' → P (inputs ++ [input]) s')
    {inputs : List ι} (h : m.Meets cond inputs) {s : σ} (hRun : m.run inputs = some s) :
    P inputs s := by
  induction inputs using List.reverseRecOn generalizing s with
  | nil => exact Option.some.inj hRun ▸ hInit
  | append_singleton inputs input ih =>
    obtain ⟨hFront, hLast⟩ := meets_concat.mp h
    obtain ⟨s₀, hRun₀, hStep₀⟩ := run_concat_eq_some.mp hRun
    exact hStep inputs s₀ input s hRun₀ (ih hFront hRun₀) (hLast s₀ hRun₀) hStep₀

theorem Meets.invariant {cond : σ → ι → Prop} {I : σ → Prop} (hInit : I m.init)
    (hStep : ∀ s input s', I s → cond s input → m.step s input = some s' → I s')
    {inputs : List ι} (h : m.Meets cond inputs) {s : σ} (hRun : m.run inputs = some s) : I s :=
  h.induction (P := fun _ s => I s) hInit
    (fun _ s input s' _ hI hCond => hStep s input s' hI hCond) hRun

/-- A machine that can take every input which meets the condition, and whose states stay
related to those of an abstract one, follows it over whole runs. -/
theorem Meets.simulation {cond : σ → ι → Prop} {R : σ → τ → Prop} {apply : τ → ι → τ} {a₀ : τ}
    (hInit : R m.init a₀)
    (hStep : ∀ s a input, R s a → cond s input →
      ∃ s', m.step s input = some s' ∧ R s' (apply a input))
    {inputs : List ι} (h : m.Meets cond inputs) :
    ∃ s, m.run inputs = some s ∧ R s (inputs.foldl apply a₀) := by
  induction inputs using List.reverseRecOn with
  | nil => exact ⟨m.init, rfl, hInit⟩
  | append_singleton inputs input ih =>
    obtain ⟨hFront, hLast⟩ := meets_concat.mp h
    obtain ⟨s, hRun, hRelated⟩ := ih hFront
    obtain ⟨s', hStep', hRelated'⟩ := hStep s _ input hRelated (hLast s hRun)
    refine ⟨s', run_concat_eq_some.mpr ⟨s, hRun, hStep'⟩, ?_⟩
    rwa [List.foldl_concat]

theorem invariant {I : σ → Prop} (hInit : I m.init)
    (hStep : ∀ s input s', I s → m.step s input = some s' → I s')
    {inputs : List ι} {s : σ} (hRun : m.run inputs = some s) : I s :=
  (meets_true inputs).invariant hInit (fun s input s' hI _ => hStep s input s' hI) hRun

/-! ## States of a run -/

/-- What holds in every state that a run passes. -/
def Always (m : Machine σ ι) (P : σ → Prop) (inputs : List ι) : Prop :=
  ∀ before, before <+: inputs → ∀ s, m.run before = some s → P s

theorem always_nil {P : σ → Prop} : m.Always P [] ↔ P m.init := by
  constructor
  · intro h
    exact h [] List.nil_prefix m.init rfl
  · rintro hInit before hPrefix s hRun
    obtain rfl := List.prefix_nil.mp hPrefix
    exact Option.some.inj hRun ▸ hInit

theorem always_concat {P : σ → Prop} {inputs : List ι} {input : ι} :
    m.Always P (inputs ++ [input]) ↔
      m.Always P inputs ∧ ∀ s, m.run (inputs ++ [input]) = some s → P s := by
  constructor
  · intro h
    constructor
    · intro before hPrefix
      exact h before (hPrefix.trans (List.prefix_append ..))
    · exact h _ List.prefix_rfl
  · rintro ⟨hFront, hLast⟩ before hPrefix
    obtain rfl | hPrefix := List.prefix_concat_iff.mp hPrefix
    · exact hLast
    · exact hFront before hPrefix

/-- What a step preserves exactly under a condition holds all along the runs that meet it. -/
theorem always_iff_meets {P : σ → Prop} {cond : σ → ι → Prop} (hInit : P m.init)
    (hStep : ∀ inputs s input s', m.run inputs = some s → P s → m.step s input = some s' →
      (P s' ↔ cond s input))
    {inputs : List ι} {s : σ} (hRun : m.run inputs = some s) :
    m.Always P inputs ↔ m.Meets cond inputs := by
  induction inputs using List.reverseRecOn generalizing s with
  | nil => exact iff_of_true (always_nil.mpr hInit) meets_nil
  | append_singleton inputs input ih =>
    obtain ⟨s₀, hRun₀, hStep₀⟩ := run_concat_eq_some.mp hRun
    rw [always_concat, meets_concat, ih hRun₀, hRun, hRun₀]
    simp only [Option.some.injEq, forall_eq']
    apply and_congr_right
    intro hMeets
    exact hStep inputs s₀ input s hRun₀ ((ih hRun₀).mpr hMeets inputs List.prefix_rfl s₀ hRun₀) hStep₀

/-- What holds in every state of a part of a run, its last one apart. -/
def Within (m : Machine σ ι) (P : σ → Prop) (before part : List ι) : Prop :=
  ∀ front, front <+: part → front ≠ part → ∀ s, m.run (before ++ front) = some s → P s

theorem within_nil {P : σ → Prop} {before : List ι} : m.Within P before [] :=
  fun _ hPrefix hProper => absurd (List.prefix_nil.mp hPrefix) hProper

theorem within_concat {P : σ → Prop} {before part : List ι} {input : ι} :
    m.Within P before (part ++ [input]) ↔
      m.Within P before part ∧ ∀ s, m.run (before ++ part) = some s → P s := by
  have hNe : part ≠ part ++ [input] := by simp
  constructor
  · intro h
    constructor
    · intro front hPrefix _
      apply h front (hPrefix.trans (List.prefix_append ..))
      rintro rfl
      exact absurd hPrefix.length_le (by simp)
    · exact h part (List.prefix_append ..) hNe
  · rintro ⟨hFront, hLast⟩ front hPrefix hProper
    have hPrefix := (List.prefix_concat_iff.mp hPrefix).resolve_left hProper
    obtain rfl | hNe := eq_or_ne front part
    · exact hLast
    · exact hFront front hPrefix hNe

/-- Induction on a part of a run. -/
theorem Within.induction {P : σ → Prop} {Q : List ι → σ → Prop} {before part : List ι}
    (h : m.Within P before part) (hInit : ∀ s, m.run before = some s → Q [] s)
    (hStep : ∀ front s input s', m.run (before ++ front) = some s → Q front s → P s →
      m.step s input = some s' → Q (front ++ [input]) s')
    {s : σ} (hRun : m.run (before ++ part) = some s) : Q part s := by
  induction part using List.reverseRecOn generalizing s with
  | nil => exact hInit s (List.append_nil before ▸ hRun)
  | append_singleton part input ih =>
    obtain ⟨hFront, hLast⟩ := within_concat.mp h
    rw [← List.append_assoc] at hRun
    obtain ⟨s₀, hRun₀, hStep₀⟩ := run_concat_eq_some.mp hRun
    exact hStep part s₀ input s hRun₀ (ih hFront hRun₀) (hLast s₀ hRun₀) hStep₀

/-! ## Past steps -/

/-- There was an event in a run, and all inputs behind it keep what it stands for. -/
def Since (m : Machine σ ι) (keeps : ι → Prop) (event : σ → ι → Prop) (inputs : List ι) : Prop :=
  ∃ before input after s, inputs = before ++ input :: after ∧ m.run before = some s ∧
    event s input ∧ ∀ later ∈ after, keeps later

section Since

variable {keeps : ι → Prop} {event : σ → ι → Prop} {inputs : List ι}

theorem not_since_nil : ¬m.Since keeps event [] := by
  rintro ⟨before, input, after, s, hSplit, -⟩
  exact absurd hSplit.symm (by simp)

theorem since_concat {input : ι} :
    m.Since keeps event (inputs ++ [input]) ↔
      (m.Since keeps event inputs ∧ keeps input) ∨
        ∃ s, m.run inputs = some s ∧ event s input := by
  constructor
  · rintro ⟨before, x, after, s, hSplit, hRun, hEvent, hKeeps⟩
    obtain rfl | ⟨after, last, rfl⟩ := List.eq_nil_or_concat' after
    · obtain ⟨rfl, hEq⟩ := List.append_inj' hSplit rfl
      cases hEq
      exact .inr ⟨s, hRun, hEvent⟩
    · rw [← List.cons_append, ← List.append_assoc] at hSplit
      obtain ⟨rfl, hEq⟩ := List.append_inj' hSplit rfl
      cases hEq
      refine .inl ⟨⟨before, x, after, s, rfl, hRun, hEvent, ?_⟩, hKeeps input (by simp)⟩
      exact fun later hLater => hKeeps later (List.mem_append_left _ hLater)
  · rintro (⟨⟨before, x, after, s, rfl, hRun, hEvent, hKeeps⟩, hInput⟩ | ⟨s, hRun, hEvent⟩)
    · refine ⟨before, x, after ++ [input], s, by simp, hRun, hEvent, ?_⟩
      intro later hLater
      obtain hLater | hLater := List.mem_append.mp hLater
      · exact hKeeps later hLater
      · exact List.mem_singleton.mp hLater ▸ hInput
    · exact ⟨inputs, input, [], s, rfl, hRun, hEvent, by simp⟩

/-- Inputs that are no events come behind those that are. -/
theorem Since.of_append {rest : List ι} (h : m.Since keeps event (inputs ++ rest))
    (hRest : ∀ input ∈ rest, ∀ s, ¬event s input) : m.Since keeps event inputs := by
  induction rest using List.reverseRecOn with
  | nil => exact List.append_nil inputs ▸ h
  | append_singleton rest input ih =>
    rw [← List.append_assoc] at h
    obtain ⟨hSince, -⟩ | ⟨s, -, hEvent⟩ := since_concat.mp h
    · exact ih hSince fun x hx => hRest x (List.mem_append_left _ hx)
    · exact absurd hEvent (hRest input (by simp) s)

end Since

/-! ## Checked runs -/

section Check

variable (cond : σ → ι → Prop) [∀ s input, Decidable (cond s input)]

/-- Follows a run from a state and tests the condition on the way. -/
def check (m : Machine σ ι) : σ → List ι → Bool
  | _, [] => true
  | s, input :: rest => decide (cond s input) && (m.step s input).all (check m · rest)

theorem check_append {s : σ} {inputs rest : List ι} (h : check cond m s (inputs ++ rest) = true)
    {s' : σ} (hRun : inputs.foldlM m.step s = some s') : check cond m s' rest = true := by
  induction inputs generalizing s with
  | nil => exact Option.some.inj hRun ▸ h
  | cons input inputs ih =>
    obtain ⟨s₁, hStep, hRest⟩ := Option.bind_eq_some_iff.mp hRun
    have hAll := (Bool.and_eq_true_iff.mp h).2
    rw [hStep] at hAll
    exact ih hAll hRest

theorem meets_of_check {inputs : List ι} (h : check cond m m.init inputs = true) :
    m.Meets cond inputs := by
  rintro before input after rfl s hRun
  have hRest := check_append cond h hRun
  exact of_decide_eq_true (Bool.and_eq_true_iff.mp hRest).1

theorem within_of_check {P : σ → Prop} [DecidablePred P] {before part : List ι} {s : σ}
    (hRun : m.run before = some s) (h : check (fun s _ => P s) m s part = true) :
    m.Within P before part := by
  rintro front ⟨rest, rfl⟩ hProper s' hRun'
  rw [run_append hRun] at hRun'
  have hRest := check_append (fun s _ => P s) h hRun'
  cases rest with
  | nil => exact absurd (List.append_nil front).symm hProper
  | cons input rest => exact of_decide_eq_true (Bool.and_eq_true_iff.mp hRest).1

theorem always_of_check {P : σ → Prop} [DecidablePred P] {inputs : List ι} {s : σ}
    (hRun : m.run inputs = some s) (h : check (fun s _ => P s) m m.init inputs = true)
    (hLast : P s) : m.Always P inputs := by
  have hWithin : m.Within P [] inputs := within_of_check rfl h
  intro front hPrefix s' hRun'
  obtain rfl | hNe := eq_or_ne front inputs
  · exact Option.some.inj (hRun.symm.trans hRun') ▸ hLast
  · exact hWithin front hPrefix hNe s' hRun'

end Check

end Machine

end CStabilizer.Library
