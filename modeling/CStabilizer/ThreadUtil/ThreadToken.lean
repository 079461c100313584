import CStabilizer.Library.Splits
import CStabilizer.ThreadUtil.FlowControl

/-! # The thread token

Any number of threads wait for a signal and send signals. A signal that nobody waits
for stays in the token, two of them are one, and a wait that ends uses up what is
there. -/

namespace CStabilizer.ThreadUtil

open CStabilizer.Library.ConditionVariable CStabilizer.Library.Splits

universe u

variable {T : Type u} [DecidableEq T]

structure ThreadToken (T : Type u) where
  isPreviousProcessed : Bool
  waiters : Finset T

namespace ThreadToken

def waitForSignal (t : T) (token : ThreadToken T) : Section → ThreadToken T → Prop
  | .waits, token' => token.isPreviousProcessed = false ∧
      token' = { token with waiters := insert t token.waiters }
  | .leaves, token' => token.isPreviousProcessed = true ∧
      token' = { token with isPreviousProcessed := false }

def sendSignal (token token' : ThreadToken T) : Prop :=
  ∃ waiters, Signal token.waiters waiters ∧ token' = ⟨true, waiters⟩

inductive Event (T : Type u) where
  | signalled
  | passed (t : T)

end ThreadToken

open ThreadToken

/-- The token with the threads that are behind their first wait, and what has happened so far. -/
structure TokenSystem (T : Type u) where
  token : ThreadToken T
  waiting : Finset T
  history : List (ThreadToken.Event T)

namespace TokenSystem

def init : TokenSystem T := ⟨⟨false, ∅⟩, ∅, []⟩

/-- A thread calls `WaitForSignal`, or runs again inside it. -/
def Tests (sys : TokenSystem T) (t : T) : Prop := t ∉ sys.waiting ∨ t ∉ sys.token.waiters

inductive Step : TokenSystem T → TokenSystem T → Prop
  | waits {sys : TokenSystem T} {t : T} {token : ThreadToken T} (h : sys.Tests t)
      (hToken : waitForSignal t sys.token .waits token) :
      Step sys { sys with token, waiting := insert t sys.waiting }
  | leaves {sys : TokenSystem T} {t : T} {token : ThreadToken T} (h : sys.Tests t)
      (hToken : waitForSignal t sys.token .leaves token) :
      Step sys { sys with
        token, waiting := sys.waiting.erase t, history := sys.history ++ [.passed t] }
  | sendSignal {sys : TokenSystem T} {token : ThreadToken T}
      (hToken : ThreadToken.sendSignal sys.token token) :
      Step sys { sys with token, history := sys.history ++ [.signalled] }
  | spuriousWakeup {sys : TokenSystem T} {t : T} (h : t ∈ sys.token.waiters) :
      Step sys { sys with token := { sys.token with waiters := sys.token.waiters.erase t } }

/-- The token holds the last signal until a wait ends, and while it holds one not all that wait
are asleep. -/
structure Holds (sys : TokenSystem T) : Prop where
  sleeping : sys.token.waiters ⊆ sys.waiting
  pending : sys.token.isPreviousProcessed = true ↔ sys.history.getLast? = some .signalled
  used : Stepwise (fun before event => ∀ t, event = .passed t → before.getLast? = some .signalled)
    sys.history
  awake : sys.token.isPreviousProcessed = true → sys.token.waiters.Nonempty →
    ∃ t ∈ sys.waiting, t ∉ sys.token.waiters

omit [DecidableEq T] in
theorem holds_init : (init : TokenSystem T).Holds where
  sleeping := Finset.Subset.refl _
  pending := by simp [init]
  used := stepwise_nil
  awake h := by cases h

variable {sys sys' : TokenSystem T}

omit [DecidableEq T] in
theorem Holds.tests_not_mem (h : sys.Holds) {t : T} (hTests : sys.Tests t) :
    t ∉ sys.token.waiters :=
  hTests.elim (fun hNot hMem => hNot (h.sleeping hMem)) id

theorem Holds.sendSignal (h : sys.Holds) {waiters : Finset T}
    (hSignal : Signal sys.token.waiters waiters) :
    Holds { sys with token := ⟨true, waiters⟩, history := sys.history ++ [.signalled] } := by
  have hUsed : Stepwise (fun before event => ∀ t, event = ThreadToken.Event.passed t →
      before.getLast? = some .signalled) (sys.history ++ [.signalled]) :=
    stepwise_concat.mpr ⟨h.used, fun t hEq => by cases hEq⟩
  generalize hBefore : sys.token.waiters = before at hSignal
  cases hSignal with
  | nobody => exact ⟨Finset.empty_subset _, by simp, hUsed, fun _ hSome => absurd rfl hSome.ne_empty⟩
  | @wake _ t hMem =>
    rw [← hBefore] at hMem ⊢
    exact ⟨(Finset.erase_subset ..).trans h.sleeping, by simp, hUsed,
      fun _ _ => ⟨t, h.sleeping hMem, Finset.notMem_erase t _⟩⟩

theorem Holds.step (h : sys.Holds) (hStep : Step sys sys') : sys'.Holds := by
  cases hStep with
  | @waits t token hTests hToken =>
    obtain ⟨hFalse, rfl⟩ := hToken
    refine ⟨Finset.insert_subset_insert t h.sleeping, h.pending, h.used, fun hTrue => ?_⟩
    rw [hFalse] at hTrue
    cases hTrue
  | @leaves t token hTests hToken =>
    obtain ⟨hTrue, rfl⟩ := hToken
    refine ⟨?_, by simp, ?_, fun hFalse => by cases hFalse⟩
    · exact Finset.subset_erase.mpr ⟨h.sleeping, h.tests_not_mem hTests⟩
    · exact stepwise_concat.mpr ⟨h.used, fun _ _ => h.pending.mp hTrue⟩
  | sendSignal hToken =>
    obtain ⟨waiters, hSignal, rfl⟩ := hToken
    exact h.sendSignal hSignal
  | @spuriousWakeup t hMem =>
    refine ⟨(Finset.erase_subset ..).trans h.sleeping, h.pending, h.used, fun _ _ => ?_⟩
    exact ⟨t, h.sleeping hMem, Finset.notMem_erase t _⟩

theorem holds_of_steps (h : Relation.ReflTransGen Step init sys) : sys.Holds := by
  induction h with
  | refl => exact holds_init
  | tail _ hStep ih => exact ih.step hStep

/-- Every wait that ends follows a signal that no other wait has used, and as long as a signal is
not used and threads wait for it, one of them can go on. -/
theorem token_passes (h : Relation.ReflTransGen Step init sys) :
    (∀ before t after, sys.history = before ++ .passed t :: after →
      before.getLast? = some .signalled) ∧
    (sys.history.getLast? = some .signalled → sys.waiting.Nonempty →
      ∃ t ∈ sys.waiting, ∃ sys', Step sys sys' ∧ sys'.waiting = sys.waiting.erase t ∧
        sys'.history = sys.history ++ [.passed t]) := by
  have hHolds := holds_of_steps h
  refine ⟨fun before t after hSplit => hHolds.used before _ after hSplit t rfl, ?_⟩
  intro hLast hWaiting
  have hTrue := hHolds.pending.mpr hLast
  obtain ⟨t, ht, hAwake⟩ : ∃ t ∈ sys.waiting, t ∉ sys.token.waiters := by
    by_cases hNone : sys.token.waiters.Nonempty
    · exact hHolds.awake hTrue hNone
    · obtain ⟨t, ht⟩ := hWaiting
      exact ⟨t, ht, fun hMem => hNone ⟨t, hMem⟩⟩
  exact ⟨t, ht, _, .leaves (.inr hAwake) ⟨hTrue, rfl⟩, rfl, rfl⟩

theorem token_passes_two : ∃ sys : TokenSystem ℕ, Relation.ReflTransGen Step init sys ∧
    ∃ t ∈ sys.waiting, ∃ sys', Step sys sys' ∧ sys'.history = sys.history ++ [.passed t] := by
  have hRun : ∃ sys : TokenSystem ℕ, Relation.ReflTransGen Step init sys ∧
      sys.history.getLast? = some .signalled ∧ sys.waiting.Nonempty := by
    refine ⟨_, .tail (.tail (.tail .refl (.waits (t := 1) (.inl (by decide)) ⟨rfl, rfl⟩))
      (.waits (t := 2) (.inl (by decide)) ⟨rfl, rfl⟩))
      (.sendSignal ⟨_, .wake (t := 1) (by decide), rfl⟩), rfl, ⟨1, by decide⟩⟩
  obtain ⟨sys, hSteps, hLast, hWaiting⟩ := hRun
  obtain ⟨t, ht, sys', hStep, -, hHistory⟩ := (token_passes hSteps).2 hLast hWaiting
  exact ⟨sys, hSteps, t, ht, sys', hStep, hHistory⟩

end TokenSystem

end CStabilizer.ThreadUtil
