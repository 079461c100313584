import CStabilizer.SocketManager.TimerSkips

/-! # Runs that skip no slot

In a reachable state a step skips an armed slot exactly when its guard fails, so
a run skips none exactly when all its steps are guarded. -/

namespace CStabilizer.TimerWheel

open Library Library.Buckets

variable {w w' : TimerWheel} {s s' : State} {input : Input}

/-! ## What the look-ahead still vouches for -/

/-- While `ReadSockets` runs, the slots before the poll interval hold only timers
that its callbacks created. -/
def State.Scanned (s : State) : Prop :=
  match s.control with
  | .sockets uiPollInterval created =>
    1 ≤ uiPollInterval.toNat ∧ uiPollInterval.toNat ≤ 5 ∧
    (∀ uiInt ∈ created, uiInt.toNat < 4 →
      s.wheel.setTimers ((s.wheel.pos + uiInt.toNat) % maxArraySize) ≠ []) ∧
    (¬s.wheel.LookAheadWraps → ∀ j, j + 1 < uiPollInterval.toNat →
      s.wheel.setTimers ((s.wheel.pos + j) % maxArraySize) ≠ [] →
        ∃ uiInt ∈ created, uiInt.toNat = j)
  | .start | .pass _ | .passCall .. | .fire _ | .fireCall .. => True

theorem scanned_lookAhead (hStep : w.InStep) : w.lookAhead.Scanned := by
  obtain ⟨hPos, hMax, hEmpty⟩ := pollInterval_spec hStep
  refine ⟨hPos, hMax, by simp, fun hWraps j hj hSlot => absurd ?_ hSlot⟩
  exact hEmpty hWraps (w.pos + j) (Nat.le_add_right ..) (by omega)

theorem hop_toNat {n : UInt32} (h : (hop n).toNat < 1023) : (hop n).toNat = n.toNat := by
  unfold hop at *
  split at h
  · rw [if_pos ‹_›]
  · exact absurd h (by decide)

theorem hop_of_lt {n : UInt32} (h : n.toNat < 1024) : hop n = n :=
  if_pos (by rwa [UInt32.lt_iff_toNat_lt])

theorem scanned_createTimer {uiPollInterval uiInt : UInt32} {created : List UInt32}
    {isRepeated : Bool} (hStep : w.InStep)
    (hCreate : w.createTimer uiInt isRepeated = some w')
    (h : State.Scanned ⟨w, .sockets uiPollInterval created⟩) :
    State.Scanned ⟨w', .sockets uiPollInterval (created ++ [uiInt])⟩ := by
  obtain ⟨hPos, hMax, hNew, hOld⟩ := h
  obtain ⟨hCurrent, hSame⟩ := createTimer_positions hCreate
  obtain ⟨b, -, hSlots⟩ := createTimer_slots hCreate
  rw [hStep.slot] at hSlots
  have hKeep {i : Nat} (h : w.setTimers i ≠ []) : w'.setTimers i ≠ [] := by
    obtain ⟨b', hb'⟩ := List.exists_mem_of_ne_nil _ h
    exact List.ne_nil_of_mem ((hSlots i b').mpr (.inl hb'))
  refine ⟨hPos, hMax, ?_, ?_⟩
  · intro uiInt' hMem hLt
    rw [hSame]
    obtain hMem | hMem := List.mem_append.mp hMem
    · exact hKeep (hNew uiInt' hMem hLt)
    · obtain rfl := List.mem_singleton.mp hMem
      refine List.ne_nil_of_mem ((hSlots _ b).mpr (.inr ⟨?_, rfl⟩))
      rw [hop_of_lt (by omega)]
  · intro hWraps j hj hSlot
    change w'.setTimers ((w'.pos + j) % maxArraySize) ≠ [] at hSlot
    rw [hSame] at hSlot
    have hWraps' : ¬w.LookAheadWraps := by
      unfold LookAheadWraps at *
      rwa [hCurrent] at hWraps
    obtain ⟨b', hb'⟩ := List.exists_mem_of_ne_nil _ hSlot
    obtain hb' | ⟨hHop, rfl⟩ := (hSlots _ b').mp hb'
    · obtain ⟨uiInt', hMem, hEq⟩ := hOld hWraps' j hj (List.ne_nil_of_mem hb')
      exact ⟨uiInt', List.mem_append_left _ hMem, hEq⟩
    · refine ⟨uiInt, List.mem_append_right _ List.mem_cons_self, ?_⟩
      have hHopLt := hop_lt uiInt
      have hHopEq : (hop uiInt).toNat = j := by
        unfold maxArraySize at *
        omega
      rw [← hop_toNat (by omega), hHopEq]

theorem scanned_step (hInStep : s.wheel.InStep) (h : s.Scanned) (hStep : Transition s input s') :
    s'.Scanned := by
  cases hStep with
  | @createTimer w w' c uiInt isRepeated hOutside hCreate =>
    cases c with
    | sockets uiPollInterval created => exact scanned_createTimer hInStep hCreate h
    | start | passCall | fireCall => trivial
    | pass | fire => cases hOutside
  | deleteTimer _ hDelete =>
    obtain ⟨-, -, rfl⟩ := deleteTimer_eq_some.mp hDelete
    exact h
  | endPass => exact scanned_lookAhead (hInStep.advance 1)
  | @endFireAll w now => exact scanned_lookAhead (w := (w.endFireAll now).wheel) hInStep
  | start | fireAll | afterSockets | meetDead | meetDue | meetEarly => trivial
  | passReturn | fireDead | fireDue | fireEarly | fireReturn => trivial

/-! ## One step -/

/-- What holds in every state that runs with positive intervals reach. -/
structure Sound (s : State) : Prop where
  owned : s.Owned
  inStep : s.wheel.InStep
  passed : s.Passed
  positive : s.wheel.AllPositive
  scanned : s.Scanned

theorem sound_create : Sound ⟨create, .start⟩ where
  owned := owned_create
  inStep := rfl
  passed hEnd := by cases hEnd
  positive t ht := absurd ht (Nat.not_lt_zero t)
  scanned := trivial

theorem Sound.step (h : Sound s) (hPositive : Positive input) (hStep : Transition s input s') :
    Sound s' where
  owned := h.owned.step hStep
  inStep := hStep.inStep h.inStep
  passed := hStep.passed h.owned h.inStep h.passed
  positive := allPositive_step h.inStep h.positive hPositive hStep
  scanned := scanned_step h.inStep h.scanned hStep

/-- The slot pass leaves nothing behind. -/
theorem Sound.passed_empty {atEnd : Bool} (h : Sound ⟨w, .pass atEnd⟩)
    (hOver : w.passOver atEnd = true) : w.setTimers (w.pos % maxArraySize) = [] := by
  rw [← h.inStep.slot_currentPos]
  obtain hEnd | hEmpty := Bool.or_eq_true_iff.mp hOver
  · apply List.eq_nil_iff_forall_not_mem.mpr
    intro b hb
    exact h.positive _ (h.owned.allocated (slot_lt _) hb) (h.passed hEnd b hb)
  · exact List.isEmpty_iff.mp hEmpty

theorem not_endWraps (h : w.totalDeviation = 0) : ¬w.EndWraps := by
  unfold EndWraps
  rw [h, UInt32.toNat_zero]
  have := w.currentPos.toNat_lt
  omega

theorem Sound.endPass_iff {atEnd : Bool} {now : UInt32} (h : Sound ⟨w, .pass atEnd⟩)
    (hOver : w.passOver atEnd = true) :
    (∀ p, w.pos ≤ p → p < (w.endPass now).wheel.pos →
      (w.endPass now).wheel.setTimers (p % maxArraySize) = []) ↔
    ((w.ticked now).EndWraps →
      EmptyAhead w (w.pos + 1) (w.ticked now).totalDeviation.toNat) := by
  have hHere := h.passed_empty hOver
  have hTicked : (w.ticked now).InStep := h.inStep.advance 1
  obtain hOnTime | hLate := eq_or_ne (w.ticked now).totalDeviation 0
  · have hEnd : w.endPass now = (w.ticked now).lookAhead := by
      have hNotLate : ¬(w.ticked now).totalDeviation > 0 := by
        rw [hOnTime]
        decide
      exact if_neg hNotLate
    rw [hEnd]
    refine iff_of_true (fun p hLe hLt => ?_) fun hWraps => absurd hWraps (not_endWraps hOnTime)
    change p < w.pos + 1 at hLt
    rw [Nat.le_antisymm (Nat.le_of_lt_succ hLt) hLe]
    exact hHere
  · have hEnd : w.endPass now = ⟨(w.ticked now).collect.1, .fire (w.ticked now).collect.2⟩ := by
      apply if_pos
      rw [gt_iff_lt, UInt32.lt_iff_toNat_lt]
      exact Nat.pos_of_ne_zero fun hZero => hLate (UInt32.toNat_inj.mp hZero)
    rw [hEnd]
    by_cases hWraps : (w.ticked now).EndWraps
    · -- Nothing is collected, so the slots behind are as they were
      rw [collect_eq_of_wraps hWraps]
      change (∀ p, w.pos ≤ p → p < w.pos + 1 + (w.ticked now).totalDeviation.toNat →
        w.setTimers (p % maxArraySize) = []) ↔ _
      constructor
      · exact fun hNone _ p hLe hLt => hNone p (Nat.le_of_succ_le hLe) hLt
      · intro hEmpty p hLe hLt
        obtain rfl | hLess := Nat.eq_or_lt_of_le hLe
        · exact hHere
        · exact hEmpty hWraps p hLess hLt
    · refine iff_of_true (fun p hLe hLt => ?_) fun h => absurd h hWraps
      rw [collect_eq hTicked hWraps] at hLt ⊢
      obtain ⟨_, _, hFrame⟩ := collectSlots_frame (hop (w.ticked now).totalDeviation).toNat
        (w.ticked now).pos (w.ticked now) []
      have hPos : p < w.pos + 1 + (hop (w.ticked now).totalDeviation).toNat := by
        rw [hFrame] at hLt
        exact hLt
      obtain rfl | hLess := Nat.eq_or_lt_of_le hLe
      · apply List.eq_nil_iff_forall_not_mem.mpr
        intro b hb
        have hb := collectSlots_subset _ _ (w.ticked now) [] _ b hb
        change b ∈ w.setTimers (w.pos % maxArraySize) at hb
        rw [hHere] at hb
        cases hb
      · exact collectSlots_empty _ _ (w.ticked now) [] p hLess hPos

theorem Sound.afterSockets_iff {uiPollInterval now : UInt32} {created : List UInt32}
    (h : Sound ⟨w, .sockets uiPollInterval created⟩) :
    EmptyAhead w w.pos (socketSpan uiPollInterval (now - w.lastTime)).toNat ↔
    (w.LookAheadWraps →
      EmptyAhead w w.pos (socketSpan uiPollInterval (now - w.lastTime)).toNat) ∧
    ∀ uiInt ∈ created, socketSpan uiPollInterval (now - w.lastTime) ≤ uiInt := by
  obtain ⟨hPos, hMax, hNew, hOld⟩ := h.scanned
  have hSpan := socketSpan_le uiPollInterval (now - w.lastTime) hPos
  constructor
  · intro hEmpty
    constructor
    · exact fun _ => hEmpty
    · intro uiInt hMem
      rw [UInt32.le_iff_toNat_le]
      by_contra hEarly
      have hLt := Nat.not_le.mp hEarly
      exact hNew uiInt hMem (by omega) (hEmpty _ (Nat.le_add_right ..) (Nat.add_lt_add_left hLt _))
  · rintro ⟨hWrapped, hCreated⟩
    by_cases hWraps : w.LookAheadWraps
    · exact hWrapped hWraps
    · intro p hLe hLt
      by_contra hSlot
      rw [← Nat.add_sub_cancel' hLe] at hSlot
      obtain ⟨uiInt, hMem, hEq⟩ := hOld hWraps (p - w.pos) (by omega) hSlot
      have hLater := hCreated uiInt hMem
      rw [UInt32.le_iff_toNat_le] at hLater
      omega

theorem noneSkipped_of_step (hStep : step s input = some s') :
    NoneSkipped s input ↔ ∀ p, s.wheel.pos ≤ p → p < s'.wheel.pos →
      s'.wheel.setTimers (p % maxArraySize) = [] := by
  simp [NoneSkipped, hStep]

/-- A step that does not move the wheel skips nothing. -/
theorem noneSkipped_of_still (h : ∀ s' ∈ step s input, s'.wheel.pos = s.wheel.pos) :
    NoneSkipped s input := by
  intro s' hs' p hLe hLt
  rw [h s' hs'] at hLt
  exact absurd hLt (Nat.not_lt.mpr hLe)

theorem Sound.noneSkipped_iff (h : Sound s) : NoneSkipped s input ↔ Guarded s input := by
  obtain ⟨w, c⟩ := s
  cases input with
  | createTimer uiInt isRepeated =>
    refine iff_of_true (noneSkipped_of_still fun s' hs' => ?_) trivial
    cases Transition.of_step hs' with
    | createTimer _ hCreate => exact (createTimer_positions hCreate).2
  | deleteTimer pTimer =>
    refine iff_of_true (noneSkipped_of_still fun s' hs' => ?_) trivial
    cases Transition.of_step hs' with
    | deleteTimer _ hDelete => exact (deleteTimer_positions hDelete).2
  | next =>
    refine iff_of_true (noneSkipped_of_still fun s' hs' => ?_) trivial
    cases Transition.of_step hs' with
    | passReturn => exact (finishCall_positions _ _).2
    | fireReturn => exact (finishCall_positions _ _).2
    | meetDead | meetDue | meetEarly | fireDead | fireDue | fireEarly => rfl
  | clock now =>
    cases c with
    | pass atEnd =>
      by_cases hOver : w.passOver atEnd = true
      · have hStep : TimerWheel.step ⟨w, .pass atEnd⟩ (.clock now) = some (w.endPass now) :=
          if_pos hOver
        rw [noneSkipped_of_step hStep, h.endPass_iff hOver]
        exact ⟨fun h _ => h, fun h => h hOver⟩
      · refine iff_of_true (fun s' hs' => ?_) (fun h => absurd h hOver)
        cases (if_neg hOver : TimerWheel.step ⟨w, .pass atEnd⟩ (.clock now) = none).symm.trans hs'
    | sockets uiPollInterval created =>
      obtain ⟨_, hEq⟩ := afterSockets_eq (w.readClock now).2 uiPollInterval (now - w.lastTime)
      have hStep : TimerWheel.step ⟨w, .sockets uiPollInterval created⟩ (.clock now) =
          some ⟨(w.readClock now).2.afterSockets uiPollInterval (now - w.lastTime), .pass false⟩ :=
        rfl
      rw [noneSkipped_of_step hStep, hEq]
      exact h.afterSockets_iff
    | start =>
      refine iff_of_true (noneSkipped_of_still fun s' hs' => ?_) trivial
      cases Transition.of_step hs' with
      | start hCreate => exact (createTimer_positions hCreate).2
    | fire iteAll =>
      refine iff_of_true (noneSkipped_of_still fun s' hs' => ?_) trivial
      cases Transition.of_step hs' with
      | endFireAll => rfl
    | passCall | fireCall =>
      refine iff_of_true (noneSkipped_of_still fun s' hs' => ?_) trivial
      cases hs'

/-! ## Runs -/

theorem meets_positive {inputs : List Input} (h : ∀ input ∈ inputs, Positive input) :
    machine.Meets (fun _ input => Positive input) inputs := by
  rintro before input after rfl _ _
  exact h input (List.mem_append_right _ List.mem_cons_self)

theorem reachable_sound {inputs : List Input} (hPositive : ∀ input ∈ inputs, Positive input)
    (hRun : machine.run inputs = some s) : Sound s :=
  (meets_positive hPositive).invariant (I := Sound) sound_create
    (fun _ _ _ h hInput hStep => h.step hInput (.of_step hStep)) hRun

/-- Every box is for a position less than a lap away that the wheel has not left behind. -/
def Ahead (s : State) : Prop :=
  ∀ i, ∀ b ∈ s.wheel.setTimers i, ∃ p, p % maxArraySize = i ∧ s.wheel.pos ≤ p ∧
    p < b.putAt + maxArraySize

theorem Ahead.step (h : Ahead s) (hSound : Sound s) (hPositive : Positive input)
    (hNone : NoneSkipped s input) (hStep : TimerWheel.step s input = some s') : Ahead s' := by
  intro i b hb
  have hJoins := joins_step hSound.owned hSound.inStep hSound.positive hPositive (.of_step hStep)
  obtain hOld | ⟨hStill, n, _, rfl, hPut⟩ := hJoins i b hb
  · obtain ⟨p, rfl, hLe, hLt⟩ := h i b hOld
    refine ⟨p, rfl, ?_, hLt⟩
    by_contra hPassed
    have hEmpty := hNone s' hStep p hLe (Nat.not_le.mp hPassed)
    rw [hEmpty] at hb
    cases hb
  · refine ⟨_, rfl, by rw [hStill]; exact Nat.le_add_right .., ?_⟩
    rw [hPut]
    exact Nat.add_lt_add_left (hop_lt n) _

theorem noExtraLap {inputs : List Input} (hPositive : ∀ input ∈ inputs, Positive input)
    (hNone : machine.Meets NoneSkipped inputs) (hRun : machine.run inputs = some s) :
    NoExtraLap s := by
  have hMeets : machine.Meets (fun s input => NoneSkipped s input ∧ Positive input) inputs :=
    fun before input after hSplit s hRun =>
      ⟨hNone before input after hSplit s hRun, hPositive input (hSplit ▸ by simp)⟩
  have hAll : Sound s ∧ Ahead s := by
    refine hMeets.invariant (I := fun s => Sound s ∧ Ahead s) ⟨sound_create, ?_⟩ ?_ hRun
    · intro _ _ hb
      cases hb
    · rintro s input s' ⟨hSound, hAhead⟩ ⟨hNone, hPositive⟩ hStep
      exact ⟨hSound.step hPositive (.of_step hStep), hAhead.step hSound hPositive hNone hStep⟩
  intro i b hb
  obtain ⟨p, -, hLe, hLt⟩ := hAll.2 i b hb
  exact Nat.lt_of_le_of_lt hLe hLt

/-- A run skips no armed slot exactly when its steps are guarded. -/
theorem unskipped_iff {inputs : List Input} (hPositive : ∀ input ∈ inputs, Positive input) :
    Unskipped inputs ↔ machine.Meets Guarded inputs := by
  have hIff : machine.Meets NoneSkipped inputs ↔ machine.Meets Guarded inputs := by
    apply Machine.meets_congr
    intro before input after s hSplit hRun
    have hBefore : ∀ input ∈ before, Positive input :=
      fun input hMem => hPositive input (hSplit ▸ List.mem_append_left _ hMem)
    exact (reachable_sound hBefore hRun).noneSkipped_iff
  constructor
  · exact fun h => hIff.mp h.1
  · intro h
    have hNone := hIff.mpr h
    exact ⟨hNone, fun s hRun => noExtraLap hPositive hNone hRun⟩

/-- A callback of `ReadSockets` creates a timer of one millisecond, and `Run` moves
past its slot from position 2 to position 6. -/
theorem not_unskipped :
    ¬∀ inputs : List Input, (∀ input ∈ inputs, Positive input) → Unskipped inputs := by
  intro h
  let inputs : List Input := [.clock 0, .clock 0, .createTimer 1 false]
  obtain ⟨hNone, -⟩ := h (inputs ++ [.clock 10]) (by decide)
  have hSlot := (Machine.meets_concat.mp hNone).2 ((machine.run inputs).get (by decide))
    (Option.some_get _).symm ((machine.run (inputs ++ [.clock 10])).get (by decide)) rfl 3
    (by decide) (by decide)
  exact absurd hSlot (by decide)

/-- A timer of two milliseconds that a callback of `ReadSockets` creates is not passed
within two. -/
theorem unskipped_iff_two : Unskipped [.clock 0, .clock 0, .createTimer 2 false, .clock 2] :=
  (unskipped_iff (by decide)).mpr (Machine.meets_of_check Guarded (by decide))

end CStabilizer.TimerWheel
