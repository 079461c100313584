import CStabilizer.SocketManager.TimerIds

/-! # Positions of the wheel

`currentPos` is the count of positions modulo 2^32, so a slot belongs to the
positions that agree modulo its number. The first loop of `FireAll` empties the
slots of consecutive positions, unless the end of its range wraps. -/

namespace CStabilizer.TimerWheel

open Library Library.Buckets

variable {w w' : TimerWheel} {s s' : State} {input : Input}

def InStep (w : TimerWheel) : Prop := w.currentPos.toNat = w.pos % 2 ^ 32

theorem InStep.advance (h : w.InStep) (n : UInt32) : (w.advance n).InStep := by
  unfold InStep at *
  simp only [TimerWheel.advance, UInt32.toNat_add, h]
  omega

theorem InStep.slot (h : w.InStep) (n : UInt32) :
    slot (w.currentPos + n) = (w.pos + n.toNat) % maxArraySize := by
  unfold InStep at h
  simp only [TimerWheel.slot, maxArraySize, UInt32.toNat_add, h]
  omega

theorem InStep.slot_currentPos (h : w.InStep) : TimerWheel.slot w.currentPos = w.pos % maxArraySize := by
  have hSlot := h.slot 0
  rwa [UInt32.add_zero, UInt32.toNat_zero, Nat.add_zero] at hSlot

/-- A timer is put into the slot of the current position only by a zero interval. -/
theorem InStep.hop_slot_iff (h : w.InStep) {n : UInt32} :
    TimerWheel.slot (w.currentPos + hop n) = TimerWheel.slot w.currentPos ↔ n = 0 := by
  rw [h.slot, h.slot_currentPos]
  have hLt := hop_lt n
  unfold maxArraySize at *
  constructor
  · intro hEq
    by_contra hNe
    have hPos := hop_pos hNe
    omega
  · rintro rfl
    rfl

/-! ## The first loop of `FireAll` -/

/-- Collects the slots of the `n` positions from `p` on. -/
def collectSlots : (n p : Nat) → TimerWheel → List TimerBox → TimerWheel × List TimerBox
  | 0, _, w, lstFireAll => (w, lstFireAll)
  | n + 1, p, w, lstFireAll =>
    collectSlots n (p + 1) (w.collectSlot (p % maxArraySize) lstFireAll).1
      (w.collectSlot (p % maxArraySize) lstFireAll).2

/-- What collecting slots changes. -/
theorem collectSlots_frame (n p : Nat) (w : TimerWheel) (l : List TimerBox) :
    ∃ freeTimerIDs setTimers, (collectSlots n p w l).1 = { w with freeTimerIDs, setTimers } := by
  induction n generalizing p w l with
  | zero => exact ⟨_, _, rfl⟩
  | succ n ih =>
    obtain ⟨freeTimerIDs, setTimers, hEq⟩ := ih (p + 1) (w.collectSlot (p % maxArraySize) l).1
      (w.collectSlot (p % maxArraySize) l).2
    exact ⟨freeTimerIDs, setTimers, hEq⟩

/-- Whether the end of the range of `FireAll` is past the last 32-bit position. -/
def EndWraps (w : TimerWheel) : Prop := 2 ^ 32 ≤ w.currentPos.toNat + w.totalDeviation.toNat

instance instDecidableEndWraps (w : TimerWheel) : Decidable w.EndWraps :=
  inferInstanceAs (Decidable (_ ≤ _))

theorem lt_end_iff {m : Nat} {ui : UInt32} (hWraps : ¬w.EndWraps)
    (hEnd : ui.toNat + m = w.currentPos.toNat + w.totalDeviation.toNat) :
    ui < w.currentPos + w.totalDeviation ↔ 0 < m := by
  unfold EndWraps at hWraps
  rw [UInt32.lt_iff_toNat_lt, UInt32.toNat_add]
  omega

theorem collectLoop_eq (turns m p : Nat) (ui : UInt32) (w : TimerWheel) (l : List TimerBox)
    (hWraps : ¬w.EndWraps) (hEnd : ui.toNat + m = w.currentPos.toNat + w.totalDeviation.toNat)
    (hSlot : slot ui = p % maxArraySize) :
    collectLoop (turns + 1) ui w l =
      ({ (collectSlots (min m turns) p w l).1 with
          totalDeviation := if m ≤ turns then w.totalDeviation else 1023 },
        (collectSlots (min m turns) p w l).2) := by
  induction turns generalizing m p ui w l with
  | zero =>
    rw [collectLoop_succ]
    obtain rfl | hPos := Nat.eq_zero_or_pos m
    · rw [if_neg (by simp [lt_end_iff hWraps hEnd])]
      rfl
    · rw [if_pos ((lt_end_iff hWraps hEnd).mpr hPos), if_pos rfl, Nat.min_zero, if_neg (by omega)]
      rfl
  | succ turns ih =>
    rw [collectLoop_succ]
    cases m with
    | zero =>
      rw [if_neg (by simp [lt_end_iff hWraps hEnd]), Nat.zero_min, if_pos (Nat.zero_le _)]
      rfl
    | succ m =>
      rw [if_pos ((lt_end_iff hWraps hEnd).mpr (Nat.succ_pos m)), if_neg (Nat.succ_ne_zero turns),
        hSlot]
      have hNext : (ui + 1).toNat = ui.toNat + 1 := by
        unfold EndWraps at hWraps
        rw [UInt32.toNat_add, UInt32.toNat_one]
        omega
      have hSlot' : slot (ui + 1) = (p + 1) % maxArraySize := by
        unfold slot maxArraySize at *
        omega
      have hEnd' : (ui + 1).toNat + m = w.currentPos.toNat + w.totalDeviation.toNat := by
        rw [hNext, ← hEnd]
        omega
      rw [ih m (p + 1) (ui + 1) (w.collectSlot (p % maxArraySize) l).1
        (w.collectSlot (p % maxArraySize) l).2 hWraps hEnd' hSlot', Nat.succ_min_succ]
      simp only [collectSlots, collectSlot, Nat.succ_le_succ_iff]

/-- `FireAll` collects as many positions as it moves past. -/
theorem collect_eq (hStep : w.InStep) (hWraps : ¬w.EndWraps) :
    w.collect =
      ({ (collectSlots (hop w.totalDeviation).toNat w.pos w []).1.advance (hop w.totalDeviation) with
          totalDeviation := 0 },
        (collectSlots (hop w.totalDeviation).toNat w.pos w []).2) := by
  have hLoop := collectLoop_eq 1023 w.totalDeviation.toNat w.pos w.currentPos w [] hWraps rfl
    hStep.slot_currentPos
  have hHop : (if w.totalDeviation.toNat ≤ 1023 then w.totalDeviation else 1023) =
      hop w.totalDeviation := by
    simp only [hop, UInt32.lt_iff_toNat_lt]
    exact if_congr Nat.lt_succ_iff.symm rfl rfl
  have hMin : min w.totalDeviation.toNat 1023 = (hop w.totalDeviation).toNat := by
    rw [← hHop]
    split
    · rename_i hLe
      exact Nat.min_eq_left hLe
    · rename_i hGt
      exact Nat.min_eq_right (by omega)
  rw [hMin, hHop] at hLoop
  rw [collect, maxArraySize, hLoop]
  rfl

/-- Past the last 32-bit position `FireAll` moves without collecting. -/
theorem collect_eq_of_wraps (hWraps : w.EndWraps) :
    w.collect = ({ w.advance w.totalDeviation with totalDeviation := 0 }, []) := by
  unfold EndWraps at hWraps
  have hEnd : ¬w.currentPos < w.currentPos + w.totalDeviation := by
    rw [UInt32.lt_iff_toNat_lt, UInt32.toNat_add]
    have := w.currentPos.toNat_lt
    have := w.totalDeviation.toNat_lt
    omega
  have hLoop : collectLoop maxArraySize w.currentPos w [] = (w, []) := by
    change collectLoop (1023 + 1) w.currentPos w [] = _
    rw [collectLoop_succ, if_neg hEnd]
  rw [collect, hLoop]

/-- How far `FireAll` moves. -/
def fireSpan (w : TimerWheel) : UInt32 :=
  if w.EndWraps then w.totalDeviation else hop w.totalDeviation

/-- The positions that `FireAll` collects. -/
def fireCount (w : TimerWheel) : Nat := if w.EndWraps then 0 else (hop w.totalDeviation).toNat

theorem collect_eq_collectSlots (hStep : w.InStep) :
    w.collect =
      ({ (collectSlots w.fireCount w.pos w []).1.advance w.fireSpan with totalDeviation := 0 },
        (collectSlots w.fireCount w.pos w []).2) := by
  unfold fireCount fireSpan
  split
  · rename_i hWraps
    exact collect_eq_of_wraps hWraps
  · rename_i hWraps
    exact collect_eq hStep hWraps

theorem fireCount_le (w : TimerWheel) : w.fireCount ≤ w.fireSpan.toNat := by
  unfold fireCount fireSpan
  split
  · exact Nat.zero_le _
  · exact Nat.le_refl _

theorem fireSpan_pos (h : w.totalDeviation ≠ 0) : 0 < w.fireSpan.toNat := by
  unfold fireSpan
  split
  · exact Nat.pos_of_ne_zero fun hZero => h (UInt32.toNat_inj.mp hZero)
  · exact hop_pos h

theorem fireCount_lt (w : TimerWheel) : w.fireCount < maxArraySize := by
  unfold fireCount
  split
  · decide
  · exact hop_lt _

/-- What the first loop of `FireAll` changes. -/
theorem collect_frame (hStep : w.InStep) :
    ∃ freeTimerIDs setTimers, w.collect.1 =
      { w.advance w.fireSpan with totalDeviation := 0, freeTimerIDs, setTimers } := by
  obtain ⟨freeTimerIDs, setTimers, hEq⟩ := collectSlots_frame w.fireCount w.pos w []
  rw [collect_eq_collectSlots hStep, hEq]
  exact ⟨freeTimerIDs, setTimers, rfl⟩

theorem collect_inStep (h : w.InStep) : w.collect.1.InStep := by
  obtain ⟨_, _, hFrame⟩ := collect_frame h
  rw [hFrame]
  exact h.advance w.fireSpan

/-! ## Steps -/

theorem createTimer_positions {uiInt : UInt32} {isRepeated : Bool}
    (hCreate : w.createTimer uiInt isRepeated = some w') :
    w'.currentPos = w.currentPos ∧ w'.pos = w.pos := by
  obtain ⟨id, w₀, hID, rfl⟩ := createTimer_eq_some.mp hCreate
  obtain ⟨_, _, _, rfl⟩ := getTimerIDFromStack_frame hID
  exact ⟨rfl, rfl⟩

theorem deleteTimer_positions {pTimer : Nat} (hDelete : w.deleteTimer pTimer = some w') :
    w'.currentPos = w.currentPos ∧ w'.pos = w.pos := by
  obtain ⟨-, -, rfl⟩ := deleteTimer_eq_some.mp hDelete
  exact ⟨rfl, rfl⟩

theorem finishCall_positions (w : TimerWheel) (b : TimerBox) :
    (w.finishCall b).currentPos = w.currentPos ∧ (w.finishCall b).pos = w.pos := by
  obtain ⟨_, _, hEq⟩ | ⟨_, _, hEq⟩ | ⟨_, hEq⟩ := finishCall_cases w b <;> rw [hEq] <;>
    exact ⟨rfl, rfl⟩

theorem InStep.congr (h : w.InStep) (hSame : w'.currentPos = w.currentPos ∧ w'.pos = w.pos) :
    w'.InStep := by
  unfold InStep at *
  rwa [hSame.1, hSame.2]

theorem Transition.inStep (h : s.wheel.InStep) (hStep : Transition s input s') :
    s'.wheel.InStep := by
  cases hStep with
  | createTimer _ hCreate => exact h.congr (createTimer_positions hCreate)
  | deleteTimer _ hDelete => exact h.congr (deleteTimer_positions hDelete)
  | @start w w' now hCreate =>
    have hCreated : w'.InStep := h.congr (createTimer_positions hCreate)
    exact hCreated
  | endPass => exact h.advance 1
  | fireAll => exact collect_inStep (h.advance 1)
  | @afterSockets w uiPollInterval now created =>
    obtain ⟨_, hEq⟩ := afterSockets_eq (w.readClock now).2 uiPollInterval (now - w.lastTime)
    rw [hEq]
    exact InStep.advance (w := (w.readClock now).2) h _
  | passReturn => exact h.congr (finishCall_positions _ _)
  | fireReturn => exact h.congr (finishCall_positions _ _)
  | endFireAll | meetDead | meetDue | meetEarly | fireDead | fireDue | fireEarly => exact h

theorem reachable_inStep {inputs : List Input} (hRun : machine.run inputs = some s) :
    s.wheel.InStep :=
  invariant_of_transition (I := fun s => s.wheel.InStep) rfl
    (fun _ _ _ h hStep => hStep.inStep h) hRun

/-! ## The slot behind the iterator -/

def Control.passAtEnd : Control → Bool
  | pass atEnd | passCall _ atEnd => atEnd
  | start | fire _ | fireCall .. | sockets .. => false

/-- The slot at the current position has only timers of a zero interval. -/
def OnlyZero (w : TimerWheel) : Prop :=
  ∀ b ∈ w.setTimers (slot w.currentPos), (w.timers b.timer).interval = 0

/-- Only timers of a zero interval are behind the iterator of the slot pass. -/
def State.Passed (s : State) : Prop := s.control.passAtEnd = true → s.wheel.OnlyZero

theorem onlyZero_popSlot {rest : List TimerBox} (hEnd : rest.isEmpty = true) :
    (w.popSlot rest).OnlyZero := by
  intro b hb
  have hSlot : (w.popSlot rest).setTimers (slot w.currentPos) = [] :=
    (Function.update_self ..).trans (List.isEmpty_iff.mp hEnd)
  change b ∈ (w.popSlot rest).setTimers (slot w.currentPos) at hb
  rw [hSlot] at hb
  cases hb

/-- A timer that goes back into its slot does not go behind the iterator. -/
theorem OnlyZero.schedule (h : w.OnlyZero) (hStep : w.InStep) (id : Nat) {t : Nat} {n : UInt32}
    (hNew : n = 0 → (w.timers t).interval = 0) : (w.schedule id t n).OnlyZero := by
  intro b hb
  rw [timers_schedule]
  obtain hb | ⟨hSlot, rfl⟩ := mem_schedule.mp hb
  · exact h b hb
  · exact hNew (hStep.hop_slot_iff.mp hSlot.symm)

theorem State.Owned.allocated {s : State} (h : s.Owned) {i : Nat} (hi : i < maxArraySize)
    {b : TimerBox} (hb : b ∈ s.wheel.setTimers i) : b.timer < s.wheel.timerCount := by
  exact TimerWheel.Owned.allocated h _ (key_mem_of_slot hi hb)

theorem OnlyZero.createTimer (h : w.OnlyZero) (hStep : w.InStep) {uiInt : UInt32}
    {isRepeated : Bool}
    (hAllocated : ∀ b ∈ w.setTimers (slot w.currentPos), b.timer < w.timerCount)
    (hCreate : w.createTimer uiInt isRepeated = some w') : w'.OnlyZero := by
  obtain ⟨id, w₀, hID, rfl⟩ := createTimer_eq_some.mp hCreate
  obtain ⟨maxTimers, ptrTimers, freeTimerIDs, rfl⟩ := getTimerIDFromStack_frame hID
  refine OnlyZero.schedule (w := register _ id uiInt isRepeated) ?_ hStep id fun hZero => ?_
  · intro b hb
    rw [timers_register (hAllocated b hb)]
    exact h b hb
  · simpa [register] using hZero

theorem OnlyZero.deleteTimer (h : w.OnlyZero) {pTimer : Nat}
    (hDelete : w.deleteTimer pTimer = some w') : w'.OnlyZero := by
  obtain ⟨-, -, rfl⟩ := deleteTimer_eq_some.mp hDelete
  intro b hb
  simp only [timers_delete]
  exact h b hb

theorem OnlyZero.finishCall (h : w.OnlyZero) (hStep : w.InStep) (b : TimerBox) :
    (w.finishCall b).OnlyZero := by
  obtain ⟨_, _, hEq⟩ | ⟨_, _, hEq⟩ | ⟨_, hEq⟩ := finishCall_cases w b
  · rw [hEq]
    exact h.schedule hStep b.timerID id
  · rw [hEq]
    intro b' hb'
    change ((w.resetTimerId b.timer).timers b'.timer).interval = 0
    rw [timers_resetTimerId]
    exact h b' hb'
  · rw [hEq]
    exact h

theorem Transition.passed (hOwned : s.Owned) (hInStep : s.wheel.InStep) (h : s.Passed)
    (hStep : Transition s input s') : s'.Passed := by
  intro hEnd
  cases hStep with
  | @createTimer w w' c uiInt isRepeated _ hCreate =>
    refine (h ?_).createTimer hInStep (fun b hb => hOwned.allocated (slot_lt _) hb) hCreate
    revert hEnd
    cases c <;> exact id
  | deleteTimer _ hDelete => exact (h hEnd).deleteTimer hDelete
  | start | endPass | fireAll | endFireAll | afterSockets => cases hEnd
  | fireDead | fireDue | fireEarly | fireReturn => cases hEnd
  | @meetDead w b rest => exact onlyZero_popSlot (w := w) hEnd
  | @meetDue w b rest => exact onlyZero_popSlot (w := w) hEnd
  | @meetEarly w b rest _ _ hEarly =>
    exact (onlyZero_popSlot (w := w) hEnd).schedule hInStep _ fun hZero => absurd hZero hEarly
  | passReturn => exact (h hEnd).finishCall hInStep _

end CStabilizer.TimerWheel
