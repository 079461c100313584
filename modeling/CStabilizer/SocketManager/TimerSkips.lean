import CStabilizer.SocketManager.TimerPositions

/-! # Slots that are passed

A position may be left behind only when its slot is empty by then. The look-ahead
vouches for the positions that `Run` moves past behind `ReadSockets`, as long as
its own range does not wrap and no callback of `ReadSockets` creates a timer that
is due within it; the loop of `FireAll` does so as long as its range does not wrap. -/

namespace CStabilizer.TimerWheel

open Library Library.Buckets

variable {w w' : TimerWheel} {s s' : State} {input : Input}

/-! ## The property and its condition -/

/-- The slots of the positions that a step moves past are empty behind it. -/
def NoneSkipped (s : State) (input : Input) : Prop :=
  ∀ s' ∈ step s input, ∀ p, s.wheel.pos ≤ p → p < s'.wheel.pos →
    s'.wheel.setTimers (p % maxArraySize) = []

/-- No box has been in its slot for a whole lap. -/
def NoExtraLap (s : State) : Prop :=
  ∀ i, ∀ b ∈ s.wheel.setTimers i, s.wheel.pos < b.putAt + maxArraySize

/-- No armed slot is skipped in a run. -/
def Unskipped (inputs : List Input) : Prop :=
  machine.Meets NoneSkipped inputs ∧ ∀ s, machine.run inputs = some s → NoExtraLap s

/-- The slots of `n` positions from `p` on are empty. -/
def EmptyAhead (w : TimerWheel) (p n : Nat) : Prop :=
  ∀ q, p ≤ q → q < p + n → w.setTimers (q % maxArraySize) = []

/-- Whether the end of the look-ahead is past the last 32-bit position. -/
def LookAheadWraps (w : TimerWheel) : Prop := 2 ^ 32 ≤ w.currentPos.toNat + maxEpolWait.toNat

/-- When the range of a loop wraps there is nothing in it, and no timer that a
callback of `ReadSockets` creates is due before the position that `Run` moves to. -/
def Guarded (s : State) : Input → Prop
  | .clock now =>
    match s.control with
    | .pass atEnd =>
      s.wheel.passOver atEnd = true → (s.wheel.ticked now).EndWraps →
        EmptyAhead s.wheel (s.wheel.pos + 1) (s.wheel.ticked now).totalDeviation.toNat
    | .sockets uiPollInterval created =>
      (s.wheel.LookAheadWraps →
        EmptyAhead s.wheel s.wheel.pos
          (socketSpan uiPollInterval (now - s.wheel.lastTime)).toNat) ∧
      ∀ uiInt ∈ created, socketSpan uiPollInterval (now - s.wheel.lastTime) ≤ uiInt
    | .start | .passCall .. | .fire _ | .fireCall .. => True
  | .createTimer .. | .deleteTimer _ | .next => True

instance instDecidableEmptyAhead (w : TimerWheel) (p n : Nat) : Decidable (EmptyAhead w p n) :=
  decidable_of_iff (∀ j < n, w.setTimers ((p + j) % maxArraySize) = [])
    ⟨fun h q hLe hLt => Nat.add_sub_cancel' hLe ▸ h (q - p) (by omega),
      fun h j hj => h (p + j) (Nat.le_add_right ..) (Nat.add_lt_add_left hj p)⟩

instance instDecidableLookAheadWraps (w : TimerWheel) : Decidable w.LookAheadWraps :=
  inferInstanceAs (Decidable (_ ≤ _))

instance instDecidableGuarded (s : State) (input : Input) : Decidable (Guarded s input) :=
  match s, input with
  | ⟨w, .pass atEnd⟩, .clock now =>
    inferInstanceAs (Decidable (w.passOver atEnd = true → (w.ticked now).EndWraps →
      EmptyAhead w (w.pos + 1) (w.ticked now).totalDeviation.toNat))
  | ⟨w, .sockets uiPollInterval created⟩, .clock now =>
    -- The list is searched, not the type of its elements
    have : Decidable (∀ uiInt ∈ created, socketSpan uiPollInterval (now - w.lastTime) ≤ uiInt) :=
      List.decidableBAll _ created
    inferInstanceAs (Decidable ((w.LookAheadWraps → EmptyAhead w w.pos
        (socketSpan uiPollInterval (now - w.lastTime)).toNat) ∧
      ∀ uiInt ∈ created, socketSpan uiPollInterval (now - w.lastTime) ≤ uiInt))
  | ⟨_, .start⟩, .clock _ | ⟨_, .passCall ..⟩, .clock _ | ⟨_, .fire _⟩, .clock _
  | ⟨_, .fireCall ..⟩, .clock _ | _, .createTimer .. | _, .deleteTimer _ | _, .next =>
    inferInstanceAs (Decidable True)

/-- Timers of a positive interval are created. -/
def Positive : Input → Prop
  | .createTimer uiInt _ => 1 ≤ uiInt
  | .deleteTimer _ | .clock _ | .next => True

instance instDecidablePositive : DecidablePred Positive
  | .createTimer uiInt _ => inferInstanceAs (Decidable (1 ≤ uiInt))
  | .deleteTimer _ | .clock _ | .next => inferInstanceAs (Decidable True)

theorem Positive.ne_zero {uiInt : UInt32} {isRepeated : Bool}
    (h : Positive (.createTimer uiInt isRepeated)) : uiInt ≠ 0 := by
  rintro rfl
  have hOne : (1 : UInt32) ≤ 0 := h
  exact absurd hOne (by decide)

/-! ## The look-ahead -/

theorem pollLoop_spec (turns j : Nat) (hTurns : j + turns = 5) :
    1 ≤ (w.pollLoop (w.currentPos + maxEpolWait) turns (w.currentPos + .ofNat j)).toNat ∧
    (w.pollLoop (w.currentPos + maxEpolWait) turns (w.currentPos + .ofNat j)).toNat ≤ 5 ∧
    (¬w.LookAheadWraps → ∀ q, j ≤ q →
      q + 1 < (w.pollLoop (w.currentPos + maxEpolWait) turns (w.currentPos + .ofNat j)).toNat →
      w.setTimers (slot (w.currentPos + .ofNat q)) = []) := by
  induction turns generalizing j with
  | zero =>
    refine ⟨show 1 ≤ maxEpolWait.toNat by decide, show maxEpolWait.toNat ≤ 5 by decide, ?_⟩
    intro _ q hLe hLt
    change q + 1 < 5 at hLt
    omega
  | succ turns ih =>
    rw [pollLoop]
    have hOffset : (UInt32.ofNat j).toNat = j := by
      rw [UInt32.toNat_ofNat']
      omega
    split
    · split
      · have hSpan : (w.currentPos + .ofNat j - w.currentPos + 1).toNat = j + 1 := by
          rw [add_sub_cancel_left, UInt32.toNat_add, hOffset, UInt32.toNat_one]
          omega
        rw [hSpan]
        refine ⟨by omega, by omega, fun _ q hLe hLt => ?_⟩
        omega
      · rename_i hEmpty
        have hNext : w.currentPos + .ofNat j + 1 = w.currentPos + .ofNat (j + 1) := by
          rw [add_assoc, UInt32.ofNat_add]
          rfl
        rw [hNext]
        obtain ⟨hPos, hMax, hRest⟩ := ih (j + 1) (by omega)
        refine ⟨hPos, hMax, fun hWraps q hLe hLt => ?_⟩
        obtain rfl | hLess := Nat.eq_or_lt_of_le hLe
        · exact List.length_eq_zero_iff.mp (Nat.eq_zero_of_not_pos hEmpty)
        · exact hRest hWraps q hLess hLt
    · rename_i hEnd
      refine ⟨by decide, by decide, fun hWraps => absurd ?_ hEnd⟩
      unfold LookAheadWraps at hWraps
      have hWait : maxEpolWait.toNat = 5 := rfl
      rw [UInt32.lt_iff_toNat_lt, UInt32.toNat_add, UInt32.toNat_add, hOffset]
      omega

/-- What the look-ahead finds empty. -/
theorem pollInterval_spec (hStep : w.InStep) :
    1 ≤ w.pollInterval.toNat ∧ w.pollInterval.toNat ≤ 5 ∧
      (¬w.LookAheadWraps → EmptyAhead w w.pos (w.pollInterval.toNat - 1)) := by
  obtain ⟨hPos, hMax, hEmpty⟩ := pollLoop_spec (w := w) 5 0 rfl
  rw [show w.currentPos + .ofNat 0 = w.currentPos from UInt32.add_zero _] at hPos hMax hEmpty
  refine ⟨hPos, hMax, fun hWraps q hLe hLt => ?_⟩
  change 1 ≤ w.pollInterval.toNat at hPos
  change w.pollInterval.toNat ≤ 5 at hMax
  have hSlot := hEmpty hWraps (q - w.pos) (Nat.zero_le _)
    (show q - w.pos + 1 < w.pollInterval.toNat by omega)
  rw [hStep.slot] at hSlot
  have hOffset : (UInt32.ofNat (q - w.pos)).toNat = q - w.pos := by
    rw [UInt32.toNat_ofNat']
    omega
  rwa [hOffset, Nat.add_sub_cancel' hLe] at hSlot

theorem socketSpan_le (uiPollInterval uiRet : UInt32) (hPos : 1 ≤ uiPollInterval.toNat) :
    (socketSpan uiPollInterval uiRet).toNat ≤ uiPollInterval.toNat - 1 := by
  unfold socketSpan
  have hOne : (1 : UInt32).toNat = 1 := rfl
  split
  · rw [UInt32.toNat_sub_of_le _ _ (by rwa [UInt32.le_iff_toNat_le, hOne]), hOne]
  · rename_i hLe
    rw [UInt32.lt_iff_toNat_lt] at hLe
    split
    · rename_i hRet
      have hRet' : 0 < uiRet.toNat := by simpa [UInt32.lt_iff_toNat_lt] using hRet
      rw [UInt32.toNat_sub_of_le _ _ (by rw [UInt32.le_iff_toNat_le, hOne]; exact hRet'), hOne]
      omega
    · exact Nat.zero_le _

/-! ## What is in the slots -/

/-- No timer has a zero interval. -/
def AllPositive (w : TimerWheel) : Prop := ∀ t < w.timerCount, (w.timers t).interval ≠ 0

theorem AllPositive.createTimer {uiInt : UInt32} {isRepeated : Bool} (h : w.AllPositive)
    (hPositive : uiInt ≠ 0) (hCreate : w.createTimer uiInt isRepeated = some w') :
    w'.AllPositive := by
  obtain ⟨id, w₀, hID, rfl⟩ := createTimer_eq_some.mp hCreate
  obtain ⟨_, _, _, rfl⟩ := getTimerIDFromStack_frame hID
  intro t ht
  rw [timers_schedule]
  obtain rfl | ht := (Nat.lt_succ_iff_lt_or_eq.mp ht).symm
  · simpa [register] using hPositive
  · rw [timers_register ht]
    exact h t ht

theorem AllPositive.congr (h : w.AllPositive) (hCount : w'.timerCount = w.timerCount)
    (hTimers : ∀ t, (w'.timers t).interval = (w.timers t).interval) : w'.AllPositive := by
  intro t ht
  rw [hTimers]
  exact h t (hCount ▸ ht)

theorem allPositive_finishCall (h : w.AllPositive) (b : TimerBox) :
    (w.finishCall b).AllPositive := by
  obtain ⟨_, _, hEq⟩ | ⟨_, _, hEq⟩ | ⟨_, hEq⟩ := finishCall_cases w b
  · exact hEq ▸ h.congr rfl fun t => by rw [timers_schedule]
  · refine hEq ▸ h.congr rfl fun t => ?_
    change ((w.resetTimerId b.timer).timers t).interval = _
    rw [timers_resetTimerId]
  · exact hEq ▸ h

theorem allPositive_step (hInStep : s.wheel.InStep) (h : s.wheel.AllPositive)
    (hPositive : Positive input) (hStep : Transition s input s') : s'.wheel.AllPositive := by
  cases hStep with
  | createTimer _ hCreate => exact h.createTimer hPositive.ne_zero hCreate
  | deleteTimer _ hDelete =>
    obtain ⟨-, -, rfl⟩ := deleteTimer_eq_some.mp hDelete
    refine h.congr rfl fun t => ?_
    simp only [timers_delete]
  | start hCreate =>
    have hCreated := h.createTimer (by decide) hCreate
    exact hCreated
  | endPass | endFireAll | meetDead | meetDue | fireDead => exact h
  | @fireAll w atEnd now =>
    have hTicked : (w.ticked now).InStep := hInStep.advance 1
    obtain ⟨_, _, hFrame⟩ := collect_frame hTicked
    rw [hFrame]
    exact h
  | @afterSockets w uiPollInterval now created =>
    obtain ⟨_, hEq⟩ := afterSockets_eq (w.readClock now).2 uiPollInterval (now - w.lastTime)
    rw [hEq]
    exact h
  | meetEarly => exact h.congr rfl fun t => by rw [timers_schedule]; rfl
  | @fireDue w b iteAll =>
    refine h.congr rfl fun t => ?_
    change ((w.setNextFire b.timer (w.timers b.timer).interval).timers t).interval = _
    rw [timers_setNextFire]
  | fireEarly => exact h.congr rfl fun t => by rw [timers_schedule]
  | passReturn => exact allPositive_finishCall h _
  | fireReturn => exact allPositive_finishCall h _

/-- How boxes get into a slot: at the current position, for a later one. -/
def Joins (w w' : TimerWheel) : Prop :=
  ∀ i, ∀ b ∈ w'.setTimers i, b ∈ w.setTimers i ∨ (w'.pos = w.pos ∧
    ∃ n, n ≠ 0 ∧ i = (w.pos + (hop n).toNat) % maxArraySize ∧ b.putAt = w.pos)

theorem joins_schedule {w₀ : TimerWheel} (hStep : w.InStep) (id t : Nat) {n : UInt32} (hn : n ≠ 0)
    (hSlots : ∀ i, ∀ b ∈ w.setTimers i, b ∈ w₀.setTimers i) (hPos : w.pos = w₀.pos) :
    Joins w₀ (w.schedule id t n) := by
  intro i b hb
  obtain hb | ⟨rfl, rfl⟩ := mem_schedule.mp hb
  · exact .inl (hSlots i b hb)
  · exact .inr ⟨hPos, n, hn, by rw [hStep.slot, hPos], hPos⟩

theorem joins_of_subset (hSlots : ∀ i, ∀ b ∈ w'.setTimers i, b ∈ w.setTimers i) : Joins w w' :=
  fun i b hb => .inl (hSlots i b hb)

theorem joins_finishCall (hStep : w.InStep) (b : TimerBox)
    (hInterval : (w.timers b.timer).interval ≠ 0) : Joins w (w.finishCall b) := by
  obtain ⟨_, _, hEq⟩ | ⟨_, _, hEq⟩ | ⟨_, hEq⟩ := finishCall_cases w b
  · exact hEq ▸ joins_schedule hStep b.timerID b.timer hInterval (fun _ _ hb => hb) rfl
  · exact hEq ▸ joins_of_subset fun _ _ hb => hb
  · exact hEq ▸ joins_of_subset fun _ _ hb => hb

theorem createTimer_slots {uiInt : UInt32} {isRepeated : Bool}
    (hCreate : w.createTimer uiInt isRepeated = some w') :
    ∃ b : TimerBox, b.putAt = w.pos ∧ ∀ i, ∀ b' : TimerBox, b' ∈ w'.setTimers i ↔
      b' ∈ w.setTimers i ∨ (i = slot (w.currentPos + hop uiInt) ∧ b' = b) := by
  obtain ⟨id, w₀, hID, rfl⟩ := createTimer_eq_some.mp hCreate
  obtain ⟨_, _, _, rfl⟩ := getTimerIDFromStack_frame hID
  exact ⟨⟨id, w.timerCount, w.pos⟩, rfl, fun _ _ => mem_schedule⟩

theorem joins_createTimer {uiInt : UInt32} {isRepeated : Bool} (hStep : w.InStep)
    (hPositive : uiInt ≠ 0) (hCreate : w.createTimer uiInt isRepeated = some w') : Joins w w' := by
  obtain ⟨new, hNew, hSlots⟩ := createTimer_slots hCreate
  rintro i b hb
  obtain hb | ⟨rfl, rfl⟩ := (hSlots i b).mp hb
  · exact .inl hb
  · exact .inr ⟨(createTimer_positions hCreate).2, uiInt, hPositive, hStep.slot _, hNew⟩

theorem collectSlots_subset (n p : Nat) (w : TimerWheel) (l : List TimerBox) :
    ∀ i, ∀ b ∈ (collectSlots n p w l).1.setTimers i, b ∈ w.setTimers i := by
  induction n generalizing p w l with
  | zero => exact fun _ _ hb => hb
  | succ n ih =>
    intro i b hb
    exact collectSlot_subset _ l i b (ih (p + 1) (w.collectSlot (p % maxArraySize) l).1 _ i b hb)

theorem collectSlots_empty (n p : Nat) (w : TimerWheel) (l : List TimerBox) :
    EmptyAhead (collectSlots n p w l).1 p n := by
  induction n generalizing p w l with
  | zero => exact fun q hLe hLt => absurd hLt (Nat.not_lt.mpr hLe)
  | succ n ih =>
    intro q hLe hLt
    obtain rfl | hLess := Nat.eq_or_lt_of_le hLe
    · apply List.eq_nil_iff_forall_not_mem.mpr
      intro b hb
      have hb := collectSlots_subset n (p + 1) (w.collectSlot (p % maxArraySize) l).1 _ _ b hb
      simp [collectSlot] at hb
    · exact ih (p + 1) _ _ q hLess (by omega)

theorem joins_step (hOwned : s.Owned) (hInStep : s.wheel.InStep) (hAll : s.wheel.AllPositive)
    (hPositive : Positive input) (hStep : Transition s input s') : Joins s.wheel s'.wheel := by
  cases hStep with
  | createTimer _ hCreate => exact joins_createTimer hInStep hPositive.ne_zero hCreate
  | deleteTimer _ hDelete =>
    obtain ⟨-, -, rfl⟩ := deleteTimer_eq_some.mp hDelete
    exact joins_of_subset fun _ _ hb => hb
  | start hCreate =>
    have hCreated := joins_createTimer hInStep (by decide) hCreate
    exact hCreated
  | endPass | endFireAll | fireDead | fireDue => exact joins_of_subset fun _ _ hb => hb
  | @fireAll w atEnd now =>
    have hTicked : (w.ticked now).InStep := hInStep.advance 1
    apply joins_of_subset
    rw [collect_eq_collectSlots hTicked]
    exact collectSlots_subset _ _ (w.ticked now) []
  | @afterSockets w uiPollInterval now created =>
    obtain ⟨_, hEq⟩ := afterSockets_eq (w.readClock now).2 uiPollInterval (now - w.lastTime)
    rw [hEq]
    exact joins_of_subset fun _ _ hb => hb
  | meetDead hSlot _ => exact joins_of_subset (popSlot_subset hSlot)
  | meetDue hSlot _ _ => exact joins_of_subset (popSlot_subset hSlot)
  | @meetEarly w b rest hSlot _ hEarly =>
    exact joins_schedule (w := w.popSlot rest) hInStep _ _ hEarly (popSlot_subset hSlot) rfl
  | fireEarly _ hEarly => exact joins_schedule hInStep _ _ hEarly (fun _ _ hb => hb) rfl
  | @passReturn w b atEnd =>
    refine joins_finishCall hInStep b (hAll _ ?_)
    exact TimerWheel.Owned.allocated hOwned (key b) List.mem_cons_self
  | @fireReturn w b iteAll =>
    refine joins_finishCall hInStep b (hAll _ ?_)
    exact TimerWheel.Owned.allocated hOwned (key b) List.mem_cons_self

end CStabilizer.TimerWheel
