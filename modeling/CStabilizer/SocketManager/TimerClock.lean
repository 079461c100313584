import CStabilizer.Library.Totals
import CStabilizer.SocketManager.TimerLaps
import CStabilizer.SocketManager.TimerHistory

/-! # The wheel and the clock

A timer waits for positions of the wheel, and its interval is in milliseconds. What
`Run` makes of its readings of the clock ties the two together: the wheel is never
ahead of the clock by more than a position for each turn of the loop. As long as no
reading is far from the one before, it works off half of the time at least. -/

namespace CStabilizer.TimerWheel

open Library Library.Buckets

/-! ## Time -/

/-- The milliseconds from the last reading of the clock to this one. -/
def State.elapsed (s : State) : Input → Nat
  | .clock now => match s.control with
    | .start => 0
    | _ => (now - s.wheel.lastTime).toNat
  | .createTimer .. | .deleteTimer _ | .next => 0

/-- Whether a turn of the loop of `Run` is over but for `FireAll` and `ReadSockets`. -/
def State.turns (s : State) : Input → Nat
  | .clock _ => match s.control with
    | .pass _ => 1
    | _ => 0
  | .createTimer .. | .deleteTimer _ | .next => 0

def Prompt (s : State) (input : Input) : Prop := s.elapsed input ≤ 511

instance instDecidablePrompt (s : State) (input : Input) : Decidable (Prompt s input) :=
  inferInstanceAs (Decidable (_ ≤ _))

/-- Where the wheel stands once it has worked off what it knows to be late. -/
def reckoned (w : TimerWheel) : Nat := w.pos + w.totalDeviation.toNat

variable {w w' : TimerWheel} {s s' : State} {input : Input}

theorem createTimer_totalDeviation {uiInt : UInt32} {isRepeated : Bool}
    (hCreate : w.createTimer uiInt isRepeated = some w') :
    w'.totalDeviation = w.totalDeviation := by
  obtain ⟨id, w₀, hID, rfl⟩ := createTimer_eq_some.mp hCreate
  obtain ⟨_, _, _, rfl⟩ := getTimerIDFromStack_frame hID
  rfl

theorem finishCall_totalDeviation (w : TimerWheel) (b : TimerBox) :
    (w.finishCall b).totalDeviation = w.totalDeviation := by
  obtain ⟨_, _, hEq⟩ | ⟨_, _, hEq⟩ | ⟨_, hEq⟩ := finishCall_cases w b <;> rw [hEq] <;> rfl

theorem createTimer_reckoned {uiInt : UInt32} {isRepeated : Bool}
    (hCreate : w.createTimer uiInt isRepeated = some w') : w'.reckoned = w.reckoned := by
  rw [reckoned, createTimer_totalDeviation hCreate, (createTimer_positions hCreate).2, reckoned]

theorem finishCall_reckoned (w : TimerWheel) (b : TimerBox) :
    (w.finishCall b).reckoned = w.reckoned := by
  rw [reckoned, finishCall_totalDeviation, (finishCall_positions w b).2, reckoned]

theorem fireSpan_le (w : TimerWheel) : w.fireSpan.toNat ≤ w.totalDeviation.toNat := by
  unfold fireSpan
  split
  · exact Nat.le_refl _
  · exact (Nat.le_add_right _ _).trans (hop_add_left _).le

theorem toNat_half (n : UInt32) : (n / 2).toNat = n.toNat / 2 := by
  rw [UInt32.toNat_div]
  rfl

theorem toNat_add_le (m n : UInt32) : (m + n).toNat ≤ m.toNat + n.toNat := by
  rw [UInt32.toNat_add]
  exact Nat.mod_le _ _

theorem toNat_add_half {m n : UInt32} (hm : m.toNat ≤ 766) (hn : n.toNat ≤ 511) :
    (m + n / 2).toNat = m.toNat + n.toNat / 2 := by
  rw [UInt32.toNat_add, toNat_half, Nat.mod_eq_of_lt]
  omega

/-! ## Not ahead -/

theorem reckoned_collect_le (hStep : w.InStep) : w.collect.1.reckoned ≤ w.reckoned := by
  obtain ⟨_, _, hFrame⟩ := collect_frame hStep
  rw [hFrame]
  exact Nat.add_le_add_left (fireSpan_le w) w.pos

theorem reckoned_ticked_le (w : TimerWheel) (now : UInt32) :
    (w.ticked now).reckoned ≤ w.reckoned + (now - w.lastTime).toNat + 1 := by
  have hDeviation := toNat_add_le w.totalDeviation ((now - w.lastTime) / 2)
  rw [toNat_half] at hDeviation
  change w.pos + 1 + (w.totalDeviation + (now - w.lastTime) / 2).toNat ≤
    w.pos + w.totalDeviation.toNat + _ + 1
  omega

/-- What `Run` makes of the time that `ReadSockets` took. -/
theorem afterSockets_cases (w : TimerWheel) {uiPollInterval : UInt32} (uiRet : UInt32)
    (hPoll : 1 ≤ uiPollInterval.toNat) :
    (uiPollInterval.toNat < uiRet.toNat ∧
      (w.afterSockets uiPollInterval uiRet).pos = w.pos + (uiPollInterval.toNat - 1) ∧
      (w.afterSockets uiPollInterval uiRet).totalDeviation =
        w.totalDeviation + (uiRet - uiPollInterval + 1)) ∨
    (uiRet.toNat ≤ uiPollInterval.toNat ∧
      (w.afterSockets uiPollInterval uiRet).pos = w.pos + (uiRet.toNat - 1) ∧
      (w.afterSockets uiPollInterval uiRet).totalDeviation = w.totalDeviation) := by
  unfold afterSockets
  split
  · rename_i hLt
    have hSpan : (uiPollInterval - 1).toNat = uiPollInterval.toNat - 1 :=
      UInt32.toNat_sub_of_le _ _ hPoll
    exact .inl ⟨UInt32.lt_iff_toNat_lt.mp hLt, congrArg (w.pos + ·) hSpan, rfl⟩
  · rename_i hNotLt
    rw [UInt32.lt_iff_toNat_lt, Nat.not_lt] at hNotLt
    split
    · rename_i hRet
      have hSpan : (uiRet - 1).toNat = uiRet.toNat - 1 :=
        UInt32.toNat_sub_of_le _ _ (UInt32.lt_iff_toNat_lt.mp hRet)
      exact .inr ⟨hNotLt, congrArg (w.pos + ·) hSpan, rfl⟩
    · rename_i hRet
      rw [gt_iff_lt, UInt32.lt_iff_toNat_lt, UInt32.toNat_zero] at hRet
      exact .inr ⟨hNotLt, by rw [Nat.eq_zero_of_not_pos hRet]; rfl, rfl⟩

theorem reckoned_afterSockets_le {uiPollInterval uiRet : UInt32} (hPoll : 1 ≤ uiPollInterval.toNat) :
    (w.afterSockets uiPollInterval uiRet).reckoned ≤ w.reckoned + uiRet.toNat := by
  unfold reckoned
  obtain ⟨hLt, hPos, hDeviation⟩ | ⟨_, hPos, hDeviation⟩ := afterSockets_cases w uiRet hPoll
  · have hRest : (uiRet - uiPollInterval).toNat = uiRet.toNat - uiPollInterval.toNat :=
      UInt32.toNat_sub_of_le _ _ hLt.le
    have hOne := toNat_add_le (uiRet - uiPollInterval) 1
    have hSum := toNat_add_le w.totalDeviation (uiRet - uiPollInterval + 1)
    rw [UInt32.toNat_one] at hOne
    rw [hPos, hDeviation]
    omega
  · rw [hPos, hDeviation]
    omega

theorem reckoned_step_le (hInStep : s.wheel.InStep) (hScanned : s.Scanned)
    (hStep : Transition s input s') :
    s'.wheel.reckoned ≤ s.wheel.reckoned + (s.elapsed input + s.turns input) := by
  cases hStep with
  | createTimer _ hCreate => exact createTimer_reckoned hCreate ▸ Nat.le_add_right ..
  | deleteTimer _ hDelete =>
    obtain ⟨-, -, rfl⟩ := deleteTimer_eq_some.mp hDelete
    exact Nat.le_add_right ..
  | @start w w' now hCreate =>
    change w'.reckoned ≤ _
    exact createTimer_reckoned hCreate ▸ Nat.le_add_right ..
  | endPass => exact reckoned_ticked_le ..
  | @fireAll w atEnd now =>
    have hTicked : (w.ticked now).InStep := hInStep.advance 1
    exact (reckoned_collect_le hTicked).trans (reckoned_ticked_le w now)
  | @endFireAll w now =>
    have hDeviation := toNat_add_le w.totalDeviation ((now - w.lastTime) / 2)
    rw [toNat_half] at hDeviation
    change w.pos + (w.totalDeviation + (now - w.lastTime) / 2).toNat ≤
      w.pos + w.totalDeviation.toNat + ((now - w.lastTime).toNat + 0)
    omega
  | afterSockets => exact reckoned_afterSockets_le hScanned.1
  | passReturn | fireReturn => exact (finishCall_reckoned _ _).le.trans (Nat.le_add_right ..)
  | meetDead | meetDue | meetEarly | fireDead | fireDue | fireEarly => exact Nat.le_add_right ..

/-! ## Not far behind -/

/-- How late the wheel can be known to be when all readings are prompt. -/
def Control.slack : Control → Nat
  | start | fire _ | fireCall .. => 0
  | sockets .. => 255
  | pass _ | passCall .. => 766

def State.Slack (s : State) : Prop := s.wheel.totalDeviation.toNat ≤ s.control.slack

/-- Half milliseconds that are behind the wheel already and not counted yet. -/
def Control.debit : Control → Nat
  | fire _ | fireCall .. => 0
  | sockets .. => 1
  | start | pass _ | passCall .. => 2

theorem ticked_totalDeviation {now : UInt32} (h : w.totalDeviation.toNat ≤ 766)
    (hPrompt : (now - w.lastTime).toNat ≤ 511) :
    (w.ticked now).totalDeviation.toNat =
      w.totalDeviation.toNat + (now - w.lastTime).toNat / 2 := toNat_add_half h hPrompt

theorem afterSockets_totalDeviation {uiPollInterval uiRet : UInt32}
    (hPoll : 1 ≤ uiPollInterval.toNat) (hLate : w.totalDeviation.toNat ≤ 255)
    (hPrompt : uiRet.toNat ≤ 511) :
    (w.afterSockets uiPollInterval uiRet).totalDeviation.toNat ≤ 766 ∧
    uiRet.toNat + 2 * w.reckoned ≤ 2 * (w.afterSockets uiPollInterval uiRet).reckoned + 1 := by
  unfold reckoned
  obtain ⟨hLt, hPos, hDeviation⟩ | ⟨_, hPos, hDeviation⟩ := afterSockets_cases w uiRet hPoll
  · have hRest : (uiRet - uiPollInterval).toNat = uiRet.toNat - uiPollInterval.toNat :=
      UInt32.toNat_sub_of_le _ _ hLt.le
    have hSum : (w.totalDeviation + (uiRet - uiPollInterval + 1)).toNat =
        w.totalDeviation.toNat + (uiRet.toNat - uiPollInterval.toNat + 1) := by
      rw [UInt32.toNat_add, UInt32.toNat_add, hRest, UInt32.toNat_one]
      omega
    rw [hPos, hDeviation, hSum]
    omega
  · rw [hPos, hDeviation]
    omega

theorem reckoned_collect (hStep : w.InStep) (hLate : w.totalDeviation.toNat < 1024) :
    w.collect.1.reckoned = w.reckoned := by
  obtain ⟨_, _, hFrame⟩ := collect_frame hStep
  have hSpan : w.fireSpan = w.totalDeviation := by
    unfold fireSpan
    rw [hop_of_lt hLate, ite_self]
  rw [hFrame, hSpan]
  rfl

theorem Transition.slack (hInStep : s.wheel.InStep) (hScanned : s.Scanned) (h : s.Slack)
    (hPrompt : Prompt s input) (hStep : Transition s input s') : s'.Slack := by
  cases hStep with
  | @createTimer w w' c _ _ hOutside hCreate =>
    unfold State.Slack at *
    rw [createTimer_totalDeviation hCreate]
    cases c <;> exact h
  | deleteTimer _ hDelete =>
    obtain ⟨-, -, rfl⟩ := deleteTimer_eq_some.mp hDelete
    exact h
  | @start w w' now hCreate =>
    change w'.totalDeviation.toNat ≤ 766
    rw [createTimer_totalDeviation hCreate]
    exact Nat.le_trans h (Nat.zero_le _)
  | @endPass w atEnd now _ hOnTime =>
    change (w.ticked now).totalDeviation.toNat ≤ 255
    rw [hOnTime]
    exact Nat.zero_le _
  | @fireAll w atEnd now =>
    have hTicked : (w.ticked now).InStep := hInStep.advance 1
    obtain ⟨_, _, hFrame⟩ := collect_frame hTicked
    unfold State.Slack
    rw [hFrame]
    exact Nat.le_refl 0
  | @endFireAll w now =>
    have hZero : w.totalDeviation.toNat ≤ 0 := h
    have hRead : (now - w.lastTime).toNat ≤ 511 := hPrompt
    change (w.totalDeviation + (now - w.lastTime) / 2).toNat ≤ 255
    rw [toNat_add_half (hZero.trans (Nat.zero_le _)) hRead]
    omega
  | @afterSockets w uiPollInterval now created =>
    exact (afterSockets_totalDeviation (w := (w.readClock now).2) hScanned.1 h hPrompt).1
  | passReturn | fireReturn =>
    unfold State.Slack
    rw [finishCall_totalDeviation]
    exact h
  | meetDead | meetDue | meetEarly | fireDead | fireDue | fireEarly => exact h

theorem le_reckoned_step (hInStep : s.wheel.InStep) (hScanned : s.Scanned) (h : s.Slack)
    (hPrompt : Prompt s input) (hStep : Transition s input s') :
    s.elapsed input + (2 * s.wheel.reckoned + s.control.debit) ≤
      2 * s'.wheel.reckoned + s'.control.debit + s.turns input := by
  cases hStep with
  | @createTimer w w' c _ _ hOutside hCreate =>
    rw [createTimer_reckoned hCreate]
    cases c <;> exact (Nat.zero_add _).le
  | deleteTimer _ hDelete =>
    obtain ⟨-, -, rfl⟩ := deleteTimer_eq_some.mp hDelete
    exact (Nat.zero_add _).le
  | @start w w' now hCreate =>
    change 0 + (2 * w.reckoned + 2) ≤ 2 * w'.reckoned + 2
    rw [createTimer_reckoned hCreate, Nat.zero_add]
  | @endPass w atEnd now =>
    have hTicked := ticked_totalDeviation (w := w) h hPrompt
    change (now - w.lastTime).toNat + (2 * (w.pos + w.totalDeviation.toNat) + 2) ≤
      2 * (w.pos + 1 + (w.ticked now).totalDeviation.toNat) + 1 + 1
    omega
  | @fireAll w atEnd now =>
    have hTicked := ticked_totalDeviation (w := w) h hPrompt
    have hDeviation : w.totalDeviation.toNat ≤ 766 := h
    have hRead : (now - w.lastTime).toNat ≤ 511 := hPrompt
    have hInStep' : (w.ticked now).InStep := hInStep.advance 1
    change (now - w.lastTime).toNat + (2 * (w.pos + w.totalDeviation.toNat) + 2) ≤
      2 * (w.ticked now).collect.1.reckoned + 0 + 1
    rw [reckoned_collect hInStep' (by omega)]
    change _ ≤ 2 * (w.pos + 1 + (w.ticked now).totalDeviation.toNat) + 0 + 1
    omega
  | @endFireAll w now =>
    have hZero : w.totalDeviation.toNat ≤ 0 := h
    have hRead : (now - w.lastTime).toNat ≤ 511 := hPrompt
    have hSum := toNat_add_half (hZero.trans (Nat.zero_le _)) hRead
    change (now - w.lastTime).toNat + (2 * (w.pos + w.totalDeviation.toNat) + 0) ≤
      2 * (w.pos + (w.totalDeviation + (now - w.lastTime) / 2).toNat) + 1 + 0
    omega
  | @afterSockets w uiPollInterval now created =>
    obtain ⟨-, hAfter⟩ :=
      afterSockets_totalDeviation (w := (w.readClock now).2) hScanned.1 h hPrompt
    exact Nat.add_le_add_right hAfter 1
  | @passReturn w b atEnd =>
    change 0 + (2 * w.reckoned + 2) ≤ 2 * (w.finishCall b).reckoned + 2
    rw [finishCall_reckoned, Nat.zero_add]
  | @fireReturn w b iteAll =>
    change 0 + 2 * w.reckoned ≤ 2 * (w.finishCall b).reckoned
    rw [finishCall_reckoned, Nat.zero_add]
  | meetDead | meetDue | meetEarly | fireDead | fireDue | fireEarly => exact (Nat.zero_add _).le

theorem turns_le_step (hInStep : s.wheel.InStep) (hStep : Transition s input s') :
    s.wheel.pos + s.turns input ≤ s'.wheel.pos := by
  cases hStep with
  | createTimer _ hCreate => exact (createTimer_positions hCreate).2.ge
  | deleteTimer _ hDelete => exact (deleteTimer_positions hDelete).2.ge
  | start hCreate => exact (createTimer_positions hCreate).2.ge
  | endPass => exact Nat.le_refl _
  | @fireAll w atEnd now =>
    have hTicked : (w.ticked now).InStep := hInStep.advance 1
    obtain ⟨_, _, hFrame⟩ := collect_frame hTicked
    rw [hFrame]
    exact Nat.le_add_right ..
  | @afterSockets w uiPollInterval now created =>
    obtain ⟨_, hEq⟩ := afterSockets_eq (w.readClock now).2 uiPollInterval (now - w.lastTime)
    rw [hEq]
    exact Nat.le_add_right ..
  | passReturn | fireReturn => exact (finishCall_positions _ _).2.ge
  | endFireAll | meetDead | meetDue | meetEarly | fireDead | fireDue | fireEarly =>
    exact Nat.le_refl _

/-! ## Runs -/

theorem reachable_scanned {inputs : List Input} (hRun : machine.run inputs = some s) :
    s.Scanned := by
  refine (invariant_of_transition (I := fun s => s.wheel.InStep ∧ s.Scanned) ⟨rfl, trivial⟩ ?_
    hRun).2
  rintro s input s' ⟨hInStep, hScanned⟩ hStep
  exact ⟨hStep.inStep hInStep, scanned_step hInStep hScanned hStep⟩

theorem reachable_slack {inputs : List Input} (hPrompt : machine.Meets Prompt inputs)
    (hRun : machine.run inputs = some s) : s.Slack := by
  refine hPrompt.induction (P := fun _ s => s.Slack) (Nat.le_refl 0) ?_ hRun
  intro inputs s input s' hRun hSlack hPrompt hStep
  exact Transition.slack (reachable_inStep hRun) (reachable_scanned hRun) hSlack hPrompt
    (.of_step hStep)

section Part

variable {before after : List Input}

/-- The wheel is not ahead of the clock, one position for each turn of the loop apart. -/
theorem reckoned_le (hBefore : machine.run before = some s)
    (hRun : machine.run (before ++ after) = some s') :
    s'.wheel.reckoned ≤ s.wheel.reckoned + machine.total State.elapsed s after +
      machine.total State.turns s after := by
  have hTotal := (Machine.meets_true (before ++ after)).total_le (Φ := fun s => s.wheel.reckoned)
    (g := fun _ _ => 0) (c := fun s input => s.elapsed input + s.turns input) ?_ hBefore hRun
  · rw [Machine.total_zero, Machine.total_add] at hTotal
    push_cast at hTotal
    omega
  · intro inputs s input s' _ hRun _ hStep
    have hLe := reckoned_step_le (reachable_inStep hRun) (reachable_scanned hRun) (.of_step hStep)
    push_cast
    omega

/-- With prompt readings the wheel works off half of the time at least, but for half a
millisecond in each turn. -/
theorem elapsed_le (hPrompt : machine.Meets Prompt (before ++ after))
    (hBefore : machine.run before = some s) (hRun : machine.run (before ++ after) = some s') :
    machine.total State.elapsed s after + 2 * s.wheel.reckoned ≤
      2 * s'.wheel.reckoned + machine.total State.turns s after + 2 := by
  have hTotal := hPrompt.total_le (Φ := fun s => -(2 * s.wheel.reckoned + s.control.debit : Int))
    (g := State.elapsed) (c := State.turns) ?_ hBefore hRun
  · have hDebit : s'.control.debit ≤ 2 := by cases s'.control <;> simp [Control.debit]
    omega
  · intro inputs s input s' hFront hRun hPrompt hStep
    have hLe := le_reckoned_step (reachable_inStep hRun) (reachable_scanned hRun)
      (reachable_slack hFront hRun) hPrompt (.of_step hStep)
    omega

theorem turns_le (hBefore : machine.run before = some s)
    (hRun : machine.run (before ++ after) = some s') :
    s.wheel.pos + machine.total State.turns s after ≤ s'.wheel.pos := by
  have hTotal := (Machine.meets_true (before ++ after)).total_le
    (Φ := fun s => -(s.wheel.pos : Int)) (g := State.turns) (c := fun _ _ => 0) ?_ hBefore hRun
  · rw [Machine.total_zero] at hTotal
    omega
  · intro inputs s input s' _ hRun _ hStep
    have hLe := turns_le_step (reachable_inStep hRun) (.of_step hStep)
    push_cast
    omega

end Part

/-! ## Not before its time -/

/-- The wheel, with what it has still to work off, moves on as the clock does but for a position
for each turn of the loop. So a timer is called once an interval by the clock at most, as far as the
wheel was late or past its last call to begin with and but for a millisecond for each turn. -/
theorem timers_not_hurried {before after : List Input} (hBefore : machine.run before = some s)
    (hRun : machine.run (before ++ after) = some s') :
    s'.wheel.reckoned ≤ s.wheel.reckoned + machine.total State.elapsed s after +
        machine.total State.turns s after ∧
      ∀ t < s.wheel.timerCount, 1 ≤ (s.wheel.timers t).interval →
        s.wheel.since t + ((calls t s'.wheel.trace).length - (calls t s.wheel.trace).length) *
            (s.wheel.timers t).interval.toNat ≤
          s.wheel.reckoned + machine.total State.elapsed s after +
            machine.total State.turns s after := by
  have hReckoned := reckoned_le hBefore hRun
  refine ⟨hReckoned, fun t ht hInterval => ?_⟩
  have hCount := (grows_of_run hBefore hRun).count
  calc _
    _ ≤ s'.wheel.since t := since_add_le hBefore hRun ht hInterval
    _ ≤ s'.wheel.pos := since_le hRun (ht.trans_le hCount)
    _ ≤ s'.wheel.reckoned := Nat.le_add_right ..
    _ ≤ _ := hReckoned

/-- While the clock stands still, two turns of the loop call a timer of two milliseconds. -/
theorem timers_not_hurried_busy : ∃ s s', machine.run [.createTimer 2 false] = some s ∧
    machine.run ([.createTimer 2 false] ++
      [.clock 0, .clock 0, .clock 0, .clock 0, .clock 0, .next]) = some s' ∧
    machine.total State.elapsed s [.clock 0, .clock 0, .clock 0, .clock 0, .clock 0, .next] = 0 ∧
    s'.wheel.reckoned ≤ s.wheel.reckoned +
        machine.total State.elapsed s [.clock 0, .clock 0, .clock 0, .clock 0, .clock 0, .next] +
        machine.total State.turns s [.clock 0, .clock 0, .clock 0, .clock 0, .clock 0, .next] ∧
    s.wheel.since 0 + ((calls 0 s'.wheel.trace).length - (calls 0 s.wheel.trace).length) *
        (s.wheel.timers 0).interval.toNat ≤
      s.wheel.reckoned +
        machine.total State.elapsed s [.clock 0, .clock 0, .clock 0, .clock 0, .clock 0, .next] +
        machine.total State.turns s [.clock 0, .clock 0, .clock 0, .clock 0, .clock 0, .next] ∧
    calls 0 s'.wheel.trace = [3] := by
  let before : List Input := [.createTimer 2 false]
  let after : List Input := [.clock 0, .clock 0, .clock 0, .clock 0, .clock 0, .next]
  let s : State := (machine.run before).get (by decide)
  let s' : State := (machine.run (before ++ after)).get (by decide)
  have hBefore : machine.run before = some s := (Option.some_get _).symm
  have hRun : machine.run (before ++ after) = some s' := (Option.some_get _).symm
  have hElapsed : machine.total State.elapsed s after = 0 := by decide
  have hCalls : calls 0 s'.wheel.trace = [3] := by decide
  obtain ⟨hReckoned, hTimers⟩ := timers_not_hurried hBefore hRun
  exact ⟨s, s', hBefore, hRun, hElapsed, hReckoned, hTimers 0 (by decide) (by decide), hCalls⟩

end CStabilizer.TimerWheel
