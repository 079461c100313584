import CStabilizer.SocketManager.TimerClock

/-! # How late a timer can be

A timer of less than a lap goes into the slot where it is due, and stays in it until it
is met there. In a run that skips no slot it is met in time by the wheel, so its delay
by the clock is that of the wheel. -/

namespace CStabilizer.TimerWheel

open Library Library.Buckets

variable {w w' : TimerWheel} {s s' : State} {input : Input} {b : TimerBox}
  {waiting waiting' : List TimerBox}

/-! ## Timers of less than a lap -/

def WithinLap (w : TimerWheel) (t : Nat) : Prop := (w.timers t).interval.toNat < maxArraySize

structure Placed (w : TimerWheel) (waiting : List TimerBox) : Prop where
  slots : ∀ i < maxArraySize, ∀ b ∈ w.setTimers i, w.isTimerLive b.timerID = true →
    w.WithinLap b.timer → (w.timers b.timer).nextFire = 0 ∧ b.putAt = w.since b.timer ∧
      i = (w.since b.timer + (w.timers b.timer).interval.toNat) % maxArraySize
  waiting : ∀ b ∈ waiting, w.isTimerLive b.timerID = true → w.WithinLap b.timer →
    (w.timers b.timer).nextFire = 0

/-- What the place of a timer depends on. -/
structure SamePlace (w w' : TimerWheel) (t : Nat) : Prop where
  interval : (w'.timers t).interval = (w.timers t).interval
  nextFire : (w'.timers t).nextFire = (w.timers t).nextFire
  since : w'.since t = w.since t

theorem Placed.frame (h : Placed w waiting)
    (hSlots : ∀ i, ∀ b ∈ w'.setTimers i, b ∈ w.setTimers i)
    (hWaiting : ∀ b ∈ waiting', b ∈ waiting)
    (hLive : ∀ b ∈ w'.boxesWith waiting', w'.isTimerLive b.timerID = true →
      w.isTimerLive b.timerID = true ∧ SamePlace w w' b.timer) : Placed w' waiting' where
  slots i hi b hb hLive' hLap := by
    have hMem : b ∈ w'.boxesWith waiting' :=
      List.mem_append_right _ (mem_contents.mpr ⟨i, hi, hb⟩)
    obtain ⟨hWas, hSame⟩ := hLive b hMem hLive'
    unfold WithinLap at hLap
    rw [hSame.interval] at hLap
    rw [hSame.nextFire, hSame.since, hSame.interval]
    exact h.slots i hi b (hSlots i b hb) hWas hLap
  waiting b hb hLive' hLap := by
    obtain ⟨hWas, hSame⟩ := hLive b (List.mem_append_left _ hb) hLive'
    unfold WithinLap at hLap
    rw [hSame.interval] at hLap
    rw [hSame.nextFire]
    exact h.waiting b (hWaiting b hb) hWas hLap

/-- Nothing that the places depend on has changed. -/
theorem Placed.congr (h : Placed w waiting)
    (hSlots : ∀ i, ∀ b ∈ w'.setTimers i, b ∈ w.setTimers i)
    (hWaiting : ∀ b ∈ waiting', b ∈ waiting) (hPtr : w'.ptrTimers = w.ptrTimers)
    (hTimers : w'.timers = w.timers) (hTrace : w'.trace = w.trace) : Placed w' waiting' := by
  refine h.frame hSlots hWaiting fun b _ hLive => ⟨?_, ?_, ?_, ?_⟩
  · rwa [isTimerLive, hPtr] at hLive
  · rw [hTimers]
  · rw [hTimers]
  · rw [TimerWheel.since, TimerWheel.since, hTimers, hTrace]

theorem Placed.popSlot {rest : List TimerBox} (h : Placed w waiting)
    (hSlot : w.setTimers (slot w.currentPos) = b :: rest) : Placed (w.popSlot rest) waiting :=
  h.congr (popSlot_subset hSlot) (fun _ hb => hb) rfl rfl rfl

theorem Placed.tail (h : Placed w (b :: waiting)) : Placed w waiting :=
  h.congr (fun _ _ hb => hb) (fun _ hb => List.mem_cons_of_mem _ hb) rfl rfl rfl

theorem left_of_lt {n : UInt32} (h : n.toNat < 1024) : left n = 0 :=
  if_pos (by rwa [UInt32.lt_iff_toNat_lt])

theorem Placed.setNextFire {t : Nat} (h : Placed w waiting) (hAlone : Alone w t waiting)
    (n : UInt32) : Placed (w.setNextFire t n) waiting := by
  refine h.frame (fun _ _ hb => hb) (fun _ hb => hb) fun b hb hLive => ⟨hLive, ?_, ?_, ?_⟩
  · rw [timers_setNextFire]
  · rw [timers_setNextFire, if_neg (hAlone b hb hLive)]
  · rw [TimerWheel.since, timers_setNextFire]
    rfl

theorem Placed.schedule {t : Nat} {n : UInt32} (h : Placed w waiting) (hStep : w.InStep)
    (hAlone : Alone w t waiting) (id : Nat)
    (hNew : w.WithinLap t → n = (w.timers t).interval ∧ w.since t = w.pos) :
    Placed (w.schedule id t n) waiting := by
  have hOld := h.setNextFire hAlone (left n)
  refine ⟨fun i hi b hb hLive hLap => ?_, hOld.waiting⟩
  obtain hb | ⟨hSlot, rfl⟩ := mem_schedule.mp hb
  · exact hOld.slots i hi b hb hLive hLap
  · have hSince : (w.schedule id t n).since t = w.since t := by
      rw [since, timers_schedule]
      rfl
    have hLap' : w.WithinLap t := by
      unfold WithinLap at hLap
      rwa [timers_schedule] at hLap
    obtain ⟨rfl, hPos⟩ := hNew hLap'
    rw [hSince, hPos, timers_schedule]
    refine ⟨?_, rfl, ?_⟩
    · rw [if_pos rfl, left_of_lt hLap']
    · rw [hSlot, hStep.slot, hop_of_lt hLap']

theorem Placed.onTimer {t : Nat} (h : Placed w waiting) (hAlone : Alone w t waiting) :
    Placed (w.onTimer t) waiting := by
  refine h.frame (fun _ _ hb => hb) (fun _ hb => hb) fun b hb hLive => ⟨hLive, rfl, rfl, ?_⟩
  have hCalls : calls b.timer (w.onTimer t).trace = calls b.timer w.trace :=
    calls_onTimer_of_ne (hAlone b hb hLive).symm ..
  rw [TimerWheel.since, hCalls]
  rfl

theorem Placed.finishCall (h : Placed w waiting) (hStep : w.InStep)
    (hOwned : Owned w (w.keysWith (b :: waiting)))
    (hCalled : w.isTimerLive b.timerID = true → w.since b.timer = w.pos) :
    Placed (w.finishCall b) waiting := by
  obtain ⟨hLive, _, hEq⟩ | ⟨_, _, hEq⟩ | ⟨_, hEq⟩ := finishCall_cases w b
  · rw [hEq]
    exact h.schedule hStep (Owned.alone hOwned hLive) b.timerID fun _ => ⟨rfl, hCalled hLive⟩
  · have hTimers (t : Nat) : ((w.resetTimerId b.timer).recycle b.timerID).timers t =
        { w.timers t with timerID := if t = b.timer then 0 else (w.timers t).timerID } :=
      timers_resetTimerId b.timer t
    rw [hEq]
    refine h.frame (fun _ _ hb => hb) (fun _ hb => hb) fun b' _ hLive => ⟨hLive, ?_, ?_, ?_⟩
    · rw [hTimers]
    · rw [hTimers]
    · rw [TimerWheel.since, hTimers]
      rfl
  · rw [hEq]
    exact h.congr (fun _ _ hb => hb) (fun _ hb => hb) rfl rfl rfl

theorem Placed.createTimer {uiInt : UInt32} {isRepeated : Bool} {held : List TimerBox}
    (h : Placed w waiting) (hStep : w.InStep) (hOwned : Owned w (w.keysWith held))
    (hWaiting : ∀ b ∈ waiting, b ∈ held) (hFresh : calls w.timerCount w.trace = [])
    (hCreate : w.createTimer uiInt isRepeated = some w') : Placed w' waiting := by
  obtain ⟨id, w₀, hID, rfl⟩ := createTimer_eq_some.mp hCreate
  have hKey : ∀ b ∈ w.boxesWith waiting, key b ∈ w.keysWith held := by
    intro b hb
    refine List.mem_map_of_mem ?_
    obtain hb | hb := List.mem_append.mp hb
    · exact List.mem_append_left _ (hWaiting b hb)
    · exact List.mem_append_right _ hb
  have hRegisterLive {b : TimerBox} (hb : b ∈ w.boxesWith waiting) :
      (w₀.register id uiInt isRepeated).isTimerLive b.timerID = w.isTimerLive b.timerID :=
    hOwned.register_live hID (hKey b hb)
  obtain ⟨max, ptr, free, rfl⟩ := getTimerIDFromStack_frame hID
  have hRegister : Placed (register { w with
      maxTimers := max, ptrTimers := ptr, freeTimerIDs := free } id uiInt isRepeated) waiting := by
    refine h.frame (fun _ _ hb => hb) (fun _ hb => hb) fun b hb hLive => ?_
    have hOld : b.timer < w.timerCount := hOwned.allocated _ (hKey b hb)
    refine ⟨(hRegisterLive hb).symm.trans hLive, ?_, ?_, ?_⟩
    · exact congrArg Timer.interval (timers_register hOld)
    · exact congrArg Timer.nextFire (timers_register hOld)
    · exact congrArg (fun timer : Timer => (calls b.timer w.trace).getLastD timer.createdAt)
        (timers_register hOld)
  refine hRegister.schedule hStep (fun b hb _ => (hOwned.allocated _ (hKey b hb)).ne) id fun _ => ?_
  simp [TimerWheel.register, since, hFresh]

theorem mem_collectSlots_snd {n p : Nat} {l : List TimerBox}
    (hb : b ∈ (collectSlots n p w l).2) : b ∈ l ∨ ∃ i < maxArraySize, b ∈ w.setTimers i := by
  induction n generalizing p w l with
  | zero => exact .inl hb
  | succ n ih =>
    obtain hb | ⟨i, hi, hb⟩ := ih hb
    · obtain hb | hb := List.mem_append.mp hb
      · exact .inl hb
      · exact .inr ⟨_, Nat.mod_lt _ (by decide), (List.mem_filter.mp hb).1⟩
    · exact .inr ⟨i, hi, collectSlot_subset _ l i b hb⟩

theorem Placed.collect (h : Placed w []) (hStep : w.InStep) : Placed w.collect.1 w.collect.2 := by
  obtain ⟨_, _, hFrame⟩ := collectSlots_frame w.fireCount w.pos w []
  have hSubset := collectSlots_subset w.fireCount w.pos w []
  have hWaiting : ∀ b ∈ (collectSlots w.fireCount w.pos w []).2,
      ∃ i < maxArraySize, b ∈ w.setTimers i := by
    intro b hb
    obtain hb | hb := mem_collectSlots_snd hb
    · cases hb
    · exact hb
  rw [collect_eq_collectSlots hStep]
  rw [hFrame] at hSubset ⊢
  have hSlots := (h.congr hSubset (fun b (hb : b ∈ []) => hb) rfl rfl rfl).slots
  refine ⟨hSlots, fun b hb hLive hLap => ?_⟩
  obtain ⟨i, hi, hb⟩ := hWaiting b hb
  exact (h.slots i hi b hb hLive hLap).1

/-! ## States -/

def State.Placed (s : State) : Prop := TimerWheel.Placed s.wheel s.control.waiting

theorem placed_create : State.Placed ⟨create, .start⟩ where
  slots _ _ _ hb := by cases hb
  waiting _ hb := by cases hb

theorem Transition.placed (h : s.Placed) (hOwned : s.Owned) (hInStep : s.wheel.InStep)
    (hTimely : s.Timely (· ≤ ·)) (hStep : Transition s input s') : s'.Placed := by
  cases hStep with
  | @createTimer w w' c uiInt isRepeated _ hCreate =>
    have hWaiting : ∀ b ∈ c.waiting, b ∈ c.boxes := by
      cases c <;> simp +contextual [Control.waiting, Control.boxes]
    have hSame : (c.noteCreated uiInt).waiting = c.waiting := by cases c <;> rfl
    rw [State.Placed, hSame]
    exact TimerWheel.Placed.createTimer h hInStep hOwned hWaiting
      (TimerWheel.Timely.fresh hTimely _ le_rfl) hCreate
  | @deleteTimer w w' c t _ hDelete =>
    obtain ⟨-, -, rfl⟩ := deleteTimer_eq_some.mp hDelete
    refine TimerWheel.Placed.frame h (fun _ _ hb => hb) (fun _ hb => hb) fun b _ hLive => ⟨?_, ?_⟩
    · simp only [isTimerLive, addToDeletedTimerSet] at hLive ⊢
      obtain hEq | hNe := eq_or_ne b.timerID (w.timers t).timerID
      · simp [hEq] at hLive
      · rwa [Function.update_of_ne hNe] at hLive
    · constructor
      · simp only [timers_delete]
      · simp only [timers_delete]
      · simp only [TimerWheel.since, timers_delete, calls_deleted]
  | @start w w' now hCreate =>
    have hCreated : TimerWheel.Placed w' [] := TimerWheel.Placed.createTimer h hInStep hOwned
      (fun _ hb => by cases hb) (TimerWheel.Timely.fresh hTimely _ le_rfl) hCreate
    exact hCreated.congr (fun _ _ hb => hb) (fun _ hb => hb) rfl rfl rfl
  | endPass => exact TimerWheel.Placed.congr h (fun _ _ hb => hb) (fun _ hb => hb) rfl rfl rfl
  | @fireAll w atEnd now =>
    have hTicked : (w.ticked now).InStep := hInStep.advance 1
    have hPlaced : TimerWheel.Placed (w.ticked now) [] :=
      TimerWheel.Placed.congr h (fun _ _ hb => hb) (fun _ hb => hb) rfl rfl rfl
    exact hPlaced.collect hTicked
  | endFireAll => exact TimerWheel.Placed.congr h (fun _ _ hb => hb) (fun _ hb => hb) rfl rfl rfl
  | @afterSockets w uiPollInterval now created =>
    obtain ⟨_, hEq⟩ := afterSockets_eq (w.readClock now).2 uiPollInterval (now - w.lastTime)
    rw [State.Placed, hEq]
    exact TimerWheel.Placed.congr h (fun _ _ hb => hb) (fun _ hb => hb) rfl rfl rfl
  | meetDead hSlot _ =>
    exact TimerWheel.Placed.congr (TimerWheel.Placed.popSlot h hSlot) (fun _ _ hb => hb)
      (fun _ hb => hb) rfl rfl rfl
  | @meetDue w b rest hSlot hLive hDue =>
    exact (TimerWheel.Placed.popSlot h hSlot).onTimer ((TimerWheel.Owned.popSlot hOwned hSlot).alone hLive)
  | @meetEarly w b rest hSlot hLive hEarly =>
    have hPop : TimerWheel.Placed (w.popSlot rest) [] := TimerWheel.Placed.popSlot h hSlot
    refine hPop.schedule hInStep ((TimerWheel.Owned.popSlot hOwned hSlot).alone hLive) b.timerID
      fun hLap => absurd ?_ hEarly
    exact (TimerWheel.Placed.slots h _ (slot_lt _) b (hSlot ▸ List.mem_cons_self) hLive hLap).1
  | @passReturn w b atEnd =>
    exact TimerWheel.Placed.finishCall h hInStep hOwned fun hLive =>
      (TimerWheel.Timely.called hTimely b List.mem_cons_self hLive).1
  | fireDead _ =>
    exact (TimerWheel.Placed.tail h).congr (fun _ _ hb => hb) (fun _ hb => hb) rfl rfl rfl
  | @fireDue w b iteAll hLive _ =>
    have hAlone := TimerWheel.Owned.alone hOwned hLive
    exact ((TimerWheel.Placed.tail h).setNextFire hAlone _).onTimer hAlone
  | @fireEarly w b iteAll hLive hEarly =>
    refine (TimerWheel.Placed.tail h).schedule hInStep (TimerWheel.Owned.alone hOwned hLive) b.timerID
      fun hLap => absurd ?_ hEarly
    exact TimerWheel.Placed.waiting h b List.mem_cons_self hLive hLap
  | @fireReturn w b iteAll =>
    exact TimerWheel.Placed.finishCall h hInStep hOwned fun hLive =>
      (TimerWheel.Timely.called hTimely b List.mem_cons_self hLive).1

theorem reachable_placed {inputs : List Input} (hRun : machine.run inputs = some s) : s.Placed := by
  refine (Machine.meets_true inputs).induction (P := fun _ s => s.Placed) placed_create ?_ hRun
  intro inputs s input s' hRun hPlaced _ hStep
  exact Transition.placed hPlaced (reachable_owned hRun) (reachable_inStep hRun)
    (reachable_timely Nat.le_refl (.inl fun _ _ _ => Nat.le_trans) hRun) (.of_step hStep)

theorem reachable_ahead {inputs : List Input} (hPositive : ∀ input ∈ inputs, Positive input)
    (hNone : machine.Meets NoneSkipped inputs) (hRun : machine.run inputs = some s) : Ahead s := by
  have hMeets : machine.Meets (fun s input => NoneSkipped s input ∧ Positive input) inputs :=
    fun before input after hSplit s hRun =>
      ⟨hNone before input after hSplit s hRun, hPositive input (hSplit ▸ by simp)⟩
  have hAll : Sound s ∧ Ahead s := by
    refine hMeets.invariant (I := fun s => Sound s ∧ Ahead s)
      ⟨sound_create, fun _ _ hb => by cases hb⟩ ?_ hRun
    rintro s input s' ⟨hSound, hAhead⟩ ⟨hNone, hPositive⟩ hStep
    exact ⟨hSound.step hPositive (.of_step hStep), hAhead.step hSound hPositive hNone hStep⟩
  exact hAll.2

/-- A timer that waits to be called is in a slot, or a loop has its box in hand. -/
theorem exists_box (hOwned : s.Owned) (hTimely : s.Timely (· ≤ ·)) {t : Nat}
    (ht : t < s.wheel.timerCount) (hUndeleted : (s.wheel.timers t).deleted = false)
    (hPending : (s.wheel.timers t).repeated = true ∨ calls t s.wheel.trace = []) :
    ∃ b, b.timer = t ∧ s.wheel.isTimerLive b.timerID = true ∧
      (b ∈ s.control.called ∨ b ∈ s.control.waiting ∨ ∃ i < maxArraySize, b ∈ s.wheel.setTimers i) := by
  have hID : (s.wheel.timers t).timerID ≠ 0 := by
    intro hZero
    obtain ⟨hOnce, hCalled⟩ := TimerWheel.Timely.expired hTimely t ht hZero
    obtain hRepeated | hNone := hPending
    · rw [hOnce] at hRepeated
      cases hRepeated
    · exact hCalled hNone
  obtain ⟨hKey, hPtr⟩ := TimerWheel.Owned.kept hOwned t ht hUndeleted hID
  obtain ⟨b, hb, hEq⟩ := List.mem_map.mp hKey
  have hTimerID : b.timerID = (s.wheel.timers t).timerID := congrArg Prod.fst hEq
  refine ⟨b, congrArg Prod.snd hEq, by rw [isTimerLive, hTimerID, hPtr]; rfl, ?_⟩
  obtain hb | hb := List.mem_append.mp hb
  · have hHeld : ∀ b ∈ s.control.boxes, b ∈ s.control.called ∨ b ∈ s.control.waiting := by
      cases s.control <;> simp [Control.boxes, Control.called, Control.waiting]
    exact (hHeld b hb).imp_right .inl
  · exact .inr (.inr (mem_contents.mp hb))

theorem pos_le_since_add {inputs : List Input} (hPositive : ∀ input ∈ inputs, Positive input)
    (hGuarded : machine.Meets Guarded inputs) (hRun : machine.run inputs = some s)
    (hIdle : s.control.waiting = []) {t : Nat} (ht : t < s.wheel.timerCount)
    (hLap : (s.wheel.timers t).interval.toNat < maxArraySize)
    (hUndeleted : (s.wheel.timers t).deleted = false)
    (hPending : (s.wheel.timers t).repeated = true ∨ calls t s.wheel.trace = []) :
    s.wheel.pos ≤ s.wheel.since t + (s.wheel.timers t).interval.toNat := by
  have hTimely : s.Timely (· ≤ ·) :=
    reachable_timely Nat.le_refl (.inl fun _ _ _ => Nat.le_trans) hRun
  obtain ⟨b, rfl, hLive, hb | hb | ⟨i, hi, hb⟩⟩ :=
    exists_box (reachable_owned hRun) hTimely ht hUndeleted hPending
  · exact Nat.le_add_right_of_le (TimerWheel.Timely.called hTimely b hb hLive).1.ge
  · rw [hIdle] at hb
    cases hb
  · obtain ⟨-, hPutAt, hSlot⟩ := (reachable_placed hRun).slots i hi b hb hLive hLap
    obtain ⟨p, hMod, hLe, hLt⟩ :=
      reachable_ahead hPositive ((unskipped_iff hPositive).mpr hGuarded).1 hRun i b hb
    have hSince := since_le hRun ht
    rw [hPutAt] at hLt
    rw [hSlot] at hMod
    -- Both positions are of one lap, and in one slot.
    unfold maxArraySize at *
    omega

/-! ## Not long after its time -/

/-- A timer of less than a lap that is still to be called waits, by the clock, three times its
interval and twice what the wheel is known to be late, at most. -/
theorem timers_not_delayed {before after : List Input}
    (hPositive : ∀ input ∈ before ++ after, Positive input)
    (hGuarded : machine.Meets Guarded (before ++ after))
    (hPrompt : machine.Meets Prompt (before ++ after)) (hBefore : machine.run before = some s)
    (hRun : machine.run (before ++ after) = some s') (hIdle : s'.control.waiting = []) {t : Nat}
    (ht : t < s.wheel.timerCount) (hLap : (s.wheel.timers t).interval.toNat < maxArraySize)
    (hUndeleted : (s'.wheel.timers t).deleted = false)
    (hPending : (s'.wheel.timers t).repeated = true ∨ calls t s'.wheel.trace = [])
    (hUncalled : calls t s'.wheel.trace = calls t s.wheel.trace) :
    machine.total State.elapsed s after + 3 * s.wheel.pos ≤
      3 * (s.wheel.since t + (s.wheel.timers t).interval.toNat) +
        2 * s'.wheel.totalDeviation.toNat + 2 := by
  have hGrows := grows_of_run hBefore hRun
  have hInterval := hGrows.interval t ht
  have hSince : s'.wheel.since t = s.wheel.since t := by
    rw [since, since, hUncalled, hGrows.createdAt t ht]
  have hPos := pos_le_since_add hPositive hGuarded hRun hIdle (ht.trans_le hGrows.count)
    (hInterval ▸ hLap) hUndeleted hPending
  have hElapsed := elapsed_le hPrompt hBefore hRun
  have hTurns := turns_le hBefore hRun
  rw [hSince, hInterval] at hPos
  unfold reckoned at hElapsed
  omega

/-- Two milliseconds behind its creation the wheel is where a timer of two is due. -/
theorem timers_not_delayed_two : ∃ s s', machine.run [.createTimer 2 false] = some s ∧
    machine.run ([.createTimer 2 false] ++ [.clock 100, .clock 101, .clock 102, .clock 102]) =
      some s' ∧ s'.wheel.pos = 3 ∧ calls 0 s'.wheel.trace = [] ∧
    machine.total State.elapsed s [.clock 100, .clock 101, .clock 102, .clock 102] +
      3 * s.wheel.pos ≤ 3 * (s.wheel.since 0 + (s.wheel.timers 0).interval.toNat) +
        2 * s'.wheel.totalDeviation.toNat + 2 := by
  let before : List Input := [.createTimer 2 false]
  let after : List Input := [.clock 100, .clock 101, .clock 102, .clock 102]
  let s : State := (machine.run before).get (by decide)
  let s' : State := (machine.run (before ++ after)).get (by decide)
  have hBefore : machine.run before = some s := (Option.some_get _).symm
  have hRun : machine.run (before ++ after) = some s' := (Option.some_get _).symm
  have hGuarded : machine.Meets Guarded (before ++ after) :=
    Machine.meets_of_check Guarded (by decide)
  have hPrompt : machine.Meets Prompt (before ++ after) := Machine.meets_of_check Prompt (by decide)
  exact ⟨s, s', hBefore, hRun, by decide, by decide,
    timers_not_delayed (by decide) hGuarded hPrompt hBefore hRun (by decide) (t := 0) (by decide)
      (by decide) (by decide) (by decide) (by decide)⟩

end CStabilizer.TimerWheel
