import CStabilizer.SocketManager.TimerWheel

/-! # The steps of the timer loops

What one step can do, and the one way in which a timer enters a slot. -/

namespace CStabilizer.TimerWheel

open Library Library.Buckets

variable {w : TimerWheel}

/-! ## Entering a slot -/

/-- How far ahead a timer with `n` positions to wait is put. -/
def hop (n : UInt32) : UInt32 := if n < 1024 then n else 1023

/-- What is left to wait when that slot is met. -/
def left (n : UInt32) : UInt32 := if n < 1024 then 0 else n - 1024 + 1

def schedule (w : TimerWheel) (uiTimerID pTimer : Nat) (n : UInt32) : TimerWheel :=
  (w.setNextFire pTimer (left n)).pushBack (w.currentPos + hop n) uiTimerID pTimer

theorem lastSlot (ui : UInt32) : ui + 1024 - 1 = ui + 1023 := by
  rw [UInt32.sub_eq_add_neg, UInt32.add_assoc]
  rfl

theorem setNextFire_self {pTimer : Nat} {n : UInt32} (h : (w.timers pTimer).nextFire = n) :
    w.setNextFire pTimer n = w := by
  subst h
  simp [setNextFire]

theorem addToTimerList_eq {pTimer : Nat} (h : (w.timers pTimer).nextFire = 0) :
    w.addToTimerList pTimer =
      w.schedule (w.timers pTimer).timerID pTimer (w.timers pTimer).interval := by
  simp only [addToTimerList, schedule, hop, left]
  split
  · rw [setNextFire_self h]
  · rw [lastSlot]

theorem addToCorrectSlot_eq (b : TimerBox) :
    w.addToCorrectSlot b = w.schedule b.timerID b.timer (w.timers b.timer).nextFire := by
  simp only [addToCorrectSlot, schedule, hop, left]
  split
  · rfl
  · rw [lastSlot]

theorem hop_add_left (n : UInt32) : (hop n).toNat + (left n).toNat = n.toNat := by
  unfold hop left
  split
  · rfl
  · rename_i h
    have hLe : 1024 ≤ n.toNat := by simpa [UInt32.lt_iff_toNat_lt] using h
    have hLt := n.toNat_lt
    simp [UInt32.toNat_sub, UInt32.toNat_add]
    omega

theorem hop_lt (n : UInt32) : (hop n).toNat < maxArraySize := by
  unfold hop maxArraySize
  split
  · rename_i h
    simpa [UInt32.lt_iff_toNat_lt] using h
  · decide

theorem hop_pos {n : UInt32} (h : n ≠ 0) : 0 < (hop n).toNat := by
  unfold hop
  split
  · exact Nat.pos_of_ne_zero fun hZero => h (UInt32.toNat_inj.mp hZero)
  · decide

theorem slot_lt (ui : UInt32) : slot ui < maxArraySize := Nat.mod_lt _ (by decide)

theorem setNextFire_schedule (uiTimerID pTimer : Nat) (m n : UInt32) :
    (w.setNextFire pTimer m).schedule uiTimerID pTimer n = w.schedule uiTimerID pTimer n := by
  simp [schedule, setNextFire, pushBack]

theorem mem_schedule {id t i : Nat} {n : UInt32} {b : TimerBox} :
    b ∈ (w.schedule id t n).setTimers i ↔
      b ∈ w.setTimers i ∨ (i = slot (w.currentPos + hop n) ∧ b = ⟨id, t, w.pos⟩) := by
  change b ∈ Function.update w.setTimers (slot (w.currentPos + hop n)) _ i ↔ _
  obtain rfl | hNe := eq_or_ne i (slot (w.currentPos + hop n))
  · simp [setNextFire]
  · simp [hNe]

/-- Setting the next fire of a timer leaves its other fields and all other timers alone. -/
theorem timers_setNextFire (pTimer t : Nat) (n : UInt32) :
    (w.setNextFire pTimer n).timers t = { w.timers t with
      nextFire := if t = pTimer then n else (w.timers t).nextFire } := by
  obtain rfl | hNe := eq_or_ne t pTimer
  · simp [setNextFire]
  · simp [setNextFire, hNe]

theorem timers_schedule (id pTimer t : Nat) (n : UInt32) :
    (w.schedule id pTimer n).timers t = { w.timers t with
      nextFire := if t = pTimer then left n else (w.timers t).nextFire } :=
  timers_setNextFire pTimer t (left n)

theorem timers_resetTimerId (pTimer t : Nat) :
    (w.resetTimerId pTimer).timers t = { w.timers t with
      timerID := if t = pTimer then 0 else (w.timers t).timerID } := by
  obtain rfl | hNe := eq_or_ne t pTimer
  · simp [resetTimerId]
  · simp [resetTimerId, hNe]

theorem timers_delete (pTimer t : Nat) :
    Function.update w.timers pTimer { w.timers pTimer with deleted := true } t =
      { w.timers t with deleted := if t = pTimer then true else (w.timers t).deleted } := by
  obtain rfl | hNe := eq_or_ne t pTimer
  · simp
  · simp [hNe]

theorem finishCall_cases (w : TimerWheel) (b : TimerBox) :
    (w.isTimerLive b.timerID = true ∧ (w.timers b.timer).repeated = true ∧
      w.finishCall b = w.schedule b.timerID b.timer (w.timers b.timer).interval) ∨
    (w.isTimerLive b.timerID = true ∧ (w.timers b.timer).repeated = false ∧
      w.finishCall b = (w.resetTimerId b.timer).recycle b.timerID) ∨
    (w.isTimerLive b.timerID = false ∧ w.finishCall b = w.recycle b.timerID) := by
  simp only [finishCall, addToCorrectSlot_eq, setNextFire_schedule]
  split
  · rename_i hLive
    split
    · rename_i hRepeated
      exact .inl ⟨hLive, hRepeated, by simp [setNextFire]⟩
    · rename_i hOnce
      exact .inr (.inl ⟨hLive, Bool.eq_false_iff.mpr hOnce, rfl⟩)
  · rename_i hDead
    exact .inr (.inr ⟨Bool.eq_false_iff.mpr hDead, rfl⟩)

/-! ## Creating a timer -/

/-- The wheel with a new timer that is not in a slot yet. -/
def register (w : TimerWheel) (uiTimerID : Nat) (uiInt : UInt32) (isRepeated : Bool) : TimerWheel :=
  { w with
    timers := Function.update w.timers w.timerCount ⟨uiInt, isRepeated, 0, uiTimerID, w.pos, false⟩
    timerCount := w.timerCount + 1
    ptrTimers := Function.update w.ptrTimers uiTimerID (some w.timerCount) }

theorem createTimer_eq_some {w' : TimerWheel} {uiInt : UInt32} {isRepeated : Bool} :
    w.createTimer uiInt isRepeated = some w' ↔
      ∃ uiTimerID w₀, w.getTimerIDFromStack = some (uiTimerID, w₀) ∧
        w' = (w₀.register uiTimerID uiInt isRepeated).schedule uiTimerID w₀.timerCount uiInt := by
  have hAdd (uiTimerID : Nat) (w₀ : TimerWheel) :
      (w₀.register uiTimerID uiInt isRepeated).addToTimerList w₀.timerCount =
        (w₀.register uiTimerID uiInt isRepeated).schedule uiTimerID w₀.timerCount uiInt := by
    rw [addToTimerList_eq] <;> simp [register]
  unfold createTimer
  simp only [Option.bind_eq_bind, Option.bind_eq_some_iff, Prod.exists]
  constructor
  · rintro ⟨uiTimerID, w₀, hID, hEq⟩
    refine ⟨uiTimerID, w₀, hID, ?_⟩
    rw [← hAdd]
    exact (Option.some.inj hEq).symm
  · rintro ⟨uiTimerID, w₀, hID, rfl⟩
    refine ⟨uiTimerID, w₀, hID, ?_⟩
    rw [← hAdd]
    rfl

/-- What `GetTimerIDFromStack` changes. -/
theorem getTimerIDFromStack_frame {id : Nat} {w₀ : TimerWheel}
    (hID : w.getTimerIDFromStack = some (id, w₀)) :
    ∃ maxTimers ptrTimers freeTimerIDs, w₀ = { w with maxTimers, ptrTimers, freeTimerIDs } := by
  unfold getTimerIDFromStack at hID
  split at hID
  · cases hID
    exact ⟨_, _, _, rfl⟩
  · split at hID
    · cases hID
    · cases hID
      exact ⟨_, _, _, rfl⟩

theorem timers_register {id t : Nat} {uiInt : UInt32} {isRepeated : Bool} (h : t < w.timerCount) :
    (w.register id uiInt isRepeated).timers t = w.timers t := Function.update_of_ne h.ne _ _

theorem deleteTimer_eq_some {w' : TimerWheel} {pTimer : Nat} :
    w.deleteTimer pTimer = some w' ↔
      pTimer < w.timerCount ∧ (w.timers pTimer).deleted = false ∧
        w' = { w.addToDeletedTimerSet (w.timers pTimer).timerID with
          timers := Function.update w.timers pTimer { w.timers pTimer with deleted := true }
          trace := w.trace ++ [.deleted pTimer] } := by
  simp only [deleteTimer]
  constructor
  · intro h
    split at h
    · rename_i hTimer
      exact ⟨hTimer.1, hTimer.2, (Option.some.inj h).symm⟩
    · cases h
  · rintro ⟨hCount, hUndeleted, rfl⟩
    exact if_pos ⟨hCount, hUndeleted⟩

/-! ## Steps -/

theorem collectLoop_succ (turns : Nat) (ui : UInt32) (lstFireAll : List TimerBox) :
    collectLoop (turns + 1) ui w lstFireAll =
      if ui < w.currentPos + w.totalDeviation then
        if turns = 0 then ({ w with totalDeviation := 1024 - 1 }, lstFireAll)
        else collectLoop turns (ui + 1) (w.collectSlot (slot ui) lstFireAll).1
          (w.collectSlot (slot ui) lstFireAll).2
      else (w, lstFireAll) := rfl

def popSlot (w : TimerWheel) (rest : List TimerBox) : TimerWheel :=
  { w with setTimers := Function.update w.setTimers (slot w.currentPos) rest }

theorem popSlot_subset {b : TimerBox} {rest : List TimerBox}
    (hSlot : w.setTimers (slot w.currentPos) = b :: rest) :
    ∀ i, ∀ b' ∈ (w.popSlot rest).setTimers i, b' ∈ w.setTimers i := by
  intro i b' hb'
  obtain rfl | hNe := eq_or_ne i (slot w.currentPos)
  · rw [hSlot]
    apply List.mem_cons_of_mem _
    simpa [popSlot] using hb'
  · simpa [popSlot, hNe] using hb'

theorem collectSlot_subset (i : Nat) (l : List TimerBox) :
    ∀ j, ∀ b ∈ (w.collectSlot i l).1.setTimers j, b ∈ w.setTimers j := by
  intro j b hb
  change b ∈ Function.update w.setTimers i [] j at hb
  obtain rfl | hNe := eq_or_ne j i
  · rw [Function.update_self] at hb
    cases hb
  · rwa [Function.update_of_ne hNe] at hb

/-- How far `Run` moves behind `ReadSockets`. -/
def socketSpan (uiPollInterval uiRet : UInt32) : UInt32 :=
  if uiPollInterval < uiRet then uiPollInterval - 1 else if uiRet > 0 then uiRet - 1 else 0

theorem afterSockets_eq (w : TimerWheel) (uiPollInterval uiRet : UInt32) :
    ∃ totalDeviation, w.afterSockets uiPollInterval uiRet =
      { w.advance (socketSpan uiPollInterval uiRet) with totalDeviation } := by
  unfold afterSockets socketSpan
  split
  · exact ⟨_, rfl⟩
  · split
    · exact ⟨_, rfl⟩
    · exact ⟨w.totalDeviation, by simp [TimerWheel.advance]⟩

/-- The wheel behind the slot pass, when the clock has been read. -/
def ticked (w : TimerWheel) (now : UInt32) : TimerWheel :=
  ((w.advance 1).readClock now).2.deviate ((now - w.lastTime) / 2)

inductive Transition : State → Input → State → Prop where
  | createTimer {w w' : TimerWheel} {c : Control} {uiInt : UInt32} {isRepeated : Bool}
      (hOutside : c.outside = true) (hCreate : w.createTimer uiInt isRepeated = some w') :
      Transition ⟨w, c⟩ (.createTimer uiInt isRepeated) ⟨w', c.noteCreated uiInt⟩
  | deleteTimer {w w' : TimerWheel} {c : Control} {pTimer : Nat} (hOutside : c.outside = true)
      (hDelete : w.deleteTimer pTimer = some w') :
      Transition ⟨w, c⟩ (.deleteTimer pTimer) ⟨w', c⟩
  | start {w w' : TimerWheel} {now : UInt32}
      (hCreate : w.createTimer pulseInterval true = some w') :
      Transition ⟨w, .start⟩ (.clock now) ⟨(w'.readClock now).2, .pass false⟩
  | endPass {w : TimerWheel} {atEnd : Bool} {now : UInt32} (hOver : w.passOver atEnd = true)
      (hOnTime : (w.ticked now).totalDeviation = 0) :
      Transition ⟨w, .pass atEnd⟩ (.clock now) (w.ticked now).lookAhead
  | fireAll {w : TimerWheel} {atEnd : Bool} {now : UInt32} (hOver : w.passOver atEnd = true)
      (hLate : (w.ticked now).totalDeviation ≠ 0) :
      Transition ⟨w, .pass atEnd⟩ (.clock now)
        ⟨(w.ticked now).collect.1, .fire (w.ticked now).collect.2⟩
  | endFireAll {w : TimerWheel} {now : UInt32} :
      Transition ⟨w, .fire []⟩ (.clock now) (w.endFireAll now)
  | afterSockets {w : TimerWheel} {uiPollInterval now : UInt32} {created : List UInt32} :
      Transition ⟨w, .sockets uiPollInterval created⟩ (.clock now)
        ⟨(w.readClock now).2.afterSockets uiPollInterval (now - w.lastTime), .pass false⟩
  | meetDead {w : TimerWheel} {b : TimerBox} {rest : List TimerBox}
      (hSlot : w.setTimers (slot w.currentPos) = b :: rest)
      (hDead : w.isTimerLive b.timerID = false) :
      Transition ⟨w, .pass false⟩ .next ⟨(w.popSlot rest).recycle b.timerID, .pass rest.isEmpty⟩
  | meetDue {w : TimerWheel} {b : TimerBox} {rest : List TimerBox}
      (hSlot : w.setTimers (slot w.currentPos) = b :: rest)
      (hLive : w.isTimerLive b.timerID = true) (hDue : (w.timers b.timer).nextFire = 0) :
      Transition ⟨w, .pass false⟩ .next
        ⟨(w.popSlot rest).onTimer b.timer, .passCall b rest.isEmpty⟩
  | meetEarly {w : TimerWheel} {b : TimerBox} {rest : List TimerBox}
      (hSlot : w.setTimers (slot w.currentPos) = b :: rest)
      (hLive : w.isTimerLive b.timerID = true) (hEarly : (w.timers b.timer).nextFire ≠ 0) :
      Transition ⟨w, .pass false⟩ .next
        ⟨(w.popSlot rest).schedule b.timerID b.timer (w.timers b.timer).nextFire,
          .pass rest.isEmpty⟩
  | passReturn {w : TimerWheel} {b : TimerBox} {atEnd : Bool} :
      Transition ⟨w, .passCall b atEnd⟩ .next ⟨w.finishCall b, .pass atEnd⟩
  | fireDead {w : TimerWheel} {b : TimerBox} {iteAll : List TimerBox}
      (hDead : w.isTimerLive b.timerID = false) :
      Transition ⟨w, .fire (b :: iteAll)⟩ .next ⟨w.recycle b.timerID, .fire iteAll⟩
  | fireDue {w : TimerWheel} {b : TimerBox} {iteAll : List TimerBox}
      (hLive : w.isTimerLive b.timerID = true) (hDue : (w.timers b.timer).nextFire = 0) :
      Transition ⟨w, .fire (b :: iteAll)⟩ .next
        ⟨(w.setNextFire b.timer (w.timers b.timer).interval).onTimer b.timer, .fireCall b iteAll⟩
  | fireEarly {w : TimerWheel} {b : TimerBox} {iteAll : List TimerBox}
      (hLive : w.isTimerLive b.timerID = true) (hEarly : (w.timers b.timer).nextFire ≠ 0) :
      Transition ⟨w, .fire (b :: iteAll)⟩ .next
        ⟨w.schedule b.timerID b.timer (w.timers b.timer).nextFire, .fire iteAll⟩
  | fireReturn {w : TimerWheel} {b : TimerBox} {iteAll : List TimerBox} :
      Transition ⟨w, .fireCall b iteAll⟩ .next ⟨w.finishCall b, .fire iteAll⟩

variable {s s' : State} {input : Input}

theorem visitSlot_transition (h : w.visitSlot = some s') :
    Transition ⟨w, .pass false⟩ .next s' := by
  unfold visitSlot at h
  split at h
  · cases h
  · rename_i b rest hSlot
    simp only [addToCorrectSlot_eq] at h
    split at h
    · rename_i hLive
      split at h
      · rename_i hDue
        cases h
        exact .meetDue hSlot hLive hDue
      · rename_i hEarly
        cases h
        exact .meetEarly hSlot hLive hEarly
    · rename_i hDead
      cases h
      exact .meetDead hSlot (Bool.eq_false_iff.mpr hDead)

theorem visitFireAll_transition (b : TimerBox) (iteAll : List TimerBox) :
    Transition ⟨w, .fire (b :: iteAll)⟩ .next (w.visitFireAll b iteAll) := by
  unfold visitFireAll
  simp only [addToCorrectSlot_eq]
  split
  · rename_i hLive
    split
    · rename_i hDue
      exact .fireDue hLive hDue
    · rename_i hEarly
      exact .fireEarly hLive hEarly
  · rename_i hDead
    exact .fireDead (Bool.eq_false_iff.mpr hDead)

theorem endPass_transition {atEnd : Bool} {now : UInt32} (hOver : w.passOver atEnd = true) :
    Transition ⟨w, .pass atEnd⟩ (.clock now) (w.endPass now) := by
  have hTicked : w.endPass now =
      if (w.ticked now).totalDeviation > 0 then
        ⟨(w.ticked now).collect.1, .fire (w.ticked now).collect.2⟩
      else (w.ticked now).lookAhead := rfl
  rw [hTicked]
  split
  · rename_i hLate
    exact .fireAll hOver fun hZero => absurd hLate (by rw [hZero]; decide)
  · rename_i hOnTime
    refine .endPass hOver (UInt32.toNat_inj.mp ?_)
    simpa [UInt32.lt_iff_toNat_lt] using hOnTime

theorem Transition.of_step (h : step s input = some s') : Transition s input s' := by
  obtain ⟨w, c⟩ := s
  cases input with
  | createTimer uiInt isRepeated =>
    simp only [step] at h
    split at h
    · rename_i hOutside
      obtain ⟨w', hCreate, rfl⟩ := Option.map_eq_some_iff.mp h
      exact .createTimer hOutside hCreate
    · cases h
  | deleteTimer pTimer =>
    simp only [step] at h
    split at h
    · rename_i hOutside
      obtain ⟨w', hDelete, rfl⟩ := Option.map_eq_some_iff.mp h
      exact .deleteTimer hOutside hDelete
    · cases h
  | clock now =>
    cases c with
    | start =>
      obtain ⟨w', hCreate, rfl⟩ := Option.map_eq_some_iff.mp h
      exact .start hCreate
    | pass atEnd =>
      simp only [step] at h
      split at h
      · rename_i hOver
        cases h
        exact endPass_transition hOver
      · cases h
    | fire iteAll =>
      cases iteAll with
      | nil =>
        cases h
        exact .endFireAll
      | cons b iteAll => cases h
    | sockets uiPollInterval created =>
      cases h
      exact .afterSockets
    | passCall | fireCall => cases h
  | next =>
    cases c with
    | pass atEnd =>
      cases atEnd with
      | false => exact visitSlot_transition h
      | true => cases h
    | passCall b atEnd =>
      cases h
      exact .passReturn
    | fire iteAll =>
      cases iteAll with
      | nil => cases h
      | cons b iteAll =>
        cases h
        exact visitFireAll_transition b iteAll
    | fireCall b iteAll =>
      cases h
      exact .fireReturn
    | start | sockets => cases h

theorem invariant_of_transition {I : State → Prop} (hInit : I ⟨create, .start⟩)
    (hStep : ∀ s input s', I s → Transition s input s' → I s') {inputs : List Input}
    (hRun : machine.run inputs = some s) : I s :=
  Machine.invariant hInit (fun s input s' hI h => hStep s input s' hI (.of_step h)) hRun

end CStabilizer.TimerWheel
