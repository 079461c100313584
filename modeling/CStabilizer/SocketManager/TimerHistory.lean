import CStabilizer.SocketManager.TimerOnTime

/-! # What a run adds to the history of the timers

Timers are created and called, and nothing that has happened is taken back. The
calls of a timer in any part of a run are its interval apart. -/

namespace CStabilizer.TimerWheel

open Library Library.Buckets

variable {w w' : TimerWheel} {s s' : State} {input : Input}

/-- What happens from one state of the wheel to a later one. -/
structure Grows (w w' : TimerWheel) : Prop where
  pos : w.pos ≤ w'.pos
  count : w.timerCount ≤ w'.timerCount
  interval : ∀ t < w.timerCount, (w'.timers t).interval = (w.timers t).interval
  createdAt : ∀ t < w.timerCount, (w'.timers t).createdAt = (w.timers t).createdAt
  created : ∀ t < w'.timerCount, w.timerCount ≤ t → (w'.timers t).createdAt ≤ w'.pos
  trace : ∃ events, w'.trace = w.trace ++ events ∧ ∀ t p, .onTimer t p ∈ events → p ≤ w'.pos

namespace Grows

theorem refl (w : TimerWheel) : Grows w w where
  pos := Nat.le_refl _
  count := Nat.le_refl _
  interval _ _ := rfl
  createdAt _ _ := rfl
  created _ ht hLe := absurd hLe (Nat.not_le.mpr ht)
  trace := ⟨[], by simp, by simp⟩

theorem trans {w₁ w₂ w₃ : TimerWheel} (h : Grows w₁ w₂) (h' : Grows w₂ w₃) : Grows w₁ w₃ where
  pos := h.pos.trans h'.pos
  count := h.count.trans h'.count
  interval t ht := (h'.interval t (ht.trans_le h.count)).trans (h.interval t ht)
  createdAt t ht := (h'.createdAt t (ht.trans_le h.count)).trans (h.createdAt t ht)
  created t ht hLe := by
    obtain hOld | hNew := Nat.lt_or_ge t w₂.timerCount
    · rw [h'.createdAt t hOld]
      exact (h.created t hOld hLe).trans h'.pos
    · exact h'.created t ht hNew
  trace := by
    obtain ⟨events, hTrace, hPos⟩ := h.trace
    obtain ⟨events', hTrace', hPos'⟩ := h'.trace
    refine ⟨events ++ events', by rw [hTrace', hTrace, List.append_assoc], fun t p hMem => ?_⟩
    obtain hMem | hMem := List.mem_append.mp hMem
    · exact (hPos t p hMem).trans h'.pos
    · exact hPos' t p hMem

/-- The timers and what has happened are the same. -/
theorem still (hPos : w.pos ≤ w'.pos) (hCount : w'.timerCount = w.timerCount)
    (hInterval : ∀ t, (w'.timers t).interval = (w.timers t).interval)
    (hCreatedAt : ∀ t, (w'.timers t).createdAt = (w.timers t).createdAt)
    (hTrace : w'.trace = w.trace) : Grows w w' where
  pos := hPos
  count := hCount.ge
  interval t _ := hInterval t
  createdAt t _ := hCreatedAt t
  created t ht hLe := absurd hLe (Nat.not_le.mpr (hCount ▸ ht))
  trace := ⟨[], by simp [hTrace], by simp⟩

theorem schedule (w : TimerWheel) (id t : Nat) (n : UInt32) : Grows w (w.schedule id t n) :=
  still (Nat.le_refl _) rfl (fun _ => by rw [timers_schedule]) (fun _ => by rw [timers_schedule])
    rfl

theorem onTimer (w : TimerWheel) (t : Nat) : Grows w (w.onTimer t) where
  pos := Nat.le_refl _
  count := Nat.le_refl _
  interval _ _ := rfl
  createdAt _ _ := rfl
  created _ ht hLe := absurd hLe (Nat.not_le.mpr ht)
  trace := by
    refine ⟨[.onTimer t w.pos], rfl, fun t' p hMem => ?_⟩
    cases List.mem_singleton.mp hMem
    exact Nat.le_refl _

theorem register (w : TimerWheel) (id : Nat) (uiInt : UInt32) (isRepeated : Bool) :
    Grows w (w.register id uiInt isRepeated) where
  pos := Nat.le_refl _
  count := Nat.le_succ _
  interval t ht := by rw [timers_register ht]
  createdAt t ht := by rw [timers_register ht]
  created t ht hLe := by
    obtain rfl : t = w.timerCount := Nat.le_antisymm (Nat.lt_succ_iff.mp ht) hLe
    simp [TimerWheel.register]
  trace := ⟨[], by simp [TimerWheel.register], by simp⟩

theorem createTimer {uiInt : UInt32} {isRepeated : Bool}
    (hCreate : w.createTimer uiInt isRepeated = some w') : Grows w w' := by
  obtain ⟨id, w₀, hID, rfl⟩ := createTimer_eq_some.mp hCreate
  have hPop : Grows w w₀ := by
    obtain ⟨_, _, _, rfl⟩ := getTimerIDFromStack_frame hID
    exact still (Nat.le_refl _) rfl (fun _ => rfl) (fun _ => rfl) rfl
  exact hPop.trans ((register w₀ id uiInt isRepeated).trans (schedule ..))

theorem finishCall (w : TimerWheel) (b : TimerBox) : Grows w (w.finishCall b) := by
  obtain ⟨_, _, hEq⟩ | ⟨_, _, hEq⟩ | ⟨_, hEq⟩ := finishCall_cases w b
  · exact hEq ▸ schedule ..
  · have hTimers (t : Nat) : ((w.resetTimerId b.timer).recycle b.timerID).timers t =
        { w.timers t with timerID := if t = b.timer then 0 else (w.timers t).timerID } :=
      timers_resetTimerId b.timer t
    exact hEq ▸ still (Nat.le_refl _) rfl (fun t => by rw [hTimers]) (fun t => by rw [hTimers]) rfl
  · exact hEq ▸ still (Nat.le_refl _) rfl (fun _ => rfl) (fun _ => rfl) rfl

end Grows

theorem Transition.grows (hInStep : s.wheel.InStep) (hStep : Transition s input s') :
    Grows s.wheel s'.wheel := by
  cases hStep with
  | createTimer _ hCreate => exact .createTimer hCreate
  | deleteTimer _ hDelete =>
    obtain ⟨-, -, rfl⟩ := deleteTimer_eq_some.mp hDelete
    refine ⟨Nat.le_refl _, Nat.le_refl _, fun t _ => ?_, fun t _ => ?_,
      fun t ht hLe => absurd hLe (Nat.not_le.mpr ht), _, rfl, by simp⟩
    · simp only [timers_delete]
    · simp only [timers_delete]
  | @start w w' now hCreate =>
    have hRead : Grows w' (w'.readClock now).2 :=
      .still (Nat.le_refl _) rfl (fun _ => rfl) (fun _ => rfl) rfl
    exact (Grows.createTimer hCreate).trans hRead
  | endPass => exact .still (Nat.le_succ _) rfl (fun _ => rfl) (fun _ => rfl) rfl
  | @fireAll w atEnd now =>
    have hTicked : (w.ticked now).InStep := hInStep.advance 1
    obtain ⟨_, _, hFrame⟩ := collect_frame hTicked
    rw [hFrame]
    exact .still ((Nat.le_succ _).trans (Nat.le_add_right ..)) rfl (fun _ => rfl) (fun _ => rfl) rfl
  | @afterSockets w uiPollInterval now created =>
    obtain ⟨_, hEq⟩ := afterSockets_eq (w.readClock now).2 uiPollInterval (now - w.lastTime)
    rw [hEq]
    exact .still (Nat.le_add_right ..) rfl (fun _ => rfl) (fun _ => rfl) rfl
  | @meetDue w b rest =>
    have hPop : Grows w (w.popSlot rest) :=
      .still (Nat.le_refl _) rfl (fun _ => rfl) (fun _ => rfl) rfl
    exact hPop.trans (.onTimer _ b.timer)
  | @meetEarly w b rest =>
    have hPop : Grows w (w.popSlot rest) :=
      .still (Nat.le_refl _) rfl (fun _ => rfl) (fun _ => rfl) rfl
    exact hPop.trans (.schedule _ b.timerID b.timer _)
  | @fireDue w b iteAll =>
    have hSet : Grows w (w.setNextFire b.timer (w.timers b.timer).interval) :=
      .still (Nat.le_refl _) rfl (fun _ => by rw [timers_setNextFire])
        (fun _ => by rw [timers_setNextFire]) rfl
    exact hSet.trans (.onTimer _ b.timer)
  | fireEarly => exact .schedule ..
  | passReturn | fireReturn => exact .finishCall ..
  | endFireAll | meetDead | fireDead =>
    exact .still (Nat.le_refl _) rfl (fun _ => rfl) (fun _ => rfl) rfl

theorem grows_of_run {before after : List Input} (hBefore : machine.run before = some s)
    (hRun : machine.run (before ++ after) = some s') : Grows s.wheel s'.wheel := by
  induction after using List.reverseRecOn generalizing s' with
  | nil =>
    rw [List.append_nil, hBefore] at hRun
    obtain rfl := Option.some.inj hRun
    exact .refl _
  | append_singleton after input ih =>
    rw [← List.append_assoc] at hRun
    obtain ⟨s₁, hRun₁, hInput⟩ := Machine.run_concat_eq_some.mp hRun
    exact (ih hRun₁).trans ((Transition.of_step hInput).grows (reachable_inStep hRun₁))

theorem calls_append (t : Nat) (trace events : List TimerEvent) :
    calls t (trace ++ events) = calls t trace ++ calls t events := List.filterMap_append

theorem mem_calls {t p : Nat} {trace : List TimerEvent} :
    p ∈ calls t trace ↔ .onTimer t p ∈ trace := by
  simp only [calls, List.mem_filterMap]
  constructor
  · rintro ⟨event, hMem, hEvent⟩
    cases event with
    | onTimer t' p' =>
      obtain ⟨rfl, hEq⟩ := Option.ite_none_right_eq_some.mp hEvent
      cases hEq
      exact hMem
    | deleted t' => cases hEvent
  · exact fun hMem => ⟨_, hMem, if_pos rfl⟩

/-- A timer was created and called where the wheel has been. -/
theorem since_le {inputs : List Input} (hRun : machine.run inputs = some s) {t : Nat}
    (ht : t < s.wheel.timerCount) : s.wheel.since t ≤ s.wheel.pos := by
  have hGrows : Grows create s.wheel := @grows_of_run ⟨create, .start⟩ s [] inputs rfl hRun
  obtain ⟨events, hTrace, hPos⟩ := hGrows.trace
  have hCreated := hGrows.created t ht (Nat.zero_le t)
  rw [since, List.getLastD_eq_getLast?]
  cases hLast : (calls t s.wheel.trace).getLast? with
  | none => exact hCreated
  | some p =>
    have hMem := mem_calls.mp (List.mem_of_getLast? hLast)
    rw [hTrace] at hMem
    exact hPos t p hMem

/-! ## Calls of a timer -/

theorem le_getLastD_of_isChain {k a : Nat} {l : List Nat}
    (h : (a :: l).IsChain (fun a b => a + k ≤ b)) : a + l.length * k ≤ l.getLastD a := by
  induction l generalizing a with
  | nil => simp
  | cons b l ih =>
    obtain ⟨hHead, hTail⟩ := List.isChain_cons_cons.mp h
    have hRest := ih hTail
    rw [List.length_cons, List.getLastD_cons, Nat.succ_mul]
    omega

theorem getLastD_append (l l' : List Nat) (a : Nat) :
    (l ++ l').getLastD a = l'.getLastD (l.getLastD a) := by
  cases hLast : l'.getLast? <;> simp [List.getLastD_eq_getLast?, hLast]

theorem isChain_getLastD {r : Nat → Nat → Prop} {a : Nat} {l l' : List Nat}
    (h : (a :: (l ++ l')).IsChain r) : (l.getLastD a :: l').IsChain r := by
  induction l generalizing a with
  | nil => exact h
  | cons b l ih =>
    rw [List.getLastD_cons]
    exact ih (List.isChain_cons_cons.mp h).2

/-- The last call of a timer is its interval behind an earlier one for each call since. -/
theorem since_add_le {before after : List Input} (hBefore : machine.run before = some s)
    (hRun : machine.run (before ++ after) = some s') {t : Nat} (ht : t < s.wheel.timerCount)
    (hInterval : 1 ≤ (s.wheel.timers t).interval) :
    s.wheel.since t + ((calls t s'.wheel.trace).length - (calls t s.wheel.trace).length) *
      (s.wheel.timers t).interval.toNat ≤ s'.wheel.since t := by
  have hGrows := grows_of_run hBefore hRun
  obtain ⟨events, hTrace, -⟩ := hGrows.trace
  have hTimely : s'.Timely (· ≤ ·) :=
    reachable_timely Nat.le_refl (.inl fun _ _ _ => Nat.le_trans) hRun
  have hNonzero : (s'.wheel.timers t).interval ≠ 0 := by
    rw [hGrows.interval t ht]
    intro hZero
    rw [hZero] at hInterval
    exact absurd hInterval (by decide)
  have hChain := (TimerWheel.Timely.history hTimely t (ht.trans_le hGrows.count)).1 hNonzero
  rw [hGrows.interval t ht, hGrows.createdAt t ht, hTrace, calls_append] at hChain
  rw [since, since, hGrows.createdAt t ht, hTrace, calls_append, getLastD_append,
    List.length_append, Nat.add_sub_cancel_left]
  exact le_getLastD_of_isChain (isChain_getLastD hChain)

end CStabilizer.TimerWheel
