import CStabilizer.SocketManager.TimerPositions

/-! # Deadlines of timers

A timer is due its interval after its creation or its last call. Between those
the part of the interval that lies behind the slot of its box is in the timer.
How the due position relates to that sum is a parameter: it is not later in
every run, and equal to it when the wheel turns tick by tick. -/

namespace CStabilizer.TimerWheel

open Library Library.Buckets

/-- The positions at which `OnTimer` was called for a timer. -/
def calls (t : Nat) (trace : List TimerEvent) : List Nat := trace.filterMap fun
  | .onTimer timer pos => if timer = t then some pos else none
  | .deleted _ => none

/-- Where the timer was created or last called. -/
def since (w : TimerWheel) (t : Nat) : Nat := (calls t w.trace).getLastD (w.timers t).createdAt

/-- A later position is as good. -/
def Late (R : Nat → Nat → Prop) : Prop := ∀ a b c, R a b → b ≤ c → R a c

structure Due (R : Nat → Nat → Prop) (w : TimerWheel) (t p : Nat) : Prop where
  deadline : (w.timers t).interval ≠ 0 →
    R (w.since t + (w.timers t).interval.toNat) (p + (w.timers t).nextFire.toNat)
  pending : (w.timers t).repeated = true ∨ calls t w.trace = []

/-- The boxes of timers that are being called, and those that `FireAll` has still to meet. -/
structure Timely (R : Nat → Nat → Prop) (w : TimerWheel) (called waiting : List TimerBox) :
    Prop where
  slots : ∀ i, ∀ b ∈ w.setTimers i, ∀ p, w.pos ≤ p → p < w.pos + maxArraySize →
    p % maxArraySize = i → w.isTimerLive b.timerID = true → Due R w b.timer p
  waiting : ∀ b ∈ waiting, w.isTimerLive b.timerID = true → Due R w b.timer w.pos
  called : ∀ b ∈ called, w.isTimerLive b.timerID = true →
    w.since b.timer = w.pos ∧ calls b.timer w.trace ≠ []
  history : ∀ t < w.timerCount,
    ((w.timers t).interval ≠ 0 →
      ((w.timers t).createdAt :: calls t w.trace).IsChain
        (fun a b => R (a + (w.timers t).interval.toNat) b)) ∧
    ((w.timers t).repeated = false → (calls t w.trace).length ≤ 1)
  expired : ∀ t < w.timerCount, (w.timers t).timerID = 0 →
    (w.timers t).repeated = false ∧ calls t w.trace ≠ []
  fresh : ∀ t, w.timerCount ≤ t → calls t w.trace = []

variable {R : Nat → Nat → Prop} {w w' : TimerWheel} {called waiting : List TimerBox}
  {b : TimerBox} {s s' : State} {input : Input}

theorem calls_deleted (t t' : Nat) (trace : List TimerEvent) :
    calls t (trace ++ [.deleted t']) = calls t trace := by
  simp [calls]

theorem calls_onTimer (t pos : Nat) (trace : List TimerEvent) :
    calls t (trace ++ [.onTimer t pos]) = calls t trace ++ [pos] := by
  simp [calls]

theorem calls_onTimer_of_ne {t t' : Nat} (hNe : t' ≠ t) (pos : Nat) (trace : List TimerEvent) :
    calls t (trace ++ [.onTimer t' pos]) = calls t trace := by
  simp [calls, hNe]

theorem isChain_concat_iff {r : Nat → Nat → Prop} (a b : Nat) (l : List Nat) :
    (a :: (l ++ [b])).IsChain r ↔ (a :: l).IsChain r ∧ r (l.getLastD a) b := by
  rw [← List.cons_append, List.isChain_append]
  simp [List.getLast?_cons]

theorem Late.due (hLate : Late R) {t p q : Nat} (h : Due R w t p) (hLe : p ≤ q) : Due R w t q where
  deadline hInterval := hLate _ _ _ (h.deadline hInterval) (Nat.add_le_add_right hLe _)
  pending := h.pending

/-! ## What deadlines depend on -/

structure SameTimer (w w' : TimerWheel) (t : Nat) : Prop where
  interval : (w'.timers t).interval = (w.timers t).interval
  repeated : (w'.timers t).repeated = (w.timers t).repeated
  createdAt : (w'.timers t).createdAt = (w.timers t).createdAt
  calls : calls t w'.trace = calls t w.trace

theorem SameTimer.since {t : Nat} (h : SameTimer w w' t) : w'.since t = w.since t := by
  rw [TimerWheel.since, TimerWheel.since, h.calls, h.createdAt]

theorem Due.congr {t p : Nat} (h : Due R w t p) (hSame : SameTimer w w' t)
    (hNextFire : (w'.timers t).nextFire = (w.timers t).nextFire) : Due R w' t p where
  deadline := by
    rw [hSame.interval, hSame.since, hNextFire]
    exact h.deadline
  pending := by
    rw [hSame.repeated, hSame.calls]
    exact h.pending

/-- No box that waits is moved, and no timer that is waited for is changed. -/
theorem Timely.frame {called' waiting' : List TimerBox} (h : Timely R w called waiting)
    (hPos : w'.pos = w.pos) (hSlots : ∀ i, ∀ b ∈ w'.setTimers i, b ∈ w.setTimers i)
    (hWaiting : ∀ b ∈ waiting', b ∈ waiting) (hCalled : ∀ b ∈ called', b ∈ called)
    (hLive : ∀ id, w'.isTimerLive id = true → w.isTimerLive id = true)
    (hCount : w'.timerCount = w.timerCount) (hSame : ∀ t, SameTimer w w' t)
    (hNextFire : ∀ b ∈ w'.boxesWith waiting', w'.isTimerLive b.timerID = true →
      (w'.timers b.timer).nextFire = (w.timers b.timer).nextFire)
    (hExpired : ∀ t < w.timerCount, (w'.timers t).timerID = 0 → (w.timers t).timerID = 0 ∨
      ((w.timers t).repeated = false ∧ calls t w.trace ≠ [])) : Timely R w' called' waiting' where
  slots i b hb p hLe hLt hSlot hLive' := by
    rw [hPos] at hLe hLt
    have hMem : b ∈ w'.boxesWith waiting' := by
      refine List.mem_append_right _ (mem_contents.mpr ⟨i, ?_, hb⟩)
      exact hSlot ▸ Nat.mod_lt _ (by decide)
    exact (h.slots i b (hSlots i b hb) p hLe hLt hSlot (hLive _ hLive')).congr (hSame _)
      (hNextFire b hMem hLive')
  waiting b hb hLive' := by
    rw [hPos]
    exact (h.waiting b (hWaiting b hb) (hLive _ hLive')).congr (hSame _)
      (hNextFire b (List.mem_append_left _ hb) hLive')
  called b hb hLive' := by
    rw [hPos, (hSame _).since, (hSame _).calls]
    exact h.called b (hCalled b hb) (hLive _ hLive')
  history t ht := by
    rw [(hSame t).interval, (hSame t).createdAt, (hSame t).repeated, (hSame t).calls]
    exact h.history t (hCount ▸ ht)
  expired t ht hID := by
    rw [hCount] at ht
    rw [(hSame t).repeated, (hSame t).calls]
    exact (hExpired t ht hID).elim (h.expired t ht) id
  fresh t ht := by
    rw [(hSame t).calls]
    exact h.fresh t (hCount ▸ ht)

theorem Timely.congr (h : Timely R w called waiting) (hPos : w'.pos = w.pos)
    (hSlots : w'.setTimers = w.setTimers) (hPtr : w'.ptrTimers = w.ptrTimers)
    (hTimers : w'.timers = w.timers) (hCount : w'.timerCount = w.timerCount)
    (hTrace : w'.trace = w.trace) : Timely R w' called waiting := by
  refine h.frame hPos (fun i b hb => hSlots ▸ hb) (fun _ hb => hb) (fun _ hb => hb) ?_ hCount ?_ ?_ ?_
  · intro id hLive
    rwa [isTimerLive, hPtr] at hLive
  · intro t
    exact ⟨by rw [hTimers], by rw [hTimers], by rw [hTimers], by rw [hTrace]⟩
  · intro b _ _
    rw [hTimers]
  · intro t _ hID
    exact .inl (hTimers ▸ hID)

/-! ## Operations -/

/-- Among the boxes that wait, none refers to the timer. -/
def Alone (w : TimerWheel) (t : Nat) (waiting : List TimerBox) : Prop :=
  ∀ b ∈ w.boxesWith waiting, w.isTimerLive b.timerID = true → b.timer ≠ t

theorem Timely.setNextFire {t : Nat} (h : Timely R w called waiting) (hAlone : Alone w t waiting)
    (n : UInt32) : Timely R (w.setNextFire t n) called waiting := by
  refine h.frame rfl (fun _ _ hb => hb) (fun _ hb => hb) (fun _ hb => hb) (fun _ hLive => hLive)
    rfl ?_ ?_ ?_
  · intro t'
    constructor <;> first | rfl | rw [timers_setNextFire]
  · intro b hb hLive
    rw [timers_setNextFire]
    exact if_neg (hAlone b hb hLive)
  · intro t' _ hID
    rw [timers_setNextFire] at hID
    exact .inl hID

theorem Timely.schedule {t : Nat} {n : UInt32} (h : Timely R w called waiting) (hStep : w.InStep)
    (hAlone : Alone w t waiting) (id : Nat)
    (hDeadline : (w.timers t).interval ≠ 0 →
      R (w.since t + (w.timers t).interval.toNat) (w.pos + n.toNat))
    (hPending : (w.timers t).repeated = true ∨ calls t w.trace = []) :
    Timely R (w.schedule id t n) called waiting := by
  have hOld := h.setNextFire hAlone (left n)
  have hSame (t' : Nat) : SameTimer (w.setNextFire t (left n)) (w.schedule id t n) t' :=
    ⟨rfl, rfl, rfl, rfl⟩
  refine ⟨?_, fun b hb hLive => (hOld.waiting b hb hLive).congr (hSame _) rfl, hOld.called,
    hOld.history, hOld.expired, hOld.fresh⟩
  rintro i b hb p hLe hLt hSlot hLive
  obtain hb | ⟨hHop, rfl⟩ := mem_schedule.mp hb
  · exact (hOld.slots i b hb p hLe hLt hSlot hLive).congr (hSame _) rfl
  · have hp : p = w.pos + (hop n).toNat := by
      rw [hStep.slot] at hHop
      have hHopLt := hop_lt n
      change w.pos ≤ p at hLe
      change p < w.pos + maxArraySize at hLt
      unfold maxArraySize at *
      omega
    have hSince : (w.schedule id t n).since t = w.since t := by
      rw [since, timers_schedule]
      rfl
    have hSum := hop_add_left n
    constructor
    · rw [hSince, timers_schedule, hp]
      simp only [if_true, Nat.add_assoc, hSum]
      exact hDeadline
    · rw [timers_schedule]
      exact hPending

theorem Timely.onTimer {t : Nat} (h : Timely R w [] waiting) (hBox : b.timer = t)
    (hCount : t < w.timerCount) (hAlone : Alone w t waiting) (hDue : Due R w t w.pos)
    (hNextFire : (w.timers t).nextFire = 0) :
    Timely R (w.onTimer t) [b] waiting := by
  have hCalls : calls t (w.onTimer t).trace = calls t w.trace ++ [w.pos] := calls_onTimer ..
  have hOthers {t' : Nat} (hNe : t' ≠ t) : calls t' (w.onTimer t).trace = calls t' w.trace :=
    calls_onTimer_of_ne hNe.symm ..
  have hSame {t' : Nat} (hNe : t' ≠ t) : SameTimer w (w.onTimer t) t' := ⟨rfl, rfl, rfl, hOthers hNe⟩
  constructor
  · intro i b' hb' p hLe hLt hSlot hLive
    have hMem : b' ∈ w.boxesWith waiting := by
      refine List.mem_append_right _ (mem_contents.mpr ⟨i, ?_, hb'⟩)
      exact hSlot ▸ Nat.mod_lt _ (by decide)
    exact (h.slots i b' hb' p hLe hLt hSlot hLive).congr (hSame (hAlone b' hMem hLive)) rfl
  · intro b' hb' hLive
    have hNe := hAlone b' (List.mem_append_left _ hb') hLive
    exact (h.waiting b' hb' hLive).congr (hSame hNe) rfl
  · intro b' hb' _
    obtain rfl := List.mem_singleton.mp hb'
    rw [since, hBox, hCalls]
    simp [TimerWheel.onTimer]
  · intro t' ht'
    obtain rfl | hNe := eq_or_ne t' t
    · obtain ⟨hChain, hOnce⟩ := h.history t' ht'
      rw [hCalls]
      constructor
      · intro hInterval
        have hDeadline := hDue.deadline hInterval
        rw [hNextFire] at hDeadline
        exact (isChain_concat_iff _ _ _).mpr ⟨hChain hInterval, hDeadline⟩
      · intro hRepeated
        have hNone : calls t' w.trace = [] :=
          hDue.pending.resolve_left (by rw [show (w.timers t').repeated = false from hRepeated]; simp)
        simp [hNone]
    · rw [hOthers hNe]
      exact h.history t' ht'
  · intro t' ht' hID
    obtain rfl | hNe := eq_or_ne t' t
    · rw [hCalls]
      exact ⟨(h.expired t' ht' hID).1, by simp⟩
    · rw [hOthers hNe]
      exact h.expired t' ht' hID
  · intro t' ht'
    rw [hOthers (hCount.trans_le ht').ne']
    exact h.fresh t' ht'

theorem Timely.expire {t id : Nat} (h : Timely R w called waiting)
    (hOnce : (w.timers t).repeated = false) (hCalled : calls t w.trace ≠ []) :
    Timely R ((w.resetTimerId t).recycle id) [] waiting := by
  have hTimers (t' : Nat) : ((w.resetTimerId t).recycle id).timers t' = { w.timers t' with
      timerID := if t' = t then 0 else (w.timers t').timerID } := timers_resetTimerId t t'
  refine h.frame rfl (fun _ _ hb => hb) (fun _ hb => hb) (fun _ hb => by cases hb)
    (fun _ hLive => hLive) rfl ?_ ?_ ?_
  · intro t'
    constructor <;> first | rfl | rw [hTimers]
  · intro b _ _
    rw [hTimers]
  · intro t' _ hID
    obtain rfl | hNe := eq_or_ne t' t
    · exact .inr ⟨hOnce, hCalled⟩
    · rw [hTimers] at hID
      exact .inl (by simpa [hNe] using hID)

theorem Timely.deleteTimer {t : Nat} (h : Timely R w called waiting)
    (hDelete : w.deleteTimer t = some w') : Timely R w' called waiting := by
  obtain ⟨-, -, rfl⟩ := deleteTimer_eq_some.mp hDelete
  refine h.frame rfl (fun _ _ hb => hb) (fun _ hb => hb) (fun _ hb => hb) ?_ rfl ?_ ?_ ?_
  · intro id hLive
    simp only [isTimerLive, addToDeletedTimerSet] at hLive ⊢
    obtain rfl | hNe := eq_or_ne id (w.timers t).timerID
    · simp at hLive
    · rwa [Function.update_of_ne hNe] at hLive
  · intro t'
    constructor <;> first | exact calls_deleted .. | simp only [timers_delete]
  · intro b _ _
    simp only [timers_delete]
  · intro t' _ hID
    simp only [timers_delete] at hID
    exact .inl hID

theorem Timely.popSlot {rest : List TimerBox} (h : Timely R w called waiting)
    (hSlot : w.setTimers (slot w.currentPos) = b :: rest) :
    Timely R (w.popSlot rest) called waiting :=
  h.frame rfl (popSlot_subset hSlot) (fun _ hb => hb) (fun _ hb => hb) (fun _ hLive => hLive) rfl
    (fun _ => ⟨rfl, rfl, rfl, rfl⟩) (fun _ _ _ => rfl) (fun _ _ hID => .inl hID)

/-- What the boxes see of a new timer: nothing. -/
theorem Owned.register_live {id : Nat} {uiInt : UInt32} {isRepeated : Bool} {keys : List Key}
    {w₀ : TimerWheel} (h : Owned w keys) (hID : w.getTimerIDFromStack = some (id, w₀)) {k : Key}
    (hk : k ∈ keys) : (w₀.register id uiInt isRepeated).isTimerLive k.1 = w.isTimerLive k.1 := by
  obtain ⟨-, hPtr, -, hIds⟩ := h.getTimerIDFromStack hID
  have hNodup : (id :: w₀.freeTimerIDs ++ keys.map Prod.fst).Nodup :=
    hIds.nodup_iff.mpr List.nodup_range'
  have hNe : k.1 ≠ id := by
    rintro rfl
    exact (List.nodup_cons.mp hNodup).1 (List.mem_append_right _ (List.mem_map_of_mem hk))
  rw [isTimerLive, isTimerLive, ← hPtr k.1 (h.key_lt hk).2]
  exact congrArg Option.isSome (Function.update_of_ne hNe _ _)

theorem Timely.register {id : Nat} {uiInt : UInt32} {isRepeated : Bool} {held : List TimerBox}
    {w₀ : TimerWheel} (h : Timely R w called waiting) (hOwned : Owned w (w.keysWith held))
    (hCalled : ∀ b ∈ called, b ∈ held) (hWaiting : ∀ b ∈ waiting, b ∈ held)
    (hID : w.getTimerIDFromStack = some (id, w₀)) :
    Timely R (w₀.register id uiInt isRepeated) called waiting := by
  have hNew : id ≠ 0 := by
    obtain ⟨-, -, -, hIds⟩ := hOwned.getTimerIDFromStack hID
    have hRange := List.mem_range'_1.mp (hIds.mem_iff.mp List.mem_cons_self)
    omega
  have hOld : (∀ i, ∀ b ∈ (w₀.register id uiInt isRepeated).setTimers i, b ∈ w.setTimers i) ∧
      (w₀.register id uiInt isRepeated).pos = w.pos ∧ w₀.timerCount = w.timerCount ∧
      (w₀.register id uiInt isRepeated).trace = w.trace ∧
      ∀ t < w.timerCount, (w₀.register id uiInt isRepeated).timers t = w.timers t := by
    obtain ⟨_, _, _, rfl⟩ := getTimerIDFromStack_frame hID
    exact ⟨fun _ _ hb => hb, rfl, rfl, rfl, fun _ ht => timers_register ht⟩
  obtain ⟨hSlots, hPos, hCount, hTrace, hTimers⟩ := hOld
  have hSame {t : Nat} (ht : t < w.timerCount) : SameTimer w (w₀.register id uiInt isRepeated) t :=
    ⟨by rw [hTimers t ht], by rw [hTimers t ht], by rw [hTimers t ht], by rw [hTrace]⟩
  have hLive {k : Key} (hk : k ∈ w.keysWith held) :
      (w₀.register id uiInt isRepeated).isTimerLive k.1 = w.isTimerLive k.1 :=
    hOwned.register_live hID hk
  have hHeld {b : TimerBox} (hb : b ∈ held) : key b ∈ w.keysWith held :=
    List.mem_map_of_mem (List.mem_append_left _ hb)
  constructor
  · intro i b hb p hLe hLt hSlot hLive'
    have hKey : key b ∈ w.keysWith held :=
      key_mem_of_slot (hSlot ▸ Nat.mod_lt _ (by decide)) (hSlots i b hb)
    rw [hPos] at hLe hLt
    have hLt' : b.timer < w.timerCount := hOwned.allocated _ hKey
    exact (h.slots i b (hSlots i b hb) p hLe hLt hSlot ((hLive hKey).symm.trans hLive')).congr
      (hSame hLt') (by rw [hTimers _ hLt'])
  · intro b hb hLive'
    have hKey := hHeld (hWaiting b hb)
    have hLt : b.timer < w.timerCount := hOwned.allocated _ hKey
    rw [hPos]
    exact (h.waiting b hb ((hLive hKey).symm.trans hLive')).congr (hSame hLt)
      (by rw [hTimers _ hLt])
  · intro b hb hLive'
    have hKey := hHeld (hCalled b hb)
    have hTimer : SameTimer w (w₀.register id uiInt isRepeated) b.timer :=
      hSame (hOwned.allocated _ hKey)
    rw [hPos, hTimer.since, hTimer.calls]
    exact h.called b hb ((hLive hKey).symm.trans hLive')
  · intro t ht
    obtain rfl | ht := (Nat.lt_succ_iff_lt_or_eq.mp ht).symm
    · rw [hTrace, h.fresh _ hCount.ge]
      simp
    · rw [hCount] at ht
      rw [(hSame ht).interval, (hSame ht).createdAt, (hSame ht).repeated, (hSame ht).calls]
      exact h.history t ht
  · intro t ht hZero
    obtain rfl | ht := (Nat.lt_succ_iff_lt_or_eq.mp ht).symm
    · simp only [TimerWheel.register, Function.update_self] at hZero
      exact absurd hZero hNew
    · rw [hCount] at ht
      rw [hTimers t ht] at hZero ⊢
      rw [hTrace]
      exact h.expired t ht hZero
  · intro t ht
    rw [hTrace]
    apply h.fresh t
    change w₀.timerCount + 1 ≤ t at ht
    omega

theorem Timely.createTimer {uiInt : UInt32} {isRepeated : Bool} {held : List TimerBox}
    (h : Timely R w called waiting) (hRefl : ∀ a, R a a) (hStep : w.InStep)
    (hOwned : Owned w (w.keysWith held)) (hCalled : ∀ b ∈ called, b ∈ held)
    (hWaiting : ∀ b ∈ waiting, b ∈ held)
    (hCreate : w.createTimer uiInt isRepeated = some w') : Timely R w' called waiting := by
  obtain ⟨id, w₀, hID, rfl⟩ := createTimer_eq_some.mp hCreate
  have hRegister : Timely R (w₀.register id uiInt isRepeated) called waiting :=
    h.register hOwned hCalled hWaiting hID
  obtain ⟨max, ptr, free, rfl⟩ := getTimerIDFromStack_frame hID
  have hNone : calls w.timerCount w.trace = [] := h.fresh _ le_rfl
  refine hRegister.schedule hStep ?_ id ?_ (.inr hNone)
  · intro b hb _
    refine Nat.ne_of_lt (hOwned.allocated (key b) (List.mem_map_of_mem ?_))
    obtain hb | hb := List.mem_append.mp hb
    · exact List.mem_append_left _ (hWaiting b hb)
    · exact List.mem_append_right _ hb
  · intro _
    simp [TimerWheel.register, since, hNone, hRefl]

end CStabilizer.TimerWheel
