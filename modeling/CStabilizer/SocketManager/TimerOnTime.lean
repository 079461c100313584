import CStabilizer.SocketManager.TimerDeadlines

/-! # Timers on time

No timer is called before it is due, and when the wheel turns tick by tick each
call comes at the position at which it is due. -/

namespace CStabilizer.TimerWheel

open Library Library.Buckets

variable {R : Nat → Nat → Prop} {w w' : TimerWheel} {b : TimerBox}

/-! ## Loops -/

section Loops

variable {called waiting : List TimerBox}

theorem Timely.sub {called' waiting' : List TimerBox} (h : Timely R w called waiting)
    (hCalled : ∀ b ∈ called', b ∈ called) (hWaiting : ∀ b ∈ waiting', b ∈ waiting) :
    Timely R w called' waiting' :=
  h.frame rfl (fun _ _ hb => hb) hWaiting hCalled (fun _ hLive => hLive) rfl
    (fun _ => ⟨rfl, rfl, rfl, rfl⟩) (fun _ _ _ => rfl) (fun _ _ hID => .inl hID)

theorem Owned.alone (h : Owned w (key b :: w.keysWith waiting))
    (hLive : w.isTimerLive b.timerID = true) : Alone w b.timer waiting := by
  intro b' hb' hLive' hEq
  have hKey : key b' ∈ w.keysWith waiting := List.mem_map_of_mem hb'
  obtain ⟨t, hPtr⟩ := Option.isSome_iff_exists.mp hLive'
  obtain ⟨rfl, -, hID⟩ := h.own (key b') (List.mem_cons_of_mem _ hKey) t hPtr
  have hHead := (h.live hLive).2.2
  change (w.timers b'.timer).timerID = b'.timerID at hID
  rw [hEq] at hID
  exact h.head_ne hKey (hID.symm.trans hHead)

theorem Timely.finishCall (h : Timely R w [b] waiting) (hRefl : ∀ a, R a a) (hStep : w.InStep)
    (hOwned : Owned w (w.keysWith (b :: waiting))) : Timely R (w.finishCall b) [] waiting := by
  have hDrop : Timely R w [] waiting := h.sub (fun _ hb => by cases hb) (fun _ hb => hb)
  obtain ⟨hLive, hRepeated, hEq⟩ | ⟨hLive, hOnce, hEq⟩ | ⟨_, hEq⟩ := finishCall_cases w b
  · rw [hEq]
    refine hDrop.schedule hStep (Owned.alone hOwned hLive) b.timerID ?_ (.inl hRepeated)
    rw [(h.called b List.mem_cons_self hLive).1]
    exact fun _ => hRefl _
  · rw [hEq]
    exact h.expire hOnce (h.called b List.mem_cons_self hLive).2
  · rw [hEq]
    exact hDrop.congr rfl rfl rfl rfl rfl rfl

/-- A position of a slot is met next at most one lap ahead. -/
theorem next_position (pos : Nat) {p : Nat} (hLe : pos ≤ p) :
    ∃ q, pos ≤ q ∧ q < pos + maxArraySize ∧ q % maxArraySize = p % maxArraySize ∧ q ≤ p ∧
      (p < pos + maxArraySize → q = p) := by
  unfold maxArraySize
  refine ⟨pos + (p - pos) % 1024, ?_, ?_, ?_, ?_, ?_⟩ <;> omega

/-- Positions may be skipped where lateness is no matter; otherwise only a slot
without timers to wait for is left behind. -/
theorem Timely.advance {n : UInt32} (h : Timely R w [] [])
    (hMove : Late R ∨ n = 0 ∨ (n = 1 ∧ w.InStep ∧ w.OnlyZero)) : Timely R (w.advance n) [] [] := by
  have hSame (t : Nat) : SameTimer w (w.advance n) t := ⟨rfl, rfl, rfl, rfl⟩
  refine ⟨?_, by simp, by simp, h.history, h.expired, h.fresh⟩
  intro i b hb p hLe hLt hSlot hLive
  change w.pos + n.toNat ≤ p at hLe
  change p < w.pos + n.toNat + maxArraySize at hLt
  obtain ⟨q, hLe', hLt', hSlot', hLate', hEq⟩ := next_position w.pos (p := p) (by omega)
  have hDue := h.slots i b hb q hLe' hLt' (hSlot'.trans hSlot) hLive
  refine Due.congr ?_ (hSame _) rfl
  obtain hLate | rfl | ⟨rfl, hStep, hZero⟩ := hMove
  · exact hLate.due hDue hLate'
  · rwa [hEq (by simpa using hLt)] at hDue
  · obtain hLap | hLap := Nat.lt_or_ge p (w.pos + maxArraySize)
    · rwa [hEq hLap] at hDue
    · have hCurrent : i = slot w.currentPos := by
        rw [hStep.slot_currentPos, ← hSlot]
        rw [UInt32.toNat_one] at hLe hLt
        unfold maxArraySize at *
        omega
      exact ⟨fun hInterval => absurd (hZero b (hCurrent ▸ hb)) hInterval, hDue.pending⟩

theorem Timely.collectSlot (h : Timely R w called waiting) (i : Nat) (l : List TimerBox) :
    Timely R (w.collectSlot i l).1 called waiting :=
  h.frame rfl (collectSlot_subset i l) (fun _ hb => hb) (fun _ hb => hb) (fun _ hLive => hLive) rfl
    (fun _ => ⟨rfl, rfl, rfl, rfl⟩) (fun _ _ _ => rfl) (fun _ _ hID => .inl hID)

theorem Timely.collectSlots (hLate : Late R) {q : Nat} (n p : Nat) (l : List TimerBox)
    (h : Timely R w [] []) (hp : w.pos ≤ p) (hEnd : p + n ≤ w.pos + maxArraySize)
    (hq : p + n ≤ q + 1) (hl : ∀ b ∈ l, w.isTimerLive b.timerID = true → Due R w b.timer q) :
    Timely R (collectSlots n p w l).1 [] [] ∧ ∀ b ∈ (collectSlots n p w l).2,
      (collectSlots n p w l).1.isTimerLive b.timerID = true →
        Due R (collectSlots n p w l).1 b.timer q := by
  induction n generalizing p w l with
  | zero => exact ⟨h, hl⟩
  | succ n ih =>
    have hSame (t : Nat) : SameTimer w (w.collectSlot (p % maxArraySize) l).1 t :=
      ⟨rfl, rfl, rfl, rfl⟩
    refine ih (w := (w.collectSlot (p % maxArraySize) l).1) (p + 1) _ (h.collectSlot _ _)
      (Nat.le_succ_of_le hp) (by rwa [Nat.add_assoc, Nat.add_comm 1]) (by omega) ?_
    intro b hb hLive
    refine Due.congr ?_ (hSame _) rfl
    obtain hb | hb := List.mem_append.mp hb
    · exact hl b hb hLive
    · have hDue := h.slots _ b (List.mem_filter.mp hb).1 p hp (by omega) rfl hLive
      exact hLate.due hDue (by omega)

theorem Timely.collect (hLate : Late R) (hStep : w.InStep) (h : Timely R w [] []) :
    Timely R w.collect.1 [] w.collect.2 := by
  have hCount := fireCount_lt w
  have hSpan := fireCount_le w
  obtain ⟨hSlots, hWaiting⟩ := h.collectSlots hLate w.fireCount w.pos []
    (q := w.pos + w.fireSpan.toNat) le_rfl (by omega) (by omega) (fun _ hb => by cases hb)
  have hPos : (TimerWheel.collectSlots w.fireCount w.pos w []).1.pos = w.pos := by
    obtain ⟨_, _, hFrame⟩ := collectSlots_frame w.fireCount w.pos w []
    rw [hFrame]
  rw [collect_eq_collectSlots hStep]
  have hMoved := hSlots.advance (n := w.fireSpan) (.inl hLate)
  refine ⟨fun i b hb p hLe hLt hSlot hLive => ?_, fun b hb hLive => ?_, by simp, hMoved.history,
    hMoved.expired, hMoved.fresh⟩
  · exact (hMoved.slots i b hb p hLe hLt hSlot hLive).congr ⟨rfl, rfl, rfl, rfl⟩ rfl
  · have hDue : Due R (TimerWheel.collectSlots w.fireCount w.pos w []).1 b.timer
        ((TimerWheel.collectSlots w.fireCount w.pos w []).1.pos + w.fireSpan.toNat) := by
      rw [hPos]
      exact hWaiting b hb hLive
    exact hDue.congr ⟨rfl, rfl, rfl, rfl⟩ rfl

end Loops

/-! ## States -/

variable {s s' : State} {input : Input}

def Control.called : Control → List TimerBox
  | passCall pTimeBox _ | fireCall pTimeBox _ => [pTimeBox]
  | start | pass _ | fire _ | sockets .. => []

def Control.waiting : Control → List TimerBox
  | fire iteAll | fireCall _ iteAll => iteAll
  | start | pass _ | passCall .. | sockets .. => []

def State.Timely (R : Nat → Nat → Prop) (s : State) : Prop :=
  TimerWheel.Timely R s.wheel s.control.called s.control.waiting

def Control.isPass : Control → Bool
  | pass _ => true
  | start | passCall .. | fire _ | fireCall .. | sockets .. => false

/-- The wheel stands still, or the slot pass is over and it turns by one. -/
def Ticks (s s' : State) : Prop :=
  s'.wheel.pos = s.wheel.pos ∨ (s'.wheel.pos = s.wheel.pos + 1 ∧ s.control.isPass = true)

instance instDecidableTicks (s s' : State) : Decidable (Ticks s s') :=
  inferInstanceAs (Decidable (_ ∨ _))

theorem onlyZero_of_passOver {atEnd : Bool} (hPassed : State.Passed ⟨w, .pass atEnd⟩)
    (hOver : w.passOver atEnd = true) : w.OnlyZero := by
  obtain hEnd | hEmpty := Bool.or_eq_true_iff.mp hOver
  · exact hPassed hEnd
  · intro b hb
    rw [List.isEmpty_iff.mp hEmpty] at hb
    cases hb

/-- The timer of the box that the slot pass meets is due, or on its way. -/
theorem head_due {rest : List TimerBox} (h : Timely R w [] []) (hStep : w.InStep)
    (hSlot : w.setTimers (slot w.currentPos) = b :: rest)
    (hLive : w.isTimerLive b.timerID = true) : Due R (w.popSlot rest) b.timer w.pos := by
  have hMem : b ∈ w.setTimers (slot w.currentPos) := hSlot ▸ List.mem_cons_self
  have hDue : Due R w b.timer w.pos := h.slots _ b hMem w.pos le_rfl
    (Nat.lt_add_of_pos_right (by decide)) hStep.slot_currentPos.symm hLive
  exact hDue.congr ⟨rfl, rfl, rfl, rfl⟩ rfl

theorem State.Timely.step (h : s.Timely R) (hRefl : ∀ a, R a a) (hOwned : s.Owned)
    (hInStep : s.wheel.InStep) (hPassed : s.Passed) (hStep : Transition s input s')
    (hMode : Late R ∨ Ticks s s') : s'.Timely R := by
  cases hStep with
  | @createTimer w w' c uiInt isRepeated _ hCreate =>
    have hCalled : ∀ b ∈ c.called, b ∈ c.boxes := by
      cases c <;> simp [Control.called, Control.boxes]
    have hWaiting : ∀ b ∈ c.waiting, b ∈ c.boxes := by
      cases c <;> simp +contextual [Control.waiting, Control.boxes]
    have hSame : (c.noteCreated uiInt).called = c.called ∧
        (c.noteCreated uiInt).waiting = c.waiting := by
      cases c <;> exact ⟨rfl, rfl⟩
    rw [State.Timely, hSame.1, hSame.2]
    exact TimerWheel.Timely.createTimer h hRefl hInStep hOwned hCalled hWaiting hCreate
  | deleteTimer _ hDelete => exact TimerWheel.Timely.deleteTimer h hDelete
  | start hCreate =>
    have hCreated := TimerWheel.Timely.createTimer h hRefl hInStep hOwned
      (fun _ hb => by cases hb) (fun _ hb => by cases hb) hCreate
    exact hCreated.congr rfl rfl rfl rfl rfl rfl
  | @endPass w atEnd now hOver _ =>
    have hTicked : TimerWheel.Timely R (w.advance 1) [] [] := TimerWheel.Timely.advance h
      (.inr (.inr ⟨rfl, hInStep, onlyZero_of_passOver hPassed hOver⟩))
    exact hTicked.congr rfl rfl rfl rfl rfl rfl
  | @fireAll w atEnd now hOver hLateTime =>
    have hTicked : TimerWheel.Timely R (w.advance 1) [] [] := TimerWheel.Timely.advance h
      (.inr (.inr ⟨rfl, hInStep, onlyZero_of_passOver hPassed hOver⟩))
    have hTicked' : TimerWheel.Timely R (w.ticked now) [] [] :=
      hTicked.congr rfl rfl rfl rfl rfl rfl
    obtain hLate | hTicks := hMode
    · have hTickedStep : (w.ticked now).InStep := hInStep.advance 1
      exact hTicked'.collect hLate hTickedStep
    · -- `FireAll` moves the wheel once more
      have hPos := fireSpan_pos hLateTime
      have hMoved : (w.ticked now).collect.1.pos = w.pos + 1 + (w.ticked now).fireSpan.toNat := by
        have hTickedStep : (w.ticked now).InStep := hInStep.advance 1
        obtain ⟨_, _, hFrame⟩ := collect_frame hTickedStep
        rw [hFrame]
        rfl
      obtain hStill | ⟨hOne, -⟩ := hTicks
      · exact absurd (hMoved.symm.trans hStill) (by simp only; omega)
      · exact absurd (hMoved.symm.trans hOne) (by simp only; omega)
  | endFireAll => exact TimerWheel.Timely.congr h rfl rfl rfl rfl rfl rfl
  | @afterSockets w uiPollInterval now created =>
    obtain ⟨_, hEq⟩ := afterSockets_eq (w.readClock now).2 uiPollInterval (now - w.lastTime)
    have hRead : TimerWheel.Timely R (w.readClock now).2 [] [] :=
      TimerWheel.Timely.congr h rfl rfl rfl rfl rfl rfl
    have hMove : Late R ∨ socketSpan uiPollInterval (now - w.lastTime) = 0 := by
      apply hMode.imp_right
      intro hTicks
      obtain hStill | ⟨-, hControl⟩ := hTicks
      · rw [hEq] at hStill
        exact UInt32.toNat_inj.mp (Nat.add_eq_left.mp hStill)
      · cases hControl
    have hMoved := hRead.advance (hMove.imp_right .inl)
    rw [State.Timely, hEq]
    exact hMoved.congr rfl rfl rfl rfl rfl rfl
  | meetDead hSlot _ =>
    exact (TimerWheel.Timely.popSlot h hSlot).congr rfl rfl rfl rfl rfl rfl
  | @meetDue w b rest hSlot hLive hDue =>
    have hPop := TimerWheel.Owned.popSlot hOwned hSlot
    have hAlone : Alone (w.popSlot rest) b.timer [] := hPop.alone hLive
    exact (TimerWheel.Timely.popSlot h hSlot).onTimer rfl
      (hPop.allocated (key b) List.mem_cons_self) hAlone (head_due h hInStep hSlot hLive) hDue
  | @meetEarly w b rest hSlot hLive _ =>
    have hPop := TimerWheel.Owned.popSlot hOwned hSlot
    have hAlone : Alone (w.popSlot rest) b.timer [] := hPop.alone hLive
    have hHead : Due R (w.popSlot rest) b.timer w.pos := head_due h hInStep hSlot hLive
    exact (TimerWheel.Timely.popSlot h hSlot).schedule hInStep hAlone b.timerID hHead.deadline
      hHead.pending
  | passReturn => exact TimerWheel.Timely.finishCall h hRefl hInStep hOwned
  | fireDead _ =>
    have hRest := TimerWheel.Timely.sub h (fun _ hb => hb) (fun _ hb => List.mem_cons_of_mem _ hb)
    exact hRest.congr rfl rfl rfl rfl rfl rfl
  | @fireDue w b iteAll hLive hDue =>
    have hRest : TimerWheel.Timely R w [] iteAll :=
      TimerWheel.Timely.sub h (fun _ hb => hb) (fun _ hb => List.mem_cons_of_mem _ hb)
    have hHead := TimerWheel.Timely.waiting h b List.mem_cons_self hLive
    have hAlone := TimerWheel.Owned.alone hOwned hLive
    have hCalled := hRest.onTimer rfl (TimerWheel.Owned.allocated hOwned (key b) List.mem_cons_self)
      hAlone hHead hDue
    exact hCalled.setNextFire hAlone (w.timers b.timer).interval
  | @fireEarly w b iteAll hLive _ =>
    have hRest : TimerWheel.Timely R w [] iteAll :=
      TimerWheel.Timely.sub h (fun _ hb => hb) (fun _ hb => List.mem_cons_of_mem _ hb)
    have hHead := TimerWheel.Timely.waiting h b List.mem_cons_self hLive
    exact hRest.schedule hInStep (TimerWheel.Owned.alone hOwned hLive) b.timerID hHead.deadline
      hHead.pending
  | fireReturn => exact TimerWheel.Timely.finishCall h hRefl hInStep hOwned

/-! ## Runs -/

/-- The position advances only by the `++` of the slot pass. -/
def TickByTick (s : State) (input : Input) : Prop := ∀ s' ∈ step s input, Ticks s s'

instance instDecidableTickByTick (s : State) (input : Input) : Decidable (TickByTick s input) :=
  inferInstanceAs (Decidable (∀ s' ∈ step s input, Ticks s s'))

theorem timely_create : State.Timely R ⟨create, .start⟩ where
  slots _ _ hb := by cases hb
  waiting _ hb := by cases hb
  called _ hb := by cases hb
  history t ht := absurd ht (Nat.not_lt_zero t)
  expired t ht := absurd ht (Nat.not_lt_zero t)
  fresh _ _ := rfl

theorem reachable_timely {inputs : List Input} (hRefl : ∀ a, R a a)
    (hMode : Late R ∨ machine.Meets TickByTick inputs) (hRun : machine.run inputs = some s) :
    s.Timely R := by
  have hMeets : machine.Meets (fun s input => Late R ∨ TickByTick s input) inputs := by
    obtain hLate | hTicks := hMode
    · exact fun _ _ _ _ _ _ => .inl hLate
    · exact hTicks.mono fun _ _ hTick => .inr hTick
  have hAll : s.Owned ∧ s.wheel.InStep ∧ s.Passed ∧ s.Timely R := by
    refine hMeets.invariant (I := fun s => s.Owned ∧ s.wheel.InStep ∧ s.Passed ∧ s.Timely R)
      ⟨owned_create, rfl, (fun hEnd => by cases hEnd), timely_create⟩ ?_ hRun
    rintro s input s' ⟨hOwned, hInStep, hPassed, hTimely⟩ hCond hStep
    have hTransition := Transition.of_step hStep
    exact ⟨hOwned.step hTransition, hTransition.inStep hInStep,
      hTransition.passed hOwned hInStep hPassed,
      hTimely.step hRefl hOwned hInStep hPassed hTransition
        (hCond.imp_right fun hTick => hTick s' hStep)⟩
  exact hAll.2.2.2

/-- A chain of equal distances. -/
theorem isChain_eq {k a : Nat} {l : List Nat} (h : (a :: l).IsChain (fun a b => a + k = b)) :
    l = (List.range l.length).map (fun j => a + (j + 1) * k) := by
  induction l generalizing a with
  | nil => rfl
  | cons b l ih =>
    obtain ⟨rfl, hRest⟩ := List.isChain_cons_cons.mp h
    rw [List.length_cons, List.range_succ_eq_map, List.map_cons, List.map_map]
    refine congrArg₂ List.cons (by simp) ((ih hRest).trans (List.map_congr_left fun j _ => ?_))
    simp only [Function.comp_apply, Nat.succ_eq_add_one]
    ring

theorem getLastD_of_isChain_eq {k a : Nat} {l : List Nat}
    (h : (a :: l).IsChain (fun a b => a + k = b)) : l.getLastD a = a + l.length * k := by
  rw [isChain_eq h]
  cases hLength : l.length with
  | zero => simp
  | succ n => simp [List.range_succ]

/-- A timer that waits to be called is not overdue. -/
theorem State.Timely.pos_le (h : s.Timely (· = ·)) (hOwned : s.Owned) {t : Nat}
    (ht : t < s.wheel.timerCount) (hInterval : (s.wheel.timers t).interval ≠ 0)
    (hUndeleted : (s.wheel.timers t).deleted = false)
    (hPending : (s.wheel.timers t).repeated = true ∨ calls t s.wheel.trace = []) :
    s.wheel.pos ≤ s.wheel.since t + (s.wheel.timers t).interval.toNat := by
  have hID : (s.wheel.timers t).timerID ≠ 0 := by
    intro hZero
    obtain ⟨hOnce, hCalled⟩ := TimerWheel.Timely.expired h t ht hZero
    obtain hRepeated | hNone := hPending
    · rw [hOnce] at hRepeated
      cases hRepeated
    · exact hCalled hNone
  obtain ⟨hKey, hPtr⟩ := TimerWheel.Owned.kept hOwned t ht hUndeleted hID
  obtain ⟨b, hb, hEq⟩ := List.mem_map.mp hKey
  obtain rfl : b.timer = t := congrArg Prod.snd hEq
  have hTimerID : b.timerID = (s.wheel.timers b.timer).timerID := congrArg Prod.fst hEq
  have hLive : s.wheel.isTimerLive b.timerID = true := by
    rw [isTimerLive, hTimerID, hPtr]
    rfl
  have hHeld : ∀ b ∈ s.control.boxes, b ∈ s.control.called ∨ b ∈ s.control.waiting := by
    cases s.control <;> simp [Control.boxes, Control.called, Control.waiting]
  obtain hb | hb := List.mem_append.mp hb
  · obtain hb | hb := hHeld b hb
    · exact Nat.le_add_right_of_le (TimerWheel.Timely.called h b hb hLive).1.ge
    · exact ((TimerWheel.Timely.waiting h b hb hLive).deadline hInterval).symm ▸ Nat.le_add_right ..
  · obtain ⟨i, hi, hSlot⟩ := mem_contents.mp hb
    obtain ⟨p, hLe, hLt, hMod⟩ : ∃ p, s.wheel.pos ≤ p ∧ p < s.wheel.pos + maxArraySize ∧
        p % maxArraySize = i := by
      unfold maxArraySize at *
      refine ⟨s.wheel.pos + (i + 1024 - s.wheel.pos % 1024) % 1024, ?_, ?_, ?_⟩ <;> omega
    have hDue := TimerWheel.Timely.slots h i b hSlot p hLe hLt hMod hLive
    exact (hDue.deadline hInterval).symm ▸ Nat.le_add_right_of_le hLe

/-- A timer is first called its interval after its creation or later, and again
its interval after a call or later. When the wheel turns tick by tick the calls
come exactly then, until the timer is deleted. -/
theorem timers_on_time {inputs : List Input} (hRun : machine.run inputs = some s) {t : Nat}
    (ht : t < s.wheel.timerCount) (hInterval : 1 ≤ (s.wheel.timers t).interval) :
    ((s.wheel.timers t).createdAt :: calls t s.wheel.trace).IsChain
      (fun a b => a + (s.wheel.timers t).interval.toNat ≤ b) ∧
    (machine.Meets TickByTick inputs →
      calls t s.wheel.trace = (List.range (calls t s.wheel.trace).length).map
        (fun j => (s.wheel.timers t).createdAt + (j + 1) * (s.wheel.timers t).interval.toNat) ∧
      ((s.wheel.timers t).repeated = false → (calls t s.wheel.trace).length ≤ 1) ∧
      ((s.wheel.timers t).deleted = false →
        (s.wheel.timers t).repeated = true ∨ calls t s.wheel.trace = [] →
        s.wheel.pos ≤ (s.wheel.timers t).createdAt +
          ((calls t s.wheel.trace).length + 1) * (s.wheel.timers t).interval.toNat)) := by
  have hNonzero : (s.wheel.timers t).interval ≠ 0 := by
    intro hZero
    rw [hZero] at hInterval
    exact absurd hInterval (by decide)
  constructor
  · have hLate : s.Timely (· ≤ ·) :=
      reachable_timely Nat.le_refl (.inl fun _ _ _ => Nat.le_trans) hRun
    exact (TimerWheel.Timely.history hLate t ht).1 hNonzero
  · intro hTicks
    have hExact : s.Timely (· = ·) := reachable_timely (fun _ => rfl) (.inr hTicks) hRun
    obtain ⟨hChain, hOnce⟩ := TimerWheel.Timely.history hExact t ht
    refine ⟨isChain_eq (hChain hNonzero), hOnce, fun hUndeleted hPending => ?_⟩
    have hPos := hExact.pos_le (reachable_owned hRun) ht hNonzero hUndeleted hPending
    rw [since, getLastD_of_isChain_eq (hChain hNonzero)] at hPos
    calc s.wheel.pos
      _ ≤ _ := hPos
      _ = _ := by ring

/-- A repeated timer with an interval of two, created at position 1 and called at position 3. -/
theorem timers_on_time_two : ∃ inputs s, machine.run inputs = some s ∧
    calls 0 s.wheel.trace = [3] ∧ s.wheel.pos ≤ 1 + (1 + 1) * 2 := by
  let inputs : List Input := [.createTimer 2 true, .clock 0, .clock 0, .clock 0, .clock 0,
    .clock 0, .next]
  let s : State := (machine.run inputs).get (by decide)
  have hRun : machine.run inputs = some s := (Option.some_get _).symm
  have hCalls : calls 0 s.wheel.trace = [3] := by decide
  have hOnTime := timers_on_time hRun (t := 0) (by decide) (by decide)
  have hTicks : machine.Meets TickByTick inputs := Machine.meets_of_check _ (by decide)
  exact ⟨inputs, s, hRun, hCalls, (hOnTime.2 hTicks).2.2 (by decide) (.inl (by decide))⟩

end CStabilizer.TimerWheel
