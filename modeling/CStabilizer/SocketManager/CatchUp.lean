import CStabilizer.SocketManager.TimerOnTime

/-! # Deadlines in the catch-up

`FireAll` moves past the positions that it collects before it puts a box back that
is not due yet. The box then waits from the new position, where the slot pass lets
it wait from the position of its slot. -/

namespace CStabilizer.TimerWheel

open Library Library.Buckets

/-! ## The function -/

/-- A turn of the second loop of `FireAll`, with an `OnTimer` that does nothing. -/
def fireTurn (w : TimerWheel) (pTimeBox : TimerBox) : TimerWheel :=
  match w.visitFireAll pTimeBox [] with
  | ⟨w, .fireCall pTimeBox _⟩ => w.finishCall pTimeBox
  | ⟨w, _⟩ => w

def fireAll (w : TimerWheel) : TimerWheel := w.collect.2.foldl fireTurn w.collect.1

/-- The box of `k` is in the slot of a position at most a lap ahead, and due at `p`
with what is left to wait there. -/
def DueAt (w : TimerWheel) (k : Key) (p : Nat) : Prop :=
  ∃ n : UInt32, n.toNat < maxArraySize ∧ k ∈ (w.setTimers (slot (w.currentPos + n))).map key ∧
    p = w.currentPos.toNat + n.toNat + (w.timers k.2).nextFire.toNat

/-- `FireAll` meets the live box in the slot `n` positions ahead, too early by more
than the positions that it moves past. -/
def Early (w : TimerWheel) (n : UInt32) (b : TimerBox) : Prop :=
  n < w.totalDeviation ∧ b ∈ w.setTimers (slot (w.currentPos + n)) ∧
    w.isTimerLive b.timerID = true ∧ (w.timers b.timer).nextFire ≠ 0 ∧
    w.totalDeviation.toNat ≤ n.toNat + (w.timers b.timer).nextFire.toNat

def KeepsDue (w : TimerWheel) : Prop :=
  ∀ n b, w.Early n b → DueAt w.fireAll (key b)
    (w.currentPos.toNat + n.toNat + (w.timers b.timer).nextFire.toNat)

variable {w w' : TimerWheel} {b b' : TimerBox} {k : Key} {l : List TimerBox} {p p' : Nat}

/-! ## Due positions -/

theorem schedule_dueAt (w : TimerWheel) (k : Key) (n : UInt32) :
    DueAt (w.schedule k.1 k.2 n) k (w.currentPos.toNat + n.toNat) := by
  refine ⟨hop n, hop_lt n, ?_, ?_⟩
  · refine List.mem_map.mpr ⟨⟨k.1, k.2, w.pos⟩, mem_schedule.mpr (.inr ⟨rfl, rfl⟩), rfl⟩
  · rw [timers_schedule, if_pos rfl, Nat.add_assoc]
    exact congrArg _ (hop_add_left n).symm

/-- The slot pass leaves a box that it meets too early due when it was before. -/
theorem visitSlot_dueAt {rest : List TimerBox}
    (hSlot : w.setTimers (slot w.currentPos) = b :: rest)
    (hLive : w.isTimerLive b.timerID = true) (hEarly : (w.timers b.timer).nextFire ≠ 0) :
    ∃ s', w.visitSlot = some s' ∧ DueAt s'.wheel (key b)
      (w.currentPos.toNat + (w.timers b.timer).nextFire.toNat) := by
  refine ⟨⟨(w.popSlot rest).addToCorrectSlot b, .pass rest.isEmpty⟩, ?_, ?_⟩
  · rw [visitSlot, hSlot]
    exact (if_pos hLive).trans (if_neg hEarly)
  · rw [addToCorrectSlot_eq]
    exact schedule_dueAt (w.popSlot rest) (key b) _

theorem slot_inj {ui m n : UInt32} (hm : m.toNat < maxArraySize) (hn : n.toNat < maxArraySize)
    (hEq : slot (ui + m) = slot (ui + n)) : m = n := by
  apply UInt32.toNat_inj.mp
  unfold slot maxArraySize at *
  simp only [UInt32.toNat_add] at hEq
  omega

theorem DueAt.unique (hNodup : ((w.boxesWith []).map TimerBox.timerID).Nodup)
    (h : DueAt w k p) (h' : DueAt w k p') : p = p' := by
  obtain ⟨m, hm, hSlot, rfl⟩ := h
  obtain ⟨n, hn, hSlot', rfl⟩ := h'
  obtain ⟨b, hb, hKey⟩ := List.mem_map.mp hSlot
  obtain ⟨b', hb', hKey'⟩ := List.mem_map.mp hSlot'
  have hIDs : b.timerID = b'.timerID := congrArg Prod.fst (hKey.trans hKey'.symm)
  have hIndex := index_unique hNodup (slot_lt _) (slot_lt _) hb hb' hIDs
  rw [slot_inj hm hn hIndex]

/-! ## The second loop -/

theorem fireTurn_cases (w : TimerWheel) (b : TimerBox) :
    (w.isTimerLive b.timerID = false ∧ w.fireTurn b = w.recycle b.timerID) ∨
    (w.isTimerLive b.timerID = true ∧ (w.timers b.timer).nextFire = 0 ∧
      w.fireTurn b =
        ((w.setNextFire b.timer (w.timers b.timer).interval).onTimer b.timer).finishCall b) ∨
    (w.isTimerLive b.timerID = true ∧ (w.timers b.timer).nextFire ≠ 0 ∧
      w.fireTurn b = w.schedule b.timerID b.timer (w.timers b.timer).nextFire) := by
  cases hLive : w.isTimerLive b.timerID with
  | false => exact .inl ⟨rfl, by simp [fireTurn, visitFireAll, hLive]⟩
  | true =>
    by_cases hDue : (w.timers b.timer).nextFire = 0
    · exact .inr (.inl ⟨rfl, hDue, by simp [fireTurn, visitFireAll, hLive, hDue]⟩)
    · refine .inr (.inr ⟨rfl, hDue, ?_⟩)
      rw [← addToCorrectSlot_eq]
      simp [fireTurn, visitFireAll, hLive, hDue]

/-- What a turn for `b` leaves alone. -/
structure Untouched (w : TimerWheel) (b : TimerBox) (w' : TimerWheel) : Prop where
  currentPos : w'.currentPos = w.currentPos
  ptrTimers : w'.ptrTimers = w.ptrTimers
  slots : ∀ i, ∀ b' ∈ w.setTimers i, b' ∈ w'.setTimers i
  nextFire : ∀ t, (w.isTimerLive b.timerID = true → t ≠ b.timer) →
    (w'.timers t).nextFire = (w.timers t).nextFire

theorem untouched_schedule (hLive : w.isTimerLive b.timerID = true) (n : UInt32) :
    Untouched w b (w.schedule b.timerID b.timer n) where
  currentPos := rfl
  ptrTimers := rfl
  slots i b' hb' := mem_schedule.mpr (.inl hb')
  nextFire t ht := by
    rw [timers_schedule]
    exact if_neg (ht hLive)

theorem untouched_repeat (hLive : w.isTimerLive b.timerID = true) (m n : UInt32) :
    Untouched w b
      (((w.setNextFire b.timer m).onTimer b.timer).schedule b.timerID b.timer n) where
  currentPos := rfl
  ptrTimers := rfl
  slots i b' hb' := mem_schedule.mpr (.inl hb')
  nextFire t ht := by
    simp only [timers_schedule, onTimer, timers_setNextFire]
    rw [if_neg (ht hLive), if_neg (ht hLive)]

theorem untouched_expire (hLive : w.isTimerLive b.timerID = true) (n : UInt32) :
    Untouched w b
      ((((w.setNextFire b.timer n).onTimer b.timer).resetTimerId b.timer).recycle b.timerID) where
  currentPos := rfl
  ptrTimers := rfl
  slots i b' hb' := hb'
  nextFire t ht := by
    simp only [recycle, timers_resetTimerId, onTimer, timers_setNextFire]
    exact if_neg (ht hLive)

theorem fireTurn_untouched (w : TimerWheel) (b : TimerBox) : Untouched w b (w.fireTurn b) := by
  obtain ⟨hDead, hEq⟩ | ⟨hLive, -, hEq⟩ | ⟨hLive, -, hEq⟩ := fireTurn_cases w b
  · rw [hEq]
    exact ⟨rfl, rfl, fun _ _ hb' => hb', fun _ _ => rfl⟩
  · rw [hEq]
    obtain ⟨-, -, hFinish⟩ | ⟨-, -, hFinish⟩ | ⟨hDead, -⟩ := finishCall_cases
      ((w.setNextFire b.timer (w.timers b.timer).interval).onTimer b.timer) b
    · rw [hFinish]
      exact untouched_repeat hLive _ _
    · rw [hFinish]
      exact untouched_expire hLive _
    · cases hDead.symm.trans hLive
  · rw [hEq]
    exact untouched_schedule hLive _

theorem run_fireTurn {inputs : List Input} (hRun : machine.run inputs = some ⟨w, .fire (b :: l)⟩) :
    ∃ n, machine.run (inputs ++ List.replicate n .next) = some ⟨w.fireTurn b, .fire l⟩ := by
  by_cases hCall : w.isTimerLive b.timerID = true ∧ (w.timers b.timer).nextFire = 0
  · refine ⟨2, ?_⟩
    rw [Machine.run_append hRun]
    simp [List.replicate, machine, step, fireTurn, visitFireAll, hCall]
  · refine ⟨1, ?_⟩
    rw [Machine.run_append hRun]
    cases hLive : w.isTimerLive b.timerID with
    | false => simp [List.replicate, machine, step, fireTurn, visitFireAll, hLive]
    | true =>
      have hEarly : (w.timers b.timer).nextFire ≠ 0 := fun hDue => hCall ⟨hLive, hDue⟩
      simp [List.replicate, machine, step, fireTurn, visitFireAll, hLive, hEarly]

theorem run_fireTurns {inputs : List Input} (hRun : machine.run inputs = some ⟨w, .fire l⟩) :
    ∃ n, machine.run (inputs ++ List.replicate n .next) = some ⟨l.foldl fireTurn w, .fire []⟩ := by
  induction l generalizing w inputs with
  | nil => exact ⟨0, by simpa using hRun⟩
  | cons b l ih =>
    obtain ⟨m, hTurn⟩ := run_fireTurn hRun
    obtain ⟨n, hRest⟩ := ih hTurn
    refine ⟨m + n, ?_⟩
    rw [List.replicate_add, ← List.append_assoc]
    exact hRest

theorem DueAt.turn {inputs : List Input}
    (hRun : machine.run inputs = some ⟨w, .fire (b' :: l)⟩) (hLive : w.isTimerLive k.1 = true)
    (h : DueAt w k p) : DueAt (w.fireTurn b') k p := by
  obtain ⟨n, hn, hSlot, hp⟩ := h
  obtain ⟨b, hb, rfl⟩ := List.mem_map.mp hSlot
  have hTurn := fireTurn_untouched w b'
  have hNe (hLive' : w.isTimerLive b'.timerID = true) : b.timer ≠ b'.timer := by
    have hAlone : Alone w b'.timer l := Owned.alone (reachable_owned hRun) hLive'
    exact hAlone b (List.mem_append_right _ (mem_contents.mpr ⟨_, slot_lt _, hb⟩)) hLive
  refine ⟨n, hn, ?_, ?_⟩
  · rw [hTurn.currentPos]
    exact List.mem_map_of_mem (hTurn.slots _ b hb)
  · change p = _ + _ + ((w.fireTurn b').timers b.timer).nextFire.toNat
    rw [hTurn.currentPos, hTurn.nextFire _ hNe]
    exact hp

theorem DueAt.turns {inputs : List Input} (hRun : machine.run inputs = some ⟨w, .fire l⟩)
    (hLive : w.isTimerLive k.1 = true) (h : DueAt w k p) : DueAt (l.foldl fireTurn w) k p := by
  induction l generalizing w inputs with
  | nil => exact h
  | cons b' l ih =>
    obtain ⟨n, hTurn⟩ := run_fireTurn hRun
    refine ih hTurn ?_ (h.turn hRun hLive)
    rw [isTimerLive, (fireTurn_untouched w b').ptrTimers]
    exact hLive

/-- A box that is met too early is due its remaining count after the position then. -/
theorem fireTurns_dueAt {inputs : List Input} (hRun : machine.run inputs = some ⟨w, .fire l⟩)
    (hb : b ∈ l) (hLive : w.isTimerLive b.timerID = true)
    (hEarly : (w.timers b.timer).nextFire ≠ 0) :
    DueAt (l.foldl fireTurn w) (key b)
      (w.currentPos.toNat + (w.timers b.timer).nextFire.toNat) := by
  induction l generalizing w inputs with
  | nil => cases hb
  | cons b' l ih =>
    obtain ⟨n, hTurn⟩ := run_fireTurn hRun
    have hLive' : (w.fireTurn b').isTimerLive b.timerID = true := by
      rw [isTimerLive, (fireTurn_untouched w b').ptrTimers]
      exact hLive
    obtain rfl | hb := List.mem_cons.mp hb
    · rw [List.foldl_cons]
      apply DueAt.turns hTurn hLive'
      obtain ⟨hDead, -⟩ | ⟨-, hDue, -⟩ | ⟨-, -, hEq⟩ := fireTurn_cases w b
      · cases hDead.symm.trans hLive
      · exact absurd hDue hEarly
      · rw [hEq]
        exact schedule_dueAt w (key b) _
    · have hNe (hLive' : w.isTimerLive b'.timerID = true) : b.timer ≠ b'.timer := by
        have hAlone : Alone w b'.timer l := Owned.alone (reachable_owned hRun) hLive'
        exact hAlone b (List.mem_append_left _ hb) hLive
      have hSame := (fireTurn_untouched w b').nextFire b.timer hNe
      have hRest := ih hTurn hb hLive' (hSame ▸ hEarly)
      rwa [hSame, (fireTurn_untouched w b').currentPos] at hRest

/-! ## The first loop -/

theorem mem_collectSlots_of_mem (n q : Nat) (w : TimerWheel) (l : List TimerBox) (hb : b ∈ l) :
    b ∈ (collectSlots n q w l).2 := by
  induction n generalizing q w l with
  | zero => exact hb
  | succ n ih => exact ih _ _ _ (List.mem_append_left _ hb)

theorem mem_collectSlots {n q : Nat} {l : List TimerBox} (hLe : q ≤ p) (hLt : p < q + n)
    (hb : b ∈ w.setTimers (p % maxArraySize)) (hLive : w.isTimerLive b.timerID = true) :
    b ∈ (collectSlots n q w l).2 := by
  induction n generalizing q w l with
  | zero => omega
  | succ n ih =>
    by_cases hSlot : p % maxArraySize = q % maxArraySize
    · refine mem_collectSlots_of_mem n (q + 1) _ _ (List.mem_append_right _ ?_)
      exact List.mem_filter.mpr ⟨hSlot ▸ hb, hLive⟩
    · have hNe : p ≠ q := fun hEq => hSlot (by rw [hEq])
      refine ih (by omega) (by omega) ?_ hLive
      change b ∈ Function.update w.setTimers (q % maxArraySize) [] (p % maxArraySize)
      rwa [Function.update_of_ne hSlot]

/-! ## The whole of `FireAll` -/

theorem hop_eq_self {n : UInt32} (hLe : n.toNat ≤ 1023) : hop n = n := by
  apply if_pos
  rw [UInt32.lt_iff_toNat_lt]
  exact Nat.lt_succ_of_le hLe

theorem fireAll_dueAt {inputs : List Input}
    (hRun : machine.run inputs = some ⟨w.collect.1, .fire w.collect.2⟩) (hStep : w.InStep)
    (hLe : w.totalDeviation.toNat ≤ 1023) (hWraps : ¬w.EndWraps) {n : UInt32}
    (h : w.Early n b) :
    DueAt w.fireAll (key b) (w.currentPos.toNat + w.totalDeviation.toNat +
      (w.timers b.timer).nextFire.toNat) := by
  obtain ⟨hn, hb, hLive, hEarly, -⟩ := h
  obtain ⟨freeTimerIDs, setTimers, hFrame⟩ := collect_frame hStep
  have hSpan : w.fireSpan = w.totalDeviation := by
    rw [fireSpan, if_neg hWraps, hop_eq_self hLe]
  have hMem : b ∈ w.collect.2 := by
    rw [collect_eq hStep hWraps]
    rw [hStep.slot] at hb
    refine mem_collectSlots (Nat.le_add_right _ _) (Nat.add_lt_add_left ?_ _) hb hLive
    rw [hop_eq_self hLe]
    exact UInt32.lt_iff_toNat_lt.mp hn
  have hTimers : w.collect.1.timers = w.timers := by rw [hFrame]; rfl
  have hPtr : w.collect.1.ptrTimers = w.ptrTimers := by rw [hFrame]; rfl
  have hPos : w.collect.1.currentPos.toNat = w.currentPos.toNat + w.totalDeviation.toNat := by
    rw [hFrame, hSpan]
    change (w.currentPos + w.totalDeviation).toNat = _
    unfold EndWraps at hWraps
    rw [UInt32.toNat_add]
    omega
  have hDue := fireTurns_dueAt hRun hMem
  rw [isTimerLive, hPtr, hTimers, hPos] at hDue
  exact hDue hLive hEarly

theorem fireAll_nodup {inputs : List Input}
    (hRun : machine.run inputs = some ⟨w.collect.1, .fire w.collect.2⟩) :
    ((w.fireAll.boxesWith []).map TimerBox.timerID).Nodup := by
  obtain ⟨n, hFire⟩ := run_fireTurns hRun
  exact (reachable_owned hFire).nodup_boxes

theorem run_clock {inputs : List Input} {atEnd : Bool} {now : UInt32}
    (hRun : machine.run inputs = some ⟨w, .pass atEnd⟩) (hOver : w.passOver atEnd = true)
    (hPos : 1 ≤ (w.ticked now).totalDeviation.toNat) :
    machine.run (inputs ++ [.clock now]) =
      some ⟨(w.ticked now).collect.1, .fire (w.ticked now).collect.2⟩ := by
  have hLate : (w.ticked now).totalDeviation > 0 := UInt32.lt_iff_toNat_lt.mpr hPos
  refine Machine.run_concat_eq_some.mpr ⟨_, hRun, ?_⟩
  exact (if_pos hOver).trans (congrArg some (if_pos hLate))

theorem not_keepsDue_of_early {inputs : List Input} {atEnd : Bool} {now : UInt32}
    (hRun : machine.run inputs = some ⟨w, .pass atEnd⟩) (hOver : w.passOver atEnd = true)
    (hLe : (w.ticked now).totalDeviation.toNat ≤ 1023)
    (hWraps : (w.ticked now).currentPos.toNat + (w.ticked now).totalDeviation.toNat < 2 ^ 32)
    {n : UInt32} (hEarly : (w.ticked now).Early n b) : ¬(w.ticked now).KeepsDue := by
  intro hKeeps
  have hn := UInt32.lt_iff_toNat_lt.mp hEarly.1
  have hFire := run_clock hRun hOver (Nat.one_le_of_lt hn)
  have hStep : (w.ticked now).InStep := (reachable_inStep hRun).advance 1
  have hDue := fireAll_dueAt hFire hStep hLe (Nat.not_le.mpr hWraps) hEarly
  have hEq := (hKeeps n b hEarly).unique (fireAll_nodup hFire) hDue
  omega

/-- `FireAll` keeps the due positions of the boxes that it meets too early if and
only if it meets none. -/
theorem fireAll_keepsDue_iff {inputs : List Input} {atEnd : Bool} {now : UInt32}
    (hRun : machine.run inputs = some ⟨w, .pass atEnd⟩) (hOver : w.passOver atEnd = true)
    (hLe : (w.ticked now).totalDeviation.toNat ≤ 1023)
    (hWraps : (w.ticked now).currentPos.toNat + (w.ticked now).totalDeviation.toNat < 2 ^ 32) :
    (w.ticked now).KeepsDue ↔ ∀ n b, ¬(w.ticked now).Early n b := by
  constructor
  · intro hKeeps n b hEarly
    exact not_keepsDue_of_early hRun hOver hLe hWraps hEarly hKeeps
  · intro hNone n b hEarly
    exact absurd hEarly (hNone n b)

theorem fireAll_keepsDue_iff_one : ∃ w,
    machine.run [.createTimer 1 false, .clock 0] = some ⟨w, .pass false⟩ ∧
      (w.ticked 2).KeepsDue := by
  let inputs : List Input := [.createTimer 1 false, .clock 0]
  let s : State := (machine.run inputs).get (by decide)
  have hRun : machine.run inputs = some ⟨s.wheel, .pass false⟩ := rfl
  refine ⟨s.wheel, hRun, (fireAll_keepsDue_iff hRun (by decide) (by decide) (by decide)).mpr ?_⟩
  rintro n b ⟨hn, hb, -, hEarly, -⟩
  obtain rfl : n = 0 := by
    have hSpan : (s.wheel.ticked 2).totalDeviation.toNat = 1 := by decide
    have hn := hSpan ▸ UInt32.lt_iff_toNat_lt.mp hn
    exact UInt32.toNat_inj.mp (Nat.lt_one_iff.mp hn)
  have hSlot : (s.wheel.ticked 2).setTimers (slot ((s.wheel.ticked 2).currentPos + 0)) =
      [⟨127, 0, 1⟩] := by decide
  rw [hSlot] at hb
  obtain rfl := List.mem_singleton.mp hb
  exact hEarly (by decide)

/-- The timer of the heartbeat, when the first pass takes more than two seconds. -/
theorem not_fireAll_keepsDue : ∃ w now,
    machine.run [.clock 0] = some ⟨w, .pass false⟩ ∧ w.passOver false = true ∧
      (w.ticked now).totalDeviation.toNat = 1023 ∧
      (w.ticked now).currentPos.toNat + (w.ticked now).totalDeviation.toNat < 2 ^ 32 ∧
      ¬(w.ticked now).KeepsDue := by
  let s : State := (machine.run [.clock 0]).get (by decide)
  have hRun : machine.run [.clock 0] = some ⟨s.wheel, .pass false⟩ := rfl
  have hOver : s.wheel.passOver false = true := by decide
  have hSpan : (s.wheel.ticked 2046).totalDeviation.toNat = 1023 := by decide
  have hWraps : (s.wheel.ticked 2046).currentPos.toNat +
      (s.wheel.ticked 2046).totalDeviation.toNat < 2 ^ 32 := by decide
  refine ⟨s.wheel, 2046, hRun, hOver, hSpan, hWraps, ?_⟩
  have hEarly : (s.wheel.ticked 2046).Early 1022 ⟨127, 0, 1⟩ := by
    unfold Early
    decide
  exact not_keepsDue_of_early hRun hOver hSpan.le hWraps hEarly

end CStabilizer.TimerWheel
