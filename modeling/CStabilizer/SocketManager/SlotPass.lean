import CStabilizer.SocketManager.TimerOnTime
import CStabilizer.Library.Rotation

/-! # The end of a slot pass

A timer of a zero interval goes back into the slot that is walked. Its box is met
again unless the iterator was at the end when it went back, and two such timers
keep the loop going. -/

namespace CStabilizer.TimerWheel

open Library Library.Buckets Library.Rotation
open scoped List

/-! ## The loop -/

/-- One turn of the loop over the slot, with an `OnTimer` that creates and deletes no timer. -/
def passTurn (s : State) : Option State :=
  (step s .next).bind fun s' =>
    match s'.control with
    | .passCall .. => step s' .next
    | .start | .pass _ | .fire _ | .fireCall .. | .sockets .. => some s'

/-- The boxes that the loop visits, if it ends within the fuel. -/
def slotPass : (fuel : Nat) → State → Option (List TimerBox)
  | 0, _ => none
  | fuel + 1, s =>
    match s.control with
    | .pass atEnd =>
      if s.wheel.passOver atEnd then some []
      else
        (passTurn s).bind fun s' =>
          (slotPass fuel s').map ((s.wheel.setTimers (slot s.wheel.currentPos)).take 1 ++ ·)
    | .start | .passCall .. | .fire _ | .fireCall .. | .sockets .. => none

def returns (w : TimerWheel) (k : Key) : Bool :=
  w.isTimerLive k.1 && (w.timers k.2).nextFire == 0 && (w.timers k.2).repeated &&
    (w.timers k.2).interval == 0

def slotKeys (w : TimerWheel) : List Key := (w.setTimers (slot w.currentPos)).map key

/-! ## One turn -/

variable {w w' : TimerWheel} {b : TimerBox} {rest : List TimerBox}

theorem returns_eq_true_iff {k : Key} :
    w.returns k = true ↔ w.isTimerLive k.1 = true ∧ (w.timers k.2).nextFire = 0 ∧
      (w.timers k.2).repeated = true ∧ (w.timers k.2).interval = 0 := by
  simp [returns, and_assoc]

theorem returns_congr {k : Key} (hPtr : w'.ptrTimers = w.ptrTimers)
    (hTimer : w.isTimerLive k.1 = true →
      (w'.timers k.2).nextFire = (w.timers k.2).nextFire ∧
      (w'.timers k.2).repeated = (w.timers k.2).repeated ∧
      (w'.timers k.2).interval = (w.timers k.2).interval) : w'.returns k = w.returns k := by
  have hLive : w'.isTimerLive k.1 = w.isTimerLive k.1 := by rw [isTimerLive, hPtr, isTimerLive]
  simp only [returns, hLive]
  cases h : w.isTimerLive k.1 with
  | false => rfl
  | true =>
    obtain ⟨hNextFire, hRepeated, hInterval⟩ := hTimer h
    rw [hNextFire, hRepeated, hInterval]

theorem slotKeys_popSlot (w : TimerWheel) (rest : List TimerBox) :
    (w.popSlot rest).slotKeys = rest.map key := by
  simp [slotKeys, popSlot]

theorem slotKeys_schedule (hStep : w.InStep) (k : Key) (n : UInt32) :
    (w.schedule k.1 k.2 n).slotKeys = w.slotKeys ++ if n = 0 then [k] else [] := by
  change List.map key (Function.update w.setTimers (slot (w.currentPos + hop n))
    (w.setTimers (slot (w.currentPos + hop n)) ++ [⟨k.1, k.2, w.pos⟩]) (slot w.currentPos)) = _
  split
  · rename_i hZero
    rw [hStep.hop_slot_iff.mpr hZero, Function.update_self, List.map_append]
    rfl
  · rename_i hLater
    rw [Function.update_of_ne (fun hEq => hLater (hStep.hop_slot_iff.mp hEq.symm)), List.append_nil]
    rfl

/-- What a turn for the box `b` does to the slot, whose other boxes are `rest`. -/
structure Turned (w : TimerWheel) (b : TimerBox) (rest : List TimerBox) (w' : TimerWheel) :
    Prop where
  slotKeys : w'.slotKeys = rest.map key ++ if w.returns (key b) then [key b] else []
  returns : ∀ k ∈ w'.slotKeys, w'.returns k = w.returns k

theorem timer_ne (hOwned : Owned w (w.keysWith []))
    (hSlot : w.setTimers (slot w.currentPos) = b :: rest) {k : Key} (hk : k ∈ rest.map key)
    (hLive : w.isTimerLive b.timerID = true) (hLive' : w.isTimerLive k.1 = true) :
    k.2 ≠ b.timer := by
  have hAlone : Alone (w.popSlot rest) b.timer [] := Owned.alone (hOwned.popSlot hSlot) hLive
  obtain ⟨b', hb', rfl⟩ := List.mem_map.mp hk
  refine hAlone b' (List.mem_append_right _ (mem_contents.mpr ⟨_, slot_lt w.currentPos, ?_⟩)) hLive'
  simpa [popSlot] using hb'

theorem turned_dead (hDead : w.isTimerLive b.timerID = false) :
    Turned w b rest ((w.popSlot rest).recycle b.timerID) := by
  have hGone : w.returns (key b) = false := by simp [returns, key, hDead]
  constructor
  · rw [hGone, if_neg Bool.false_ne_true, List.append_nil]
    exact slotKeys_popSlot w rest
  · intro k _
    exact returns_congr rfl fun _ => ⟨rfl, rfl, rfl⟩

theorem turned_once (hOnce : (w.timers b.timer).repeated = false) :
    Turned w b rest
      ((((w.popSlot rest).onTimer b.timer).resetTimerId b.timer).recycle b.timerID) := by
  have hGone : w.returns (key b) = false := by simp [returns, key, hOnce]
  constructor
  · rw [hGone, if_neg Bool.false_ne_true, List.append_nil]
    exact slotKeys_popSlot w rest
  · intro k _
    refine returns_congr rfl fun _ => ?_
    simp only [recycle, timers_resetTimerId]
    exact ⟨rfl, rfl, rfl⟩

theorem turned_schedule (hOwned : Owned w (w.keysWith [])) (hStep : w.InStep)
    (hSlot : w.setTimers (slot w.currentPos) = b :: rest)
    (hLive : w.isTimerLive b.timerID = true) {w₀ : TimerWheel} {trace : List TimerEvent}
    (h₀ : w₀ = { w.popSlot rest with trace }) {n : UInt32}
    (hReturns : w.returns (key b) = true ↔ n = 0) :
    Turned w b rest (w₀.schedule b.timerID b.timer n) := by
  subst h₀
  have hKeys : ({ w.popSlot rest with trace } : TimerWheel).slotKeys = rest.map key :=
    slotKeys_popSlot w rest
  have hSlotKeys := slotKeys_schedule (w := { w.popSlot rest with trace }) hStep (key b) n
  have hCond : (if n = 0 then [key b] else []) = if w.returns (key b) then [key b] else [] :=
    if_congr hReturns.symm rfl rfl
  rw [hKeys, hCond] at hSlotKeys
  constructor
  · exact hSlotKeys
  · intro k hk
    refine returns_congr rfl fun hLive' => ?_
    rw [timers_schedule]
    refine ⟨?_, rfl, rfl⟩
    obtain hk | hk := List.mem_append.mp (hSlotKeys ▸ hk)
    · exact if_neg (timer_ne hOwned hSlot hk hLive hLive')
    · -- Nothing is left to wait for a timer that returns
      split at hk
      · rename_i hBack
        obtain rfl := List.mem_singleton.mp hk
        rw [hReturns.mp hBack]
        exact (if_pos rfl).trans (returns_eq_true_iff.mp hBack).2.1.symm
      · cases hk

theorem passTurn_turned (hOwned : Owned w (w.keysWith [])) (hStep : w.InStep)
    (hSlot : w.setTimers (slot w.currentPos) = b :: rest) :
    ∃ w', passTurn ⟨w, .pass false⟩ = some ⟨w', .pass rest.isEmpty⟩ ∧ Turned w b rest w' := by
  have hVisit : passTurn ⟨w, .pass false⟩ = w.visitSlot.bind fun s' =>
      match s'.control with
      | .passCall .. => step s' .next
      | .start | .pass _ | .fire _ | .fireCall .. | .sockets .. => some s' := rfl
  rw [hVisit, visitSlot, hSlot]
  simp only [addToCorrectSlot_eq]
  change ∃ w', Option.bind (if w.isTimerLive b.timerID then
    if (w.timers b.timer).nextFire = 0 then _ else _ else _) _ = _ ∧ _
  cases hLive : w.isTimerLive b.timerID with
  | false => exact ⟨(w.popSlot rest).recycle b.timerID, rfl, turned_dead hLive⟩
  | true =>
    by_cases hDue : (w.timers b.timer).nextFire = 0
    · rw [if_pos rfl, if_pos hDue]
      refine ⟨((w.popSlot rest).onTimer b.timer).finishCall b, rfl, ?_⟩
      obtain ⟨-, hRepeated, hEq⟩ | ⟨-, hOnce, hEq⟩ | ⟨hDead, -⟩ :=
        finishCall_cases ((w.popSlot rest).onTimer b.timer) b
      · rw [hEq]
        apply turned_schedule hOwned hStep hSlot hLive rfl
        rw [returns_eq_true_iff]
        exact ⟨fun h => h.2.2.2, fun h => ⟨hLive, hDue, hRepeated, h⟩⟩
      · rw [hEq]
        exact turned_once hOnce
      · cases hDead.symm.trans hLive
    · rw [if_pos rfl, if_neg hDue]
      refine ⟨(w.popSlot rest).schedule b.timerID b.timer (w.timers b.timer).nextFire, rfl, ?_⟩
      apply turned_schedule hOwned hStep hSlot hLive rfl
      rw [returns_eq_true_iff]
      exact ⟨fun h => h.2.1, fun h => absurd h hDue⟩

/-! ## The whole pass -/

theorem passTurn_owned {s s' : State} (hOwned : s.Owned) (hStep : s.wheel.InStep)
    (hTurn : passTurn s = some s') : s'.Owned ∧ s'.wheel.InStep := by
  obtain ⟨s₁, h₁, hTurn⟩ := Option.bind_eq_some_iff.mp hTurn
  have hTransition := Transition.of_step h₁
  have hOwned₁ := hOwned.step hTransition
  have hStep₁ := hTransition.inStep hStep
  split at hTurn
  · have hReturn := Transition.of_step hTurn
    exact ⟨hOwned₁.step hReturn, hReturn.inStep hStep₁⟩
  all_goals
    cases hTurn
    exact ⟨hOwned₁, hStep₁⟩

theorem slotPass_eq_visits {R : Key → Bool} (fuel : Nat) {atEnd : Bool}
    (hOwned : State.Owned ⟨w, .pass atEnd⟩) (hStep : w.InStep)
    (hReturns : ∀ k ∈ w.slotKeys, w.returns k = R k) :
    (slotPass fuel ⟨w, .pass atEnd⟩).map (List.map key) = visits R fuel atEnd w.slotKeys := by
  induction fuel generalizing w atEnd with
  | zero => rfl
  | succ fuel ih =>
    cases atEnd with
    | true => rfl
    | false =>
      cases hSlot : w.setTimers (slot w.currentPos) with
      | nil => simp [slotPass, passOver, slotKeys, hSlot, visits]
      | cons b rest =>
        obtain ⟨w', hTurn, hTurned⟩ := passTurn_turned hOwned hStep hSlot
        obtain ⟨hOwned', hStep'⟩ := passTurn_owned hOwned hStep hTurn
        have hKeys : w.slotKeys = key b :: rest.map key := by simp [slotKeys, hSlot]
        have hHead : w.returns (key b) = R (key b) := hReturns _ (hKeys ▸ List.mem_cons_self)
        have hReturns' : ∀ k ∈ w'.slotKeys, w'.returns k = R k := by
          intro k hk
          rw [hTurned.returns k hk]
          refine hReturns k (hKeys ▸ ?_)
          obtain hk | hk := List.mem_append.mp (hTurned.slotKeys ▸ hk)
          · exact List.mem_cons_of_mem _ hk
          · split at hk
            · exact List.mem_singleton.mp hk ▸ List.mem_cons_self
            · cases hk
        have hRest := ih hOwned' hStep' hReturns'
        rw [hTurned.slotKeys, hHead] at hRest
        rw [hKeys, visits, List.isEmpty_map, ← hRest]
        simp [slotPass, passOver, hSlot, hTurn, Function.comp_def]

/-- The loop visits each box of the slot once and ends, if and only if no box
before the last one goes back into the slot. -/
theorem slotPass_once_iff {inputs : List Input}
    (hRun : machine.run inputs = some ⟨w, .pass false⟩) :
    (∃ fuel visited, slotPass fuel ⟨w, .pass false⟩ = some visited ∧
      visited.map key ~ (w.setTimers (slot w.currentPos)).map key) ↔
      ∀ b ∈ (w.setTimers (slot w.currentPos)).dropLast, w.returns (key b) = false := by
  have hVisits (fuel : Nat) := slotPass_eq_visits fuel (R := w.returns) (reachable_owned hRun)
    (reachable_inStep hRun) fun _ _ => rfl
  calc
    _ ↔ ∃ fuel keys, visits w.returns fuel false w.slotKeys = some keys ∧ keys ~ w.slotKeys := by
      simp only [← hVisits, Option.map_eq_some_iff]
      constructor
      · rintro ⟨fuel, visited, hPass, hPerm⟩
        exact ⟨fuel, visited.map key, ⟨visited, hPass, rfl⟩, hPerm⟩
      · rintro ⟨fuel, _, ⟨visited, hPass, rfl⟩, hPerm⟩
        exact ⟨fuel, visited, hPass, hPerm⟩
    _ ↔ ∀ k ∈ w.slotKeys.dropLast, w.returns k = false := visits_once_iff
    _ ↔ _ := by simp only [slotKeys, ← List.map_dropLast, List.forall_mem_map]

theorem slotPass_once_iff_last : ∃ w fuel visited,
    machine.run [.createTimer 0 true, .createTimer 0 true, .deleteTimer 0, .clock 0] =
      some ⟨w, .pass false⟩ ∧
    slotPass fuel ⟨w, .pass false⟩ = some visited ∧ visited.map key ~ [(127, 0), (126, 1)] := by
  let inputs : List Input := [.createTimer 0 true, .createTimer 0 true, .deleteTimer 0, .clock 0]
  let s : State := (machine.run inputs).get (by decide)
  have hRun : machine.run inputs = some ⟨s.wheel, .pass false⟩ := rfl
  obtain ⟨fuel, visited, hPass, hPerm⟩ := (slotPass_once_iff hRun).mpr (by decide)
  exact ⟨s.wheel, fuel, visited, hRun, hPass, hPerm⟩

/-- Two timers of a zero interval are met in turn for ever. -/
theorem not_slotPass_once : ∃ w,
    machine.run [.createTimer 0 true, .createTimer 0 true, .clock 0] = some ⟨w, .pass false⟩ ∧
      ∀ fuel, slotPass fuel ⟨w, .pass false⟩ = none := by
  let inputs : List Input := [.createTimer 0 true, .createTimer 0 true, .clock 0]
  let s : State := (machine.run inputs).get (by decide)
  have hRun : machine.run inputs = some ⟨s.wheel, .pass false⟩ := rfl
  refine ⟨s.wheel, hRun, fun fuel => ?_⟩
  have hVisits := slotPass_eq_visits fuel (R := s.wheel.returns) (reachable_owned hRun)
    (reachable_inStep hRun) fun _ _ => rfl
  rw [visits_eq_none (by decide)] at hVisits
  exact Option.map_eq_none_iff.mp hVisits

end CStabilizer.TimerWheel
