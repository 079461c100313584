import CStabilizer.SocketManager.TimerOwnership

/-! # Timer ids in every state

The boxes of a state are those in the slots and those in the hands of a loop.
Every step of the timer loops keeps their ids and those on the stack apart. -/

namespace CStabilizer.TimerWheel

open Library Library.Buckets Library.Splits
open scoped List

def Control.boxes : Control → List TimerBox
  | passCall pTimeBox _ => [pTimeBox]
  | fire iteAll => iteAll
  | fireCall pTimeBox iteAll => pTimeBox :: iteAll
  | start | pass _ | sockets .. => []

def boxesWith (w : TimerWheel) (held : List TimerBox) : List TimerBox :=
  held ++ contents maxArraySize w.setTimers

def keysWith (w : TimerWheel) (held : List TimerBox) : List Key := (w.boxesWith held).map key

def State.boxes (s : State) : List TimerBox := s.wheel.boxesWith s.control.boxes

def State.Owned (s : State) : Prop := TimerWheel.Owned s.wheel (s.wheel.keysWith s.control.boxes)

variable {w w' : TimerWheel} {held rest : List TimerBox} {b : TimerBox}

theorem key_mem_of_slot {i : Nat} (hi : i < maxArraySize) (hb : b ∈ w.setTimers i) :
    key b ∈ w.keysWith held :=
  List.mem_map_of_mem (List.mem_append_right _ (mem_contents.mpr ⟨i, hi, hb⟩))

theorem keysWith_cons (w : TimerWheel) (b : TimerBox) (held : List TimerBox) :
    w.keysWith (b :: held) = key b :: w.keysWith held := rfl

theorem keysWith_recycle (w : TimerWheel) (id : Nat) (held : List TimerBox) :
    (w.recycle id).keysWith held = w.keysWith held := rfl

theorem keysWith_onTimer (w : TimerWheel) (t : Nat) (held : List TimerBox) :
    (w.onTimer t).keysWith held = w.keysWith held := rfl

theorem keysWith_schedule (id t : Nat) (n : UInt32) :
    (id, t) :: w.keysWith held ~ (w.schedule id t n).keysWith held := by
  have hPush : contents maxArraySize (w.schedule id t n).setTimers ~
      ⟨id, t, w.pos⟩ :: contents maxArraySize w.setTimers := contents_push_perm (slot_lt _) _
  exact ((hPush.append_left held).trans List.perm_middle).symm.map key

theorem keysWith_popSlot (hSlot : w.setTimers (slot w.currentPos) = b :: rest) :
    w.keysWith held ~ (w.popSlot rest).keysWith (b :: held) := by
  have hPop := contents_pop_perm (slot_lt w.currentPos) hSlot
  exact ((hPop.append_left held).trans List.perm_middle).map key

namespace Owned

theorem congrSlots (h : Owned w (w.keysWith held)) (hSlots : w'.setTimers = w.setTimers)
    (hIDs : w'.freeTimerIDs = w.freeTimerIDs) (hMax : w'.maxTimers = w.maxTimers)
    (hPtr : w'.ptrTimers = w.ptrTimers) (hTimers : w'.timers = w.timers)
    (hCount : w'.timerCount = w.timerCount) (hTrace : w'.trace = w.trace) :
    Owned w' (w'.keysWith held) := by
  have hKeys : w'.keysWith held = w.keysWith held := by
    simp only [keysWith, boxesWith, hSlots]
  rw [hKeys]
  exact congr h hIDs hMax hPtr hTimers hCount hTrace

theorem scheduleBox (h : Owned w (key b :: w.keysWith held)) (n : UInt32) :
    Owned (w.schedule b.timerID b.timer n)
      ((w.schedule b.timerID b.timer n).keysWith held) :=
  (h.schedule b.timerID b.timer n).perm (keysWith_schedule _ _ n)

theorem finishCall (h : Owned w (w.keysWith (b :: held))) :
    Owned (w.finishCall b) ((w.finishCall b).keysWith held) := by
  obtain ⟨_, _, hEq⟩ | ⟨hLive, _, hEq⟩ | ⟨hDead, hEq⟩ := finishCall_cases w b
  · rw [hEq]
    exact h.scheduleBox _
  · rw [hEq]
    exact h.expire hLive
  · rw [hEq]
    exact h.recycle hDead

theorem popSlot (h : Owned w (w.keysWith held))
    (hSlot : w.setTimers (slot w.currentPos) = b :: rest) :
    Owned (w.popSlot rest) (key b :: (w.popSlot rest).keysWith held) :=
  congr (h.perm (keysWith_popSlot hSlot)) rfl rfl rfl rfl rfl rfl

theorem recycleAll {dead : List TimerBox} {keys : List Key}
    (h : Owned w (dead.map key ++ keys)) (hDead : ∀ b ∈ dead, w.isTimerLive b.timerID = false) :
    Owned { w with freeTimerIDs := (dead.map TimerBox.timerID).reverse ++ w.freeTimerIDs } keys := by
  induction dead generalizing w with
  | nil => exact h
  | cons b dead ih =>
    have hRest := ih (h.recycle (hDead b List.mem_cons_self))
      fun b' hb' => hDead b' (List.mem_cons_of_mem _ hb')
    rw [List.map_cons, List.reverse_cons, List.append_assoc]
    exact hRest

theorem collectSlot {i : Nat} (hi : i < maxArraySize) (h : Owned w (w.keysWith held)) :
    Owned (w.collectSlot i held).1 ((w.collectSlot i held).1.keysWith (w.collectSlot i held).2) := by
  have hBoxes : w.boxesWith held ~
      (w.setTimers i).filter (!w.isTimerLive ·.timerID) ++
        ((held ++ (w.setTimers i).filter (w.isTimerLive ·.timerID)) ++
          contents maxArraySize (Function.update w.setTimers i [])) := by
    apply ((contents_perm hi).append_left held).trans
    have hSplit := List.filter_append_perm (w.isTimerLive ·.timerID) (w.setTimers i)
    apply ((hSplit.symm.append_right _).append_left held).trans
    simp only [← List.append_assoc]
    apply List.Perm.append_right _
    exact List.perm_append_comm.trans (.of_eq (List.append_assoc ..).symm)
  have hDead : ∀ b ∈ (w.setTimers i).filter (!w.isTimerLive ·.timerID),
      w.isTimerLive b.timerID = false := by
    intro b hb
    simpa using (List.mem_filter.mp hb).2
  have hKeys := hBoxes.map key
  rw [List.map_append] at hKeys
  exact congr ((h.perm hKeys).recycleAll hDead) rfl rfl rfl rfl rfl rfl

theorem collectLoop (turns : Nat) (ui : UInt32) (h : Owned w (w.keysWith held)) :
    Owned (collectLoop turns ui w held).1
      ((collectLoop turns ui w held).1.keysWith (collectLoop turns ui w held).2) := by
  induction turns generalizing ui w held with
  | zero => exact h
  | succ turns ih =>
    rw [collectLoop_succ]
    split
    · split
      · dsimp only
        exact congrSlots h rfl rfl rfl rfl rfl rfl rfl
      · exact ih _ (h.collectSlot (slot_lt ui))
    · exact h

theorem collect (h : Owned w (w.keysWith [])) :
    Owned w.collect.1 (w.collect.1.keysWith w.collect.2) :=
  congrSlots (h.collectLoop maxArraySize w.currentPos) rfl rfl rfl rfl rfl rfl rfl

end Owned

theorem owned_create : State.Owned ⟨create, .start⟩ where
  ids := by simp [keysWith, boxesWith, Control.boxes, create, List.reverse_perm]
  max := by decide
  allocated := by simp [keysWith, boxesWith, Control.boxes, create]
  own _ _ t hPtr := by cases hPtr
  kept t ht := absurd ht (Nat.not_lt_zero t)
  deleted t hMem := by cases hMem
  quiet := stepwise_nil

theorem boxes_noteCreated (c : Control) (uiInt : UInt32) : (c.noteCreated uiInt).boxes = c.boxes := by
  cases c <;> rfl

theorem Owned.createTimer {uiInt : UInt32} {isRepeated : Bool} (h : Owned w (w.keysWith held))
    (hCreate : w.createTimer uiInt isRepeated = some w') : Owned w' (w'.keysWith held) := by
  obtain ⟨id, w₀, hID, rfl⟩ := createTimer_eq_some.mp hCreate
  obtain ⟨⟨max, ptr, free, hw₀⟩, _⟩ := h.getTimerIDFromStack hID
  have hKeys : w.keysWith held = (w₀.register id uiInt isRepeated).keysWith held := by
    rw [hw₀]
    rfl
  have hRegister := h.register uiInt isRepeated hID
  rw [hKeys] at hRegister
  exact (hRegister.schedule id w₀.timerCount uiInt).perm (keysWith_schedule _ _ uiInt)

theorem State.Owned.step {s s' : State} {input : Input} (h : s.Owned)
    (hStep : Transition s input s') : s'.Owned := by
  cases hStep with
  | createTimer _ hCreate =>
    rw [State.Owned, boxes_noteCreated]
    exact TimerWheel.Owned.createTimer h hCreate
  | deleteTimer _ hDelete =>
    have hOwned := TimerWheel.Owned.deleteTimer h hDelete
    obtain ⟨-, -, rfl⟩ := deleteTimer_eq_some.mp hDelete
    exact hOwned
  | start hCreate =>
    exact (TimerWheel.Owned.createTimer h hCreate).congrSlots rfl rfl rfl rfl rfl rfl rfl
  | endPass => exact TimerWheel.Owned.congrSlots h rfl rfl rfl rfl rfl rfl rfl
  | fireAll =>
    exact TimerWheel.Owned.collect (TimerWheel.Owned.congrSlots h rfl rfl rfl rfl rfl rfl rfl)
  | endFireAll => exact TimerWheel.Owned.congrSlots h rfl rfl rfl rfl rfl rfl rfl
  | @afterSockets w uiPollInterval now created =>
    obtain ⟨_, hEq⟩ := afterSockets_eq (w.readClock now).2 uiPollInterval (now - w.lastTime)
    rw [State.Owned, hEq]
    exact TimerWheel.Owned.congrSlots h rfl rfl rfl rfl rfl rfl rfl
  | meetDead hSlot hDead =>
    rw [State.Owned, keysWith_recycle]
    exact (TimerWheel.Owned.popSlot h hSlot).recycle hDead
  | meetDue hSlot hLive _ =>
    rw [State.Owned, keysWith_onTimer, Control.boxes, keysWith_cons]
    exact (TimerWheel.Owned.popSlot h hSlot).onTimer hLive
  | meetEarly hSlot _ _ => exact (TimerWheel.Owned.popSlot h hSlot).scheduleBox _
  | passReturn => exact TimerWheel.Owned.finishCall h
  | fireDead hDead => exact TimerWheel.Owned.recycle h hDead
  | fireDue hLive _ => exact (TimerWheel.Owned.setNextFire h _ _).onTimer hLive
  | fireEarly _ _ => exact TimerWheel.Owned.scheduleBox h _
  | fireReturn => exact TimerWheel.Owned.finishCall h

theorem reachable_owned {inputs : List Input} {s : State} (hRun : machine.run inputs = some s) :
    s.Owned :=
  invariant_of_transition owned_create (fun _ _ _ h hStep => h.step hStep) hRun

/-! ## The ids of a state -/

/-- Each id is free and without a box, or taken by one box, whose timer is the
one the table has, if any. -/
def State.IdsOwned (s : State) : Prop :=
  ∀ id, 1 ≤ id → id < s.wheel.maxTimers →
    (s.wheel.freeTimerIDs.count id = 1 ∧ ∀ b ∈ s.boxes, b.timerID ≠ id) ∨
    (id ∉ s.wheel.freeTimerIDs ∧ ∃ b, s.boxes.filter (·.timerID = id) = [b] ∧
      (s.wheel.isTimerLive id = true → s.wheel.ptrTimers id = some b.timer ∧
        b.timer < s.wheel.timerCount ∧ (s.wheel.timers b.timer).deleted = false))

theorem map_keys (s : State) :
    (s.wheel.keysWith s.control.boxes).map Prod.fst = s.boxes.map TimerBox.timerID := by
  rw [keysWith, List.map_map]
  rfl

theorem State.Owned.nodup_boxes {s : State} (h : s.Owned) :
    (s.boxes.map TimerBox.timerID).Nodup := by
  have hNodup := (List.nodup_append.mp (TimerWheel.Owned.nodup h)).2.1
  rwa [map_keys] at hNodup

theorem State.Owned.filter_eq {s : State} (h : s.Owned) {b : TimerBox} (hb : b ∈ s.boxes) :
    s.boxes.filter (·.timerID = b.timerID) = [b] := by
  have hNodup := h.nodup_boxes
  have hUnique : ∀ b' ∈ s.boxes, b'.timerID = b.timerID → b' = b :=
    fun b' hb' hEq => List.inj_on_of_nodup_map hNodup hb' hb hEq
  have hFilter : s.boxes.filter (·.timerID = b.timerID) = s.boxes.filter (· = b) := by
    apply List.filter_congr
    intro b' hb'
    exact decide_eq_decide.mpr ⟨hUnique b' hb', fun hEq => hEq ▸ rfl⟩
  rw [hFilter, List.filter_eq, List.count_eq_one_of_mem hNodup.of_map hb, List.replicate_one]

theorem State.Owned.idsOwned {s : State} (h : s.Owned) : s.IdsOwned := by
  intro id hPos hLt
  have hMem : id ∈ s.wheel.freeTimerIDs ++ s.boxes.map TimerBox.timerID := by
    rw [← map_keys]
    exact (TimerWheel.Owned.ids h).mem_iff.mpr (List.mem_range'_1.mpr ⟨hPos, by omega⟩)
  have hNodup := TimerWheel.Owned.nodup h
  rw [map_keys] at hNodup
  obtain ⟨hFreeNodup, -, hApart⟩ := List.nodup_append.mp hNodup
  obtain hFree | hBox := List.mem_append.mp hMem
  · refine .inl ⟨List.count_eq_one_of_mem hFreeNodup hFree, ?_⟩
    rintro b hb rfl
    exact hApart _ hFree _ (List.mem_map_of_mem hb) rfl
  · refine .inr ⟨fun hFree => hApart _ hFree _ hBox rfl, ?_⟩
    obtain ⟨b, hb, rfl⟩ := List.mem_map.mp hBox
    refine ⟨b, h.filter_eq hb, fun hLive => ?_⟩
    obtain ⟨t, hPtr⟩ := Option.isSome_iff_exists.mp hLive
    have hKey : key b ∈ s.wheel.keysWith s.control.boxes := List.mem_map_of_mem hb
    obtain ⟨rfl, hUndeleted, -⟩ := TimerWheel.Owned.own h (key b) hKey t hPtr
    exact ⟨hPtr, TimerWheel.Owned.allocated h (key b) hKey, hUndeleted⟩

/-- In every state reached the ids are owned, no two boxes share one, and no call
of `OnTimer` so far came after the deletion of its timer. -/
theorem reachable_timer_ids {inputs : List Input} {s : State}
    (hRun : machine.run inputs = some s) :
    s.IdsOwned ∧ (s.boxes.map TimerBox.timerID).Nodup ∧
      ∀ before t pos after, s.wheel.trace = before ++ .onTimer t pos :: after →
        .deleted t ∉ before := by
  have hOwned := reachable_owned hRun
  refine ⟨hOwned.idsOwned, hOwned.nodup_boxes, fun before t pos after hTrace => ?_⟩
  exact TimerWheel.Owned.quiet hOwned before _ after hTrace t pos rfl

/-- A timer that `OnTimer` deletes while it fires. -/
theorem reachable_timer_ids_deleted_while_firing :
    ∃ s, machine.run [.createTimer 0 true, .clock 0, .next, .deleteTimer 0] = some s ∧
      s.IdsOwned := by
  obtain ⟨s, hRun⟩ := Option.isSome_iff_exists.mp (show
    (machine.run [.createTimer 0 true, .clock 0, .next, .deleteTimer 0]).isSome = true by decide)
  exact ⟨s, hRun, (reachable_timer_ids hRun).1⟩

end CStabilizer.TimerWheel
