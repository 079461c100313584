import CStabilizer.SocketManager.TimerStep

/-! # Who owns a timer id

An id is on the stack of free ids or belongs to one box, and the box of a live
id refers to its own timer. Boxes are followed by their keys, so that moving a
box from a slot to a loop and back changes nothing. -/

namespace CStabilizer.TimerWheel

open Library Library.Buckets Library.Splits
open scoped List

abbrev Key := Nat × Nat

def key (b : TimerBox) : Key := (b.timerID, b.timer)

/-- No call of `OnTimer` follows the deletion of its timer. -/
def Quiet (trace : List TimerEvent) : Prop :=
  Stepwise (fun before event => ∀ t pos, event = .onTimer t pos → .deleted t ∉ before) trace

structure Owned (w : TimerWheel) (keys : List Key) : Prop where
  ids : w.freeTimerIDs ++ keys.map Prod.fst ~ List.range' 1 (w.maxTimers - 1)
  max : 1 ≤ w.maxTimers
  allocated : ∀ k ∈ keys, k.2 < w.timerCount
  own : ∀ k ∈ keys, ∀ t, w.ptrTimers k.1 = some t →
    t = k.2 ∧ (w.timers t).deleted = false ∧ (w.timers t).timerID = k.1
  kept : ∀ t < w.timerCount, (w.timers t).deleted = false → (w.timers t).timerID ≠ 0 →
    ((w.timers t).timerID, t) ∈ keys ∧ w.ptrTimers (w.timers t).timerID = some t
  deleted : ∀ t, .deleted t ∈ w.trace → t < w.timerCount ∧ (w.timers t).deleted = true
  quiet : Quiet w.trace

namespace Owned

variable {w w' : TimerWheel} {keys keys' : List Key} {id t : Nat}

theorem perm (h : Owned w keys) (hPerm : keys ~ keys') : Owned w keys' where
  ids := ((hPerm.map Prod.fst).symm.append_left _).trans h.ids
  max := h.max
  allocated k hk := h.allocated k (hPerm.mem_iff.mpr hk)
  own k hk := h.own k (hPerm.mem_iff.mpr hk)
  kept t hCount hDeleted hID := by
    obtain ⟨hKey, hPtr⟩ := h.kept t hCount hDeleted hID
    exact ⟨hPerm.mem_iff.mp hKey, hPtr⟩
  deleted := h.deleted
  quiet := h.quiet

theorem nodup (h : Owned w keys) : (w.freeTimerIDs ++ keys.map Prod.fst).Nodup :=
  h.ids.nodup_iff.mpr List.nodup_range'

theorem lt_max (h : Owned w keys) (hID : id ∈ w.freeTimerIDs ++ keys.map Prod.fst) :
    1 ≤ id ∧ id < w.maxTimers := by
  have hRange := List.mem_range'_1.mp (h.ids.mem_iff.mp hID)
  have hMax := h.max
  omega

theorem key_lt (h : Owned w keys) {k : Key} (hk : k ∈ keys) : 1 ≤ k.1 ∧ k.1 < w.maxTimers :=
  h.lt_max (List.mem_append_right _ (List.mem_map_of_mem hk))

theorem head_ne (h : Owned w ((id, t) :: keys)) {k : Key} (hk : k ∈ keys) : k.1 ≠ id := by
  have hNodup := (List.nodup_append.mp h.nodup).2.1
  rintro rfl
  exact (List.nodup_cons.mp hNodup).1 (List.mem_map.mpr ⟨k, hk, rfl⟩)

theorem live (h : Owned w ((id, t) :: keys)) (hLive : w.isTimerLive id = true) :
    w.ptrTimers id = some t ∧ (w.timers t).deleted = false ∧ (w.timers t).timerID = id := by
  obtain ⟨t', hPtr⟩ := Option.isSome_iff_exists.mp hLive
  obtain ⟨rfl, hOwn⟩ := h.own _ List.mem_cons_self t' hPtr
  exact ⟨hPtr, hOwn⟩

/-! ## The loops -/

theorem setNextFire (h : Owned w keys) (pTimer : Nat) (n : UInt32) :
    Owned (w.setNextFire pTimer n) keys := by
  have hSame (t : Nat) : ((w.setNextFire pTimer n).timers t).deleted = (w.timers t).deleted ∧
      ((w.setNextFire pTimer n).timers t).timerID = (w.timers t).timerID := by
    obtain rfl | hNe := eq_or_ne t pTimer <;> simp [TimerWheel.setNextFire, *]
  constructor
  · exact h.ids
  · exact h.max
  · exact h.allocated
  · intro k hk t hPtr
    rw [(hSame t).1, (hSame t).2]
    exact h.own k hk t hPtr
  · intro t
    rw [(hSame t).1, (hSame t).2]
    exact h.kept t
  · intro t
    rw [(hSame t).1]
    exact h.deleted t
  · exact h.quiet

/-- Slots, positions and clock readings are not looked at. -/
theorem congr (h : Owned w keys) (hIDs : w'.freeTimerIDs = w.freeTimerIDs)
    (hMax : w'.maxTimers = w.maxTimers) (hPtr : w'.ptrTimers = w.ptrTimers)
    (hTimers : w'.timers = w.timers) (hCount : w'.timerCount = w.timerCount)
    (hTrace : w'.trace = w.trace) : Owned w' keys := by
  constructor
  · rw [hIDs, hMax]
    exact h.ids
  · exact hMax ▸ h.max
  · exact hCount ▸ h.allocated
  · rw [hPtr, hTimers]
    exact h.own
  · rw [hCount, hTimers, hPtr]
    exact h.kept
  · rw [hTrace, hCount, hTimers]
    exact h.deleted
  · exact hTrace ▸ h.quiet

theorem schedule (h : Owned w keys) (uiTimerID pTimer : Nat) (n : UInt32) :
    Owned (w.schedule uiTimerID pTimer n) keys :=
  congr (h.setNextFire pTimer (left n)) rfl rfl rfl rfl rfl rfl

theorem recycle (h : Owned w ((id, t) :: keys)) (hDead : w.isTimerLive id = false) :
    Owned (w.recycle id) keys where
  ids := List.perm_middle.symm.trans h.ids
  max := h.max
  allocated k hk := h.allocated k (List.mem_cons_of_mem _ hk)
  own k hk := h.own k (List.mem_cons_of_mem _ hk)
  kept t' hCount hDeleted hID := by
    obtain ⟨hKey, hPtr⟩ := h.kept t' hCount hDeleted hID
    obtain hHead | hKey := List.mem_cons.mp hKey
    · have hIdEq : (w.timers t').timerID = id := congrArg Prod.fst hHead
      rw [isTimerLive, ← hIdEq, hPtr] at hDead
      cases hDead
    · exact ⟨hKey, hPtr⟩
  deleted := h.deleted
  quiet := h.quiet

theorem resetTimerId_of_ne {pTimer : Nat} (hNe : t ≠ pTimer) :
    (w.resetTimerId pTimer).timers t = w.timers t := Function.update_of_ne hNe _ _

/-- A one-shot timer that has fired gives its id back. -/
theorem expire (h : Owned w ((id, t) :: keys)) (hLive : w.isTimerLive id = true) :
    Owned ((w.resetTimerId t).recycle id) keys where
  ids := List.perm_middle.symm.trans h.ids
  max := h.max
  allocated k hk := h.allocated k (List.mem_cons_of_mem _ hk)
  own k hk t' hPtr := by
    have hOwn := h.own k (List.mem_cons_of_mem _ hk) t' hPtr
    have hNe : t' ≠ t := by
      rintro rfl
      exact h.head_ne hk (hOwn.2.2.symm.trans (h.live hLive).2.2)
    change t' = k.2 ∧ ((w.resetTimerId t).timers t').deleted = false ∧ _
    rwa [TimerWheel.recycle, resetTimerId_of_ne hNe]
  kept t' hCount hDeleted hID := by
    have hNe : t' ≠ t := by
      rintro rfl
      exact hID (by simp [TimerWheel.recycle, resetTimerId])
    change ((w.resetTimerId t).timers t').deleted = false at hDeleted
    change ((w.resetTimerId t).timers t').timerID ≠ 0 at hID
    rw [resetTimerId_of_ne hNe] at hDeleted hID
    obtain ⟨hKey, hPtr⟩ := h.kept t' hCount hDeleted hID
    change (((w.resetTimerId t).timers t').timerID, t') ∈ keys ∧
      w.ptrTimers ((w.resetTimerId t).timers t').timerID = some t'
    rw [resetTimerId_of_ne hNe]
    refine ⟨(List.mem_cons.mp hKey).resolve_left fun hHead => hNe ?_, hPtr⟩
    exact congrArg Prod.snd hHead
  deleted t' hMem := by
    rw [TimerWheel.recycle, timers_resetTimerId]
    exact h.deleted t' hMem
  quiet := h.quiet

theorem onTimer (h : Owned w ((id, t) :: keys)) (hLive : w.isTimerLive id = true) :
    Owned (w.onTimer t) ((id, t) :: keys) where
  ids := h.ids
  max := h.max
  allocated := h.allocated
  own := h.own
  kept := h.kept
  deleted t' hMem := by
    obtain hMem | hMem := List.mem_append.mp hMem
    · exact h.deleted t' hMem
    · cases List.mem_singleton.mp hMem
  quiet := by
    refine stepwise_concat.mpr ⟨h.quiet, ?_⟩
    rintro t' pos hEvent hMem
    cases hEvent
    have hDeleted := (h.deleted t hMem).2
    rw [(h.live hLive).2.1] at hDeleted
    cases hDeleted

/-! ## Callbacks -/

theorem deleteTimer (h : Owned w keys) (hDelete : w.deleteTimer t = some w') : Owned w' keys := by
  obtain ⟨hCount, hUndeleted, rfl⟩ := deleteTimer_eq_some.mp hDelete
  have hTimers {t' : Nat} (hNe : t' ≠ t) (timer : Timer) :
      Function.update w.timers t timer t' = w.timers t' := Function.update_of_ne hNe _ _
  constructor
  · exact h.ids
  · exact h.max
  · exact h.allocated
  · rintro k hk t' hPtr
    simp only [addToDeletedTimerSet] at hPtr ⊢
    have hNe : k.1 ≠ (w.timers t).timerID := by
      intro hEq
      rw [hEq, Function.update_self] at hPtr
      cases hPtr
    rw [Function.update_of_ne hNe] at hPtr
    have hOwn := h.own k hk t' hPtr
    have hOther : t' ≠ t := by
      rintro rfl
      exact hNe hOwn.2.2.symm
    rwa [hTimers hOther]
  · rintro t' hLt hUndeleted' hID
    simp only [addToDeletedTimerSet] at hUndeleted' hID ⊢
    have hOther : t' ≠ t := by
      rintro rfl
      simp at hUndeleted'
    rw [hTimers hOther] at hUndeleted' hID ⊢
    obtain ⟨hKey, hPtr⟩ := h.kept t' hLt hUndeleted' hID
    -- Two timers that are kept under one id are the same
    have hNe : (w.timers t').timerID ≠ (w.timers t).timerID := by
      intro hEq
      have hKept := (h.kept t hCount hUndeleted (hEq ▸ hID)).2
      rw [← hEq, hPtr] at hKept
      exact hOther (Option.some.inj hKept)
    rw [Function.update_of_ne hNe]
    exact ⟨hKey, hPtr⟩
  · rintro t' hMem
    simp only [addToDeletedTimerSet]
    obtain rfl | hOther := eq_or_ne t' t
    · exact ⟨hCount, by simp⟩
    · rw [hTimers hOther]
      refine h.deleted t' ((List.mem_append.mp hMem).resolve_right fun hLast => hOther ?_)
      cases List.mem_singleton.mp hLast
      rfl
  · refine stepwise_concat.mpr ⟨h.quiet, ?_⟩
    rintro t' pos hEvent
    cases hEvent

/-- What the stack hands out is not in use, and growing the table forgets no timer. -/
theorem getTimerIDFromStack {w₀ : TimerWheel} (h : Owned w keys)
    (hID : w.getTimerIDFromStack = some (id, w₀)) :
    (∃ maxTimers ptrTimers freeTimerIDs, w₀ = { w with maxTimers, ptrTimers, freeTimerIDs }) ∧
      (∀ i < w.maxTimers, w₀.ptrTimers i = w.ptrTimers i) ∧ w.maxTimers ≤ w₀.maxTimers ∧
      id :: w₀.freeTimerIDs ++ keys.map Prod.fst ~ List.range' 1 (w₀.maxTimers - 1) := by
  have hIds := h.ids
  unfold TimerWheel.getTimerIDFromStack at hID
  split at hID
  · rename_i top rest hFree
    cases hID
    rw [hFree] at hIds
    exact ⟨⟨_, _, _, rfl⟩, fun _ _ => rfl, le_rfl, hIds⟩
  · rename_i hFree
    split at hID
    · cases hID
    · cases hID
      rw [hFree, List.nil_append] at hIds
      refine ⟨⟨_, _, _, rfl⟩, fun i hi => if_pos hi, Nat.le_add_right .., ?_⟩
      have hMax := h.max
      have hNew : (List.range' w.maxTimers maxTimersIncreaseInterval).reverse ≠ [] := by
        simp [maxTimersIncreaseInterval]
      have hRange : List.range' 1 (w.maxTimers + maxTimersIncreaseInterval - 1) =
          List.range' 1 (w.maxTimers - 1) ++ List.range' w.maxTimers maxTimersIncreaseInterval := by
        have hAppend := List.range'_append_1 (s := 1) (m := w.maxTimers - 1)
          (n := maxTimersIncreaseInterval)
        rw [show 1 + (w.maxTimers - 1) = w.maxTimers by omega] at hAppend
        rw [hAppend]
        congr 1
        omega
      have hHead : List.headD (List.range' w.maxTimers maxTimersIncreaseInterval).reverse 0 ::
          List.tail (List.range' w.maxTimers maxTimersIncreaseInterval).reverse =
          (List.range' w.maxTimers maxTimersIncreaseInterval).reverse := by
        cases hList : (List.range' w.maxTimers maxTimersIncreaseInterval).reverse with
        | nil => exact absurd hList hNew
        | cons top rest => rfl
      rw [hHead, hRange]
      exact ((List.reverse_perm _).append hIds).trans List.perm_append_comm

theorem register {w₀ : TimerWheel} (uiInt : UInt32) (isRepeated : Bool) (h : Owned w keys)
    (hID : w.getTimerIDFromStack = some (id, w₀)) :
    Owned (w₀.register id uiInt isRepeated) ((id, w₀.timerCount) :: keys) := by
  obtain ⟨⟨max, ptr, free, rfl⟩, hPtr, hMax, hIds⟩ := h.getTimerIDFromStack hID
  have hNew : (id :: free ++ keys.map Prod.fst).Nodup := hIds.nodup_iff.mpr List.nodup_range'
  have hFresh {k : Key} (hk : k ∈ keys) : k.1 ≠ id := by
    rintro rfl
    exact (List.nodup_cons.mp hNew).1 (List.mem_append_right _ (List.mem_map_of_mem hk))
  have hOld {k : Key} (hk : k ∈ keys) :
      Function.update ptr id (some w.timerCount) k.1 = w.ptrTimers k.1 := by
    rw [Function.update_of_ne (hFresh hk)]
    exact hPtr _ (h.key_lt hk).2
  have hTimer {t : Nat} (ht : t < w.timerCount) (timer : Timer) :
      Function.update w.timers w.timerCount timer t = w.timers t := Function.update_of_ne ht.ne _ _
  constructor
  · exact List.perm_middle.trans hIds
  · exact h.max.trans hMax
  · rintro k hk
    obtain rfl | hk := List.mem_cons.mp hk
    · exact Nat.lt_succ_self _
    · exact (h.allocated k hk).trans (Nat.lt_succ_self _)
  · rintro k hk t hPtr'
    simp only [TimerWheel.register] at hPtr' ⊢
    obtain rfl | hk := List.mem_cons.mp hk
    · rw [Function.update_self] at hPtr'
      cases hPtr'
      rw [Function.update_self]
      exact ⟨rfl, rfl, rfl⟩
    · rw [hOld hk] at hPtr'
      have hOwn := h.own k hk t hPtr'
      rwa [hTimer (hOwn.1 ▸ h.allocated k hk)]
  · rintro t ht hUndeleted hID'
    simp only [TimerWheel.register] at hUndeleted hID' ⊢
    obtain rfl | ht := (Nat.lt_succ_iff_lt_or_eq.mp ht).symm
    · rw [Function.update_self]
      exact ⟨List.mem_cons_self, Function.update_self ..⟩
    · rw [hTimer ht] at hUndeleted hID' ⊢
      obtain ⟨hKey, hPtr'⟩ := h.kept t ht hUndeleted hID'
      exact ⟨List.mem_cons_of_mem _ hKey, (hOld hKey).trans hPtr'⟩
  · rintro t hMem
    obtain ⟨ht, hDeleted⟩ := h.deleted t hMem
    simp only [TimerWheel.register]
    rw [hTimer ht]
    exact ⟨ht.trans (Nat.lt_succ_self _), hDeleted⟩
  · exact h.quiet

end Owned

end CStabilizer.TimerWheel
