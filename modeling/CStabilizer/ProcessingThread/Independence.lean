import CStabilizer.ProcessingThread.Delivery

/-! # What does not matter for stability

The delivery size, the delete threshold and the results of the system calls cut the
values into batches and lose them on the wire. Which labels become stable, when and in
which order is left to the messages. -/

namespace CStabilizer.ProcessingThread

open Library.Containers Library.StableSort

/-- Two states that hold the same heartbeats and labels. -/
structure Alike (t t' : ProcessingThread) : Prop where
  heartbeat : t'.heartbeat = t.heartbeat
  storage : t'.storage = t.storage

/-- What a message lets become stable. -/
def Output.decision (output : Output) : UInt64 × List Entry := (output.stable, output.erased)

variable {t t' : ProcessingThread}

theorem Alike.released (h : Alike t t') (msg : ReceivedMessage) :
    t'.stableOf msg = t.stableOf msg ∧ (t'.released msg).2 = (t.released msg).2 ∧
      Alike (t.released msg).1 (t'.released msg).1 := by
  obtain ⟨hHeartbeat, hStorage⟩ := h
  cases t
  cases t'
  cases hHeartbeat
  cases hStorage
  refine ⟨rfl, ?_, rfl, ?_⟩
  · simp only [ProcessingThread.released, deletePossibleLabels, deleteLoop_eq]
    rfl
  · simp only [ProcessingThread.released, deletePossibleLabels, deleteLoop_eq]
    rfl

theorem Alike.processMessage (h : Alike t t') (msg : ReceivedMessage) (sys sys' : Syscalls) :
    (t'.processMessage msg sys').2.decision = (t.processMessage msg sys).2.decision ∧
      Alike (t.processMessage msg sys).1 (t'.processMessage msg sys').1 := by
  obtain ⟨hStable, hErased, hAlike⟩ := h.released msg
  obtain ⟨-, hHeartbeat, hStorage, -⟩ := doPossibleBatchDelivery_conserves (t.released msg).1 sys
  obtain ⟨-, hHeartbeat', hStorage', -⟩ := doPossibleBatchDelivery_conserves (t'.released msg).1 sys'
  obtain ⟨rHeartbeat, rStorage, -⟩ :=
    reportProgress_keeps ((t.released msg).1.doPossibleBatchDelivery sys).1 sys
  obtain ⟨rHeartbeat', rStorage', -⟩ :=
    reportProgress_keeps ((t'.released msg).1.doPossibleBatchDelivery sys').1 sys'
  rw [processMessage_eq, processMessage_eq]
  refine ⟨Prod.ext hStable hErased, ?_, ?_⟩
  · rw [rHeartbeat', hHeartbeat', hAlike.heartbeat, rHeartbeat, hHeartbeat]
  · rw [rStorage', hStorage', hAlike.storage, rStorage, hStorage]

theorem Alike.processAll (h : Alike t t') {events events' : Events}
    (hMessages : messages events' = messages events) :
    (t'.processAll events').2.map Output.decision = (t.processAll events).2.map Output.decision ∧
      Alike (t.processAll events).1 (t'.processAll events').1 := by
  induction events generalizing t t' events' with
  | nil =>
    obtain rfl := List.map_eq_nil_iff.mp hMessages
    exact ⟨rfl, h⟩
  | cons event events ih =>
    cases events' with
    | nil => cases hMessages
    | cons event' events' =>
      obtain ⟨msg, sys⟩ := event
      obtain ⟨msg', sys'⟩ := event'
      obtain ⟨hMsg, hRest⟩ := List.cons.inj hMessages
      obtain rfl : msg' = msg := hMsg
      obtain ⟨hDecision, hAlike⟩ := h.processMessage msg' sys sys'
      obtain ⟨hDecisions, hAlike'⟩ := ih hAlike hRest
      exact ⟨congrArg₂ List.cons hDecision hDecisions, hAlike'⟩

/-- Nothing is lost between the storage and the two lists of delivered and of deleted values. -/
theorem delivered_append_deletedList (t : ProcessingThread) (events : Events) :
    deliveredAll (t.processAll events).2 ++ (t.processAll events).1.deletedList =
      t.deletedList ++ (erasedAll (t.processAll events).2).map Prod.snd := by
  apply run_induction (P := fun _ s outputs =>
    deliveredAll outputs ++ s.deletedList = t.deletedList ++ (erasedAll outputs).map Prod.snd)
  · simp [deliveredAll, erasedAll]
  · intro events msg sys s outputs ih
    rw [deliveredAll_append, deliveredAll_singleton, List.append_assoc,
      (s.processMessage_processed msg sys).deliver, ← List.append_assoc, ih, erasedAll_append,
      erasedAll_singleton, List.map_append, List.append_assoc]

theorem stability_independent {count deleteThreshold deleteThreshold' batchSize batchSize' : Int32}
    {events events' : Events} (hMessages : messages events' = messages events) :
    let run := (start count deleteThreshold batchSize).processAll events
    let run' := (start count deleteThreshold' batchSize').processAll events'
    run'.2.map Output.decision = run.2.map Output.decision ∧
      run'.1.heartbeat = run.1.heartbeat ∧ run'.1.storage = run.1.storage ∧
      deliveredAll run'.2 ++ run'.1.deletedList = deliveredAll run.2 ++ run.1.deletedList := by
  intro run run'
  have hAlike : Alike (start count deleteThreshold batchSize)
      (start count deleteThreshold' batchSize') := ⟨rfl, rfl⟩
  obtain ⟨hDecisions, hHeartbeat, hStorage⟩ := hAlike.processAll hMessages
  have hErased : erasedAll run'.2 = erasedAll run.2 := by
    have hFlat := congrArg (fun decisions => decisions.flatMap Prod.snd) hDecisions
    rw [List.flatMap_map, List.flatMap_map] at hFlat
    exact hFlat
  refine ⟨hDecisions, hHeartbeat, hStorage, ?_⟩
  rw [delivered_append_deletedList, delivered_append_deletedList, hErased]
  rfl

theorem stability_independent_short_write :
    let msg : ReceivedMessage := ⟨7, 5, [⟨3, 30⟩, ⟨9, 90⟩, ⟨2, -1⟩]⟩
    let run := (start 0 100 1).processAll [(msg, ⟨fun n => n, fun n => n, 0⟩)]
    let run' := (start 0 1 0).processAll [(msg, ⟨fun _ => -1, fun _ => 3, 8⟩)]
    run'.1.storage = run.1.storage ∧
      deliveredAll run'.2 ++ run'.1.deletedList = deliveredAll run.2 ++ run.1.deletedList := by
  intro msg run run'
  have hMessages : messages [(msg, ⟨fun _ => -1, fun _ => 3, 8⟩)] =
      messages [(msg, ⟨fun n => n, fun n => n, 0⟩)] := rfl
  exact (@stability_independent 0 100 1 1 0 _ _ hMessages).2.2

end CStabilizer.ProcessingThread
