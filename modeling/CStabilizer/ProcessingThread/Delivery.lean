import CStabilizer.ProcessingThread.Run

/-! # Exactly-once delivery to the label receiver

Nothing is assumed about the messages. The labels received are conserved by
the storage, the list of deleted values and the stream on the socket, and the
stream is a sequence of frames. -/

namespace CStabilizer.ProcessingThread

open Library.Containers Library.StableSort Library.Splits

structure FullWrites (sys : Syscalls) : Prop where
  writeCount : ∀ n, sys.writeCount n = n
  writeValues : ∀ n, sys.writeValues n = n

def frame (values : List Int32) : List UInt8 :=
  intBytes (Int32.ofNat values.length) ++ values.flatMap intBytes

/-- `deletedList` stays below 2^31 entries, also where its size is taken. -/
def DeletedListFits (t : ProcessingThread) (events : Events) : Prop :=
  Stepwise (fun before event =>
    ((t.processAll before).1.released event.1).1.deletedList.length < 2 ^ 31) events

@[simp] theorem length_intBytes (n : Int32) : (intBytes n).length = 4 := by simp [intBytes]

theorem length_flatMap_intBytes (values : List Int32) :
    (values.flatMap intBytes).length = values.length * 4 := by
  induction values with
  | nil => rfl
  | cons v values ih =>
    rw [List.flatMap_cons, List.length_append, ih, length_intBytes, List.length_cons]
    omega

theorem accepted_full {result : Int} {buffer : List UInt8} (h : result = buffer.length) :
    accepted result buffer = buffer := by
  rw [accepted, h, Int.toNat_natCast, List.take_length]

theorem doPossibleBatchDelivery_cases (t : ProcessingThread) {sys : Syscalls}
    (hWrites : FullWrites sys) (hFits : t.deletedList.length < 2 ^ 31) :
    (t.labelDeliverySize.toInt < t.deletedList.length ∧
      t.doPossibleBatchDelivery sys =
        ({ t with deletedList := [] }, t.deletedList, frame t.deletedList)) ∨
    ((t.deletedList.length : Int) ≤ t.labelDeliverySize.toInt ∧
      t.doPossibleBatchDelivery sys = (t, [], [])) := by
  have hCount : (Int32.ofNat t.deletedList.length).toInt = t.deletedList.length :=
    Int32.toInt_ofNat_of_lt hFits
  rw [doPossibleBatchDelivery]
  dsimp only
  split
  · rename_i hGreater
    have hGreater := Int32.lt_iff_toInt_lt.mp hGreater
    rw [hCount] at hGreater
    have hWhole : (t.deletedList.flatMap intBytes).take (t.deletedList.length * 4) =
        t.deletedList.flatMap intBytes := by
      rw [← length_flatMap_intBytes, List.take_length]
    refine .inl ⟨hGreater, ?_⟩
    rw [hCount, Int.toNat_natCast, hWhole, accepted_full (by simp [hWrites.writeCount]),
      accepted_full (hWrites.writeValues _), frame]
  · rename_i hNot
    refine .inr ⟨?_, rfl⟩
    rw [← hCount]
    exact Int32.le_iff_toInt_le.mp (not_lt.mp hNot)

structure Delivered (batchSize : Int32) (t : ProcessingThread) (outputs : List Output)
    (frames : List (List Int32)) : Prop where
  stream : wire outputs = frames.flatMap frame
  sizes : ∀ values ∈ frames, batchSize.toInt < values.length ∧ values.length < 2 ^ 31
  payload : frames.flatten = deliveredAll outputs
  deliver : frames.flatten ++ t.deletedList = (erasedAll outputs).map Prod.snd
  pending : (t.deletedList.length : Int) ≤ batchSize.toInt
  size : t.labelDeliverySize = batchSize

theorem Delivered.step {batchSize : Int32} {t : ProcessingThread} {outputs : List Output}
    {frames : List (List Int32)} (h : Delivered batchSize t outputs frames)
    (hSize : 0 ≤ batchSize) (msg : ReceivedMessage) {sys : Syscalls} (hWrites : FullWrites sys)
    (hFits : (t.released msg).1.deletedList.length < 2 ^ 31) :
    ∃ frames', Delivered batchSize (t.processMessage msg sys).1
      (outputs ++ [(t.processMessage msg sys).2]) frames' := by
  have hStep := t.processMessage_processed msg sys
  have hRun := t.processMessage_eq msg sys
  obtain ⟨hReleased, hReleasedSize⟩ := t.released_deletedList msg
  have hDeliver : deliveredAll (outputs ++ [(t.processMessage msg sys).2]) ++
      (t.processMessage msg sys).1.deletedList =
      (erasedAll (outputs ++ [(t.processMessage msg sys).2])).map Prod.snd := by
    rw [deliveredAll_append, deliveredAll_singleton, List.append_assoc, hStep.deliver,
      ← List.append_assoc, ← h.payload, h.deliver, erasedAll_append, erasedAll_singleton,
      List.map_append]
  have hKeep : (t.processMessage msg sys).1.deletedList =
      ((t.released msg).1.doPossibleBatchDelivery sys).1.deletedList := by
    rw [hRun]
    exact (reportProgress_keeps _ sys).2.2.1
  rcases doPossibleBatchDelivery_cases (t.released msg).1 hWrites hFits with
    ⟨hGreater, hSent⟩ | ⟨hLe, hSent⟩
  · -- The whole list leaves as one more frame.
    have hDelivered : (t.processMessage msg sys).2.delivered = (t.released msg).1.deletedList := by
      rw [hRun, hSent]
    have hBytes : (t.processMessage msg sys).2.bytes = frame (t.released msg).1.deletedList := by
      rw [hRun, hSent]
    have hPayload : (frames ++ [(t.released msg).1.deletedList]).flatten =
        deliveredAll (outputs ++ [(t.processMessage msg sys).2]) := by
      rw [deliveredAll_append, deliveredAll_singleton, hDelivered, ← h.payload, List.flatten_concat]
    refine ⟨frames ++ [(t.released msg).1.deletedList], ?_, ?_, hPayload, ?_, ?_, ?_⟩
    · rw [wire_append, wire_singleton, hBytes, h.stream, List.flatMap_append]
      simp
    · intro values hValues
      obtain hValues | hValues := List.mem_append.mp hValues
      · exact h.sizes values hValues
      · rw [List.mem_singleton.mp hValues]
        constructor
        · rwa [hReleasedSize, h.size] at hGreater
        · exact hFits
    · rw [hPayload, hDeliver]
    · rw [hKeep, hSent]
      exact Int32.le_iff_toInt_le.mp hSize
    · rw [hStep.labelDeliverySize, h.size]
  · -- Nothing is written and the list stays within the delivery size.
    have hDelivered : (t.processMessage msg sys).2.delivered = [] := by rw [hRun, hSent]
    have hBytes : (t.processMessage msg sys).2.bytes = [] := by rw [hRun, hSent]
    have hPayload : frames.flatten = deliveredAll (outputs ++ [(t.processMessage msg sys).2]) := by
      rw [deliveredAll_append, deliveredAll_singleton, hDelivered, List.append_nil, h.payload]
    refine ⟨frames, ?_, h.sizes, hPayload, ?_, ?_, ?_⟩
    · rw [wire_append, wire_singleton, hBytes, List.append_nil, h.stream]
    · rw [hPayload, hDeliver]
    · rw [hKeep, hSent]
      rwa [hReleasedSize, h.size] at hLe
    · rw [hStep.labelDeliverySize, h.size]

theorem delivered_run {count deleteThreshold batchSize : Int32} (hSize : 0 ≤ batchSize)
    (events : Events) (hWrites : ∀ event ∈ events, FullWrites event.2)
    (hFits : DeletedListFits (start count deleteThreshold batchSize) events) :
    ∃ frames, Delivered batchSize
      ((start count deleteThreshold batchSize).processAll events).1
      ((start count deleteThreshold batchSize).processAll events).2 frames := by
  induction events using List.reverseRecOn with
  | nil => exact ⟨[], rfl, by simp, rfl, rfl, Int32.le_iff_toInt_le.mp hSize, rfl⟩
  | append_singleton events event ih =>
    obtain ⟨msg, sys⟩ := event
    obtain ⟨hFront, hLast⟩ := stepwise_concat.mp hFits
    obtain ⟨frames, hFrames⟩ := ih (fun e he => hWrites e (List.mem_append_left _ he)) hFront
    rw [processAll_append]
    exact hFrames.step hSize msg (hWrites (msg, sys) (by simp)) hLast

/-- The stream is a concatenation of frames of more than the delivery size; their payloads and
the pending list are the values removed, in the order of removal; no label is lost or duplicated. -/
theorem delivered_exactly_once (count deleteThreshold batchSize : Int32) (hSize : 0 ≤ batchSize)
    (events : Events) (hWrites : ∀ event ∈ events, FullWrites event.2)
    (hFits : DeletedListFits (start count deleteThreshold batchSize) events) :
    let t := ((start count deleteThreshold batchSize).processAll events).1
    let outputs := ((start count deleteThreshold batchSize).processAll events).2
    (∃ frames : List (List Int32),
      wire outputs = frames.flatMap
        (fun values => intBytes (Int32.ofNat values.length) ++ values.flatMap intBytes) ∧
      (∀ values ∈ frames, batchSize < Int32.ofNat values.length ∧
        (Int32.ofNat values.length).toInt = values.length) ∧
      frames.flatten ++ t.deletedList = (erasedAll outputs).map Prod.snd) ∧
    (received events).Perm (erasedAll outputs ++ t.storage.entries) ∧
    (t.deletedList.length : Int) ≤ batchSize.toInt := by
  intro t outputs
  obtain ⟨frames, h⟩ := delivered_run hSize events hWrites hFits
  refine ⟨⟨frames, h.stream, fun values hValues => ?_, h.deliver⟩, received_perm rfl events, h.pending⟩
  obtain ⟨hGreater, hLt⟩ := h.sizes values hValues
  have hCount : (Int32.ofNat values.length).toInt = values.length := Int32.toInt_ofNat_of_lt hLt
  exact ⟨Int32.lt_iff_toInt_lt.mpr (hCount.symm ▸ hGreater), hCount⟩

theorem delivered_exactly_once_frame :
    let events : Events := [(⟨7, 5, [⟨3, 30⟩, ⟨9, 90⟩, ⟨2, -1⟩]⟩, ⟨fun n => n, fun n => n, 0⟩)]
    let t := ((start 0 100 1).processAll events).1
    let outputs := ((start 0 100 1).processAll events).2
    (∃ frames : List (List Int32),
      wire outputs = frames.flatMap
        (fun values => intBytes (Int32.ofNat values.length) ++ values.flatMap intBytes) ∧
      (∀ values ∈ frames, 1 < Int32.ofNat values.length ∧
        (Int32.ofNat values.length).toInt = values.length) ∧
      frames.flatten ++ t.deletedList = (erasedAll outputs).map Prod.snd) ∧
    (received events).Perm (erasedAll outputs ++ t.storage.entries) ∧
    (t.deletedList.length : Int) ≤ (1 : Int32).toInt :=
  delivered_exactly_once 0 100 1 (by decide) _
    (fun _ he => List.mem_singleton.mp he ▸ ⟨fun _ => rfl, fun _ => rfl⟩)
    (stepwise_singleton.mpr (by decide))

end CStabilizer.ProcessingThread
