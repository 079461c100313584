import CStabilizer.ProcessingThread.Stability

/-! # The output is the stable order of what is stable

With senders that respect their own heartbeats, the values released so far are
the values of all received labels up to the current minimum, in timestamp
order, ties in the order of insertion. -/

namespace CStabilizer.ProcessingThread

open Library.Containers Library.StableSort Library.Splits

/-- A partition's previous heartbeat, zero before its first message. -/
def previousHeartbeat (msgs : List ReceivedMessage) (p : Int32) : UInt64 :=
  (lastHeartbeat msgs p).getD 0

/-- Every message comes from a partition, does not go back behind the partition's previous
heartbeat and carries only labels beyond it. -/
def WellBehaved (count : Int32) (msgs : List ReceivedMessage) : Prop :=
  Stepwise (fun before msg => Partition count msg.partionId ∧
    previousHeartbeat before msg.partionId ≤ msg.heartbeat ∧
    ∀ label ∈ msg.labels, previousHeartbeat before msg.partionId < label.timestamp) msgs

theorem lookup_partition {count deleteThreshold batchSize p : Int32} (events : Events)
    (hp : Partition count p) :
    ((start count deleteThreshold batchSize).processAll events).1.heartbeat.lookup p =
      some (previousHeartbeat (messages events) p) := by
  rw [lookup_run, if_pos hp, previousHeartbeat]
  cases lastHeartbeat (messages events) p <;> rfl

theorem WellBehaved.partition {count : Int32} {msgs : List ReceivedMessage}
    (hBehaved : WellBehaved count msgs) {msg : ReceivedMessage} (hMem : msg ∈ msgs) :
    Partition count msg.partionId := by
  obtain ⟨before, after, rfl⟩ := List.append_of_mem hMem
  exact (hBehaved before msg after rfl).1

theorem lookup_wellBehaved {count deleteThreshold batchSize : Int32} {events : Events}
    (hBehaved : WellBehaved count (messages events)) (p : Int32) :
    ((start count deleteThreshold batchSize).processAll events).1.heartbeat.lookup p =
      if Partition count p then some (previousHeartbeat (messages events) p) else none := by
  by_cases hPartition : Partition count p
  · rw [if_pos hPartition, lookup_partition events hPartition]
  · have hLast : lastHeartbeat (messages events) p = none := by
      refine lastHeartbeat_eq_none_iff.mpr fun msg hMem hEq => hPartition ?_
      exact hEq ▸ hBehaved.partition hMem
    rw [lookup_run, hLast, if_neg hPartition, if_neg hPartition, Option.none_or]

structure Ordered (events : Events) (t : ProcessingThread) (outputs : List Output) : Prop where
  sorted : erasedAll outputs ++ t.storage.entries = stableSort Prod.fst (received events)
  settled : Settled t (erasedAll outputs)
  deliver : deliveredAll outputs ++ t.deletedList = (erasedAll outputs).map Prod.snd

theorem ordered_start (count deleteThreshold batchSize : Int32) :
    Ordered [] (start count deleteThreshold batchSize) [] where
  sorted := by
    rw [received_nil, stableSort, List.mergeSort_nil]
    rfl
  settled := settled_start count deleteThreshold batchSize
  deliver := rfl

theorem Ordered.step {events : Events} {t : ProcessingThread} {outputs : List Output}
    (hOrdered : Ordered events t outputs) {msg : ReceivedMessage} (sys : Syscalls)
    {t' : ProcessingThread} {output : Output} (hStep : Processed t msg t' output) {h : UInt64}
    (hLookup : t.heartbeat.lookup msg.partionId = some h) (hHeartbeat : h ≤ msg.heartbeat)
    (hLabels : ∀ label ∈ msg.labels, h < label.timestamp) :
    Ordered (events ++ [(msg, sys)]) t' (outputs ++ [output]) := by
  have hBehind : ∀ x ∈ msg.labels.map Label.entry, ∀ e ∈ erasedAll outputs, e.1 ≤ x.1 := by
    intro x hx e he
    obtain ⟨label, hLabel, rfl⟩ := List.mem_map.mp hx
    exact (hOrdered.settled.within e he h (OrderedMap.mem_values_iff.mpr ⟨_, hLookup⟩)).trans
      (hLabels label hLabel).le
  constructor
  · calc
      erasedAll (outputs ++ [output]) ++ t'.storage.entries
        = erasedAll outputs ++ (output.erased ++ t'.storage.entries) := by simp
      _ = erasedAll outputs ++ insertAll Prod.fst t.storage.entries (msg.labels.map Label.entry) := by
        rw [hStep.split]
      _ = insertAll Prod.fst (erasedAll outputs ++ t.storage.entries) (msg.labels.map Label.entry) :=
        (insertAll_append Prod.fst _ _ hBehind).symm
      _ = stableSort Prod.fst (received events ++ msg.labels.map Label.entry) := by
        rw [hOrdered.sorted, insertAll_stableSort]
      _ = stableSort Prod.fst (received (events ++ [(msg, sys)])) := by simp
  · rw [erasedAll_append, erasedAll_singleton]
    refine hOrdered.settled.step hStep (fun old hOld => ?_) ⟨h, hLookup⟩
    rw [hLookup] at hOld
    exact Option.some.inj hOld ▸ hHeartbeat
  · rw [deliveredAll_append, erasedAll_append, List.map_append, deliveredAll_singleton,
      erasedAll_singleton, List.append_assoc, hStep.deliver, ← List.append_assoc, hOrdered.deliver]

theorem ordered_run {count deleteThreshold batchSize : Int32} (events : Events)
    (hBehaved : WellBehaved count (messages events)) :
    Ordered events ((start count deleteThreshold batchSize).processAll events).1
      ((start count deleteThreshold batchSize).processAll events).2 := by
  induction events using List.reverseRecOn with
  | nil => exact ordered_start count deleteThreshold batchSize
  | append_singleton events event ih =>
    obtain ⟨msg, sys⟩ := event
    rw [messages_append] at hBehaved
    obtain ⟨hFront, hPartition, hHeartbeat, hLabels⟩ := stepwise_concat.mp hBehaved
    rw [processAll_append]
    exact (ih hFront).step sys (processMessage_processed _ msg sys)
      (lookup_partition events hPartition) hHeartbeat hLabels

/-- The removed values are exactly those of the labels up to the current minimum of the table,
sorted by timestamp with ties in insertion order. -/
theorem removed_eq_stableSort (count deleteThreshold batchSize : Int32) (hCount : 1 ≤ count)
    (events : Events) (hBehaved : WellBehaved count (messages events)) :
    let t := ((start count deleteThreshold batchSize).processAll events).1
    let outputs := ((start count deleteThreshold batchSize).processAll events).2
    (∀ p, t.heartbeat.lookup p =
        if Partition count p then some (previousHeartbeat (messages events) p) else none) ∧
      ∃ low, IsLeast {h | h ∈ t.heartbeat.values} low ∧
        deliveredAll outputs ++ t.deletedList =
          (stableSort Prod.fst ((received events).filter fun e => e.1 ≤ low)).map Prod.snd ∧
        erasedAll outputs = stableSort Prod.fst ((received events).filter fun e => e.1 ≤ low) ∧
        (erasedAll outputs).Pairwise fun a b => a.1 ≤ b.1 := by
  intro t outputs
  have hOrdered : Ordered events t outputs := ordered_run events hBehaved
  have hFirst : t.heartbeat.lookup 1 = some (previousHeartbeat (messages events) 1) :=
    lookup_partition events ⟨Int32.le_refl 1, hCount⟩
  have hMem : previousHeartbeat (messages events) 1 ∈ t.heartbeat.values :=
    OrderedMap.mem_values_iff.mpr ⟨1, hFirst⟩
  have hLeast := scanMin_isLeast_of_mem hMem
  generalize scanMin (previousHeartbeat (messages events) 1) t.heartbeat.values = low at hLeast
  have hErased : (erasedAll outputs).filter (fun e => e.1 ≤ low) = erasedAll outputs := by
    rw [List.filter_eq_self]
    intro e he
    simpa using hOrdered.settled.within e he low hLeast.1
  have hStored : t.storage.entries.filter (fun e => e.1 ≤ low) = [] := by
    rw [List.filter_eq_nil_iff]
    intro e he
    obtain ⟨h, hh, hLt⟩ := hOrdered.settled.beyond e he
    simpa using (hLeast.2 hh).trans_lt hLt
  have hEq : erasedAll outputs = stableSort Prod.fst ((received events).filter fun e => e.1 ≤ low) := by
    rw [← filter_stableSort, ← hOrdered.sorted, List.filter_append, hErased, hStored, List.append_nil]
  refine ⟨lookup_wellBehaved hBehaved, low, hLeast, ?_, hEq, ?_⟩
  · rw [hOrdered.deliver, hEq]
  · rw [hEq]
    exact stableSort_sorted Prod.fst _

def tieEvents : Events :=
  [(⟨1, 5, [⟨3, 30⟩, ⟨9, 90⟩]⟩, ⟨fun n => n, fun n => n, 0⟩),
    (⟨2, 4, [⟨3, 31⟩, ⟨2, 20⟩]⟩, ⟨fun n => n, fun n => n, 0⟩)]

theorem tieEvents_wellBehaved : WellBehaved 2 (messages tieEvents) := by
  have hFirst : WellBehaved 2 [⟨1, 5, [⟨3, 30⟩, ⟨9, 90⟩]⟩] := stepwise_singleton.mpr (by decide)
  exact stepwise_concat.mpr ⟨hFirst, by decide⟩

theorem removed_eq_stableSort_ties :
    let t := ((start 2 100 1).processAll tieEvents).1
    let outputs := ((start 2 100 1).processAll tieEvents).2
    (∀ p, t.heartbeat.lookup p =
        if Partition 2 p then some (previousHeartbeat (messages tieEvents) p) else none) ∧
      ∃ low, IsLeast {h | h ∈ t.heartbeat.values} low ∧
        deliveredAll outputs ++ t.deletedList =
          (stableSort Prod.fst ((received tieEvents).filter fun e => e.1 ≤ low)).map Prod.snd ∧
        erasedAll outputs = stableSort Prod.fst ((received tieEvents).filter fun e => e.1 ≤ low) ∧
        (erasedAll outputs).Pairwise fun a b => a.1 ≤ b.1 :=
  removed_eq_stableSort 2 100 1 (by decide) tieEvents tieEvents_wellBehaved

example : erasedAll ((start 2 100 1).processAll tieEvents).2 = [(2, 20), (3, 30), (3, 31)] := by decide

end CStabilizer.ProcessingThread
