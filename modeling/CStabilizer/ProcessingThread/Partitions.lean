import CStabilizer.ProcessingThread.Interleaving
import CStabilizer.ProcessingThread.StableOrder

/-! # Well-behaved partitions, one by one

Whether a run is well behaved can be seen from each partition's messages alone,
and a run stays well behaved when messages are left out. Where labels of one
timestamp come from one partition, the output of a run does not depend on how
the partitions' messages are interleaved. -/

namespace CStabilizer.ProcessingThread

open Library.Containers Library.StableSort Library.Splits

variable {count : Int32}

def ofPartition (p : Int32) (msgs : List ReceivedMessage) : List ReceivedMessage :=
  msgs.filter fun m => m.partionId = p

theorem previousHeartbeat_concat (msgs : List ReceivedMessage) (msg : ReceivedMessage) (p : Int32) :
    previousHeartbeat (msgs ++ [msg]) p =
      if p = msg.partionId then msg.heartbeat else previousHeartbeat msgs p := by
  rw [previousHeartbeat, lastHeartbeat_append]
  split <;> rfl

theorem previousHeartbeat_ofPartition (msgs : List ReceivedMessage) (p : Int32) :
    previousHeartbeat (ofPartition p msgs) p = previousHeartbeat msgs p := by
  rw [previousHeartbeat, previousHeartbeat, lastHeartbeat, lastHeartbeat, ofPartition,
    List.filter_filter]
  simp

/-- Without some of the messages the heartbeats are not further than with them. -/
theorem WellBehaved.sublist_le {msgs msgs' : List ReceivedMessage} (h : WellBehaved count msgs)
    (hSub : msgs'.Sublist msgs) :
    WellBehaved count msgs' ∧ ∀ p, previousHeartbeat msgs' p ≤ previousHeartbeat msgs p := by
  induction msgs using List.reverseRecOn generalizing msgs' with
  | nil =>
    rw [List.sublist_nil.mp hSub]
    exact ⟨stepwise_nil, fun p => le_rfl⟩
  | append_singleton msgs msg ih =>
    obtain ⟨hFront, hPartition, hHeartbeat, hLabels⟩ := stepwise_concat.mp h
    obtain ⟨front, last, rfl, hSubFront, hSubLast⟩ := List.sublist_append_iff.mp hSub
    obtain ⟨hBehaved, hLe⟩ := ih hFront hSubFront
    obtain rfl | rfl := List.sublist_singleton.mp hSubLast
    · rw [List.append_nil]
      refine ⟨hBehaved, fun p => ?_⟩
      rw [previousHeartbeat_concat]
      split
      · next hp => exact (hLe p).trans (hp ▸ hHeartbeat)
      · exact hLe p
    · refine ⟨stepwise_concat.mpr ⟨hBehaved, hPartition, (hLe _).trans hHeartbeat,
        fun label hLabel => (hLe _).trans_lt (hLabels label hLabel)⟩, fun p => ?_⟩
      rw [previousHeartbeat_concat, previousHeartbeat_concat]
      split
      · exact le_rfl
      · exact hLe p

theorem WellBehaved.sublist {msgs msgs' : List ReceivedMessage} (h : WellBehaved count msgs)
    (hSub : msgs'.Sublist msgs) : WellBehaved count msgs' := (h.sublist_le hSub).1

theorem wellBehaved_of_partitions {msgs : List ReceivedMessage}
    (h : ∀ p, WellBehaved count (ofPartition p msgs)) : WellBehaved count msgs := by
  induction msgs using List.reverseRecOn with
  | nil => exact stepwise_nil
  | append_singleton msgs msg ih =>
    have hOwn : ofPartition msg.partionId (msgs ++ [msg]) =
        ofPartition msg.partionId msgs ++ [msg] := by
      rw [ofPartition, List.filter_append, ofPartition]
      simp
    have hLast := h msg.partionId
    rw [hOwn] at hLast
    obtain ⟨-, hPartition, hHeartbeat, hLabels⟩ := stepwise_concat.mp hLast
    rw [previousHeartbeat_ofPartition] at hHeartbeat hLabels
    refine stepwise_concat.mpr ⟨ih fun p => (h p).sublist ?_, hPartition, hHeartbeat, hLabels⟩
    exact (List.sublist_append_left msgs [msg]).filter _

/-! ## The same output from every interleaving -/

/-- Labels of one timestamp come from one partition. -/
def TiesWithin (family : Int32 → List ReceivedMessage) : Prop :=
  ∀ p p', ∀ m ∈ family p, ∀ m' ∈ family p', ∀ label ∈ m.labels, ∀ label' ∈ m'.labels,
    label.timestamp = label'.timestamp → p = p'

theorem flatMap_filter_of_forall {α β : Type} {f : α → List β} {p : α → Bool} {l : List α}
    (h : ∀ a ∈ l, f a ≠ [] → p a = true) : (l.filter p).flatMap f = l.flatMap f := by
  induction l with
  | nil => rfl
  | cons a l ih =>
    have hRest := ih fun b hb => h b (List.mem_cons_of_mem _ hb)
    rw [List.filter_cons, List.flatMap_cons]
    split
    · rw [List.flatMap_cons, hRest]
    · next hKeep =>
      have hNil : f a = [] := by
        by_contra hNe
        exact hKeep (h a List.mem_cons_self hNe)
      rw [hNil, hRest, List.nil_append]

variable {family : Int32 → List ReceivedMessage} {events events' : Events}

def labelsAt (k : UInt64) (m : ReceivedMessage) : List Entry :=
  fibre Prod.fst k (m.labels.map Label.entry)

theorem fibre_received (k : UInt64) (events : Events) :
    fibre Prod.fst k (received events) = (messages events).flatMap (labelsAt k) := by
  rw [received_eq_flatMap, fibre, List.filter_flatMap]
  rfl

theorem exists_of_labelsAt {k : UInt64} {m : ReceivedMessage} (h : labelsAt k m ≠ []) :
    ∃ label ∈ m.labels, label.timestamp = k := by
  obtain ⟨e, he⟩ := List.exists_mem_of_ne_nil _ h
  obtain ⟨hMem, hKey⟩ := List.mem_filter.mp he
  obtain ⟨label, hLabel, rfl⟩ := List.mem_map.mp hMem
  exact ⟨label, hLabel, of_decide_eq_true hKey⟩

theorem fibre_eq_of_interleaves (hTies : TiesWithin family) (h : Interleaves family (messages events))
    (h' : Interleaves family (messages events')) (k : UInt64) :
    fibre Prod.fst k (received events) = fibre Prod.fst k (received events') := by
  rw [fibre_received, fibre_received]
  by_cases hNone : ∀ m ∈ messages events, labelsAt k m = []
  · have hNone' : ∀ m ∈ messages events', labelsAt k m = [] :=
      fun m hm => hNone m ((h'.perm h).mem_iff.mp hm)
    rw [List.flatMap_eq_nil_iff.mpr hNone, List.flatMap_eq_nil_iff.mpr hNone']
  · -- One partition has labels of this timestamp, and its messages are the same in both runs.
    obtain ⟨m, hm, hLabels⟩ : ∃ m ∈ messages events, labelsAt k m ≠ [] := by
      simpa using hNone
    obtain ⟨label, hLabel, hKey⟩ := exists_of_labelsAt hLabels
    have hOnly : ∀ m' ∈ messages events, labelsAt k m' ≠ [] → m'.partionId = m.partionId := by
      intro m' hm' hLabels'
      obtain ⟨label', hLabel', hKey'⟩ := exists_of_labelsAt hLabels'
      exact hTies _ _ m' (h.mem hm') m (h.mem hm) label' hLabel' label hLabel (hKey'.trans hKey.symm)
    have hOnly' : ∀ m' ∈ messages events', labelsAt k m' ≠ [] → m'.partionId = m.partionId :=
      fun m' hm' => hOnly m' ((h'.perm h).mem_iff.mp hm')
    rw [← flatMap_filter_of_forall (p := fun m' => m'.partionId = m.partionId)
        fun m' hm' hNe => decide_eq_true (hOnly m' hm' hNe),
      ← flatMap_filter_of_forall (p := fun m' => m'.partionId = m.partionId)
        fun m' hm' hNe => decide_eq_true (hOnly' m' hm' hNe), h, h']

theorem Ordered.split {t : ProcessingThread} {outputs : List Output} (h : Ordered events t outputs)
    {low : UInt64} (hLow : IsLeast {x | x ∈ t.heartbeat.values} low) :
    erasedAll outputs = (stableSort Prod.fst (received events)).filter (fun e => e.1 ≤ low) ∧
    t.storage.entries = (stableSort Prod.fst (received events)).filter (fun e => low < e.1) := by
  have hWithin : ∀ e ∈ erasedAll outputs, e.1 ≤ low :=
    fun e he => h.settled.within e he low hLow.1
  have hBeyond : ∀ e ∈ t.storage.entries, low < e.1 := by
    intro e he
    obtain ⟨x, hx, hLt⟩ := h.settled.beyond e he
    exact (hLow.2 hx).trans_lt hLt
  rw [← h.sorted, List.filter_append, List.filter_append]
  constructor
  · rw [List.filter_eq_self.mpr (by simpa using hWithin),
      List.filter_eq_nil_iff.mpr (by simpa using hBeyond), List.append_nil]
  · rw [List.filter_eq_nil_iff.mpr (by simpa using hWithin),
      List.filter_eq_self.mpr (by simpa using hBeyond), List.nil_append]

theorem outputs_of_interleaves {deleteThreshold batchSize : Int32} (hTies : TiesWithin family)
    (h : Interleaves family (messages events)) (h' : Interleaves family (messages events'))
    (hBehaved : WellBehaved count (messages events))
    (hBehaved' : WellBehaved count (messages events')) :
    let run := (start count deleteThreshold batchSize).processAll events
    let run' := (start count deleteThreshold batchSize).processAll events'
    run.1.heartbeat = run'.1.heartbeat ∧ erasedAll run.2 = erasedAll run'.2 ∧
      run.1.storage.entries = run'.1.storage.entries := by
  intro run run'
  have hTable : run.1.heartbeat = run'.1.heartbeat := heartbeat_eq_of_interleaves h h'
  have hOrdered : Ordered events run.1 run.2 := ordered_run events hBehaved
  have hOrdered' : Ordered events' run'.1 run'.2 := ordered_run events' hBehaved'
  have hSort : stableSort Prod.fst (received events) = stableSort Prod.fst (received events') := by
    refine eq_of_fibre_eq _ (stableSort_sorted _ _) (stableSort_sorted _ _) fun k => ?_
    rw [fibre_stableSort, fibre_stableSort, fibre_eq_of_interleaves hTies h h' k]
  refine ⟨hTable, ?_⟩
  cases hMessages : messages events with
  | nil =>
    have hNone : received events = [] := by rw [received_eq_flatMap, hMessages, List.flatMap_nil]
    have hAll := hOrdered.sorted
    have hAll' := hOrdered'.sorted
    rw [← hSort] at hAll'
    rw [hNone, stableSort, List.mergeSort_nil] at hAll hAll'
    have hEmpty := List.append_eq_nil_iff.mp hAll
    have hEmpty' := List.append_eq_nil_iff.mp hAll'
    rw [hEmpty.1, hEmpty.2, hEmpty'.1, hEmpty'.2]
    exact ⟨rfl, rfl⟩
  | cons m rest =>
    have hMem : m ∈ messages events := hMessages ▸ List.mem_cons_self
    obtain ⟨before, after, hSplit⟩ := List.append_of_mem hMem
    have hPartition : Partition count m.partionId := (hBehaved before m after hSplit).1
    obtain ⟨x, hx⟩ : ∃ x, run.1.heartbeat.lookup m.partionId = some x :=
      partition_recorded events hPartition
    have hLow := scanMin_isLeast_of_mem (OrderedMap.mem_values_iff.mpr ⟨_, hx⟩)
    generalize scanMin x run.1.heartbeat.values = low at hLow
    obtain ⟨hErased, hStored⟩ := hOrdered.split hLow
    obtain ⟨hErased', hStored'⟩ := hOrdered'.split (hTable ▸ hLow)
    rw [hErased, hStored, hErased', hStored', hSort]
    exact ⟨rfl, rfl⟩

end CStabilizer.ProcessingThread
