import CStabilizer.ProcessingThread.Stability

/-! # Interleavings of the partitions' streams

Two runs over interleavings of the same streams differ in every intermediate
stable time. Their final states agree because the state is a function of the
last heartbeats and of the labels received: what is within the minimum has
been removed, what is beyond it is stored. -/

namespace CStabilizer.ProcessingThread

open Library.Containers Library.StableSort

structure Streams (count : Int32) (family : Int32 → List ReceivedMessage) : Prop where
  own : ∀ p, ∀ m ∈ family p, m.partionId = p
  partition : ∀ p, family p ≠ [] → Partition count p
  nonDecreasing : ∀ p, (family p).Pairwise fun a b => a.heartbeat ≤ b.heartbeat

def Interleaves (family : Int32 → List ReceivedMessage) (msgs : List ReceivedMessage) : Prop :=
  ∀ p, msgs.filter (fun m => m.partionId = p) = family p

variable {count deleteThreshold batchSize : Int32} {family : Int32 → List ReceivedMessage}

theorem Interleaves.mem {msgs : List ReceivedMessage} (h : Interleaves family msgs)
    {m : ReceivedMessage} (hm : m ∈ msgs) : m ∈ family m.partionId := by
  rw [← h m.partionId]
  exact List.mem_filter.mpr ⟨hm, by simp⟩

theorem Interleaves.nonDecreasing {msgs : List ReceivedMessage} (h : Interleaves family msgs)
    (hStreams : Streams count family) : NonDecreasing msgs := by
  apply List.pairwise_iff_forall_sublist.mpr
  intro a b hSub hId
  have hOwn := hStreams.nonDecreasing a.partionId
  rw [← h a.partionId, List.pairwise_filter] at hOwn
  exact List.pairwise_iff_forall_sublist.mp hOwn hSub (by simp) (by simp [hId])

theorem Interleaves.partition {msgs : List ReceivedMessage} (h : Interleaves family msgs)
    (hStreams : Streams count family) : ∀ m ∈ msgs, Partition count m.partionId :=
  fun _ hm => hStreams.partition _ (List.ne_nil_of_mem (h.mem hm))

theorem Interleaves.perm {msgs msgs' : List ReceivedMessage} (h : Interleaves family msgs)
    (h' : Interleaves family msgs') : msgs.Perm msgs' := by
  apply List.perm_iff_count.mpr
  intro m
  have hCount (l : List ReceivedMessage) :
      l.count m = (l.filter fun x => x.partionId = m.partionId).count m :=
    (List.count_filter (by simp)).symm
  rw [hCount msgs, hCount msgs', h, h']

theorem received_eq_flatMap (events : Events) :
    received events = (messages events).flatMap fun m => m.labels.map Label.entry := by
  rw [received, messages, List.flatMap_map]

theorem settled_run (events : Events)
    (hPartition : ∀ m ∈ messages events, Partition count m.partionId)
    (hOrder : NonDecreasing (messages events)) :
    Settled ((start count deleteThreshold batchSize).processAll events).1
      (erasedAll ((start count deleteThreshold batchSize).processAll events).2) := by
  induction events using List.reverseRecOn with
  | nil => exact settled_start count deleteThreshold batchSize
  | append_singleton events event ih =>
    obtain ⟨msg, sys⟩ := event
    rw [messages_append] at hPartition hOrder
    have hKnown : Partition count msg.partionId :=
      hPartition msg (List.mem_append_right _ (List.mem_singleton_self _))
    have hFront := ih (fun m hm => hPartition m (List.mem_append_left _ hm))
      (List.pairwise_append.mp hOrder).1
    rw [processAll_append, erasedAll_append]
    change Settled (processMessage _ msg sys).1 (_ ++ erasedAll [(processMessage _ msg sys).2])
    rw [erasedAll_singleton]
    exact hFront.step (processMessage_processed _ msg sys) (advances_of_nonDecreasing hOrder)
      (partition_recorded events hKnown)

theorem Settled.split {t : ProcessingThread} {erased labels : List Entry} (h : Settled t erased)
    (hPerm : labels.Perm (erased ++ t.storage.entries)) {low : UInt64}
    (hLow : IsLeast {h | h ∈ t.heartbeat.values} low) :
    erased.Perm (labels.filter fun e => e.1 ≤ low) ∧
    t.storage.entries.Perm (labels.filter fun e => low < e.1) := by
  have hWithin : ∀ e ∈ erased, e.1 ≤ low := fun e he => h.within e he low hLow.1
  have hBeyond : ∀ e ∈ t.storage.entries, low < e.1 := by
    intro e he
    obtain ⟨x, hx, hLt⟩ := h.beyond e he
    exact (hLow.2 hx).trans_lt hLt
  have hErased : (erased ++ t.storage.entries).filter (fun e => e.1 ≤ low) = erased := by
    rw [List.filter_append, List.filter_eq_self.mpr (by simpa using hWithin),
      List.filter_eq_nil_iff.mpr (by simpa using hBeyond), List.append_nil]
  have hStored : (erased ++ t.storage.entries).filter (fun e => low < e.1) = t.storage.entries := by
    rw [List.filter_append, List.filter_eq_nil_iff.mpr (by simpa using hWithin),
      List.filter_eq_self.mpr (by simpa using hBeyond), List.nil_append]
  constructor
  · conv_lhs => rw [← hErased]
    exact (hPerm.filter _).symm
  · conv_lhs => rw [← hStored]
    exact (hPerm.filter _).symm

theorem heartbeat_eq_of_interleaves {events events' : Events}
    (h : Interleaves family (messages events)) (h' : Interleaves family (messages events')) :
    ((start count deleteThreshold batchSize).processAll events).1.heartbeat =
      ((start count deleteThreshold batchSize).processAll events').1.heartbeat := by
  apply OrderedMap.ext_lookup
  intro p
  rw [lookup_heartbeat, lookup_heartbeat, lastHeartbeat, lastHeartbeat, h p, h' p]

/-- The final table, the stored labels and the removed labels do not depend on the interleaving. -/
theorem final_state_of_interleaves (count deleteThreshold batchSize : Int32)
    (family : Int32 → List ReceivedMessage) (hStreams : Streams count family)
    (events events' : Events) (h : Interleaves family (messages events))
    (h' : Interleaves family (messages events')) :
    let run := (start count deleteThreshold batchSize).processAll events
    let run' := (start count deleteThreshold batchSize).processAll events'
    run.1.heartbeat = run'.1.heartbeat ∧
      run.1.storage.entries.Perm run'.1.storage.entries ∧
      (erasedAll run.2).Perm (erasedAll run'.2) := by
  intro run run'
  have hTable : run.1.heartbeat = run'.1.heartbeat := heartbeat_eq_of_interleaves h h'
  have hReceived : (received events).Perm (received events') := by
    rw [received_eq_flatMap, received_eq_flatMap]
    exact (h.perm h').flatMap_right _
  have hPerm : (received events).Perm (erasedAll run.2 ++ run.1.storage.entries) :=
    received_perm rfl events
  have hPerm' : (received events').Perm (erasedAll run'.2 ++ run'.1.storage.entries) :=
    received_perm rfl events'
  have hSettled : Settled run.1 (erasedAll run.2) :=
    settled_run events (h.partition hStreams) (h.nonDecreasing hStreams)
  have hSettled' : Settled run'.1 (erasedAll run'.2) :=
    settled_run events' (h'.partition hStreams) (h'.nonDecreasing hStreams)
  constructor
  · exact hTable
  · cases hMessages : messages events with
    | nil =>
      -- Without messages nothing was received, so both containers of both runs are empty.
      have hNone : received events = [] := by rw [received_eq_flatMap, hMessages, List.flatMap_nil]
      rw [hNone] at hPerm hReceived
      rw [hReceived.nil_eq.symm] at hPerm'
      have hEmpty := List.append_eq_nil_iff.mp hPerm.nil_eq.symm
      have hEmpty' := List.append_eq_nil_iff.mp hPerm'.nil_eq.symm
      rw [hEmpty.1, hEmpty.2, hEmpty'.1, hEmpty'.2]
      exact ⟨.refl _, .refl _⟩
    | cons m rest =>
      have hPartition := h.partition hStreams m (hMessages ▸ List.mem_cons_self)
      obtain ⟨low, hLow⟩ : ∃ low, IsLeast {x | x ∈ run.1.heartbeat.values} low := by
        obtain ⟨x, hx⟩ : ∃ x, run.1.heartbeat.lookup m.partionId = some x :=
          partition_recorded events hPartition
        exact ⟨_, scanMin_isLeast_of_mem (OrderedMap.mem_values_iff.mpr ⟨_, hx⟩)⟩
      obtain ⟨hErased, hStored⟩ := hSettled.split hPerm hLow
      obtain ⟨hErased', hStored'⟩ := hSettled'.split hPerm' (hTable ▸ hLow)
      exact ⟨hStored.trans ((hReceived.filter _).trans hStored'.symm),
        hErased.trans ((hReceived.filter _).trans hErased'.symm)⟩

/-- Partition 1 sends twice, the second time with a label behind its own heartbeat. -/
def lateFamily (p : Int32) : List ReceivedMessage :=
  if p = 1 then [⟨1, 5, [⟨3, 30⟩]⟩, ⟨1, 6, [⟨2, 10⟩]⟩] else if p = 2 then [⟨2, 4, [⟨2, 20⟩]⟩] else []

theorem lateFamily_cases (p : Int32) : p = 1 ∨ p = 2 ∨ lateFamily p = [] := by
  unfold lateFamily
  by_cases h1 : p = 1
  · exact .inl h1
  · by_cases h2 : p = 2
    · exact .inr (.inl h2)
    · exact .inr (.inr (by rw [if_neg h1, if_neg h2]))

theorem lateFamily_streams : Streams 2 lateFamily := by
  constructor <;> intro p <;> rcases lateFamily_cases p with rfl | rfl | hNone
  · decide
  · decide
  · simp [hNone]
  · exact fun _ => by decide
  · exact fun _ => by decide
  · exact fun h => absurd hNone h
  · decide
  · decide
  · simp [hNone]

def lateEvents (msgs : List ReceivedMessage) : Events := msgs.map fun m => (m, ⟨fun n => n, fun n => n, 0⟩)

theorem lateFamily_interleaves {msgs : List ReceivedMessage}
    (hOne : msgs.filter (fun m => m.partionId = 1) = lateFamily 1)
    (hTwo : msgs.filter (fun m => m.partionId = 2) = lateFamily 2)
    (hIds : ∀ m ∈ msgs, m.partionId = 1 ∨ m.partionId = 2) :
    Interleaves lateFamily (messages (lateEvents msgs)) := by
  intro p
  have hMessages : messages (lateEvents msgs) = msgs := by
    rw [messages, lateEvents, List.map_map]
    exact List.map_id msgs
  rw [hMessages]
  obtain rfl | rfl | hNone := lateFamily_cases p
  · exact hOne
  · exact hTwo
  · rw [hNone, List.filter_eq_nil_iff]
    intro m hm hp
    have hp : m.partionId = p := by simpa using hp
    obtain h | h := hIds m hm
    · rw [← hp, h] at hNone
      exact absurd hNone (by decide)
    · rw [← hp, h] at hNone
      exact absurd hNone (by decide)

theorem final_state_of_interleaves_late :
    let run := (start 2 100 1).processAll (lateEvents
      [⟨1, 5, [⟨3, 30⟩]⟩, ⟨2, 4, [⟨2, 20⟩]⟩, ⟨1, 6, [⟨2, 10⟩]⟩])
    let run' := (start 2 100 1).processAll (lateEvents
      [⟨1, 5, [⟨3, 30⟩]⟩, ⟨1, 6, [⟨2, 10⟩]⟩, ⟨2, 4, [⟨2, 20⟩]⟩])
    run.1.heartbeat = run'.1.heartbeat ∧
      run.1.storage.entries.Perm run'.1.storage.entries ∧
      (erasedAll run.2).Perm (erasedAll run'.2) :=
  final_state_of_interleaves 2 100 1 lateFamily lateFamily_streams _ _
    (lateFamily_interleaves (by decide) (by decide) (by decide))
    (lateFamily_interleaves (by decide) (by decide) (by decide))

end CStabilizer.ProcessingThread
