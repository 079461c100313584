import CStabilizer.ProcessingThread.LoopIterator

/-! # Stability of what is released

No assumption on the senders is needed for one release to respect the table
it was computed from. That the stable timestamp never goes back does need one:
an id that enters the table late may lower the minimum. -/

namespace CStabilizer.ProcessingThread

open Library.Containers Library.StableSort Library.Splits

theorem mem_values_assign {m : OrderedMap Int32 UInt64} {p : Int32} {x h : UInt64} :
    h ∈ (m.assign p x).values ↔ h = x ∨ ∃ q, q ≠ p ∧ m.lookup q = some h := by
  rw [OrderedMap.mem_values_iff]
  simp only [OrderedMap.lookup_assign]
  constructor
  · rintro ⟨q, hq⟩
    split at hq
    · exact .inl (Option.some.inj hq).symm
    · rename_i hNe
      exact .inr ⟨q, hNe, hq⟩
  · rintro (rfl | ⟨q, hNe, hq⟩)
    · exact ⟨p, if_pos rfl⟩
    · exact ⟨q, by rw [if_neg hNe, hq]⟩

theorem partition_recorded {count deleteThreshold batchSize p : Int32} (events : Events)
    (hp : Partition count p) :
    ∃ h, ((start count deleteThreshold batchSize).processAll events).1.heartbeat.lookup p = some h := by
  rw [lookup_run, if_pos hp]
  cases lastHeartbeat (messages events) p with
  | none => exact ⟨0, rfl⟩
  | some h => exact ⟨h, rfl⟩

/-- Whatever the senders did before, what one message moves out of the storage is within
every recorded heartbeat, and what stays is beyond their minimum. -/
theorem release_stable (count deleteThreshold batchSize : Int32) (events : Events)
    (msg : ReceivedMessage) (sys : Syscalls) :
    let t := ((start count deleteThreshold batchSize).processAll events).1
    let t' := (t.processMessage msg sys).1
    let output := (t.processMessage msg sys).2
    (output.erased ++ t'.storage.entries).Perm
        (t.storage.entries ++ msg.labels.map Label.entry) ∧
      output.delivered ++ t'.deletedList = t.deletedList ++ output.erased.map Prod.snd ∧
      (∀ p, t'.heartbeat.lookup p = (lastHeartbeat (messages (events ++ [(msg, sys)])) p).or
        (if Partition count p then some 0 else none)) ∧
      (∀ p, Partition count p → ∃ h, t'.heartbeat.lookup p = some h) ∧
      (∀ e ∈ output.erased, ∀ p h, t'.heartbeat.lookup p = some h → e.1 ≤ h) ∧
      ∃ low, IsLeast {h | h ∈ t'.heartbeat.values} low ∧ ∀ e ∈ t'.storage.entries, low < e.1 := by
  intro t t' output
  have hStep : Processed t msg t' output := t.processMessage_processed msg sys
  have hRun : ((start count deleteThreshold batchSize).processAll (events ++ [(msg, sys)])).1 = t' := by
    rw [processAll_append]
    rfl
  refine ⟨?_, hStep.deliver, ?_, ?_, ?_, output.stable, hStep.least, hStep.beyond⟩
  · rw [← hStep.split]
    exact insertAll_perm ..
  · intro p
    rw [← hRun, lookup_run]
  · intro p hp
    rw [← hRun]
    exact partition_recorded _ hp
  · intro e he p h hh
    exact (hStep.within e he).trans (hStep.least.2 (OrderedMap.mem_values_iff.mpr ⟨p, hh⟩))

/-! ## Heartbeats that do not go back -/

def NonDecreasing (msgs : List ReceivedMessage) : Prop :=
  msgs.Pairwise fun a b => a.partionId = b.partionId → a.heartbeat ≤ b.heartbeat

def Advances (t : ProcessingThread) (msg : ReceivedMessage) : Prop :=
  ∀ h, t.heartbeat.lookup msg.partionId = some h → h ≤ msg.heartbeat

theorem lastHeartbeat_le {msgs : List ReceivedMessage} {msg : ReceivedMessage} {h : UInt64}
    (hOrder : NonDecreasing (msgs ++ [msg])) (hLast : lastHeartbeat msgs msg.partionId = some h) :
    h ≤ msg.heartbeat := by
  obtain ⟨m, hm, rfl⟩ := Option.map_eq_some_iff.mp hLast
  obtain ⟨hMem, hId⟩ := List.mem_filter.mp (List.mem_of_getLast? hm)
  exact (List.pairwise_append.mp hOrder).2.2 m hMem msg (List.mem_singleton_self _)
    (by simpa using hId)

theorem advances_of_nonDecreasing {count deleteThreshold batchSize : Int32} {events : Events}
    {msg : ReceivedMessage} (hOrder : NonDecreasing (messages events ++ [msg])) :
    Advances ((start count deleteThreshold batchSize).processAll events).1 msg := by
  intro h hh
  rw [lookup_run] at hh
  cases hLast : lastHeartbeat (messages events) msg.partionId with
  | some h' =>
    rw [hLast] at hh
    exact Option.some.inj hh ▸ lastHeartbeat_le hOrder hLast
  | none =>
    rw [hLast, Option.none_or] at hh
    split at hh
    · exact Option.some.inj hh ▸ UInt64.zero_le
    · cases hh

/-- Everything erased so far is within every entry, everything stored beyond one of them. -/
structure Settled (t : ProcessingThread) (erased : List Entry) : Prop where
  within : ∀ e ∈ erased, ∀ h ∈ t.heartbeat.values, e.1 ≤ h
  beyond : ∀ e ∈ t.storage.entries, ∃ h ∈ t.heartbeat.values, h < e.1

theorem settled_start (count deleteThreshold batchSize : Int32) :
    Settled (start count deleteThreshold batchSize) [] := by
  constructor
  · exact fun e he => absurd he List.not_mem_nil
  · intro e he
    exact absurd (show e ∈ ([] : List Entry) from he) List.not_mem_nil

theorem Settled.step {t : ProcessingThread} {erased : List Entry} (hSettled : Settled t erased)
    {msg : ReceivedMessage} {t' : ProcessingThread} {output : Output}
    (hStep : Processed t msg t' output) (hAdvances : Advances t msg)
    (hKnown : ∃ h, t.heartbeat.lookup msg.partionId = some h) :
    Settled t' (erased ++ output.erased) := by
  constructor
  · intro e he h hh
    obtain he | he := List.mem_append.mp he
    · rw [hStep.heartbeat] at hh
      obtain rfl | ⟨q, _, hq⟩ := mem_values_assign.mp hh
      · obtain ⟨old, hOld⟩ := hKnown
        exact (hSettled.within e he old (OrderedMap.mem_values_iff.mpr ⟨_, hOld⟩)).trans
          (hAdvances old hOld)
      · exact hSettled.within e he h (OrderedMap.mem_values_iff.mpr ⟨q, hq⟩)
    · exact (hStep.within e he).trans (hStep.least.2 hh)
  · intro e he
    exact ⟨output.stable, hStep.least.1, hStep.beyond e he⟩

/-! ## The sequence of stable timestamps -/

def stableTimestamps (outputs : List Output) : List UInt64 := outputs.map Output.stable

/-- Every id outside the partitions first occurs with a heartbeat that is not below the stable
timestamp returned for the message before it. -/
def NewcomersAbove (count deleteThreshold batchSize : Int32) (events : Events) : Prop :=
  Stepwise (fun before event => ¬Partition count event.1.partionId →
    (∀ m ∈ messages before, m.partionId ≠ event.1.partionId) →
    ∀ low, (stableTimestamps
      ((start count deleteThreshold batchSize).processAll before).2).getLast? = some low →
    low ≤ event.1.heartbeat) events

def reachesTen : Events := [(⟨1, 10, [⟨5, 1⟩]⟩, ⟨fun n => n, fun n => n, 0⟩)]

theorem decrementsDefined_reachesTen : DecrementsDefined (start 1 1 1) reachesTen :=
  stepwise_singleton.mpr (by decide)

/-- A newcomer below the stable timestamp takes it back: partition 1 reaches 10, then id 99
enters the table with 5. Both messages release their label. -/
theorem stableTimestamps_decrease :
    ∃ events : Events, NonDecreasing (messages events) ∧ DecrementsDefined (start 1 1 1) events ∧
      ¬(stableTimestamps ((start 1 1 1).processAll events).2).Pairwise (· ≤ ·) := by
  refine ⟨reachesTen ++ [(⟨99, 5, [⟨3, 1⟩]⟩, ⟨fun n => n, fun n => n, 0⟩)], ?_, ?_, by decide⟩
  · unfold NonDecreasing
    decide
  · exact stepwise_concat.mpr ⟨decrementsDefined_reachesTen, by decide⟩

theorem last_isLeast (t : ProcessingThread) (events : Events) {low : UInt64}
    (h : (stableTimestamps (t.processAll events).2).getLast? = some low) :
    IsLeast {h | h ∈ (t.processAll events).1.heartbeat.values} low := by
  revert h
  apply run_induction (P := fun _ s outputs => (stableTimestamps outputs).getLast? = some low →
    IsLeast {h | h ∈ s.heartbeat.values} low)
  · intro h
    cases h
  · intro events msg sys s outputs _ h
    rw [stableTimestamps, List.map_append, List.map_singleton, List.getLast?_concat] at h
    exact Option.some.inj h ▸ (s.processMessage_processed msg sys).least

theorem pairwise_concat_of_last {l : List UInt64} {x : UInt64} (h : l.Pairwise (· ≤ ·))
    (hLast : ∀ low, l.getLast? = some low → low ≤ x) : (l ++ [x]).Pairwise (· ≤ ·) := by
  refine List.pairwise_append.mpr ⟨h, List.pairwise_singleton _ _, fun a ha b hb => ?_⟩
  rw [List.mem_singleton.mp hb]
  obtain ⟨front, last, rfl⟩ := (List.eq_nil_or_concat' l).resolve_left (List.ne_nil_of_mem ha)
  have hLe : last ≤ x := hLast last List.getLast?_concat
  obtain ha | ha := List.mem_append.mp ha
  · exact ((List.pairwise_append.mp h).2.2 a ha last (List.mem_singleton_self _)).trans hLe
  · exact List.mem_singleton.mp ha ▸ hLe

theorem Processed.low_le {t t' : ProcessingThread} {msg : ReceivedMessage} {output : Output}
    (hStep : Processed t msg t' output) (hAdvances : Advances t msg) {low : UInt64}
    (hLow : IsLeast {h | h ∈ t.heartbeat.values} low)
    (hNew : t.heartbeat.lookup msg.partionId = none → low ≤ msg.heartbeat) :
    low ≤ output.stable := by
  have hMem := hStep.least.1
  rw [hStep.heartbeat] at hMem
  obtain hEq | ⟨q, _, hq⟩ := mem_values_assign.mp hMem
  · rw [hEq]
    cases hLookup : t.heartbeat.lookup msg.partionId with
    | none => exact hNew hLookup
    | some h =>
      exact (hLow.2 (OrderedMap.mem_values_iff.mpr ⟨_, hLookup⟩)).trans (hAdvances h hLookup)
  · exact hLow.2 (OrderedMap.mem_values_iff.mpr ⟨q, hq⟩)

theorem lastHeartbeat_eq_none_iff {msgs : List ReceivedMessage} {p : Int32} :
    lastHeartbeat msgs p = none ↔ ∀ m ∈ msgs, m.partionId ≠ p := by
  simp [lastHeartbeat]

/-- With heartbeats that do not go back for any id, the stable timestamp does not go back
exactly when no newcomer is below it. -/
theorem stableTimestamps_nonDecreasing_iff (count deleteThreshold batchSize : Int32)
    (events : Events) (hOrder : NonDecreasing (messages events)) :
    (stableTimestamps ((start count deleteThreshold batchSize).processAll events).2).Pairwise
        (· ≤ ·) ↔
      NewcomersAbove count deleteThreshold batchSize events := by
  induction events using List.reverseRecOn with
  | nil => exact iff_of_true List.Pairwise.nil stepwise_nil
  | append_singleton events event ih =>
    obtain ⟨msg, sys⟩ := event
    let t := ((start count deleteThreshold batchSize).processAll events).1
    have hStep := t.processMessage_processed msg sys
    have hMessages : messages (events ++ [(msg, sys)]) = messages events ++ [msg] :=
      messages_append ..
    rw [hMessages] at hOrder
    have hOutputs : stableTimestamps
        ((start count deleteThreshold batchSize).processAll (events ++ [(msg, sys)])).2 =
        stableTimestamps ((start count deleteThreshold batchSize).processAll events).2 ++
          [(t.processMessage msg sys).2.stable] := by
      rw [processAll_append, stableTimestamps, List.map_append]
      rfl
    rw [hOutputs, NewcomersAbove, stepwise_concat]
    constructor
    · intro hPairwise
      obtain ⟨hFront, -, hCross⟩ := List.pairwise_append.mp hPairwise
      constructor
      · exact (ih (List.pairwise_append.mp hOrder).1).mp hFront
      · intro _ _ low hLast
        -- The heartbeat of the last message is an entry, so it bounds the new minimum.
        have hLe := hCross low (List.mem_of_getLast? hLast) _ (List.mem_singleton_self _)
        refine hLe.trans (hStep.least.2 ?_)
        rw [hStep.heartbeat]
        exact mem_values_assign.mpr (.inl rfl)
    · rintro ⟨hFront, hNew⟩
      refine pairwise_concat_of_last ((ih (List.pairwise_append.mp hOrder).1).mpr hFront)
        fun low hLast => ?_
      apply hStep.low_le (advances_of_nonDecreasing hOrder) (last_isLeast _ _ hLast)
      intro hLookup
      rw [lookup_run, Option.or_eq_none_iff, lastHeartbeat_eq_none_iff] at hLookup
      refine hNew ?_ hLookup.1 low hLast
      intro hPartition
      rw [if_pos hPartition] at hLookup
      exact absurd hLookup.2 (by simp)

theorem stableTimestamps_nonDecreasing_iff_pair :
    let events : Events := reachesTen ++ [(⟨99, 12, [⟨7, 2⟩]⟩, ⟨fun n => n, fun n => n, 0⟩)]
    DecrementsDefined (start 1 1 1) events ∧
      ((stableTimestamps ((start 1 1 1).processAll events).2).Pairwise (· ≤ ·) ↔
        NewcomersAbove 1 1 1 events) := by
  refine ⟨stepwise_concat.mpr ⟨decrementsDefined_reachesTen, by decide⟩, ?_⟩
  exact stableTimestamps_nonDecreasing_iff 1 1 1 _ (by unfold NonDecreasing; decide)

end CStabilizer.ProcessingThread
