import CStabilizer.ProcessingThread.Model

/-! # What one message does to the processing thread

`Processed` states everything one pass of `processQ` does to the table, the
storage and the list of deleted values. The properties of whole runs use it
and never unfold the functions of the model again. -/

namespace CStabilizer.ProcessingThread

open Library.Containers Library.StableSort

def received (events : List (ReceivedMessage × Syscalls)) : List Entry :=
  events.flatMap fun event => event.1.labels.map Label.entry

def erasedAll (outputs : List Output) : List Entry := outputs.flatMap Output.erased

def deliveredAll (outputs : List Output) : List Int32 := outputs.flatMap Output.delivered

def wire (outputs : List Output) : List UInt8 := outputs.flatMap Output.bytes

structure Processed (t : ProcessingThread) (msg : ReceivedMessage)
    (t' : ProcessingThread) (output : Output) : Prop where
  heartbeat : t'.heartbeat = t.heartbeat.assign msg.partionId msg.heartbeat
  least : IsLeast {h | h ∈ t'.heartbeat.values} output.stable
  split : insertAll Prod.fst t.storage.entries (msg.labels.map Label.entry) =
    output.erased ++ t'.storage.entries
  within : ∀ e ∈ output.erased, e.1 ≤ output.stable
  beyond : ∀ e ∈ t'.storage.entries, output.stable < e.1
  deliver : output.delivered ++ t'.deletedList = t.deletedList ++ output.erased.map Prod.snd
  labelDeliverySize : t'.labelDeliverySize = t.labelDeliverySize

theorem deleteLoop_eq (stable : UInt64) (l : List Entry) (it : Nat) (deleted : List Int32)
    (processed : Int) :
    deleteLoop stable l it deleted processed =
      (it + upperBound Prod.fst stable l,
        deleted ++ (l.take (upperBound Prod.fst stable l)).map Prod.snd,
        processed + upperBound Prod.fst stable l) := by
  induction l generalizing it deleted processed with
  | nil => simp [deleteLoop]
  | cons e rest ih =>
    obtain ⟨first, second⟩ := e
    rw [deleteLoop]
    split
    · rename_i hGreater
      have hZero : upperBound Prod.fst stable ((first, second) :: rest) = 0 :=
        upperBound_cons_of_lt Prod.fst rest hGreater
      simp [hZero]
    · rename_i hLe
      have hNext : upperBound Prod.fst stable ((first, second) :: rest) =
          upperBound Prod.fst stable rest + 1 := upperBound_cons_of_le Prod.fst rest (not_lt.mp hLe)
      rw [ih, hNext]
      simp only [List.take_succ_cons, List.map_cons, List.append_assoc, List.singleton_append,
        Prod.mk.injEq, true_and]
      omega

theorem deletePossibleLabels_eq (t : ProcessingThread) (stable : UInt64) :
    (t.deletePossibleLabels stable).2 = t.storage.entries.filter (fun e => e.1 ≤ stable) ∧
    (t.deletePossibleLabels stable).1.storage.entries =
      t.storage.entries.filter (fun e => stable < e.1) ∧
    (t.deletePossibleLabels stable).1.deletedList =
      t.deletedList ++ (t.deletePossibleLabels stable).2.map Prod.snd := by
  obtain ⟨hTake, hDrop⟩ := take_drop_upperBound Prod.fst stable t.storage.ordered
  simp only [deletePossibleLabels, deleteLoop_eq, Multimap.eraseFront, Nat.zero_add, hTake, hDrop,
    and_self]

theorem doPossibleBatchDelivery_conserves (t : ProcessingThread) (sys : Syscalls) :
    (t.doPossibleBatchDelivery sys).2.1 ++ (t.doPossibleBatchDelivery sys).1.deletedList =
      t.deletedList ∧
    (t.doPossibleBatchDelivery sys).1.heartbeat = t.heartbeat ∧
    (t.doPossibleBatchDelivery sys).1.storage = t.storage ∧
    (t.doPossibleBatchDelivery sys).1.labelDeliverySize = t.labelDeliverySize := by
  simp only [doPossibleBatchDelivery]
  split <;> simp

theorem reportProgress_keeps (t : ProcessingThread) (sys : Syscalls) :
    (t.reportProgress sys).heartbeat = t.heartbeat ∧ (t.reportProgress sys).storage = t.storage ∧
    (t.reportProgress sys).deletedList = t.deletedList ∧
    (t.reportProgress sys).labelDeliverySize = t.labelDeliverySize := by
  unfold reportProgress
  split <;> exact ⟨rfl, rfl, rfl, rfl⟩

theorem getStableTimestamp_updated (t : ProcessingThread) (p : Int32) (h : UInt64) :
    ((t.updateHeartbeatTable p h).getStableTimestamp p).1 = t.updateHeartbeatTable p h ∧
    IsLeast {x | x ∈ (t.heartbeat.assign p h).values}
      ((t.updateHeartbeatTable p h).getStableTimestamp p).2 := by
  have hLookup : (t.heartbeat.assign p h).lookup p = some h := t.heartbeat.lookup_assign_self p h
  have hIndex := OrderedMap.index_of_lookup 0 hLookup
  simp only [getStableTimestamp, updateHeartbeatTable, hIndex, true_and]
  exact scanMin_isLeast_of_mem (OrderedMap.mem_values_iff.mpr ⟨p, hLookup⟩)

def updated (t : ProcessingThread) (msg : ReceivedMessage) : ProcessingThread :=
  (t.insertBatchLabels msg.labels).updateHeartbeatTable msg.partionId msg.heartbeat

theorem entries_updated (t : ProcessingThread) (msg : ReceivedMessage) :
    (t.updated msg).storage.entries =
      insertAll Prod.fst t.storage.entries (msg.labels.map Label.entry) :=
  Multimap.entries_insertAll ..

def stableOf (t : ProcessingThread) (msg : ReceivedMessage) : UInt64 :=
  ((t.updated msg).getStableTimestamp msg.partionId).2

/-- The state with which a message reaches `DoPossibleBatchDelivery`, and the erased range. -/
def released (t : ProcessingThread) (msg : ReceivedMessage) : ProcessingThread × List Entry :=
  (t.updated msg).deletePossibleLabels (t.stableOf msg)

theorem processMessage_eq (t : ProcessingThread) (msg : ReceivedMessage) (sys : Syscalls) :
    t.processMessage msg sys =
      (((t.released msg).1.doPossibleBatchDelivery sys).1.reportProgress sys,
        ⟨t.stableOf msg, (t.released msg).2, ((t.released msg).1.doPossibleBatchDelivery sys).2.1,
          ((t.released msg).1.doPossibleBatchDelivery sys).2.2⟩) := by
  have hTable : ((t.updated msg).getStableTimestamp msg.partionId).1 = t.updated msg :=
    (getStableTimestamp_updated (t.insertBatchLabels msg.labels) msg.partionId msg.heartbeat).1
  rw [released]
  conv_rhs => rw [← hTable]
  rfl

theorem released_deletedList (t : ProcessingThread) (msg : ReceivedMessage) :
    (t.released msg).1.deletedList = t.deletedList ++ (t.released msg).2.map Prod.snd ∧
    (t.released msg).1.labelDeliverySize = t.labelDeliverySize :=
  ⟨(deletePossibleLabels_eq (t.updated msg) (t.stableOf msg)).2.2, rfl⟩

theorem processMessage_processed (t : ProcessingThread) (msg : ReceivedMessage) (sys : Syscalls) :
    Processed t msg (t.processMessage msg sys).1 (t.processMessage msg sys).2 := by
  have hLeast : IsLeast {h | h ∈ (t.heartbeat.assign msg.partionId msg.heartbeat).values}
      (t.stableOf msg) :=
    (getStableTimestamp_updated (t.insertBatchLabels msg.labels) msg.partionId msg.heartbeat).2
  obtain ⟨hErased, hStorage, hDeleted⟩ := deletePossibleLabels_eq (t.updated msg) (t.stableOf msg)
  obtain ⟨hDeliver, hHeartbeat, hKept, hSize⟩ :=
    doPossibleBatchDelivery_conserves (t.released msg).1 sys
  obtain ⟨rHeartbeat, rStorage, rDeleted, rSize⟩ :=
    reportProgress_keeps ((t.released msg).1.doPossibleBatchDelivery sys).1 sys
  rw [processMessage_eq]
  constructor
  case heartbeat =>
    rw [rHeartbeat, hHeartbeat]
    rfl
  case least =>
    rw [rHeartbeat, hHeartbeat]
    exact hLeast
  case split =>
    obtain ⟨hTake, hDrop⟩ :=
      take_drop_upperBound Prod.fst (t.stableOf msg) (t.updated msg).storage.ordered
    rw [← entries_updated, rStorage, hKept]
    change _ = (t.released msg).2 ++ _
    rw [released, hErased, hStorage, ← hTake, ← hDrop, List.take_append_drop]
  case within =>
    intro e he
    have he : e ∈ ((t.updated msg).deletePossibleLabels (t.stableOf msg)).2 := he
    rw [hErased] at he
    simpa using (List.mem_filter.mp he).2
  case beyond =>
    intro e he
    rw [rStorage, hKept, released, hStorage] at he
    simpa using (List.mem_filter.mp he).2
  case deliver =>
    rw [rDeleted, hDeliver]
    exact (t.released_deletedList msg).1
  case labelDeliverySize =>
    rw [rSize, hSize]
    exact (t.released_deletedList msg).2

end CStabilizer.ProcessingThread
