import CStabilizer.Library.Splits
import CStabilizer.ProcessingThread.Step

/-! # Runs of the processing thread

Successive calls of `processQ` process one list of messages from the
configured state. The heartbeat table is determined by the messages alone. -/

namespace CStabilizer.ProcessingThread

open Library.Containers Library.StableSort

abbrev Events := List (ReceivedMessage × Syscalls)

def messages (events : Events) : List ReceivedMessage := events.map Prod.fst

def lastHeartbeat (msgs : List ReceivedMessage) (p : Int32) : Option UInt64 :=
  (msgs.filter fun m => m.partionId = p).getLast?.map ReceivedMessage.heartbeat

@[simp] theorem received_nil : received [] = [] := rfl

@[simp] theorem received_append (xs ys : Events) : received (xs ++ ys) = received xs ++ received ys :=
  List.flatMap_append ..

@[simp] theorem received_singleton (msg : ReceivedMessage) (sys : Syscalls) :
    received [(msg, sys)] = msg.labels.map Label.entry := by simp [received]

@[simp] theorem messages_append (xs ys : Events) : messages (xs ++ ys) = messages xs ++ messages ys :=
  List.map_append ..

@[simp] theorem erasedAll_append (xs ys : List Output) :
    erasedAll (xs ++ ys) = erasedAll xs ++ erasedAll ys := List.flatMap_append ..

@[simp] theorem deliveredAll_append (xs ys : List Output) :
    deliveredAll (xs ++ ys) = deliveredAll xs ++ deliveredAll ys := List.flatMap_append ..

@[simp] theorem wire_append (xs ys : List Output) : wire (xs ++ ys) = wire xs ++ wire ys :=
  List.flatMap_append ..

@[simp] theorem erasedAll_singleton (o : Output) : erasedAll [o] = o.erased := by simp [erasedAll]

@[simp] theorem deliveredAll_singleton (o : Output) : deliveredAll [o] = o.delivered := by
  simp [deliveredAll]

@[simp] theorem wire_singleton (o : Output) : wire [o] = o.bytes := by simp [wire]

theorem processAll_append (t : ProcessingThread) (xs ys : Events) :
    t.processAll (xs ++ ys) =
      (((t.processAll xs).1.processAll ys).1,
        (t.processAll xs).2 ++ ((t.processAll xs).1.processAll ys).2) := by
  induction xs generalizing t with
  | nil => rfl
  | cons event xs ih =>
    obtain ⟨msg, sys⟩ := event
    simp only [List.cons_append, processAll, ih]

/-- A run invariant relates the messages so far to the state and to what has left the thread;
it holds at the start and is preserved by one message. -/
theorem run_induction {t : ProcessingThread} {P : Events → ProcessingThread → List Output → Prop}
    (nil : P [] t [])
    (snoc : ∀ events msg sys s outputs, P events s outputs →
      P (events ++ [(msg, sys)]) (s.processMessage msg sys).1
        (outputs ++ [(s.processMessage msg sys).2]))
    (events : Events) : P events (t.processAll events).1 (t.processAll events).2 := by
  induction events using List.reverseRecOn with
  | nil => exact nil
  | append_singleton events event ih =>
    obtain ⟨msg, sys⟩ := event
    rw [processAll_append]
    exact snoc events msg sys _ _ ih

theorem lastHeartbeat_append (msgs : List ReceivedMessage) (msg : ReceivedMessage) (p : Int32) :
    lastHeartbeat (msgs ++ [msg]) p =
      if p = msg.partionId then some msg.heartbeat else lastHeartbeat msgs p := by
  unfold lastHeartbeat
  by_cases h : p = msg.partionId
  · simp [h]
  · simp [h, Ne.symm h]

theorem lookup_heartbeat (t : ProcessingThread) (events : Events) (p : Int32) :
    (t.processAll events).1.heartbeat.lookup p =
      (lastHeartbeat (messages events) p).or (t.heartbeat.lookup p) := by
  apply run_induction (P := fun events s _ =>
    s.heartbeat.lookup p = (lastHeartbeat (messages events) p).or (t.heartbeat.lookup p))
  · rfl
  · intro events msg sys s outputs ih
    rw [(s.processMessage_processed msg sys).heartbeat, OrderedMap.lookup_assign, messages_append]
    change _ = (lastHeartbeat (messages events ++ [msg]) p).or _
    rw [lastHeartbeat_append]
    split
    · rfl
    · exact ih

theorem received_perm {t : ProcessingThread} (hEmpty : t.storage.entries = []) (events : Events) :
    (received events).Perm
      (erasedAll (t.processAll events).2 ++ (t.processAll events).1.storage.entries) := by
  apply run_induction (P := fun events s outputs =>
    (received events).Perm (erasedAll outputs ++ s.storage.entries))
  · rw [hEmpty]
    exact .refl _
  · intro events msg sys s outputs ih
    have hInsert := insertAll_perm Prod.fst s.storage.entries (msg.labels.map Label.entry)
    rw [received_append, received_singleton, erasedAll_append, erasedAll_singleton,
      List.append_assoc, ← (s.processMessage_processed msg sys).split]
    apply (ih.append_right _).trans
    rw [List.append_assoc]
    exact hInsert.symm.append_left _

/-! ## The configured state -/

def Partition (count p : Int32) : Prop := 1 ≤ p ∧ p ≤ count

instance (count p : Int32) : Decidable (Partition count p) := inferInstanceAs (Decidable (_ ∧ _))

theorem lookup_foldl_assign (ks : List Int32) (x : UInt64) (m : OrderedMap Int32 UInt64) (k : Int32) :
    (ks.foldl (fun table n => table.assign n x) m).lookup k =
      if k ∈ ks then some x else m.lookup k := by
  induction ks generalizing m with
  | nil => simp
  | cons n ks ih =>
    rw [List.foldl_cons, ih, OrderedMap.lookup_assign]
    by_cases hMem : k ∈ ks
    · simp [hMem]
    · simp [hMem]

theorem mem_clientIds_iff (count p : Int32) :
    p ∈ (List.range' 1 count.toInt.toNat).map Int32.ofNat ↔ Partition count p := by
  have hCount := count.toInt_lt
  have hOne : (1 : Int32).toInt = 1 := rfl
  rw [Partition, Int32.le_iff_toInt_le, Int32.le_iff_toInt_le, hOne]
  constructor
  · intro h
    obtain ⟨n, hn, rfl⟩ := List.mem_map.mp h
    have hRange := List.mem_range'_1.mp hn
    have hValue : (Int32.ofNat n).toInt = n := Int32.toInt_ofNat_of_lt (by omega)
    omega
  · rintro ⟨hLower, hUpper⟩
    refine List.mem_map.mpr ⟨p.toInt.toNat, List.mem_range'_1.mpr (by omega), ?_⟩
    apply Int32.toInt_inj.mp
    rw [Int32.toInt_ofNat_of_lt (by omega), Int.toNat_of_nonneg (by omega)]

theorem lookup_start (count deleteThreshold batchSize p : Int32) :
    (start count deleteThreshold batchSize).heartbeat.lookup p =
      if Partition count p then some 0 else none := by
  have hTable : (start count deleteThreshold batchSize).heartbeat =
      ((List.range' 1 count.toInt.toNat).map Int32.ofNat).foldl
        (fun (table : OrderedMap Int32 UInt64) n => table.assign n 0) OrderedMap.empty := rfl
  rw [hTable, lookup_foldl_assign, OrderedMap.lookup_empty]
  simp only [mem_clientIds_iff]

/-- What the table holds, from the messages alone. -/
theorem lookup_run (count deleteThreshold batchSize : Int32) (events : Events) (p : Int32) :
    ((start count deleteThreshold batchSize).processAll events).1.heartbeat.lookup p =
      (lastHeartbeat (messages events) p).or (if Partition count p then some 0 else none) := by
  rw [lookup_heartbeat, lookup_start]

end CStabilizer.ProcessingThread
