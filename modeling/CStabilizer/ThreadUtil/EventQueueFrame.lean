import CStabilizer.Library.LinkedList
import CStabilizer.ThreadUtil.Fifo

/-! # The event queue at pointer level

`EventQueueFrame` of `ThreadUtil.cpp` over a heap of packets. An operation
yields `none` when it follows or writes through a null pointer or a packet that
is not allocated. -/

namespace CStabilizer.ThreadUtil

open CStabilizer.Library.LinkedList

universe u v

abbrev EventDataPacket (Addr : Type u) (α : Type v) := Node Addr α

structure EventQueueFrame (Addr : Type u) (α : Type v) where
  heap : Heap Addr α
  producerQueue : Queue Addr
  intermediateQueue : Queue Addr
  consumerQueue : Queue Addr

variable {Addr : Type u} {α : Type v} [DecidableEq Addr]

def newEventDataPacket (data : α) : EventDataPacket Addr α := ⟨data, none⟩

def pushToQueue (heap : Heap Addr α) (q : Queue Addr) (dataContainer : Option Addr) :
    Option (Heap Addr α × Queue Addr) :=
  link heap q dataContainer dataContainer

namespace EventQueueFrame

def init : EventQueueFrame Addr α := ⟨fun _ => none, Queue.empty, Queue.empty, Queue.empty⟩

def allocate (frame : EventQueueFrame Addr α) (a : Addr) (data : α) : EventQueueFrame Addr α :=
  { frame with heap := Function.update frame.heap a (some (newEventDataPacket data)) }

def addToProducerQueue (frame : EventQueueFrame Addr α) (dataContainer : Option Addr) :
    Option (EventQueueFrame Addr α) := do
  let (heap, producerQueue) ← pushToQueue frame.heap frame.producerQueue dataContainer
  return { frame with heap, producerQueue }

def pushToIntermediateQueue (frame : EventQueueFrame Addr α) :
    Option (EventQueueFrame Addr α) := do
  let (heap, intermediateQueue, producerQueue) ←
    splice frame.heap frame.intermediateQueue frame.producerQueue
  return { frame with heap, intermediateQueue, producerQueue }

def pollFromIntermediateQueue (frame : EventQueueFrame Addr α) :
    Option (EventQueueFrame Addr α) := do
  let (heap, consumerQueue, intermediateQueue) ←
    splice frame.heap frame.consumerQueue frame.intermediateQueue
  return { frame with heap, consumerQueue, intermediateQueue }

def pollFromConsumerQueue (frame : EventQueueFrame Addr α) :
    Option (Option Addr × EventQueueFrame Addr α) := do
  let (cont, heap, consumerQueue) ← unlink frame.heap frame.consumerQueue
  return (cont, { frame with heap, consumerQueue })

/-- The three heads lead to disjoint lists, and a tail is the last packet only while its list is
not empty. -/
structure Simulates (frame : EventQueueFrame Addr α) (s : Stages (Addr × α)) : Prop where
  consumer : Represents frame.heap frame.consumerQueue s.consumer
  intermediate : Represents frame.heap frame.intermediateQueue s.intermediate
  producer : Represents frame.heap frame.producerQueue s.producer
  nodup : (s.contents.map Prod.fst).Nodup

theorem allocate_of_ne (frame : EventQueueFrame Addr α) (x : α) {a b : Addr} (h : b ≠ a) :
    (frame.allocate a x).heap b = frame.heap b :=
  Function.update_of_ne h ..

omit [DecidableEq Addr] in
theorem simulates_init : Simulates (init : EventQueueFrame Addr α) Stages.empty :=
  ⟨represents_empty _, represents_empty _, represents_empty _, List.nodup_nil⟩

omit [DecidableEq Addr] in
theorem not_mem_of_nodup {l r : List (Addr × α)} (h : ((l ++ r).map Prod.fst).Nodup)
    {e : Addr × α} (he : e ∈ r) : e.1 ∉ l.map Prod.fst := by
  rw [List.map_append] at h
  exact fun hMem => List.disjoint_of_nodup_append h hMem (List.mem_map_of_mem he)

variable {frame : EventQueueFrame Addr α} {s : Stages (Addr × α)}

omit [DecidableEq Addr] in
theorem Simulates.isSome (h : Simulates frame s) {a : Addr}
    (ha : a ∈ s.contents.map Prod.fst) : (frame.heap a).isSome := by
  obtain ⟨e, he, rfl⟩ := List.mem_map.mp ha
  obtain he | he := List.mem_append.mp he
  · cases List.mem_append.mp he with
    | inl he => exact h.consumer.chain.allocated he
    | inr he => exact h.intermediate.chain.allocated he
  · exact h.producer.chain.allocated he

theorem Simulates.update (h : Simulates frame s) {a : Addr} (ha : a ∉ s.contents.map Prod.fst)
    (node : Option (EventDataPacket Addr α)) :
    Simulates { frame with heap := Function.update frame.heap a node } s := by
  have hSame : ∀ e ∈ s.contents, Function.update frame.heap a node e.1 = frame.heap e.1 :=
    fun e he => Function.update_of_ne (fun hEq => ha (by rw [← hEq]; exact List.mem_map_of_mem he)) ..
  exact ⟨h.consumer.frame fun e he => hSame e (by simp [Stages.contents, he]),
    h.intermediate.frame fun e he => hSame e (by simp [Stages.contents, he]),
    h.producer.frame fun e he => hSame e (by simp [Stages.contents, he]), h.nodup⟩

theorem Simulates.addToProducerQueue (h : Simulates frame s) {a : Addr} (x : α)
    (hFresh : frame.heap a = none) :
    ∃ frame', (frame.allocate a x).addToProducerQueue (some a) = some frame' ∧
      Simulates frame' (s.add (a, x)) ∧ SameData (frame.allocate a x).heap frame'.heap := by
  have hNotMem : a ∉ s.contents.map Prod.fst := fun hMem => by simpa [hFresh] using h.isSome hMem
  have hAlloc : Simulates (frame.allocate a x) s := h.update hNotMem _
  have hPacket : Represents (frame.allocate a x).heap ⟨some a, some a⟩ [(a, x)] :=
    ⟨⟨rfl, none, Function.update_self .., rfl⟩, fun e he => by cases he; rfl⟩
  have hNodup : ((s.contents ++ [(a, x)]).map Prod.fst).Nodup := by
    rw [List.map_append, List.nodup_append_comm]
    exact List.nodup_cons.mpr ⟨hNotMem, h.nodup⟩
  have hContents := hNodup
  rw [Stages.contents, List.append_assoc, List.append_assoc, ← List.append_assoc] at hContents
  have hRear : ((s.producer ++ [(a, x)]).map Prod.fst).Nodup := by
    rw [List.map_append] at hContents
    exact hContents.of_append_right
  obtain ⟨heap, q, hLink, hq, hFrame, hData⟩ :=
    link_represents hAlloc.producer hPacket (List.cons_ne_nil _ _) hRear
  have hSame : ∀ e ∈ s.consumer ++ s.intermediate, heap e.1 = (frame.allocate a x).heap e.1 := by
    refine fun e he => hFrame _ fun hMem => ?_
    obtain ⟨e', he', hEq⟩ := List.mem_map.mp hMem
    apply not_mem_of_nodup hContents (List.mem_append_left _ he')
    rw [hEq]
    exact List.mem_map_of_mem he
  refine ⟨⟨heap, q, frame.intermediateQueue, frame.consumerQueue⟩, ?_, ⟨?_, ?_, hq, ?_⟩, hData⟩
  · rw [EventQueueFrame.addToProducerQueue, pushToQueue, hLink]
    rfl
  · exact hAlloc.consumer.frame fun e he => hSame e (List.mem_append_left _ he)
  · exact hAlloc.intermediate.frame fun e he => hSame e (List.mem_append_right _ he)
  · rwa [Stages.contents_add]

theorem Simulates.pushToIntermediateQueue (h : Simulates frame s) :
    ∃ frame', frame.pushToIntermediateQueue = some frame' ∧
      Simulates frame' s.pushToIntermediate ∧ SameData frame.heap frame'.heap := by
  have hNodup := h.nodup
  rw [Stages.contents, List.append_assoc] at hNodup
  have hRest : ((s.intermediate ++ s.producer).map Prod.fst).Nodup := by
    rw [List.map_append] at hNodup
    exact hNodup.of_append_right
  obtain ⟨heap, dst, src, hSplice, hDst, hSrc, hFrame, hData⟩ :=
    splice_represents h.intermediate h.producer hRest
  refine ⟨⟨heap, src, dst, frame.consumerQueue⟩, ?_, ⟨?_, hDst, hSrc, ?_⟩, hData⟩
  · simp [EventQueueFrame.pushToIntermediateQueue, hSplice]
  · refine h.consumer.frame fun e he => hFrame _ fun hMem => ?_
    obtain ⟨e', he', hEq⟩ := List.mem_map.mp hMem
    apply not_mem_of_nodup hNodup (List.mem_append_left _ he')
    rw [hEq]
    exact List.mem_map_of_mem he
  · rw [Stages.contents_pushToIntermediate]
    exact h.nodup

theorem Simulates.pollFromIntermediateQueue (h : Simulates frame s) :
    ∃ frame', frame.pollFromIntermediateQueue = some frame' ∧
      Simulates frame' s.pollFromIntermediate ∧ SameData frame.heap frame'.heap := by
  have hNodup := h.nodup
  have hFront : ((s.consumer ++ s.intermediate).map Prod.fst).Nodup := by
    rw [Stages.contents, List.map_append] at hNodup
    exact hNodup.of_append_left
  obtain ⟨heap, dst, src, hSplice, hDst, hSrc, hFrame, hData⟩ :=
    splice_represents h.consumer h.intermediate hFront
  refine ⟨⟨heap, frame.producerQueue, src, dst⟩, ?_, ⟨hDst, hSrc, ?_, ?_⟩, hData⟩
  · simp [EventQueueFrame.pollFromIntermediateQueue, hSplice]
  · refine h.producer.frame fun e he => hFrame _ fun hMem => ?_
    rw [Stages.contents, List.append_assoc] at hNodup
    exact not_mem_of_nodup hNodup (List.mem_append_right _ he) hMem
  · rw [Stages.contents_pollFromIntermediate]
    exact h.nodup

theorem Simulates.pollFromConsumerQueue_nil (h : Simulates frame s) (hNil : s.consumer = []) :
    frame.pollFromConsumerQueue = some (none, frame) := by
  have hUnlink := unlink_nil (hNil ▸ h.consumer)
  simp [EventQueueFrame.pollFromConsumerQueue, hUnlink]

theorem Simulates.pollFromConsumerQueue_cons (h : Simulates frame s) {a : Addr} {x : α}
    {l : List (Addr × α)} (hCons : s.consumer = (a, x) :: l) :
    ∃ frame', frame.pollFromConsumerQueue = some (some a, frame') ∧
      Simulates frame' { s with consumer := l } ∧ SameData frame.heap frame'.heap ∧
      frame'.consumerQueue.tail = frame.consumerQueue.tail ∧
      (frame.heap a).map Node.data = some x := by
  have hNodup : ((((a, x) :: l) ++ (s.intermediate ++ s.producer)).map Prod.fst).Nodup := by
    have hContents := h.nodup
    rwa [Stages.contents, List.append_assoc, hCons] at hContents
  have hFront : (((a, x) :: l).map Prod.fst).Nodup := by
    rw [List.map_append] at hNodup
    exact hNodup.of_append_left
  obtain ⟨heap, q, hUnlink, hq, hTail, hFrame, hData, hNode⟩ :=
    unlink_cons (hCons ▸ h.consumer) hFront
  rw [List.cons_append, List.map_cons, List.nodup_cons, ← List.append_assoc] at hNodup
  have hSame : ∀ e ∈ s.intermediate ++ s.producer, heap e.1 = frame.heap e.1 := by
    refine fun e he => hFrame _ fun hEq => hNodup.1 ?_
    have hMem : e.1 ∈ (l ++ (s.intermediate ++ s.producer)).map Prod.fst :=
      List.mem_map_of_mem (List.mem_append_right _ he)
    rwa [hEq, ← List.append_assoc] at hMem
  refine ⟨⟨heap, frame.producerQueue, frame.intermediateQueue, q⟩, ?_, ⟨hq, ?_, ?_, hNodup.2⟩,
    hData, hTail, hNode⟩
  · rw [EventQueueFrame.pollFromConsumerQueue, hUnlink]
    rfl
  · exact h.intermediate.frame fun e he => hSame e (List.mem_append_left _ he)
  · exact h.producer.frame fun e he => hSame e (List.mem_append_right _ he)

end EventQueueFrame

end CStabilizer.ThreadUtil
