import CStabilizer.Library.Atomicity
import CStabilizer.ThreadUtil.EventQueueFrame

/-! # The event queue, access by access

The operations of `EventQueueFrame` as the reads and writes they are made of, without
the calls that lock and unlock. Run without a pause they are the operations on the
frame. -/

namespace CStabilizer.ThreadUtil

open CStabilizer.Library.Accesses CStabilizer.Library.LinkedList

universe u

inductive QueueName where
  | producer
  | intermediate
  | consumer
  deriving DecidableEq

inductive Location (Addr : Type u) where
  | head (q : QueueName)
  | tail (q : QueueName)
  | data (a : Addr)
  | next (a : Addr)
  deriving DecidableEq

variable {Addr α : Type u}

abbrev Cell (Addr α : Type u) : Location Addr → Type u
  | .head _ | .tail _ | .next _ => Option Addr
  | .data _ => α

namespace QueueAccesses

def getHead (q : QueueName) : Code (Cell Addr α) (Option Addr) := .read (.head q) .done

def getTail (q : QueueName) : Code (Cell Addr α) (Option Addr) := .read (.tail q) .done

def getNext : Option Addr → Code (Cell Addr α) (Option Addr)
  | none => .fault
  | some a => .read (.next a) .done

def getData (a : Addr) : Code (Cell Addr α) α := .read (.data a) .done

def setHead (q : QueueName) (p : Option Addr) : Code (Cell Addr α) PUnit :=
  .write (.head q) p (.done ⟨⟩)

def setTail (q : QueueName) (p : Option Addr) : Code (Cell Addr α) PUnit :=
  .write (.tail q) p (.done ⟨⟩)

def setNext (p next : Option Addr) : Code (Cell Addr α) PUnit :=
  match p with
  | none => .fault
  | some a => .write (.next a) next (.done ⟨⟩)

def pushToQueue (q : QueueName) (dataContainer : Option Addr) : Code (Cell Addr α) PUnit := do
  let head ← getHead q
  if head.isSome then
    let tail ← getTail q
    setNext tail dataContainer
  else
    setHead q dataContainer
  setTail q dataContainer

/-- The section of `PushToIntermediateQueue` and of `PollFromIntermediateQueue`. -/
def moveQueue (dst src : QueueName) : Code (Cell Addr α) PUnit := do
  let head ← getHead src
  if head.isSome then
    let dstHead ← getHead dst
    if dstHead.isSome then
      let first ← getHead src
      let tail ← getTail dst
      setNext tail first
    else
      let first ← getHead src
      setHead dst first
    let last ← getTail src
    setTail dst last
    setHead src none
    setTail src none

def addToProducerQueue (dataContainer : Option Addr) : Code (Cell Addr α) PUnit :=
  pushToQueue .producer dataContainer

def pushToIntermediateQueue : Code (Cell Addr α) PUnit := moveQueue .intermediate .producer

def pollFromIntermediateQueue : Code (Cell Addr α) PUnit := moveQueue .consumer .intermediate

def pollFromConsumerQueue : Code (Cell Addr α) (Option Addr) := do
  let head ← getHead .consumer
  if head.isSome then
    let cont ← getHead .consumer
    let front ← getHead .consumer
    let next ← getNext front
    setHead .consumer next
    setNext cont none
    return cont
  else
    return none

/-- A poll and the read of `m_ptrData` behind it. -/
def pollPacket : Code (Cell Addr α) (Option (Addr × α)) := do
  match ← pollFromConsumerQueue with
  | none => return none
  | some a =>
    let data ← getData a
    return some (a, data)

end QueueAccesses

namespace EventQueueFrame

def queue (frame : EventQueueFrame Addr α) : QueueName → Queue Addr
  | .producer => frame.producerQueue
  | .intermediate => frame.intermediateQueue
  | .consumer => frame.consumerQueue

def setQueue (frame : EventQueueFrame Addr α) (queue : Queue Addr) :
    QueueName → EventQueueFrame Addr α
  | .producer => { frame with producerQueue := queue }
  | .intermediate => { frame with intermediateQueue := queue }
  | .consumer => { frame with consumerQueue := queue }

def setHeap (frame : EventQueueFrame Addr α) (heap : Heap Addr α) : EventQueueFrame Addr α :=
  { frame with heap }

def memory (frame : EventQueueFrame Addr α) : Memory (Cell Addr α)
  | .head q => some (frame.queue q).head
  | .tail q => some (frame.queue q).tail
  | .data a => (frame.heap a).map Node.data
  | .next a => (frame.heap a).map Node.next

variable (frame : EventQueueFrame Addr α)

@[simp] theorem memory_head (q : QueueName) : frame.memory (.head q) = some (frame.queue q).head := rfl

@[simp] theorem memory_tail (q : QueueName) : frame.memory (.tail q) = some (frame.queue q).tail := rfl

theorem memory_data (a : Addr) : frame.memory (.data a) = (frame.heap a).map Node.data := rfl

theorem memory_next (a : Addr) : frame.memory (.next a) = (frame.heap a).map Node.next := rfl

@[simp] theorem queue_setQueue_self (queue : Queue Addr) (q : QueueName) :
    (frame.setQueue queue q).queue q = queue := by
  cases q <;> rfl

theorem queue_setQueue_of_ne (queue : Queue Addr) {q q' : QueueName} (h : q' ≠ q) :
    (frame.setQueue queue q).queue q' = frame.queue q' := by
  cases q <;> cases q' <;> first | rfl | exact absurd rfl h

@[simp] theorem heap_setQueue (queue : Queue Addr) (q : QueueName) :
    (frame.setQueue queue q).heap = frame.heap := by
  cases q <;> rfl

@[simp] theorem setQueue_setQueue (queue queue' : Queue Addr) (q : QueueName) :
    (frame.setQueue queue q).setQueue queue' q = frame.setQueue queue' q := by
  cases q <;> rfl

@[simp] theorem queue_setHeap (heap : Heap Addr α) (q : QueueName) :
    (frame.setHeap heap).queue q = frame.queue q := by
  cases q <;> rfl

@[simp] theorem setQueue_queue (q : QueueName) : frame.setQueue (frame.queue q) q = frame := by
  cases q <;> rfl

@[simp] theorem setHeap_heap : frame.setHeap frame.heap = frame := rfl

theorem eq_memory_setHeap {m : Memory (Cell Addr α)} {heap : Heap Addr α}
    (hHead : ∀ q, m (.head q) = frame.memory (.head q))
    (hTail : ∀ q, m (.tail q) = frame.memory (.tail q))
    (hData : ∀ a, m (.data a) = (heap a).map Node.data)
    (hNext : ∀ a, m (.next a) = (heap a).map Node.next) : m = (frame.setHeap heap).memory := by
  funext l
  cases l with
  | head q => rw [hHead, memory_head, memory_head, queue_setHeap]
  | tail q => rw [hTail, memory_tail, memory_tail, queue_setHeap]
  | data a => exact hData a
  | next a => exact hNext a

variable [DecidableEq Addr]

@[simp] theorem update_memory_head (q : QueueName) (p : Option Addr) :
    Function.update frame.memory (.head q) (some p) =
      (frame.setQueue ⟨p, (frame.queue q).tail⟩ q).memory := by
  funext l
  by_cases h : l = .head q
  · subst h
    simp
  · rw [Function.update_of_ne h]
    cases l with
    | head q' =>
      rw [memory_head, memory_head, queue_setQueue_of_ne]
      exact fun hEq => h (congrArg _ hEq)
    | tail q' =>
      rw [memory_tail, memory_tail]
      obtain rfl | hNe := eq_or_ne q' q
      · rw [queue_setQueue_self]
      · rw [queue_setQueue_of_ne _ _ hNe]
    | data a => rw [memory, memory, heap_setQueue]
    | next a => rw [memory, memory, heap_setQueue]

@[simp] theorem update_memory_tail (q : QueueName) (p : Option Addr) :
    Function.update frame.memory (.tail q) (some p) =
      (frame.setQueue ⟨(frame.queue q).head, p⟩ q).memory := by
  funext l
  by_cases h : l = .tail q
  · subst h
    simp
  · rw [Function.update_of_ne h]
    cases l with
    | head q' =>
      rw [memory_head, memory_head]
      obtain rfl | hNe := eq_or_ne q' q
      · rw [queue_setQueue_self]
      · rw [queue_setQueue_of_ne _ _ hNe]
    | tail q' =>
      rw [memory_tail, memory_tail, queue_setQueue_of_ne]
      exact fun hEq => h (congrArg _ hEq)
    | data a => rw [memory, memory, heap_setQueue]
    | next a => rw [memory, memory, heap_setQueue]

theorem update_memory_next {a : Addr} {node : EventDataPacket Addr α} (h : frame.heap a = some node)
    (next : Option Addr) :
    Function.update frame.memory (.next a) (some next) =
      (frame.setHeap (Function.update frame.heap a (some { node with next }))).memory := by
  apply eq_memory_setHeap
  · exact fun q => Function.update_of_ne (by simp) ..
  · exact fun q => Function.update_of_ne (by simp) ..
  · intro b
    rw [Function.update_of_ne (by simp), memory_data]
    obtain rfl | hNe := eq_or_ne b a
    · rw [h, Function.update_self]
      rfl
    · rw [Function.update_of_ne hNe]
  · intro b
    obtain rfl | hNe := eq_or_ne b a
    · simp
    · rw [Function.update_of_ne (by simpa using hNe), memory_next, Function.update_of_ne hNe]

end EventQueueFrame

namespace QueueAccesses

open EventQueueFrame

variable [DecidableEq Addr] {frame : EventQueueFrame Addr α} {ρ : Type u}

/-! ## Runs -/

@[simp] theorem run_getHead (q : QueueName) (f : Option Addr → Code (Cell Addr α) ρ) :
    (getHead q >>= f).run frame.memory = (f (frame.queue q).head).run frame.memory := rfl

@[simp] theorem run_getTail (q : QueueName) (f : Option Addr → Code (Cell Addr α) ρ) :
    (getTail q >>= f).run frame.memory = (f (frame.queue q).tail).run frame.memory := rfl

@[simp] theorem run_setHead (q : QueueName) (p : Option Addr) (f : PUnit → Code (Cell Addr α) ρ) :
    (setHead q p >>= f).run frame.memory =
      (f ⟨⟩).run (frame.setQueue ⟨p, (frame.queue q).tail⟩ q).memory := by
  rw [← update_memory_head]
  rfl

@[simp] theorem run_setTail (q : QueueName) (p : Option Addr) (f : PUnit → Code (Cell Addr α) ρ) :
    (setTail q p >>= f).run frame.memory =
      (f ⟨⟩).run (frame.setQueue ⟨(frame.queue q).head, p⟩ q).memory := by
  rw [← update_memory_tail]
  rfl

@[simp] theorem run_setTail_last (q : QueueName) (p : Option Addr) :
    (setTail q p : Code (Cell Addr α) PUnit).run frame.memory =
      some (⟨⟩, (frame.setQueue ⟨(frame.queue q).head, p⟩ q).memory) := by
  rw [← update_memory_tail]
  rfl

theorem run_setNext (p next : Option Addr) (f : PUnit → Code (Cell Addr α) ρ) :
    (QueueAccesses.setNext p next >>= f).run frame.memory =
      (Library.LinkedList.setNext frame.heap p next).bind fun heap =>
        (f ⟨⟩).run (frame.setHeap heap).memory := by
  cases p with
  | none => rfl
  | some a =>
    cases h : frame.heap a with
    | none => simp [QueueAccesses.setNext, Library.LinkedList.setNext, Code.run, memory, h]
    | some node =>
      have hSome : (frame.memory (.next a)).isSome := by simp [memory, h]
      simp [QueueAccesses.setNext, Library.LinkedList.setNext, h, Code.run_write hSome,
        update_memory_next frame h]

theorem run_pushToQueue (q : QueueName) (dataContainer : Option Addr) :
    (pushToQueue q dataContainer).run frame.memory =
      (ThreadUtil.pushToQueue frame.heap (frame.queue q) dataContainer).map fun x =>
        (⟨⟩, ((frame.setHeap x.1).setQueue x.2 q).memory) := by
  rw [ThreadUtil.pushToQueue, link, pushToQueue, run_getHead]
  cases hHead : (frame.queue q).head with
  | none => simp
  | some a =>
    rw [Option.isSome_some, if_pos rfl]
    simp only [run_getTail, run_setNext, Option.map_map]
    cases Library.LinkedList.setNext frame.heap (frame.queue q).tail dataContainer with
    | none => rfl
    | some heap => simp [hHead]

theorem run_moveQueue {dst src : QueueName} (hNe : dst ≠ src) :
    (moveQueue dst src).run frame.memory =
      (splice frame.heap (frame.queue dst) (frame.queue src)).map fun x =>
        (⟨⟩, (((frame.setHeap x.1).setQueue x.2.1 dst).setQueue x.2.2 src).memory) := by
  rw [splice, moveQueue, run_getHead]
  cases hHead : (frame.queue src).head with
  | none => simp
  | some a =>
    rw [Option.isSome_some, if_pos rfl, run_getHead, link]
    cases hDst : (frame.queue dst).head with
    | none =>
      simp [queue_setQueue_of_ne _ _ hNe.symm, hHead, Queue.empty]
    | some b =>
      rw [Option.isSome_some, if_pos rfl]
      simp only [run_getHead, run_getTail, run_setNext, hHead]
      cases Library.LinkedList.setNext frame.heap (frame.queue dst).tail (some a) with
      | none => rfl
      | some heap => simp [queue_setQueue_of_ne _ _ hNe.symm, hDst, Queue.empty]

theorem run_getNext (p : Option Addr) (f : Option Addr → Code (Cell Addr α) ρ) :
    (getNext p >>= f).run frame.memory =
      (load frame.heap p).bind fun node => (f node.next).run frame.memory := by
  cases p with
  | none => rfl
  | some a =>
    cases h : frame.heap a with
    | none => simp [getNext, load, Code.run, memory, h]
    | some node => simp [getNext, load, Code.run, memory, h]

theorem run_addToProducerQueue (dataContainer : Option Addr) :
    (addToProducerQueue dataContainer).run frame.memory =
      (frame.addToProducerQueue dataContainer).map fun frame' => (⟨⟩, frame'.memory) := by
  rw [addToProducerQueue, run_pushToQueue, EventQueueFrame.addToProducerQueue]
  change (ThreadUtil.pushToQueue frame.heap frame.producerQueue dataContainer).map _ = _
  cases ThreadUtil.pushToQueue frame.heap frame.producerQueue dataContainer <;> rfl

theorem run_pushToIntermediateQueue :
    (pushToIntermediateQueue : Code (Cell Addr α) PUnit).run frame.memory =
      frame.pushToIntermediateQueue.map fun frame' => (⟨⟩, frame'.memory) := by
  rw [pushToIntermediateQueue, run_moveQueue (by decide), EventQueueFrame.pushToIntermediateQueue]
  change (splice frame.heap frame.intermediateQueue frame.producerQueue).map _ = _
  cases splice frame.heap frame.intermediateQueue frame.producerQueue <;> rfl

theorem run_pollFromIntermediateQueue :
    (pollFromIntermediateQueue : Code (Cell Addr α) PUnit).run frame.memory =
      frame.pollFromIntermediateQueue.map fun frame' => (⟨⟩, frame'.memory) := by
  rw [pollFromIntermediateQueue, run_moveQueue (by decide),
    EventQueueFrame.pollFromIntermediateQueue]
  change (splice frame.heap frame.consumerQueue frame.intermediateQueue).map _ = _
  cases splice frame.heap frame.consumerQueue frame.intermediateQueue <;> rfl

theorem run_pollFromConsumerQueue :
    (pollFromConsumerQueue : Code (Cell Addr α) (Option Addr)).run frame.memory =
      frame.pollFromConsumerQueue.map fun x => (x.1, x.2.memory) := by
  have hQueue : frame.queue .consumer = frame.consumerQueue := rfl
  rw [pollFromConsumerQueue, run_getHead, EventQueueFrame.pollFromConsumerQueue, unlink, hQueue]
  cases hHead : frame.consumerQueue.head with
  | none => rfl
  | some a =>
    rw [Option.isSome_some, if_pos rfl, run_getHead, run_getHead, run_getNext, hQueue, hHead]
    cases load frame.heap (some a) with
    | none => rfl
    | some node =>
      simp only [Option.bind_some, run_setHead, run_setNext, heap_setQueue, hQueue]
      cases Library.LinkedList.setNext frame.heap (some a) none <;> rfl

/-! ## Footprints -/

/-- The two pointers of a queue and its packets. -/
def cells (l : List (Addr × α)) : Set (Location Addr) :=
  {x | ∃ e ∈ l, x = .data e.1 ∨ x = .next e.1}

def queueCells (q : QueueName) (l : List (Addr × α)) : Set (Location Addr) :=
  {.head q, .tail q} ∪ cells l

omit [DecidableEq Addr] in
theorem cells_mono {l l' : List (Addr × α)} (h : ∀ e ∈ l, e ∈ l') : cells l ⊆ cells l' := by
  rintro x ⟨e, he, hx⟩
  exact ⟨e, h e he, hx⟩

@[simp] theorem footprint_getHead (q : QueueName) (f : Option Addr → Code (Cell Addr α) ρ) :
    (getHead q >>= f).footprint frame.memory =
      insert (.head q) ((f (frame.queue q).head).footprint frame.memory) := rfl

@[simp] theorem footprint_getTail (q : QueueName) (f : Option Addr → Code (Cell Addr α) ρ) :
    (getTail q >>= f).footprint frame.memory =
      insert (.tail q) ((f (frame.queue q).tail).footprint frame.memory) := rfl

@[simp] theorem footprint_setHead (q : QueueName) (p : Option Addr)
    (f : PUnit → Code (Cell Addr α) ρ) :
    (setHead q p >>= f).footprint frame.memory =
      insert (.head q) ((f ⟨⟩).footprint (frame.setQueue ⟨p, (frame.queue q).tail⟩ q).memory) := by
  rw [← update_memory_head]
  rfl

@[simp] theorem footprint_setTail (q : QueueName) (p : Option Addr)
    (f : PUnit → Code (Cell Addr α) ρ) :
    (setTail q p >>= f).footprint frame.memory =
      insert (.tail q) ((f ⟨⟩).footprint (frame.setQueue ⟨(frame.queue q).head, p⟩ q).memory) := by
  rw [← update_memory_tail]
  rfl

@[simp] theorem footprint_setTail_last (q : QueueName) (p : Option Addr) :
    (setTail q p : Code (Cell Addr α) PUnit).footprint frame.memory = {.tail q} := by
  simp [setTail]

theorem footprint_setNext {a : Addr} {node : EventDataPacket Addr α} (h : frame.heap a = some node)
    (next : Option Addr) (f : PUnit → Code (Cell Addr α) ρ) :
    (QueueAccesses.setNext (some a) next >>= f).footprint frame.memory =
      insert (.next a) ((f ⟨⟩).footprint
        (frame.setHeap (Function.update frame.heap a (some { node with next }))).memory) := by
  rw [← update_memory_next frame h]
  rfl

theorem footprint_getNext {a : Addr} {node : EventDataPacket Addr α} (h : frame.heap a = some node)
    (f : Option Addr → Code (Cell Addr α) ρ) :
    (getNext (some a) >>= f).footprint frame.memory =
      insert (.next a) ((f node.next).footprint frame.memory) := by
  have hNext : frame.memory (.next a) = some node.next := by simp [memory, h]
  exact Code.footprint_read hNext

theorem footprint_pushToQueue {q : QueueName} {l : List (Addr × α)}
    (h : Represents frame.heap (frame.queue q) l) (dataContainer : Option Addr) :
    (pushToQueue q dataContainer).footprint frame.memory ⊆ queueCells q l := by
  have hHeadMem : .head q ∈ queueCells q l := .inl (.inl rfl)
  have hTailMem : .tail q ∈ queueCells q l := .inl (.inr rfl)
  rw [pushToQueue, footprint_getHead]
  cases hHead : (frame.queue q).head with
  | none => simp [hHeadMem, hTailMem, Set.insert_subset_iff]
  | some a =>
    have hNe : l ≠ [] := fun hNil => by simp [h.head_eq_none_iff.mpr hNil] at hHead
    have hLast : l.getLast? = some (l.getLast hNe) := List.getLast?_eq_some_getLast hNe
    have hNode := h.chain.node_of_getLast? hLast
    have hNext : .next (l.getLast hNe).1 ∈ queueCells q l :=
      .inr ⟨_, List.getLast_mem hNe, .inr rfl⟩
    rw [Option.isSome_some, if_pos rfl, footprint_getTail, h.last _ hLast]
    simp only [footprint_setNext hNode]
    simp [hHeadMem, hTailMem, hNext, Set.insert_subset_iff]

theorem footprint_moveQueue {dst : QueueName} {l : List (Addr × α)}
    (hDst : Represents frame.heap (frame.queue dst) l) (src : QueueName) (r : List (Addr × α)) :
    (moveQueue dst src).footprint frame.memory ⊆ queueCells dst l ∪ queueCells src r := by
  have hDstHead : .head dst ∈ queueCells dst l ∪ queueCells src r := .inl (.inl (.inl rfl))
  have hDstTail : .tail dst ∈ queueCells dst l ∪ queueCells src r := .inl (.inl (.inr rfl))
  have hSrcHead : .head src ∈ queueCells dst l ∪ queueCells src r := .inr (.inl (.inl rfl))
  have hSrcTail : .tail src ∈ queueCells dst l ∪ queueCells src r := .inr (.inl (.inr rfl))
  rw [moveQueue, footprint_getHead]
  cases hHead : (frame.queue src).head with
  | none => simp [hSrcHead]
  | some a =>
    rw [Option.isSome_some, if_pos rfl, footprint_getHead]
    cases hDstNone : (frame.queue dst).head with
    | none => simp [hDstHead, hDstTail, hSrcHead, hSrcTail, Set.insert_subset_iff]
    | some b =>
      have hNonempty : l ≠ [] := fun hNil => by simp [hDst.head_eq_none_iff.mpr hNil] at hDstNone
      have hLast : l.getLast? = some (l.getLast hNonempty) := List.getLast?_eq_some_getLast hNonempty
      have hNode := hDst.chain.node_of_getLast? hLast
      have hNext : .next (l.getLast hNonempty).1 ∈ queueCells dst l ∪ queueCells src r :=
        .inl (.inr ⟨_, List.getLast_mem hNonempty, .inr rfl⟩)
      rw [Option.isSome_some, if_pos rfl, footprint_getHead, footprint_getTail, hDst.last _ hLast]
      simp only [footprint_setNext hNode]
      simp [hDstHead, hDstTail, hSrcHead, hSrcTail, hNext, Set.insert_subset_iff]

theorem footprint_pollFromConsumerQueue {l : List (Addr × α)}
    (h : Represents frame.heap frame.consumerQueue l) :
    (pollFromConsumerQueue : Code (Cell Addr α) (Option Addr)).footprint frame.memory ⊆
      queueCells .consumer l := by
  have hHeadMem : .head .consumer ∈ queueCells .consumer l := .inl (.inl rfl)
  have hQueue : frame.queue .consumer = frame.consumerQueue := rfl
  rw [pollFromConsumerQueue, footprint_getHead, hQueue]
  cases l with
  | nil =>
    rw [h.head_eq_none_iff.mpr rfl]
    simp [hHeadMem]
  | cons e l =>
    obtain ⟨a, x⟩ := e
    obtain ⟨hHead, next, hNode, -⟩ := h.chain
    have hNext : .next a ∈ queueCells .consumer ((a, x) :: l) :=
      .inr ⟨(a, x), List.mem_cons_self, .inr rfl⟩
    rw [hHead, Option.isSome_some, if_pos rfl]
    simp only [footprint_getHead, footprint_setHead, hQueue, hHead,
      footprint_getNext hNode, Set.insert_subset_iff, hHeadMem, hNext, true_and]
    rw [footprint_setNext (by rwa [heap_setQueue])]
    simp [hNext]

theorem footprint_getData {a : Addr} {node : EventDataPacket Addr α} (h : frame.heap a = some node)
    (f : α → Code (Cell Addr α) ρ) :
    (getData a >>= f).footprint frame.memory =
      insert (.data a) ((f node.data).footprint frame.memory) := by
  have hData : frame.memory (.data a) = some node.data := by simp [memory, h]
  exact Code.footprint_read hData

theorem run_getData {a : Addr} {node : EventDataPacket Addr α} (h : frame.heap a = some node)
    (f : α → Code (Cell Addr α) ρ) :
    (getData a >>= f).run frame.memory = (f node.data).run frame.memory := by
  have hData : frame.memory (.data a) = some node.data := by simp [memory, h]
  exact Code.run_read hData

theorem pollPacket_none {frame' : EventQueueFrame Addr α}
    (h : frame.pollFromConsumerQueue = some (none, frame')) :
    (pollPacket : Code (Cell Addr α) (Option (Addr × α))).run frame.memory =
        some (none, frame'.memory) ∧
      (pollPacket : Code (Cell Addr α) (Option (Addr × α))).footprint frame.memory =
        pollFromConsumerQueue.footprint frame.memory := by
  have hRun : (pollFromConsumerQueue : Code (Cell Addr α) _).run frame.memory =
      some (none, frame'.memory) := by
    rw [run_pollFromConsumerQueue, h]
    rfl
  constructor
  · rw [pollPacket, Code.run_bind, hRun]
    rfl
  · rw [pollPacket, Code.footprint_bind hRun]
    exact Set.union_empty _

theorem pollPacket_some {frame' : EventQueueFrame Addr α} {a : Addr} {x : α}
    {next : Option Addr} (h : frame.pollFromConsumerQueue = some (some a, frame'))
    (hNode : frame'.heap a = some ⟨x, next⟩) :
    (pollPacket : Code (Cell Addr α) (Option (Addr × α))).run frame.memory =
        some (some (a, x), frame'.memory) ∧
      (pollPacket : Code (Cell Addr α) (Option (Addr × α))).footprint frame.memory =
        pollFromConsumerQueue.footprint frame.memory ∪ {.data a} := by
  have hRun : (pollFromConsumerQueue : Code (Cell Addr α) _).run frame.memory =
      some (some a, frame'.memory) := by
    rw [run_pollFromConsumerQueue, h]
    rfl
  constructor
  · rw [pollPacket, Code.run_bind, hRun]
    exact run_getData hNode _
  · rw [pollPacket, Code.footprint_bind hRun]
    exact congrArg _ ((footprint_getData hNode _).trans (LawfulSingleton.insert_empty_eq _))

end QueueAccesses

end CStabilizer.ThreadUtil
