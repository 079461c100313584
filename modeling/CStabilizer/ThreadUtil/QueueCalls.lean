import CStabilizer.ThreadUtil.Possession

/-! # Calls of the event queue

What the threads call, what each call locks and accesses, and in which places it moves
packets: from the hand of a thread to the producer queue, on to the other two queues,
and from the consumer queue to the hand of a thread. -/

namespace CStabilizer.ThreadUtil

open CStabilizer.Library.Accesses CStabilizer.Library.Atomicity CStabilizer.Library.LinkedList

universe u

inductive Call (Addr α : Type u) where
  | newEventDataPacket (a : Addr) (data : α)
  | addToProducerQueue (packet : Addr × α)
  | addToProducerQueueWithLock (packet : Addr × α)
  | pushToIntermediateQueue
  | pollFromIntermediateQueue
  | pollFromConsumerQueue
  | deleteEventDataPacket (a : Addr)

inductive Mutex where
  | queueHolder
  deriving DecidableEq

/-- The only thread that adds packets and pushes them on, if producers do not lock, and the thread
that polls. -/
structure Roles (Thread : Type*) where
  producer : Option Thread
  consumer : Thread

namespace Call

variable {Addr α : Type u} [DecidableEq Addr]

def entry : Call Addr α → Entry (Cell Addr α)
  | newEventDataPacket a data => .alloc fun
    | .data b => if b = a then some data else none
    | .next b => if b = a then some none else none
    | .head _ | .tail _ => none
  | deleteEventDataPacket a => .free {.data a, .next a}
  | _ => .plain

omit [DecidableEq Addr] in
def lock : Call Addr α → Option Mutex
  | addToProducerQueueWithLock _ | pushToIntermediateQueue | pollFromIntermediateQueue =>
    some .queueHolder
  | _ => none

omit [DecidableEq Addr] in
/-- The result is the packet polled, with its data. -/
def code : Call Addr α → Code (Cell Addr α) (Option (Addr × α))
  | newEventDataPacket .. | deleteEventDataPacket _ => return none
  | addToProducerQueue packet | addToProducerQueueWithLock packet => do
    QueueAccesses.addToProducerQueue (some packet.1)
    return none
  | pushToIntermediateQueue => do
    QueueAccesses.pushToIntermediateQueue
    return none
  | pollFromIntermediateQueue => do
    QueueAccesses.pollFromIntermediateQueue
    return none
  | pollFromConsumerQueue => QueueAccesses.pollPacket

/-- What a call leaves its thread of the packets it holds. -/
def hold (held : List (Addr × α)) (call : Call Addr α) (result : Option (Addr × α)) :
    List (Addr × α) :=
  match call with
  | newEventDataPacket a data => (a, data) :: held
  | addToProducerQueue packet | addToProducerQueueWithLock packet =>
    held.filter (·.1 ≠ packet.1)
  | pollFromConsumerQueue => result.toList ++ held
  | deleteEventDataPacket a => held.filter (·.1 ≠ a)
  | pushToIntermediateQueue | pollFromIntermediateQueue => held

omit [DecidableEq Addr] in
def advance (stages : Stages (Addr × α)) : Call Addr α → Stages (Addr × α)
  | addToProducerQueue packet | addToProducerQueueWithLock packet => stages.add packet
  | pushToIntermediateQueue => stages.pushToIntermediate
  | pollFromIntermediateQueue => stages.pollFromIntermediate
  | pollFromConsumerQueue => stages.pollFromConsumer.2
  | newEventDataPacket .. | deleteEventDataPacket _ => stages

def heldBy (log : List (Call Addr α × Option (Addr × α))) : List (Addr × α) :=
  log.foldl (fun held x => hold held x.1 x.2) []

def Allowed {Thread : Type*} (roles : Roles Thread) (t : Thread)
    (log : List (Call Addr α × Option (Addr × α))) : Call Addr α → Prop
  | newEventDataPacket .. => True
  | addToProducerQueue packet => roles.producer = some t ∧ packet ∈ heldBy log
  | addToProducerQueueWithLock packet =>
    (roles.producer = none ∨ roles.producer = some t) ∧ packet ∈ heldBy log
  | pushToIntermediateQueue => roles.producer = none ∨ roles.producer = some t
  | pollFromIntermediateQueue | pollFromConsumerQueue => roles.consumer = t
  | deleteEventDataPacket a => ∃ data, (a, data) ∈ heldBy log

def operations {Thread : Type*} (roles : Roles Thread) :
    Operations Thread (Call Addr α) Mutex (Cell Addr α) (Option (Addr × α)) where
  entry := entry
  lock := lock
  code := code
  Allowed := Allowed roles

end Call

/-! ## Places -/

namespace Stages

def list {β : Type u} (stages : Stages β) : QueueName → List β
  | .producer => stages.producer
  | .intermediate => stages.intermediate
  | .consumer => stages.consumer

end Stages

/-- Where a packet is. -/
inductive Place (Thread : Type*) where
  | hand (t : Thread)
  | queue (q : QueueName)

section Places

variable {Addr α : Type u} {Thread : Type*}

namespace Place

def packets (stages : Stages (Addr × α)) (held : Thread → List (Addr × α)) :
    Place Thread → List (Addr × α)
  | hand t => held t
  | queue q => stages.list q

def locations (stages : Stages (Addr × α)) (held : Thread → List (Addr × α)) :
    Place Thread → Set (Location Addr)
  | hand t => QueueAccesses.cells (held t)
  | queue q => QueueAccesses.queueCells q (stages.list q)

def owner (roles : Roles Thread) : Place Thread → Thread ⊕ Mutex
  | hand t => .inl t
  | queue .producer => match roles.producer with
    | some t => .inl t
    | none => .inr .queueHolder
  | queue .intermediate => .inr .queueHolder
  | queue .consumer => .inl roles.consumer

end Place

def Call.queues : Call Addr α → List QueueName
  | addToProducerQueue _ | addToProducerQueueWithLock _ => [.producer]
  | pushToIntermediateQueue => [.intermediate, .producer]
  | pollFromIntermediateQueue => [.consumer, .intermediate]
  | pollFromConsumerQueue => [.consumer]
  | newEventDataPacket .. | deleteEventDataPacket _ => []

def Call.Touches (t : Thread) (call : Call Addr α) : Place Thread → Prop
  | .hand t' => t' = t
  | .queue q => q ∈ call.queues

theorem mem_contents_of_list {stages : Stages (Addr × α)} {q : QueueName} {e : Addr × α}
    (he : e ∈ stages.list q) : e ∈ stages.contents := by
  rw [Stages.contents, List.mem_append, List.mem_append]
  cases q with
  | producer => exact .inr he
  | intermediate => exact .inl (.inr he)
  | consumer => exact .inl (.inl he)

theorem queue_unique {stages : Stages (Addr × α)} (h : (stages.contents.map Prod.fst).Nodup)
    {q q' : QueueName} {e e' : Addr × α} (he : e ∈ stages.list q) (he' : e' ∈ stages.list q')
    (hEq : e.1 = e'.1) : q = q' := by
  rw [Stages.contents, List.map_append, List.map_append] at h
  have hProducer := List.disjoint_of_nodup_append h
  have hIntermediate := List.disjoint_of_nodup_append h.of_append_left
  have hMem := List.mem_map_of_mem (f := Prod.fst) he
  have hMem' := List.mem_map_of_mem (f := Prod.fst) he'
  rw [← hEq] at hMem'
  cases q with
  | producer =>
    cases q' with
    | producer => rfl
    | intermediate => exact (hProducer (List.mem_append_right _ hMem') hMem).elim
    | consumer => exact (hProducer (List.mem_append_left _ hMem') hMem).elim
  | intermediate =>
    cases q' with
    | producer => exact (hProducer (List.mem_append_right _ hMem) hMem').elim
    | intermediate => rfl
    | consumer => exact (hIntermediate hMem' hMem).elim
  | consumer =>
    cases q' with
    | producer => exact (hProducer (List.mem_append_left _ hMem) hMem').elim
    | intermediate => exact (hIntermediate hMem hMem').elim
    | consumer => rfl

variable {frame : EventQueueFrame Addr α} {stages : Stages (Addr × α)}
  {held : Thread → List (Addr × α)}

theorem Possession.place_unique (h : Possession frame stages held) {p p' : Place Thread}
    {e e' : Addr × α} (he : e ∈ p.packets stages held) (he' : e' ∈ p'.packets stages held)
    (hEq : e.1 = e'.1) : p = p' := by
  cases p with
  | hand t =>
    cases p' with
    | hand t' => exact congrArg _ (h.exclusive t t' e e' he he' hEq)
    | queue q' =>
      apply absurd _ (h.apart t e he)
      rw [hEq]
      exact List.mem_map_of_mem (mem_contents_of_list he')
  | queue q =>
    cases p' with
    | hand t' =>
      apply absurd _ (h.apart t' e' he')
      rw [← hEq]
      exact List.mem_map_of_mem (mem_contents_of_list he)
    | queue q' => exact congrArg _ (queue_unique h.simulates.nodup he he' hEq)

theorem Place.mem_locations {p : Place Thread} {l : Location Addr}
    (hl : l ∈ p.locations stages held) :
    (∃ q, p = .queue q ∧ (l = .head q ∨ l = .tail q)) ∨
      ∃ e ∈ p.packets stages held, l = .data e.1 ∨ l = .next e.1 := by
  cases p with
  | hand t => exact .inr hl
  | queue q => exact hl.imp_left fun hQueue => ⟨q, rfl, hQueue⟩

/-- No location is in two places. -/
theorem Possession.location_unique (h : Possession frame stages held) {p p' : Place Thread}
    {l : Location Addr} (hl : l ∈ p.locations stages held) (hl' : l ∈ p'.locations stages held) :
    p = p' := by
  obtain ⟨q, rfl, hq⟩ | ⟨e, he, hEq⟩ := Place.mem_locations hl
  · obtain ⟨q', rfl, hq'⟩ | ⟨e', -, hEq'⟩ := Place.mem_locations hl'
    · obtain rfl | rfl := hq <;> obtain hq' | hq' := hq' <;> cases hq' <;> rfl
    · obtain rfl | rfl := hq <;> obtain hEq' | hEq' := hEq' <;> cases hEq'
  · obtain ⟨q', rfl, hq'⟩ | ⟨e', he', hEq'⟩ := Place.mem_locations hl'
    · obtain rfl | rfl := hEq <;> obtain hq' | hq' := hq' <;> cases hq'
    · apply h.place_unique he he'
      obtain rfl | rfl := hEq <;> obtain hEq' | hEq' := hEq'
      · exact Location.data.inj hEq'
      · cases hEq'
      · cases hEq'
      · exact Location.next.inj hEq'

/-! ## Calls -/

namespace Call

def answer (stages : Stages (Addr × α)) : Call Addr α → Option (Addr × α)
  | pollFromConsumerQueue => stages.pollFromConsumer.1
  | _ => none

theorem list_advance {call : Call Addr α} {q : QueueName} (h : q ∉ call.queues) :
    (call.advance stages).list q = stages.list q := by
  cases call with
  | newEventDataPacket => rfl
  | deleteEventDataPacket => rfl
  | addToProducerQueue packet =>
    cases q with
    | producer => exact absurd (List.mem_singleton_self _) h
    | intermediate => rfl
    | consumer => rfl
  | addToProducerQueueWithLock packet =>
    cases q with
    | producer => exact absurd (List.mem_singleton_self _) h
    | intermediate => rfl
    | consumer => rfl
  | pushToIntermediateQueue =>
    cases q with
    | producer => exact absurd (by simp [queues]) h
    | intermediate => exact absurd (by simp [queues]) h
    | consumer => rfl
  | pollFromIntermediateQueue =>
    cases q with
    | producer => rfl
    | intermediate => exact absurd (by simp [queues]) h
    | consumer => exact absurd (by simp [queues]) h
  | pollFromConsumerQueue =>
    have hPoll : stages.pollFromConsumer.2.intermediate = stages.intermediate ∧
        stages.pollFromConsumer.2.producer = stages.producer := by
      cases hConsumer : stages.consumer with
      | nil => rw [Stages.pollFromConsumer_nil hConsumer]; exact ⟨rfl, rfl⟩
      | cons e l => rw [Stages.pollFromConsumer_cons hConsumer]; exact ⟨rfl, rfl⟩
    cases q with
    | producer => exact hPoll.2
    | intermediate => exact hPoll.1
    | consumer => exact absurd (List.mem_singleton_self _) h

theorem locations_advance [DecidableEq Thread] {t : Thread} {call : Call Addr α}
    {p : Place Thread} (h : ¬call.Touches t p) (l : List (Addr × α)) :
    p.locations (call.advance stages) (Function.update held t l) = p.locations stages held := by
  cases p with
  | hand t' => rw [Place.locations, Place.locations, Function.update_of_ne h]
  | queue q => rw [Place.locations, Place.locations, list_advance h]

theorem enters_plain {m m' : Memory (Cell Addr α)} (h : Entry.plain.Enters m m') : m' = m :=
  funext fun l => h.1 l (Set.notMem_empty l)

section Decidable

variable [DecidableEq Addr]

/-- A place that a call touches is its thread's or its lock's. -/
theorem owner_of_touches {roles : Roles Thread} {t : Thread}
    {log : List (Call Addr α × Option (Addr × α))} {call : Call Addr α}
    (hAllowed : call.Allowed roles t log) {p : Place Thread} (h : call.Touches t p) :
    p.owner roles = .inl t ∨ ∃ k, call.lock = some k ∧ p.owner roles = .inr k := by
  cases p with
  | hand t' =>
    obtain rfl : t' = t := h
    exact .inl rfl
  | queue q =>
    have hProducer : ∀ {k}, call.lock = some k → roles.producer = none ∨ roles.producer = some t →
        (Place.queue .producer).owner roles = .inl t ∨
          ∃ k, call.lock = some k ∧ (Place.queue .producer).owner roles = .inr k := by
      rintro ⟨⟩ hLock (hNone | hSome)
      · exact .inr ⟨_, hLock, by rw [Place.owner, hNone]⟩
      · exact .inl (by rw [Place.owner, hSome])
    cases call with
    | newEventDataPacket => cases h
    | deleteEventDataPacket => cases h
    | addToProducerQueue packet =>
      obtain rfl := List.mem_singleton.mp h
      exact .inl (by rw [Place.owner, hAllowed.1])
    | addToProducerQueueWithLock packet =>
      obtain rfl := List.mem_singleton.mp h
      exact hProducer rfl hAllowed.1
    | pushToIntermediateQueue =>
      obtain rfl | hq := List.mem_cons.mp h
      · exact .inr ⟨_, rfl, rfl⟩
      · obtain rfl := List.mem_singleton.mp hq
        exact hProducer rfl hAllowed
    | pollFromIntermediateQueue =>
      obtain rfl | hq := List.mem_cons.mp h
      · exact .inl (congrArg _ hAllowed)
      · obtain rfl := List.mem_singleton.mp hq
        exact .inr ⟨_, rfl, rfl⟩
    | pollFromConsumerQueue =>
      obtain rfl := List.mem_singleton.mp h
      exact .inl (congrArg _ hAllowed)

theorem enters_new {a : Addr} {x : α} {m : Memory (Cell Addr α)}
    (h : (newEventDataPacket a x).entry.Enters frame.memory m) :
    frame.heap a = none ∧ m = (frame.allocate a x).memory := by
  obtain ⟨hFrame, hCells⟩ := h
  simp only [entry, Entry.cells, Set.mem_ofPred_eq] at hFrame hCells
  obtain ⟨hNone, hData⟩ := hCells (.data a) (by simp)
  obtain ⟨-, hNext⟩ := hCells (.next a) (by simp)
  simp only [if_true] at hData hNext
  rw [EventQueueFrame.memory_data, Option.map_eq_none_iff] at hNone
  refine ⟨hNone, frame.eq_memory_setHeap (fun q => hFrame _ (by simp))
    (fun q => hFrame _ (by simp)) (fun b => ?_) (fun b => ?_)⟩
  · obtain rfl | hNe := eq_or_ne b a
    · rw [hData, Function.update_self]
      rfl
    · rw [hFrame _ (by simp [hNe]), EventQueueFrame.memory_data, Function.update_of_ne hNe]
  · obtain rfl | hNe := eq_or_ne b a
    · rw [hNext, Function.update_self]
      rfl
    · rw [hFrame _ (by simp [hNe]), EventQueueFrame.memory_next, Function.update_of_ne hNe]

theorem enters_new_of_fresh {frame : EventQueueFrame Addr α} {a : Addr} (x : α)
    (h : frame.heap a = none) :
    (newEventDataPacket a x).entry.Enters frame.memory (frame.allocate a x).memory := by
  constructor
  · intro l hl
    simp only [entry, Entry.cells, Set.mem_ofPred_eq] at hl
    cases l with
    | head q => cases q <;> rfl
    | tail q => cases q <;> rfl
    | data b =>
      have hNe : b ≠ a := fun hEq => hl (by simp [hEq])
      rw [EventQueueFrame.memory_data, EventQueueFrame.memory_data, frame.allocate_of_ne x hNe]
    | next b =>
      have hNe : b ≠ a := fun hEq => hl (by simp [hEq])
      rw [EventQueueFrame.memory_next, EventQueueFrame.memory_next, frame.allocate_of_ne x hNe]
  · intro l hl
    simp only [Entry.cells, Set.mem_ofPred_eq] at hl ⊢
    cases l with
    | head q => simp at hl
    | tail q => simp at hl
    | data b =>
      obtain rfl | hNe := eq_or_ne b a
      · simp [EventQueueFrame.memory_data, h, EventQueueFrame.allocate, ThreadUtil.newEventDataPacket]
      · simp [hNe] at hl
    | next b =>
      obtain rfl | hNe := eq_or_ne b a
      · simp [EventQueueFrame.memory_next, h, EventQueueFrame.allocate, ThreadUtil.newEventDataPacket]
      · simp [hNe] at hl

theorem enters_delete {a : Addr} {m : Memory (Cell Addr α)}
    (h : (deleteEventDataPacket a : Call Addr α).entry.Enters frame.memory m) :
    m = (frame.setHeap (Function.update frame.heap a none)).memory := by
  obtain ⟨hFrame, hCells⟩ := h
  simp only [entry, Entry.cells] at hFrame hCells
  refine frame.eq_memory_setHeap (fun q => hFrame _ (by simp)) (fun q => hFrame _ (by simp))
    (fun b => ?_) (fun b => ?_)
  · obtain rfl | hNe := eq_or_ne b a
    · rw [(hCells _ (by simp)).2, Function.update_self]
      rfl
    · rw [hFrame _ (by simp [hNe]), EventQueueFrame.memory_data, Function.update_of_ne hNe]
  · obtain rfl | hNe := eq_or_ne b a
    · rw [(hCells _ (by simp)).2, Function.update_self]
      rfl
    · rw [hFrame _ (by simp [hNe]), EventQueueFrame.memory_next, Function.update_of_ne hNe]

end Decidable

end Call

section Perform

variable [DecidableEq Addr] [DecidableEq Thread] {t : Thread}

/-- After a call its thread and its lock own what it has accessed. -/
def Covered (t : Thread) (call : Call Addr α) (stages : Stages (Addr × α))
    (held : Thread → List (Addr × α)) (S : Set (Location Addr)) : Prop :=
  ∀ l ∈ S, ∃ p : Place Thread, call.Touches t p ∧ l ∈ p.locations stages held

omit [DecidableEq Addr] [DecidableEq Thread] in
theorem covered_move {call : Call Addr α} {dst src : QueueName} {l r : List (Addr × α)}
    {S : Set (Location Addr)}
    (h : S ⊆ QueueAccesses.queueCells dst l ∪ QueueAccesses.queueCells src r)
    (hDst : dst ∈ call.queues) (hSrc : src ∈ call.queues) (hList : stages.list dst = l ++ r) :
    Covered t call stages held S := by
  intro x hx
  obtain hx | hx := h hx
  · refine ⟨.queue dst, hDst, hx.imp_right fun hCell => ?_⟩
    exact QueueAccesses.cells_mono (fun e he => by rw [hList]; exact List.mem_append_left _ he) hCell
  · obtain hEnd | hCell := hx
    · exact ⟨.queue src, hSrc, .inl hEnd⟩
    · refine ⟨.queue dst, hDst, .inr (QueueAccesses.cells_mono (fun e he => ?_) hCell)⟩
      rw [hList]
      exact List.mem_append_right _ he

namespace Possession

/-- What `perform` proves of each call. -/
def Performs (t : Thread) (call : Call Addr α) (stages : Stages (Addr × α))
    (held : Thread → List (Addr × α)) (m : Memory (Cell Addr α)) : Prop :=
  ∃ frame' : EventQueueFrame Addr α, call.code.run m = some (call.answer stages, frame'.memory) ∧
    Possession frame' (call.advance stages)
      (Function.update held t (call.hold (held t) (call.answer stages))) ∧
    Covered t call (call.advance stages)
      (Function.update held t (call.hold (held t) (call.answer stages))) (call.code.footprint m)

theorem performs_move {call : Call Addr α}
    {c : Code (Cell Addr α) PUnit} {frame' : EventQueueFrame Addr α} {l r : List (Addr × α)}
    {dst src : QueueName} (hCode : call.code = c >>= fun _ => .done none)
    (hAnswer : call.answer stages = none) (hHold : ∀ result, call.hold (held t) result = held t)
    (hRun : c.run frame.memory = some (⟨⟩, frame'.memory))
    (hPossession : Possession frame' (call.advance stages) held)
    (hFootprint : c.footprint frame.memory ⊆
      QueueAccesses.queueCells dst l ∪ QueueAccesses.queueCells src r)
    (hDst : dst ∈ call.queues) (hSrc : src ∈ call.queues)
    (hList : (call.advance stages).list dst = l ++ r) :
    Performs t call stages held frame.memory := by
  refine ⟨frame', ?_, ?_, ?_⟩
  · rw [hCode, Code.run_bind, hRun, hAnswer]
    rfl
  · rwa [hHold, Function.update_eq_self]
  · rw [hHold, Function.update_eq_self, hCode, Code.footprint_bind hRun, Code.footprint_done,
      Set.union_empty]
    exact covered_move hFootprint hDst hSrc hList

theorem performs_add (h : Possession frame stages held) {call : Call Addr α} {packet : Addr × α}
    (hPacket : packet ∈ held t)
    (hCode : call.code =
      QueueAccesses.addToProducerQueue (some packet.1) >>= fun _ => .done none)
    (hAnswer : call.answer stages = none)
    (hHold : call.hold (held t) none = (held t).filter (·.1 ≠ packet.1))
    (hAdvance : call.advance stages = stages.add packet) (hQueues : .producer ∈ call.queues) :
    Performs t call stages held frame.memory := by
  obtain ⟨frame', hAdd, hPossession⟩ := h.addToProducerQueue hPacket
  have hRun := @QueueAccesses.run_addToProducerQueue Addr α _ frame (some packet.1)
  rw [hAdd, Option.map_some] at hRun
  refine ⟨frame', ?_, ?_, ?_⟩
  · rw [hCode, Code.run_bind, hRun, hAnswer]
    rfl
  · rw [hAnswer, hHold, hAdvance]
    exact hPossession
  · rw [hCode, Code.footprint_bind hRun, Code.footprint_done, Set.union_empty, hAdvance]
    intro x hx
    refine ⟨.queue .producer, hQueues, ?_⟩
    refine (QueueAccesses.footprint_pushToQueue h.simulates.producer _ hx).imp_right ?_
    exact fun hCell => QueueAccesses.cells_mono (fun e he => List.mem_append_left _ he) hCell

theorem performs_poll (h : Possession frame stages held) :
    Performs t .pollFromConsumerQueue stages held frame.memory := by
  cases hConsumer : stages.consumer with
  | nil =>
    obtain ⟨hPoll, hStages⟩ := h.pollFromConsumerQueue_nil hConsumer
    obtain ⟨hRun, hFootprint⟩ := QueueAccesses.pollPacket_none hPoll
    refine ⟨frame, ?_, ?_, ?_⟩
    · rw [Call.answer, hStages]
      exact hRun
    · rw [Call.answer, Call.advance, hStages]
      exact (Function.update_eq_self t held).symm ▸ h
    · intro x hx
      refine ⟨.queue .consumer, List.mem_singleton_self _, ?_⟩
      rw [Call.advance, hStages]
      rw [Call.code, hFootprint] at hx
      exact QueueAccesses.footprint_pollFromConsumerQueue h.simulates.consumer hx
  | cons e l =>
    obtain ⟨a, x⟩ := e
    obtain ⟨frame', hPoll, hNode, hPossession⟩ := h.pollFromConsumerQueue_cons t hConsumer
    obtain ⟨hRun, hFootprint⟩ := QueueAccesses.pollPacket_some hPoll hNode
    have hStages := Stages.pollFromConsumer_cons hConsumer
    have hHand : ∀ y, y = .data a ∨ y = .next a → y ∈ (Place.hand t).locations
        { stages with consumer := l } (Function.update held t ((a, x) :: held t)) := by
      intro y hy
      refine ⟨(a, x), ?_, hy⟩
      rw [Function.update_self]
      exact List.mem_cons_self
    refine ⟨frame', ?_, ?_, ?_⟩
    · rw [Call.answer, hStages]
      exact hRun
    · rw [Call.answer, Call.advance, hStages]
      exact hPossession
    · intro y hy
      rw [Call.answer, Call.advance, hStages]
      rw [Call.code, hFootprint] at hy
      obtain hy | hy := hy
      · have hCells := QueueAccesses.footprint_pollFromConsumerQueue h.simulates.consumer hy
        rw [hConsumer] at hCells
        obtain hEnd | ⟨e, he, hEq⟩ := hCells
        · exact ⟨.queue .consumer, List.mem_singleton_self _, .inl hEnd⟩
        · obtain rfl | he := List.mem_cons.mp he
          · exact ⟨.hand t, rfl, hHand y hEq⟩
          · exact ⟨.queue .consumer, List.mem_singleton_self _, .inr ⟨e, he, hEq⟩⟩
      · exact ⟨.hand t, rfl, hHand y (.inl hy)⟩

theorem perform (h : Possession frame stages held) {roles : Roles Thread}
    {log : List (Call Addr α × Option (Addr × α))} {call : Call Addr α}
    (hAllowed : call.Allowed roles t log) (hHeld : Call.heldBy log = held t)
    {m : Memory (Cell Addr α)} (hEnters : call.entry.Enters frame.memory m) :
    Performs t call stages held m := by
  cases call with
  | newEventDataPacket a x =>
    obtain ⟨hFresh, rfl⟩ := Call.enters_new hEnters
    exact ⟨_, rfl, h.newEventDataPacket t x hFresh, fun _ hx => hx.elim⟩
  | deleteEventDataPacket a =>
    obtain ⟨x, hx⟩ := hAllowed
    obtain rfl := Call.enters_delete hEnters
    exact ⟨_, rfl, h.deleteEventDataPacket (hHeld ▸ hx), fun _ hx => hx.elim⟩
  | addToProducerQueue packet =>
    obtain rfl := Call.enters_plain hEnters
    exact h.performs_add (hHeld ▸ hAllowed.2) rfl rfl rfl rfl (List.mem_singleton_self _)
  | addToProducerQueueWithLock packet =>
    obtain rfl := Call.enters_plain hEnters
    exact h.performs_add (hHeld ▸ hAllowed.2) rfl rfl rfl rfl (List.mem_singleton_self _)
  | pushToIntermediateQueue =>
    obtain rfl := Call.enters_plain hEnters
    obtain ⟨frame', hPush, hPossession⟩ := h.pushToIntermediateQueue
    have hRun := @QueueAccesses.run_pushToIntermediateQueue Addr α _ frame
    rw [hPush, Option.map_some] at hRun
    exact performs_move rfl rfl (fun _ => rfl) hRun hPossession
      (QueueAccesses.footprint_moveQueue h.simulates.intermediate .producer stages.producer)
      (by simp [Call.queues]) (by simp [Call.queues]) rfl
  | pollFromIntermediateQueue =>
    obtain rfl := Call.enters_plain hEnters
    obtain ⟨frame', hPoll, hPossession⟩ := h.pollFromIntermediateQueue
    have hRun := @QueueAccesses.run_pollFromIntermediateQueue Addr α _ frame
    rw [hPoll, Option.map_some] at hRun
    exact performs_move rfl rfl (fun _ => rfl) hRun hPossession
      (QueueAccesses.footprint_moveQueue h.simulates.consumer .intermediate stages.intermediate)
      (by simp [Call.queues]) (by simp [Call.queues]) rfl
  | pollFromConsumerQueue =>
    obtain rfl := Call.enters_plain hEnters
    exact h.performs_poll

end Possession

end Perform

end Places

end CStabilizer.ThreadUtil
