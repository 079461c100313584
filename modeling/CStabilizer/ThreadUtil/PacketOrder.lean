import CStabilizer.ThreadUtil.EventQueueFrame

/-! # One first-in first-out queue

The two threads as they use the event queue: the receiver allocates and adds
packets, the processing thread polls and deletes them. An address may be
allocated again once its packet is deleted. -/

namespace CStabilizer.ThreadUtil

open CStabilizer.Library.LinkedList

universe u v

inductive Op (Addr : Type u) (α : Type v) where
  | addToProducerQueue (a : Addr) (data : α)
  | pushToIntermediateQueue
  | pollFromIntermediateQueue
  | pollFromConsumerQueue
  | deletePacket (a : Addr)

/-- The frame with what was added, what polls returned, and the polled packets that are not yet
deleted. -/
structure World (Addr : Type u) (α : Type v) where
  frame : EventQueueFrame Addr α
  added : List (Addr × α)
  returned : List (Addr × α)
  polled : List Addr

namespace World

variable {Addr : Type u} {α : Type v}

def init : World Addr α := ⟨EventQueueFrame.init, [], [], []⟩

def Enabled (w : World Addr α) : Op Addr α → Prop
  | .addToProducerQueue a _ => w.frame.heap a = none
  | .deletePacket a => a ∈ w.polled
  | _ => True

variable [DecidableEq Addr]

def perform (w : World Addr α) : Op Addr α → Option (World Addr α)
  | .addToProducerQueue a data => do
    let frame ← (w.frame.allocate a data).addToProducerQueue (some a)
    return { w with frame, added := w.added ++ [(a, data)] }
  | .pushToIntermediateQueue => do
    let frame ← w.frame.pushToIntermediateQueue
    return { w with frame }
  | .pollFromIntermediateQueue => do
    let frame ← w.frame.pollFromIntermediateQueue
    return { w with frame }
  | .pollFromConsumerQueue => do
    let (cont, frame) ← w.frame.pollFromConsumerQueue
    match cont with
    | none => return { w with frame }
    | some a =>
      let packet ← load frame.heap (some a)
      return { w with
        frame, returned := w.returned ++ [(a, packet.data)], polled := a :: w.polled }
  | .deletePacket a => do
    let heap ← free w.frame.heap a
    return { w with frame := { w.frame with heap }, polled := w.polled.erase a }

def Step (w w' : World Addr α) : Prop := ∃ op, w.Enabled op ∧ w.perform op = some w'

/-- The frame holds `s`, and no polled packet is still in it or already freed. -/
structure Holds (w : World Addr α) (s : Stages (Addr × α)) : Prop where
  simulates : w.frame.Simulates s
  order : w.returned ++ s.contents = w.added
  nodup : w.polled.Nodup
  allocated : ∀ a ∈ w.polled, (w.frame.heap a).isSome
  apart : ∀ a ∈ w.polled, a ∉ s.contents.map Prod.fst

omit [DecidableEq Addr] in
theorem holds_init : (init : World Addr α).Holds Stages.empty :=
  ⟨EventQueueFrame.simulates_init, rfl, List.nodup_nil, by simp [init], by simp [init]⟩

variable {w : World Addr α} {s : Stages (Addr × α)}

omit [DecidableEq Addr] in
theorem Holds.move (h : w.Holds s) {frame : EventQueueFrame Addr α} {s' : Stages (Addr × α)}
    (hSimulates : frame.Simulates s') (hContents : s'.contents = s.contents)
    (hData : SameData w.frame.heap frame.heap) : Holds { w with frame } s' :=
  ⟨hSimulates, by rw [hContents, h.order], h.nodup,
    fun a ha => by rw [hData.isSome]; exact h.allocated a ha,
    fun a ha => by rw [hContents]; exact h.apart a ha⟩

theorem Holds.addToProducerQueue (h : w.Holds s) {a : Addr} (data : α)
    (hFresh : w.frame.heap a = none) :
    ∃ w', w.perform (.addToProducerQueue a data) = some w' ∧ w'.Holds (s.add (a, data)) := by
  obtain ⟨frame, hAdd, hSimulates, hData⟩ := h.simulates.addToProducerQueue data hFresh
  have hNe : ∀ b ∈ w.polled, b ≠ a := fun b hb hEq => by
    simpa [hEq, hFresh] using h.allocated b hb
  refine ⟨{ w with frame, added := w.added ++ [(a, data)] }, ?_, hSimulates, ?_, h.nodup,
    fun b hb => ?_, fun b hb => ?_⟩
  · simp [perform, hAdd]
  · rw [Stages.contents_add, ← List.append_assoc, h.order]
  · rw [hData.isSome, EventQueueFrame.allocate_of_ne _ _ (hNe b hb)]
    exact h.allocated b hb
  · simpa [hNe b hb] using h.apart b hb

theorem Holds.pollFromConsumerQueue (h : w.Holds s) :
    ∃ w', w.perform .pollFromConsumerQueue = some w' ∧ w'.Holds s.pollFromConsumer.2 := by
  cases hConsumer : s.consumer with
  | nil =>
    refine ⟨w, ?_, ?_⟩
    · simp [perform, h.simulates.pollFromConsumerQueue_nil hConsumer]
    · rwa [Stages.pollFromConsumer_nil hConsumer]
  | cons e l =>
    obtain ⟨a, x⟩ := e
    obtain ⟨frame, hPoll, hSimulates, hData, -, hNode⟩ :=
      h.simulates.pollFromConsumerQueue_cons hConsumer
    rw [← hData a, Option.map_eq_some_iff] at hNode
    obtain ⟨packet, hPacket, hx⟩ := hNode
    have hContents : s.contents = (a, x) :: Stages.contents { s with consumer := l } := by
      rw [Stages.contents, hConsumer]
      rfl
    have hNodup := h.simulates.nodup
    rw [hContents, List.map_cons, List.nodup_cons] at hNodup
    have hNotMem : a ∉ w.polled := fun ha => h.apart a ha (by simp [hContents])
    refine ⟨{ w with frame, returned := w.returned ++ [(a, x)], polled := a :: w.polled }, ?_, ?_⟩
    · simp [perform, hPoll, load, hPacket, hx]
    · rw [Stages.pollFromConsumer_cons hConsumer]
      refine ⟨hSimulates, ?_, List.nodup_cons.mpr ⟨hNotMem, h.nodup⟩, ?_, ?_⟩
      · rw [List.append_assoc, List.singleton_append, ← hContents, h.order]
      · rintro b hb
        rw [hData.isSome]
        cases List.mem_cons.mp hb with
        | inl hEq => rw [hEq, ← hData.isSome, hPacket]; rfl
        | inr hb => exact h.allocated b hb
      · rintro b hb
        cases List.mem_cons.mp hb with
        | inl hEq => rw [hEq]; exact hNodup.1
        | inr hb =>
          intro hMem
          apply h.apart b hb
          rw [hContents, List.map_cons]
          exact List.mem_cons_of_mem _ hMem

theorem Holds.deletePacket (h : w.Holds s) {a : Addr} (ha : a ∈ w.polled) :
    ∃ w', w.perform (.deletePacket a) = some w' ∧ w'.Holds s := by
  obtain ⟨node, hNode⟩ := Option.isSome_iff_exists.mp (h.allocated a ha)
  refine ⟨{ w with
    frame := { w.frame with heap := Function.update w.frame.heap a none }
    polled := w.polled.erase a }, ?_, h.simulates.update (h.apart a ha) none, h.order,
    h.nodup.erase a, fun b hb => ?_, fun b hb => h.apart b (List.mem_of_mem_erase hb)⟩
  · simp [perform, free, hNode]
  · have hMem := (h.nodup.mem_erase_iff).mp hb
    simpa [Function.update_of_ne hMem.1] using h.allocated b hMem.2

theorem Holds.perform (h : w.Holds s) {op : Op Addr α} (hEnabled : w.Enabled op) :
    ∃ w' s', w.perform op = some w' ∧ w'.Holds s' := by
  cases op with
  | addToProducerQueue a data =>
    obtain ⟨w', hw, h'⟩ := h.addToProducerQueue data hEnabled
    exact ⟨w', _, hw, h'⟩
  | pushToIntermediateQueue =>
    obtain ⟨frame, hPush, hSimulates, hData⟩ := h.simulates.pushToIntermediateQueue
    exact ⟨{ w with frame }, _, by simp [World.perform, hPush],
      h.move hSimulates s.contents_pushToIntermediate hData⟩
  | pollFromIntermediateQueue =>
    obtain ⟨frame, hPoll, hSimulates, hData⟩ := h.simulates.pollFromIntermediateQueue
    exact ⟨{ w with frame }, _, by simp [World.perform, hPoll],
      h.move hSimulates s.contents_pollFromIntermediate hData⟩
  | pollFromConsumerQueue =>
    obtain ⟨w', hw, h'⟩ := h.pollFromConsumerQueue
    exact ⟨w', _, hw, h'⟩
  | deletePacket a =>
    obtain ⟨w', hw, h'⟩ := h.deletePacket hEnabled
    exact ⟨w', _, hw, h'⟩

theorem holds_of_steps (h : Relation.ReflTransGen Step init w) : ∃ s, w.Holds s := by
  induction h with
  | refl => exact ⟨Stages.empty, holds_init⟩
  | tail _ hStep ih =>
    obtain ⟨s, hHolds⟩ := ih
    obtain ⟨op, hEnabled, hPerform⟩ := hStep
    obtain ⟨w', s', hPerform', hHolds'⟩ := hHolds.perform hEnabled
    cases hPerform.symm.trans hPerform'
    exact ⟨s', hHolds'⟩

/-- The three linked lists are one queue, and no operation goes wrong. -/
structure IsFifo (w : World Addr α) : Prop where
  order : ∃ consumer intermediate producer,
    Chain w.frame.heap w.frame.consumerQueue.head consumer ∧
    Chain w.frame.heap w.frame.intermediateQueue.head intermediate ∧
    Chain w.frame.heap w.frame.producerQueue.head producer ∧
    w.returned ++ consumer ++ intermediate ++ producer = w.added
  null : ∀ frame, w.frame.pollFromConsumerQueue = some (none, frame) →
    Chain w.frame.heap w.frame.consumerQueue.head []
  safe : ∀ op, w.Enabled op → (w.perform op).isSome
  staleTail : ∀ a frame, w.frame.pollFromConsumerQueue = some (some a, frame) →
    frame.consumerQueue.head = none → frame.consumerQueue.tail = some a

theorem Holds.isFifo (h : w.Holds s) : w.IsFifo where
  order := ⟨s.consumer, s.intermediate, s.producer, h.simulates.consumer.chain,
    h.simulates.intermediate.chain, h.simulates.producer.chain, by
      rw [← h.order, Stages.contents, List.append_assoc, List.append_assoc, List.append_assoc]⟩
  null := by
    intro frame hPoll
    cases hConsumer : s.consumer with
    | nil => exact hConsumer ▸ h.simulates.consumer.chain
    | cons e l =>
      obtain ⟨frame', hPoll', -⟩ := h.simulates.pollFromConsumerQueue_cons hConsumer
      cases hPoll.symm.trans hPoll'
  safe := by
    intro op hEnabled
    obtain ⟨w', s', hPerform, -⟩ := h.perform hEnabled
    rw [hPerform]
    rfl
  staleTail := by
    intro a frame hPoll hHead
    cases hConsumer : s.consumer with
    | nil =>
      rw [h.simulates.pollFromConsumerQueue_nil hConsumer] at hPoll
      cases hPoll
    | cons e l =>
      obtain ⟨b, x⟩ := e
      obtain ⟨frame', hPoll', hSimulates, -, hTail, -⟩ :=
        h.simulates.pollFromConsumerQueue_cons hConsumer
      cases hPoll.symm.trans hPoll'
      have hNil : l = [] := hSimulates.consumer.head_eq_none_iff.mp hHead
      rw [hTail]
      exact h.simulates.consumer.last (a, x) (by rw [hConsumer, hNil]; rfl)

theorem isFifo_of_steps {w : World Addr α} (h : Relation.ReflTransGen Step init w) :
    w.IsFifo := by
  obtain ⟨s, hHolds⟩ := holds_of_steps h
  exact hHolds.isFifo

/-- The second packet takes the address that the stale tail points at. -/
theorem isFifo_of_steps_reuse : ∃ w : World Nat Nat, w.IsFifo ∧
    w.added = [(0, 7), (0, 8)] ∧ w.returned = [(0, 7)] ∧ w.frame.consumerQueue.tail = some 0 := by
  have hRun : ∃ w : World Nat Nat, Relation.ReflTransGen Step init w ∧
      w.added = [(0, 7), (0, 8)] ∧ w.returned = [(0, 7)] ∧
      w.frame.consumerQueue.tail = some 0 := by
    refine ⟨_, .tail (.tail (.tail (.tail (.tail (.tail .refl
      ⟨.addToProducerQueue 0 7, rfl, rfl⟩) ⟨.pushToIntermediateQueue, trivial, rfl⟩)
      ⟨.pollFromIntermediateQueue, trivial, rfl⟩) ⟨.pollFromConsumerQueue, trivial, rfl⟩)
      ⟨.deletePacket 0, List.mem_singleton_self 0, rfl⟩) ⟨.addToProducerQueue 0 8, rfl, rfl⟩,
      rfl, rfl, rfl⟩
  obtain ⟨w, hSteps, hw⟩ := hRun
  exact ⟨w, isFifo_of_steps hSteps, hw⟩

end World

end CStabilizer.ThreadUtil
