import CStabilizer.ThreadUtil.QueueAccesses

/-! # Who holds a packet

Threads hold the packets that they have allocated or polled and have not added or
deleted yet. A packet in hand has no successor, is in no queue and in no other
thread's hand, and every operation of the queue keeps it so. -/

namespace CStabilizer.ThreadUtil

open CStabilizer.Library.Accesses CStabilizer.Library.LinkedList

universe u

variable {Addr α : Type u} {Thread : Type*}

/-- Every packet is in one place: a queue or the hands of one thread. -/
structure Possession (frame : EventQueueFrame Addr α) (stages : Stages (Addr × α))
    (held : Thread → List (Addr × α)) : Prop where
  simulates : frame.Simulates stages
  packet : ∀ t, ∀ e ∈ held t, frame.heap e.1 = some ⟨e.2, none⟩
  apart : ∀ t, ∀ e ∈ held t, e.1 ∉ stages.contents.map Prod.fst
  exclusive : ∀ t t' e e', e ∈ held t → e' ∈ held t' → e.1 = e'.1 → t = t'

theorem heap_eq_of_memory {frame frame' : EventQueueFrame Addr α} {a : Addr}
    (hData : frame'.memory (.data a) = frame.memory (.data a))
    (hNext : frame'.memory (.next a) = frame.memory (.next a)) : frame'.heap a = frame.heap a := by
  rw [EventQueueFrame.memory_data, EventQueueFrame.memory_data] at hData
  rw [EventQueueFrame.memory_next, EventQueueFrame.memory_next] at hNext
  cases h : frame.heap a with
  | none => rwa [h, Option.map_none, Option.map_eq_none_iff] at hData
  | some node =>
    cases h' : frame'.heap a with
    | none => simp [h, h'] at hData
    | some node' =>
      rw [h, h', Option.map_some, Option.map_some, Option.some.injEq] at hData hNext
      cases node
      cases node'
      cases hData
      cases hNext
      rfl

theorem data_not_mem_queueCells {q : QueueName} {l : List (Addr × α)} {a : Addr}
    (h : a ∉ l.map Prod.fst) : .data a ∉ QueueAccesses.queueCells q l := by
  rintro ((hEq | hEq) | ⟨e, he, hEq | hEq⟩)
  · cases hEq
  · cases hEq
  · cases hEq
    exact h (List.mem_map_of_mem he)
  · cases hEq

theorem next_not_mem_queueCells {q : QueueName} {l : List (Addr × α)} {a : Addr}
    (h : a ∉ l.map Prod.fst) : .next a ∉ QueueAccesses.queueCells q l := by
  rintro ((hEq | hEq) | ⟨e, he, hEq | hEq⟩)
  · cases hEq
  · cases hEq
  · cases hEq
  · cases hEq
    exact h (List.mem_map_of_mem he)

variable [DecidableEq Addr] {frame frame' : EventQueueFrame Addr α} {stages : Stages (Addr × α)}
  {held : Thread → List (Addr × α)}

theorem heap_eq_of_run {ρ : Type u} {c : Code (Cell Addr α) ρ} {r : ρ} {a : Addr}
    {S : Set (Location Addr)} (hRun : c.run frame.memory = some (r, frame'.memory))
    (hFootprint : c.footprint frame.memory ⊆ S) (hData : .data a ∉ S) (hNext : .next a ∉ S) :
    frame'.heap a = frame.heap a :=
  heap_eq_of_memory (Code.run_frame hRun fun h => hData (hFootprint h))
    (Code.run_frame hRun fun h => hNext (hFootprint h))

omit [DecidableEq Addr] in
theorem possession_init :
    Possession (EventQueueFrame.init : EventQueueFrame Addr α) Stages.empty
      (fun _ : Thread => []) where
  simulates := EventQueueFrame.simulates_init
  packet _ _ he := by cases he
  apart _ _ he := by cases he
  exclusive _ _ _ _ he := by cases he

namespace Possession

variable [DecidableEq Thread]

omit [DecidableEq Addr] in
theorem mem_take {t t' : Thread} {e e' : Addr × α}
    (he : e ∈ Function.update held t (e' :: held t) t') : t' = t ∧ e = e' ∨ e ∈ held t' := by
  obtain rfl | hNe := eq_or_ne t' t
  · rw [Function.update_self] at he
    exact (List.mem_cons.mp he).imp_left fun hEq => ⟨rfl, hEq⟩
  · rw [Function.update_of_ne hNe] at he
    exact .inr he

theorem newEventDataPacket (h : Possession frame stages held) (t : Thread) {a : Addr} (x : α)
    (hFresh : frame.heap a = none) :
    Possession (frame.allocate a x) stages (Function.update held t ((a, x) :: held t)) := by
  have hNotMem : a ∉ stages.contents.map Prod.fst :=
    fun hMem => by simpa [hFresh] using h.simulates.isSome hMem
  have hHeld : ∀ t', ∀ e ∈ held t', e.1 ≠ a := by
    intro t' e he hEq
    have hPacket := h.packet t' e he
    rw [hEq, hFresh] at hPacket
    cases hPacket
  refine ⟨h.simulates.update hNotMem _, ?_, ?_, ?_⟩
  · intro t' e he
    obtain ⟨-, rfl⟩ | he := mem_take he
    · exact Function.update_self ..
    · rw [EventQueueFrame.allocate_of_ne _ _ (hHeld t' e he)]
      exact h.packet t' e he
  · intro t' e he
    obtain ⟨-, rfl⟩ | he := mem_take he
    · exact hNotMem
    · exact h.apart t' e he
  · intro t₁ t₂ e e' he he' hEq
    obtain ⟨rfl, rfl⟩ | hOld := mem_take he
    · obtain ⟨rfl, -⟩ | hOld' := mem_take he'
      · rfl
      · exact absurd hEq.symm (hHeld t₂ e' hOld')
    · obtain ⟨rfl, rfl⟩ | hOld' := mem_take he'
      · exact absurd hEq (hHeld t₁ e hOld)
      · exact h.exclusive t₁ t₂ e e' hOld hOld' hEq

/-- What is left of the packets in hand when a thread gives one away. -/
theorem mem_release (h : Possession frame stages held) {t t' : Thread} {a : Addr} {x : α}
    (ha : (a, x) ∈ held t) {e : Addr × α}
    (he : e ∈ Function.update held t ((held t).filter (·.1 ≠ a)) t') : e ∈ held t' ∧ e.1 ≠ a := by
  obtain rfl | hNe := eq_or_ne t' t
  · rw [Function.update_self, List.mem_filter] at he
    exact ⟨he.1, of_decide_eq_true he.2⟩
  · rw [Function.update_of_ne hNe] at he
    exact ⟨he, fun hEq => hNe (h.exclusive t' t e (a, x) he ha hEq)⟩

theorem addToProducerQueue (h : Possession frame stages held) {t : Thread} {a : Addr} {x : α}
    (ha : (a, x) ∈ held t) :
    ∃ frame', frame.addToProducerQueue (some a) = some frame' ∧
      Possession frame' (stages.add (a, x))
        (Function.update held t ((held t).filter (·.1 ≠ a))) := by
  -- The packet could have been allocated only now.
  have hBefore := h.simulates.update (h.apart t _ ha) none
  obtain ⟨frame', hAdd, hSimulates, -⟩ :=
    hBefore.addToProducerQueue x (Function.update_self ..)
  have hFrame : EventQueueFrame.allocate
      { frame with heap := Function.update frame.heap a none } a x = frame := by
    have hHeap : Function.update frame.heap a (some ⟨x, none⟩) = frame.heap := by
      rw [Function.update_eq_self_iff]
      exact (h.packet t _ ha).symm
    rw [EventQueueFrame.allocate, Function.update_idem, ThreadUtil.newEventDataPacket, hHeap]
  rw [hFrame] at hAdd
  have hRun := @QueueAccesses.run_addToProducerQueue Addr α _ frame (some a)
  rw [hAdd, Option.map_some] at hRun
  refine ⟨frame', hAdd, hSimulates, ?_, ?_, ?_⟩
  · intro t' e he
    obtain ⟨he, -⟩ := h.mem_release ha he
    have hNotMem : e.1 ∉ stages.producer.map Prod.fst := by
      intro hMem
      apply h.apart t' e he
      rw [Stages.contents, List.map_append]
      exact List.mem_append_right _ hMem
    rw [← h.packet t' e he]
    exact heap_eq_of_run hRun (QueueAccesses.footprint_pushToQueue h.simulates.producer _)
      (data_not_mem_queueCells hNotMem) (next_not_mem_queueCells hNotMem)
  · intro t' e he
    obtain ⟨he, hNe⟩ := h.mem_release ha he
    rw [Stages.contents_add, List.map_append, List.mem_append, not_or]
    exact ⟨h.apart t' e he, by simpa using hNe⟩
  · intro t₁ t₂ e e' he he'
    exact h.exclusive t₁ t₂ e e' (h.mem_release ha he).1 (h.mem_release ha he').1

theorem deleteEventDataPacket (h : Possession frame stages held) {t : Thread} {a : Addr} {x : α}
    (ha : (a, x) ∈ held t) :
    Possession (frame.setHeap (Function.update frame.heap a none)) stages
      (Function.update held t ((held t).filter (·.1 ≠ a))) where
  simulates := h.simulates.update (h.apart t _ ha) none
  packet t' e he := by
    obtain ⟨he, hNe⟩ := h.mem_release ha he
    exact (Function.update_of_ne hNe ..).trans (h.packet t' e he)
  apart t' e he := h.apart t' e (h.mem_release ha he).1
  exclusive t₁ t₂ e e' he he' :=
    h.exclusive t₁ t₂ e e' (h.mem_release ha he).1 (h.mem_release ha he').1

omit [DecidableEq Thread] in
/-- A move from one queue to the next leaves the packets in hand alone. -/
theorem moveQueue (h : Possession frame stages held) {dst src : QueueName}
    {l r : List (Addr × α)} {stages' : Stages (Addr × α)}
    (hRun : (QueueAccesses.moveQueue dst src).run frame.memory = some (⟨⟩, frame'.memory))
    (hDst : Represents frame.heap (frame.queue dst) l)
    (hSubset : l ++ r ⊆ stages.contents) (hSimulates : frame'.Simulates stages')
    (hContents : stages'.contents = stages.contents) : Possession frame' stages' held where
  simulates := hSimulates
  packet t e he := by
    have hNotMem : e.1 ∉ (l ++ r).map Prod.fst :=
      fun hMem => h.apart t e he (List.map_subset _ hSubset hMem)
    rw [List.map_append, List.mem_append, not_or] at hNotMem
    rw [← h.packet t e he]
    refine heap_eq_of_run hRun (QueueAccesses.footprint_moveQueue hDst src r) ?_ ?_
    · exact fun hMem =>
        hMem.elim (data_not_mem_queueCells hNotMem.1) (data_not_mem_queueCells hNotMem.2)
    · exact fun hMem =>
        hMem.elim (next_not_mem_queueCells hNotMem.1) (next_not_mem_queueCells hNotMem.2)
  apart t e he := by
    rw [hContents]
    exact h.apart t e he
  exclusive := h.exclusive

omit [DecidableEq Thread] in
theorem pushToIntermediateQueue (h : Possession frame stages held) :
    ∃ frame', frame.pushToIntermediateQueue = some frame' ∧
      Possession frame' stages.pushToIntermediate held := by
  obtain ⟨frame', hPush, hSimulates, -⟩ := h.simulates.pushToIntermediateQueue
  have hRun := @QueueAccesses.run_pushToIntermediateQueue Addr α _ frame
  rw [hPush, Option.map_some] at hRun
  have hSubset : stages.intermediate ++ stages.producer ⊆ stages.contents := by
    rw [Stages.contents, List.append_assoc]
    exact List.subset_append_right ..
  exact ⟨frame', hPush, h.moveQueue hRun h.simulates.intermediate hSubset hSimulates
    stages.contents_pushToIntermediate⟩

omit [DecidableEq Thread] in
theorem pollFromIntermediateQueue (h : Possession frame stages held) :
    ∃ frame', frame.pollFromIntermediateQueue = some frame' ∧
      Possession frame' stages.pollFromIntermediate held := by
  obtain ⟨frame', hPoll, hSimulates, -⟩ := h.simulates.pollFromIntermediateQueue
  have hRun := @QueueAccesses.run_pollFromIntermediateQueue Addr α _ frame
  rw [hPoll, Option.map_some] at hRun
  exact ⟨frame', hPoll, h.moveQueue hRun h.simulates.consumer (List.subset_append_left ..)
    hSimulates stages.contents_pollFromIntermediate⟩

omit [DecidableEq Thread] in
theorem pollFromConsumerQueue_nil (h : Possession frame stages held) (hNil : stages.consumer = []) :
    frame.pollFromConsumerQueue = some (none, frame) ∧ stages.pollFromConsumer = (none, stages) :=
  ⟨h.simulates.pollFromConsumerQueue_nil hNil, Stages.pollFromConsumer_nil hNil⟩

theorem pollFromConsumerQueue_cons (h : Possession frame stages held) (t : Thread) {a : Addr}
    {x : α} {l : List (Addr × α)} (hCons : stages.consumer = (a, x) :: l) :
    ∃ frame', frame.pollFromConsumerQueue = some (some a, frame') ∧
      frame'.heap a = some ⟨x, none⟩ ∧
      Possession frame' { stages with consumer := l }
        (Function.update held t ((a, x) :: held t)) := by
  obtain ⟨frame', hPoll, hSimulates, -, -, hData⟩ :=
    h.simulates.pollFromConsumerQueue_cons hCons
  obtain ⟨node, hNode, rfl⟩ := Option.map_eq_some_iff.mp hData
  have hHeap : frame'.heap = Function.update frame.heap a (some { node with next := none }) := by
    have hHead := (hCons ▸ h.simulates.consumer).chain.1
    rw [EventQueueFrame.pollFromConsumerQueue, unlink, hHead] at hPoll
    simp only [load, Option.bind_some, hNode, setNext, Option.map_some, Option.bind_eq_bind,
      Option.pure_def, Option.some.injEq, Prod.mk.injEq, true_and] at hPoll
    rw [← hPoll]
  have hContents : stages.contents = (a, node.data) :: Stages.contents { stages with consumer := l } := by
    rw [Stages.contents, hCons]
    rfl
  have hNodup := h.simulates.nodup
  rw [hContents, List.map_cons, List.nodup_cons] at hNodup
  have hHeld : ∀ t', ∀ e ∈ held t', e.1 ≠ a ∧
      e.1 ∉ (Stages.contents { stages with consumer := l }).map Prod.fst := by
    intro t' e he
    have hApart := h.apart t' e he
    rw [hContents, List.map_cons, List.mem_cons, not_or] at hApart
    exact hApart
  refine ⟨frame', hPoll, by rw [hHeap, Function.update_self], hSimulates, ?_, ?_, ?_⟩
  · intro t' e he
    obtain ⟨-, rfl⟩ | he := mem_take he
    · rw [hHeap, Function.update_self]
    · rw [hHeap, Function.update_of_ne (hHeld t' e he).1]
      exact h.packet t' e he
  · intro t' e he
    obtain ⟨-, rfl⟩ | he := mem_take he
    · exact hNodup.1
    · exact (hHeld t' e he).2
  · intro t₁ t₂ e e' he he' hEq
    obtain ⟨rfl, rfl⟩ | hOld := mem_take he
    · obtain ⟨rfl, -⟩ | hOld' := mem_take he'
      · rfl
      · exact absurd hEq.symm (hHeld t₂ e' hOld').1
    · obtain ⟨rfl, rfl⟩ | hOld' := mem_take he'
      · exact absurd hEq (hHeld t₁ e hOld).1
      · exact h.exclusive t₁ t₂ e e' hOld hOld' hEq

end Possession

end CStabilizer.ThreadUtil
