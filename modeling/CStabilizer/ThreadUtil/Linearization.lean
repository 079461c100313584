import CStabilizer.ThreadUtil.FlowControl
import CStabilizer.ThreadUtil.QueueCalls

/-! # The event queue under interleaved accesses

Any number of threads use the event queue, and the accesses of one call may lie
between those of others. One thread alone adds packets without the lock, or all that
add take it, and one thread polls. No two accesses race then, and every run is one
of calls that happen at once, first in and first out. -/

namespace CStabilizer.ThreadUtil

open CStabilizer.Library.Accesses CStabilizer.Library.Atomicity

universe u

variable {Addr α : Type u} {Thread : Type*}

/-! ## Histories -/

abbrev History (Thread : Type*) (Addr α : Type u) :=
  List (Thread × Call Addr α × Option (Addr × α))

def stagesOf (history : History Thread Addr α) : Stages (Addr × α) :=
  history.foldl (fun stages x => x.2.1.advance stages) Stages.empty

def addedIn (history : History Thread Addr α) : List (Addr × α) :=
  history.flatMap fun x => match x.2.1 with
    | .addToProducerQueue packet | .addToProducerQueueWithLock packet => [packet]
    | _ => []

def returnedIn (history : History Thread Addr α) : List (Addr × α) :=
  history.flatMap fun x => match x.2.1 with
    | .pollFromConsumerQueue => x.2.2.toList
    | _ => []

theorem stagesOf_concat (history : History Thread Addr α) (t : Thread) (call : Call Addr α)
    (result : Option (Addr × α)) :
    stagesOf (history ++ [(t, call, result)]) = call.advance (stagesOf history) := by
  simp [stagesOf]

/-- The three queues are one, first in and first out. -/
theorem fifo_concat {history : History Thread Addr α}
    (h : returnedIn history ++ (stagesOf history).contents = addedIn history) (t : Thread)
    (call : Call Addr α) :
    returnedIn (history ++ [(t, call, call.answer (stagesOf history))]) ++
        (call.advance (stagesOf history)).contents =
      addedIn (history ++ [(t, call, call.answer (stagesOf history))]) := by
  rw [returnedIn, addedIn, List.flatMap_append, List.flatMap_append]
  change returnedIn history ++ _ ++ _ = addedIn history ++ _
  rw [← h, List.append_assoc, List.append_assoc]
  congr 1
  cases call with
  | newEventDataPacket => simp [Call.advance]
  | deleteEventDataPacket => simp [Call.advance]
  | addToProducerQueue packet => simp [Call.advance]
  | addToProducerQueueWithLock packet => simp [Call.advance]
  | pushToIntermediateQueue => simp [Call.advance]
  | pollFromIntermediateQueue => simp [Call.advance]
  | pollFromConsumerQueue =>
    simpa [Call.advance, Call.answer] using (stagesOf history).pollFromConsumer_contents

variable [DecidableEq Addr] [DecidableEq Thread]

def heldIn (history : History Thread Addr α) (t : Thread) : List (Addr × α) :=
  Call.heldBy (logOf history t)

theorem heldIn_concat (history : History Thread Addr α) (t : Thread) (call : Call Addr α)
    (result : Option (Addr × α)) :
    heldIn (history ++ [(t, call, result)]) =
      Function.update (heldIn history) t (call.hold (heldIn history t) result) := by
  funext t'
  obtain rfl | hNe := eq_or_ne t' t
  · rw [Function.update_self, heldIn, logOf_concat_self, Call.heldBy, List.foldl_concat]
    rfl
  · rw [Function.update_of_ne hNe, heldIn, logOf_concat_of_ne _ _ _ hNe]
    rfl

/-! ## Ownership -/

/-- The memory is a frame that the queues and the threads share out among themselves. -/
def Shared (memory : Memory (Cell Addr α)) (history : History Thread Addr α) : Prop :=
  ∃ frame : EventQueueFrame Addr α, memory = frame.memory ∧
    Possession frame (stagesOf history) (heldIn history) ∧
    returnedIn history ++ (stagesOf history).contents = addedIn history

def region (roles : Roles Thread) (history : History Thread Addr α) (o : Thread ⊕ Mutex) :
    Set (Location Addr) :=
  {l | ∃ p : Place Thread, p.owner roles = o ∧ l ∈ p.locations (stagesOf history) (heldIn history)}

def discipline (roles : Roles Thread) :
    Discipline (Call.operations roles)
      (EventQueueFrame.init : EventQueueFrame Addr α).memory where
  Inv w := Shared w.memory w.history
  region w := region roles w.history
  init := ⟨EventQueueFrame.init, rfl, possession_init, rfl⟩
  unique := by
    rintro w o o' l ⟨frame, -, hPossession, -⟩ ⟨p, rfl, hl⟩ ⟨p', rfl, hl'⟩
    rw [hPossession.location_unique hl hl']
  perform := by
    rintro w t call m ⟨frame, hMemory, hPossession, hFifo⟩ hAllowed hEnters
    rw [hMemory] at hEnters
    obtain ⟨frame', hRun, hPossession', hCovered⟩ := hPossession.perform hAllowed rfl hEnters
    rw [← stagesOf_concat w.history t call (call.answer (stagesOf w.history)),
      ← heldIn_concat] at hPossession' hCovered
    refine ⟨_, _, hRun, ⟨frame', rfl, hPossession', ?_⟩, ?_, ?_, ?_⟩
    · rw [stagesOf_concat]
      exact fifo_concat hFifo t call
    · intro l hl
      obtain ⟨p, hTouches, hl⟩ := hCovered l hl
      obtain hThread | ⟨k, hLock, hOwner⟩ := Call.owner_of_touches hAllowed hTouches
      · exact .inl ⟨p, hThread, hl⟩
      · exact .inr ⟨k, hLock, p, hOwner, hl⟩
    · intro cells hFree l hl
      cases call with
      | deleteEventDataPacket a =>
        cases hFree
        obtain ⟨x, hx⟩ := hAllowed
        exact ⟨.hand t, rfl, (a, x), hx, hl⟩
      | newEventDataPacket => cases hFree
      | addToProducerQueue => cases hFree
      | addToProducerQueueWithLock => cases hFree
      | pushToIntermediateQueue => cases hFree
      | pollFromIntermediateQueue => cases hFree
      | pollFromConsumerQueue => cases hFree
    · rintro o hThread hLock l ⟨p, rfl, hl⟩
      refine ⟨p, rfl, ?_⟩
      rw [stagesOf_concat, heldIn_concat, Call.locations_advance]
      · exact hl
      · intro hTouches
        obtain hOwner | ⟨k, hCall, hOwner⟩ := Call.owner_of_touches hAllowed hTouches
        · exact hThread hOwner
        · exact hLock k hOwner hCall

/-! ## Runs -/

abbrev QueueState (Thread : Type*) (Addr α : Type u) :=
  State Thread (Call Addr α) Mutex (Cell Addr α) (Option (Addr × α))

def QueueStep (roles : Roles Thread) : QueueState Thread Addr α → QueueState Thread Addr α → Prop :=
  Step (Call.operations roles)

def initialQueue : QueueState Thread Addr α := State.init EventQueueFrame.init.memory

/-- The calls so far as calls that happen at once, one after the other, and the frame they leave. -/
structure Linearizes (roles : Roles Thread) (s : QueueState Thread Addr α)
    (history : History Thread Addr α) (frame : EventQueueFrame Addr α) : Prop where
  performed : Relation.ReflTransGen (Atomic.Step (Call.operations roles))
    ⟨EventQueueFrame.init.memory, []⟩ ⟨frame.memory, history⟩
  finished : ∀ t, s.control t = none → logOf history t = s.log t
  inProgress : ∀ t call c, s.control t = some (call, c) →
    ∃ result, logOf history t = s.log t ++ [(call, result)]
  fifo : returnedIn history ++ (stagesOf history).contents = addedIn history
  simulates : frame.Simulates (stagesOf history)
  /-- What no call in progress is still to access is as in the frame. -/
  settled : ∀ l, (∀ t call c, s.control t = some (call, c) → l ∉ c.footprint s.memory) →
    s.memory l = frame.memory l
  atRest : (∀ t, s.control t = none) → s.memory = frame.memory

variable {roles : Roles Thread} {s s' : QueueState Thread Addr α}

theorem exists_linearizes {w : Atomic Thread (Call Addr α) (Cell Addr α) (Option (Addr × α))}
    (h : Follows (discipline roles) s w)
    (hSteps : Relation.ReflTransGen (Atomic.Step (Call.operations roles))
      ⟨EventQueueFrame.init.memory, []⟩ w) :
    ∃ frame, Linearizes roles s w.history frame := by
  obtain ⟨frame, hMemory, hPossession, hFifo⟩ := h.inv
  refine ⟨frame, hMemory ▸ hSteps, h.atRest, ?_, hFifo, hPossession.simulates, ?_, ?_⟩
  · intro t call c hControl
    obtain ⟨result, -, -, hLog, -⟩ := h.busy t call c hControl
    exact ⟨result, hLog⟩
  · intro l hl
    rw [← h.others l hl, hMemory]
  · intro hRest
    exact (h.memory_eq hRest).symm.trans hMemory

theorem exists_follows (h : Relation.ReflTransGen (QueueStep roles) initialQueue s) :
    ∃ w, Relation.ReflTransGen (Atomic.Step (Call.operations roles))
      ⟨EventQueueFrame.init.memory, []⟩ w ∧ Follows (discipline roles) s w :=
  Follows.steps (follows_init (D := discipline roles)) h

/-- The receiver is adding its first packet while the processing thread polls. -/
theorem exists_overlap : ∃ s : QueueState CStabilizer.ThreadUtil.Thread ℕ ℕ,
    Relation.ReflTransGen (QueueStep ⟨some .receiver, .processor⟩) initialQueue s ∧
    (∃ c, s.control .receiver = some (.addToProducerQueue (0, 7), c) ∧
      c.access = some ⟨.head .producer, true⟩) ∧
    ∃ c, s.control .processor = some (.pollFromConsumerQueue, c) ∧
      c.access = some ⟨.head .consumer, false⟩ := by
  let ops : Operations CStabilizer.ThreadUtil.Thread (Call ℕ ℕ) Mutex _ _ :=
    Call.operations ⟨some .receiver, .processor⟩
  have hNew : Relation.ReflTransGen (Step ops) initialQueue _ :=
    .single (.start Thread.receiver (Call.newEventDataPacket 0 7) rfl trivial nofun
      (Call.enters_new_of_fresh 7 rfl))
  have hFinish := hNew.tail (.finish Thread.receiver rfl)
  have hAdd := hFinish.tail (.start Thread.receiver (Call.addToProducerQueue (0, 7)) rfl
    ⟨rfl, List.mem_singleton_self _⟩ nofun ⟨fun _ _ => rfl, trivial⟩)
  have hRead := hAdd.tail (.access Thread.receiver rfl rfl)
  have hPoll := hRead.tail (.start Thread.processor Call.pollFromConsumerQueue rfl rfl nofun
    ⟨fun _ _ => rfl, trivial⟩)
  exact ⟨_, hPoll, ⟨_, rfl, rfl⟩, ⟨_, rfl, rfl⟩⟩

/-- Each call takes effect at once between its start and its end, and the queue is one list. -/
theorem event_queue_linearizable
    (h : Relation.ReflTransGen (QueueStep roles) initialQueue s) :
    ∃ history frame, Linearizes roles s history frame ∧
      ∀ s', Relation.ReflTransGen (QueueStep roles) s s' →
        ∃ history' frame', history <+: history' ∧ Linearizes roles s' history' frame' := by
  obtain ⟨w, hAtomic, hFollows⟩ := exists_follows h
  obtain ⟨frame, hLinearizes⟩ := exists_linearizes hFollows hAtomic
  refine ⟨w.history, frame, hLinearizes, ?_⟩
  intro s' hSteps
  obtain ⟨w', hAtomic', hFollows'⟩ := hFollows.steps hSteps
  obtain ⟨frame', hLinearizes'⟩ := exists_linearizes hFollows' (hAtomic.trans hAtomic')
  exact ⟨w'.history, frame', Atomic.history_of_steps hAtomic', hLinearizes'⟩

theorem event_queue_linearizable_overlap :
    ∃ (s : QueueState CStabilizer.ThreadUtil.Thread ℕ ℕ) (history : _) (frame : _),
      (∃ c, s.control .receiver = some (.addToProducerQueue (0, 7), c)) ∧
      (∃ c, s.control .processor = some (.pollFromConsumerQueue, c)) ∧
      Linearizes ⟨some .receiver, .processor⟩ s history frame := by
  obtain ⟨s, hSteps, ⟨c, hReceiver, -⟩, c', hProcessor, -⟩ := exists_overlap
  obtain ⟨history, frame, hLinearizes, -⟩ := event_queue_linearizable hSteps
  exact ⟨s, history, frame, ⟨c, hReceiver⟩, ⟨c', hProcessor⟩, hLinearizes⟩

/-- A call in progress is past its lock, and its thread needs no other to finish it. -/
theorem event_queue_safe (h : Relation.ReflTransGen (QueueStep roles) initialQueue s) :
    s.Safe ∧ ∀ t call c, s.control t = some (call, c) →
      ∃ s' result, Relation.ReflTransGen (StepOf (Call.operations roles) t) s s' ∧
        s'.control = Function.update s.control t none ∧
        s'.log = Function.update s.log t (s.log t ++ [(call, result)]) := by
  obtain ⟨w, -, hFollows⟩ := exists_follows h
  exact ⟨hFollows.safe, fun t call c hControl => hFollows.completes hControl⟩

theorem event_queue_safe_overlap :
    ∃ s : QueueState CStabilizer.ThreadUtil.Thread ℕ ℕ,
      (∃ c, s.control .receiver = some (.addToProducerQueue (0, 7), c) ∧
        c.access = some ⟨.head .producer, true⟩) ∧
      (∃ c, s.control .processor = some (.pollFromConsumerQueue, c) ∧
        c.access = some ⟨.head .consumer, false⟩) ∧ s.Safe := by
  obtain ⟨s, hSteps, hReceiver, hProcessor⟩ := exists_overlap
  exact ⟨s, hReceiver, hProcessor, (event_queue_safe hSteps).1⟩

end CStabilizer.ThreadUtil
