import CStabilizer.ThreadUtil.FlowControl

/-! # No lost wakeup

Both threads sleep on one condition variable, for different reasons. A signal can
therefore wake the wrong thread, but only one of them ever sleeps unsignalled. -/

namespace CStabilizer.ThreadUtil.System

open CStabilizer.Library.ConditionVariable

universe u

variable {α : Type u}

def ReceiverSleeps (sys : System α) : Prop :=
  (∃ packet, sys.receiver = .waiting packet) ∧ .receiver ∈ sys.cond.waiters

def ProcessorSleeps (sys : System α) : Prop :=
  (∃ n, sys.processor = .waiting n) ∧ .processor ∈ sys.cond.waiters

/-- A waiter's condition still fails, and only the receiver's own push is outstanding. -/
structure Awake (capacity : UInt64) (sys : System α) : Prop where
  receiver : .receiver ∈ sys.cond.waiters →
    (∃ packet, sys.receiver = .waiting packet) ∧ capacity ≤ sys.cond.obectSize
  processor : .processor ∈ sys.cond.waiters →
    (∃ n, sys.processor = .waiting n) ∧ sys.cond.obectSize = 0
  producer : sys.receiver ≠ .added → sys.stages.producer = []

theorem awake_init (capacity : UInt64) : (init capacity : System α).Awake capacity :=
  ⟨by simp [init], by simp [init], fun _ => rfl⟩

variable {capacity : UInt64} {sys sys' : System α}

theorem Awake.not_mem_of_increasing (h : sys.Awake capacity) {packet : α}
    (hIncreasing : sys.Increasing packet) : .receiver ∉ sys.cond.waiters := by
  intro hMem
  obtain ⟨⟨packet', hWaiting⟩, -⟩ := h.receiver hMem
  obtain hReady | ⟨-, hNotMem⟩ := hIncreasing
  · rw [hReady] at hWaiting
    cases hWaiting
  · exact hNotMem hMem

theorem Awake.not_mem_of_decreasing (h : sys.Awake capacity) {n : Nat}
    (hDecreasing : sys.Decreasing n) : .processor ∉ sys.cond.waiters := by
  intro hMem
  obtain ⟨⟨n', hWaiting⟩, -⟩ := h.processor hMem
  obtain hReady | ⟨-, hNotMem⟩ := hDecreasing
  · rw [hReady] at hWaiting
    cases hWaiting
  · exact hNotMem hMem

theorem eq_empty_of_signal {waiters waiters' : Finset Thread} {t : Thread}
    (hSignal : Signal waiters waiters') (ht : t ∉ waiters) : waiters' = ∅ := by
  cases t with
  | receiver =>
    apply hSignal.eq_empty (t := .processor)
    intro t' hMem
    cases t' with
    | receiver => exact absurd hMem ht
    | processor => rfl
  | processor =>
    apply hSignal.eq_empty (t := .receiver)
    intro t' hMem
    cases t' with
    | receiver => rfl
    | processor => exact absurd hMem ht

theorem Increasing.ne_added {packet : α} (h : sys.Increasing packet) : sys.receiver ≠ .added := by
  obtain h | ⟨h, -⟩ := h <;> rw [h] <;> nofun

theorem Awake.increaseWaits (h : sys.Awake capacity) (hMax : sys.cond.maxQueueCapacity = capacity)
    {packet : α} (hIncreasing : sys.Increasing packet) {cond : QueueSizeCondition}
    (hCond : increaseQueueSize .receiver (.ofNat sizeOfEventPacket) sys.cond .waits cond) :
    Awake capacity { sys with cond, receiver := .waiting packet } := by
  obtain ⟨hFull, rfl⟩ := hCond
  exact ⟨fun _ => ⟨⟨packet, rfl⟩, hMax ▸ hFull⟩, fun hMem => h.processor (by simpa using hMem),
    fun _ => h.producer hIncreasing.ne_added⟩

theorem Awake.increaseLeaves (h : sys.Awake capacity) {packet : α}
    (hIncreasing : sys.Increasing packet) {cond : QueueSizeCondition}
    (hCond : increaseQueueSize .receiver (.ofNat sizeOfEventPacket) sys.cond .leaves cond) :
    Awake capacity { sys with cond, receiver := .reserved packet } := by
  obtain ⟨-, waiters, hSignal, rfl⟩ := hCond
  have hEmpty := eq_empty_of_signal hSignal (h.not_mem_of_increasing hIncreasing)
  exact ⟨by simp [hEmpty], by simp [hEmpty], fun _ => h.producer hIncreasing.ne_added⟩

theorem Awake.decreaseWaits (h : sys.Awake capacity) {n : Nat} {cond : QueueSizeCondition}
    (hCond : decreaseQueueSize .processor (amount n) sys.cond .waits cond) :
    Awake capacity { sys with cond, processor := .waiting n } := by
  obtain ⟨hZero, rfl⟩ := hCond
  exact ⟨fun hMem => h.receiver (by simpa using hMem), fun _ => ⟨⟨n, rfl⟩, hZero⟩, h.producer⟩

theorem Awake.decreaseLeaves (h : sys.Awake capacity) {n : Nat} (hDecreasing : sys.Decreasing n)
    {cond : QueueSizeCondition}
    (hCond : decreaseQueueSize .processor (amount n) sys.cond .leaves cond) :
    Awake capacity { sys with cond, processor := .start } := by
  obtain ⟨-, waiters, hSignal, rfl⟩ := hCond
  have hEmpty := eq_empty_of_signal hSignal (h.not_mem_of_decreasing hDecreasing)
  exact ⟨by simp [hEmpty], by simp [hEmpty], h.producer⟩

theorem Awake.ofReceiver (h : sys.Awake capacity) (hReceiver : ∀ packet, sys.receiver ≠ .waiting packet)
    {stages : Stages α} {receiver : Receiver α}
    (hProducer : receiver ≠ .added → stages.producer = []) :
    Awake capacity { sys with stages, receiver } := by
  refine ⟨fun hMem => ?_, h.processor, hProducer⟩
  obtain ⟨⟨packet, hWaiting⟩, -⟩ := h.receiver hMem
  exact absurd hWaiting (hReceiver packet)

theorem Awake.ofProcessor (h : sys.Awake capacity) (hProcessor : ∀ n, sys.processor ≠ .waiting n)
    {stages : Stages α} {processor : Processor} (hProducer : stages.producer = sys.stages.producer) :
    Awake capacity { sys with stages, processor } := by
  refine ⟨h.receiver, fun hMem => ?_, fun hReceiver => hProducer.trans (h.producer hReceiver)⟩
  obtain ⟨⟨n, hWaiting⟩, -⟩ := h.processor hMem
  exact absurd hWaiting (hProcessor n)

theorem Awake.step (h : sys.Awake capacity) (hMax : sys.cond.maxQueueCapacity = capacity)
    (hStep : Step sys sys') : sys'.Awake capacity := by
  cases hStep with
  | increaseWaits hIncreasing hCond => exact h.increaseWaits hMax hIncreasing hCond
  | increaseLeaves hIncreasing hCond => exact h.increaseLeaves hIncreasing hCond
  | addToProducerQueue hReceiver =>
    exact h.ofReceiver (by rw [hReceiver]; nofun) fun hNe => absurd rfl hNe
  | pushToIntermediateQueue hReceiver => exact h.ofReceiver (by rw [hReceiver]; nofun) fun _ => rfl
  | pollFromIntermediateQueue hProcessor => exact h.ofProcessor (by rw [hProcessor]; nofun) rfl
  | process hProcessor hPoll =>
    have hProducer := sys.stages.pollFromConsumer_producer
    rw [hPoll] at hProducer
    exact h.ofProcessor (by rw [hProcessor]; nofun) hProducer
  | processed hProcessor hPoll =>
    have hProducer := sys.stages.pollFromConsumer_producer
    rw [hPoll] at hProducer
    exact h.ofProcessor (by rw [hProcessor]; nofun) hProducer
  | decreaseWaits hDecreasing hCond => exact h.decreaseWaits hCond
  | decreaseLeaves hDecreasing hCond => exact h.decreaseLeaves hDecreasing hCond
  | spuriousWakeup =>
    exact ⟨fun hMem => h.receiver (Finset.mem_of_mem_erase hMem),
      fun hMem => h.processor (Finset.mem_of_mem_erase hMem), h.producer⟩

theorem awake_of_steps (hCapacity : capacity.toNat < 2 ^ 30)
    (h : Relation.ReflTransGen Step (init capacity) sys) : sys.Awake capacity := by
  induction h with
  | refl => exact awake_init capacity
  | tail hSteps hStep ih => exact ih.step (accounted_of_steps hCapacity hSteps).maxQueueCapacity hStep

theorem no_lost_wakeup {capacity : UInt64} {sys : System α} (hPositive : 0 < capacity)
    (hCapacity : capacity.toNat < 2 ^ 30)
    (h : Relation.ReflTransGen Step (init capacity) sys) :
    ¬(sys.ReceiverSleeps ∧ sys.ProcessorSleeps) ∧
    (sys.ProcessorSleeps → reserved sys.receiver = 0 ∧ sys.stages.producer = [] ∧
      sys.stages.intermediate = [] ∧ sys.stages.consumer = []) ∧
    (sys.ReceiverSleeps → 0 < sys.stages.intermediate.length + sys.stages.consumer.length +
      notSubtracted sys.processor) := by
  have hAwake := awake_of_steps hCapacity h
  have hSize := (accounted_of_steps hCapacity h).obectSize
  rw [inFlight, Stages.contents, List.length_append, List.length_append] at hSize
  rw [UInt64.lt_iff_toNat_lt, UInt64.toNat_zero] at hPositive
  refine ⟨?_, ?_, ?_⟩
  · rintro ⟨⟨-, hReceiver⟩, -, hProcessor⟩
    have hFull := (hAwake.receiver hReceiver).2
    rw [(hAwake.processor hProcessor).2, UInt64.le_iff_toNat_le, UInt64.toNat_zero] at hFull
    omega
  · rintro ⟨-, hProcessor⟩
    rw [(hAwake.processor hProcessor).2, UInt64.toNat_zero] at hSize
    exact ⟨by omega, List.length_eq_zero_iff.mp (by omega), List.length_eq_zero_iff.mp (by omega),
      List.length_eq_zero_iff.mp (by omega)⟩
  · rintro ⟨⟨packet, hWaiting⟩, hReceiver⟩
    have hFull := (hAwake.receiver hReceiver).2
    have hProducer := hAwake.producer (by simp [hWaiting])
    rw [UInt64.le_iff_toNat_le] at hFull
    have hReserved : reserved sys.receiver = 0 := by rw [hWaiting]; rfl
    rw [hReserved, hProducer, List.length_nil] at hSize
    omega

theorem no_lost_wakeup_full : ∃ sys : System Nat, sys.ReceiverSleeps ∧ ¬sys.ProcessorSleeps ∧
    0 < sys.stages.intermediate.length + sys.stages.consumer.length +
      notSubtracted sys.processor := by
  have hRun : ∃ sys : System Nat, Relation.ReflTransGen Step (init 24) sys ∧
      sys.ReceiverSleeps := by
    refine ⟨_, .tail (.tail (.tail (.tail .refl
      (.increaseLeaves (show Increasing _ 7 from .inl rfl) ⟨by decide, ∅, .nobody, rfl⟩))
      (.addToProducerQueue rfl)) (.pushToIntermediateQueue rfl))
      (.increaseWaits (show Increasing _ 8 from .inl rfl) ⟨by decide, rfl⟩), ⟨8, rfl⟩, by decide⟩
  obtain ⟨sys, hSteps, hSleeps⟩ := hRun
  obtain ⟨hBoth, -, hReceiver⟩ := no_lost_wakeup (by decide) (by decide) hSteps
  exact ⟨sys, hSleeps, fun hProcessor => hBoth ⟨hSleeps, hProcessor⟩, hReceiver hSleeps⟩

end CStabilizer.ThreadUtil.System
