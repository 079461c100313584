import CStabilizer.Library.ConditionVariable
import CStabilizer.ThreadUtil.Fifo

/-! # Flow control between the two threads

The receiver reserves room for a packet, adds it and pushes it on. The processing
thread takes packets until its queue is empty and then gives their room back. A
section under a mutex is one step, and a wait splits its section in two. -/

namespace CStabilizer.ThreadUtil

open CStabilizer.Library.ConditionVariable

universe u

inductive Thread where
  | receiver
  | processor
  deriving DecidableEq

structure QueueSizeCondition where
  obectSize : UInt64
  maxQueueCapacity : UInt64
  waiters : Finset Thread

inductive Section where
  | waits
  | leaves

/-- What a thread does from the moment it has the mutex until it gives it up. -/
def increaseQueueSize (t : Thread) (value : UInt32) (cond : QueueSizeCondition) :
    Section → QueueSizeCondition → Prop
  | .waits, cond' => cond.maxQueueCapacity ≤ cond.obectSize ∧
      cond' = { cond with waiters := insert t cond.waiters }
  | .leaves, cond' => ¬cond.maxQueueCapacity ≤ cond.obectSize ∧
      ∃ waiters, Signal cond.waiters waiters ∧
        cond' = { cond with obectSize := cond.obectSize + value.toUInt64, waiters }

def decreaseQueueSize (t : Thread) (value : UInt32) (cond : QueueSizeCondition) :
    Section → QueueSizeCondition → Prop
  | .waits, cond' => cond.obectSize = 0 ∧
      cond' = { cond with waiters := insert t cond.waiters }
  | .leaves, cond' => cond.obectSize ≠ 0 ∧
      ∃ waiters, Signal cond.waiters waiters ∧
        cond' = { cond with obectSize := cond.obectSize - value.toUInt64, waiters }

def sizeOfEventPacket : Nat := 24

inductive Receiver (α : Type u) where
  | ready
  | waiting (packet : α)
  | reserved (packet : α)
  | added

inductive Processor where
  | start
  | polling (processedMsg : Nat)
  | decreasing (processedMsg : Nat)
  | waiting (processedMsg : Nat)

structure System (α : Type u) where
  cond : QueueSizeCondition
  stages : Stages α
  receiver : Receiver α
  processor : Processor

namespace System

variable {α : Type u}

def init (capacity : UInt64) : System α := ⟨⟨0, capacity, ∅⟩, Stages.empty, .ready, .start⟩

def Increasing (sys : System α) (packet : α) : Prop :=
  sys.receiver = .ready ∨ sys.receiver = .waiting packet ∧ .receiver ∉ sys.cond.waiters

def Decreasing (sys : System α) (processedMsg : Nat) : Prop :=
  sys.processor = .decreasing processedMsg ∨
    sys.processor = .waiting processedMsg ∧ .processor ∉ sys.cond.waiters

/-- `l_iProcessedMsg * 24`, passed on as an unsigned int. -/
def amount (processedMsg : Nat) : UInt32 := UInt32.ofNat (processedMsg * 24)

inductive Step : System α → System α → Prop
  | increaseWaits {sys : System α} {packet : α} {cond : QueueSizeCondition}
      (h : sys.Increasing packet)
      (hCond : increaseQueueSize .receiver (.ofNat sizeOfEventPacket) sys.cond .waits cond) :
      Step sys { sys with cond, receiver := .waiting packet }
  | increaseLeaves {sys : System α} {packet : α} {cond : QueueSizeCondition}
      (h : sys.Increasing packet)
      (hCond : increaseQueueSize .receiver (.ofNat sizeOfEventPacket) sys.cond .leaves cond) :
      Step sys { sys with cond, receiver := .reserved packet }
  | addToProducerQueue {sys : System α} {packet : α} (h : sys.receiver = .reserved packet) :
      Step sys { sys with stages := sys.stages.add packet, receiver := .added }
  | pushToIntermediateQueue {sys : System α} (h : sys.receiver = .added) :
      Step sys { sys with stages := sys.stages.pushToIntermediate, receiver := .ready }
  | pollFromIntermediateQueue {sys : System α} (h : sys.processor = .start) :
      Step sys { sys with stages := sys.stages.pollFromIntermediate, processor := .polling 0 }
  | process {sys : System α} {processedMsg : Nat} {packet : α} {stages : Stages α}
      (h : sys.processor = .polling processedMsg)
      (hPoll : sys.stages.pollFromConsumer = (some packet, stages)) :
      Step sys { sys with stages, processor := .polling (processedMsg + 1) }
  | processed {sys : System α} {processedMsg : Nat} {stages : Stages α}
      (h : sys.processor = .polling processedMsg)
      (hPoll : sys.stages.pollFromConsumer = (none, stages)) :
      Step sys { sys with stages, processor := .decreasing processedMsg }
  | decreaseWaits {sys : System α} {processedMsg : Nat} {cond : QueueSizeCondition}
      (h : sys.Decreasing processedMsg)
      (hCond : decreaseQueueSize .processor (amount processedMsg) sys.cond .waits cond) :
      Step sys { sys with cond, processor := .waiting processedMsg }
  | decreaseLeaves {sys : System α} {processedMsg : Nat} {cond : QueueSizeCondition}
      (h : sys.Decreasing processedMsg)
      (hCond : decreaseQueueSize .processor (amount processedMsg) sys.cond .leaves cond) :
      Step sys { sys with cond, processor := .start }
  | spuriousWakeup {sys : System α} {t : Thread} (h : t ∈ sys.cond.waiters) :
      Step sys { sys with cond := { sys.cond with waiters := sys.cond.waiters.erase t } }

def reserved : Receiver α → Nat
  | .reserved _ => 1
  | _ => 0

def notSubtracted : Processor → Nat
  | .start => 0
  | .polling n | .decreasing n | .waiting n => n

def inFlight (sys : System α) : Nat :=
  reserved sys.receiver + sys.stages.contents.length + notSubtracted sys.processor

/-- The size is exact, and the processing thread waits only with nothing to give back. -/
structure Accounted (capacity : UInt64) (sys : System α) : Prop where
  maxQueueCapacity : sys.cond.maxQueueCapacity = capacity
  obectSize : sys.cond.obectSize.toNat = 24 * sys.inFlight
  bound : sys.cond.obectSize.toNat < capacity.toNat + 24
  idle : ∀ n, sys.processor = .waiting n → n = 0

theorem accounted_init (capacity : UInt64) : (init capacity : System α).Accounted capacity :=
  ⟨rfl, rfl, by simp [init], by simp [init]⟩

theorem toNat_amount {n : Nat} (h : n * 24 < 2 ^ 32) :
    (amount n).toUInt64.toNat = n * 24 := by
  rw [UInt32.toNat_toUInt64, amount, UInt32.toNat_ofNat', Nat.mod_eq_of_lt h]

variable {capacity : UInt64} {sys sys' : System α}

theorem Increasing.reserved_eq {packet : α} (h : sys.Increasing packet) :
    reserved sys.receiver = 0 := by
  obtain h | ⟨h, -⟩ := h <;> rw [h] <;> rfl

theorem Decreasing.notSubtracted_eq {n : Nat} (h : sys.Decreasing n) :
    notSubtracted sys.processor = n := by
  obtain h | ⟨h, -⟩ := h <;> rw [h] <;> rfl

theorem Accounted.amount_le (h : sys.Accounted capacity) {n : Nat} (hDecreasing : sys.Decreasing n) :
    n * 24 ≤ sys.cond.obectSize.toNat := by
  rw [h.obectSize, inFlight, hDecreasing.notSubtracted_eq]
  omega

theorem Accounted.increaseLeaves (h : sys.Accounted capacity) (hCapacity : capacity.toNat < 2 ^ 30)
    {packet : α} (hIncreasing : sys.Increasing packet) {cond : QueueSizeCondition}
    (hCond : increaseQueueSize .receiver (.ofNat sizeOfEventPacket) sys.cond .leaves cond) :
    Accounted capacity { sys with cond, receiver := .reserved packet } := by
  obtain ⟨hRoom, waiters, -, rfl⟩ := hCond
  rw [UInt64.le_iff_toNat_le, h.maxQueueCapacity, Nat.not_le] at hRoom
  have hValue : (UInt32.ofNat sizeOfEventPacket).toUInt64.toNat = 24 := rfl
  have hSize : (sys.cond.obectSize + (UInt32.ofNat sizeOfEventPacket).toUInt64).toNat =
      sys.cond.obectSize.toNat + 24 := by
    rw [UInt64.toNat_add, hValue, Nat.mod_eq_of_lt (by omega)]
  refine ⟨h.maxQueueCapacity, ?_, ?_, h.idle⟩
  · have hReserved := hIncreasing.reserved_eq
    have hInFlight := h.obectSize
    simp only [inFlight, hReserved] at hInFlight
    simp only [inFlight, hSize, hInFlight, reserved]
    omega
  · simp only [hSize]
    omega

theorem Accounted.decreaseLeaves (h : sys.Accounted capacity) (hCapacity : capacity.toNat < 2 ^ 30)
    {n : Nat} (hDecreasing : sys.Decreasing n) {cond : QueueSizeCondition}
    (hCond : decreaseQueueSize .processor (amount n) sys.cond .leaves cond) :
    Accounted capacity { sys with cond, processor := .start } := by
  obtain ⟨-, waiters, -, rfl⟩ := hCond
  have hLe := h.amount_le hDecreasing
  have hBound := h.bound
  have hAmount := toNat_amount (n := n) (by omega)
  have hSize : (sys.cond.obectSize - (amount n).toUInt64).toNat =
      sys.cond.obectSize.toNat - n * 24 := by
    rw [UInt64.toNat_sub_of_le _ _ (by rwa [UInt64.le_iff_toNat_le, hAmount]), hAmount]
  refine ⟨h.maxQueueCapacity, ?_, ?_, by simp⟩
  · have hInFlight := h.obectSize
    simp only [inFlight, hDecreasing.notSubtracted_eq] at hInFlight
    simp only [inFlight, hSize, hInFlight, notSubtracted]
    omega
  · simp only [hSize]
    omega

theorem Accounted.decreaseWaits (h : sys.Accounted capacity) {n : Nat}
    (hDecreasing : sys.Decreasing n) {cond : QueueSizeCondition}
    (hCond : decreaseQueueSize .processor (amount n) sys.cond .waits cond) : n = 0 := by
  have hLe := h.amount_le hDecreasing
  rw [hCond.1, UInt64.toNat_zero] at hLe
  omega

theorem Accounted.of_inFlight (h : sys.Accounted capacity) {stages : Stages α}
    {receiver : Receiver α} {processor : Processor}
    (hIdle : ∀ n, processor = .waiting n → sys.processor = .waiting n)
    (hInFlight : reserved receiver + stages.contents.length + notSubtracted processor =
      sys.inFlight) : Accounted capacity ⟨sys.cond, stages, receiver, processor⟩ :=
  ⟨h.maxQueueCapacity, h.obectSize.trans (congrArg _ hInFlight.symm), h.bound,
    fun n hn => h.idle n (hIdle n hn)⟩

theorem Accounted.step (h : sys.Accounted capacity) (hCapacity : capacity.toNat < 2 ^ 30)
    (hStep : Step sys sys') : sys'.Accounted capacity := by
  cases hStep with
  | increaseWaits hIncreasing hCond =>
    obtain ⟨-, rfl⟩ := hCond
    have hInFlight := h.obectSize
    rw [inFlight, hIncreasing.reserved_eq] at hInFlight
    exact ⟨h.maxQueueCapacity, hInFlight, h.bound, h.idle⟩
  | increaseLeaves hIncreasing hCond => exact h.increaseLeaves hCapacity hIncreasing hCond
  | addToProducerQueue hReceiver =>
    apply h.of_inFlight (fun _ hn => hn)
    simp only [inFlight, hReceiver, reserved, Stages.contents_add, List.length_append,
      List.length_singleton]
    omega
  | pushToIntermediateQueue hReceiver =>
    apply h.of_inFlight (fun _ hn => hn)
    rw [Stages.contents_pushToIntermediate, inFlight, hReceiver]
    rfl
  | pollFromIntermediateQueue hProcessor =>
    apply h.of_inFlight (by simp)
    rw [Stages.contents_pollFromIntermediate, inFlight, hProcessor]
    rfl
  | @process n packet stages hProcessor hPoll =>
    have hContents := sys.stages.pollFromConsumer_contents
    rw [hPoll] at hContents
    apply h.of_inFlight (by simp)
    simp only [inFlight, hProcessor, notSubtracted, ← hContents, Option.toList_some,
      List.length_append, List.length_singleton]
    omega
  | @processed n stages hProcessor hPoll =>
    have hContents := sys.stages.pollFromConsumer_contents
    rw [hPoll] at hContents
    apply h.of_inFlight (by simp)
    rw [inFlight, hProcessor, ← hContents]
    rfl
  | decreaseWaits hDecreasing hCond =>
    have hZero := h.decreaseWaits hDecreasing hCond
    obtain ⟨-, rfl⟩ := hCond
    have hInFlight := h.obectSize
    rw [inFlight, hDecreasing.notSubtracted_eq] at hInFlight
    exact ⟨h.maxQueueCapacity, hInFlight, h.bound, fun n hn => by cases hn; exact hZero⟩
  | decreaseLeaves hDecreasing hCond => exact h.decreaseLeaves hCapacity hDecreasing hCond
  | spuriousWakeup => exact ⟨h.maxQueueCapacity, h.obectSize, h.bound, h.idle⟩

theorem accounted_of_steps (hCapacity : capacity.toNat < 2 ^ 30)
    (h : Relation.ReflTransGen Step (init capacity) sys) : sys.Accounted capacity := by
  induction h with
  | refl => exact accounted_init capacity
  | tail _ hStep ih => exact ih.step hCapacity hStep

theorem flowControl {capacity : UInt64} {sys : System α} (hCapacity : capacity.toNat < 2 ^ 30)
    (h : Relation.ReflTransGen Step (init capacity) sys) :
    sys.cond.obectSize.toNat = sizeOfEventPacket * sys.inFlight ∧
    sys.cond.obectSize.toNat < capacity.toNat + sizeOfEventPacket ∧
    ∀ n, sys.Decreasing n → n * 24 < 2 ^ 31 ∧
      (amount n).toUInt64.toNat ≤ sys.cond.obectSize.toNat ∧
      ∀ cond, decreaseQueueSize .processor (amount n) sys.cond .waits cond → amount n = 0 := by
  have hAccounted := accounted_of_steps hCapacity h
  refine ⟨hAccounted.obectSize, hAccounted.bound, fun n hDecreasing => ?_⟩
  have hLe := hAccounted.amount_le hDecreasing
  have hBound := hAccounted.bound
  refine ⟨by omega, by rwa [toNat_amount (by omega)], fun cond hCond => ?_⟩
  rw [hAccounted.decreaseWaits hDecreasing hCond]
  rfl

theorem flowControl_packet : ∃ sys : System Nat, sys.processor = .decreasing 1 ∧
    sys.cond.obectSize.toNat = sizeOfEventPacket * sys.inFlight ∧
    (amount 1).toUInt64.toNat ≤ sys.cond.obectSize.toNat := by
  have hRun : ∃ sys : System Nat, Relation.ReflTransGen Step (init 50000) sys ∧
      sys.processor = .decreasing 1 := by
    refine ⟨_, .tail (.tail (.tail (.tail (.tail (.tail .refl
      (.increaseLeaves (show Increasing _ 7 from .inl rfl) ⟨by decide, ∅, .nobody, rfl⟩))
      (.addToProducerQueue rfl)) (.pushToIntermediateQueue rfl))
      (.pollFromIntermediateQueue rfl)) (.process rfl rfl)) (.processed rfl rfl), rfl⟩
  obtain ⟨sys, hSteps, hProcessor⟩ := hRun
  obtain ⟨hSize, -, hDecrease⟩ := flowControl (by decide) hSteps
  exact ⟨sys, hProcessor, hSize, (hDecrease 1 (.inl hProcessor)).2.1⟩

end System

end CStabilizer.ThreadUtil
