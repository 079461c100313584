import CStabilizer.MultiplexerServer.Refinement

/-! # The threads come to rest only when everything is handled

From every state the threads can finish on their own: without new data and
without a spurious wakeup, `main` runs to its end, the receiver decodes what it
has received, and the processing thread handles what was pushed and falls
asleep. -/

namespace CStabilizer.MultiplexerServer.Stabilizer

open CStabilizer.Library.ConditionVariable
open CStabilizer.Library.CString CStabilizer.Library.Memory CStabilizer.Library.Segments
open CStabilizer.ServerAPI CStabilizer.ThreadUtil
open CStabilizer.ProcessingThread (Events Syscalls Output messages)

variable {ι : Type}

/-- The processing thread has worked on its own, with the results `sys` of its system calls. -/
structure Aside (sys : Syscalls) (s s' : Stabilizer ι) : Prop where
  pending : s'.pending = s.pending
  decoding : s'.decoding = s.decoding
  server : s'.server = s.server
  chunks : s'.chunks = s.chunks
  receiver : s'.system.receiver = s.system.receiver
  producer : s'.system.stages.producer = s.system.stages.producer
  handled : ∀ event ∈ s'.handled, event ∈ s.handled ∨ event.2 = sys

theorem Aside.refl (sys : Syscalls) (s : Stabilizer ι) : Aside sys s s :=
  ⟨rfl, rfl, rfl, rfl, rfl, rfl, fun _ => .inl⟩

theorem Aside.trans {sys : Syscalls} {s s' s'' : Stabilizer ι} (h : Aside sys s s')
    (h' : Aside sys s' s'') : Aside sys s s'' where
  pending := h'.pending.trans h.pending
  decoding := h'.decoding.trans h.decoding
  server := h'.server.trans h.server
  chunks := h'.chunks.trans h.chunks
  receiver := h'.receiver.trans h.receiver
  producer := h'.producer.trans h.producer
  handled := fun event hEvent => (h'.handled event hEvent).elim (h.handled event) .inr

/-- Nothing but the receiver's last packet is in flight. -/
structure Drained (s : Stabilizer ι) : Prop where
  consumer : s.system.stages.consumer = []
  intermediate : s.system.stages.intermediate = []
  processor : System.notSubtracted s.system.processor = 0

def Asleep (s : Stabilizer ι) : Prop :=
  s.system.processor = .waiting 0 ∧ .processor ∈ s.system.cond.waiters

/-- `main` has done its work, and the other threads wait for something to do. -/
structure Quiescent (s : Stabilizer ι) : Prop where
  main : s.pending = []
  receiver : s.decoding = .epoll
  processor : s.system.ProcessorSleeps

section Runs

variable [DecidableEq ι] {alloc : Allocator UInt8} {garbage : Garbage} {args : Arguments}
  {s s' : Stabilizer ι}

def Runs (args : Arguments) : Stabilizer ι → Stabilizer ι → Prop :=
  Relation.ReflTransGen (Advance args)

theorem Runs.steps (alloc : Allocator UInt8) (hRuns : Runs args s s') :
    Relation.ReflTransGen (Step alloc args) s s' := by
  induction hRuns with
  | refl => exact .refl
  | tail _ hStep ih => exact ih.tail (.inl hStep)

theorem Runs.reachable (hRuns : Runs args s s') (h : s.Reachable alloc args garbage) :
    s'.Reachable alloc args garbage := h.trans (hRuns.steps alloc)

theorem exists_signal (waiters : Finset Thread) : ∃ waiters', Signal waiters waiters' := by
  obtain rfl | ⟨t, ht⟩ := waiters.eq_empty_or_nonempty
  · exact ⟨∅, .nobody⟩
  · exact ⟨_, .wake ht⟩

/-! ## The processing thread -/

theorem advance_process (sys : Syscalls) {n : Nat} {message : ReceivedMessage}
    {consumer : List ReceivedMessage} (hProcessor : s.system.processor = .polling n)
    (hConsumer : s.system.stages.consumer = message :: consumer) :
    ∃ s', Advance args s s' ∧ Aside sys s s' ∧ s'.system.processor = .polling (n + 1) ∧
      s'.system.stages.consumer = consumer ∧
      s'.system.stages.intermediate = s.system.stages.intermediate := by
  refine ⟨_, .process sys hProcessor (Stages.pollFromConsumer_cons hConsumer),
    ⟨rfl, rfl, rfl, rfl, rfl, rfl, fun event hEvent => ?_⟩, rfl, rfl, rfl⟩
  obtain hOld | hNew := List.mem_append.mp hEvent
  · exact .inl hOld
  · rw [List.mem_singleton.mp hNew]
    exact .inr rfl

variable (args) in
theorem runs_polling (sys : Syscalls) {n : Nat} (hProcessor : s.system.processor = .polling n) :
    ∃ s', Runs args s s' ∧ Aside sys s s' ∧
      s'.system.processor = .decreasing (n + s.system.stages.consumer.length) ∧
      s'.system.stages.consumer = [] ∧
      s'.system.stages.intermediate = s.system.stages.intermediate := by
  induction hConsumer : s.system.stages.consumer generalizing s n with
  | nil =>
    exact ⟨_, .single (.processed hProcessor (Stages.pollFromConsumer_nil hConsumer)),
      ⟨rfl, rfl, rfl, rfl, rfl, rfl, fun _ => .inl⟩, rfl, hConsumer, rfl⟩
  | cons message consumer ih =>
    obtain ⟨s₁, hStep, hAside, hPolling, hRest, hSame⟩ := advance_process sys hProcessor hConsumer
    obtain ⟨s', hRuns, hAside', hDone, hEmpty, hSame'⟩ := ih hPolling hRest
    refine ⟨s', .head hStep hRuns, hAside.trans hAside', ?_, hEmpty, hSame'.trans hSame⟩
    rw [hDone, List.length_cons, Nat.add_assoc, Nat.add_comm 1]

/-- The end of a pass: the thread is at its start again, or it had nothing to give back. -/
theorem runs_decreasing (h : s.Reachable alloc args garbage) (sys : Syscalls) {n : Nat}
    (hDecreasing : s.system.Decreasing n) :
    ∃ s', Runs args s s' ∧ Aside sys s s' ∧ s'.system.stages = s.system.stages ∧
      (s'.system.processor = .start ∧ 0 < s.system.inFlight ∨ s'.Asleep) := by
  have hSize := (accounted_of_reachable h).obectSize
  by_cases hZero : s.system.cond.obectSize = 0
  · have hCond : decreaseQueueSize .processor (System.amount n) s.system.cond .waits
        { s.system.cond with waiters := insert .processor s.system.cond.waiters } := ⟨hZero, rfl⟩
    obtain rfl := (accounted_of_reachable h).decreaseWaits hDecreasing hCond
    exact ⟨_, .single (.decreaseWaits hDecreasing hCond),
      ⟨rfl, rfl, rfl, rfl, rfl, rfl, fun _ => .inl⟩, rfl, .inr ⟨rfl, Finset.mem_insert_self ..⟩⟩
  · obtain ⟨waiters, hSignal⟩ := exists_signal s.system.cond.waiters
    refine ⟨_, .single (.decreaseLeaves hDecreasing ⟨hZero, waiters, hSignal, rfl⟩),
      ⟨rfl, rfl, rfl, rfl, rfl, rfl, fun _ => .inl⟩, rfl, .inl ⟨rfl, ?_⟩⟩
    have hPositive : s.system.cond.obectSize.toNat ≠ 0 := fun hEq =>
      hZero (UInt64.toNat_inj.mp (hEq.trans UInt64.toNat_zero.symm))
    omega

theorem drained_of_asleep (h : s.Reachable alloc args garbage) (hAsleep : s.Asleep) :
    s.Drained := by
  have hSize := (accounted_of_reachable h).obectSize
  rw [((awake_of_reachable h).processor hAsleep.2).2, UInt64.toNat_zero, System.inFlight,
    Stages.contents, List.length_append, List.length_append] at hSize
  exact ⟨List.length_eq_zero_iff.mp (by omega), List.length_eq_zero_iff.mp (by omega), by omega⟩

theorem runs_pass (h : s.Reachable alloc args garbage) (sys : Syscalls) {n : Nat}
    (hPolling : s.system.processor = .polling n) :
    ∃ s', Runs args s s' ∧ Aside sys s s' ∧ s'.system.stages.consumer = [] ∧
      s'.system.stages.intermediate = s.system.stages.intermediate ∧
      (s'.system.processor = .start ∧ 0 < s.system.inFlight ∨ s'.Asleep) := by
  obtain ⟨s₁, hRuns, hAside, hDecreasing, hConsumer, hIntermediate⟩ :=
    runs_polling args sys hPolling
  obtain ⟨s', hRuns', hAside', hStages, hRest⟩ :=
    runs_decreasing (hRuns.reachable h) sys (.inl hDecreasing)
  have hInFlight : s₁.system.inFlight = s.system.inFlight := by
    rw [System.inFlight, System.inFlight, Stages.contents, Stages.contents, hAside.receiver,
      hAside.producer, hConsumer, hIntermediate, hDecreasing, hPolling]
    simp only [List.length_append, List.length_nil, System.notSubtracted]
    omega
  rw [hInFlight] at hRest
  exact ⟨s', hRuns.trans hRuns', hAside.trans hAside', by rw [hStages, hConsumer],
    by rw [hStages, hIntermediate], hRest⟩

/-- A whole pass of `StartProcesser`. -/
theorem runs_start (h : s.Reachable alloc args garbage) (sys : Syscalls)
    (hStart : s.system.processor = .start) :
    ∃ s', Runs args s s' ∧ Aside sys s s' ∧ s'.Drained ∧
      (s'.system.processor = .start ∧ 0 < s.system.inFlight ∨ s'.Asleep) := by
  obtain ⟨s₁, hPoll, hAside, hPolling, hIntermediate, hInFlight⟩ : ∃ s₁, Advance args s s₁ ∧
      Aside sys s s₁ ∧ s₁.system.processor = .polling 0 ∧ s₁.system.stages.intermediate = [] ∧
      s₁.system.inFlight = s.system.inFlight := by
    refine ⟨_, .pollFromIntermediateQueue hStart, ⟨rfl, rfl, rfl, rfl, rfl, rfl, fun _ => .inl⟩,
      rfl, rfl, ?_⟩
    rw [System.inFlight, System.inFlight, Stages.contents_pollFromIntermediate, hStart]
    rfl
  have hRuns₁ : Runs args s s₁ := .single hPoll
  obtain ⟨s', hRuns, hAside', hConsumer, hSame, hRest⟩ :=
    runs_pass (hRuns₁.reachable h) sys hPolling
  rw [hInFlight] at hRest
  refine ⟨s', hRuns₁.trans hRuns, hAside.trans hAside', ⟨hConsumer, hSame.trans hIntermediate, ?_⟩,
    hRest⟩
  obtain ⟨hStart', -⟩ | ⟨hWaiting, -⟩ := hRest
  · rw [hStart']
    rfl
  · rw [hWaiting]
    rfl

theorem runs_rest (h : s.Reachable alloc args garbage) (sys : Syscalls) :
    ∃ s', Runs args s s' ∧ Aside sys s s' ∧ (s'.system.processor = .start ∨ s'.Asleep) := by
  cases hProcessor : s.system.processor with
  | start => exact ⟨s, .refl, .refl sys s, .inl hProcessor⟩
  | polling n =>
    obtain ⟨s', hRuns, hAside, -, -, hRest⟩ := runs_pass h sys hProcessor
    exact ⟨s', hRuns, hAside, hRest.imp_left And.left⟩
  | decreasing n =>
    obtain ⟨s', hRuns, hAside, -, hRest⟩ := runs_decreasing h sys (.inl hProcessor)
    exact ⟨s', hRuns, hAside, hRest.imp_left And.left⟩
  | waiting n =>
    by_cases hAsleep : .processor ∈ s.system.cond.waiters
    · obtain rfl := (accounted_of_reachable h).idle n hProcessor
      exact ⟨s, .refl, .refl sys s, .inr ⟨hProcessor, hAsleep⟩⟩
    · obtain ⟨s', hRuns, hAside, -, hRest⟩ := runs_decreasing h sys (.inr ⟨hProcessor, hAsleep⟩)
      exact ⟨s', hRuns, hAside, hRest.imp_left And.left⟩

theorem runs_drained (h : s.Reachable alloc args garbage) (sys : Syscalls) :
    ∃ s', Runs args s s' ∧ Aside sys s s' ∧ s'.Drained ∧
      (s'.system.processor = .start ∨ s'.Asleep) := by
  obtain ⟨s₁, hRuns, hAside, hStart | hAsleep⟩ := runs_rest h sys
  · obtain ⟨s', hRuns', hAside', hDrained, hRest⟩ := runs_start (hRuns.reachable h) sys hStart
    exact ⟨s', hRuns.trans hRuns', hAside.trans hAside', hDrained, hRest.imp_left And.left⟩
  · exact ⟨s₁, hRuns, hAside, drained_of_asleep (hRuns.reachable h) hAsleep, .inr hAsleep⟩

theorem inFlight_of_drained (h : s.Reachable alloc args garbage) (hDrained : s.Drained)
    (hReserved : System.reserved s.system.receiver = 0) (hAdded : s.system.receiver ≠ .added) :
    s.system.inFlight = 0 := by
  rw [System.inFlight, hReserved, hDrained.processor, Stages.contents, hDrained.consumer,
    hDrained.intermediate, (awake_of_reachable h).producer hAdded]
  rfl

theorem runs_asleep (h : s.Reachable alloc args garbage) (sys : Syscalls)
    (hReady : s.system.receiver = .ready) : ∃ s', Runs args s s' ∧ Aside sys s s' ∧ s'.Asleep := by
  obtain ⟨s₁, hRuns₁, hAside₁, hDrained, hStart | hAsleep⟩ := runs_drained h sys
  · have h₁ := hRuns₁.reachable h
    have hReady₁ := hAside₁.receiver.trans hReady
    have hZero := inFlight_of_drained h₁ hDrained (by rw [hReady₁]; rfl) (by rw [hReady₁]; nofun)
    obtain ⟨s₂, hRuns₂, hAside₂, -, ⟨-, hPositive⟩ | hAsleep⟩ := runs_start h₁ sys hStart
    · omega
    · exact ⟨s₂, hRuns₁.trans hRuns₂, hAside₁.trans hAside₂, hAsleep⟩
  · exact ⟨s₁, hRuns₁, hAside₁, hAsleep⟩

/-! ## The receiver -/

/-- The state in which the receiver comes back from the queue calls. -/
structure Passed (sys : Syscalls) (c : ι) (n : Int) (s s' : Stabilizer ι) : Prop where
  decoding : s'.decoding = .closing c n
  pending : s'.pending = s.pending
  server : s'.server = s.server
  chunks : s'.chunks = s.chunks
  handled : ∀ event ∈ s'.handled, event ∈ s.handled ∨ event.2 = sys

theorem runs_added (sys : Syscalls) {c : ι} {message : ReceivedMessage} {n : Int}
    (hQueueing : s.decoding = .queueing c message n) (hAdded : s.system.receiver = .added) :
    ∃ s', Runs args s s' ∧ Passed sys c n s s' :=
  ⟨_, .single (.pushToIntermediateQueue hQueueing hAdded), rfl, rfl, rfl, rfl, fun _ => .inl⟩

theorem runs_reserved (sys : Syscalls) {c : ι} {message : ReceivedMessage} {n : Int}
    (hQueueing : s.decoding = .queueing c message n)
    (hReserved : s.system.receiver = .reserved message) :
    ∃ s', Runs args s s' ∧ Passed sys c n s s' := by
  refine ⟨_, .head (.addToProducerQueue hReserved) (.single (.pushToIntermediateQueue hQueueing rfl)),
    rfl, rfl, rfl, rfl, fun _ => .inl⟩

theorem increasing_of_drained (h : s.Reachable alloc args garbage) (hDrained : s.Drained)
    {message : ReceivedMessage}
    (hReceiver : s.system.receiver = .ready ∨ s.system.receiver = .waiting message) :
    s.system.Increasing message ∧
      ¬s.system.cond.maxQueueCapacity ≤ s.system.cond.obectSize := by
  have hAccounted := accounted_of_reachable h
  have hZero : s.system.inFlight = 0 := by
    obtain hReceiver | hReceiver := hReceiver
    · exact inFlight_of_drained h hDrained (by rw [hReceiver]; rfl) (by rw [hReceiver]; nofun)
    · exact inFlight_of_drained h hDrained (by rw [hReceiver]; rfl) (by rw [hReceiver]; nofun)
  have hSize : s.system.cond.obectSize.toNat = 0 := by rw [hAccounted.obectSize, hZero]
  have hRoom : ¬queueCapacity ≤ s.system.cond.obectSize := by
    rw [UInt64.le_iff_toNat_le, hSize]
    decide
  refine ⟨hReceiver.imp_right fun hWaiting => ⟨hWaiting, fun hMem => ?_⟩, ?_⟩
  · exact hRoom ((awake_of_reachable h).receiver hMem).2
  · rwa [hAccounted.maxQueueCapacity]

theorem runs_waiting (h : s.Reachable alloc args garbage) (sys : Syscalls) {c : ι}
    {message : ReceivedMessage} {n : Int} (hQueueing : s.decoding = .queueing c message n)
    (hReceiver : s.system.receiver = .ready ∨ s.system.receiver = .waiting message) :
    ∃ s', Runs args s s' ∧ Passed sys c n s s' := by
  obtain ⟨s₁, hRuns₁, hAside, hDrained, -⟩ := runs_drained h sys
  rw [← hAside.receiver] at hReceiver
  rw [← hAside.decoding] at hQueueing
  obtain ⟨hIncreasing, hRoom⟩ := increasing_of_drained (hRuns₁.reachable h) hDrained hReceiver
  obtain ⟨waiters, hSignal⟩ := exists_signal s₁.system.cond.waiters
  exact ⟨_, hRuns₁.trans (.head
      (.increaseLeaves hQueueing hIncreasing ⟨hRoom, waiters, hSignal, rfl⟩) (.head
      (.addToProducerQueue rfl) (.single (.pushToIntermediateQueue hQueueing rfl)))),
    rfl, hAside.pending, hAside.server, hAside.chunks, hAside.handled⟩

theorem runs_queueing (h : s.Reachable alloc args garbage) (sys : Syscalls) {c : ι}
    {message : ReceivedMessage} {n : Int} (hQueueing : s.decoding = .queueing c message n) :
    ∃ s', Runs args s s' ∧ Passed sys c n s s' := by
  have hHand := (refines_of_reachable h).hand
  cases hReceiver : s.system.receiver with
  | ready => exact runs_waiting h sys hQueueing (.inl hReceiver)
  | waiting message' =>
    rw [hReceiver] at hHand
    obtain ⟨c', n', hSame⟩ := hHand
    cases hQueueing.symm.trans hSame
    exact runs_waiting h sys hQueueing (.inr hReceiver)
  | reserved message' =>
    rw [hReceiver] at hHand
    obtain ⟨c', n', hSame⟩ := hHand
    cases hQueueing.symm.trans hSame
    exact runs_reserved sys hQueueing hReceiver
  | added => exact runs_added sys hQueueing hReceiver

/-- What is left to decode, in steps of the receiver. -/
def remaining (s : Stabilizer ι) : Nat :=
  match s.decoding with
  | .head c _ => 2 * (s.server.rcvBuffer c).currentLen + 1
  | .queueing c _ _ => 2 * (s.server.rcvBuffer c).currentLen + 3
  | .closing c _ => 2 * (s.server.rcvBuffer c).currentLen + 2
  | _ => 0

theorem openFrame_shortens {buffer buffer' : ClientData} {n n' : Int} {message : ReceivedMessage}
    (h : openFrame buffer n = .ok (some (message, buffer', n'))) :
    buffer'.currentLen + 11 = buffer.currentLen := by
  unfold openFrame at h
  split at h
  · split at h
    · cases h
    split at h
    · obtain ⟨buffer₁, hDelete, h⟩ := bind_eq_ok h
      have hLength := (deleteFromStart_currentLen hDelete).2
      split at h
      · cases h
      obtain ⟨copied, -, h⟩ := bind_eq_ok h
      obtain ⟨message, -, h⟩ := bind_eq_ok h
      cases h
      rw [payloadSize] at hLength
      omega
    · cases h
  · cases h

theorem closeFrame_shortens {buffer buffer' : ClientData} {n : Int} {next : Option Int}
    (h : closeFrame buffer n = .ok (buffer', next)) : buffer'.currentLen ≤ buffer.currentLen := by
  unfold closeFrame at h
  obtain ⟨buffer₁, hDelete, h⟩ := bind_eq_ok h
  obtain ⟨n', -, h⟩ := bind_eq_ok h
  have hLength := deleteFromStart_currentLen hDelete
  split at h <;> cases h <;> omega

theorem remaining_decodeHead {c : ι} {n : Int} (hHead : s.decoding = .head c n) :
    (s.decodeHead c n).remaining < s.remaining := by
  have hRemaining : s.remaining = 2 * (s.server.rcvBuffer c).currentLen + 1 := by
    rw [remaining, hHead]
  rw [hRemaining, decodeHead]
  cases hOpen : openFrame (s.server.rcvBuffer c) n with
  | error fault => exact Nat.succ_pos _
  | ok found =>
    obtain _ | ⟨message, buffer, payload⟩ := found
    · exact Nat.succ_pos _
    have hShorter := openFrame_shortens hOpen
    have hBuffer := s.server.rcvBuffer_update c s.server.api buffer
    dsimp only
    by_cases hAdmitted : s.server.api.ignoreMsgCount < s.server.api.currentMsgCount + 1
    · have hDecoding : (count { s with server := s.server.update c s.server.api buffer } c message
          payload).decoding = .queueing c message payload := if_pos hAdmitted
      rw [remaining, hDecoding]
      change 2 * ((s.server.update c s.server.api buffer).rcvBuffer c).currentLen + 3 < _
      rw [hBuffer]
      omega
    · have hDecoding : (count { s with server := s.server.update c s.server.api buffer } c message
          payload).decoding = .closing c payload := if_neg hAdmitted
      rw [remaining, hDecoding]
      change 2 * ((s.server.update c s.server.api buffer).rcvBuffer c).currentLen + 2 < _
      rw [hBuffer]
      omega

theorem remaining_decodeTail {c : ι} {n : Int} (hClosing : s.decoding = .closing c n) :
    (s.decodeTail c n).remaining < s.remaining := by
  have hRemaining : s.remaining = 2 * (s.server.rcvBuffer c).currentLen + 2 := by
    rw [remaining, hClosing]
  rw [hRemaining, decodeTail]
  cases hClose : closeFrame (s.server.rcvBuffer c) n with
  | error fault => exact Nat.succ_pos _
  | ok closed =>
    obtain ⟨buffer, _ | next⟩ := closed
    · exact Nat.succ_pos _
    have hShorter := closeFrame_shortens hClose
    change 2 * ((s.server.update c s.server.api buffer).rcvBuffer c).currentLen + 1 < _
    rw [s.server.rcvBuffer_update c s.server.api buffer]
    omega

structure Received (sys : Syscalls) (s s' : Stabilizer ι) : Prop where
  decoding : s'.decoding = .epoll
  pending : s'.pending = s.pending
  chunks : s'.chunks = s.chunks
  handled : ∀ event ∈ s'.handled, event ∈ s.handled ∨ event.2 = sys

/-- The receiver gets to the end of its loop where the sequential decoding has a result. -/
theorem runs_epoll (h : s.Reachable alloc args garbage) (sys : Syscalls) {server : Server ι}
    (hRun : (Server.init alloc 0).run alloc s.chunks = .ok server)
    (hCreated : s.decoding ≠ .created) : ∃ s', Runs args s s' ∧ Received sys s s' := by
  -- on what is left to decode; the queue calls in between leave the buffer alone
  induction hRemaining : s.remaining using Nat.strongRecOn generalizing s with
  | ind k ih =>
    subst hRemaining
    have hOn : ∀ s₁, Runs args s s₁ → s₁.pending = s.pending → s₁.chunks = s.chunks →
        (∀ event ∈ s₁.handled, event ∈ s.handled ∨ event.2 = sys) → s₁.remaining < s.remaining →
        ∃ s', Runs args s s' ∧ Received sys s s' := by
      intro s₁ hRuns hPending hChunks hHandled hLess
      have h₁ := hRuns.reachable h
      have hStarted : s₁.decoding ≠ .created := by
        rw [Ne, (refines_of_reachable h₁).startup.created, hPending,
          ← (refines_of_reachable h).startup.created]
        exact hCreated
      obtain ⟨s', hRuns', hEpoll, hPending', hChunks', hHandled'⟩ :=
        ih _ hLess h₁ (by rwa [hChunks]) hStarted rfl
      exact ⟨s', hRuns.trans hRuns', hEpoll, hPending'.trans hPending, hChunks'.trans hChunks,
        fun event hEvent => (hHandled' event hEvent).elim (hHandled event) .inr⟩
    have hDecode := (refines_of_reachable h).decode
    cases hDecoding : s.decoding with
    | created => exact absurd hDecoding hCreated
    | epoll => exact ⟨s, .refl, hDecoding, rfl, rfl, fun _ => .inl⟩
    | faulted fault =>
      rw [hRun, finish, hDecoding] at hDecode
      cases hDecode
    | head c n =>
      obtain ⟨-, hPending, hChunks, hHandled⟩ := s.decodeHead_keeps c n
      exact hOn _ (.single (.decodeHead hDecoding)) hPending hChunks
        (fun event hEvent => .inl (hHandled ▸ hEvent)) (remaining_decodeHead hDecoding)
    | closing c n =>
      obtain ⟨-, hPending, hChunks, hHandled⟩ :=
        s.nextRound_keeps c (closeFrame (s.server.rcvBuffer c) n)
      exact hOn _ (.single (.decodeTail hDecoding)) hPending hChunks
        (fun event hEvent => .inl (hHandled ▸ hEvent)) (remaining_decodeTail hDecoding)
    | queueing c message n =>
      obtain ⟨s₁, hRuns, hPassed⟩ := runs_queueing h sys hDecoding
      apply hOn s₁ hRuns hPassed.pending hPassed.chunks hPassed.handled
      rw [remaining, remaining, hPassed.decoding, hDecoding, hPassed.server]
      exact Nat.lt_succ_self _

/-! ## The whole program -/

variable (args) in
theorem runs_statements {front rest : List Statement} (hPending : s.pending = front ++ rest) :
    ∃ s', Runs args s s' ∧ s'.pending = rest ∧ s'.chunks = s.chunks ∧ s'.handled = s.handled ∧
      (s'.decoding = s.decoding ∨ s'.decoding = .epoll) := by
  induction front generalizing s with
  | nil => exact ⟨s, .refl, hPending, rfl, rfl, .inl rfl⟩
  | cons statement front ih =>
    obtain ⟨-, hChunks, -, -, hHandled, -⟩ := execute_keeps s args true statement
    have hDecoding : (s.execute args true statement).decoding = s.decoding ∨
        (s.execute args true statement).decoding = .epoll := by
      cases statement <;> first | exact .inl rfl | exact .inr rfl
    obtain ⟨s', hRuns, hDone, hChunks', hHandled', hDecoding'⟩ :=
      ih (s := { s.execute args true statement with pending := front ++ rest }) rfl
    exact ⟨s', .head (.main true hPending) hRuns, hDone, hChunks'.trans hChunks,
      hHandled'.trans hHandled, hDecoding'.elim (fun hSame => hSame ▸ hDecoding) .inr⟩

theorem started_of_not_mem (h : s.Reachable alloc args garbage)
    (hStarted : .startReceiverThread ∉ s.pending) : s.decoding ≠ .created := by
  rwa [Ne, (refines_of_reachable h).startup.created]

/-- In a state of rest everything that is not ignored has been handled. -/
theorem Quiescent.handled (hQuiescent : s.Quiescent) (h : s.Reachable alloc args garbage) :
    messages s.handled = admitted garbage args s.early s.later ∧
      s.system.stages.contents = [] ∧
      (Server.init alloc 0).run alloc s.chunks =
        .ok ⟨counted 0 s.decoded, s.server.rcvBuffer⟩ := by
  have hRefines := refines_of_reachable h
  have hFifo := hRefines.fifo
  have hDecode := hRefines.decode
  have hSize := (accounted_of_reachable h).obectSize
  rw [((awake_of_reachable h).processor hQuiescent.processor.2).2, UInt64.toNat_zero,
    System.inFlight] at hSize
  have hContents : s.system.stages.contents = [] := List.length_eq_zero_iff.mp (by omega)
  have hReady := hRefines.ready (by simp [hQuiescent.receiver])
  have hHand : inHand (ι := ι) .epoll .ready = [] := rfl
  rw [hContents, hQuiescent.receiver, hReady, hHand, List.append_nil, List.append_nil] at hFifo
  rw [finish, hQuiescent.receiver] at hDecode
  exact ⟨hFifo.symm.trans hRefines.counts.pushed, hContents, hDecode⟩

theorem runs_quiescent (h : s.Reachable alloc args garbage) (sys : Syscalls) {server : Server ι}
    (hRun : (Server.init alloc 0).run alloc s.chunks = .ok server) :
    ∃ s', Runs args s s' ∧ s'.Quiescent ∧ s'.chunks = s.chunks ∧
      ∀ event ∈ s'.handled, event ∈ s.handled ∨ event.2 = sys := by
  obtain ⟨s₁, hRuns₁, hMain, hChunks₁, hHandled₁, -⟩ :=
    runs_statements args (List.append_nil s.pending).symm
  have h₁ := hRuns₁.reachable h
  obtain ⟨s₂, hRuns₂, hReceived⟩ :=
    runs_epoll h₁ sys (by rwa [hChunks₁]) (started_of_not_mem h₁ (by rw [hMain]; exact List.not_mem_nil))
  have h₂ := hRuns₂.reachable h₁
  have hReady : s₂.system.receiver = .ready :=
    (refines_of_reachable h₂).ready (by rw [hReceived.decoding]; nofun)
  obtain ⟨s₃, hRuns₃, hAside, hAsleep⟩ := runs_asleep h₂ sys hReady
  refine ⟨s₃, (hRuns₁.trans hRuns₂).trans hRuns₃, ⟨?_, ?_, ⟨0, hAsleep.1⟩, hAsleep.2⟩, ?_, ?_⟩
  · rw [hAside.pending, hReceived.pending, hMain]
  · rw [hAside.decoding, hReceived.decoding]
  · rw [hAside.chunks, hReceived.chunks, hChunks₁]
  · intro event hEvent
    rw [← hHandled₁]
    exact (hAside.handled event hEvent).elim (hReceived.handled event) .inr

/-- Chunks can arrive one after the other, each when the one before is decoded. -/
theorem exists_received (h : s.Reachable alloc args garbage) (sys : Syscalls)
    (hEpoll : s.decoding = .epoll) {chunks : List (ι × Bytes)} {server : Server ι}
    (hRun : (Server.init alloc 0).run alloc (s.chunks ++ chunks) = .ok server) :
    ∃ s', Relation.ReflTransGen (Step alloc args) s s' ∧ s'.decoding = .epoll ∧
      s'.pending = s.pending ∧ s'.chunks = s.chunks ++ chunks ∧
      ∀ event ∈ s'.handled, event ∈ s.handled ∨ event.2 = sys := by
  induction chunks using List.reverseRecOn generalizing server with
  | nil => exact ⟨s, .refl, hEpoll, rfl, (List.append_nil _).symm, fun _ => .inl⟩
  | append_singleton chunks chunk ih =>
    have hFront := hRun
    rw [← List.append_assoc, Server.run_concat] at hFront
    obtain ⟨front, hFront, -⟩ := bind_eq_ok hFront
    obtain ⟨s₁, hSteps, hEpoll₁, hPending₁, hChunks₁, hHandled₁⟩ := ih hFront
    obtain ⟨c, data⟩ := chunk
    obtain ⟨-, hPending₂, hChunks₂, hHandled₂⟩ :=
      nextRound_keeps { s₁ with chunks := s₁.chunks ++ [(c, data)] } c
        (enterDecode alloc (s₁.server.rcvBuffer c) data)
    have hArrived : Step alloc args s₁ (s₁.onData alloc c data) := .inr (.onData c data hEpoll₁)
    have h₂ : (s₁.onData alloc c data).Reachable alloc args garbage := (h.trans hSteps).tail hArrived
    rw [← List.append_assoc, ← hChunks₁] at hRun ⊢
    have hCreated : (s₁.onData alloc c data).decoding ≠ .created := by
      rw [Ne, (refines_of_reachable h₂).startup.created, onData, hPending₂,
        ← (refines_of_reachable (h.trans hSteps)).startup.created, hEpoll₁]
      nofun
    obtain ⟨s', hRuns, hReceived⟩ := runs_epoll h₂ sys (by rwa [onData, hChunks₂]) hCreated
    refine ⟨s', (hSteps.tail hArrived).trans (hRuns.steps alloc),
      hReceived.decoding,
      (hReceived.pending.trans hPending₂).trans hPending₁, hReceived.chunks.trans hChunks₂,
      fun event hEvent => ?_⟩
    obtain hOld | hNew := hReceived.handled event hEvent
    · exact hHandled₁ event (hHandled₂ ▸ hOld)
    · exact .inr hNew

/-- `main` may get to `rest` before the first chunk arrives, and stay there until all are
decoded. -/
theorem exists_decoded (alloc : Allocator UInt8) (garbage : Garbage) (args : Arguments)
    (sys : Syscalls) {front rest : List Statement} (hStatements : statements = front ++ rest)
    (hStarted : .startReceiverThread ∉ rest) {chunks : List (ι × Bytes)} {server : Server ι}
    (hRun : (Server.init alloc 0).run alloc chunks = .ok server) :
    ∃ s₀ s : Stabilizer ι, s₀.Reachable alloc args garbage ∧ s₀.pending = rest ∧ s₀.decoded = [] ∧
      Relation.ReflTransGen (Step alloc args) s₀ s ∧ s.decoding = .epoll ∧ s.pending = rest ∧
      s.chunks = chunks ∧ ∀ event ∈ s.handled, event.2 = sys := by
  obtain ⟨s₀, hRuns, hPending, hChunks, hHandled, hDecoding⟩ :=
    runs_statements args (s := (init alloc garbage : Stabilizer ι)) hStatements
  have h₀ : s₀.Reachable alloc args garbage := hRuns.reachable .refl
  have hEpoll : s₀.decoding = .epoll :=
    hDecoding.resolve_left (started_of_not_mem h₀ (hPending ▸ hStarted))
  have hDecode := (refines_of_reachable h₀).decode
  rw [finish, hEpoll, hChunks] at hDecode
  have hNone : s₀.decoded = [] := by
    exact (congrArg (fun server : Server ι => server.api.pushed) (Except.ok.inj hDecode)).symm
  obtain ⟨s, hSteps, hEpoll', hPending', hChunks', hHandled'⟩ :=
    exists_received h₀ sys hEpoll (hChunks.symm ▸ hRun :
      (Server.init alloc 0).run alloc (s₀.chunks ++ chunks) = .ok server)
  refine ⟨s₀, s, h₀, hPending, hNone, hSteps, hEpoll', hPending'.trans hPending, ?_,
    fun event hEvent => ?_⟩
  · rw [hChunks', hChunks]
    rfl
  · obtain hOld | hNew := hHandled' event hEvent
    · rw [hHandled] at hOld
      cases hOld
    · exact hNew

/-- From every state whose chunks decode, the threads come to rest without new data or a spurious
wakeup, and then all messages that are not ignored have been handled. -/
theorem always_completes {ι : Type} [DecidableEq ι] {alloc : Allocator UInt8} {garbage : Garbage}
    {args : Arguments} {s : Stabilizer ι} (h : s.Reachable alloc args garbage) {server : Server ι}
    (hRun : (Server.init alloc 0).run alloc s.chunks = .ok server) :
    ∃ s', Runs args s s' ∧ s'.Quiescent ∧ s'.chunks = s.chunks ∧
      messages s'.handled = admitted garbage args s'.early s'.later ∧
      s'.decoded = server.api.pushed := by
  obtain ⟨s', hRuns, hQuiescent, hChunks, -⟩ := runs_quiescent h ⟨fun n => n, fun n => n, 0⟩ hRun
  obtain ⟨hHandled, -, hDecoded⟩ := hQuiescent.handled (hRuns.reachable h)
  rw [hChunks, hRun] at hDecoded
  cases hDecoded
  exact ⟨s', hRuns, hQuiescent, hChunks, hHandled, rfl⟩

end Runs

def sites : Bool → List ReceivedMessage
  | true => [⟨1, 5, [⟨3, 30⟩, ⟨6, 60⟩]⟩, ⟨1, 9, [⟨8, 80⟩]⟩]
  | false => [⟨2, 7, [⟨5, 50⟩, ⟨7, 70⟩]⟩]

def siteChunks : List (Bool × Bytes) :=
  [(true, (encodeAll encode (sites true)).take 30), (false, encodeAll encode (sites false)),
    (true, (encodeAll encode (sites true)).drop 30)]

def siteOrder : List ReceivedMessage :=
  [⟨1, 5, [⟨3, 30⟩, ⟨6, 60⟩]⟩, ⟨2, 7, [⟨5, 50⟩, ⟨7, 70⟩]⟩, ⟨1, 9, [⟨8, 80⟩]⟩]

theorem sites_encodable : ∀ c, ∀ message ∈ sites c, Encodable message := by
  rintro (_ | _) message hMessage
  · obtain rfl := List.mem_singleton.mp hMessage
    exact ⟨List.cons_ne_nil _ _, by decide⟩
  · obtain rfl | hMessage := List.mem_cons.mp hMessage
    · exact ⟨List.cons_ne_nil _ _, by decide⟩
    · obtain rfl := List.mem_singleton.mp hMessage
      exact ⟨List.cons_ne_nil _ _, by decide⟩

theorem siteChunks_sent : Sent sites siteChunks := ⟨by decide, by decide⟩

def siteArguments : Arguments := ⟨2, 100, 1, 0⟩

/-- Values that were in memory by chance. -/
def siteGarbage : Garbage := ⟨-7, 13, 4, 1, 99⟩

def fullWrites : Syscalls := ⟨fun n => n, fun n => n, 0⟩

theorem siteChunks_run : ∃ server : Server Bool,
    (Server.init (.filled 0) 0).run (.filled 0) siteChunks = .ok server ∧
      server.api.pushed = siteOrder := by
  obtain ⟨server, hRun, hDecoded⟩ := decoded_run (.filled 0) sites_encodable siteChunks_sent
  refine ⟨server, hRun, ?_⟩
  rw [hDecoded.api]
  decide

/-- All is received, but `main` has not set `m_ignoreMsgCount` yet. -/
theorem always_completes_sites : ∃ s s' : Stabilizer Bool,
    s.pending = [.setIgnoreMessageCount] ∧ s.chunks = siteChunks ∧
      Runs siteArguments s s' ∧ s'.Quiescent ∧
      s'.decoded = siteOrder := by
  obtain ⟨server, hRun, hPushed⟩ := siteChunks_run
  obtain ⟨s₀, s, h₀, -, -, hSteps, -, hPending, hChunks, -⟩ :=
    exists_decoded (.filled 0) siteGarbage siteArguments fullWrites
      (show statements = statements.take 6 ++ [.setIgnoreMessageCount] from rfl) (by decide) hRun
  obtain ⟨s', hRuns, hQuiescent, -, -, hDecoded⟩ :=
    always_completes (h₀.trans hSteps) (hChunks ▸ hRun)
  exact ⟨s, s', hPending, hChunks, hRuns, hQuiescent, hDecoded.trans hPushed⟩

end CStabilizer.MultiplexerServer.Stabilizer
