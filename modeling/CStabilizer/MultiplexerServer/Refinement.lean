import CStabilizer.MultiplexerServer.Model
import CStabilizer.ThreadUtil.Wakeups

/-! # Every schedule is the sequential program

Whatever the order in which the threads take their steps, the receiver's state
is a point inside the sequential decoding of the chunks received, the queue
holds what was pushed and not handled yet, and the processing thread is where
the sequential run over the messages handled leaves it. -/

namespace CStabilizer.MultiplexerServer.Stabilizer

open CStabilizer.Library.CString CStabilizer.Library.Memory
open CStabilizer.ServerAPI CStabilizer.ThreadUtil
open CStabilizer.ProcessingThread (Events Syscalls Output messages start)

variable {ι : Type}

def decoded (s : Stabilizer ι) : List ReceivedMessage := s.early ++ s.later

/-- The message that is to be pushed and not yet in a queue. -/
def inHand : Decoding ι → Receiver ReceivedMessage → List ReceivedMessage
  | .queueing .., .added => []
  | .queueing _ message _, _ => [message]
  | _, _ => []

/-- Inside the queue calls the receiver's packet is the message counted last. -/
def Hand (decoding : Decoding ι) : Receiver ReceivedMessage → Prop
  | .ready => True
  | .waiting message | .reserved message => ∃ c n, decoding = .queueing c message n
  | .added => ∃ c message n, decoding = .queueing c message n

/-- What `main` still has to do to the processing thread. -/
def configure (args : Arguments) (t : ProcessingThread) : Statement → ProcessingThread
  | .setClientCount => t.setClientCount args.clientCount
  | .setDeleteThreshold => t.setDeleteThreshold args.deleteThreshold.toInt32
  | .setLabelDeliverySize => t.setLabelDeliverySize args.labelDeliverySize
  | _ => t

def configured (args : Arguments) : ProcessingThread :=
  start args.clientCount args.deleteThreshold.toInt32 args.labelDeliverySize

/-- What is decoded before `SetIgnoreMessageCount` is compared with what the member held. -/
def admitted (garbage : Garbage) (args : Arguments) (early later : List ReceivedMessage) :
    List ReceivedMessage :=
  early.drop garbage.ignoreMsgCount.toNat ++
    later.drop (args.ignoreMsgCount.toInt - early.length).toNat

structure Startup (args : Arguments) (s : Stabilizer ι) : Prop where
  suffix : s.pending <:+ statements
  created : s.decoding = .created ↔ .startReceiverThread ∈ s.pending
  nothing : s.decoding = .created → s.decoded = []
  status : .openConnectionToLabelReceiver ∈ s.pending ∨ s.receiverStatus.isSome
  thread : ∃ t, s.pending.foldl (configure args) t = configured args ∧
    (s.thread, s.outputs) = t.processAll s.handled

structure Counts (garbage : Garbage) (args : Arguments) (pending : List Statement)
    (api : ServerAPI.Receiver) (early later : List ReceivedMessage) : Prop where
  current : .initReceiverThread ∉ pending → api.currentMsgCount = early.length + later.length
  ignore : api.ignoreMsgCount =
    if .setIgnoreMessageCount ∈ pending then garbage.ignoreMsgCount else args.ignoreMsgCount.toInt
  before : .setIgnoreMessageCount ∈ pending → later = []
  pushed : api.pushed = admitted garbage args early later

section Finish

variable [DecidableEq ι]

def completed (s : Stabilizer ι) (c : ι) (result : Except Fault (ServerAPI.Receiver × ClientData)) :
    Except Fault (Server ι) :=
  result.map fun (api, buffer) => s.server.update c api buffer

/-- The sequential decoding from where the receiver is, when no message is ignored. -/
def finish (s : Stabilizer ι) : Except Fault (Server ι) :=
  match s.decoding with
  | .created | .epoll => .ok ⟨counted 0 s.decoded, s.server.rcvBuffer⟩
  | .head c n => s.completed c (decodeLoop (counted 0 s.decoded) (s.server.rcvBuffer c) n)
  | .queueing c _ n | .closing c n =>
    s.completed c (resumeLoop (counted 0 s.decoded) (closeFrame (s.server.rcvBuffer c) n))
  | .faulted fault => .error fault

end Finish

structure Refines [DecidableEq ι] (alloc : Allocator UInt8) (garbage : Garbage) (args : Arguments)
    (s : Stabilizer ι) : Prop where
  startup : s.Startup args
  hand : Hand s.decoding s.system.receiver
  decode : (Server.init alloc 0).run alloc s.chunks = s.finish
  counts : Counts garbage args s.pending s.server.api s.early s.later
  fifo : s.server.api.pushed =
    messages s.handled ++ s.system.stages.contents ++ inHand s.decoding s.system.receiver

/-! ## Start-up -/

theorem pending_of_started {pending : List Statement} (hSuffix : pending <:+ statements)
    (hStarted : .startReceiverThread ∉ pending) :
    pending = [] ∨ pending = [.setIgnoreMessageCount] := by
  have hTails : ∀ p ∈ statements.tails, .startReceiverThread ∉ p →
      p = [] ∨ p = [.setIgnoreMessageCount] := by decide
  exact hTails pending ((List.mem_tails ..).mpr hSuffix) hStarted

theorem init_not_pending {pending : List Statement} (hSuffix : pending <:+ statements)
    (hStarted : .startReceiverThread ∉ pending) : .initReceiverThread ∉ pending := by
  obtain rfl | rfl := pending_of_started hSuffix hStarted <;> decide

theorem fixed_of_started {pending rest : List Statement} {statement : Statement}
    (hSuffix : pending <:+ statements) (hStarted : .startReceiverThread ∉ pending)
    (h : pending = statement :: rest) : statement = .setIgnoreMessageCount ∧ rest = [] := by
  obtain rfl | rfl := pending_of_started hSuffix hStarted
  · cases h
  · cases h
    exact ⟨rfl, rfl⟩

theorem execute_thread (s : Stabilizer ι) (args : Arguments) (status : Bool)
    (statement : Statement) :
    (s.execute args status statement).thread = configure args s.thread statement := by
  cases statement <;> rfl

theorem execute_keeps (s : Stabilizer ι) (args : Arguments) (status : Bool)
    (statement : Statement) :
    (s.execute args status statement).system = s.system ∧
    (s.execute args status statement).chunks = s.chunks ∧
    (s.execute args status statement).early = s.early ∧
    (s.execute args status statement).later = s.later ∧
    (s.execute args status statement).handled = s.handled ∧
    (s.execute args status statement).outputs = s.outputs ∧
    (s.execute args status statement).server.rcvBuffer = s.server.rcvBuffer ∧
    (s.execute args status statement).server.api.pushed = s.server.api.pushed := by
  cases statement <;> exact ⟨rfl, rfl, rfl, rfl, rfl, rfl, rfl, rfl⟩

theorem Startup.concurrent {args : Arguments} {s : Stabilizer ι} (h : s.Startup args) (hCreated : s.decoding ≠ .created)
    {server : Server ι} {decoding : Decoding ι} (hDecoding : decoding ≠ .created)
    {chunks : List (ι × Bytes)} {early later : List ReceivedMessage} :
    Startup args { s with server, decoding, chunks, early, later } where
  suffix := h.suffix
  created := ⟨fun hEq => absurd hEq hDecoding, fun hMem => absurd (h.created.mpr hMem) hCreated⟩
  nothing := fun hEq => absurd hEq hDecoding
  status := h.status
  thread := h.thread

theorem decoded_count {s : Stabilizer ι}
    (hBefore : .setIgnoreMessageCount ∈ s.pending → s.later = []) (c : ι)
    (message : ReceivedMessage) (n : Int) :
    (s.count c message n).decoded = s.decoded ++ [message] := by
  rw [count, decoded, decoded]
  dsimp only
  split
  · next hPending => rw [hBefore hPending, List.append_nil, List.append_nil]
  · rw [List.append_assoc]

section Steps

variable [DecidableEq ι] {alloc : Allocator UInt8} {garbage : Garbage} {args : Arguments}
  {s s' : Stabilizer ι}

theorem Refines.ready (h : s.Refines alloc garbage args)
    (hDecoding : ∀ c message n, s.decoding ≠ .queueing c message n) :
    s.system.receiver = .ready := by
  have hHand := h.hand
  cases hReceiver : s.system.receiver with
  | ready => rfl
  | waiting message | reserved message =>
    rw [hReceiver] at hHand
    obtain ⟨c, n, hQueueing⟩ := hHand
    exact absurd hQueueing (hDecoding c message n)
  | added =>
    rw [hReceiver] at hHand
    obtain ⟨c, message, n, hQueueing⟩ := hHand
    exact absurd hQueueing (hDecoding c message n)

theorem Refines.handled_of_created (h : s.Refines alloc garbage args)
    (hCreated : s.decoding = .created) : s.handled = [] ∧ s.system.stages.contents = [] := by
  have hNothing := List.append_eq_nil_iff.mp (h.startup.nothing hCreated)
  have hPushed : s.server.api.pushed = [] := by
    rw [h.counts.pushed, admitted, hNothing.1, hNothing.2, List.drop_nil, List.drop_nil,
      List.append_nil]
  have hFifo := h.fifo
  rw [hPushed, List.append_assoc] at hFifo
  have hParts := List.append_eq_nil_iff.mp hFifo.symm
  exact ⟨List.map_eq_nil_iff.mp hParts.1, (List.append_eq_nil_iff.mp hParts.2).1⟩

theorem completed_update {c : ι} {api : ServerAPI.Receiver} {buffer : ClientData}
    (h : s'.server = s.server.update c api buffer)
    (result : Except Fault (ServerAPI.Receiver × ClientData)) :
    s'.completed c result = s.completed c result := by
  rw [completed, completed, h]
  simp only [Server.update, Function.update_idem]

theorem finish_nextRound (s : Stabilizer ι) (c : ι) (result : Except Fault (ClientData × Option Int)) :
    (s.nextRound c result).finish = s.completed c (resumeLoop (counted 0 s.decoded) result) := by
  cases result with
  | error fault => rfl
  | ok result =>
    obtain ⟨buffer, _ | n⟩ := result
    · rfl
    · rw [nextRound, finish]
      dsimp only
      rw [completed_update rfl, Server.rcvBuffer_update]
      rfl

/-- A step of the receiver outside the queue calls. -/
theorem Refines.receiver (h : s.Refines alloc garbage args) (hCreated : s.decoding ≠ .created)
    (hReady : s.system.receiver = .ready) (hInHand : inHand s.decoding .ready = [])
    {server : Server ι} {decoding : Decoding ι} {chunks : List (ι × Bytes)}
    {early later : List ReceivedMessage} (hDecoding : decoding ≠ .created)
    (hDecode : (Server.init alloc 0).run alloc chunks =
      finish { s with server, decoding, chunks, early, later })
    (hCounts : Counts garbage args s.pending server.api early later)
    (hPushed : server.api.pushed = s.server.api.pushed ++ inHand decoding .ready) :
    Refines alloc garbage args { s with server, decoding, chunks, early, later } := by
  have hFifo := h.fifo
  rw [hReady, hInHand, List.append_nil] at hFifo
  refine ⟨h.startup.concurrent hCreated hDecoding, ?_, hDecode, hCounts, ?_⟩
  · change Hand _ s.system.receiver
    rw [hReady]
    trivial
  · change _ = _ ++ inHand _ s.system.receiver
    rw [hReady, hPushed, hFifo]

theorem Refines.round (h : s.Refines alloc garbage args) (hCreated : s.decoding ≠ .created)
    (hReady : s.system.receiver = .ready) (hInHand : inHand s.decoding .ready = [])
    {chunks : List (ι × Bytes)} {c : ι} {result : Except Fault (ClientData × Option Int)}
    (hRun : (Server.init alloc 0).run alloc chunks =
      s.completed c (resumeLoop (counted 0 s.decoded) result)) :
    Refines alloc garbage args (nextRound { s with chunks } c result) := by
  have hDecode := hRun.trans (finish_nextRound { s with chunks } c result).symm
  obtain fault | ⟨buffer, _ | n⟩ := result
  · exact h.receiver hCreated hReady hInHand nofun hDecode h.counts (List.append_nil _).symm
  · exact h.receiver hCreated hReady hInHand nofun hDecode h.counts (List.append_nil _).symm
  · exact h.receiver hCreated hReady hInHand nofun hDecode h.counts (List.append_nil _).symm

theorem Refines.onData (h : s.Refines alloc garbage args) (hEpoll : s.decoding = .epoll) (c : ι)
    (data : Bytes) : (s.onData alloc c data).Refines alloc garbage args := by
  have hReady := h.ready (by rw [hEpoll]; nofun)
  apply h.round (by rw [hEpoll]; nofun) hReady (by rw [hEpoll]; rfl)
  have hDecode := h.decode
  rw [finish, hEpoll] at hDecode
  rw [Server.run_concat, hDecode, ← onData_eq_resumeLoop]
  change Server.step alloc _ _ = _
  rw [Server.step, completed]
  cases ServerAPI.onData alloc (counted 0 s.decoded) (s.server.rcvBuffer c) data <;> rfl

theorem Refines.decodeTail (h : s.Refines alloc garbage args) {c : ι} {n : Int}
    (hClosing : s.decoding = .closing c n) : (s.decodeTail c n).Refines alloc garbage args := by
  have hReady := h.ready (by rw [hClosing]; nofun)
  apply h.round (by rw [hClosing]; nofun) hReady (by rw [hClosing]; rfl)
  have hDecode := h.decode
  rwa [finish, hClosing] at hDecode

theorem drop_concat (k : Int) (xs : List ReceivedMessage) (x : ReceivedMessage) :
    (xs ++ [x]).drop k.toNat =
      if k < xs.length + 1 then xs.drop k.toNat ++ [x] else xs.drop k.toNat := by
  split
  · rw [List.drop_append_of_le_length (by omega)]
  · have hLength : (xs ++ [x]).length = xs.length + 1 := by simp
    rw [List.drop_eq_nil_of_le (by omega), List.drop_eq_nil_of_le (by omega)]

theorem Counts.push {pending : List Statement} {api : ServerAPI.Receiver}
    {early later : List ReceivedMessage} (h : Counts garbage args pending api early later)
    (hInit : .initReceiverThread ∉ pending) (message : ReceivedMessage) :
    Counts garbage args pending (api.push message)
      (if .setIgnoreMessageCount ∈ pending then early ++ [message] else early)
      (if .setIgnoreMessageCount ∈ pending then later else later ++ [message]) := by
  have hCurrent := h.current hInit
  have hIgnore := h.ignore
  have hCount : (api.push message).currentMsgCount = api.currentMsgCount + 1 := by
    rw [Receiver.push]
    split <;> rfl
  have hSame : (api.push message).ignoreMsgCount = api.ignoreMsgCount := by
    rw [Receiver.push]
    split <;> rfl
  have hPushed : (api.push message).pushed =
      if api.ignoreMsgCount < api.currentMsgCount + 1 then api.pushed ++ [message]
      else api.pushed := by
    rw [Receiver.push]
    split <;> rfl
  by_cases hPending : .setIgnoreMessageCount ∈ pending
  · obtain rfl := h.before hPending
    rw [if_pos hPending] at hIgnore
    rw [if_pos hPending, if_pos hPending]
    refine ⟨fun _ => ?_, by rw [hSame, if_pos hPending, hIgnore], fun _ => rfl, ?_⟩
    · rw [hCount, hCurrent, List.length_append, List.length_singleton, List.length_nil]
      omega
    · rw [hPushed, h.pushed, admitted, admitted, List.drop_nil, List.drop_nil, List.append_nil,
        List.append_nil, drop_concat, hIgnore, hCurrent, List.length_nil, Int.natCast_zero,
        Int.add_zero]
  · rw [if_neg hPending] at hIgnore
    rw [if_neg hPending, if_neg hPending]
    refine ⟨fun _ => ?_, by rw [hSame, if_neg hPending, hIgnore], fun hMem => absurd hMem hPending,
      ?_⟩
    · rw [hCount, hCurrent, List.length_append, List.length_singleton]
      omega
    · have hTest : args.ignoreMsgCount.toInt < early.length + later.length + 1 ↔
          args.ignoreMsgCount.toInt - early.length < later.length + 1 := by omega
      rw [hPushed, h.pushed, admitted, admitted, drop_concat, hIgnore, hCurrent]
      simp only [hTest]
      split
      · rw [List.append_assoc]
      · rfl

theorem finish_count (hBefore : .setIgnoreMessageCount ∈ s.pending → s.later = []) (c : ι)
    (message : ReceivedMessage) (n : Int) :
    (s.count c message n).finish = s.completed c
      (resumeLoop (counted 0 (s.decoded ++ [message])) (closeFrame (s.server.rcvBuffer c) n)) := by
  rw [← decoded_count hBefore c message n, finish]
  by_cases hAdmitted : s.server.api.ignoreMsgCount < s.server.api.currentMsgCount + 1
  · have hDecoding : (s.count c message n).decoding = .queueing c message n := if_pos hAdmitted
    rw [hDecoding]
    rfl
  · have hDecoding : (s.count c message n).decoding = .closing c n := if_neg hAdmitted
    rw [hDecoding]
    rfl

theorem Refines.decodeHead (h : s.Refines alloc garbage args) {c : ι} {n : Int}
    (hHead : s.decoding = .head c n) : (s.decodeHead c n).Refines alloc garbage args := by
  have hReady := h.ready (by simp [hHead])
  have hCreated : s.decoding ≠ .created := by simp [hHead]
  have hEpoll : (Decoding.epoll : Decoding ι) ≠ .created := by simp
  have hInHand : inHand s.decoding .ready = [] := by rw [hHead]; rfl
  have hInit := init_not_pending h.startup.suffix fun hMem => hCreated (h.startup.created.mpr hMem)
  have hDecode := h.decode
  rw [finish, hHead] at hDecode
  dsimp only at hDecode
  rw [decodeLoop_eq_resumeRound] at hDecode
  rw [Stabilizer.decodeHead]
  cases hOpen : openFrame (s.server.rcvBuffer c) n with
  | error fault =>
    rw [hOpen] at hDecode
    exact h.receiver hCreated hReady hInHand (by simp) hDecode h.counts (List.append_nil _).symm
  | ok found =>
    rw [hOpen] at hDecode
    obtain _ | ⟨message, buffer, payload⟩ := found
    · have hEnd : (Server.init alloc 0).run alloc s.chunks = finish { s with decoding := .epoll } := by
        rw [hDecode, resumeRound]
        change Except.ok (s.server.update c (counted 0 s.decoded) (s.server.rcvBuffer c)) = _
        rw [Server.update, Function.update_eq_self]
        rfl
      exact h.receiver hCreated hReady hInHand hEpoll hEnd h.counts (List.append_nil _).symm
    · -- The message is counted, and goes to the queue unless it is ignored.
      have hFinish := finish_count (s := { s with server := s.server.update c s.server.api buffer })
        h.counts.before c message payload
      rw [completed_update rfl, Server.rcvBuffer_update] at hFinish
      rw [resumeRound, push_counted] at hDecode
      apply h.receiver hCreated hReady hInHand ?_ (hDecode.trans hFinish.symm)
        (h.counts.push hInit message) ?_
      · split <;> simp
      · change (s.server.api.push message).pushed = _ ++ inHand (ite _ _ _) _
        rw [Receiver.push]
        dsimp only
        change _ = _ ++ inHand (if s.server.api.ignoreMsgCount < s.server.api.currentMsgCount + 1 then _ else _) _
        split
        · rfl
        · exact (List.append_nil _).symm

theorem Refines.queue (h : s.Refines alloc garbage args) {system : System ReceivedMessage}
    (hHand : Hand s.decoding system.receiver)
    (hContents : system.stages.contents ++ inHand s.decoding system.receiver =
      s.system.stages.contents ++ inHand s.decoding s.system.receiver) :
    Refines alloc garbage args { s with system } where
  startup := ⟨h.startup.suffix, h.startup.created, h.startup.nothing, h.startup.status,
    h.startup.thread⟩
  hand := hHand
  decode := h.decode
  counts := h.counts
  fifo := by rw [List.append_assoc, hContents, ← List.append_assoc, h.fifo]

theorem Refines.pushToIntermediateQueue (h : s.Refines alloc garbage args) {c : ι}
    {message : ReceivedMessage} {n : Int} (hQueueing : s.decoding = .queueing c message n)
    (hAdded : s.system.receiver = .added) :
    Refines alloc garbage args { s with
      system := { s.system with stages := s.system.stages.pushToIntermediate, receiver := .ready }
      decoding := .closing c n } := by
  have hCreated : s.decoding ≠ .created := by rw [hQueueing]; nofun
  have hClosing : Decoding.closing c n ≠ .created := nofun
  have hStartup : Startup args { s with decoding := .closing c n } :=
    h.startup.concurrent hCreated hClosing
  have hDecode := h.decode
  have hFifo := h.fifo
  rw [finish, hQueueing] at hDecode
  rw [hQueueing, hAdded, inHand, List.append_nil] at hFifo
  refine ⟨⟨hStartup.suffix, hStartup.created, hStartup.nothing, hStartup.status, hStartup.thread⟩,
    trivial, hDecode, h.counts, ?_⟩
  rw [hFifo, Stages.contents_pushToIntermediate]
  exact (List.append_nil _).symm

theorem Refines.process (h : s.Refines alloc garbage args) {message : ReceivedMessage}
    {stages : Stages ReceivedMessage} {processor : Processor} (sys : Syscalls)
    (hPoll : s.system.stages.pollFromConsumer = (some message, stages)) :
    Refines alloc garbage args { s.process message sys with
      system := { s.system with stages, processor } } := by
  have hContents := s.system.stages.pollFromConsumer_contents
  rw [hPoll] at hContents
  obtain ⟨t, hConfigure, hThread⟩ := h.startup.thread
  refine ⟨⟨h.startup.suffix, h.startup.created, h.startup.nothing, h.startup.status, t, hConfigure,
    ?_⟩, h.hand, h.decode, h.counts, ?_⟩
  · rw [Stabilizer.process, ProcessingThread.processAll_append, ← hThread]
    rfl
  · rw [Stabilizer.process, h.fifo, ← hContents, ProcessingThread.messages_append]
    simp [messages]

theorem Refines.main_startup (h : s.Refines alloc garbage args) {statement : Statement}
    {rest : List Statement} (status : Bool) (hPending : s.pending = statement :: rest) :
    Startup args { s.execute args status statement with pending := rest } := by
  have hSuffix := h.startup.suffix
  rw [hPending] at hSuffix
  have hFresh : statement ∉ rest :=
    (List.nodup_cons.mp (hSuffix.sublist.nodup (by decide))).1
  obtain ⟨hSystem, hChunks, hEarly, hLater, hHandled, hOutputs, -⟩ :=
    execute_keeps s args status statement
  have hDecoding : statement ≠ .startReceiverThread →
      (s.execute args status statement).decoding = s.decoding := by
    intro hNe
    cases statement <;> first | rfl | exact absurd rfl hNe
  have hCreated := h.startup.created
  rw [hPending, List.mem_cons] at hCreated
  refine ⟨(List.suffix_cons ..).trans hSuffix, ?_, ?_, ?_, ?_⟩
  · by_cases hStart : statement = .startReceiverThread
    · subst hStart
      exact ⟨nofun, fun hMem => absurd hMem hFresh⟩
    · change (s.execute args status statement).decoding = .created ↔ _
      rw [hDecoding hStart, hCreated]
      exact ⟨fun h => h.resolve_left (Ne.symm hStart), .inr⟩
  · intro hEq
    by_cases hStart : statement = .startReceiverThread
    · subst hStart
      cases hEq
    · change (s.execute args status statement).early ++ (s.execute args status statement).later = []
      rw [hEarly, hLater]
      exact h.startup.nothing ((hDecoding hStart).symm.trans hEq)
  · by_cases hOpen : statement = .openConnectionToLabelReceiver
    · subst hOpen
      exact .inr rfl
    · have hStatus := h.startup.status
      rw [hPending, List.mem_cons] at hStatus
      obtain (hEq | hMem) | hSome := hStatus
      · exact absurd hEq.symm hOpen
      · exact .inl hMem
      · refine .inr ?_
        cases statement <;> first | exact hSome | exact absurd rfl hOpen
  · obtain ⟨t, hConfigure, hThread⟩ := h.startup.thread
    rw [hPending, List.foldl_cons] at hConfigure
    refine ⟨configure args t statement, hConfigure, ?_⟩
    change ((s.execute args status statement).thread, (s.execute args status statement).outputs) =
      (configure args t statement).processAll (s.execute args status statement).handled
    rw [execute_thread, hOutputs, hHandled]
    by_cases hMem : .startReceiverThread ∈ s.pending
    · obtain ⟨hNone, -⟩ := h.handled_of_created (h.startup.created.mpr hMem)
      rw [hNone] at hThread ⊢
      have hSame : s.thread = t := congrArg Prod.fst hThread
      have hQuiet : s.outputs = [] := congrArg Prod.snd hThread
      rw [hSame, hQuiet]
      rfl
    · obtain ⟨rfl, -⟩ := fixed_of_started h.startup.suffix hMem hPending
      exact hThread

theorem mem_tail_iff {statement st : Statement} {rest : List Statement} (h : st ≠ statement) :
    st ∈ statement :: rest ↔ st ∈ rest := by
  rw [List.mem_cons, or_iff_right h]

theorem Counts.keep {pending rest : List Statement} {api : ServerAPI.Receiver}
    {early later : List ReceivedMessage} (h : Counts garbage args pending api early later)
    (hInit : .initReceiverThread ∈ pending ↔ .initReceiverThread ∈ rest)
    (hIgnore : .setIgnoreMessageCount ∈ pending ↔ .setIgnoreMessageCount ∈ rest) :
    Counts garbage args rest api early later where
  current := fun hNot => h.current fun hMem => hNot (hInit.mp hMem)
  ignore := by
    rw [h.ignore]
    simp only [hIgnore]
  before := fun hMem => h.before (hIgnore.mpr hMem)
  pushed := h.pushed

theorem Refines.main_counts (h : s.Refines alloc garbage args) {statement : Statement}
    {rest : List Statement} (status : Bool) (hPending : s.pending = statement :: rest) :
    Counts garbage args rest (s.execute args status statement).server.api s.early s.later := by
  have hSuffix := h.startup.suffix
  have hCounts := h.counts
  rw [hPending] at hSuffix hCounts
  have hCreated := h.startup.created
  rw [hPending] at hCreated
  have hTails : ∀ p ∈ statements.tails, p.head? = some .setIgnoreMessageCount →
      p = [.setIgnoreMessageCount] := by decide
  have hStarting : ∀ p ∈ statements.tails, p.head? = some .initReceiverThread →
      .startReceiverThread ∈ p := by decide
  have hMem := (List.mem_tails ..).mpr hSuffix
  cases statement with
  | setIgnoreMessageCount =>
    cases hTails _ hMem rfl
    have hLater := hCounts.before (List.mem_singleton_self _)
    exact ⟨fun _ => hCounts.current (by decide), rfl, nofun, hCounts.pushed⟩
  | initReceiverThread =>
    have hNothing := List.append_eq_nil_iff.mp
      (h.startup.nothing (hCreated.mpr (hStarting _ hMem rfl)))
    have hKept : Counts garbage args (.initReceiverThread :: rest) _ s.early s.later := hCounts
    refine ⟨fun _ => ?_, ?_, fun hIgnore => hKept.before (List.mem_cons_of_mem _ hIgnore),
      hKept.pushed⟩
    · rw [hNothing.1, hNothing.2]
      rfl
    · refine hKept.ignore.trans ?_
      simp only [mem_tail_iff (show Statement.setIgnoreMessageCount ≠ .initReceiverThread by decide)]
  | _ => exact hCounts.keep (mem_tail_iff (by decide)) (mem_tail_iff (by decide))

theorem Refines.main (h : s.Refines alloc garbage args) {statement : Statement}
    {rest : List Statement} (status : Bool) (hPending : s.pending = statement :: rest) :
    Refines alloc garbage args { s.execute args status statement with pending := rest } := by
  have hStartup := h.main_startup status hPending
  have hCounts := h.main_counts status hPending
  have hFifo := h.fifo
  have hDecode := h.decode
  have hHand := h.hand
  cases statement with
  | startReceiverThread =>
    have hDecoding : s.decoding = .created := by
      rw [h.startup.created, hPending]
      exact List.mem_cons_self
    have hReady := h.ready (by rw [hDecoding]; nofun)
    rw [finish, hDecoding] at hDecode
    rw [hDecoding, hReady] at hFifo
    refine ⟨hStartup, ?_, hDecode, hCounts, ?_⟩
    · change Hand _ s.system.receiver
      rw [hReady]
      trivial
    · change _ = _ ++ inHand _ s.system.receiver
      rw [hReady]
      exact hFifo
  | _ => exact ⟨hStartup, hHand, hDecode, hCounts, hFifo⟩

omit [DecidableEq ι] in
theorem inHand_of_increasing {c : ι} {message : ReceivedMessage} {n : Int}
    (hQueueing : s.decoding = .queueing c message n) (hIncreasing : s.system.Increasing message) :
    inHand s.decoding s.system.receiver = [message] := by
  rw [hQueueing]
  obtain hReady | ⟨hWaiting, -⟩ := hIncreasing
  · rw [hReady]
    rfl
  · rw [hWaiting]
    rfl

theorem Refines.addToProducerQueue (h : s.Refines alloc garbage args) {message : ReceivedMessage}
    (hReserved : s.system.receiver = .reserved message) :
    Refines alloc garbage args { s with
      system := { s.system with stages := s.system.stages.add message, receiver := .added } } := by
  have hHand := h.hand
  rw [hReserved] at hHand
  obtain ⟨c, n, hQueueing⟩ := hHand
  apply h.queue
  · exact ⟨c, message, n, hQueueing⟩
  · rw [hQueueing, hReserved, Stages.contents_add]
    exact List.append_nil _

theorem Refines.advance (h : s.Refines alloc garbage args) (hStep : Advance args s s') :
    s'.Refines alloc garbage args := by
  cases hStep with
  | main status hPending => exact h.main status hPending
  | decodeHead hHead => exact h.decodeHead hHead
  | increaseWaits hQueueing hIncreasing hCond =>
    apply h.queue
    · exact ⟨_, _, hQueueing⟩
    · rw [inHand_of_increasing hQueueing hIncreasing, hQueueing]
      rfl
  | increaseLeaves hQueueing hIncreasing hCond =>
    apply h.queue
    · exact ⟨_, _, hQueueing⟩
    · rw [inHand_of_increasing hQueueing hIncreasing, hQueueing]
      rfl
  | addToProducerQueue hReserved => exact h.addToProducerQueue hReserved
  | pushToIntermediateQueue hQueueing hAdded => exact h.pushToIntermediateQueue hQueueing hAdded
  | decodeTail hClosing => exact h.decodeTail hClosing
  | pollFromIntermediateQueue hProcessor =>
    exact h.queue h.hand (by rw [Stages.contents_pollFromIntermediate])
  | process sys hProcessor hPoll => exact h.process sys hPoll
  | processed hProcessor hPoll =>
    have hContents := s.system.stages.pollFromConsumer_contents
    rw [hPoll] at hContents
    exact h.queue h.hand (by rw [← hContents]; rfl)
  | decreaseWaits hDecreasing hCond => exact h.queue h.hand rfl
  | decreaseLeaves hDecreasing hCond => exact h.queue h.hand rfl

theorem Refines.step (h : s.Refines alloc garbage args) (hStep : Step alloc args s s') :
    s'.Refines alloc garbage args := by
  obtain hAdvance | hEvent := hStep
  · exact h.advance hAdvance
  · cases hEvent with
    | onData c data hEpoll => exact h.onData hEpoll c data
    | spuriousWakeup hMem => exact h.queue h.hand rfl

variable (alloc garbage args) in
theorem refines_init : (init alloc garbage : Stabilizer ι).Refines alloc garbage args where
  startup :=
    { suffix := List.suffix_refl _
      created := ⟨fun _ => show .startReceiverThread ∈ statements by decide, fun _ => rfl⟩
      nothing := fun _ => rfl
      status := .inl (show .openConnectionToLabelReceiver ∈ statements by decide)
      thread := ⟨(init alloc garbage : Stabilizer ι).thread, rfl, rfl⟩ }
  hand := trivial
  decode := rfl
  counts :=
    { current := fun hNot => absurd (show .initReceiverThread ∈ statements by decide) hNot
      ignore := rfl
      before := fun _ => rfl
      pushed := (by
        change [] = List.drop _ [] ++ List.drop _ []
        rw [List.drop_nil, List.drop_nil]
        rfl) }
  fifo := rfl

theorem refines_of_reachable (h : s.Reachable alloc args garbage) :
    s.Refines alloc garbage args := by
  induction h with
  | refl => exact refines_init alloc garbage args
  | tail _ hStep ih => exact ih.step hStep

/-! ## The queue and its flow control -/

theorem nextRound_keeps (s : Stabilizer ι) (c : ι) (result : Except Fault (ClientData × Option Int)) :
    (s.nextRound c result).system = s.system ∧ (s.nextRound c result).pending = s.pending ∧
      (s.nextRound c result).chunks = s.chunks ∧ (s.nextRound c result).handled = s.handled := by
  obtain fault | ⟨buffer, next⟩ := result <;> exact ⟨rfl, rfl, rfl, rfl⟩

theorem decodeHead_keeps (s : Stabilizer ι) (c : ι) (n : Int) :
    (s.decodeHead c n).system = s.system ∧ (s.decodeHead c n).pending = s.pending ∧
      (s.decodeHead c n).chunks = s.chunks ∧ (s.decodeHead c n).handled = s.handled := by
  rw [decodeHead]
  obtain fault | _ | ⟨message, buffer, payload⟩ := openFrame (s.server.rcvBuffer c) n <;>
    exact ⟨rfl, rfl, rfl, rfl⟩

theorem system_step (hStep : Step alloc args s s') :
    s'.system = s.system ∨ System.Step s.system s'.system := by
  obtain hAdvance | hEvent := hStep
  · cases hAdvance with
    | @main statement rest status hPending =>
      exact .inl (execute_keeps s args status statement).1
    | decodeHead hHead => exact .inl (decodeHead_keeps ..).1
    | increaseWaits hQueueing hIncreasing hCond => exact .inr (.increaseWaits hIncreasing hCond)
    | increaseLeaves hQueueing hIncreasing hCond => exact .inr (.increaseLeaves hIncreasing hCond)
    | addToProducerQueue hReserved => exact .inr (.addToProducerQueue hReserved)
    | pushToIntermediateQueue hQueueing hAdded => exact .inr (.pushToIntermediateQueue hAdded)
    | decodeTail hClosing => exact .inl (nextRound_keeps ..).1
    | pollFromIntermediateQueue hProcessor => exact .inr (.pollFromIntermediateQueue hProcessor)
    | process sys hProcessor hPoll => exact .inr (.process hProcessor hPoll)
    | processed hProcessor hPoll => exact .inr (.processed hProcessor hPoll)
    | decreaseWaits hDecreasing hCond => exact .inr (.decreaseWaits hDecreasing hCond)
    | decreaseLeaves hDecreasing hCond => exact .inr (.decreaseLeaves hDecreasing hCond)
  · cases hEvent with
    | onData c data hEpoll => exact .inl (nextRound_keeps ..).1
    | spuriousWakeup hMem => exact .inr (.spuriousWakeup hMem)

theorem system_of_reachable (h : s.Reachable alloc args garbage) :
    Relation.ReflTransGen System.Step (System.init queueCapacity) s.system := by
  induction h with
  | refl => exact .refl
  | tail _ hStep ih =>
    obtain hSame | hSystem := system_step hStep
    · rwa [hSame]
    · exact ih.tail hSystem

theorem accounted_of_reachable (h : s.Reachable alloc args garbage) :
    s.system.Accounted queueCapacity :=
  System.accounted_of_steps (by decide) (system_of_reachable h)

theorem awake_of_reachable (h : s.Reachable alloc args garbage) : s.system.Awake queueCapacity :=
  System.awake_of_steps (by decide) (system_of_reachable h)

end Steps

end CStabilizer.MultiplexerServer.Stabilizer
