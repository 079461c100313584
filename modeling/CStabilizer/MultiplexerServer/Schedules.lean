import CStabilizer.MultiplexerServer.Completion

/-! # What a schedule can change

Every schedule gives the output of the sequential program over the messages that
are admitted. What is admitted depends on the schedule in one way: whether a
message is counted before `main` has set `m_ignoreMsgCount`. -/

namespace CStabilizer.MultiplexerServer.Stabilizer

open CStabilizer.Library.CString CStabilizer.Library.Memory CStabilizer.Library.Segments
open CStabilizer.ServerAPI CStabilizer.ThreadUtil
open CStabilizer.ProcessingThread (Events Syscalls Output messages)

variable {ι : Type} [DecidableEq ι] {alloc : Allocator UInt8} {garbage : Garbage}
  {args : Arguments} {s s' : Stabilizer ι}

omit [DecidableEq ι] in
theorem Startup.configured (h : s.Startup args) (hStarted : s.decoding ≠ .created) :
    (s.thread, s.outputs) = (configured args).processAll s.handled ∧ s.receiverStatus.isSome := by
  obtain ⟨t, hConfigure, hThread⟩ := h.thread
  have hNotMem : .startReceiverThread ∉ s.pending := fun hMem => hStarted (h.created.mpr hMem)
  have hStatus := h.status
  obtain hPending | hPending := pending_of_started h.suffix hNotMem
  · rw [hPending] at hConfigure hStatus
    exact ⟨hThread.trans (congrArg (fun t : ProcessingThread => t.processAll s.handled) hConfigure),
      hStatus.resolve_left (by decide)⟩
  · rw [hPending] at hConfigure hStatus
    exact ⟨hThread.trans (congrArg (fun t : ProcessingThread => t.processAll s.handled) hConfigure),
      hStatus.resolve_left (by decide)⟩

theorem Refines.started (h : s.Refines alloc garbage args)
    (hActive : s.handled ≠ [] ∨ s.system.stages.contents ≠ []) : s.decoding ≠ .created := by
  intro hCreated
  obtain ⟨hHandled, hContents⟩ := h.handled_of_created hCreated
  obtain hActive | hActive := hActive
  · exact hActive hHandled
  · exact hActive hContents

theorem early_of_step (hStep : Step alloc args s s') (hSet : .setIgnoreMessageCount ∉ s.pending) :
    s'.early = s.early ∧ .setIgnoreMessageCount ∉ s'.pending := by
  obtain hAdvance | hEvent := hStep
  · cases hAdvance with
    | @main statement rest status hPending =>
      rw [hPending] at hSet
      exact ⟨(execute_keeps s args status statement).2.2.1, fun hMem => hSet (.tail _ hMem)⟩
    | @decodeHead c n hHead =>
      rw [decodeHead]
      obtain fault | _ | ⟨message, buffer, payload⟩ := openFrame (s.server.rcvBuffer c) n
      · exact ⟨rfl, hSet⟩
      · exact ⟨rfl, hSet⟩
      · exact ⟨if_neg hSet, hSet⟩
    | @decodeTail c n hClosing =>
      rw [decodeTail]
      obtain fault | ⟨buffer, next⟩ := closeFrame (s.server.rcvBuffer c) n <;> exact ⟨rfl, hSet⟩
    | _ => exact ⟨rfl, hSet⟩
  · cases hEvent with
    | onData c data hEpoll =>
      rw [onData]
      obtain fault | ⟨buffer, next⟩ := enterDecode alloc (s.server.rcvBuffer c) data <;>
        exact ⟨rfl, hSet⟩
    | spuriousWakeup hMem => exact ⟨rfl, hSet⟩

theorem early_of_steps (hSteps : Relation.ReflTransGen (Step alloc args) s s')
    (hSet : .setIgnoreMessageCount ∉ s.pending) : s'.early = s.early := by
  have hBoth : s'.early = s.early ∧ .setIgnoreMessageCount ∉ s'.pending := by
    induction hSteps with
    | refl => exact ⟨rfl, hSet⟩
    | tail _ hStep ih =>
      obtain ⟨hEarly, hSet'⟩ := early_of_step hStep ih.2
      exact ⟨hEarly.trans ih.1, hSet'⟩
  exact hBoth.1

theorem decoded_of_epoll (h : s.Reachable alloc args garbage) (hEpoll : s.decoding = .epoll)
    {server : Server ι} (hRun : (Server.init alloc 0).run alloc s.chunks = .ok server) :
    s.decoded = server.api.pushed := by
  have hDecode := (refines_of_reachable h).decode
  rw [finish, hEpoll, hRun] at hDecode
  exact (congrArg (fun server : Server ι => server.api.pushed) (Except.ok.inj hDecode)).symm

/-- All chunks are decoded after `SetIgnoreMessageCount`, or all before it. -/
theorem exists_admitted (alloc : Allocator UInt8) (garbage : Garbage) (args : Arguments)
    (sys : Syscalls) {chunks : List (ι × Bytes)} {server : Server ι}
    (hRun : (Server.init alloc 0).run alloc chunks = .ok server) (late : Bool) :
    ∃ s : Stabilizer ι, s.Reachable alloc args garbage ∧ s.Quiescent ∧ s.chunks = chunks ∧
      s.early = (if late then server.api.pushed else []) ∧
      s.later = (if late then [] else server.api.pushed) ∧ ∀ event ∈ s.handled, event.2 = sys := by
  cases late with
  | false =>
    obtain ⟨s₀, s, h₀, hMain, hNone, hSteps, hEpoll, hPending, rfl, hSys⟩ :=
      exists_decoded alloc garbage args sys (List.append_nil statements).symm List.not_mem_nil hRun
    have h := h₀.trans hSteps
    obtain ⟨s', hRuns, hQuiescent, hChunks, hHandled⟩ := runs_quiescent h sys hRun
    have h' := hRuns.reachable h
    have hEarly : s'.early = [] := by
      rw [early_of_steps (hSteps.trans (hRuns.steps alloc)) (by rw [hMain]; exact List.not_mem_nil)]
      exact (List.append_eq_nil_iff.mp hNone).1
    have hDecoded := decoded_of_epoll h' hQuiescent.receiver (hChunks.symm ▸ hRun)
    rw [decoded, hEarly, List.nil_append] at hDecoded
    exact ⟨s', h', hQuiescent, hChunks, hEarly, hDecoded,
      fun event hEvent => (hHandled event hEvent).elim (hSys event) id⟩
  | true =>
    obtain ⟨s₀, s, h₀, -, -, hSteps, hEpoll, hPending, rfl, hSys⟩ :=
      exists_decoded alloc garbage args sys
        (show statements = statements.take 6 ++ [.setIgnoreMessageCount] from rfl) (by decide) hRun
    have h := h₀.trans hSteps
    have hLater : s.later = [] :=
      (refines_of_reachable h).counts.before (by rw [hPending]; exact List.mem_singleton_self _)
    have hDecoded := decoded_of_epoll h hEpoll hRun
    rw [decoded, hLater, List.append_nil] at hDecoded
    have hSet : Step alloc args s _ := .inl (.main true hPending)
    obtain ⟨s', hRuns, hQuiescent, hChunks, hHandled⟩ := runs_quiescent (h.tail hSet) sys hRun
    have h' := hRuns.reachable (h.tail hSet)
    have hEarly : s'.early = server.api.pushed :=
      (early_of_steps (hRuns.steps alloc) List.not_mem_nil).trans hDecoded
    have hDecoded' := decoded_of_epoll h' hQuiescent.receiver (hChunks.symm ▸ hRun)
    rw [decoded, hEarly] at hDecoded'
    exact ⟨s', h', hQuiescent, hChunks, hEarly, by simpa using hDecoded',
      fun event hEvent => (hHandled event hEvent).elim (hSys event) id⟩

/-- In every state of every schedule the receiver is inside the sequential decoding of the chunks,
the admitted messages are those handled, then those in the queue, then the one in hand, and the
processing thread, set up before its first message, is where the sequential run over the messages
handled leaves it. -/
theorem schedule_is_sequential {ι : Type} [DecidableEq ι] {alloc : Allocator UInt8}
    {garbage : Garbage} {args : Arguments} {s : Stabilizer ι}
    (h : s.Reachable alloc args garbage) :
    (Server.init alloc 0).run alloc s.chunks = s.finish ∧
    admitted garbage args s.early s.later =
      messages s.handled ++ s.system.stages.contents ++ inHand s.decoding s.system.receiver ∧
    (s.handled ≠ [] →
      (s.thread, s.outputs) = (configured args).processAll s.handled ∧ s.receiverStatus.isSome) := by
  have hRefines := refines_of_reachable h
  refine ⟨hRefines.decode, ?_, fun hHandled => ?_⟩
  · rw [← hRefines.fifo, hRefines.counts.pushed]
  · exact hRefines.startup.configured (hRefines.started (.inl hHandled))

/-- All three messages came before `main` had set the number to zero, and one of them is ignored. -/
theorem schedule_is_sequential_sites : ∃ s : Stabilizer Bool, s.Quiescent ∧
    (Server.init (.filled 0) 0).run (.filled 0) siteChunks = s.finish ∧
    messages s.handled = [⟨2, 7, [⟨5, 50⟩, ⟨7, 70⟩]⟩, ⟨1, 9, [⟨8, 80⟩]⟩] ∧
    (s.thread, s.outputs) = (configured siteArguments).processAll s.handled := by
  obtain ⟨server, hRun, hPushed⟩ := siteChunks_run
  obtain ⟨s, h, hQuiescent, hChunks, hEarly, hLater, -⟩ :=
    exists_admitted (.filled 0) siteGarbage siteArguments fullWrites hRun true
  obtain ⟨hDecode, hAdmitted, hThread⟩ := schedule_is_sequential h
  obtain ⟨hHandled, -⟩ := hQuiescent.handled h
  have hMessages : messages s.handled = [⟨2, 7, [⟨5, 50⟩, ⟨7, 70⟩]⟩, ⟨1, 9, [⟨8, 80⟩]⟩] := by
    rw [hHandled, hEarly, hLater, hPushed]
    decide
  refine ⟨s, hQuiescent, hChunks ▸ hDecode, hMessages, (hThread fun hNone => ?_).1⟩
  rw [hNone] at hMessages
  cases hMessages

/-- The setting of `m_ignoreMsgCount` races with the receiver: for the same chunks the number of
messages ignored can be the argument of the program, or what was in memory. -/
theorem ignore_count_races {ι : Type} [DecidableEq ι] (alloc : Allocator UInt8)
    (garbage : Garbage) (args : Arguments) {chunks : List (ι × Bytes)} {server : Server ι}
    (hRun : (Server.init alloc 0).run alloc chunks = .ok server) :
    (∃ s : Stabilizer ι, s.Reachable alloc args garbage ∧ s.Quiescent ∧ s.chunks = chunks ∧
      messages s.handled = server.api.pushed.drop args.ignoreMsgCount.toInt.toNat) ∧
    (∃ s : Stabilizer ι, s.Reachable alloc args garbage ∧ s.Quiescent ∧ s.chunks = chunks ∧
      messages s.handled = server.api.pushed.drop garbage.ignoreMsgCount.toNat) := by
  constructor
  · obtain ⟨s, h, hQuiescent, hChunks, hEarly, hLater, -⟩ :=
      exists_admitted alloc garbage args ⟨fun n => n, fun n => n, 0⟩ hRun false
    refine ⟨s, h, hQuiescent, hChunks, ?_⟩
    rw [(hQuiescent.handled h).1, admitted, hEarly, hLater]
    simp
  · obtain ⟨s, h, hQuiescent, hChunks, hEarly, hLater, -⟩ :=
      exists_admitted alloc garbage args ⟨fun n => n, fun n => n, 0⟩ hRun true
    refine ⟨s, h, hQuiescent, hChunks, ?_⟩
    rw [(hQuiescent.handled h).1, admitted, hEarly, hLater]
    simp

theorem ignore_count_races_sites :
    (∃ s : Stabilizer Bool, s.Reachable (.filled 0) siteArguments siteGarbage ∧ s.Quiescent ∧
      (messages s.handled).length = 3) ∧
    (∃ s : Stabilizer Bool, s.Reachable (.filled 0) siteArguments siteGarbage ∧ s.Quiescent ∧
      (messages s.handled).length = 2) := by
  obtain ⟨server, hRun, hPushed⟩ := siteChunks_run
  obtain ⟨⟨s, h, hQuiescent, -, hHandled⟩, s', h', hQuiescent', -, hHandled'⟩ :=
    ignore_count_races (.filled 0) siteGarbage siteArguments hRun
  rw [hPushed] at hHandled hHandled'
  exact ⟨⟨s, h, hQuiescent, by rw [hHandled]; rfl⟩, s', h', hQuiescent', by rw [hHandled']; rfl⟩

end CStabilizer.MultiplexerServer.Stabilizer
