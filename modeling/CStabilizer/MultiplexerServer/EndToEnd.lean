import CStabilizer.MultiplexerServer.Schedules
import CStabilizer.ProcessingThread.Delivery
import CStabilizer.ProcessingThread.Partitions

/-! # From the clients' sockets to the label receiver

Each client sends the messages of one partition, and each partition respects its
own heartbeats. Then the values on the wire are in the order of their timestamps
over all clients, in every schedule and for every way in which the streams are
cut and interleaved. -/

namespace CStabilizer.MultiplexerServer.Stabilizer

open CStabilizer.Library.CString CStabilizer.Library.Memory CStabilizer.Library.Segments
open CStabilizer.Library.Containers CStabilizer.Library.StableSort
open CStabilizer.ServerAPI CStabilizer.ThreadUtil CStabilizer.ProcessingThread

variable {ι : Type}

/-- The clients are the partitions. -/
structure Sites (count : Int32) (partition : ι → Int32) (sent : ι → List ReceivedMessage) :
    Prop where
  injective : Function.Injective partition
  own : ∀ c, ∀ message ∈ sent c, message.partionId = partition c
  encodable : ∀ c, ∀ message ∈ sent c, Encodable message
  wellBehaved : ∀ c, WellBehaved count (sent c)

variable [DecidableEq ι] {alloc : Allocator UInt8} {garbage : Garbage}
  {args : Arguments} {s s' : Stabilizer ι} {partition : ι → Int32}
  {sent : ι → List ReceivedMessage} {chunks : List (ι × Bytes)}

/-! ## What has arrived -/

theorem arrived_prefix_of_sent (hSent : Sent sent chunks) (c : ι) :
    arrived encode (sent c) (received c chunks).length <+: sent c := by
  have hMono := arrived_mono encode (sent c) (hSent.stream c).length_le
  rwa [arrived_all] at hMono

theorem arrivals_of_client (hSent : Sent sent chunks) (c : ι) :
    ((arrivals encode sent chunks).filter fun arrival => arrival.1 = c).map Prod.snd <+: sent c := by
  rw [arrivals_sender sent (fun _ m _ => encode_ne_nil m) chunks c]
  exact arrived_prefix_of_sent hSent c

theorem mem_sent_of_arrivals (hSent : Sent sent chunks) {arrival : ι × ReceivedMessage}
    (h : arrival ∈ arrivals encode sent chunks) : arrival.2 ∈ sent arrival.1 := by
  apply (arrivals_of_client hSent arrival.1).subset
  exact List.mem_map_of_mem (List.mem_filter.mpr ⟨h, decide_eq_true rfl⟩)

theorem ofPartition_arrivals {count : Int32} (hSites : Sites count partition sent)
    (hSent : Sent sent chunks) (c : ι) :
    ofPartition (partition c) ((arrivals encode sent chunks).map Prod.snd) =
      arrived encode (sent c) (received c chunks).length := by
  rw [← arrivals_sender sent (fun _ m _ => encode_ne_nil m) chunks c, ofPartition, List.filter_map]
  refine congrArg _ (List.filter_congr fun arrival hArrival => ?_)
  have hOwn := hSites.own arrival.1 arrival.2 (mem_sent_of_arrivals hSent hArrival)
  simp only [Function.comp_apply, hOwn, hSites.injective.eq_iff]

theorem exists_client {count : Int32} (hSites : Sites count partition sent)
    (hSent : Sent sent chunks) {message : ReceivedMessage}
    (h : message ∈ (arrivals encode sent chunks).map Prod.snd) :
    ∃ c, message ∈ sent c ∧ message.partionId = partition c := by
  obtain ⟨arrival, hArrival, rfl⟩ := List.mem_map.mp h
  have hMem := mem_sent_of_arrivals hSent hArrival
  exact ⟨arrival.1, hMem, hSites.own _ _ hMem⟩

theorem wellBehaved_arrivals {count : Int32} (hSites : Sites count partition sent)
    (hSent : Sent sent chunks) :
    WellBehaved count ((arrivals encode sent chunks).map Prod.snd) := by
  refine wellBehaved_of_partitions fun p => ?_
  by_cases hNone : ofPartition p ((arrivals encode sent chunks).map Prod.snd) = []
  · rw [hNone]
    exact Library.Splits.stepwise_nil
  · obtain ⟨message, hMessage⟩ := List.exists_mem_of_ne_nil _ hNone
    obtain ⟨hMem, hPartition⟩ := List.mem_filter.mp hMessage
    obtain ⟨c, -, hOwn⟩ := exists_client hSites hSent hMem
    obtain rfl := hOwn.symm.trans (of_decide_eq_true hPartition)
    rw [ofPartition_arrivals hSites hSent c]
    exact (hSites.wellBehaved c).sublist (arrived_prefix_of_sent hSent c).sublist

/-! ## What is decoded so far -/

theorem push_pushed (api : ServerAPI.Receiver) (message : ReceivedMessage) :
    api.pushed <+: (api.push message).pushed := by
  rw [Receiver.push]
  split
  · exact List.prefix_append ..
  · exact List.prefix_rfl

theorem decodeLoop_pushed {api api' : ServerAPI.Receiver} {buffer buffer' : ClientData} {n : Int}
    (h : decodeLoop api buffer n = .ok (api', buffer')) : api.pushed <+: api'.pushed := by
  -- on the length of the buffer, which every round shortens
  induction hLength : buffer.currentLen using Nat.strongRecOn generalizing api buffer n with
  | ind k ih =>
    rw [decodeLoop_eq_resumeRound] at h
    cases hOpen : openFrame buffer n with
    | error fault =>
      rw [hOpen] at h
      cases h
    | ok found =>
      rw [hOpen] at h
      obtain _ | ⟨message, opened, payload⟩ := found
      · cases h
        exact List.prefix_rfl
      rw [resumeRound] at h
      cases hClose : closeFrame opened payload with
      | error fault =>
        rw [hClose] at h
        cases h
      | ok closed =>
        rw [hClose] at h
        obtain ⟨closed, _ | next⟩ := closed
        · cases h
          exact push_pushed api message
        · have hOpened := openFrame_shortens hOpen
          have hClosed := closeFrame_shortens hClose
          exact (push_pushed api message).trans (ih closed.currentLen (by omega) h rfl)

theorem resumeLoop_pushed {api api' : ServerAPI.Receiver} {buffer' : ClientData}
    {result : Except Fault (ClientData × Option Int)}
    (h : resumeLoop api result = .ok (api', buffer')) : api.pushed <+: api'.pushed := by
  obtain fault | ⟨buffer, _ | n⟩ := result
  · cases h
  · cases h
    exact List.prefix_rfl
  · exact decodeLoop_pushed h

/-- What is decoded is a front part of what the sequential program pushes for the chunks. -/
theorem decoded_front (h : s.Reachable alloc args garbage) {server : Server ι}
    (hRun : (Server.init alloc 0).run alloc s.chunks = .ok server) :
    s.decoded <+: server.api.pushed := by
  have hDecode := (refines_of_reachable h).decode
  rw [hRun, finish] at hDecode
  have hLoop : ∀ c result, Except.ok server = s.completed c result →
      (∀ api' buffer', result = .ok (api', buffer') → s.decoded <+: api'.pushed) →
      s.decoded <+: server.api.pushed := by
    intro c result hCompleted hPushed
    obtain fault | ⟨api', buffer'⟩ := result
    · cases hCompleted
    · cases hCompleted
      exact hPushed api' buffer' rfl
  cases hDecoding : s.decoding with
  | created | epoll =>
    rw [hDecoding] at hDecode
    cases hDecode
    exact List.prefix_rfl
  | head c n =>
    rw [hDecoding] at hDecode
    exact hLoop c _ hDecode fun _ _ hResult => decodeLoop_pushed hResult
  | queueing c message n | closing c n =>
    rw [hDecoding] at hDecode
    exact hLoop c _ hDecode fun _ _ hResult => resumeLoop_pushed hResult
  | faulted fault =>
    rw [hDecoding] at hDecode
    cases hDecode

theorem admitted_sublist (garbage : Garbage) (args : Arguments) (early later : List ReceivedMessage) :
    (admitted garbage args early later).Sublist (early ++ later) :=
  (List.drop_sublist ..).append (List.drop_sublist ..)

theorem handled_sublist (h : s.Reachable alloc args garbage) {server : Server ι}
    (hRun : (Server.init alloc 0).run alloc s.chunks = .ok server) :
    (messages s.handled).Sublist server.api.pushed := by
  have hRefines := refines_of_reachable h
  have hHandled : messages s.handled <+: admitted garbage args s.early s.later := by
    rw [← hRefines.counts.pushed, hRefines.fifo, List.append_assoc]
    exact List.prefix_append ..
  exact (hHandled.sublist.trans (admitted_sublist ..)).trans (decoded_front h hRun).sublist

variable (alloc) in
theorem exists_run {count : Int32} (hSites : Sites count partition sent) (hSent : Sent sent chunks) :
    ∃ server, (Server.init alloc 0).run alloc chunks = .ok server ∧
      server.api.pushed = (arrivals encode sent chunks).map Prod.snd := by
  obtain ⟨server, hRun, hDecoded⟩ := decoded_run alloc hSites.encodable hSent
  exact ⟨server, hRun, by rw [hDecoded.api]; rfl⟩

/-! ## Nothing left to do -/

/-- All bytes have been received, and no message is ignored. -/
structure Complete (garbage : Garbage) (args : Arguments) (sent : ι → List ReceivedMessage)
    (s : Stabilizer ι) : Prop where
  quiescent : s.Quiescent
  chunks : Sent sent s.chunks
  received : ∀ c, Library.Segments.received c s.chunks = encodeAll encode (sent c)
  early : s.early = [] ∨ garbage.ignoreMsgCount ≤ 0
  later : args.ignoreMsgCount.toInt ≤ 0

theorem Complete.handled {count : Int32} (hComplete : s.Complete garbage args sent)
    (h : s.Reachable alloc args garbage) (hSites : Sites count partition sent) :
    messages s.handled = (arrivals encode sent s.chunks).map Prod.snd := by
  obtain ⟨server, hRun, hPushed⟩ := exists_run alloc hSites hComplete.chunks
  have hLater : (args.ignoreMsgCount.toInt - s.early.length).toNat = 0 := by
    have hNone := hComplete.later
    omega
  have hAdmitted : admitted garbage args s.early s.later = s.decoded := by
    rw [admitted, hLater, List.drop_zero]
    obtain hNone | hZero := hComplete.early
    · rw [hNone, List.drop_nil, decoded, hNone]
    · rw [Int.toNat_eq_zero.mpr hZero, List.drop_zero]
      rfl
  rw [(hComplete.quiescent.handled h).1, hAdmitted,
    decoded_of_epoll h hComplete.quiescent.receiver hRun, hPushed]

/-- Every message is handled exactly once, each client's in the order of sending. -/
theorem Complete.ofPartition {count : Int32} (hComplete : s.Complete garbage args sent)
    (h : s.Reachable alloc args garbage) (hSites : Sites count partition sent) (c : ι) :
    ofPartition (partition c) (messages s.handled) = sent c := by
  rw [hComplete.handled h hSites, ofPartition_arrivals hSites hComplete.chunks, hComplete.received c,
    arrived_all]

section Sites

/-! Two partitions, whose messages the witnesses of this module send. -/

def sitePartition : Bool → Int32
  | true => 1
  | false => 2

theorem sites_sites : Sites siteArguments.clientCount sitePartition sites where
  injective := by decide
  own := by decide
  encodable := sites_encodable
  wellBehaved := by
    rintro (_ | _)
    · exact Library.Splits.stepwise_singleton.mpr (by decide)
    · have hFirst : WellBehaved 2 [⟨1, 5, [⟨3, 30⟩, ⟨6, 60⟩]⟩] :=
        Library.Splits.stepwise_singleton.mpr (by decide)
      exact Library.Splits.stepwise_concat.mpr ⟨hFirst, by decide⟩

theorem exists_complete (garbage : Garbage) {chunks : List (Bool × Bytes)}
    (hSent : Sent sites chunks) (hAll : ∀ c, received c chunks = encodeAll encode (sites c)) :
    ∃ s : Stabilizer Bool, s.Reachable (.filled 0) siteArguments garbage ∧
      s.Complete garbage siteArguments sites ∧ s.chunks = chunks ∧
      s.handled = ((arrivals encode sites chunks).map Prod.snd).map fun m => (m, fullWrites) := by
  obtain ⟨server, hRun, hPushed⟩ := exists_run (.filled 0) sites_sites hSent
  obtain ⟨s, h, hQuiescent, rfl, hEarly, -, hSys⟩ :=
    exists_admitted (.filled 0) garbage siteArguments fullWrites hRun false
  have hComplete : s.Complete garbage siteArguments sites :=
    ⟨hQuiescent, hSent, hAll, .inl hEarly, by decide⟩
  refine ⟨s, h, hComplete, rfl, ?_⟩
  rw [← hComplete.handled h sites_sites, messages, List.map_map]
  conv_lhs => rw [← List.map_id s.handled]
  exact List.map_congr_left fun event hEvent => Prod.ext rfl (hSys event hEvent)

theorem siteChunks_all : ∀ c, received c siteChunks = encodeAll encode (sites c) := by decide

end Sites

/-! ## Safety in every state -/

theorem wellBehaved_handled (h : s.Reachable alloc args garbage)
    (hSites : Sites args.clientCount partition sent) (hSent : Sent sent s.chunks) :
    WellBehaved args.clientCount (messages s.handled) := by
  obtain ⟨server, hRun, hPushed⟩ := exists_run alloc hSites hSent
  exact (hPushed ▸ wellBehaved_arrivals hSites hSent).sublist (handled_sublist h hRun)

theorem least_exists (hCount : 1 ≤ args.clientCount) (events : Events) :
    ∃ low, IsLeast {x | x ∈ ((configured args).processAll events).1.heartbeat.values} low := by
  have hFirst : ((configured args).processAll events).1.heartbeat.lookup 1 =
      some (previousHeartbeat (messages events) 1) :=
    lookup_partition events ⟨Int32.le_refl 1, hCount⟩
  exact ⟨_, scanMin_isLeast_of_mem (OrderedMap.mem_values_iff.mpr ⟨1, hFirst⟩)⟩

theorem Complete.thread (hComplete : s.Complete garbage args sent)
    (h : s.Reachable alloc args garbage) :
    (s.thread, s.outputs) = (configured args).processAll s.handled := by
  refine ((refines_of_reachable h).startup.configured ?_).1
  rw [hComplete.quiescent.receiver]
  nofun

theorem Complete.ordered (hComplete : s.Complete garbage args sent)
    (h : s.Reachable alloc args garbage) (hSites : Sites args.clientCount partition sent) :
    Ordered s.handled s.thread s.outputs := by
  have hThread := hComplete.thread h
  rw [show s.thread = _ from congrArg Prod.fst hThread,
    show s.outputs = _ from congrArg Prod.snd hThread]
  exact ordered_run s.handled (wellBehaved_handled h hSites hComplete.chunks)

/-- Once everything is received and the threads are at rest, each client's messages have been
handled in their order and no others, and each label is on the wire or awaits delivery if no
heartbeat is before it, and is stored otherwise. -/
theorem rest_is_complete {ι : Type} [DecidableEq ι] {alloc : Allocator UInt8} {garbage : Garbage}
    {args : Arguments} {s : Stabilizer ι} {partition : ι → Int32} {sent : ι → List ReceivedMessage}
    (hCount : 1 ≤ args.clientCount) (hSites : Sites args.clientCount partition sent)
    (h : s.Reachable alloc args garbage) (hComplete : s.Complete garbage args sent) :
    (∀ c, ofPartition (partition c) (messages s.handled) = sent c) ∧
    (∀ message ∈ messages s.handled, ∃ c, message ∈ sent c) ∧
    ∃ low, IsLeast {x | x ∈ s.thread.heartbeat.values} low ∧
      deliveredAll s.outputs ++ s.thread.deletedList = (stableSort Prod.fst
        ((ProcessingThread.received s.handled).filter fun e => e.1 ≤ low)).map Prod.snd ∧
      s.thread.storage.entries = stableSort Prod.fst
        ((ProcessingThread.received s.handled).filter fun e => low < e.1) := by
  have hOrdered := hComplete.ordered h hSites
  refine ⟨hComplete.ofPartition h hSites, fun message hMessage => ?_, ?_⟩
  · rw [hComplete.handled h hSites] at hMessage
    obtain ⟨c, hMem, -⟩ := exists_client hSites hComplete.chunks hMessage
    exact ⟨c, hMem⟩
  · obtain ⟨low, hLow⟩ := least_exists hCount s.handled
    rw [← hComplete.thread h] at hLow
    obtain ⟨hErased, hStored⟩ := hOrdered.split hLow
    refine ⟨low, hLow, ?_, ?_⟩
    · rw [hOrdered.deliver, hErased, filter_stableSort]
    · rw [hStored, filter_stableSort]

theorem rest_is_complete_sites : ∃ s : Stabilizer Bool,
    (∀ c, ProcessingThread.ofPartition (sitePartition c) (messages s.handled) = sites c) ∧
    ∃ low, IsLeast {x | x ∈ s.thread.heartbeat.values} low ∧
      s.thread.storage.entries = stableSort Prod.fst
        ((ProcessingThread.received s.handled).filter fun e => low < e.1) := by
  obtain ⟨s, h, hComplete, -, -⟩ := exists_complete siteGarbage siteChunks_sent siteChunks_all
  obtain ⟨hClients, -, low, hLow, -, hStored⟩ :=
    rest_is_complete (by decide) sites_sites h hComplete
  exact ⟨s, hClients, low, hLow, hStored⟩

/-! ## Two schedules -/

theorem Complete.ofPartition_nil {count : Int32} (hComplete : s.Complete garbage args sent)
    (h : s.Reachable alloc args garbage) (hSites : Sites count partition sent) {p : Int32}
    (hNone : ∀ c, partition c ≠ p) : ProcessingThread.ofPartition p (messages s.handled) = [] := by
  apply List.filter_eq_nil_iff.mpr
  intro message hMessage hPartition
  rw [hComplete.handled h hSites] at hMessage
  obtain ⟨c, -, hOwn⟩ := exists_client hSites hComplete.chunks hMessage
  exact hNone c (hOwn.symm.trans (of_decide_eq_true hPartition))

/-- Labels of one timestamp come from one client. -/
def TiesWithinClients (sent : ι → List ReceivedMessage) : Prop :=
  ∀ c c', ∀ m ∈ sent c, ∀ m' ∈ sent c', ∀ label ∈ m.labels, ∀ label' ∈ m'.labels,
    label.timestamp = label'.timestamp → c = c'

theorem Complete.tiesWithin {count : Int32} (hComplete : s.Complete garbage args sent)
    (h : s.Reachable alloc args garbage) (hSites : Sites count partition sent)
    (hTies : TiesWithinClients sent) :
    TiesWithin fun p => ProcessingThread.ofPartition p (messages s.handled) := by
  intro p p' m hm m' hm' label hLabel label' hLabel' hEq
  obtain ⟨hMem, hOwn⟩ := List.mem_filter.mp hm
  obtain ⟨hMem', hOwn'⟩ := List.mem_filter.mp hm'
  rw [hComplete.handled h hSites] at hMem hMem'
  obtain ⟨c, hSent, hClient⟩ := exists_client hSites hComplete.chunks hMem
  obtain ⟨c', hSent', hClient'⟩ := exists_client hSites hComplete.chunks hMem'
  have hSame := hTies c c' m hSent m' hSent' label hLabel label' hLabel' hEq
  rw [← of_decide_eq_true hOwn, ← of_decide_eq_true hOwn', hClient, hClient', hSame]

theorem Complete.interleaves {count : Int32} (hSites : Sites count partition sent)
    {alloc' : Allocator UInt8} {garbage' : Garbage} (h : s.Reachable alloc args garbage)
    (h' : s'.Reachable alloc' args garbage') (hComplete : s.Complete garbage args sent)
    (hComplete' : s'.Complete garbage' args sent) :
    Interleaves (fun p => ProcessingThread.ofPartition p (messages s.handled))
      (messages s'.handled) := by
  intro p
  change ProcessingThread.ofPartition p (messages s'.handled) =
    ProcessingThread.ofPartition p (messages s.handled)
  by_cases hNone : ∀ c, partition c ≠ p
  · rw [hComplete.ofPartition_nil h hSites hNone, hComplete'.ofPartition_nil h' hSites hNone]
  · obtain ⟨c, rfl⟩ : ∃ c, partition c = p := by simpa using hNone
    rw [hComplete.ofPartition h hSites, hComplete'.ofPartition h' hSites]

/-- Two runs of the program that receive the same messages, cut and interleaved in different ways
and scheduled in different ways, come to the same values in the same order, the same table and the
same storage, as long as labels of one timestamp come from one client. -/
theorem schedule_independent {ι : Type} [DecidableEq ι] {alloc alloc' : Allocator UInt8}
    {garbage garbage' : Garbage} {args : Arguments} {s s' : Stabilizer ι} {partition : ι → Int32}
    {sent : ι → List ReceivedMessage} (hSites : Sites args.clientCount partition sent)
    (hTies : TiesWithinClients sent) (h : s.Reachable alloc args garbage)
    (h' : s'.Reachable alloc' args garbage') (hComplete : s.Complete garbage args sent)
    (hComplete' : s'.Complete garbage' args sent) :
    deliveredAll s.outputs ++ s.thread.deletedList =
      deliveredAll s'.outputs ++ s'.thread.deletedList ∧
    s.thread.heartbeat = s'.thread.heartbeat ∧
    s.thread.storage.entries = s'.thread.storage.entries := by
  have hSame : ((configured args).processAll s.handled).1.heartbeat =
        ((configured args).processAll s'.handled).1.heartbeat ∧
      erasedAll ((configured args).processAll s.handled).2 =
        erasedAll ((configured args).processAll s'.handled).2 ∧
      ((configured args).processAll s.handled).1.storage.entries =
        ((configured args).processAll s'.handled).1.storage.entries :=
    outputs_of_interleaves (hComplete.tiesWithin h hSites hTies) (fun p => rfl)
      (hComplete.interleaves hSites h h' hComplete') (wellBehaved_handled h hSites hComplete.chunks)
      (wellBehaved_handled h' hSites hComplete'.chunks)
  rw [← hComplete.thread h, ← hComplete'.thread h'] at hSame
  obtain ⟨hTable, hErased, hStored⟩ := hSame
  refine ⟨?_, hTable, hStored⟩
  rw [(hComplete.ordered h hSites).deliver, (hComplete'.ordered h' hSites).deliver]
  exact congrArg (List.map Prod.snd) hErased

/-- The second run gets each client's stream in one piece, the second client's first. -/
theorem schedule_independent_sites : ∃ s s' : Stabilizer Bool,
    messages s.handled ≠ messages s'.handled ∧
    deliveredAll s.outputs ++ s.thread.deletedList =
      deliveredAll s'.outputs ++ s'.thread.deletedList := by
  have hTies : TiesWithinClients sites := by
    unfold TiesWithinClients
    decide
  obtain ⟨s, h, hComplete, -, hHandled⟩ :=
    exists_complete siteGarbage siteChunks_sent siteChunks_all
  obtain ⟨s', h', hComplete', -, hHandled'⟩ :=
    exists_complete ⟨0, 0, 0, 0, 0⟩
      (show Sent sites [(false, encodeAll encode (sites false)), (true, encodeAll encode (sites true))]
        from ⟨by decide, by decide⟩) (by decide)
  obtain ⟨hValues, -⟩ := schedule_independent sites_sites hTies h h' hComplete hComplete'
  refine ⟨s, s', ?_, hValues⟩
  rw [hHandled, hHandled']
  decide

end CStabilizer.MultiplexerServer.Stabilizer
