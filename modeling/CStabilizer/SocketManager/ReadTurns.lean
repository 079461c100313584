import CStabilizer.SocketManager.Callbacks

/-! # The turns of the read loop

Sockets are watched for edges, so an event with `EPOLLIN` calls for reads until one
does not return data. The read loop ends after its last turn as well. -/

namespace CStabilizer

open Library Library.CString Library.Memory

def ReadResult.isData : ReadResult → Bool
  | .data _ => true
  | .closed | .again | .failed => false

namespace ClientTable

variable {alloc : Allocator UInt8} {t t' : ClientTable} {s s' : State} {input : Input}

/-! ## The handling of an event -/

def Input.readResult : Input → Option ReadResult
  | .read result => some result
  | .poll _ | .next | .accept _ | .flush .. | .callbackReturn | .send .. | .sendBufferedData ..
  | .deleteClient _ | .createClient .. | .createServer .. => none

def reads (inputs : List Input) : List ReadResult := inputs.filterMap Input.readResult

/-- A batch comes to an event for a client, and what follows up to the end of its handling. -/
structure Handling (alloc : Allocator UInt8) (before : List Input) (event : EpollEvent)
    (rest : List EpollEvent) (pClient : Nat) (part : List Input) (s : State) : Prop where
  starts : ∃ t, (machine alloc).run before = some ⟨t, .events (event :: rest)⟩ ∧
    t.serverTypes event.fd = some (.client pClient)
  within : (machine alloc).Within (fun s => s.control ≠ .events rest) (before ++ [.next]) part
  finishes : (machine alloc).run (before ++ [.next] ++ part) = some s
  control : s.control = .events rest

/-- The last read returned 0 or -1. -/
def ReadsEnd (part : List Input) : Prop :=
  ∃ result, (reads part).getLast? = some result ∧ result.isData = false

def dataReads (part : List Input) : Nat := (reads part).countP ReadResult.isData

/-! ## Reads -/

theorem reads_concat (part : List Input) (input : Input) :
    reads (part ++ [input]) = reads part ++ input.readResult.toList := by
  unfold reads
  rw [List.filterMap_append]
  cases h : input.readResult <;> simp [h]

theorem reads_concat_of_none {part : List Input} (h : input.readResult = none) :
    reads (part ++ [input]) = reads part := by
  rw [reads_concat, h]
  exact List.append_nil _

theorem reads_read (part : List Input) (result : ReadResult) :
    reads (part ++ [Input.read result]) = reads part ++ [result] := reads_concat ..

theorem dataReads_le (part : List Input) : dataReads part ≤ (reads part).length :=
  List.countP_le_length

def Ended (part : List Input) : Prop := dataReads part < readTurns ∧ ReadsEnd part

theorem ended_concat {part : List Input} {result : ReadResult} {turns : Nat}
    (hTurns : turns + 1 + (reads part).length = readTurns) (hResult : result.isData = false) :
    Ended (part ++ [.read result]) := by
  constructor
  · have hLe := dataReads_le part
    have hSame : dataReads (part ++ [Input.read result]) = dataReads part := by
      simp [dataReads, reads_read, hResult]
    omega
  · exact ⟨result, by rw [reads_read, List.getLast?_concat], hResult⟩

theorem ended_concat_of_none {part : List Input} (h : input.readResult = none) :
    Ended (part ++ [input]) ↔ Ended part := by
  simp only [Ended, dataReads, ReadsEnd, reads_concat_of_none h]

/-- How the read loop was left: by such a read, because its client had left the table,
or behind the last turn. -/
def Left (fd : Nat) (part : List Input) (t : ClientTable) : Prop :=
  Ended part ∨ (dataReads part < readTurns ∧ t.serverTypes fd = none) ∨
    ((reads part).length = readTurns ∧ ∀ result ∈ reads part, result.isData = true)

/-- How far the handling of an event is. -/
def Progress (event : EpollEvent) (rest : List EpollEvent) (part : List Input) (s : State) :
    Prop :=
  match s.control with
  | .reading event' _ turns rest' | .receiving event' _ turns rest' =>
    event' = event ∧ rest' = rest ∧ turns + (reads part).length = readTurns ∧
      ∀ result ∈ reads part, result.isData = true
  | .lost event' _ rest' => event' = event ∧ rest' = rest ∧ Ended part
  | .writing iCliId _ rest' => iCliId = event.fd ∧ rest' = rest ∧ Left event.fd part s.table
  | .events rest' => rest' = rest ∧ Left event.fd part s.table
  | _ => False

theorem left_concat_of_none {fd : Nat} {part : List Input} (hRead : input.readResult = none)
    (hItems : t'.serverTypes = t.serverTypes) (h : Left fd part t) :
    Left fd (part ++ [input]) t' := by
  unfold Left dataReads
  rw [ended_concat_of_none hRead, reads_concat_of_none hRead, hItems]
  exact h

theorem progress_afterRead {event : EpollEvent} {p : Option Nat} {rest : List EpollEvent}
    {part : List Input} (h : Left event.fd part t) :
    Progress event rest part ⟨t, afterRead event p rest⟩ := by
  unfold afterRead
  split
  · exact ⟨rfl, rfl, h⟩
  · exact ⟨rfl, h⟩

section Steps

variable {event : EpollEvent} {rest : List EpollEvent} {part : List Input} {k k' : Control}

theorem Progress.callback (h : Progress event rest part ⟨t, k⟩) (hOutside : k.outside = true)
    (hRead : input.readResult = none) : Progress event rest (part ++ [input]) ⟨t', k⟩ := by
  cases k with
  | receiving event' c turns rest' =>
    obtain ⟨hEvent, hRest, hTurns, hData⟩ := h
    have hReads : reads (part ++ [input]) = reads part := reads_concat_of_none hRead
    rw [← hReads] at hTurns hData
    exact ⟨hEvent, hRest, hTurns, hData⟩
  | lost event' c rest' =>
    obtain ⟨hEvent, hRest, hEnded⟩ := h
    exact ⟨hEvent, hRest, (ended_concat_of_none hRead).mpr hEnded⟩
  | run | connecting | hungUp | readying | disconnecting => cases h
  | events | accepting | reading | writing | readyLoop | diconLoop => cases hOutside

theorem Progress.silent (h : Progress event rest part ⟨t, k⟩) (hMore : k ≠ .events rest)
    (hSilent : Silent t k input k') : Progress event rest (part ++ [input]) ⟨t, k'⟩ := by
  cases hSilent with
  | poll | acceptEnd | notReady | readied | disconnected => cases h
  | noItem | server | client | batchEnd => exact absurd (congrArg Control.events h.1) hMore
  | again hItem =>
    obtain ⟨rfl, rfl, hTurns, hData⟩ := h
    exact progress_afterRead (.inl (ended_concat hTurns rfl))
  | turnsOver =>
    obtain ⟨rfl, rfl, hTurns, hData⟩ := h
    refine progress_afterRead (.inr (.inr ?_))
    rw [reads_concat_of_none rfl]
    exact ⟨(Nat.zero_add _).symm.trans hTurns, hData⟩
  | removed hItem =>
    obtain ⟨rfl, rfl, hTurns, hData⟩ := h
    refine progress_afterRead (.inr (.inl ⟨?_, hItem⟩))
    have hLe := dataReads_le part
    unfold dataReads at *
    rw [reads_concat_of_none rfl]
    omega
  | received =>
    obtain ⟨rfl, rfl, hTurns, hData⟩ := h
    refine ⟨rfl, rfl, ?_⟩
    rw [reads_concat_of_none rfl]
    exact ⟨hTurns, hData⟩
  | lost =>
    obtain ⟨rfl, rfl, hEnded⟩ := h
    exact progress_afterRead (.inl ((ended_concat_of_none rfl).mpr hEnded))

theorem Progress.step (hSound : s.table.Sound) (h : Progress event rest part s)
    (hMore : s.control ≠ .events rest) (hStep : Transition alloc s input s') :
    Progress event rest (part ++ [input]) s' := by
  cases hStep with
  | silent hSilent => exact h.silent hMore hSilent
  | send hOutside | sendBufferedData hOutside | deleteClient hOutside | createClient hOutside
    | createServer hOutside => exact h.callback hOutside rfl
  | data hItem =>
    obtain ⟨rfl, rfl, hTurns, hData⟩ := h
    refine ⟨rfl, rfl, ?_, ?_⟩
    · rw [reads_read, List.length_append, ← hTurns, List.length_singleton]
      omega
    · intro result hResult
      rw [reads_read] at hResult
      obtain hResult | hResult := List.mem_append.mp hResult
      · exact hData result hResult
      · exact List.mem_singleton.mp hResult ▸ rfl
  | lost hItem hResult =>
    obtain ⟨rfl, rfl, hTurns, hData⟩ := h
    refine ⟨rfl, rfl, ended_concat hTurns ?_⟩
    obtain rfl | rfl := hResult
    · rfl
    · rfl
  | flush hAlive hSend =>
    obtain ⟨rfl, rfl, hLeft⟩ := h
    exact ⟨rfl, left_concat_of_none rfl (sendsOnly_flush hSound hSend).1.serverTypes hLeft⟩
  | rdhup => exact absurd (congrArg Control.events h.1) hMore
  | accept | leak | connected | hungUp | ready | readyEnd | dicon | diconGone | diconEnd => cases h

/-! ## The client of the event -/

/-- The client of the event is registered until it is deleted or a read returns no data,
and is gone for good once it is deleted. -/
structure Tracks (event : EpollEvent) (c : Nat) (part : List Input) (t : ClientTable) : Prop where
  count : c < t.clientCount
  clientID : (t.clients c).clientID = event.fd
  kept : t.life c = .live ∨ .deleteClient c ∈ part ∨ ∃ result ∈ reads part, result.isData = false
  gone : .deleteClient c ∈ part → t.life c = .deleted

theorem registered_iff_live {c : Nat} (hSound : t.Sound) :
    t.serverTypes (t.clients c).clientID = some (.client c) ↔ t.life c = .live := by
  constructor
  · exact life_eq_live hSound
  · intro hLive
    unfold life at hLive
    split at hLive
    · cases hLive
    · split at hLive
      · assumption
      · cases hLive

theorem deleted_step (hSound : s.table.Sound) (hStep : Transition alloc s input s') {c : Nat}
    (hc : c < s.table.clientCount) (hDeleted : s.table.life c = .deleted) :
    s'.table.life c = .deleted := by
  obtain ⟨events, hLife, -⟩ := lives_step hSound hStep hc
  rw [hDeleted] at hLife
  generalize s'.table.life c = l at hLife
  cases hLife with
  | stay => rfl
  | delete hNe => exact absurd rfl hNe

/-- A live client stays so in the handling of an event, unless it is deleted or a read
returns no data. -/
theorem live_step (hSound : s.table.Sound) (h : Progress event rest part s)
    (hMore : s.control ≠ .events rest) (hStep : Transition alloc s input s') {c : Nat}
    (hc : c < s.table.clientCount) (hLive : s.table.life c = .live) :
    s'.table.life c = .live ∨ input = .deleteClient c ∨
      ∃ result, input = .read result ∧ result.isData = false := by
  cases hStep with
  | silent | data => exact .inl hLive
  | send _ hAlive hd _ hSend =>
    exact .inl ((life_sendsOnly (sendsOnly_send hSound hAlive hd hSend) hc).trans hLive)
  | sendBufferedData _ _ hSend =>
    exact .inl ((life_sendsOnly (hSend.sendsOnly hSound).1 hc).trans hLive)
  | flush _ hSend => exact .inl ((life_sendsOnly (sendsOnly_flush hSound hSend).1 hc).trans hLive)
  | @deleteClient t k c' _ hAlive =>
    obtain rfl | hNe := eq_or_ne c c'
    · exact .inr (.inl rfl)
    · exact .inl ((life_deleteClient_of_ne hSound hc hAlive hNe).trans hLive)
  | @createClient t k fd ctl _ hFree =>
    cases ctl with
    | false => exact .inl hLive
    | true => exact .inl ((life_connect hSound hc hFree).trans hLive)
  | createServer _ hFree => exact .inl ((life_createServer hSound hc hFree).trans hLive)
  | lost _ hResult =>
    refine .inr (.inr ⟨_, rfl, ?_⟩)
    obtain rfl | rfl := hResult
    · rfl
    · rfl
  | rdhup => exact absurd (congrArg Control.events h.1) hMore
  | accept | leak | connected | hungUp | ready | readyEnd | dicon | diconGone | diconEnd => cases h

theorem Tracks.step {c : Nat} (hSound : s.table.Sound) (hProgress : Progress event rest part s)
    (hMore : s.control ≠ .events rest) (h : Tracks event c part s.table)
    (hStep : Transition alloc s input s') : Tracks event c (part ++ [input]) s'.table := by
  have hPersists := persists_step hSound hStep h.count
  refine ⟨hPersists.exists', hPersists.clientID.trans h.clientID, ?_, ?_⟩
  · rw [reads_concat]
    obtain hLive | hDeleted | ⟨result, hResult, hEnd⟩ := h.kept
    · obtain hLive | rfl | ⟨result, rfl, hEnd⟩ := live_step hSound hProgress hMore hStep h.count hLive
      · exact .inl hLive
      · exact .inr (.inl (by simp))
      · exact .inr (.inr ⟨result, by simp [Input.readResult], hEnd⟩)
    · exact .inr (.inl (List.mem_append_left _ hDeleted))
    · exact .inr (.inr ⟨result, List.mem_append_left _ hResult, hEnd⟩)
  · intro hDeleted
    obtain hDeleted | hDeleted := List.mem_append.mp hDeleted
    · exact deleted_step hSound hStep h.count (h.gone hDeleted)
    · obtain rfl := List.mem_singleton.mp hDeleted
      cases hStep with
      | silent hSilent => cases hSilent
      | deleteClient => exact life_deleteClient h.count

end Steps

/-! ## Whole events -/

theorem Handling.tracked {before part : List Input} {event : EpollEvent} {rest : List EpollEvent}
    {c : Nat} (h : Handling alloc before event rest c part s) (hUp : event.rdhup = false)
    (hReadable : event.readable = true) :
    Progress event rest part s ∧ Tracks event c part s.table := by
  obtain ⟨t, hRun, hItem⟩ := h.starts
  have hSound : t.Sound := reachable_sound hRun
  refine h.within.induction
    (Q := fun part s => Progress event rest part s ∧ Tracks event c part s.table) ?_ ?_ h.finishes
  · intro s₀ hRun₀
    have hNext : (machine alloc).run (before ++ [.next]) =
        some ⟨t, .reading event (some c) readTurns rest⟩ := by
      refine Machine.run_concat_eq_some.mpr ⟨_, hRun, ?_⟩
      change some (t.dispatch event rest) = _
      simp [dispatch, hItem, hUp, hReadable]
    obtain rfl := Option.some.inj (hRun₀.symm.trans hNext)
    obtain ⟨hAlive, hID, -⟩ := hSound.registered _ c hItem
    exact ⟨⟨rfl, rfl, rfl, by simp [reads]⟩,
      ⟨hAlive.1, hID, .inl (life_eq_live hSound hItem), by simp⟩⟩
  · rintro front s₀ input s₁ hRun₀ ⟨hProgress, hTracks⟩ hMore hStep
    have hSound₀ := reachable_sound hRun₀
    have hTransition := step_cases hSound₀.buffers hStep
    exact ⟨hProgress.step hSound₀ hMore hTransition,
      hTracks.step hSound₀ hProgress hMore hTransition⟩

/-- An event with `EPOLLIN` ends with a read that returns no data, or without its client in the
table, if and only if fewer reads than there are turns return data or the client is deleted. -/
theorem drains_iff {before part : List Input} {event : EpollEvent} {rest : List EpollEvent}
    {c : Nat} (h : Handling alloc before event rest c part s) (hUp : event.rdhup = false)
    (hReadable : event.readable = true) :
    (ReadsEnd part ∨ s.table.serverTypes event.fd ≠ some (.client c)) ↔
      (dataReads part < readTurns ∨ .deleteClient c ∈ part) := by
  obtain ⟨hProgress, hTracks⟩ := h.tracked hUp hReadable
  have hSound : s.table.Sound := reachable_sound h.finishes
  obtain ⟨-, hLeft⟩ : rest = rest ∧ Left event.fd part s.table := by
    unfold Progress at hProgress
    rwa [h.control] at hProgress
  have hItem : s.table.serverTypes event.fd = some (.client c) ↔ s.table.life c = .live := by
    rw [← hTracks.clientID]
    exact registered_iff_live hSound
  have hGone : s.table.serverTypes event.fd ≠ some (.client c) ↔ s.table.life c ≠ .live :=
    not_congr hItem
  rw [hGone]
  obtain ⟨hFew, hEnd⟩ | ⟨hFew, hNone⟩ | ⟨hLength, hData⟩ := hLeft
  · exact iff_of_true (.inl hEnd) (.inl hFew)
  · refine iff_of_true (.inr fun hLive => ?_) (.inl hFew)
    cases hNone.symm.trans (hItem.mpr hLive)
  · have hAll : dataReads part = readTurns := (List.countP_eq_length.mpr hData).trans hLength
    have hNoEnd : ¬ReadsEnd part := by
      rintro ⟨result, hLast, hEnd⟩
      cases (hData result (List.mem_of_getLast? hLast)).symm.trans hEnd
    rw [or_iff_right hNoEnd, or_iff_right (Nat.not_lt.mpr hAll.ge)]
    constructor
    · intro hRemoved
      obtain hLive | hDeleted | ⟨result, hResult, hEnd⟩ := hTracks.kept
      · exact absurd hLive hRemoved
      · exact hDeleted
      · cases (hData result hResult).symm.trans hEnd
    · intro hDeleted hLive
      cases hLive.symm.trans (hTracks.gone hDeleted)

/-- A client that sends a byte, which is all there is to read. -/
theorem drains_iff_byte : ∃ s,
    (machine (.filled 0)).run [.createClient 5 true, .poll [⟨5, false, true, false⟩], .next,
      .read (.data [1]), .callbackReturn, .read .again] = some s ∧
    (ReadsEnd [.read (.data [1]), .callbackReturn, .read .again] ∨
      s.table.serverTypes 5 ≠ some (.client 0)) := by
  let before : List Input := [.createClient 5 true, .poll [⟨5, false, true, false⟩]]
  let part : List Input := [.read (.data [1]), .callbackReturn, .read .again]
  obtain ⟨s, hRun, hControl⟩ : ∃ s, (machine (.filled 0)).run (before ++ [.next] ++ part) = some s ∧
      s.control = .events [] := ⟨_, rfl, rfl⟩
  have hHandling : Handling (.filled 0) before ⟨5, false, true, false⟩ [] 0 part s := by
    refine ⟨⟨_, rfl, rfl⟩, ?_, hRun, hControl⟩
    exact Machine.within_of_check (s := ((machine (.filled 0)).run (before ++ [.next])).get rfl)
      (Option.some_get _).symm (by decide)
  exact ⟨s, hRun, (drains_iff hHandling rfl rfl).mpr (.inl (by decide))⟩

/-! ## Too much to read -/

def dataTurns : Nat → List Input
  | 0 => []
  | n + 1 => dataTurns n ++ [.read (.data [1])] ++ [.callbackReturn]

theorem reads_dataTurns (n : Nat) : reads (dataTurns n) = List.replicate n (.data [1]) := by
  induction n with
  | zero => rfl
  | succ n ih =>
    rw [dataTurns, reads_concat_of_none rfl, reads_concat, ih, List.replicate_succ']
    rfl

theorem run_dataTurns {before : List Input} {event : EpollEvent} {rest : List EpollEvent}
    {c turns : Nat}
    (hRun : (machine alloc).run before = some ⟨t, .reading event (some c) turns rest⟩)
    (hItem : t.serverTypes event.fd = some (.client c)) {n : Nat} (hn : n ≤ turns) :
    (machine alloc).Within (fun s => s.control ≠ .events rest) before (dataTurns n) ∧
      ∃ t', (machine alloc).run (before ++ dataTurns n) =
          some ⟨t', .reading event (some c) (turns - n) rest⟩ ∧ t'.serverTypes = t.serverTypes := by
  induction n with
  | zero => exact ⟨Machine.within_nil, t, (List.append_nil before).symm ▸ hRun, rfl⟩
  | succ n ih =>
    obtain ⟨hWithin, t', hRun', hItems⟩ := ih (Nat.le_of_succ_le hn)
    have hTurns : turns - n = turns - (n + 1) + 1 := by omega
    rw [hTurns] at hRun'
    have hRead : (machine alloc).run (before ++ (dataTurns n ++ [.read (.data [1])])) =
        some ⟨t'.record (.onData c [1]), .receiving event c (turns - (n + 1)) rest⟩ := by
      rw [← List.append_assoc]
      refine Machine.run_concat_eq_some.mpr ⟨_, hRun', ?_⟩
      simp [machine, step, hItems, hItem, readClient, cliReadSize]
    refine ⟨?_, t'.record (.onData c [1]), ?_, hItems⟩
    · refine Machine.within_concat.mpr ⟨Machine.within_concat.mpr ⟨hWithin, ?_⟩, ?_⟩
      · rw [hRun']
        simp
      · rw [hRead]
        simp
    · rw [dataTurns, ← List.append_assoc]
      exact Machine.run_concat_eq_some.mpr ⟨_, hRead, rfl⟩

/-- The client stays in the table with unread data when every turn has returned a byte. -/
theorem not_drains : ∃ before event rest c part s,
    Handling (.filled 0) before event rest c part s ∧ event.rdhup = false ∧
      event.readable = true ∧
      ¬(ReadsEnd part ∨ s.table.serverTypes event.fd ≠ some (.client c)) := by
  let before : List Input := [.createClient 5 true, .poll [⟨5, false, true, false⟩]]
  let event : EpollEvent := ⟨5, false, true, false⟩
  obtain ⟨t, hStart, hNext, hItem⟩ : ∃ t,
      (machine (.filled 0)).run before = some ⟨t, .events [event]⟩ ∧
      (machine (.filled 0)).run (before ++ [.next]) =
        some ⟨t, .reading event (some 0) readTurns []⟩ ∧
      t.serverTypes event.fd = some (.client 0) := ⟨_, rfl, rfl, rfl⟩
  obtain ⟨hWithin, t', hRun, hItems⟩ := run_dataTurns hNext hItem (le_refl readTurns)
  rw [Nat.sub_self] at hRun
  refine ⟨before, event, [], 0, dataTurns readTurns ++ [.next], ⟨t', .events []⟩, ?_, rfl, rfl, ?_⟩
  · refine ⟨⟨t, hStart, hItem⟩, Machine.within_concat.mpr ⟨hWithin, ?_⟩, ?_, rfl⟩
    · rw [hRun]
      simp
    · rw [← List.append_assoc]
      exact Machine.run_concat_eq_some.mpr ⟨_, hRun, rfl⟩
  · rintro (⟨result, hLast, hEnd⟩ | hGone)
    · rw [reads_concat_of_none rfl, reads_dataTurns] at hLast
      obtain rfl := List.eq_of_mem_replicate (List.mem_of_getLast? hLast)
      cases hEnd
    · exact hGone (hItems ▸ hItem)

end ClientTable

end CStabilizer
