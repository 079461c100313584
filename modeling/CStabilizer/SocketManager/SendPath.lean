import CStabilizer.SocketManager.Registration

/-! # The send path

The bytes that the socket has accepted and those that are still in the send
buffer are together the data passed to `Send`, and a write that is answered in
any way can be carried out. -/

namespace CStabilizer.ClientTable

open Library Library.CString Library.Memory

variable {alloc : Allocator UInt8} {t t' : ClientTable} {s s' : State} {input : Input}

/-- No byte is lost, duplicated or reordered on the way from `Send` to the socket. -/
def Conserved (t : ClientTable) (c : Nat) : Prop :=
  t.accepted c ++ (t.clients c).sendBuffer.contents = t.passed c

/-! ## Answers of the socket -/

/-- The results that the writes of a pending length can have. -/
def Answers : Nat → List WriteResult → Prop
  | n, [] => n = 0
  | n, .accepted k :: rest => 1 ≤ k ∧ k ≤ n ∧ Answers (n - k) rest
  | n, .again :: rest | n, .failed :: rest => 0 < n ∧ rest = []

theorem sendLoop_isSome {d : ClientData} (h : d.Valid) {results : List WriteResult}
    {iBufLen iSendLen : Nat} (wrote : Bytes) (hTotal : iBufLen + iSendLen = d.currentLen)
    (hAnswers : Answers iBufLen results) :
    ∃ result, sendLoop d.data d.currentLen results iBufLen iSendLen wrote = some result := by
  have hCurrent := h.current
  have hRead := read_eq d.data iSendLen iBufLen (by rw [h.block]; omega)
  induction results generalizing iBufLen iSendLen wrote with
  | nil =>
    have hZero : iBufLen = 0 := hAnswers
    exact ⟨_, if_neg (by omega)⟩
  | cons result rest ih =>
    cases result with
    | accepted k =>
      obtain ⟨hPositive, hLe, hRest⟩ := hAnswers
      have hNext : ∃ result, sendLoop d.data d.currentLen rest (iBufLen - k) (iSendLen + k)
          (wrote ++ ((d.data.drop iSendLen).take iBufLen).take k) = some result :=
        ih _ (by omega) hRest (read_eq _ _ _ (by rw [h.block]; omega))
      obtain ⟨last, hLast⟩ := hNext
      refine ⟨last, ?_⟩
      rw [sendLoop, if_pos (by omega), hRead]
      exact (if_pos ⟨hPositive, hLe⟩).trans hLast
    | again =>
      obtain ⟨hPositive, rfl⟩ := hAnswers
      refine ⟨(.again, iSendLen, wrote), ?_⟩
      rw [sendLoop, if_pos (by omega), hRead]
      simp [hPositive]
    | failed =>
      obtain ⟨hPositive, rfl⟩ := hAnswers
      refine ⟨(.failed, iSendLen, wrote), ?_⟩
      rw [sendLoop, if_pos (by omega), hRead]
      rfl

theorem sendToClient_isSome (hBuffers : t.Buffers) {fd c : Nat} {results : SendResults}
    (hItem : t.serverTypes fd = some (.client c))
    (hAnswers : Answers (t.clients c).sendBuffer.currentLen results.writes) :
    ∃ result, t.sendToClient fd results = some result := by
  have hValid := hBuffers c
  obtain ⟨⟨exit, k, wrote⟩, hLoop⟩ :=
    sendLoop_isSome hValid [] (Nat.add_zero _) hAnswers
  obtain ⟨-, ⟨rfl, rfl⟩ | ⟨rfl, hLess⟩ | ⟨rfl, hLess, -⟩⟩ :=
    sendLoop_spec hValid (Nat.add_zero _) (by rw [List.take_zero]) hLoop
  · simp [sendToClient, hItem, hLoop]
  · obtain ⟨d, hDelete, -⟩ := hValid.deleteFromStart (Nat.le_of_lt hLess)
    simp [sendToClient, hItem, hLoop, hDelete, Except.toOption]
  · obtain ⟨d, hDelete, -⟩ := hValid.deleteFromStart (Nat.le_of_lt hLess)
    simp [sendToClient, hItem, hLoop, hDelete, Except.toOption]

theorem send_eq_some {c : Nat} {d : ClientData} {zData : Bytes} {results : SendResults} {i : Int}
    (hAppend : (t.clients c).sendBuffer.append alloc zData zData.length = .ok d)
    (hSend : ((t.setSendBuffer c d).record (.send c zData)).sendToClient (t.clients c).clientID
      results = some (i, t')) :
    t.send alloc c zData results = some (!(t'.clients c).isBuffered, t') := by
  have hAppended : t.appendToBuffer alloc c zData =
      some ((t.setSendBuffer c d).record (.send c zData)) := by
    rw [appendToBuffer, hAppend]
    rfl
  rw [← clientID_append c d zData] at hSend
  refine Option.bind_eq_some_iff.mpr ⟨_, hAppended, ?_⟩
  exact Option.bind_eq_some_iff.mpr ⟨(i, t'), hSend, rfl⟩

theorem step_send_eq_some {c : Nat} {zData : Bytes} {results : SendResults} {b : Bool}
    (hOutside : s.control.outside = true) (hAlive : s.table.Alive c)
    (hSend : s.table.send alloc c zData results = some (b, t')) :
    (machine alloc).step s (.send c zData results) = some ⟨t', s.control⟩ := by
  apply (if_pos ⟨hOutside, hAlive⟩).trans
  rw [hSend]
  rfl

/-- A chunk that fits the buffer of a registered client can be sent, whatever the socket
answers to the writes. -/
theorem step_send_isSome (h : s.table.Sound) (hOutside : s.control.outside = true) {fd c : Nat}
    {zData : Bytes} {results : SendResults} (hItem : s.table.serverTypes fd = some (.client c))
    (hFits : (s.table.clients c).sendBuffer.Fits zData.length)
    (hAnswers : Answers ((s.table.clients c).sendBuffer.currentLen + zData.length) results.writes) :
    ∃ t', (machine alloc).step s (.send c zData results) = some ⟨t', s.control⟩ := by
  obtain ⟨hAlive, hID, -⟩ := h.registered fd c hItem
  obtain ⟨d, hAppend, hd, hContents⟩ := (h.buffers c).append alloc (Nat.le_refl _) hFits
  have hLength : d.currentLen = (s.table.clients c).sendBuffer.currentLen + zData.length := by
    rw [← hd.length_contents, hContents, List.length_append, (h.buffers c).length_contents,
      List.take_length]
  have hBuffer : (((s.table.setSendBuffer c d).record (.send c zData)).clients
      c).sendBuffer = d := by
    rw [clients_record, clients_setSendBuffer]
    exact if_pos rfl
  rw [← hLength, ← hBuffer] at hAnswers
  obtain ⟨⟨i, t'⟩, hSend⟩ :=
    sendToClient_isSome (h.append hAlive hd zData).buffers (hID.symm ▸ hItem) hAnswers
  exact ⟨t', step_send_eq_some hOutside hAlive (send_eq_some hAppend hSend)⟩

/-- The first chunk for a client that is registered with a new buffer. -/
theorem step_send_new {t : ClientTable} {k : Control} (h : t.Sound) (hOutside : k.outside = true)
    {fd c : Nat} (hItem : t.serverTypes fd = some (.client c))
    (hBuffer : (t.clients c).sendBuffer = .init alloc) {zData : Bytes} {results : SendResults}
    (hLength : zData.length ≤ initNormBufLen) (hAnswers : Answers zData.length results.writes) :
    ∃ t', (machine alloc).step ⟨t, k⟩ (.send c zData results) = some ⟨t', k⟩ := by
  apply step_send_isSome (s := ⟨t, k⟩) h hOutside hItem
  · exact hBuffer ▸ ClientData.fits_init alloc hLength
  · have hZero : (t.clients c).sendBuffer.currentLen = 0 := by rw [hBuffer]; rfl
    rw [hZero, Nat.zero_add]
    exact hAnswers

/-! ## Data passed to `Send` -/

def Input.sent (pClient : Nat) : Input → Bytes
  | .send pOther zData _ => if pOther = pClient then zData else []
  | .poll _ | .next | .accept _ | .read _ | .flush .. | .callbackReturn | .sendBufferedData ..
  | .deleteClient _ | .createClient .. | .createServer .. => []

def sentIn (pClient : Nat) (inputs : List Input) : Bytes := inputs.flatMap (Input.sent pClient)

theorem passed_record (event : SocketEvent) (c : Nat) :
    (t.record event).passed c = t.passed c ++ event.passedTo c := by
  simp [passed, record]

theorem Silent.sent {k k' : Control} (h : Silent t k input k') (c : Nat) : input.sent c = [] := by
  cases h <;> rfl

theorem Sending.passed_eq {fd : Nat} {results : SendResults} {i : Int}
    (hSend : Sending t fd results i t') (c : Nat) : t'.passed c = t.passed c := by
  cases hSend with
  | unregistered => rfl
  | all | again | failed => exact (passed_record (.wrote _ _) c).trans (List.append_nil _)

theorem passed_flushed (t : ClientTable) (fd c : Nat) (i : Int) (ctl : Bool) (c' : Nat) :
    (flushed t t' fd c i ctl).passed c' = t'.passed c' := by
  unfold flushed
  split <;> rfl

theorem passed_step (hStep : Transition alloc s input s') (c : Nat) :
    s'.table.passed c = s.table.passed c ++ input.sent c := by
  cases hStep with
  | silent h => rw [h.sent, List.append_nil]
  | send _ _ _ _ hSend => exact (hSend.passed_eq c).trans (passed_record (.send _ _) c)
  | sendBufferedData _ _ hSend => exact (hSend.passed_eq c).trans (List.append_nil _).symm
  | flush _ hSend =>
    exact (passed_flushed ..).trans ((hSend.passed_eq c).trans (List.append_nil _).symm)
  | @deleteClient t k c' =>
    exact passed_record (t := t.addToDeletedClientSet (t.clients c').clientID) (.deleted c') c
  | @createClient t k fd ctl => cases ctl <;> exact (List.append_nil _).symm
  | @createServer t k fd ctl => cases ctl <;> exact (List.append_nil _).symm
  | @accept t p fd rest =>
    exact passed_record (t := (t.openSocket fd true).newClient alloc fd (some p)) (.onConnect _) c
  | @rdhup t event rest c' => exact passed_record (t := t.setItem event.fd none) (.onDisconnect c') c
  | @lost t event p c' turns rest result _ hResult =>
    obtain rfl | rfl := hResult
    all_goals exact passed_record (t := t.setItem event.fd none) (.onDisconnect c') c
  | @dicon t ite fd c' => exact passed_record (t := t.setItem fd none) (.onDisconnect c') c
  | data | ready => exact passed_record _ c
  | hungUp =>
    rw [hangUp_eq]
    exact (List.append_nil _).symm
  | leak | connected | readyEnd | diconGone | diconEnd => exact (List.append_nil _).symm

theorem passed_eq_sentIn {inputs : List Input} (hRun : (machine alloc).run inputs = some s)
    (c : Nat) : s.table.passed c = sentIn c inputs := by
  induction inputs using List.reverseRecOn generalizing s with
  | nil =>
    obtain rfl := Option.some.inj hRun
    rfl
  | append_singleton inputs input ih =>
    obtain ⟨s₀, hRun₀, hStep⟩ := Machine.run_concat_eq_some.mp hRun
    rw [passed_step (step_cases (reachable_sound hRun₀).buffers hStep), ih hRun₀, sentIn, sentIn,
      List.flatMap_append, List.flatMap_singleton]

/-! ## Conservation -/

theorem accepted_record (event : SocketEvent) (c : Nat) :
    (t.record event).accepted c = t.accepted c ++ event.acceptedFrom c := by
  simp [accepted, record]

theorem Conserved.congr {c : Nat} (h : t.Conserved c)
    (hBuffer : (t'.clients c).sendBuffer = (t.clients c).sendBuffer)
    (hTrace : t'.trace = t.trace) : t'.Conserved c := by
  unfold Conserved accepted passed
  rw [hBuffer, hTrace]
  exact h

theorem Conserved.record {c : Nat} (h : t.Conserved c) {event : SocketEvent}
    (hSends : event.sends = false) : (t.record event).Conserved c := by
  have hNothing : event.acceptedFrom c = [] ∧ event.passedTo c = [] := by
    cases event with
    | send | wrote => cases hSends
    | onConnect | onData | onReadyToSend | onDisconnect | deleted => exact ⟨rfl, rfl⟩
  unfold Conserved
  rw [accepted_record, passed_record, hNothing.1, hNothing.2, List.append_nil, List.append_nil]
  exact h

theorem Conserved.append {c c' : Nat} (h : t.Conserved c') {d : ClientData} {zData : Bytes}
    (hContents : d.contents = (t.clients c).sendBuffer.contents ++ zData) :
    ((t.setSendBuffer c d).record (.send c zData)).Conserved c' := by
  unfold Conserved at *
  rw [accepted_record, passed_record]
  change t.accepted c' ++ _ ++ ((t.setSendBuffer c d).clients c').sendBuffer.contents =
    t.passed c' ++ _
  rw [clients_setSendBuffer, ← h]
  obtain rfl | hNe := eq_or_ne c' c
  · simp [SocketEvent.acceptedFrom, SocketEvent.passedTo, hContents]
  · simp [SocketEvent.acceptedFrom, SocketEvent.passedTo, hNe, hNe.symm]

/-- Bytes move from the front of a buffer to the socket. -/
theorem Conserved.write {c c' : Nat} (h : t.Conserved c') {d : ClientData} {bytes : Bytes}
    (hContents : bytes ++ d.contents = (t.clients c).sendBuffer.contents) :
    ((t.record (.wrote c bytes)).setSendBuffer c d).Conserved c' := by
  unfold Conserved at *
  change (t.record (.wrote c bytes)).accepted c' ++ _ = (t.record (.wrote c bytes)).passed c'
  rw [accepted_record, passed_record, clients_setSendBuffer, ← h]
  obtain rfl | hNe := eq_or_ne c' c
  · simp [SocketEvent.acceptedFrom, SocketEvent.passedTo, ← hContents]
  · simp [SocketEvent.acceptedFrom, SocketEvent.passedTo, hNe, hNe.symm]

/-- A write that accepts the first `k` bytes. -/
theorem Conserved.writeFront {c c' k : Nat} (h : t.Conserved c') {d : ClientData}
    (hContents : d.contents = (t.clients c).sendBuffer.contents.drop k) :
    ((t.record (.wrote c ((t.clients c).sendBuffer.contents.take k))).setSendBuffer
      c d).Conserved c' := by
  apply h.write
  rw [hContents, List.take_append_drop]

theorem Conserved.sending {fd c : Nat} {results : SendResults} {i : Int} (h : t.Conserved c)
    (hSend : Sending t fd results i t') : t'.Conserved c := by
  cases hSend with
  | unregistered => exact h
  | all hItem hValid hContents =>
    apply h.write
    rw [hContents, List.append_nil]
  | again hItem hLess hValid hContents =>
    refine (h.writeFront hContents).congr ?_ rfl
    simp
  | failed hItem hLess hValid hContents =>
    exact (h.writeFront hContents).congr rfl rfl

/-- Nothing has been passed to the `Send` of a client that does not exist yet. -/
theorem Conserved.newClient {c fd : Nat} {p : Option Nat} (hSound : t.Sound) (h : t.Conserved c) :
    (t.newClient alloc fd p).Conserved c := by
  obtain rfl | hNe := eq_or_ne c t.clientCount
  · have hAccepted : t.accepted t.clientCount = [] := by
      apply List.flatMap_eq_nil_iff.mpr
      intro event hEvent
      have hKnown := hSound.known event hEvent
      cases event with
      | wrote c' bytes => exact if_neg (Nat.ne_of_lt hKnown)
      | _ => rfl
    have hPassed : t.passed t.clientCount = [] := by
      apply List.flatMap_eq_nil_iff.mpr
      intro event hEvent
      have hKnown := hSound.known event hEvent
      cases event with
      | send c' zData => exact if_neg (Nat.ne_of_lt hKnown)
      | _ => rfl
    change t.accepted t.clientCount ++ _ = t.passed t.clientCount
    rw [clients_newClient, if_pos rfl, hAccepted, hPassed]
    rfl
  · refine h.congr ?_ rfl
    rw [clients_newClient, if_neg hNe]

theorem Conserved.step {c : Nat} (hSound : s.table.Sound) (h : s.table.Conserved c)
    (hStep : Transition alloc s input s') : s'.table.Conserved c := by
  cases hStep with
  | silent | connected | leak | readyEnd | diconGone | diconEnd => exact h
  | send _ _ _ hContents hSend => exact (h.append hContents).sending hSend
  | sendBufferedData _ _ hSend => exact h.sending hSend
  | @deleteClient t k c' =>
    have hRecord : (t.record (.deleted c')).Conserved c := h.record rfl
    refine hRecord.congr ?_ rfl
    rw [clients_deleteClient]
    rfl
  | @createClient t k fd ctl =>
    cases ctl with
    | false => exact h
    | true => exact Conserved.newClient (t := t.openSocket fd true) (hSound.openSocket fd true) h
  | @createServer t k fd ctl => cases ctl <;> exact h
  | @accept t p fd rest =>
    have hNew : ((t.openSocket fd true).newClient alloc fd (some p)).Conserved c :=
      Conserved.newClient (hSound.openSocket fd true) h
    exact hNew.record rfl
  | rdhup | lost | dicon => exact Conserved.record (t := (_ : ClientTable).setItem _ none) h rfl
  | hungUp =>
    rw [hangUp_eq]
    exact h
  | data | ready => exact h.record rfl
  | @flush t t' fd c' rest results ctl i hAlive hSend =>
    have hBefore : ((t.insertReady fd).setBufferStatus c' false).Conserved c := by
      refine h.congr ?_ rfl
      rw [clients_setBufferStatus]
      rfl
    have hAfter := hBefore.sending hSend
    change (flushed t t' fd c' i ctl).Conserved c
    unfold flushed
    split
    · exact hAfter.congr rfl rfl
    · exact hAfter

theorem send_path_conserves {inputs : List Input} (hRun : (machine alloc).run inputs = some s)
    (c : Nat) : s.table.passed c = sentIn c inputs ∧ s.table.Conserved c := by
  refine ⟨passed_eq_sentIn hRun c, ?_⟩
  exact (run_induction (I := fun s => s.table.Conserved c) rfl
    (fun _ _ _ hSound h hStep => h.step hSound hStep) hRun).2

/-- The socket accepts one byte of three. -/
def shortWrite : List Input :=
  [.createClient 5 true, .send 0 [1, 2, 3] ⟨[.accepted 1, .again], true⟩]

theorem run_shortWrite : ∃ s, (machine (.filled 0)).run shortWrite = some s := by
  have hCreate : (machine (.filled 0)).run [.createClient 5 true] =
      some ⟨(create (.filled 0)).createClient (.filled 0) 5 true, .run⟩ := rfl
  have hItem : ((create (.filled 0)).createClient (.filled 0) 5 true).serverTypes 5 =
      some (.client 0) := rfl
  have hSend : ∃ t', (machine (.filled 0)).step
      ⟨(create (.filled 0)).createClient (.filled 0) 5 true, .run⟩
      (.send 0 [1, 2, 3] ⟨[.accepted 1, .again], true⟩) = some ⟨t', .run⟩ :=
    step_send_new (reachable_sound hCreate) rfl hItem rfl (by decide)
      ⟨by decide, by decide, by decide, rfl⟩
  obtain ⟨t', hStep⟩ := hSend
  have hRun := Machine.run_concat_eq_some.mpr ⟨_, hCreate, hStep⟩
  exact ⟨_, hRun⟩

theorem send_path_conserves_short_write :
    ∃ s, (machine (.filled 0)).run shortWrite = some s ∧ s.table.passed 0 = [1, 2, 3] ∧
      s.table.Conserved 0 := by
  obtain ⟨s, hRun⟩ := run_shortWrite
  exact ⟨s, hRun, send_path_conserves hRun 0⟩

end CStabilizer.ClientTable
