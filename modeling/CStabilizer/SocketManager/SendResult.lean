import CStabilizer.SocketManager.SendPath

/-! # What `Send` returns

The result of `Send` is the flag of the client, which one exit of `SendToClient`
sets and only an `EPOLLOUT` event clears. -/

namespace CStabilizer.ClientTable

open Library Library.CString Library.Memory

variable {alloc : Allocator UInt8} {t t' : ClientTable} {s : State} {c : Nat} {zData : Bytes}
  {results : SendResults}

/-- The exit of the loop, which the answer to the last write decides. -/
def exitOf (writes : List WriteResult) : SendExit :=
  match writes.getLast? with
  | some .again => .again
  | some .failed => .failed
  | some (.accepted _) | none => .all

/-- `Send` returns true if and only if the socket has accepted all that was passed to it, that is if
and only if nothing is left in the send buffer. -/
def Truthful (t' : ClientTable) (c : Nat) (result : Bool) : Prop :=
  (result = true ↔ t'.accepted c = t'.passed c) ∧
    (t'.accepted c = t'.passed c ↔ (t'.clients c).sendBuffer.contents = [])

/-- For a registered client: the last write is answered with `EAGAIN`, or it fails while the client
is marked as buffered, or no write fails while it is not. For a client that is not registered: it is
marked as buffered if and only if it has something to send. -/
def FlagAgrees (t : ClientTable) (c : Nat) (zData : Bytes) (results : SendResults) : Prop :=
  if t.serverTypes (t.clients c).clientID = none then
    (t.clients c).isBuffered = true ↔ (t.clients c).sendBuffer.contents ++ zData ≠ []
  else
    match exitOf results.writes with
    | .all => (t.clients c).isBuffered = false
    | .again => True
    | .failed => (t.clients c).isBuffered = true

theorem exitOf_accepted (n : Nat) (rest : List WriteResult) :
    exitOf (.accepted n :: rest) = exitOf rest := by
  cases rest with
  | nil => rfl
  | cons result rest => rw [exitOf, List.getLast?_cons_cons, exitOf]

theorem sendLoop_exit {zBuf : Bytes} {iTotLen : Nat} {writes : List WriteResult}
    {iBufLen iSendLen k : Nat} {wrote wrote' : Bytes} {exit : SendExit}
    (hTotal : iBufLen + iSendLen = iTotLen)
    (h : sendLoop zBuf iTotLen writes iBufLen iSendLen wrote = some (exit, k, wrote')) :
    exit = exitOf writes := by
  induction writes generalizing iBufLen iSendLen wrote with
  | nil =>
    rw [sendLoop] at h
    split at h
    · cases h
    · cases h
      rfl
  | cons result rest ih =>
    rw [sendLoop] at h
    obtain ⟨hLess, h⟩ := Option.ite_none_right_eq_some.mp h
    obtain ⟨bytes, -, h⟩ := Option.bind_eq_some_iff.mp h
    cases result with
    | accepted n =>
      obtain ⟨hRange, h⟩ := Option.ite_none_right_eq_some.mp h
      rw [exitOf_accepted]
      exact ih (by omega) h
    | again =>
      obtain ⟨hEnd, h⟩ := Option.ite_none_right_eq_some.mp h
      rw [if_pos (by omega)] at h
      cases h
      rw [List.isEmpty_iff.mp hEnd]
      rfl
    | failed =>
      obtain ⟨hEnd, h⟩ := Option.ite_none_right_eq_some.mp h
      cases h
      rw [List.isEmpty_iff.mp hEnd]
      rfl

theorem drop_ne_nil {d d' : ClientData} (h : d.Valid) {k : Nat} (hLess : k < d.currentLen)
    (hContents : d'.contents = d.contents.drop k) : d'.contents ≠ [] := by
  intro hEmpty
  have hLength := congrArg List.length (hContents.symm.trans hEmpty)
  rw [List.length_drop, h.length_contents, List.length_nil] at hLength
  omega

/-- The state of a registered client behind `SendToClient`. -/
theorem sendToClient_exit {fd : Nat} {i : Int} (hBuffers : t.Buffers)
    (hItem : t.serverTypes fd = some (.client c))
    (hSend : t.sendToClient fd results = some (i, t')) :
    ((t'.clients c).sendBuffer.contents = [] ↔ exitOf results.writes = .all) ∧
      ((t'.clients c).isBuffered = true ↔
        exitOf results.writes = .again ∨ (t.clients c).isBuffered = true) := by
  have hValid := hBuffers c
  unfold sendToClient at hSend
  simp only [hItem, Option.bind_eq_bind, Option.bind_eq_some_iff, Prod.exists] at hSend
  obtain ⟨exit, k, wrote, hLoop, hSend⟩ := hSend
  rw [← sendLoop_exit (Nat.add_zero _) hLoop]
  obtain ⟨-, ⟨rfl, rfl⟩ | ⟨rfl, hLess⟩ | ⟨rfl, hLess, -⟩⟩ :=
    sendLoop_spec hValid (Nat.add_zero _) (by rw [List.take_zero]) hLoop
  · obtain ⟨rfl, rfl⟩ := by simpa using hSend
    simp [ClientData.contents_resetData]
  · obtain ⟨d, hDelete, -, hContents⟩ := hValid.deleteFromStart (Nat.le_of_lt hLess)
    obtain ⟨rfl, rfl⟩ := by simpa [hDelete, Except.toOption] using hSend
    simp [drop_ne_nil hValid hLess hContents]
  · obtain ⟨d, hDelete, -, hContents⟩ := hValid.deleteFromStart (Nat.le_of_lt hLess)
    obtain ⟨rfl, rfl⟩ := by simpa [hDelete, Except.toOption] using hSend
    have hLeft := drop_ne_nil hValid hLess hContents
    simp [insertDicon, setSendBuffer, hLeft]

theorem sendToClient_unregistered {fd : Nat} {i : Int} (hItem : t.serverTypes fd = none)
    (hSend : t.sendToClient fd results = some (i, t')) : t' = t := by
  rw [sendToClient, hItem] at hSend
  obtain ⟨-, hSend⟩ := Option.ite_none_right_eq_some.mp hSend
  exact (Prod.mk.inj (Option.some.inj hSend)).2.symm

theorem send_spec {result : Bool} (hSound : t.Sound) (hAlive : t.Alive c)
    (hSend : t.send alloc c zData results = some (result, t')) :
    ∃ d i, d.contents = (t.clients c).sendBuffer.contents ++ zData ∧
      ((t.setSendBuffer c d).record (.send c zData)).Sound ∧
      ((t.setSendBuffer c d).record (.send c zData)).sendToClient (t.clients c).clientID results =
        some (i, t') ∧
      result = !(t'.clients c).isBuffered := by
  obtain ⟨t₁, hAppend, hRest⟩ := Option.bind_eq_some_iff.mp hSend
  obtain ⟨⟨i, t₂⟩, hCall, hReturn⟩ := Option.bind_eq_some_iff.mp hRest
  obtain ⟨rfl, rfl⟩ := Prod.mk.inj (Option.some.inj hReturn)
  obtain ⟨d, hd, hContents, rfl⟩ := appendToBuffer_cases hSound.buffers hAppend
  rw [clientID_append] at hCall
  exact ⟨d, i, hContents, hSound.append hAlive hd zData, hCall, rfl⟩

theorem isBuffered_append (c : Nat) (d : ClientData) (zData : Bytes) :
    (((t.setSendBuffer c d).record (.send c zData)).clients c).isBuffered =
      (t.clients c).isBuffered := by
  rw [clients_record, clients_setSendBuffer]

/-- What `Send` returns for a registered client, and whether something is left. -/
theorem send_registered {result : Bool} {fd : Nat} (hSound : t.Sound)
    (hItem : t.serverTypes fd = some (.client c))
    (hSend : t.send alloc c zData results = some (result, t')) :
    ((t'.clients c).sendBuffer.contents = [] ↔ exitOf results.writes = .all) ∧
      (result = false ↔ exitOf results.writes = .again ∨ (t.clients c).isBuffered = true) := by
  obtain ⟨hAlive, rfl, -⟩ := hSound.registered fd c hItem
  obtain ⟨d, i, -, hAppended, hCall, rfl⟩ := send_spec hSound hAlive hSend
  obtain ⟨hEmpty, hFlag⟩ := sendToClient_exit hAppended.buffers hItem hCall
  rw [isBuffered_append] at hFlag
  exact ⟨hEmpty, by rw [Bool.not_eq_false', hFlag]⟩

theorem send_result {result : Bool} (hSound : t.Sound) (hAlive : t.Alive c)
    (hSend : t.send alloc c zData results = some (result, t')) :
    (result = true ↔ (t'.clients c).sendBuffer.contents = []) ↔
      FlagAgrees t c zData results := by
  rw [FlagAgrees]
  cases hItem : t.serverTypes (t.clients c).clientID with
  | none =>
    obtain ⟨d, i, hContents, -, hCall, rfl⟩ := send_spec hSound hAlive hSend
    have hBuffer : (((t.setSendBuffer c d).record (.send c zData)).clients c).sendBuffer = d := by
      rw [clients_record, clients_setSendBuffer]
      exact if_pos rfl
    have hItem' : ((t.setSendBuffer c d).record (.send c zData)).serverTypes
        (t.clients c).clientID = none := hItem
    obtain rfl := sendToClient_unregistered hItem' hCall
    rw [isBuffered_append, hBuffer, hContents, if_pos rfl]
    cases (t.clients c).isBuffered <;> simp
  | some item =>
    obtain rfl := (hSound.owned c hAlive).2 item hItem
    obtain ⟨hEmpty, hFlag⟩ := send_registered hSound hItem hSend
    rw [hEmpty, if_neg (Option.some_ne_none _), ← Bool.not_eq_false, hFlag]
    cases exitOf results.writes with
    | all => simp
    | again => simp
    | failed => simp

theorem truthful_iff {result : Bool} (hConserved : t'.Conserved c) :
    Truthful t' c result ↔ (result = true ↔ (t'.clients c).sendBuffer.contents = []) := by
  have hAll : t'.accepted c = t'.passed c ↔ (t'.clients c).sendBuffer.contents = [] := by
    rw [← hConserved, List.self_eq_append_right]
  rw [Truthful, and_iff_left hAll, hAll]

theorem send_truthful_iff {inputs : List Input} (hRun : (machine alloc).run inputs = some s)
    (hAlive : s.table.Alive c) {result : Bool}
    (hSend : s.table.send alloc c zData results = some (result, t')) :
    Truthful t' c result ↔ FlagAgrees s.table c zData results := by
  obtain ⟨hSound, hConserved⟩ := run_induction (I := fun s => s.table.Conserved c) rfl
    (fun _ _ _ hSound h hStep => h.step hSound hStep) hRun
  obtain ⟨d, i, -, hContents, hSending⟩ := send_cases hSound.buffers hSend
  rw [truthful_iff ((hConserved.append hContents).sending hSending)]
  exact send_result hSound hAlive hSend

theorem send_of_step {s' : State} (h : (machine alloc).step s (.send c zData results) = some s') :
    ∃ result t', s.table.send alloc c zData results = some (result, t') := by
  have hStep : step alloc s (.send c zData results) = some s' := h
  obtain ⟨-, hCall⟩ := Option.ite_none_right_eq_some.mp hStep
  obtain ⟨⟨result, t'⟩, hSend, -⟩ := Option.map_eq_some_iff.mp hCall
  exact ⟨result, t', hSend⟩

def oneClient : ClientTable := (create (.filled 0)).createClient (.filled 0) 5 true

theorem run_oneClient :
    (machine (.filled 0)).run [.createClient 5 true] = some ⟨oneClient, .run⟩ := rfl

theorem oneClient_registered : oneClient.serverTypes 5 = some (.client 0) := rfl

theorem send_oneClient {zData : Bytes} (results : SendResults)
    (hLength : zData.length ≤ initNormBufLen)
    (hAnswers : Answers zData.length results.writes) :
    ∃ result t', oneClient.send (.filled 0) 0 zData results = some (result, t') := by
  obtain ⟨t', hStep⟩ := step_send_new (k := .run) (reachable_sound run_oneClient) rfl
    oneClient_registered rfl hLength hAnswers
  exact send_of_step (s := ⟨oneClient, .run⟩) hStep

theorem send_truthful_iff_short_write : ∃ result t',
    oneClient.send (.filled 0) 0 [1, 2, 3] ⟨[.accepted 1, .again], true⟩ = some (result, t') ∧
      Truthful t' 0 result := by
  obtain ⟨result, t', hSend⟩ := send_oneClient ⟨[.accepted 1, .again], true⟩
    (show [1, 2, 3].length ≤ initNormBufLen by decide) ⟨by decide, by decide, by decide, rfl⟩
  have hIff := send_truthful_iff run_oneClient (by decide) hSend
  exact ⟨result, t', hSend, hIff.mpr trivial⟩

/-- The first write fails, and `Send` returns true although the byte is still in the buffer. -/
theorem not_send_truthful :
    ¬(∀ (inputs : List Input) (s : State) (c : Nat) (zData : Bytes) (results : SendResults)
      (result : Bool) (t' : ClientTable), (machine (.filled 0)).run inputs = some s →
      s.table.Alive c → s.table.send (.filled 0) c zData results = some (result, t') →
      Truthful t' c result) ∧
    ∃ t', oneClient.send (.filled 0) 0 [1] ⟨[.failed], true⟩ = some (true, t') ∧
      (t'.clients 0).sendBuffer.contents ≠ [] := by
  obtain ⟨result, t', hSend⟩ := send_oneClient ⟨[.failed], true⟩
    (show [1].length ≤ initNormBufLen by decide) ⟨by decide, rfl⟩
  obtain ⟨hEmpty, hFlag⟩ :=
    send_registered (reachable_sound run_oneClient) oneClient_registered hSend
  have hLeft : (t'.clients 0).sendBuffer.contents ≠ [] := fun h => absurd (hEmpty.mp h) (by decide)
  have hTrue : result = true := Bool.not_eq_false _ ▸ fun h => absurd (hFlag.mp h) (by decide)
  subst hTrue
  refine ⟨fun h => ?_, t', hSend, hLeft⟩
  obtain ⟨hAll, hContents⟩ := h _ _ 0 [1] _ true t' run_oneClient (by decide) hSend
  exact hLeft (hContents.mp (hAll.mp rfl))

end CStabilizer.ClientTable
