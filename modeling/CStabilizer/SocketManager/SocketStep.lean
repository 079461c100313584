import CStabilizer.SocketManager.ClientTable

/-! # The steps of the client table

What one step can do, once the send buffers are valid. -/

namespace CStabilizer.ClientTable

open Library Library.CString Library.Memory

variable {alloc : Allocator UInt8} {t t' : ClientTable} {s s' : State} {input : Input}

def Buffers (t : ClientTable) : Prop := ∀ c, (t.clients c).sendBuffer.Valid

/-! ## Fields -/

@[simp] theorem clients_record (event : SocketEvent) : (t.record event).clients = t.clients := rfl

@[simp] theorem clients_epollMod (fd : Nat) (out ctl : Bool) :
    (t.epollMod fd out ctl).clients = t.clients := rfl

@[simp] theorem clients_insertReady (fd : Nat) : (t.insertReady fd).clients = t.clients := rfl

@[simp] theorem clients_setBufferStatus (c c' : Nat) (b : Bool) :
    (t.setBufferStatus c b).clients c' = { t.clients c' with
      isBuffered := if c' = c then b else (t.clients c').isBuffered } := by
  obtain rfl | hNe := eq_or_ne c' c
  · simp [setBufferStatus]
  · simp [setBufferStatus, hNe]

@[simp] theorem clients_setSendBuffer (c c' : Nat) (d : ClientData) :
    (t.setSendBuffer c d).clients c' = { t.clients c' with
      sendBuffer := if c' = c then d else (t.clients c').sendBuffer } := by
  obtain rfl | hNe := eq_or_ne c' c
  · simp [setSendBuffer]
  · simp [setSendBuffer, hNe]

@[simp] theorem serverTypes_setItem (fd fd' : Nat) (item : Option ServerType) :
    (t.setItem fd item).serverTypes fd' = if fd' = fd then item else t.serverTypes fd' :=
  Function.update_apply ..

@[simp] theorem epoll_epollDel (fd fd' : Nat) :
    (t.epollDel fd).epoll fd' = if fd' = fd then none else t.epoll fd' :=
  Function.update_apply ..

@[simp] theorem isOpen_openSocket (fd fd' : Nat) (ctl : Bool) :
    (t.openSocket fd ctl).isOpen fd' = if fd' = fd then true else t.isOpen fd' :=
  Function.update_apply ..

@[simp] theorem epoll_openSocket (fd fd' : Nat) (ctl : Bool) :
    (t.openSocket fd ctl).epoll fd' =
      if ctl = true ∧ fd' = fd then some false else t.epoll fd' := by
  cases ctl with
  | false => simp [openSocket]
  | true => simp [openSocket, Function.update_apply]

@[simp] theorem serverTypes_newClient (fd fd' : Nat) (p : Option Nat) :
    (t.newClient alloc fd p).serverTypes fd' =
      if fd' = fd then some (.client t.clientCount) else t.serverTypes fd' :=
  Function.update_apply ..

@[simp] theorem serverTypes_createServer (fd fd' : Nat) (ctl : Bool) :
    (t.createServer fd ctl).serverTypes fd' =
      if ctl = true ∧ fd' = fd then some (.server t.serverCount) else t.serverTypes fd' := by
  cases ctl with
  | false => simp [createServer, openSocket]
  | true => exact (Function.update_apply ..).trans (by simp [openSocket])

@[simp] theorem serverTypes_deleteClient (c fd : Nat) :
    (t.deleteClient c).serverTypes fd =
      if fd = (t.clients c).clientID then none else t.serverTypes fd :=
  Function.update_apply ..

@[simp] theorem isOpen_deleteClient (c fd : Nat) :
    (t.deleteClient c).isOpen fd = if fd = (t.clients c).clientID then false else t.isOpen fd :=
  Function.update_apply ..

@[simp] theorem epoll_deleteClient (c fd : Nat) :
    (t.deleteClient c).epoll fd = if fd = (t.clients c).clientID then none else t.epoll fd :=
  Function.update_apply ..

@[simp] theorem clients_newClient (fd c : Nat) (p : Option Nat) :
    (t.newClient alloc fd p).clients c =
      if c = t.clientCount then ⟨fd, p, .init alloc, false, false⟩ else t.clients c :=
  Function.update_apply ..

@[simp] theorem clients_deleteClient (c c' : Nat) :
    (t.deleteClient c).clients c' = { t.clients c' with
      deleted := if c' = c then true else (t.clients c').deleted } := by
  obtain rfl | hNe := eq_or_ne c' c
  · simp [deleteClient]
  · simp [deleteClient, hNe, addToDeletedClientSet, epollDel, setItem]

/-- `epoll_ctl` for one descriptor leaves the others alone. -/
theorem epoll_epollMod_of_ne {fd fd' : Nat} (out ctl : Bool) (hNe : fd' ≠ fd) :
    (t.epollMod fd out ctl).epoll fd' = t.epoll fd' := by
  simp only [epollMod]
  split
  · exact Function.update_of_ne hNe ..
  · rfl

/-- A chunk in its buffer does not change the descriptor of a client. -/
theorem clientID_append (c : Nat) (d : ClientData) (zData : Bytes) :
    (((t.setSendBuffer c d).record (.send c zData)).clients c).clientID =
      (t.clients c).clientID := by
  rw [clients_record, clients_setSendBuffer]

theorem Buffers.setBufferStatus (h : t.Buffers) (c : Nat) (b : Bool) :
    (t.setBufferStatus c b).Buffers := by
  intro c'
  rw [clients_setBufferStatus]
  exact h c'

theorem Buffers.setSendBuffer (h : t.Buffers) (c : Nat) {d : ClientData} (hd : d.Valid) :
    (t.setSendBuffer c d).Buffers := by
  intro c'
  rw [clients_setSendBuffer]
  change (if c' = c then d else (t.clients c').sendBuffer).Valid
  split
  · exact hd
  · exact h c'

theorem Buffers.newClient (h : t.Buffers) (alloc : Allocator UInt8) (fd : Nat) (p : Option Nat) :
    (t.newClient alloc fd p).Buffers := by
  intro c
  rw [clients_newClient]
  split
  · exact ClientData.valid_init alloc
  · exact h c

theorem Buffers.deleteClient (h : t.Buffers) (c : Nat) : (t.deleteClient c).Buffers := by
  intro c'
  rw [clients_deleteClient]
  exact h c'

/-! ## Iterators -/

theorem iterate_eq_some {set : Finset Nat} {ite fd : Nat} (h : iterate set ite = some fd) :
    fd ∈ set ∧ ite ≤ fd ∧ ∀ x ∈ set, ite ≤ x → fd ≤ x := by
  obtain ⟨hMem, hLe⟩ := Finset.mem_filter.mp (Finset.mem_of_min h)
  exact ⟨hMem, hLe, fun x hx hIte => Finset.min_le_of_eq (Finset.mem_filter.mpr ⟨hx, hIte⟩) h⟩

theorem iterate_eq_none {set : Finset Nat} {ite : Nat} (h : iterate set ite = none) :
    ∀ x ∈ set, x < ite := by
  have hEmpty := Finset.min_eq_top.mp h
  intro x hx
  by_contra hIte
  exact Finset.notMem_empty x (hEmpty ▸ Finset.mem_filter.mpr ⟨hx, Nat.not_lt.mp hIte⟩)

/-! ## Sending -/

/-- However the writes are answered, what is accepted is the front of the buffer,
and all of it unless the last write fails. -/
theorem sendLoop_spec {d : ClientData} (h : d.Valid) {results : List WriteResult}
    {iBufLen iSendLen k : Nat} {wrote wrote' : Bytes} {exit : SendExit}
    (hTotal : iBufLen + iSendLen = d.currentLen) (hWrote : wrote = d.contents.take iSendLen)
    (hLoop : sendLoop d.data d.currentLen results iBufLen iSendLen wrote =
      some (exit, k, wrote')) :
    wrote' = d.contents.take k ∧
      ((exit = .all ∧ k = d.currentLen) ∨ (exit = .again ∧ k < d.currentLen) ∨
        (exit = .failed ∧ k < d.currentLen ∧ results.getLast? = some .failed)) := by
  induction results generalizing iBufLen iSendLen wrote with
  | nil =>
    simp only [sendLoop] at hLoop
    split at hLoop
    · simp at hLoop
    · obtain ⟨rfl, rfl, rfl⟩ := by simpa using hLoop
      exact ⟨hWrote, .inl ⟨rfl, by omega⟩⟩
  | cons result rest ih =>
    simp only [sendLoop] at hLoop
    split at hLoop
    · rename_i hLess
      have hCurrent := h.current
      have hRead : read d.data iSendLen iBufLen = some (d.contents.drop iSendLen) := by
        rw [read_eq _ _ _ (by rw [h.block]; omega), ClientData.contents, List.drop_take,
          ← hTotal, Nat.add_sub_cancel_right]
      rw [hRead] at hLoop
      cases result with
      | accepted n =>
        simp only [Option.bind_eq_bind, Option.bind_some] at hLoop
        split at hLoop
        · rename_i hRange
          obtain ⟨hTake, hExit⟩ := ih (by omega) (by rw [hWrote, List.take_add]) hLoop
          refine ⟨hTake, hExit.imp_right fun hExit => hExit.imp_right ?_⟩
          rintro ⟨hFailed, hLess, hLast⟩
          exact ⟨hFailed, hLess, by rw [List.getLast?_cons, hLast, Option.getD_some]⟩
        · simp at hLoop
      | again =>
        simp only [Option.bind_eq_bind, Option.bind_some] at hLoop
        split at hLoop
        · rw [if_pos (by omega)] at hLoop
          obtain ⟨rfl, rfl, rfl⟩ := by simpa using hLoop
          exact ⟨hWrote, .inr (.inl ⟨rfl, hLess⟩)⟩
        · simp at hLoop
      | failed =>
        simp only [Option.bind_eq_bind, Option.bind_some] at hLoop
        split at hLoop
        · rename_i hEnd
          obtain ⟨rfl, rfl, rfl⟩ := by simpa using hLoop
          exact ⟨hWrote, .inr (.inr ⟨rfl, hLess, by simp [List.isEmpty_iff.mp hEnd]⟩)⟩
        · simp at hLoop
    · simp at hLoop

/-- What `SendToClient` can do: nothing for a descriptor that is not registered,
else `k` bytes leave the buffer of the client that is. -/
inductive Sending (t : ClientTable) (fd : Nat) (results : SendResults) :
    Int → ClientTable → Prop where
  | unregistered (hItem : t.serverTypes fd = none) : Sending t fd results (-1) t
  | all {c : Nat} {d : ClientData} (hItem : t.serverTypes fd = some (.client c)) (hValid : d.Valid)
      (hContents : d.contents = []) :
      Sending t fd results (t.clients c).sendBuffer.currentLen
        ((t.record (.wrote c (t.clients c).sendBuffer.contents)).setSendBuffer c d)
  | again {c k : Nat} {d : ClientData} (hItem : t.serverTypes fd = some (.client c))
      (hLess : k < (t.clients c).sendBuffer.currentLen) (hValid : d.Valid)
      (hContents : d.contents = (t.clients c).sendBuffer.contents.drop k) :
      Sending t fd results k
        ((((t.record (.wrote c ((t.clients c).sendBuffer.contents.take k))).setBufferStatus
          c true).setSendBuffer c d).epollMod fd true results.ctl)
  | failed {c k : Nat} {d : ClientData} (hItem : t.serverTypes fd = some (.client c))
      (hLess : k < (t.clients c).sendBuffer.currentLen) (hValid : d.Valid)
      (hContents : d.contents = (t.clients c).sendBuffer.contents.drop k)
      (hLast : results.writes.getLast? = some .failed) :
      Sending t fd results 0
        (((t.record (.wrote c ((t.clients c).sendBuffer.contents.take k))).setSendBuffer
          c d).insertDicon fd)

theorem sendToClient_cases {fd : Nat} {results : SendResults} {i : Int}
    (hValid : t.Buffers)
    (hSend : t.sendToClient fd results = some (i, t')) : Sending t fd results i t' := by
  unfold sendToClient at hSend
  split at hSend
  · rename_i hItem
    split at hSend
    · obtain ⟨rfl, rfl⟩ := by simpa using hSend
      exact .unregistered hItem
    · simp at hSend
  · simp at hSend
  · rename_i c hItem
    have hBuffer := hValid c
    simp only [Option.bind_eq_bind, Option.bind_eq_some_iff, Prod.exists] at hSend
    obtain ⟨exit, k, wrote, hLoop, hSend⟩ := hSend
    obtain ⟨rfl, ⟨rfl, rfl⟩ | ⟨rfl, hLess⟩ | ⟨rfl, hLess, hLast⟩⟩ :=
      sendLoop_spec hBuffer (Nat.add_zero _) (by rw [List.take_zero]) hLoop
    · obtain ⟨rfl, rfl⟩ := by simpa using hSend
      rw [List.take_of_length_le (Nat.le_of_eq hBuffer.length_contents)]
      exact .all hItem hBuffer.resetData ClientData.contents_resetData
    · obtain ⟨d, hDelete, hd, hContents⟩ := hBuffer.deleteFromStart (Nat.le_of_lt hLess)
      obtain ⟨rfl, rfl⟩ := by simpa [hDelete, Except.toOption] using hSend
      exact .again hItem hLess hd hContents
    · obtain ⟨d, hDelete, hd, hContents⟩ := hBuffer.deleteFromStart (Nat.le_of_lt hLess)
      obtain ⟨rfl, rfl⟩ := by simpa [hDelete, Except.toOption] using hSend
      exact .failed hItem hLess hd hContents hLast

/-! ## Steps -/

/-- The table behind the `EPOLLOUT` branch. -/
def flushed (t t' : ClientTable) (fd c : Nat) (i : Int) (ctl : Bool) : ClientTable :=
  if (t.clients c).sendBuffer.currentLen = i then t'.epollMod fd false ctl else t'

/-- The steps that move the control only. -/
inductive Silent (t : ClientTable) : Control → Input → Control → Prop where
  | poll {batch : List EpollEvent} (hBatch : batch.length ≤ maxEpolEvents) :
      Silent t .run (.poll batch) (.events batch)
  | noItem {event : EpollEvent} {rest : List EpollEvent} (hItem : t.serverTypes event.fd = none) :
      Silent t (.events (event :: rest)) .next (.events rest)
  | server {event : EpollEvent} {rest : List EpollEvent} {p : Nat}
      (hItem : t.serverTypes event.fd = some (.server p)) :
      Silent t (.events (event :: rest)) .next (.accepting p rest)
  | client {event : EpollEvent} {rest : List EpollEvent} {c : Nat}
      (hItem : t.serverTypes event.fd = some (.client c)) (hUp : event.rdhup = false) :
      Silent t (.events (event :: rest)) .next
        (.reading event (some c) (if event.readable then readTurns else 0) rest)
  | acceptEnd {p : Nat} {rest : List EpollEvent} :
      Silent t (.accepting p rest) (.accept none) (.events rest)
  | again {event : EpollEvent} {p : Option Nat} {c turns : Nat} {rest : List EpollEvent}
      (hItem : t.serverTypes event.fd = some (.client c)) :
      Silent t (.reading event p (turns + 1) rest) (.read .again) (afterRead event (some c) rest)
  | turnsOver {event : EpollEvent} {p : Option Nat} {rest : List EpollEvent} :
      Silent t (.reading event p 0 rest) .next (afterRead event p rest)
  | removed {event : EpollEvent} {p : Option Nat} {turns : Nat} {rest : List EpollEvent}
      (hItem : t.serverTypes event.fd = none) :
      Silent t (.reading event p (turns + 1) rest) .next (afterRead event none rest)
  | received {event : EpollEvent} {c turns : Nat} {rest : List EpollEvent} :
      Silent t (.receiving event c turns rest) .callbackReturn (.reading event (some c) turns rest)
  | lost {event : EpollEvent} {c : Nat} {rest : List EpollEvent} :
      Silent t (.lost event c rest) .callbackReturn (afterRead event (some c) rest)
  | batchEnd : Silent t (.events []) .next (.readyLoop 0)
  | notReady {ite fd : Nat} (hNext : iterate t.onReadyToSendClients ite = some fd)
      (hItem : t.serverTypes fd = none) : Silent t (.readyLoop ite) .next (.readyLoop (fd + 1))
  | readied {fd : Nat} : Silent t (.readying fd) .callbackReturn (.readyLoop (fd + 1))
  | disconnected {fd : Nat} : Silent t (.disconnecting fd) .callbackReturn (.diconLoop (fd + 1))

inductive Transition (alloc : Allocator UInt8) : State → Input → State → Prop where
  | silent {t : ClientTable} {k k' : Control} {input : Input} (h : Silent t k input k') :
      Transition alloc ⟨t, k⟩ input ⟨t, k'⟩
  | send {t t' : ClientTable} {k : Control} {c : Nat} {zData : Bytes} {results : SendResults}
      {d : ClientData} {i : Int} (hOutside : k.outside = true) (hAlive : t.Alive c)
      (hValid : d.Valid) (hContents : d.contents = (t.clients c).sendBuffer.contents ++ zData)
      (hSend : Sending ((t.setSendBuffer c d).record (.send c zData)) (t.clients c).clientID
        results i t') :
      Transition alloc ⟨t, k⟩ (.send c zData results) ⟨t', k⟩
  | sendBufferedData {t t' : ClientTable} {k : Control} {c : Nat} {results : SendResults} {i : Int}
      (hOutside : k.outside = true) (hAlive : t.Alive c)
      (hSend : Sending t (t.clients c).clientID results i t') :
      Transition alloc ⟨t, k⟩ (.sendBufferedData c results) ⟨t', k⟩
  | deleteClient {t : ClientTable} {k : Control} {c : Nat} (hOutside : k.outside = true)
      (hAlive : t.Alive c) : Transition alloc ⟨t, k⟩ (.deleteClient c) ⟨t.deleteClient c, k⟩
  | createClient {t : ClientTable} {k : Control} {fd : Nat} {ctl : Bool}
      (hOutside : k.outside = true) (hFree : t.Free fd) (hTable : InTable fd ctl) :
      Transition alloc ⟨t, k⟩ (.createClient fd ctl) ⟨t.createClient alloc fd ctl, k⟩
  | createServer {t : ClientTable} {k : Control} {fd : Nat} {ctl : Bool}
      (hOutside : k.outside = true) (hFree : t.Free fd) (hTable : InTable fd ctl) :
      Transition alloc ⟨t, k⟩ (.createServer fd ctl) ⟨t.createServer fd ctl, k⟩
  | accept {t : ClientTable} {p fd : Nat} {rest : List EpollEvent} (hFree : t.Free fd)
      (hTable : fd < maxMaxClientCount) :
      Transition alloc ⟨t, .accepting p rest⟩ (.accept (some (fd, true)))
        ⟨((t.openSocket fd true).newClient alloc fd (some p)).record (.onConnect t.clientCount),
          .connecting p t.clientCount rest⟩
  | leak {t : ClientTable} {p fd : Nat} {rest : List EpollEvent} (hFree : t.Free fd) :
      Transition alloc ⟨t, .accepting p rest⟩ (.accept (some (fd, false)))
        ⟨t.openSocket fd false, .accepting p rest⟩
  | connected {t : ClientTable} {p c : Nat} {rest : List EpollEvent} :
      Transition alloc ⟨t, .connecting p c rest⟩ .callbackReturn
        ⟨t.addtoConnectedClientsList p c, .accepting p rest⟩
  | rdhup {t : ClientTable} {event : EpollEvent} {rest : List EpollEvent} {c : Nat}
      (hItem : t.serverTypes event.fd = some (.client c)) (hDown : event.rdhup = true) :
      Transition alloc ⟨t, .events (event :: rest)⟩ .next
        ⟨t.disconnect event.fd c, .hungUp c rest⟩
  | hungUp {t : ClientTable} {c : Nat} {rest : List EpollEvent} :
      Transition alloc ⟨t, .hungUp c rest⟩ .callbackReturn ⟨t.hangUp c, .events rest⟩
  | data {t : ClientTable} {event : EpollEvent} {p : Option Nat} {c turns : Nat}
      {rest : List EpollEvent} {bytes : Bytes}
      (hItem : t.serverTypes event.fd = some (.client c)) (hPositive : 0 < bytes.length)
      (hLength : bytes.length ≤ cliReadSize) :
      Transition alloc ⟨t, .reading event p (turns + 1) rest⟩ (.read (.data bytes))
        ⟨t.record (.onData c bytes), .receiving event c turns rest⟩
  | lost {t : ClientTable} {event : EpollEvent} {p : Option Nat} {c turns : Nat}
      {rest : List EpollEvent} {result : ReadResult}
      (hItem : t.serverTypes event.fd = some (.client c))
      (hResult : result = .closed ∨ result = .failed) :
      Transition alloc ⟨t, .reading event p (turns + 1) rest⟩ (.read result)
        ⟨t.disconnect event.fd c, .lost event c rest⟩
  | flush {t t' : ClientTable} {fd c : Nat} {rest : List EpollEvent} {results : SendResults}
      {ctl : Bool} {i : Int} (hAlive : t.Alive c)
      (hSend : Sending ((t.insertReady fd).setBufferStatus c false) fd results i t') :
      Transition alloc ⟨t, .writing fd (some c) rest⟩ (.flush results ctl)
        ⟨flushed t t' fd c i ctl, .events rest⟩
  | ready {t : ClientTable} {ite fd c : Nat}
      (hNext : iterate t.onReadyToSendClients ite = some fd)
      (hItem : t.serverTypes fd = some (.client c)) :
      Transition alloc ⟨t, .readyLoop ite⟩ .next ⟨t.record (.onReadyToSend c), .readying fd⟩
  | readyEnd {t : ClientTable} {ite : Nat} (hNext : iterate t.onReadyToSendClients ite = none) :
      Transition alloc ⟨t, .readyLoop ite⟩ .next ⟨{ t with onReadyToSendClients := ∅ }, .diconLoop 0⟩
  | dicon {t : ClientTable} {ite fd c : Nat} (hNext : iterate t.diconClients ite = some fd)
      (hItem : t.serverTypes fd = some (.client c)) :
      Transition alloc ⟨t, .diconLoop ite⟩ .next ⟨t.disconnect fd c, .disconnecting fd⟩
  | diconGone {t : ClientTable} {ite fd : Nat} (hNext : iterate t.diconClients ite = some fd)
      (hItem : t.serverTypes fd = none) :
      Transition alloc ⟨t, .diconLoop ite⟩ .next ⟨t.epollDel fd, .diconLoop (fd + 1)⟩
  | diconEnd {t : ClientTable} {ite : Nat} (hNext : iterate t.diconClients ite = none) :
      Transition alloc ⟨t, .diconLoop ite⟩ .next ⟨{ t with diconClients := ∅ }, .run⟩

theorem next_cases {t : ClientTable} {k : Control} (h : t.next k = some s') :
    Transition alloc ⟨t, k⟩ .next s' := by
  cases k with
  | events rest =>
    cases rest with
    | nil =>
      obtain rfl := Option.some.inj h
      exact .silent .batchEnd
    | cons event rest =>
      obtain rfl := Option.some.inj h
      unfold dispatch
      split
      · rename_i hItem
        exact .silent (.noItem hItem)
      · rename_i hItem
        exact .silent (.server hItem)
      · rename_i hItem
        split
        · rename_i hDown
          exact .rdhup hItem hDown
        · rename_i hUp
          exact .silent (.client hItem (Bool.eq_false_iff.mpr hUp))
  | reading event p turns rest =>
    cases turns with
    | zero =>
      obtain rfl := Option.some.inj h
      exact .silent .turnsOver
    | succ turns =>
      obtain ⟨hItem, h⟩ := Option.ite_none_right_eq_some.mp h
      obtain rfl := Option.some.inj h
      exact .silent (.removed hItem)
  | readyLoop ite =>
    change t.visitReady ite = some s' at h
    unfold visitReady at h
    split at h
    · rename_i hNext
      obtain rfl := Option.some.inj h
      exact .readyEnd hNext
    · rename_i hNext
      split at h
      · rename_i hItem
        obtain rfl := Option.some.inj h
        exact .silent (.notReady hNext hItem)
      · cases h
      · rename_i hItem
        obtain rfl := Option.some.inj h
        exact .ready hNext hItem
  | diconLoop ite =>
    change t.visitDicon ite = some s' at h
    unfold visitDicon at h
    split at h
    · rename_i hNext
      obtain rfl := Option.some.inj h
      exact .diconEnd hNext
    · rename_i hNext
      split at h
      · rename_i hItem
        obtain rfl := Option.some.inj h
        exact .diconGone hNext hItem
      · cases h
      · rename_i hItem
        obtain rfl := Option.some.inj h
        exact .dicon hNext hItem
  | run | accepting | connecting | hungUp | receiving | lost | writing | readying | disconnecting =>
    cases h

theorem callbackReturn_cases {t : ClientTable} {k : Control} (h : t.callbackReturn k = some s') :
    Transition alloc ⟨t, k⟩ .callbackReturn s' := by
  cases k with
  | connecting => exact Option.some.inj h ▸ .connected
  | hungUp => exact Option.some.inj h ▸ .hungUp
  | receiving => exact Option.some.inj h ▸ .silent .received
  | lost => exact Option.some.inj h ▸ .silent .lost
  | readying => exact Option.some.inj h ▸ .silent .readied
  | disconnecting => exact Option.some.inj h ▸ .silent .disconnected
  | run | events | accepting | reading | writing | readyLoop | diconLoop => cases h

theorem acceptClient_cases {t : ClientTable} {p : Nat} {rest : List EpollEvent}
    {iCliSock : Option (Nat × Bool)} (h : t.acceptClient alloc p rest iCliSock = some s') :
    Transition alloc ⟨t, .accepting p rest⟩ (.accept iCliSock) s' := by
  match iCliSock with
  | none => exact Option.some.inj h ▸ .silent .acceptEnd
  | some (fd, ctl) =>
    obtain ⟨⟨hFree, hTable⟩, h⟩ := Option.ite_none_right_eq_some.mp h
    cases ctl with
    | true => exact Option.some.inj h ▸ .accept hFree (hTable rfl)
    | false => exact Option.some.inj h ▸ .leak hFree

theorem readClient_cases {t : ClientTable} {event : EpollEvent} {p : Option Nat} {c turns : Nat}
    {rest : List EpollEvent} {result : ReadResult}
    (hItem : t.serverTypes event.fd = some (.client c))
    (h : t.readClient event c turns rest result = some s') :
    Transition alloc ⟨t, .reading event p (turns + 1) rest⟩ (.read result) s' := by
  cases result with
  | data bytes =>
    obtain ⟨hLength, h⟩ := Option.ite_none_right_eq_some.mp h
    exact Option.some.inj h ▸ .data hItem hLength.1 hLength.2
  | closed => exact Option.some.inj h ▸ .lost hItem (.inl rfl)
  | failed => exact Option.some.inj h ▸ .lost hItem (.inr rfl)
  | again => exact Option.some.inj h ▸ .silent (.again hItem)

theorem appendToBuffer_cases {c : Nat} {zData : Bytes}
    (hValid : t.Buffers)
    (h : t.appendToBuffer alloc c zData = some t') :
    ∃ d : ClientData, d.Valid ∧ d.contents = (t.clients c).sendBuffer.contents ++ zData ∧
      t' = (t.setSendBuffer c d).record (.send c zData) := by
  obtain ⟨d, hAppend, h⟩ := Option.bind_eq_some_iff.mp h
  cases hResult : (t.clients c).sendBuffer.append alloc zData zData.length with
  | error fault =>
    rw [hResult] at hAppend
    cases hAppend
  | ok d' =>
    rw [hResult] at hAppend
    obtain rfl := Option.some.inj hAppend
    obtain ⟨-, hd, hContents⟩ := (hValid c).of_append alloc hResult
    exact ⟨d', hd, hContents, (Option.some.inj h).symm⟩

theorem send_cases {c : Nat} {zData : Bytes} {results : SendResults} {b : Bool}
    (hValid : t.Buffers) (h : t.send alloc c zData results = some (b, t')) :
    ∃ d i, d.Valid ∧ d.contents = (t.clients c).sendBuffer.contents ++ zData ∧
      Sending ((t.setSendBuffer c d).record (.send c zData)) (t.clients c).clientID results i t' := by
  obtain ⟨t₁, hAppend, hRest⟩ := Option.bind_eq_some_iff.mp h
  obtain ⟨⟨i, t₂⟩, hSend, hReturn⟩ := Option.bind_eq_some_iff.mp hRest
  obtain ⟨-, rfl⟩ := Prod.mk.inj (Option.some.inj hReturn)
  obtain ⟨d, hd, hContents, rfl⟩ := appendToBuffer_cases hValid hAppend
  rw [clientID_append] at hSend
  exact ⟨d, i, hd, hContents, sendToClient_cases (hValid.setSendBuffer c hd) hSend⟩

theorem flush_cases {fd c : Nat} {results : SendResults} {ctl : Bool}
    (hValid : t.Buffers)
    (h : t.flush fd c results ctl = some t') :
    ∃ i t₁, Sending ((t.insertReady fd).setBufferStatus c false) fd results i t₁ ∧
      t' = flushed t t₁ fd c i ctl := by
  obtain ⟨⟨i, t₁⟩, hSend, h⟩ := Option.bind_eq_some_iff.mp h
  refine ⟨i, t₁, sendToClient_cases ?_ hSend, ?_⟩
  · have hReady : (t.insertReady fd).Buffers := hValid
    exact hReady.setBufferStatus c false
  · obtain rfl := Option.some.inj h
    rw [clients_setBufferStatus]
    rfl

theorem step_cases (hValid : s.table.Buffers) (h : step alloc s input = some s') :
    Transition alloc s input s' := by
  obtain ⟨t, k⟩ := s
  cases input with
  | poll batch =>
    obtain ⟨⟨rfl, hBatch⟩, h⟩ := Option.ite_none_right_eq_some.mp h
    exact Option.some.inj h ▸ .silent (.poll hBatch)
  | next => exact next_cases h
  | accept iCliSock =>
    cases k with
    | accepting p rest => exact acceptClient_cases h
    | _ => cases h
  | read result =>
    cases k with
    | reading event p turns rest =>
      cases turns with
      | zero => cases h
      | succ turns =>
        simp only [step] at h
        split at h
        · rename_i hItem
          exact readClient_cases hItem h
        · cases h
    | _ => cases h
  | flush results ctl =>
    cases k with
    | writing fd p rest =>
      cases p with
      | none => cases h
      | some c =>
        obtain ⟨hAlive, h⟩ := Option.ite_none_right_eq_some.mp h
        obtain ⟨t', hFlush, rfl⟩ := Option.map_eq_some_iff.mp h
        obtain ⟨i, t₁, hSend, rfl⟩ := flush_cases hValid hFlush
        exact .flush hAlive hSend
    | _ => cases h
  | callbackReturn => exact callbackReturn_cases h
  | send c zData results =>
    obtain ⟨⟨hOutside, hAlive⟩, h⟩ := Option.ite_none_right_eq_some.mp h
    obtain ⟨⟨b, t'⟩, hCall, rfl⟩ := Option.map_eq_some_iff.mp h
    obtain ⟨d, i, hd, hContents, hSend⟩ := send_cases hValid hCall
    exact .send hOutside hAlive hd hContents hSend
  | sendBufferedData c results =>
    obtain ⟨⟨hOutside, hAlive⟩, h⟩ := Option.ite_none_right_eq_some.mp h
    obtain ⟨t', hCall, rfl⟩ := Option.map_eq_some_iff.mp h
    obtain ⟨⟨i, t₂⟩, hSend, hReturn⟩ := Option.bind_eq_some_iff.mp hCall
    obtain rfl := Option.some.inj hReturn
    exact .sendBufferedData hOutside hAlive (sendToClient_cases hValid hSend)
  | deleteClient c =>
    obtain ⟨⟨hOutside, hAlive⟩, h⟩ := Option.ite_none_right_eq_some.mp h
    exact Option.some.inj h ▸ .deleteClient hOutside hAlive
  | createClient fd ctl =>
    obtain ⟨⟨hOutside, hFree, hTable⟩, h⟩ := Option.ite_none_right_eq_some.mp h
    exact Option.some.inj h ▸ .createClient hOutside hFree hTable
  | createServer fd ctl =>
    obtain ⟨⟨hOutside, hFree, hTable⟩, h⟩ := Option.ite_none_right_eq_some.mp h
    exact Option.some.inj h ▸ .createServer hOutside hFree hTable

end CStabilizer.ClientTable
