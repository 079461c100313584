import CStabilizer.SocketManager.SocketStep

/-! # Registered clients

What an entry of the table says about its client, and what sending leaves alone. -/

namespace CStabilizer.ClientTable

open Library Library.CString Library.Memory

variable {alloc : Allocator UInt8} {t t' : ClientTable} {s s' : State} {input : Input}

/-- A client is registered under its own descriptor as long as it is not deleted,
and nothing else is registered there. -/
structure Sound (t : ClientTable) : Prop where
  buffers : t.Buffers
  registered : ∀ fd c, t.serverTypes fd = some (.client c) →
    t.Alive c ∧ (t.clients c).clientID = fd ∧ (t.epoll fd).isSome = true
  owned : ∀ c, t.Alive c → t.isOpen (t.clients c).clientID = true ∧
    ∀ item, t.serverTypes (t.clients c).clientID = some item → item = .client c
  distinct : ∀ c c', t.Alive c → t.Alive c' →
    (t.clients c).clientID = (t.clients c').clientID → c = c'
  known : ∀ event ∈ t.trace, event.client < t.clientCount

/-- Only buffers, flags and the set of failed descriptors change. -/
structure SendsOnly (t t' : ClientTable) : Prop where
  serverTypes : t'.serverTypes = t.serverTypes
  connectedClients : t'.connectedClients = t.connectedClients
  clientCount : t'.clientCount = t.clientCount
  isOpen : t'.isOpen = t.isOpen
  epoll : ∀ fd, (t'.epoll fd).isSome = (t.epoll fd).isSome
  clientID : ∀ c, (t'.clients c).clientID = (t.clients c).clientID
  server : ∀ c, (t'.clients c).server = (t.clients c).server
  deleted : ∀ c, (t'.clients c).deleted = (t.clients c).deleted
  trace : ∃ events, t'.trace = t.trace ++ events ∧
    ∀ event ∈ events, event.sends = true ∧ event.client < t.clientCount

/-! ## Sending -/

theorem SendsOnly.refl (t : ClientTable) : SendsOnly t t :=
  ⟨rfl, rfl, rfl, rfl, fun _ => rfl, fun _ => rfl, fun _ => rfl, fun _ => rfl,
    [], (List.append_nil _).symm, fun _ h => absurd h List.not_mem_nil⟩

theorem SendsOnly.trans {t₁ t₂ t₃ : ClientTable} (h : SendsOnly t₁ t₂) (h' : SendsOnly t₂ t₃) :
    SendsOnly t₁ t₃ := by
  obtain ⟨events, hTrace, hEvents⟩ := h.trace
  obtain ⟨events', hTrace', hEvents'⟩ := h'.trace
  refine ⟨h'.serverTypes.trans h.serverTypes, h'.connectedClients.trans h.connectedClients,
    h'.clientCount.trans h.clientCount, h'.isOpen.trans h.isOpen,
    fun fd => (h'.epoll fd).trans (h.epoll fd), fun c => (h'.clientID c).trans (h.clientID c),
    fun c => (h'.server c).trans (h.server c), fun c => (h'.deleted c).trans (h.deleted c),
    events ++ events', by rw [hTrace', hTrace, List.append_assoc], ?_⟩
  rintro event hEvent
  obtain hEvent | hEvent := List.mem_append.mp hEvent
  · exact hEvents event hEvent
  · exact h.clientCount ▸ hEvents' event hEvent

theorem SendsOnly.record (event : SocketEvent) (hSends : event.sends = true)
    (hClient : event.client < t.clientCount) : SendsOnly t (t.record event) := by
  refine { SendsOnly.refl t with trace := ⟨[event], rfl, ?_⟩ }
  rintro _ hEvent
  obtain rfl := List.mem_singleton.mp hEvent
  exact ⟨hSends, hClient⟩

theorem SendsOnly.setSendBuffer (c : Nat) (d : ClientData) : SendsOnly t (t.setSendBuffer c d) where
  __ := SendsOnly.refl t
  clientID c' := by rw [clients_setSendBuffer]
  server c' := by rw [clients_setSendBuffer]
  deleted c' := by rw [clients_setSendBuffer]

theorem SendsOnly.setBufferStatus (c : Nat) (b : Bool) : SendsOnly t (t.setBufferStatus c b) where
  __ := SendsOnly.refl t
  clientID c' := by rw [clients_setBufferStatus]
  server c' := by rw [clients_setBufferStatus]
  deleted c' := by rw [clients_setBufferStatus]

theorem SendsOnly.epollMod (fd : Nat) (out ctl : Bool) : SendsOnly t (t.epollMod fd out ctl) where
  __ := SendsOnly.refl t
  epoll fd' := by
    simp only [ClientTable.epollMod]
    split
    · rename_i hMod
      obtain rfl | hNe := eq_or_ne fd' fd
      · simpa using (Bool.and_eq_true_iff.mp hMod).2.symm
      · rw [Function.update_of_ne hNe]
    · rfl

theorem SendsOnly.insertDicon (fd : Nat) : SendsOnly t (t.insertDicon fd) where
  __ := SendsOnly.refl t

theorem SendsOnly.insertReady (fd : Nat) : SendsOnly t (t.insertReady fd) where
  __ := SendsOnly.refl t

theorem SendsOnly.alive_iff (h : SendsOnly t t') (c : Nat) : t'.Alive c ↔ t.Alive c := by
  unfold Alive
  rw [h.clientCount, h.deleted]

theorem Sound.sendsOnly (h : t.Sound) (hSends : SendsOnly t t') (hBuffers : t'.Buffers) :
    t'.Sound where
  buffers := hBuffers
  registered fd c hItem := by
    rw [hSends.serverTypes] at hItem
    rw [hSends.alive_iff, hSends.clientID, hSends.epoll]
    exact h.registered fd c hItem
  owned c hAlive := by
    rw [hSends.clientID, hSends.isOpen, hSends.serverTypes]
    exact h.owned c ((hSends.alive_iff c).mp hAlive)
  distinct c c' hAlive hAlive' := by
    rw [hSends.clientID, hSends.clientID]
    exact h.distinct c c' ((hSends.alive_iff c).mp hAlive) ((hSends.alive_iff c').mp hAlive')
  known event hEvent := by
    obtain ⟨events, hTrace, hEvents⟩ := hSends.trace
    rw [hSends.clientCount]
    obtain hEvent | hEvent := List.mem_append.mp (hTrace ▸ hEvent)
    · exact h.known event hEvent
    · exact (hEvents event hEvent).2

theorem Sending.sendsOnly {fd : Nat} {results : SendResults} {i : Int} (h : t.Sound)
    (hSend : Sending t fd results i t') : SendsOnly t t' ∧ t'.Buffers := by
  cases hSend with
  | unregistered hItem => exact ⟨.refl t, h.buffers⟩
  | @all c d hItem hValid hContents =>
    have hCount := (h.registered fd c hItem).1.1
    constructor
    · exact (SendsOnly.record (.wrote c _) rfl hCount).trans (.setSendBuffer c d)
    · exact Buffers.setSendBuffer (t := t.record _) h.buffers c hValid
  | @again c k d hItem hLess hValid hContents =>
    have hCount := (h.registered fd c hItem).1.1
    constructor
    · exact (((SendsOnly.record (.wrote c _) rfl hCount).trans (.setBufferStatus c true)).trans
        (.setSendBuffer c d)).trans (.epollMod fd true results.ctl)
    · exact (Buffers.setBufferStatus (t := t.record _) h.buffers c true).setSendBuffer c hValid
  | @failed c k d hItem hLess hValid hContents _ =>
    have hCount := (h.registered fd c hItem).1.1
    constructor
    · exact ((SendsOnly.record (.wrote c _) rfl hCount).trans (.setSendBuffer c d)).trans
        (.insertDicon fd)
    · exact Buffers.setSendBuffer (t := t.record _) h.buffers c hValid

theorem Sending.sound {fd : Nat} {results : SendResults} {i : Int} (h : t.Sound)
    (hSend : Sending t fd results i t') : t'.Sound :=
  h.sendsOnly (hSend.sendsOnly h).1 (hSend.sendsOnly h).2

/-! ## Descriptors -/

theorem sound_create (alloc : Allocator UInt8) : (create alloc).Sound where
  buffers _ := ClientData.valid_init alloc
  registered _ _ hItem := absurd hItem (by simp [create])
  owned c hAlive := absurd hAlive.1 (Nat.not_lt_zero c)
  distinct c _ hAlive := absurd hAlive.1 (Nat.not_lt_zero c)
  known _ hEvent := absurd hEvent List.not_mem_nil

theorem Sound.record (h : t.Sound) {event : SocketEvent} (hClient : event.client < t.clientCount) :
    (t.record event).Sound where
  __ := h
  known event' hEvent := by
    obtain hEvent | hEvent := List.mem_append.mp hEvent
    · exact h.known event' hEvent
    · exact List.mem_singleton.mp hEvent ▸ hClient

theorem Sound.unregister (h : t.Sound) (fd : Nat) : (t.setItem fd none).Sound where
  __ := h
  registered fd' c hItem := by
    rw [serverTypes_setItem] at hItem
    split at hItem
    · cases hItem
    · exact h.registered fd' c hItem
  owned c hAlive := by
    obtain ⟨hOpen, hItems⟩ := h.owned c hAlive
    constructor
    · exact hOpen
    · rintro item hItem
      rw [serverTypes_setItem] at hItem
      split at hItem
      · cases hItem
      · exact hItems item hItem

theorem Sound.epollDel (h : t.Sound) {fd : Nat} (hItem : t.serverTypes fd = none) :
    (t.epollDel fd).Sound where
  __ := h
  registered fd' c hItem' := by
    obtain ⟨hAlive, hID, hEpoll⟩ := h.registered fd' c hItem'
    have hNe : fd' ≠ fd := by
      rintro rfl
      cases hItem.symm.trans hItem'
    refine ⟨hAlive, hID, ?_⟩
    rw [epoll_epollDel, if_neg hNe]
    exact hEpoll

/-- The descriptor of a living client is in use. -/
theorem Sound.ne_of_free (h : t.Sound) {fd c : Nat} (hFree : t.isOpen fd = false)
    (hAlive : t.Alive c) : (t.clients c).clientID ≠ fd := by
  rintro rfl
  cases (h.owned c hAlive).1.symm.trans hFree

theorem Sound.openSocket (h : t.Sound) (fd : Nat) (ctl : Bool) : (t.openSocket fd ctl).Sound where
  __ := h
  registered fd' c hItem := by
    obtain ⟨hAlive, hID, hEpoll⟩ := h.registered fd' c hItem
    refine ⟨hAlive, hID, ?_⟩
    rw [epoll_openSocket]
    split
    · rfl
    · exact hEpoll
  owned c hAlive := by
    obtain ⟨hOpen, hItems⟩ := h.owned c hAlive
    constructor
    · rw [isOpen_openSocket]
      split
      · rfl
      · exact hOpen
    · exact hItems

theorem alive_newClient {fd c : Nat} {p : Option Nat} :
    (t.newClient alloc fd p).Alive c ↔ c = t.clientCount ∨ t.Alive c := by
  unfold Alive
  rw [clients_newClient]
  change c < t.clientCount + 1 ∧ _ ↔ _
  obtain rfl | hNe := eq_or_ne c t.clientCount
  · simp
  · rw [if_neg hNe, Nat.lt_succ_iff_lt_or_eq]
    simp [hNe]

theorem clientID_newClient {fd c : Nat} {p : Option Nat} (hAlive : t.Alive c) :
    ((t.newClient alloc fd p).clients c).clientID = (t.clients c).clientID := by
  rw [clients_newClient, if_neg (Nat.ne_of_lt hAlive.1)]

/-- A descriptor that is open and belongs to no client is registered for a new one. -/
theorem Sound.newClient (h : t.Sound) {fd : Nat} (p : Option Nat) (hOpen : t.isOpen fd = true)
    (hEpoll : (t.epoll fd).isSome = true) (hNone : ∀ c, t.Alive c → (t.clients c).clientID ≠ fd) :
    (t.newClient alloc fd p).Sound := by
  have hNew : ((t.newClient alloc fd p).clients t.clientCount).clientID = fd := by
    rw [clients_newClient, if_pos rfl]
  refine ⟨h.buffers.newClient alloc fd p, ?_, ?_, ?_, ?_⟩
  · rintro fd' c hItem
    rw [serverTypes_newClient] at hItem
    split at hItem
    · rename_i hEq
      obtain rfl : t.clientCount = c := by simpa using hItem
      exact ⟨alive_newClient.mpr (.inl rfl), hNew.trans hEq.symm, hEq ▸ hEpoll⟩
    · obtain ⟨hAlive, hID, hEpoll'⟩ := h.registered fd' c hItem
      exact ⟨alive_newClient.mpr (.inr hAlive), (clientID_newClient hAlive).trans hID, hEpoll'⟩
  · rintro c hAlive
    obtain rfl | hAlive := alive_newClient.mp hAlive
    · rw [hNew]
      constructor
      · exact hOpen
      · rintro item hItem
        rw [serverTypes_newClient, if_pos rfl] at hItem
        exact (Option.some.inj hItem).symm
    · rw [clientID_newClient hAlive]
      constructor
      · exact (h.owned c hAlive).1
      · rintro item hItem
        rw [serverTypes_newClient, if_neg (hNone c hAlive)] at hItem
        exact (h.owned c hAlive).2 item hItem
  · rintro c c' hAlive hAlive' hID
    obtain rfl | hAlive := alive_newClient.mp hAlive
    · obtain rfl | hAlive' := alive_newClient.mp hAlive'
      · rfl
      · rw [hNew, clientID_newClient hAlive'] at hID
        exact absurd hID.symm (hNone c' hAlive')
    · obtain rfl | hAlive' := alive_newClient.mp hAlive'
      · rw [hNew, clientID_newClient hAlive] at hID
        exact absurd hID (hNone c hAlive)
      · rw [clientID_newClient hAlive, clientID_newClient hAlive'] at hID
        exact h.distinct c c' hAlive hAlive' hID
  · rintro event hEvent
    exact Nat.lt_succ_of_lt (h.known event hEvent)

theorem Sound.connect (h : t.Sound) {fd : Nat} (p : Option Nat) (hFree : t.isOpen fd = false) :
    ((t.openSocket fd true).newClient alloc fd p).Sound := by
  apply (h.openSocket fd true).newClient p
  · simp
  · simp
  · rintro c hAlive
    exact h.ne_of_free hFree hAlive

theorem Sound.createClient (h : t.Sound) {fd : Nat} (ctl : Bool) (hFree : t.isOpen fd = false) :
    (t.createClient alloc fd ctl).Sound := by
  unfold ClientTable.createClient
  split
  · exact h.connect none hFree
  · exact h.openSocket fd false

theorem Sound.createServer (h : t.Sound) {fd : Nat} (ctl : Bool) (hFree : t.isOpen fd = false) :
    (t.createServer fd ctl).Sound := by
  have hOpened := h.openSocket fd ctl
  have hEq : t.createServer fd ctl = { t.openSocket fd ctl with
      serverTypes := (t.createServer fd ctl).serverTypes
      serverCount := (t.createServer fd ctl).serverCount } := by
    cases ctl with
    | false => rfl
    | true => rfl
  rw [hEq]
  refine { hOpened with registered := ?_, owned := ?_ }
  · rintro fd' c hItem
    change (t.createServer fd ctl).serverTypes fd' = _ at hItem
    rw [serverTypes_createServer] at hItem
    split at hItem
    · cases hItem
    · exact hOpened.registered fd' c hItem
  · rintro c hAlive
    obtain ⟨hOpen, hItems⟩ := hOpened.owned c hAlive
    constructor
    · exact hOpen
    · rintro item hItem
      change (t.createServer fd ctl).serverTypes (t.clients c).clientID = _ at hItem
      rw [serverTypes_createServer, if_neg] at hItem
      · exact hItems item hItem
      · exact fun hEq => h.ne_of_free hFree hAlive hEq.2

theorem alive_deleteClient {c c' : Nat} :
    (t.deleteClient c).Alive c' ↔ t.Alive c' ∧ c' ≠ c := by
  unfold Alive
  rw [clients_deleteClient]
  change c' < t.clientCount ∧ (if c' = c then true else (t.clients c').deleted) = false ↔ _
  obtain rfl | hNe := eq_or_ne c' c
  · simp
  · simp [hNe]

theorem Sound.deleteClient (h : t.Sound) {c : Nat} (hAlive : t.Alive c) :
    (t.deleteClient c).Sound := by
  have hID (c' : Nat) : ((t.deleteClient c).clients c').clientID = (t.clients c').clientID := by
    rw [clients_deleteClient]
  have hNe {c' : Nat} (hAlive' : t.Alive c') (hOther : c' ≠ c) :
      (t.clients c').clientID ≠ (t.clients c).clientID :=
    fun hEq => hOther (h.distinct c' c hAlive' hAlive hEq)
  refine ⟨h.buffers.deleteClient c, ?_, ?_, ?_, ?_⟩
  · rintro fd c' hItem
    rw [serverTypes_deleteClient] at hItem
    split at hItem
    · cases hItem
    · rename_i hFd
      obtain ⟨hAlive', hID', hEpoll⟩ := h.registered fd c' hItem
      have hOther : c' ≠ c := fun hEq => hFd (hEq ▸ hID'.symm)
      refine ⟨alive_deleteClient.mpr ⟨hAlive', hOther⟩, (hID c').trans hID', ?_⟩
      rw [epoll_deleteClient, if_neg hFd]
      exact hEpoll
  · rintro c' hAlive'
    obtain ⟨hAlive', hOther⟩ := alive_deleteClient.mp hAlive'
    obtain ⟨hOpen, hItems⟩ := h.owned c' hAlive'
    rw [hID, isOpen_deleteClient, serverTypes_deleteClient, if_neg (hNe hAlive' hOther),
      if_neg (hNe hAlive' hOther)]
    exact ⟨hOpen, hItems⟩
  · rintro c₁ c₂ hAlive₁ hAlive₂
    rw [hID, hID]
    exact h.distinct c₁ c₂ (alive_deleteClient.mp hAlive₁).1 (alive_deleteClient.mp hAlive₂).1
  · rintro event hEvent
    obtain hEvent | hEvent := List.mem_append.mp hEvent
    · exact h.known event hEvent
    · exact List.mem_singleton.mp hEvent ▸ hAlive.1

/-! ## Runs -/

/-- A new chunk in the buffer of a client, before anything is written. -/
theorem Sound.append (h : t.Sound) {c : Nat} (hAlive : t.Alive c) {d : ClientData} (hd : d.Valid)
    (zData : Bytes) : ((t.setSendBuffer c d).record (.send c zData)).Sound :=
  (h.sendsOnly (.setSendBuffer c d) (h.buffers.setSendBuffer c hd)).record hAlive.1

theorem sendsOnly_send (h : t.Sound) {c : Nat} (hAlive : t.Alive c) {d : ClientData} (hd : d.Valid)
    {zData : Bytes} {fd : Nat} {results : SendResults} {i : Int}
    (hSend : Sending ((t.setSendBuffer c d).record (.send c zData)) fd results i t') :
    SendsOnly t t' :=
  ((SendsOnly.setSendBuffer c d).trans (.record (.send c zData) rfl hAlive.1)).trans
    (hSend.sendsOnly (h.append hAlive hd zData)).1

theorem Sound.beforeFlush (h : t.Sound) (fd c : Nat) :
    ((t.insertReady fd).setBufferStatus c false).Sound :=
  h.sendsOnly ((SendsOnly.insertReady fd).trans (.setBufferStatus c false))
    (Buffers.setBufferStatus (t := t.insertReady fd) h.buffers c false)

theorem sendsOnly_flush (h : t.Sound) {fd c : Nat} {results : SendResults} {ctl : Bool} {i : Int}
    (hSend : Sending ((t.insertReady fd).setBufferStatus c false) fd results i t') :
    SendsOnly t (flushed t t' fd c i ctl) ∧ (flushed t t' fd c i ctl).Buffers := by
  obtain ⟨hSends, hBuffers⟩ := hSend.sendsOnly (h.beforeFlush fd c)
  have hBefore := ((SendsOnly.insertReady fd).trans (.setBufferStatus c false)).trans hSends
  unfold flushed
  split
  · exact ⟨hBefore.trans (.epollMod fd false ctl), hBuffers⟩
  · exact ⟨hBefore, hBuffers⟩

theorem hangUp_eq (t : ClientTable) (c : Nat) :
    t.hangUp c = { t with connectedClients := (t.hangUp c).connectedClients } := by
  unfold hangUp
  split <;> rfl

theorem Sound.step (h : s.table.Sound) (hStep : Transition alloc s input s') : s'.table.Sound := by
  cases hStep with
  | silent _ => exact h
  | send _ hAlive hd _ hSend => exact hSend.sound (h.append hAlive hd _)
  | sendBufferedData _ _ hSend => exact hSend.sound h
  | deleteClient _ hAlive => exact h.deleteClient hAlive
  | createClient _ hFree => exact h.createClient _ hFree
  | createServer _ hFree => exact h.createServer _ hFree
  | @accept t p fd _ hFree => exact (h.connect (some p) hFree).record (Nat.lt_succ_self _)
  | leak _ => exact h.openSocket _ false
  | connected | readyEnd _ | diconEnd _ => exact { h with }
  | rdhup hItem _ | lost hItem _ | dicon _ hItem =>
    exact (h.unregister _).record (h.registered _ _ hItem).1.1
  | hungUp =>
    rw [hangUp_eq]
    exact { h with }
  | data hItem _ _ | ready _ hItem => exact h.record (h.registered _ _ hItem).1.1
  | flush _ hSend =>
    obtain ⟨hSends, hBuffers⟩ := sendsOnly_flush h hSend
    exact h.sendsOnly hSends hBuffers
  | diconGone _ hItem => exact h.epollDel hItem

/-- An invariant of the runs whose steps meet a condition, over what a step can do. -/
theorem meets_induction {cond : State → Input → Prop} {I : State → Prop}
    (hInit : I (machine alloc).init)
    (hStep : ∀ s input s', s.table.Sound → I s → cond s input → Transition alloc s input s' → I s')
    {inputs : List Input} (h : (machine alloc).Meets cond inputs) {s : State}
    (hRun : (machine alloc).run inputs = some s) : s.table.Sound ∧ I s := by
  refine h.invariant (I := fun s => s.table.Sound ∧ I s) ⟨sound_create alloc, hInit⟩ ?_ hRun
  rintro s input s' ⟨hSound, hI⟩ hCond hStep'
  have hTransition := step_cases hSound.buffers hStep'
  exact ⟨hSound.step hTransition, hStep s input s' hSound hI hCond hTransition⟩

theorem run_induction {I : State → Prop} (hInit : I (machine alloc).init)
    (hStep : ∀ s input s', s.table.Sound → I s → Transition alloc s input s' → I s')
    {inputs : List Input} {s : State} (hRun : (machine alloc).run inputs = some s) :
    s.table.Sound ∧ I s := by
  have hMeets : (machine alloc).Meets (fun _ _ => True) inputs := fun _ _ _ _ _ _ => trivial
  exact meets_induction hInit (fun s input s' hSound hI _ => hStep s input s' hSound hI) hMeets hRun

/-- A client that exists keeps its descriptor and its server. -/
structure Persists (t t' : ClientTable) (c : Nat) : Prop where
  exists' : c < t'.clientCount
  clientID : (t'.clients c).clientID = (t.clients c).clientID
  server : (t'.clients c).server = (t.clients c).server

theorem Persists.of_clients {c : Nat} (hClients : t'.clients = t.clients)
    (hCount : t'.clientCount = t.clientCount) (hc : c < t.clientCount) : Persists t t' c :=
  ⟨hCount ▸ hc, by rw [hClients], by rw [hClients]⟩

theorem SendsOnly.persists (h : SendsOnly t t') {c : Nat} (hc : c < t.clientCount) :
    Persists t t' c :=
  ⟨h.clientCount ▸ hc, h.clientID c, h.server c⟩

theorem clients_connect {fd c : Nat} {p : Option Nat} (hc : c < t.clientCount) :
    ((t.openSocket fd true).newClient alloc fd p).clients c = t.clients c :=
  (clients_newClient ..).trans (if_neg (Nat.ne_of_lt hc))

theorem clients_createServer (t : ClientTable) (fd : Nat) (ctl : Bool) :
    (t.createServer fd ctl).clients = t.clients := by
  cases ctl <;> rfl

theorem persists_connect {c fd : Nat} {p : Option Nat} (hc : c < t.clientCount) :
    Persists t ((t.openSocket fd true).newClient alloc fd p) c where
  exists' := Nat.lt_succ_of_lt hc
  clientID := by rw [clients_connect hc]
  server := by rw [clients_connect hc]

theorem persists_step (hSound : s.table.Sound) (hStep : Transition alloc s input s') {c : Nat}
    (hc : c < s.table.clientCount) : Persists s.table s'.table c := by
  cases hStep with
  | send _ hAlive hd _ hSend => exact (sendsOnly_send hSound hAlive hd hSend).persists hc
  | sendBufferedData _ _ hSend => exact (hSend.sendsOnly hSound).1.persists hc
  | flush _ hSend => exact (sendsOnly_flush hSound hSend).1.persists hc
  | @deleteClient t k c' =>
    refine ⟨hc, ?_, ?_⟩
    · rw [clients_deleteClient]
    · rw [clients_deleteClient]
  | @createClient t k fd ctl =>
    cases ctl with
    | false => exact .of_clients rfl rfl hc
    | true => exact persists_connect hc
  | @createServer t k fd ctl =>
    refine .of_clients (clients_createServer t fd ctl) ?_ hc
    cases ctl <;> rfl
  | @accept t p fd =>
    have hConnect : Persists t ((t.openSocket fd true).newClient alloc fd (some p)) c :=
      persists_connect hc
    exact ⟨hConnect.exists', hConnect.clientID, hConnect.server⟩
  | hungUp =>
    rw [hangUp_eq]
    exact .of_clients rfl rfl hc
  | silent | leak | connected | rdhup | data | lost | ready | readyEnd | dicon | diconGone
    | diconEnd => exact .of_clients rfl rfl hc

/-- The client that an event is handled for, with its descriptor. -/
def Control.handled : Control → Option (Nat × Nat)
  | .reading event (some c) _ _ | .receiving event c _ _ | .lost event c _ => some (c, event.fd)
  | .writing iCliId (some c) _ => some (c, iCliId)
  | .run | .events _ | .accepting .. | .connecting .. | .hungUp .. | .reading _ none _ _
  | .writing _ none _ | .readyLoop _ | .readying _ | .diconLoop _ | .disconnecting _ => none

/-- The client that an event is handled for has the descriptor of the event. -/
def State.Handles (s : State) : Prop :=
  ∀ c fd, s.control.handled = some (c, fd) →
    c < s.table.clientCount ∧ (s.table.clients c).clientID = fd

theorem handled_afterRead {event : EpollEvent} {c fd : Nat} {p : Option Nat}
    {rest : List EpollEvent} (h : (afterRead event p rest).handled = some (c, fd)) :
    p = some c ∧ event.fd = fd := by
  unfold afterRead at h
  split at h
  · cases p with
    | none => cases h
    | some c' => simpa [Control.handled] using h
  · cases h

/-- A step goes on with the client it has, or with the one registered under the descriptor. -/
theorem handled_step (hStep : Transition alloc s input s') {c fd : Nat}
    (h : s'.control.handled = some (c, fd)) :
    s.control.handled = some (c, fd) ∨ s.table.serverTypes fd = some (.client c) := by
  cases hStep with
  | silent hSilent =>
    cases hSilent with
    | poll | noItem | server | acceptEnd | batchEnd | notReady | readied | disconnected => cases h
    | client hItem =>
      obtain ⟨rfl, rfl⟩ : _ = c ∧ _ = fd := by simpa [Control.handled] using h
      exact .inr hItem
    | again hItem =>
      obtain ⟨hClient, rfl⟩ := handled_afterRead h
      exact .inr (Option.some.inj hClient ▸ hItem)
    | removed => cases (handled_afterRead h).1
    | turnsOver =>
      obtain ⟨rfl, rfl⟩ := handled_afterRead h
      exact .inl rfl
    | lost =>
      obtain ⟨hClient, rfl⟩ := handled_afterRead h
      obtain rfl := Option.some.inj hClient
      exact .inl rfl
    | received => exact .inl h
  | send | sendBufferedData | deleteClient | createClient | createServer => exact .inl h
  | data hItem | lost hItem =>
    obtain ⟨rfl, rfl⟩ : _ = c ∧ _ = fd := by simpa [Control.handled] using h
    exact .inr hItem
  | accept | leak | connected | rdhup | hungUp | flush | ready | readyEnd | dicon | diconGone
    | diconEnd => cases h

theorem State.Handles.step (hSound : s.table.Sound) (h : s.Handles)
    (hStep : Transition alloc s input s') : s'.Handles := by
  rintro c fd hHandled
  obtain ⟨hExists, hID⟩ : c < s.table.clientCount ∧ (s.table.clients c).clientID = fd := by
    obtain hHandled | hItem := handled_step hStep hHandled
    · exact h c fd hHandled
    · obtain ⟨hAlive, hID, -⟩ := hSound.registered fd c hItem
      exact ⟨hAlive.1, hID⟩
  have hPersists := persists_step hSound hStep hExists
  exact ⟨hPersists.exists', hPersists.clientID.trans hID⟩

theorem reachable_sound {inputs : List Input} {s : State}
    (hRun : (machine alloc).run inputs = some s) : s.table.Sound :=
  (run_induction (I := fun _ => True) trivial (fun _ _ _ _ _ _ => trivial) hRun).1

end CStabilizer.ClientTable
