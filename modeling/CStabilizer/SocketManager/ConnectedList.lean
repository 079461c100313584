import CStabilizer.SocketManager.Callbacks

/-! # The list of connected clients

A server lists the clients it has accepted. Only the path of `EPOLLRDHUP` takes
a client off the list again, so the list agrees with the table as long as no
client leaves the table on another path. -/

namespace CStabilizer.ClientTable

open Library Library.CString Library.Memory

variable {alloc : Allocator UInt8} {t t' : ClientTable} {s s' : State} {input : Input}

/-! ## The property and its condition -/

/-- Every server lists, once each, its registered clients. -/
def Agrees (t : ClientTable) : Prop :=
  ∀ p, (t.connectedClients p).Nodup ∧ ∀ c, c ∈ t.connectedClients p ↔
    (∃ fd, t.serverTypes fd = some (.client c)) ∧ (t.clients c).server = some p

/-- A broadcast sends to registered clients that are not deleted. -/
def Addresses (alloc : Allocator UInt8) (t : ClientTable) : Prop :=
  ∀ p zBuf results t', t.sendToAllClients alloc p zBuf results = some t' →
    ∃ events, t'.trace = t.trace ++ events ∧ ∀ event ∈ events,
      t.Alive event.client ∧ ∃ fd, t.serverTypes fd = some (.client event.client)

def unowned (t : ClientTable) (fd : Nat) : Bool :=
  match t.serverTypes fd with
  | some (.client c) => (t.clients c).server.isNone
  | _ => true

/-- No client of a server leaves the table in a step, unless it is for `EPOLLRDHUP`: reads on
it are neither at the end nor fail, the disconnect loop does not meet it, and it is not deleted
while it is registered. -/
def staysListed (s : State) : Input → Bool
  | .read .closed | .read .failed =>
    match s.control with
    | .reading event .. => s.table.unowned event.fd
    | _ => true
  | .next =>
    match s.control with
    | .diconLoop ite => (iterate s.table.diconClients ite).all s.table.unowned
    | _ => true
  | .deleteClient c => s.table.unowned (s.table.clients c).clientID
  | .poll _ | .accept _ | .read (.data _) | .read .again | .flush .. | .callbackReturn | .send ..
  | .sendBufferedData .. | .createClient .. | .createServer .. => true

theorem server_of_unowned {fd c : Nat} (h : t.unowned fd = true)
    (hItem : t.serverTypes fd = some (.client c)) : (t.clients c).server = none := by
  rw [unowned, hItem] at h
  exact Option.isNone_iff_eq_none.mp h

/-! ## The invariant -/

def Control.connects : Control → Option Nat
  | .connecting _ c _ => some c
  | _ => none

def Control.hangsUp : Control → Option Nat
  | .hungUp c _ => some c
  | _ => none

def Belongs (t : ClientTable) (k : Control) (p c : Nat) : Prop :=
  c < t.clientCount ∧ (t.clients c).server = some p ∧
    ((t.life c = .live ∧ k.connects ≠ some c) ∨ k.hangsUp = some c)

def Listed (t : ClientTable) (k : Control) : Prop :=
  ∀ p, (t.connectedClients p).Nodup ∧ ∀ c, c ∈ t.connectedClients p ↔ t.Belongs k p c

/-- What a callback of a connection may rely on. -/
def Control.Meant (t : ClientTable) : Control → Prop
  | .connecting p c _ => t.Belongs .run p c
  | .hungUp c _ => c < t.clientCount ∧ t.life c ≠ .live
  | _ => True

theorem Listed.frame {k k' : Control} (h : t.Listed k)
    (hLists : t'.connectedClients = t.connectedClients)
    (hBelongs : ∀ p c, t'.Belongs k' p c ↔ t.Belongs k p c) : t'.Listed k' := by
  intro p
  rw [hLists]
  constructor
  · exact (h p).1
  · intro c
    rw [hBelongs]
    exact (h p).2 c

/-- The lists stay, and so does what they should hold, wherever the control is. -/
structure Keeps (t t' : ClientTable) : Prop where
  lists : t'.connectedClients = t.connectedClients
  belongs : ∀ k p c, t'.Belongs k p c ↔ t.Belongs k p c

theorem Keeps.of_life (hLists : t'.connectedClients = t.connectedClients)
    (hCount : t'.clientCount = t.clientCount)
    (hServer : ∀ c, (t'.clients c).server = (t.clients c).server)
    (hLife : ∀ c < t.clientCount, (t.clients c).server ≠ none →
      (t'.life c = .live ↔ t.life c = .live)) : Keeps t t' where
  lists := hLists
  belongs k p c := by
    unfold Belongs
    rw [hCount, hServer]
    refine and_congr_right fun hc => and_congr_right fun hp => ?_
    rw [hLife c hc (by rw [hp]; simp)]

theorem keeps_sendsOnly (h : SendsOnly t t') : Keeps t t' :=
  .of_life h.connectedClients h.clientCount h.server fun c hc _ => by rw [life_sendsOnly h hc]

theorem keeps_disconnect (hSound : t.Sound) {fd c₀ : Nat}
    (hItem : t.serverTypes fd = some (.client c₀)) (hFree : (t.clients c₀).server = none) :
    Keeps t (t.disconnect fd c₀) := by
  refine .of_life rfl rfl (fun _ => rfl) ?_
  rintro c hc hServer
  have hNe : c ≠ c₀ := by
    rintro rfl
    exact hServer hFree
  rw [life_disconnect_of_ne hSound hc hItem hNe]

theorem keeps_delete (hSound : t.Sound) {c₀ : Nat} (hAlive : t.Alive c₀)
    (hFree : t.serverTypes (t.clients c₀).clientID = some (.client c₀) →
      (t.clients c₀).server = none) : Keeps t (t.deleteClient c₀) := by
  refine .of_life rfl rfl (fun c => by rw [clients_deleteClient]) ?_
  rintro c hc hServer
  obtain rfl | hNe := eq_or_ne c c₀
  · have hGone : t.life c ≠ .live := by
      unfold life
      rw [if_neg (by simp [hAlive.2]), if_neg fun hItem => hServer (hFree hItem)]
      simp
    rw [life_deleteClient hc]
    simp [hGone]
  · rw [life_deleteClient_of_ne hSound hc hAlive hNe]

theorem keeps_createServer (hSound : t.Sound) {fd : Nat} {ctl : Bool}
    (hFree : t.isOpen fd = false) : Keeps t (t.createServer fd ctl) := by
  refine .of_life ?_ ?_ (fun c => by rw [clients_createServer]) fun c hc _ => by
    rw [life_createServer hSound hc hFree]
  · cases ctl <;> rfl
  · cases ctl <;> rfl

theorem belongs_connect (hSound : t.Sound) {k : Control} {fd p c : Nat} {owner : Option Nat}
    (hFree : t.isOpen fd = false) (hNe : c ≠ t.clientCount) :
    ((t.openSocket fd true).newClient alloc fd owner).Belongs k p c ↔ t.Belongs k p c := by
  unfold Belongs
  have hCount : c < t.clientCount + 1 ↔ c < t.clientCount := by omega
  change c < t.clientCount + 1 ∧ _ ↔ _
  rw [hCount]
  apply and_congr_right
  intro hc
  rw [clients_connect hc, life_connect hSound hc hFree]

theorem keeps_createClient (hSound : t.Sound) {fd : Nat} {ctl : Bool}
    (hFree : t.isOpen fd = false) : Keeps t (t.createClient alloc fd ctl) := by
  cases ctl with
  | false => exact ⟨rfl, fun _ _ _ => Iff.rfl⟩
  | true =>
    constructor
    · rfl
    · rintro k p c
      obtain rfl | hNe := eq_or_ne c t.clientCount
      · refine iff_of_false ?_ fun h => absurd h.1 (Nat.lt_irrefl _)
        rintro ⟨-, hServer, -⟩
        have hNone := server_connect alloc t fd none
        cases hNone.symm.trans hServer
      · exact belongs_connect hSound hFree hNe

/-! ## Steps -/

theorem Listed.keep {k : Control} (h : t.Listed k) (hKeeps : Keeps t t') : t'.Listed k :=
  h.frame hKeeps.lists (hKeeps.belongs k)

theorem Listed.silent {k k' : Control} (h : t.Listed k) (hSilent : Silent t k input k') :
    t.Listed k' := by
  apply h.frame rfl
  intro p c
  cases hSilent with
  | again | turnsOver | removed | lost =>
    unfold afterRead
    split <;> rfl
  | poll | noItem | server | client | acceptEnd | received | batchEnd | notReady | readied
    | disconnected => rfl

theorem Listed.connected {p c : Nat} {rest : List EpollEvent}
    (h : t.Listed (.connecting p c rest)) (hMeant : t.Belongs .run p c) :
    (t.addtoConnectedClientsList p c).Listed (.accepting p rest) := by
  have hAbsent (p' : Nat) : ¬t.Belongs (.connecting p c rest) p' c := by
    rintro ⟨-, -, ⟨-, hOther⟩ | hHangs⟩
    · exact hOther rfl
    · cases hHangs
  have hOther {p' c' : Nat} (hNe : c' ≠ c) :
      t.Belongs (.connecting p c rest) p' c' ↔ t.Belongs .run p' c' := by
    unfold Belongs
    simp [Control.connects, Control.hangsUp, hNe.symm]
  intro p'
  change (Function.update t.connectedClients p (t.connectedClients p ++ [c]) p').Nodup ∧
    ∀ c', c' ∈ Function.update t.connectedClients p (t.connectedClients p ++ [c]) p' ↔
      t.Belongs .run p' c'
  obtain ⟨hNodup, hMem⟩ := h p'
  obtain rfl | hNe := eq_or_ne p' p
  · rw [Function.update_self]
    constructor
    · refine List.nodup_append.mpr ⟨hNodup, List.nodup_singleton c, ?_⟩
      rintro c' hc' _ hc rfl
      obtain rfl := List.mem_singleton.mp hc
      exact hAbsent p' ((hMem c').mp hc')
    · intro c'
      rw [List.mem_append, List.mem_singleton, hMem]
      obtain rfl | hNe := eq_or_ne c' c
      · exact iff_of_true (.inr rfl) hMeant
      · rw [hOther hNe, or_iff_left hNe]
  · rw [Function.update_of_ne hNe]
    constructor
    · exact hNodup
    · intro c'
      rw [hMem]
      obtain rfl | hNe' := eq_or_ne c' c
      · apply iff_of_false (hAbsent p')
        rintro ⟨-, hServer, -⟩
        exact hNe (Option.some.inj (hServer.symm.trans hMeant.2.1))
      · exact hOther hNe'

theorem Listed.rdhup (hSound : t.Sound) {event : EpollEvent} {rest : List EpollEvent} {c : Nat}
    (h : t.Listed (.events (event :: rest)))
    (hItem : t.serverTypes event.fd = some (.client c)) :
    (t.disconnect event.fd c).Listed (.hungUp c rest) := by
  refine h.frame rfl ?_
  rintro p c'
  change c' < t.clientCount ∧ (t.clients c').server = some p ∧ _ ↔
    c' < t.clientCount ∧ (t.clients c').server = some p ∧ _
  refine and_congr_right fun hc => and_congr_right fun _ => ?_
  obtain rfl | hNe := eq_or_ne c' c
  · exact iff_of_true (.inr rfl) (.inl ⟨life_eq_live hSound hItem, by simp [Control.connects]⟩)
  · rw [life_disconnect_of_ne hSound hc hItem hNe]
    simp [Control.connects, Control.hangsUp, hNe.symm]

theorem Listed.hungUp {c : Nat} {rest : List EpollEvent} (h : t.Listed (.hungUp c rest))
    (hMeant : c < t.clientCount ∧ t.life c ≠ .live) : (t.hangUp c).Listed (.events rest) := by
  have hGone (p : Nat) : ¬t.Belongs (.events rest) p c := by
    rintro ⟨-, -, ⟨hLive, -⟩ | hHangs⟩
    · exact hMeant.2 hLive
    · cases hHangs
  have hOther {p c' : Nat} (hNe : c' ≠ c) :
      t.Belongs (.events rest) p c' ↔ t.Belongs (.hungUp c rest) p c' := by
    unfold Belongs
    simp [Control.connects, Control.hangsUp, hNe.symm]
  have hBelongs (p c' : Nat) : (t.hangUp c).Belongs (.events rest) p c' ↔
      t.Belongs (.events rest) p c' := by
    rw [hangUp_eq]
    rfl
  intro p
  obtain ⟨hNodup, hMem⟩ := h p
  simp only [hBelongs]
  by_cases hServer : (t.clients c).server = some p
  · have hLists : (t.hangUp c).connectedClients p = (t.connectedClients p).erase c := by
      simp [hangUp, hServer, removeFromConnectedClientsList]
    rw [hLists]
    constructor
    · exact hNodup.erase c
    · intro c'
      rw [hNodup.mem_erase_iff, hMem]
      obtain rfl | hNe := eq_or_ne c' c
      · exact iff_of_false (fun h => h.1 rfl) (hGone p)
      · rw [hOther hNe, and_iff_right hNe]
  · have hLists : (t.hangUp c).connectedClients p = t.connectedClients p := by
      unfold hangUp
      split
      · rfl
      · rename_i p' hServer'
        have hNe : p ≠ p' := by
          rintro rfl
          exact hServer hServer'
        exact Function.update_of_ne hNe ..
    rw [hLists]
    constructor
    · exact hNodup
    · intro c'
      rw [hMem]
      obtain rfl | hNe := eq_or_ne c' c
      · exact iff_of_false (fun h => hServer h.2.1) (hGone p)
      · rw [hOther hNe]

theorem Listed.accept (hSound : t.Sound) {fd p : Nat} {rest : List EpollEvent}
    (hFree : t.isOpen fd = false) (h : t.Listed (.accepting p rest)) :
    (((t.openSocket fd true).newClient alloc fd (some p)).record (.onConnect t.clientCount)).Listed
      (.connecting p t.clientCount rest) := by
  refine h.frame rfl ?_
  rintro p' c
  change ((t.openSocket fd true).newClient alloc fd (some p)).Belongs _ p' c ↔ _
  obtain rfl | hNe := eq_or_ne c t.clientCount
  · refine iff_of_false ?_ fun h => absurd h.1 (Nat.lt_irrefl _)
    rintro ⟨-, -, ⟨-, hOther⟩ | hHangs⟩
    · exact hOther rfl
    · cases hHangs
  · rw [belongs_connect hSound hFree hNe]
    unfold Belongs
    simp [Control.connects, Control.hangsUp, hNe.symm]

/-- What a callback of a connection relies on survives whatever the callback does. -/
theorem meant_of_keeps {k : Control} (hSound : t.Sound) (hMeant : k.Meant t)
    (hStep : Transition alloc ⟨t, k⟩ input ⟨t', k⟩) (hKeeps : Keeps t t') : k.Meant t' := by
  cases k with
  | connecting p c rest => exact (hKeeps.belongs .run p c).mpr hMeant
  | hungUp c rest =>
    obtain ⟨hc, hGone⟩ := hMeant
    constructor
    · exact (persists_step hSound hStep hc).exists'
    · obtain ⟨events, hLife, -⟩ := lives_step hSound hStep hc
      change Life.Step c (t.life c) events (t'.life c) at hLife
      intro hLive
      rw [hLive] at hLife
      generalize t.life c = l at hLife hGone
      cases hLife with
      | stay | talk => exact hGone rfl
  | _ => exact trivial

theorem meant_afterRead (t : ClientTable) (event : EpollEvent) (p : Option Nat)
    (rest : List EpollEvent) : (afterRead event p rest).Meant t := by
  unfold afterRead
  split <;> exact trivial

/-- The lists agree with the lives, and callbacks of connections are about clients they know. -/
def State.Listed (s : State) : Prop := s.table.Listed s.control ∧ s.control.Meant s.table

theorem State.Listed.callback {k : Control} (hSound : t.Sound) (h : State.Listed ⟨t, k⟩)
    (hStep : Transition alloc ⟨t, k⟩ input ⟨t', k⟩) (hKeeps : Keeps t t') :
    State.Listed ⟨t', k⟩ :=
  ⟨h.1.keep hKeeps, meant_of_keeps hSound h.2 hStep hKeeps⟩

theorem State.Listed.step (hSound : s.table.Sound) (h : s.Listed)
    (hStays : staysListed s input = true) (hStep : Transition alloc s input s') : s'.Listed := by
  obtain ⟨hListed, hMeant⟩ := id h
  have hStep₀ := hStep
  cases hStep with
  | silent hSilent =>
    constructor
    · exact hListed.silent hSilent
    · cases hSilent with
      | again | turnsOver | removed | lost => exact meant_afterRead ..
      | _ => exact trivial
  | send _ hAlive hd _ hSend =>
    exact h.callback hSound hStep₀ (keeps_sendsOnly (sendsOnly_send hSound hAlive hd hSend))
  | sendBufferedData _ _ hSend =>
    exact h.callback hSound hStep₀ (keeps_sendsOnly (hSend.sendsOnly hSound).1)
  | deleteClient _ hAlive =>
    exact h.callback hSound hStep₀ (keeps_delete hSound hAlive (server_of_unowned hStays))
  | createClient _ hFree =>
    exact h.callback hSound hStep₀ (keeps_createClient hSound hFree)
  | createServer _ hFree =>
    exact h.callback hSound hStep₀ (keeps_createServer hSound hFree)
  | @accept t p fd rest hFree =>
    refine ⟨hListed.accept hSound hFree, Nat.lt_succ_self _, ?_,
      .inl ⟨?_, by simp [Control.connects]⟩⟩
    · exact server_connect alloc t fd (some p)
    · exact life_connect_new hSound hFree
  | connected => exact ⟨hListed.connected hMeant, trivial⟩
  | rdhup hItem =>
    refine ⟨hListed.rdhup hSound hItem, (hSound.registered _ _ hItem).1.1, ?_⟩
    rw [life_disconnect hSound hItem]
    simp
  | hungUp => exact ⟨hListed.hungUp hMeant, trivial⟩
  | @lost t event p c turns rest result hItem hResult =>
    have hFree : (t.clients c).server = none := by
      obtain rfl | rfl := hResult
      · exact server_of_unowned hStays hItem
      · exact server_of_unowned hStays hItem
    exact ⟨(hListed.keep (keeps_disconnect hSound hItem hFree)).frame rfl fun _ _ => Iff.rfl, trivial⟩
  | @dicon t ite fd c hNext hItem =>
    have hStays' : (iterate t.diconClients ite).all t.unowned = true := hStays
    rw [hNext] at hStays'
    have hKeeps := keeps_disconnect hSound hItem (server_of_unowned hStays' hItem)
    exact ⟨(hListed.keep hKeeps).frame rfl fun _ _ => Iff.rfl, trivial⟩
  | @flush t t' fd c rest results ctl i _ hSend =>
    have hKeeps : Keeps t (flushed t t' fd c i ctl) :=
      keeps_sendsOnly (sendsOnly_flush hSound hSend).1
    exact ⟨(hListed.keep hKeeps).frame rfl fun _ _ => Iff.rfl, trivial⟩
  | leak | data | ready | readyEnd | diconGone | diconEnd =>
    exact ⟨hListed.frame rfl fun _ _ => Iff.rfl, trivial⟩

/-! ## Broadcasts -/

theorem send_trace (hSound : t.Sound) {c : Nat} {zData : Bytes} {results : SendResults} {b : Bool}
    (hItem : t.serverTypes (t.clients c).clientID = some (.client c))
    (hSend : t.send alloc c zData results = some (b, t')) :
    SendsOnly t t' ∧ t'.Sound ∧
      ∃ bytes, t'.trace = t.trace ++ [.send c zData, .wrote c bytes] := by
  have hAlive := (hSound.registered _ c hItem).1
  obtain ⟨d, i, hd, hContents, hSending⟩ := send_cases hSound.buffers hSend
  refine ⟨sendsOnly_send hSound hAlive hd hSending, hSending.sound (hSound.append hAlive hd zData),
    ?_⟩
  have hSame {c' : Nat} (hItem' : t.serverTypes (t.clients c).clientID = some (.client c')) :
      c' = c := ServerType.client.inj (Option.some.inj (hItem'.symm.trans hItem))
  cases hSending with
  | unregistered hNone => cases hNone.symm.trans hItem
  | all hItem' | again hItem' | failed hItem' =>
    obtain rfl := hSame hItem'
    exact ⟨_, List.append_assoc ..⟩

/-- A broadcast to registered clients has no effect on others. -/
theorem broadcast_trace {l : List Nat} {zBuf : Bytes} {results : Nat → SendResults}
    (hSound : t.Sound)
    (hItems : ∀ c ∈ l, t.serverTypes (t.clients c).clientID = some (.client c))
    (hSend : l.foldlM (fun t c => do
      if t.Alive c then
        let (_, t) ← t.send alloc c zBuf (results c)
        return t
      else none) t = some t') :
    ∃ events, t'.trace = t.trace ++ events ∧ ∀ event ∈ events, event.client ∈ l := by
  induction l generalizing t with
  | nil =>
    obtain rfl := Option.some.inj hSend
    exact ⟨[], (List.append_nil _).symm, by simp⟩
  | cons c l ih =>
    obtain ⟨t₁, hFirst, hRest⟩ := Option.bind_eq_some_iff.mp hSend
    obtain ⟨-, hFirst⟩ := Option.ite_none_right_eq_some.mp hFirst
    obtain ⟨⟨b, t₂⟩, hCall, hReturn⟩ := Option.bind_eq_some_iff.mp hFirst
    obtain rfl := Option.some.inj hReturn
    obtain ⟨hSends, hSound', bytes, hTrace⟩ :=
      send_trace hSound (hItems c List.mem_cons_self) hCall
    have hItems' : ∀ c' ∈ l, t₂.serverTypes (t₂.clients c').clientID = some (.client c') := by
      rintro c' hc'
      rw [hSends.serverTypes, hSends.clientID]
      exact hItems c' (List.mem_cons_of_mem c hc')
    obtain ⟨events, hTrace', hEvents⟩ := ih hSound' hItems' hRest
    refine ⟨[.send c zBuf, .wrote c bytes] ++ events, ?_, ?_⟩
    · rw [hTrace', hTrace, List.append_assoc]
    · rintro event hEvent
      obtain hEvent | hEvent := List.mem_append.mp hEvent
      · obtain rfl | rfl := List.mem_pair.mp hEvent
        · exact List.mem_cons_self
        · exact List.mem_cons_self
      · exact List.mem_cons_of_mem c (hEvents event hEvent)

theorem Agrees.addresses (h : t.Agrees) (hSound : t.Sound) : t.Addresses alloc := by
  rintro p zBuf results t' hSend
  have hItem {c : Nat} (hc : c ∈ t.connectedClients p) :
      t.Alive c ∧ t.serverTypes (t.clients c).clientID = some (.client c) := by
    obtain ⟨⟨fd, hItem⟩, -⟩ := ((h p).2 c).mp hc
    obtain ⟨hAlive, rfl, -⟩ := hSound.registered fd c hItem
    exact ⟨hAlive, hItem⟩
  obtain ⟨events, hTrace, hEvents⟩ := broadcast_trace hSound (fun c hc => (hItem hc).2) hSend
  refine ⟨events, hTrace, ?_⟩
  rintro event hEvent
  obtain ⟨hAlive, hItem⟩ := hItem (hEvents event hEvent)
  exact ⟨hAlive, _, hItem⟩

/-! ## Runs -/

theorem Listed.agrees (h : t.Listed .run) (hSound : t.Sound) : t.Agrees := by
  intro p
  constructor
  · exact (h p).1
  · intro c
    rw [(h p).2]
    constructor
    · rintro ⟨hc, hServer, ⟨hLive, -⟩ | hHangs⟩
      · refine ⟨⟨(t.clients c).clientID, ?_⟩, hServer⟩
        unfold life at hLive
        split at hLive
        · cases hLive
        · split at hLive
          · assumption
          · cases hLive
      · cases hHangs
    · rintro ⟨⟨fd, hItem⟩, hServer⟩
      exact ⟨(hSound.registered fd c hItem).1.1, hServer,
        .inl ⟨life_eq_live hSound hItem, by simp [Control.connects]⟩⟩

theorem connected_list_agrees {inputs : List Input}
    (hMeets : (machine alloc).Meets (fun s input => staysListed s input = true) inputs)
    (hRun : (machine alloc).run inputs = some s) (hReturned : s.control = .run) :
    s.table.Agrees ∧ s.table.Addresses alloc := by
  have hInit : (machine alloc).init.Listed := by
    constructor
    · intro p
      constructor
      · exact List.nodup_nil
      · intro c
        exact iff_of_false List.not_mem_nil fun h => absurd h.1 (Nat.not_lt_zero c)
    · exact trivial
  obtain ⟨hSound, hListed, -⟩ := meets_induction hInit
    (fun _ _ _ hSound h hStays hStep => h.step hSound hStays hStep) hMeets hRun
  rw [hReturned] at hListed
  have hAgrees := hListed.agrees hSound
  exact ⟨hAgrees, hAgrees.addresses hSound⟩

/-- Two clients are accepted, and the first one hangs up. -/
def hangUpFirst : List Input :=
  [.createServer 3 true, .poll [⟨3, false, true, false⟩], .next, .accept (some (5, true)),
    .callbackReturn, .accept (some (9, true)), .callbackReturn, .accept none, .next, .next, .next,
    .poll [⟨5, true, true, false⟩], .next, .callbackReturn, .next, .next, .next]

theorem connected_list_agrees_hang_up :
    ∃ s, (machine (.filled 0)).run hangUpFirst = some s ∧ s.table.Agrees ∧
      s.table.Addresses (.filled 0) := by
  obtain ⟨s, hRun, hReturned⟩ : ∃ s, (machine (.filled 0)).run hangUpFirst = some s ∧
      s.control = .run := ⟨_, rfl, rfl⟩
  have hMeets : (machine (.filled 0)).Meets (fun s input => staysListed s input = true)
      hangUpFirst := Machine.meets_of_check _ (by decide)
  exact ⟨s, hRun, connected_list_agrees hMeets hRun hReturned⟩

/-- A client whose socket is read to its end stays on the list. -/
theorem not_connected_list_agrees :
    ¬∀ (inputs : List Input) (s : State), (machine (.filled 0)).run inputs = some s →
      s.control = .run → s.table.Agrees := by
  intro hAgrees
  obtain ⟨s, hRun, hReturned, hListed, hID, hGone⟩ : ∃ s, (machine (.filled 0)).run
      [.createServer 3 true, .poll [⟨3, false, true, false⟩, ⟨5, false, true, false⟩], .next,
        .accept (some (5, true)), .callbackReturn, .accept none, .next, .read .closed,
        .callbackReturn, .next, .next, .next] = some s ∧ s.control = .run ∧
      s.table.connectedClients 0 = [0] ∧ (s.table.clients 0).clientID = 5 ∧
      s.table.serverTypes 5 = none :=
    ⟨_, rfl, rfl, rfl, rfl, rfl⟩
  have hMem : 0 ∈ s.table.connectedClients 0 := by
    rw [hListed]
    exact List.mem_singleton_self 0
  obtain ⟨⟨fd, hItem⟩, -⟩ := ((hAgrees _ s hRun hReturned 0).2 0).mp hMem
  obtain ⟨-, hFd, -⟩ := (reachable_sound hRun).registered fd 0 hItem
  rw [← hFd, hID, hGone] at hItem
  cases hItem

end CStabilizer.ClientTable
