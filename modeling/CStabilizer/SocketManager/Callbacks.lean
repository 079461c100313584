import CStabilizer.SocketManager.Registration

/-! # The life of a client

A client lives from its registration to its removal from the table, and the
object may outlive both. Every step of the table is a step of that life, so that
the callbacks of a client come in the order of it. -/

namespace CStabilizer.ClientTable

open Library Library.CString Library.Memory

variable {alloc : Allocator UInt8} {t t' : ClientTable} {s s' : State} {input : Input}

/-! ## Lives -/

inductive Life where
  -- Registered in the table
  | live
  -- No longer registered, and not deleted
  | removed
  | deleted
deriving DecidableEq, Repr

/-- The callbacks that a live client may get any number of times. -/
def Talks (c : Nat) (event : SocketEvent) : Prop :=
  event = .onReadyToSend c ∨ ∃ bytes, event = .onData c bytes

/-- What may happen to a client, with the events by which it is noticed. -/
inductive Life.Step (c : Nat) : Life → List SocketEvent → Life → Prop where
  | stay (l : Life) : Life.Step c l [] l
  | talk {event : SocketEvent} (hTalks : Talks c event) : Life.Step c live [event] live
  | disconnect : Life.Step c live [.onDisconnect c] removed
  | delete {l : Life} (hLife : l ≠ deleted) : Life.Step c l [.deleted c] deleted

/-- How a history ends. -/
def Life.endings (c : Nat) : Life → List (List SocketEvent)
  | live => [[]]
  | removed => [[.onDisconnect c]]
  | deleted => [[.deleted c], [.onDisconnect c, .deleted c]]

/-- A history with its opening: the callbacks of a live client, and the ending of its life. -/
def Life.Tells (c : Nat) (l : Life) (opening history : List SocketEvent) : Prop :=
  ∃ body ending, history = opening ++ (body ++ ending) ∧ (∀ event ∈ body, Talks c event) ∧
    ending ∈ l.endings c

theorem Life.Tells.step {c : Nat} {l l' : Life} {opening history events : List SocketEvent}
    (h : l.Tells c opening history) (hStep : Life.Step c l events l') :
    l'.Tells c opening (history ++ events) := by
  obtain ⟨body, ending, rfl, hBody, hEnding⟩ := h
  cases hStep with
  | stay => exact ⟨body, ending, by rw [List.append_nil], hBody, hEnding⟩
  | @talk event hTalks =>
    obtain rfl := List.mem_singleton.mp hEnding
    refine ⟨body ++ [event], [], by simp, ?_, List.mem_singleton_self _⟩
    rintro event' hEvent
    obtain hEvent | hEvent := List.mem_append.mp hEvent
    · exact hBody event' hEvent
    · exact List.mem_singleton.mp hEvent ▸ hTalks
  | disconnect =>
    obtain rfl := List.mem_singleton.mp hEnding
    exact ⟨body, [.onDisconnect c], by simp, hBody, List.mem_singleton_self _⟩
  | delete hLife =>
    refine ⟨body, ending ++ [.deleted c], by simp, hBody, ?_⟩
    cases l with
    | live | removed =>
      obtain rfl := List.mem_singleton.mp hEnding
      simp [Life.endings]
    | deleted => exact absurd rfl hLife

/-! ## Clients of the table -/

def life (t : ClientTable) (c : Nat) : Life :=
  if (t.clients c).deleted then .deleted
  else if t.serverTypes (t.clients c).clientID = some (.client c) then .live
  else .removed

/-- What happens to a client, sending apart. -/
def history (t : ClientTable) (c : Nat) : List SocketEvent :=
  t.trace.filter fun event => event.client = c ∧ event.sends = false

/-- The history of a client begins with `OnConnect` if a server has accepted it. -/
def opening (t : ClientTable) (c : Nat) : List SocketEvent :=
  match (t.clients c).server with
  | none => []
  | some _ => [.onConnect c]

theorem life_eq_live {fd c : Nat} (hSound : t.Sound) (hItem : t.serverTypes fd = some (.client c)) :
    t.life c = .live := by
  obtain ⟨hAlive, hID, -⟩ := hSound.registered fd c hItem
  unfold life
  rw [hAlive.2, hID, hItem]
  simp

theorem life_ne_deleted {c : Nat} (hAlive : t.Alive c) : t.life c ≠ .deleted := by
  unfold life
  rw [hAlive.2, if_neg Bool.false_ne_true]
  split <;> simp

theorem life_eq_deleted {c : Nat} (hc : c < t.clientCount) (hGone : ¬t.Alive c) :
    t.life c = .deleted := by
  have hDeleted : (t.clients c).deleted = true := by
    by_contra hDeleted
    exact hGone ⟨hc, Bool.eq_false_iff.mpr hDeleted⟩
  rw [life, if_pos hDeleted]

/-- The life of a client goes on as long as nothing changes under its descriptor. -/
theorem life_congr {c : Nat} (hc : c < t.clientCount)
    (hID : (t'.clients c).clientID = (t.clients c).clientID)
    (hDeleted : (t'.clients c).deleted = (t.clients c).deleted)
    (hItem : t.Alive c →
      (t'.serverTypes (t.clients c).clientID = some (.client c) ↔
        t.serverTypes (t.clients c).clientID = some (.client c))) :
    t'.life c = t.life c := by
  unfold life
  rw [hID, hDeleted]
  split
  · rfl
  · rename_i hAlive
    simp only [hItem ⟨hc, Bool.eq_false_iff.mpr hAlive⟩]

theorem life_sendsOnly (h : SendsOnly t t') {c : Nat} (hc : c < t.clientCount) :
    t'.life c = t.life c :=
  life_congr hc (h.clientID c) (h.deleted c) fun _ => by rw [h.serverTypes]

theorem life_disconnect_of_ne (hSound : t.Sound) {fd c₀ c : Nat} (hc : c < t.clientCount)
    (hItem : t.serverTypes fd = some (.client c₀)) (hNe : c ≠ c₀) :
    (t.disconnect fd c₀).life c = t.life c := by
  obtain ⟨hAlive₀, hID₀, -⟩ := hSound.registered fd c₀ hItem
  refine life_congr hc rfl rfl ?_
  rintro hAlive
  have hFd : (t.clients c).clientID ≠ fd :=
    fun hEq => hNe (hSound.distinct c c₀ hAlive hAlive₀ (hEq.trans hID₀.symm))
  change (t.setItem fd none).serverTypes _ = _ ↔ _
  rw [serverTypes_setItem, if_neg hFd]

theorem life_disconnect (hSound : t.Sound) {fd c : Nat}
    (hItem : t.serverTypes fd = some (.client c)) : (t.disconnect fd c).life c = .removed := by
  obtain ⟨hAlive, hID, -⟩ := hSound.registered fd c hItem
  change (if (t.clients c).deleted then Life.deleted
    else if (t.setItem fd none).serverTypes (t.clients c).clientID = some (.client c) then .live
    else .removed) = _
  rw [hAlive.2, hID, serverTypes_setItem, if_pos rfl]
  simp

theorem life_deleteClient_of_ne (hSound : t.Sound) {c₀ c : Nat} (hc : c < t.clientCount)
    (hAlive₀ : t.Alive c₀) (hNe : c ≠ c₀) : (t.deleteClient c₀).life c = t.life c := by
  refine life_congr hc ?_ ?_ ?_
  · rw [clients_deleteClient]
  · rw [clients_deleteClient]
    exact if_neg hNe
  · rintro hAlive
    have hFd : (t.clients c).clientID ≠ (t.clients c₀).clientID :=
      fun hEq => hNe (hSound.distinct c c₀ hAlive hAlive₀ hEq)
    rw [serverTypes_deleteClient, if_neg hFd]

theorem life_deleteClient {c : Nat} (hc : c < t.clientCount) :
    (t.deleteClient c).life c = .deleted :=
  life_eq_deleted hc fun hAlive => (alive_deleteClient.mp hAlive).2 rfl

theorem life_connect (hSound : t.Sound) {fd c : Nat} {p : Option Nat} (hc : c < t.clientCount)
    (hFree : t.isOpen fd = false) :
    ((t.openSocket fd true).newClient alloc fd p).life c = t.life c := by
  apply life_congr hc (by rw [clients_connect hc]) (by rw [clients_connect hc])
  rintro hAlive
  rw [serverTypes_newClient, if_neg (hSound.ne_of_free hFree hAlive)]
  rfl

theorem life_connect_new (hSound : t.Sound) {fd : Nat} {p : Option Nat}
    (hFree : t.isOpen fd = false) :
    ((t.openSocket fd true).newClient alloc fd p).life t.clientCount = .live := by
  apply life_eq_live (hSound.connect p hFree)
  rw [serverTypes_newClient]
  exact if_pos rfl

theorem life_createServer (hSound : t.Sound) {fd c : Nat} {ctl : Bool} (hc : c < t.clientCount)
    (hFree : t.isOpen fd = false) : (t.createServer fd ctl).life c = t.life c := by
  apply life_congr hc (by rw [clients_createServer]) (by rw [clients_createServer])
  rintro hAlive
  rw [serverTypes_createServer, if_neg fun hEq => hSound.ne_of_free hFree hAlive hEq.2]

theorem history_append {events : List SocketEvent} (c : Nat)
    (hTrace : t'.trace = t.trace ++ events) :
    t'.history c = t.history c ++
      events.filter fun event => event.client = c ∧ event.sends = false := by
  rw [history, hTrace, List.filter_append]
  rfl

theorem history_record (event : SocketEvent) (c : Nat) :
    (t.record event).history c = t.history c ++
      if event.client = c ∧ event.sends = false then [event] else [] := by
  rw [history_append c rfl]
  by_cases hEvent : event.client = c ∧ event.sends = false
  · simp [hEvent]
  · simp [hEvent]

theorem history_new (hSound : t.Sound) {c : Nat} (hNew : t.clientCount ≤ c) : t.history c = [] := by
  apply List.filter_eq_nil_iff.mpr
  rintro event hEvent
  have hKnown := hSound.known event hEvent
  simp only [decide_eq_true_eq, not_and]
  rintro rfl
  omega

/-! ## Steps -/

/-- A step of the table is one in the life of a client. -/
def Lives (t t' : ClientTable) (c : Nat) : Prop :=
  ∃ events, Life.Step c (t.life c) events (t'.life c) ∧ t'.history c = t.history c ++ events

theorem Lives.quiet {c : Nat} (hLife : t'.life c = t.life c)
    (hHistory : t'.history c = t.history c) : Lives t t' c :=
  ⟨[], hLife ▸ .stay _, by rw [hHistory, List.append_nil]⟩

theorem Lives.refl (t : ClientTable) (c : Nat) : Lives t t c := .quiet rfl rfl

theorem lives_sendsOnly (h : SendsOnly t t') {c : Nat} (hc : c < t.clientCount) :
    Lives t t' c := by
  apply Lives.quiet (life_sendsOnly h hc)
  obtain ⟨events, hTrace, hEvents⟩ := h.trace
  rw [history_append c hTrace, List.filter_eq_nil_iff.mpr, List.append_nil]
  rintro event hEvent
  simp [(hEvents event hEvent).1]

theorem lives_talk (hSound : t.Sound) {fd c₀ c : Nat}
    (hItem : t.serverTypes fd = some (.client c₀)) {event : SocketEvent}
    (hTalks : Talks c₀ event) : Lives t (t.record event) c := by
  have hEvent : event.client = c₀ ∧ event.sends = false := by
    obtain rfl | ⟨bytes, rfl⟩ := hTalks
    · exact ⟨rfl, rfl⟩
    · exact ⟨rfl, rfl⟩
  have hHistory := history_record (t := t) event c
  obtain rfl | hNe := eq_or_ne c₀ c
  · refine ⟨[event], ?_, by rw [hHistory, if_pos hEvent]⟩
    change Life.Step c₀ (t.life c₀) [event] (t.life c₀)
    rw [life_eq_live hSound hItem]
    exact .talk hTalks
  · rw [if_neg fun h => hNe (hEvent.1.symm.trans h.1), List.append_nil] at hHistory
    exact .quiet rfl hHistory

theorem lives_disconnect (hSound : t.Sound) {fd c₀ c : Nat} (hc : c < t.clientCount)
    (hItem : t.serverTypes fd = some (.client c₀)) : Lives t (t.disconnect fd c₀) c := by
  have hHistory : (t.disconnect fd c₀).history c =
      t.history c ++ if c₀ = c then [.onDisconnect c₀] else [] := by
    apply (history_record (t := t.setItem fd none) (.onDisconnect c₀) c).trans
    simp [SocketEvent.client, SocketEvent.sends]
    rfl
  obtain rfl | hNe := eq_or_ne c₀ c
  · rw [if_pos rfl] at hHistory
    refine ⟨[.onDisconnect c₀], ?_, hHistory⟩
    rw [life_disconnect hSound hItem, life_eq_live hSound hItem]
    exact .disconnect
  · rw [if_neg hNe, List.append_nil] at hHistory
    exact .quiet (life_disconnect_of_ne hSound hc hItem hNe.symm) hHistory

theorem lives_delete (hSound : t.Sound) {c₀ c : Nat} (hc : c < t.clientCount)
    (hAlive₀ : t.Alive c₀) : Lives t (t.deleteClient c₀) c := by
  have hHistory : (t.deleteClient c₀).history c =
      t.history c ++ if c₀ = c then [.deleted c₀] else [] := by
    apply (history_record (t := t.addToDeletedClientSet _) (.deleted c₀) c).trans
    simp [SocketEvent.client, SocketEvent.sends]
    rfl
  obtain rfl | hNe := eq_or_ne c₀ c
  · rw [if_pos rfl] at hHistory
    refine ⟨[.deleted c₀], ?_, hHistory⟩
    rw [life_deleteClient hc]
    exact .delete (life_ne_deleted hAlive₀)
  · rw [if_neg hNe, List.append_nil] at hHistory
    exact .quiet (life_deleteClient_of_ne hSound hc hAlive₀ hNe.symm) hHistory

/-- Every step is one in the life of every client. -/
theorem lives_step (hSound : s.table.Sound) (hStep : Transition alloc s input s') {c : Nat}
    (hc : c < s.table.clientCount) : Lives s.table s'.table c := by
  cases hStep with
  | silent => exact .refl ..
  | send _ hAlive hd _ hSend => exact lives_sendsOnly (sendsOnly_send hSound hAlive hd hSend) hc
  | sendBufferedData _ _ hSend => exact lives_sendsOnly (hSend.sendsOnly hSound).1 hc
  | flush _ hSend => exact lives_sendsOnly (sendsOnly_flush hSound hSend).1 hc
  | deleteClient _ hAlive => exact lives_delete hSound hc hAlive
  | @createClient t k fd ctl _ hFree =>
    cases ctl with
    | false => exact .quiet rfl rfl
    | true => exact .quiet (life_connect hSound hc hFree) rfl
  | @createServer t k fd ctl _ hFree =>
    apply Lives.quiet (life_createServer hSound hc hFree)
    cases ctl <;> rfl
  | @accept t p fd rest hFree =>
    refine .quiet (life_connect hSound hc hFree) ?_
    rw [history_record, if_neg fun h => Nat.ne_of_gt hc h.1, List.append_nil]
    rfl
  | leak | connected | readyEnd | diconGone | diconEnd => exact .quiet rfl rfl
  | rdhup hItem | lost hItem | dicon _ hItem => exact lives_disconnect hSound hc hItem
  | hungUp =>
    rw [hangUp_eq]
    exact .quiet rfl rfl
  | data hItem => exact lives_talk hSound hItem (.inr ⟨_, rfl⟩)
  | ready _ hItem => exact lives_talk hSound hItem (.inl rfl)

theorem server_connect (alloc : Allocator UInt8) (t : ClientTable) (fd : Nat) (p : Option Nat) :
    (((t.openSocket fd true).newClient alloc fd p).clients t.clientCount).server = p := by
  rw [clients_newClient]
  exact congrArg Client.server (if_pos rfl)

/-- A new client is live, and at most `OnConnect` has been called for it. -/
theorem born_step (hSound : s.table.Sound) (hStep : Transition alloc s input s') {c : Nat}
    (hOld : s.table.clientCount ≤ c) (hNew : c < s'.table.clientCount) :
    s'.table.life c = .live ∧ s'.table.history c = s'.table.opening c := by
  have hNothing := history_new hSound hOld
  have hSame (hCount : s'.table.clientCount = s.table.clientCount) :
      s'.table.life c = .live ∧ s'.table.history c = s'.table.opening c :=
    absurd hNew (Nat.not_lt.mpr (hCount ▸ hOld))
  cases hStep with
  | send _ hAlive hd _ hSend => exact hSame (sendsOnly_send hSound hAlive hd hSend).clientCount
  | sendBufferedData _ _ hSend => exact hSame (hSend.sendsOnly hSound).1.clientCount
  | flush _ hSend => exact hSame (sendsOnly_flush hSound hSend).1.clientCount
  | @createClient t k fd ctl _ hFree =>
    cases ctl with
    | false => exact hSame rfl
    | true =>
      obtain rfl : c = t.clientCount := Nat.le_antisymm (Nat.le_of_lt_succ hNew) hOld
      refine ⟨life_connect_new hSound hFree, hNothing.trans ?_⟩
      change [] = ((t.openSocket fd true).newClient alloc fd none).opening t.clientCount
      rw [opening, server_connect]
  | @createServer t k fd ctl => cases ctl <;> exact hSame rfl
  | @accept t p fd rest hFree =>
    obtain rfl : c = t.clientCount := Nat.le_antisymm (Nat.le_of_lt_succ hNew) hOld
    constructor
    · exact life_connect_new hSound hFree
    · rw [history_record, if_pos ⟨rfl, rfl⟩]
      change t.history t.clientCount ++ _ =
        ((t.openSocket fd true).newClient alloc fd (some p)).opening t.clientCount
      rw [hNothing, opening, server_connect]
      rfl
  | hungUp =>
    rw [hangUp_eq] at hNew
    exact absurd hNew (Nat.not_lt.mpr hOld)
  | silent | deleteClient | leak | connected | rdhup | data | lost | ready | readyEnd | dicon
    | diconGone | diconEnd => exact hSame rfl

/-! ## Runs -/

/-- The history of every client tells its life. -/
def Told (t : ClientTable) : Prop :=
  ∀ c < t.clientCount, (t.life c).Tells c (t.opening c) (t.history c)

theorem Told.step (hSound : s.table.Sound) (h : s.table.Told)
    (hStep : Transition alloc s input s') : s'.table.Told := by
  rintro c hNew
  obtain hOld | hOld := Nat.lt_or_ge c s.table.clientCount
  · obtain ⟨events, hLife, hHistory⟩ := lives_step hSound hStep hOld
    have hOpening : s'.table.opening c = s.table.opening c := by
      rw [opening, (persists_step hSound hStep hOld).server]
      rfl
    rw [hHistory, hOpening]
    exact (h c hOld).step hLife
  · obtain ⟨hLive, hHistory⟩ := born_step hSound hStep hOld hNew
    rw [hLive, hHistory]
    exact ⟨[], [], by simp, by simp, List.mem_singleton_self _⟩

theorem reachable_told {inputs : List Input} (hRun : (machine alloc).run inputs = some s) :
    s.table.Told :=
  (run_induction (I := fun s => s.table.Told) (fun c hc => absurd hc (Nat.not_lt_zero c))
    (fun _ _ _ hSound h hStep => h.step hSound hStep) hRun).2

/-- `OnConnect` comes first and once, `OnDisconnect` at most once, and neither data nor
readiness is reported behind it or behind the destructor. -/
theorem callbacks_in_order {inputs : List Input} (hRun : (machine alloc).run inputs = some s)
    {c p : Nat} (hc : c < s.table.clientCount) (hAccepted : (s.table.clients c).server = some p) :
    ∃ body ending, s.table.history c = .onConnect c :: (body ++ ending) ∧
      (∀ event ∈ body, Talks c event) ∧
      ending ∈ [[], [.onDisconnect c], [.deleted c], [.onDisconnect c, .deleted c]] := by
  obtain ⟨body, ending, hHistory, hBody, hEnding⟩ := reachable_told hRun c hc
  rw [opening, hAccepted] at hHistory
  refine ⟨body, ending, hHistory, hBody, ?_⟩
  cases hLife : s.table.life c with
  | live | removed | deleted =>
    rw [hLife] at hEnding
    simp only [Life.endings, List.mem_cons, List.not_mem_nil, or_false] at hEnding
    simp [hEnding]

/-- A client sends a byte and closes, and is deleted in its `OnDisconnect`. -/
def deletedOnDisconnect : List Input :=
  [.createServer 3 true, .poll [⟨3, false, true, false⟩, ⟨5, false, true, false⟩], .next,
    .accept (some (5, true)), .callbackReturn, .accept none, .next, .read (.data [1]),
    .callbackReturn, .read .closed, .deleteClient 0]

theorem callbacks_in_order_deleted :
    ∃ s, (machine (.filled 0)).run deletedOnDisconnect = some s ∧
      ∃ body ending, s.table.history 0 = .onConnect 0 :: (body ++ ending) ∧
        (∀ event ∈ body, Talks 0 event) ∧
        ending ∈ [[], [.onDisconnect 0], [.deleted 0], [.onDisconnect 0, .deleted 0]] := by
  obtain ⟨s, hRun, hCount, hServer⟩ : ∃ s, (machine (.filled 0)).run deletedOnDisconnect = some s ∧
      s.table.clientCount = 1 ∧ (s.table.clients 0).server = some 0 := ⟨_, rfl, rfl, rfl⟩
  exact ⟨s, hRun, callbacks_in_order hRun (hCount ▸ Nat.one_pos) hServer⟩

example : ((machine (.filled 0)).run deletedOnDisconnect).map (·.table.history 0) =
    some [.onConnect 0, .onData 0 [1], .onDisconnect 0, .deleted 0] := rfl

end CStabilizer.ClientTable
