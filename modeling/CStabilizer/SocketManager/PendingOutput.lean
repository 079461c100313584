import CStabilizer.SocketManager.SendPath

/-! # Pending output

A registered client with unsent data waits for `EPOLLOUT` or is going to be
disconnected. The set of failed descriptors is cleared behind the disconnect
loop: a descriptor that enters it behind the iterator is forgotten. -/

namespace CStabilizer.ClientTable

open Library Library.CString Library.Memory

variable {alloc : Allocator UInt8} {t t' : ClientTable} {s s' : State} {input : Input}

/-! ## The property and its condition -/

def Waits (t : ClientTable) (fd c : Nat) : Prop :=
  (t.clients c).isBuffered = true ∧ t.epoll fd = some true

instance instDecidableWaits (t : ClientTable) (fd c : Nat) : Decidable (t.Waits fd c) :=
  inferInstanceAs (Decidable (_ ∧ _))

/-- The client under `fd` has no unsent data, or waits, or is among the failed
ones and `reach` holds of it. -/
def KeptFor (t : ClientTable) (reach : Nat → Prop) (fd c : Nat) : Prop :=
  t.serverTypes fd = some (.client c) → (t.clients c).sendBuffer.contents ≠ [] →
    t.Waits fd c ∨ (fd ∈ t.diconClients ∧ reach fd)

/-- Every registered client with unsent data waits or is going to be disconnected. -/
def NoneForgotten (t : ClientTable) : Prop := ∀ fd c, t.KeptFor (fun _ => True) fd c

def CtlSucceeds : Input → Prop
  | .send _ _ results | .sendBufferedData _ results | .flush results _ => results.ctl = true
  | .poll _ | .next | .accept _ | .read _ | .callbackReturn | .deleteClient _ | .createClient ..
  | .createServer .. => True

/-- In an `OnDisconnect` of the disconnect loop, a write fails for a registered client whose
descriptor is not above the one that is disconnected and that does not wait already. -/
def FailsBehind (s : State) : Input → Prop
  | .send c _ results | .sendBufferedData c results =>
    match s.control with
    | .disconnecting iClientId =>
      (s.table.clients c).clientID ≤ iClientId ∧
      s.table.serverTypes (s.table.clients c).clientID = some (.client c) ∧
      results.writes.getLast? = some .failed ∧ ¬s.table.Waits (s.table.clients c).clientID c
    | _ => False
  | .poll _ | .next | .accept _ | .read _ | .flush .. | .callbackReturn | .deleteClient _
  | .createClient .. | .createServer .. => False

def Control.reaches : Control → Nat → Prop
  | .diconLoop ite, fd => ite ≤ fd
  | .disconnecting iClientId, fd => iClientId < fd
  | _, _ => True

instance instDecidableReaches : (k : Control) → DecidablePred k.reaches
  | .diconLoop ite => fun fd => inferInstanceAs (Decidable (ite ≤ fd))
  | .disconnecting iClientId => fun fd => inferInstanceAs (Decidable (iClientId < fd))
  | .run | .events _ | .accepting .. | .connecting .. | .hungUp .. | .reading .. | .receiving ..
  | .lost .. | .writing .. | .readyLoop _ | .readying _ => fun _ => inferInstanceAs (Decidable True)

/-! ## Steps -/

def Undisturbed (t t' : ClientTable) (fd c : Nat) : Prop :=
  t.serverTypes fd = some (.client c) ∧ (t'.clients c).sendBuffer = (t.clients c).sendBuffer ∧
    (t'.clients c).isBuffered = (t.clients c).isBuffered ∧ t'.epoll fd = t.epoll fd

theorem KeptFor.frame {reach reach' : Nat → Prop} {fd c : Nat} (h : t.KeptFor reach fd c)
    (hFrame : Undisturbed t t' fd c)
    (hDicon : fd ∈ t.diconClients → reach fd → fd ∈ t'.diconClients ∧ reach' fd) :
    t'.KeptFor reach' fd c := by
  rintro - hPending
  obtain ⟨hItem, hBuffer, hFlag, hEpoll⟩ := hFrame
  rw [hBuffer] at hPending
  obtain ⟨hBuffered, hArmed⟩ | ⟨hMem, hReach⟩ := h hItem hPending
  · exact .inl ⟨hFlag.trans hBuffered, hEpoll.trans hArmed⟩
  · exact .inr (hDicon hMem hReach)

theorem KeptFor.undisturbed {reach : Nat → Prop} {fd c : Nat} (h : t.KeptFor reach fd c)
    (hFrame : Undisturbed t t' fd c) (hDicon : t.diconClients ⊆ t'.diconClients) :
    t'.KeptFor reach fd c :=
  h.frame hFrame fun hMem hReach => ⟨hDicon hMem, hReach⟩

theorem Sending.undisturbed {fd fd' c : Nat} {results : SendResults} {i : Int} (hSound : t.Sound)
    (hSend : Sending t fd results i t') (hItem : t.serverTypes fd' = some (.client c))
    (hNe : fd' ≠ fd) : Undisturbed t t' fd' c := by
  have hOther {c' : Nat} (hItem' : t.serverTypes fd = some (.client c')) : c ≠ c' := by
    rintro rfl
    exact hNe ((hSound.registered fd' c hItem).2.1.symm.trans (hSound.registered fd c hItem').2.1)
  cases hSend with
  | unregistered => exact ⟨hItem, rfl, rfl, rfl⟩
  | all hItem' => exact ⟨hItem, by simp [hOther hItem'], by simp, rfl⟩
  | again hItem' =>
    exact ⟨hItem, by simp [hOther hItem'], by simp [hOther hItem'],
      epoll_epollMod_of_ne true results.ctl hNe⟩
  | failed hItem' => exact ⟨hItem, by simp [insertDicon, hOther hItem'], by simp [insertDicon], rfl⟩

theorem Sending.dicon_subset {fd : Nat} {results : SendResults} {i : Int}
    (hSend : Sending t fd results i t') : t.diconClients ⊆ t'.diconClients := by
  cases hSend with
  | unregistered | all | again => exact Finset.Subset.refl _
  | failed => exact Finset.subset_insert ..

theorem Sending.settled {fd c : Nat} {results : SendResults} {i : Int} (hSound : t.Sound)
    (hSend : Sending t fd results i t') (hItem : t.serverTypes fd = some (.client c))
    (hCtl : results.ctl = true) :
    (t'.clients c).sendBuffer.contents = [] ∨
      (t'.Waits fd c ∧ i < (t.clients c).sendBuffer.currentLen) ∨
      (fd ∈ t'.diconClients ∧ results.writes.getLast? = some .failed ∧
        i < (t.clients c).sendBuffer.currentLen ∧ (t.Waits fd c → t'.Waits fd c)) := by
  cases hSend with
  | unregistered hItem' => cases hItem'.symm.trans hItem
  | all hItem' hValid hContents =>
    obtain rfl := ServerType.client.inj (Option.some.inj (hItem'.symm.trans hItem))
    exact .inl (by simpa using hContents)
  | again hItem' hLess =>
    obtain rfl := ServerType.client.inj (Option.some.inj (hItem'.symm.trans hItem))
    refine .inr (.inl ⟨⟨by simp, ?_⟩, Int.ofNat_lt.mpr hLess⟩)
    have hEpoll := (hSound.registered fd _ hItem).2.2
    simp [epollMod, hCtl, record, setBufferStatus, setSendBuffer, hEpoll]
  | failed hItem' hLess hValid hContents hLast =>
    obtain rfl := ServerType.client.inj (Option.some.inj (hItem'.symm.trans hItem))
    refine .inr (.inr ⟨Finset.mem_insert_self .., hLast, by omega, ?_⟩)
    rintro ⟨hBuffered, hArmed⟩
    exact ⟨by simpa [insertDicon] using hBuffered, hArmed⟩

theorem epollMod_undisturbed {fd fd' c : Nat} {out ctl : Bool}
    (hItem : t.serverTypes fd' = some (.client c)) (hNe : fd' ≠ fd) :
    Undisturbed t (t.epollMod fd out ctl) fd' c :=
  ⟨hItem, rfl, rfl, epoll_epollMod_of_ne out ctl hNe⟩

/-- Every client is kept behind a call of `SendToClient` when all others were kept
before it and a client that fails in it is still met. -/
theorem KeptFor.sending {reach : Nat → Prop} {fd : Nat} {results : SendResults} {i : Int}
    (hSound : t.Sound) (h : ∀ fd' c, fd' ≠ fd → t.KeptFor reach fd' c)
    (hSend : Sending t fd results i t') (hCtl : results.ctl = true)
    (hReach : ∀ c, t.serverTypes fd = some (.client c) →
      results.writes.getLast? = some .failed → ¬t.Waits fd c → reach fd) (fd' c : Nat) :
    t'.KeptFor reach fd' c := by
  intro hItem hPending
  have hItem₀ := hItem
  rw [(hSend.sendsOnly hSound).1.serverTypes] at hItem
  obtain rfl | hNe := eq_or_ne fd' fd
  · obtain hEmpty | ⟨hWaits, -⟩ | ⟨hMem, hLast, -, hKeeps⟩ := hSend.settled hSound hItem hCtl
    · exact absurd hEmpty hPending
    · exact .inl hWaits
    · by_cases hWaits : t.Waits fd' c
      · exact .inl (hKeeps hWaits)
      · exact .inr ⟨hMem, hReach c hItem hLast hWaits⟩
  · have hFrame := hSend.undisturbed hSound hItem hNe
    exact (h fd' c hNe).undisturbed hFrame hSend.dicon_subset hItem₀ hPending

theorem KeptFor.send {reach : Nat → Prop} {c₀ : Nat} {d : ClientData} {zData : Bytes}
    {results : SendResults} {i : Int} (hSound : t.Sound) (hAlive : t.Alive c₀) (hd : d.Valid)
    (h : ∀ fd c, t.KeptFor reach fd c)
    (hSend : Sending ((t.setSendBuffer c₀ d).record (.send c₀ zData)) (t.clients c₀).clientID
      results i t') (hCtl : results.ctl = true)
    (hReach : t.serverTypes (t.clients c₀).clientID = some (.client c₀) →
      results.writes.getLast? = some .failed → ¬t.Waits (t.clients c₀).clientID c₀ →
      reach (t.clients c₀).clientID) (fd c : Nat) : t'.KeptFor reach fd c := by
  refine KeptFor.sending (hSound.append hAlive hd zData) ?_ hSend hCtl ?_ fd c
  · rintro fd' c' hNe hItem
    have hOther : c' ≠ c₀ := by
      rintro rfl
      exact hNe (hSound.registered fd' c' hItem).2.1.symm
    have hFrame : Undisturbed t ((t.setSendBuffer c₀ d).record (.send c₀ zData)) fd' c' :=
      ⟨hItem, by simp [hOther], by simp, rfl⟩
    exact (h fd' c').undisturbed hFrame (Finset.Subset.refl _) hItem
  · rintro c' hItem hLast hWaits
    obtain rfl := ServerType.client.inj ((hSound.owned c₀ hAlive).2 _ hItem)
    exact hReach hItem hLast fun ⟨hBuffered, hArmed⟩ => hWaits ⟨by simpa using hBuffered, hArmed⟩

theorem KeptFor.flush {reach : Nat → Prop} {fd₀ c₀ : Nat} {results : SendResults} {i : Int}
    {ctl : Bool} (hSound : t.Sound) (hAlive : t.Alive c₀) (hID : (t.clients c₀).clientID = fd₀)
    (h : ∀ fd c, t.KeptFor reach fd c)
    (hSend : Sending ((t.insertReady fd₀).setBufferStatus c₀ false) fd₀ results i t')
    (hCtl : results.ctl = true) (hReach : reach fd₀) (fd c : Nat) :
    (flushed t t' fd₀ c₀ i ctl).KeptFor reach fd c := by
  have hBefore := hSound.beforeFlush fd₀ c₀
  have hSends := (hSend.sendsOnly hBefore).1
  have hKept : t'.KeptFor reach fd c := by
    refine KeptFor.sending hBefore ?_ hSend hCtl (fun _ _ _ _ => hReach) fd c
    rintro fd' c' hNe hItem
    have hOther : c' ≠ c₀ := by
      rintro rfl
      exact hNe ((hSound.registered fd' c' hItem).2.1.symm.trans hID)
    have hFrame : Undisturbed t ((t.insertReady fd₀).setBufferStatus c₀ false) fd' c' :=
      ⟨hItem, by simp, by simp [hOther], rfl⟩
    exact (h fd' c').undisturbed hFrame (Finset.Subset.refl _) hItem
  unfold flushed
  split
  · rename_i hLength
    rintro hItem hPending
    obtain rfl | hNe := eq_or_ne fd fd₀
    · -- `EPOLLOUT` is disarmed only when everything has been sent
      have hItem' : t.serverTypes fd = some (.client c) := hSends.serverTypes ▸ hItem
      obtain rfl := ServerType.client.inj ((hSound.owned c₀ hAlive).2 _ (hID.symm ▸ hItem'))
      have hLess (hLess : i < (((t.insertReady fd).setBufferStatus c false).clients
          c).sendBuffer.currentLen) : False := by
        rw [clients_setBufferStatus] at hLess
        exact absurd hLength (Int.ne_of_gt hLess)
      obtain hEmpty | ⟨-, hShort⟩ | ⟨-, -, hShort, -⟩ := hSend.settled hBefore hItem' hCtl
      · exact absurd hEmpty hPending
      · exact (hLess hShort).elim
      · exact (hLess hShort).elim
    · exact hKept.undisturbed (epollMod_undisturbed hItem hNe) (Finset.Subset.refl _) hItem hPending
  · exact hKept

theorem KeptFor.mono {reach reach' : Nat → Prop} {fd c : Nat} (h : t.KeptFor reach fd c)
    (hReach : fd ∈ t.diconClients → reach fd → reach' fd) : t.KeptFor reach' fd c := by
  intro hItem hPending
  exact (h hItem hPending).imp_right fun ⟨hMem, hReached⟩ => ⟨hMem, hReach hMem hReached⟩

theorem KeptFor.unregister {reach reach' : Nat → Prop} {fd fd₀ c : Nat} (h : t.KeptFor reach fd c)
    (hReach : fd ≠ fd₀ → fd ∈ t.diconClients → reach fd → reach' fd) :
    (t.setItem fd₀ none).KeptFor reach' fd c := by
  intro hItem hPending
  rw [serverTypes_setItem] at hItem
  split at hItem
  · cases hItem
  · rename_i hNe
    exact (h.mono (hReach hNe)) hItem hPending

theorem KeptFor.delete {reach : Nat → Prop} {fd c₀ c : Nat} (h : t.KeptFor reach fd c) :
    (t.deleteClient c₀).KeptFor reach fd c := by
  intro hItem
  have hItem' := hItem
  rw [serverTypes_deleteClient] at hItem
  split at hItem
  · cases hItem
  · rename_i hNe
    have hFrame : Undisturbed t (t.deleteClient c₀) fd c := by
      refine ⟨hItem, ?_, ?_, ?_⟩
      · rw [clients_deleteClient]
      · rw [clients_deleteClient]
      · rw [epoll_deleteClient, if_neg hNe]
    exact h.undisturbed hFrame (Finset.Subset.refl _) hItem'

theorem KeptFor.openSocket {reach : Nat → Prop} {fd fd₀ c : Nat} (ctl : Bool) (hSound : t.Sound)
    (hFree : t.isOpen fd₀ = false) (h : t.KeptFor reach fd c) :
    (t.openSocket fd₀ ctl).KeptFor reach fd c := by
  intro hItem
  have hNe : fd ≠ fd₀ := by
    obtain ⟨hAlive, hID, -⟩ := hSound.registered fd c hItem
    exact hID ▸ hSound.ne_of_free hFree hAlive
  have hFrame : Undisturbed t (t.openSocket fd₀ ctl) fd c := by
    refine ⟨hItem, rfl, rfl, ?_⟩
    rw [epoll_openSocket, if_neg fun hEq => hNe hEq.2]
  exact h.undisturbed hFrame (Finset.Subset.refl _) hItem

theorem KeptFor.newClient {reach : Nat → Prop} {fd fd₀ c : Nat} {p : Option Nat}
    (hSound : t.Sound) (h : t.KeptFor reach fd c) :
    (t.newClient alloc fd₀ p).KeptFor reach fd c := by
  intro hItem hPending
  rw [serverTypes_newClient] at hItem
  rw [clients_newClient] at hPending
  split at hItem
  · obtain rfl := ServerType.client.inj (Option.some.inj hItem)
    rw [if_pos rfl] at hPending
    exact absurd List.take_zero hPending
  · have hOld := Nat.ne_of_lt (hSound.registered fd c hItem).1.1
    rw [if_neg hOld] at hPending
    unfold Waits
    rw [clients_newClient, if_neg hOld]
    exact h hItem hPending

theorem KeptFor.connect {reach : Nat → Prop} {fd fd₀ c : Nat} {p : Option Nat} (hSound : t.Sound)
    (hFree : t.isOpen fd₀ = false) (h : t.KeptFor reach fd c) :
    ((t.openSocket fd₀ true).newClient alloc fd₀ p).KeptFor reach fd c :=
  (h.openSocket true hSound hFree).newClient (hSound.openSocket fd₀ true)

theorem KeptFor.createServer {reach : Nat → Prop} {fd fd₀ c : Nat} {ctl : Bool}
    (hSound : t.Sound) (hFree : t.isOpen fd₀ = false) (h : t.KeptFor reach fd c) :
    (t.createServer fd₀ ctl).KeptFor reach fd c := by
  intro hItem hPending
  have hOpened := h.openSocket ctl hSound hFree
  rw [serverTypes_createServer] at hItem
  split at hItem
  · cases hItem
  · cases ctl <;> exact hOpened hItem hPending

/-! ## Runs -/

/-- Every client is kept by the loop that the control is in. -/
def State.Kept (s : State) : Prop := ∀ fd c, s.table.KeptFor s.control.reaches fd c

theorem reaches_afterRead (event : EpollEvent) (p : Option Nat) (rest : List EpollEvent)
    (fd : Nat) : (afterRead event p rest).reaches fd := by
  unfold afterRead
  split <;> exact trivial

theorem reaches_of_silent {k k' : Control} (h : Silent t k input k') {fd : Nat}
    (hReach : k.reaches fd) : k'.reaches fd := by
  cases h with
  | again | turnsOver | removed | lost => exact reaches_afterRead ..
  | disconnected => exact hReach
  | poll | noItem | server | client | acceptEnd | received | batchEnd | notReady | readied =>
    exact trivial

/-- A client that a callback sends to is kept unless it fails behind the iterator. -/
theorem reaches_of_not_failsBehind {k : Control} (hOutside : k.outside = true) {c : Nat}
    {results : SendResults}
    (hBehind : ∀ iClientId, k = .disconnecting iClientId → ¬((t.clients c).clientID ≤ iClientId ∧
      t.serverTypes (t.clients c).clientID = some (.client c) ∧
      results.writes.getLast? = some .failed ∧ ¬t.Waits (t.clients c).clientID c))
    (hItem : t.serverTypes (t.clients c).clientID = some (.client c))
    (hLast : results.writes.getLast? = some .failed)
    (hWaits : ¬t.Waits (t.clients c).clientID c) : k.reaches (t.clients c).clientID := by
  cases k with
  | disconnecting iClientId =>
    by_contra hReach
    exact hBehind iClientId rfl ⟨Nat.not_lt.mp hReach, hItem, hLast, hWaits⟩
  | diconLoop => cases hOutside
  | _ => exact trivial

theorem State.Kept.step (hSound : s.table.Sound) (hHandles : s.Handles) (h : s.Kept)
    (hCtl : CtlSucceeds input) (hBehind : ¬FailsBehind s input)
    (hStep : Transition alloc s input s') : s'.Kept := by
  intro fd c
  cases hStep with
  | silent hSilent => exact (h fd c).mono fun _ => reaches_of_silent hSilent
  | send hOutside hAlive hd hContents hSend =>
    refine KeptFor.send hSound hAlive hd h hSend hCtl ?_ fd c
    apply reaches_of_not_failsBehind hOutside
    rintro iClientId rfl
    exact hBehind
  | sendBufferedData hOutside hAlive hSend =>
    refine KeptFor.sending hSound (fun fd c _ => h fd c) hSend hCtl ?_ fd c
    rintro c' hItem hLast hWaits
    obtain rfl := ServerType.client.inj ((hSound.owned _ hAlive).2 _ hItem)
    refine reaches_of_not_failsBehind hOutside ?_ hItem hLast hWaits
    rintro iClientId rfl
    exact hBehind
  | deleteClient => exact (h fd c).delete
  | @createClient t k fd₀ ctl hOutside hFree =>
    cases ctl with
    | false => exact (h fd c).openSocket false hSound hFree
    | true => exact (h fd c).connect hSound hFree
  | createServer _ hFree => exact (h fd c).createServer hSound hFree
  | accept hFree => exact (h fd c).connect hSound hFree
  | leak hFree => exact (h fd c).openSocket false hSound hFree
  | connected | data | ready => exact h fd c
  | readyEnd => exact (h fd c).mono fun _ _ => Nat.zero_le fd
  | rdhup | lost => exact (h fd c).unregister fun _ _ _ => trivial
  | hungUp =>
    rw [hangUp_eq]
    exact h fd c
  | flush hAlive hSend =>
    exact KeptFor.flush hSound hAlive (hHandles _ _ rfl).2 h hSend hCtl trivial fd c
  | dicon hNext =>
    apply (h fd c).unregister
    rintro hNe hMem hReach
    exact Nat.lt_of_le_of_ne ((iterate_eq_some hNext).2.2 fd hMem hReach) hNe.symm
  | @diconGone t ite fd₀ hNext hItem₀ =>
    intro hItem
    have hNe : fd ≠ fd₀ := by
      rintro rfl
      cases hItem₀.symm.trans hItem
    have hFrame : Undisturbed t (t.epollDel fd₀) fd c := by
      refine ⟨hItem, rfl, rfl, ?_⟩
      rw [epoll_epollDel, if_neg hNe]
    refine (h fd c).frame hFrame (fun hMem hReach => ⟨hMem, ?_⟩) hItem
    exact Nat.lt_of_le_of_ne ((iterate_eq_some hNext).2.2 fd hMem hReach) hNe.symm
  | diconEnd hNext =>
    rintro hItem hPending
    obtain hWaits | ⟨hMem, hReach⟩ := h fd c hItem hPending
    · exact .inl hWaits
    · exact absurd hReach (Nat.not_le.mpr (iterate_eq_none hNext fd hMem))

theorem pending_output_kept {inputs : List Input} (hCtl : ∀ input ∈ inputs, CtlSucceeds input)
    (hMeets : (machine alloc).Meets (fun s input => ¬FailsBehind s input) inputs)
    (hRun : (machine alloc).run inputs = some s) : s.table.NoneForgotten := by
  have hBoth : (machine alloc).Meets
      (fun s input => CtlSucceeds input ∧ ¬FailsBehind s input) inputs := by
    rintro before input after rfl s' hBefore
    exact ⟨hCtl input (by simp), hMeets before input after rfl s' hBefore⟩
  have hHandles : (machine alloc).init.Handles := by
    rintro c fd hHandled
    cases hHandled
  have hKept : (machine alloc).init.Kept := by
    rintro fd c hItem
    cases hItem
  have hReached : s.table.Sound ∧ s.Handles ∧ s.Kept := by
    refine meets_induction (I := fun s => s.Handles ∧ s.Kept) ⟨hHandles, hKept⟩ ?_ hBoth hRun
    rintro s input s' hSound ⟨hHandles, hKept⟩ ⟨hCtl, hBehind⟩ hStep
    exact ⟨hHandles.step hSound hStep, hKept.step hSound hHandles hCtl hBehind hStep⟩
  intro fd c
  exact (hReached.2.2 fd c).mono fun _ _ => trivial

theorem pending_output_kept_short_write :
    ∃ s, (machine (.filled 0)).run shortWrite = some s ∧ s.table.NoneForgotten := by
  obtain ⟨s, hRun⟩ := run_shortWrite
  have hMeets : (machine (.filled 0)).Meets (fun s input => ¬FailsBehind s input) shortWrite := by
    have hFirst : (machine (.filled 0)).Meets (fun s input => ¬FailsBehind s input)
        ([] ++ [.createClient 5 true]) :=
      Machine.meets_concat.mpr ⟨Machine.meets_nil, fun _ _ => not_false⟩
    refine Machine.meets_concat.mpr ⟨hFirst, ?_⟩
    rintro s₁ hCreate
    obtain rfl := Option.some.inj hCreate
    exact not_false
  exact ⟨s, hRun, pending_output_kept (by simp [shortWrite, CtlSucceeds]) hMeets hRun⟩

/-! ## A client that fails behind the iterator -/

theorem step_send_failed {t : ClientTable} {k : Control} (h : t.Sound)
    (hOutside : k.outside = true) {fd c : Nat} (hItem : t.serverTypes fd = some (.client c))
    (hBuffer : (t.clients c).sendBuffer = .init alloc) (zData : Bytes) (ctl : Bool)
    (hPositive : 0 < zData.length) (hLength : zData.length ≤ initNormBufLen) :
    ∃ d d' : ClientData, d'.contents = zData ∧
      (machine alloc).step ⟨t, k⟩ (.send c zData ⟨[.failed], ctl⟩) =
        some ⟨((((t.setSendBuffer c d).record (.send c zData)).record (.wrote c [])).setSendBuffer
          c d').insertDicon fd, k⟩ := by
  obtain ⟨hAlive, hID, -⟩ := h.registered fd c hItem
  obtain ⟨d, hAppend, hd, hContents⟩ := (ClientData.valid_init alloc).append alloc
    (Nat.le_refl zData.length) (ClientData.fits_init alloc hLength)
  have hContents : d.contents = zData := by
    rw [hContents, List.take_length]
    rfl
  have hCurrent : d.currentLen = zData.length := by rw [← hd.length_contents, hContents]
  obtain ⟨d', hDelete, hd', hContents'⟩ := hd.deleteFromStart (Nat.zero_le _)
  refine ⟨d, d', by rw [hContents', hContents, List.drop_zero], ?_⟩
  have hLoop : sendLoop d.data d.currentLen [.failed] d.currentLen 0 [] =
      some (.failed, 0, []) := by
    have hRead := read_eq d.data 0 d.currentLen (by rw [hd.block]; have := hd.current; omega)
    rw [sendLoop, if_pos (by omega), hRead]
    rfl
  have hClient : ((t.setSendBuffer c d).record (.send c zData)).clients c =
      { t.clients c with sendBuffer := d } :=
    (clients_setSendBuffer c c d).trans (by rw [if_pos rfl])
  have hItem' : ((t.setSendBuffer c d).record (.send c zData)).serverTypes fd =
      some (.client c) := hItem
  have hDelete' : d.deleteFromStart 0 = .ok d' := hDelete
  rw [← hBuffer] at hAppend
  refine step_send_eq_some (s := ⟨t, k⟩) hOutside hAlive (send_eq_some (i := 0) hAppend ?_)
  rw [hID]
  simp only [sendToClient, hItem', hClient, hLoop]
  simp [hDelete', Except.toOption]

def acceptTwo : List Input :=
  [.createServer 3 true, .poll [⟨3, false, true, false⟩], .next, .accept (some (5, true)),
    .callbackReturn, .accept (some (9, true)), .callbackReturn, .accept none, .next, .next, .next]

/-- The second client fails between two batches, and the next batch ends in its `OnDisconnect`. -/
def disconnectSecond : List Input :=
  acceptTwo ++ [.send 1 [1] ⟨[.failed], true⟩] ++ [.poll [], .next, .next, .next]

theorem run_disconnectSecond :
    ∃ t : ClientTable, (machine (.filled 0)).run disconnectSecond = some ⟨t, .disconnecting 9⟩ ∧
      t.serverTypes 5 = some (.client 0) ∧ t.clients 0 = ⟨5, some 0, .init (.filled 0), false, false⟩ ∧
      t.diconClients = {9} := by
  obtain ⟨t, hAccept, h₅, h₉, hFirst, hSecond, hReady, hDicon⟩ :
      ∃ t : ClientTable, (machine (.filled 0)).run acceptTwo = some ⟨t, .run⟩ ∧
        t.serverTypes 5 = some (.client 0) ∧ t.serverTypes 9 = some (.client 1) ∧
        t.clients 0 = ⟨5, some 0, .init (.filled 0), false, false⟩ ∧
        (t.clients 1).sendBuffer = .init (.filled 0) ∧
        iterate t.onReadyToSendClients 0 = none ∧ t.diconClients = ∅ :=
    ⟨_, rfl, rfl, rfl, rfl, rfl, rfl, rfl⟩
  obtain ⟨d, d', -, hFail⟩ :=
    step_send_failed (k := .run) (reachable_sound hAccept) rfl h₉ hSecond [1] true (by decide)
      (by decide)
  have hRun := Machine.run_concat_eq_some.mpr ⟨_, hAccept, hFail⟩
  generalize hTable : ((((t.setSendBuffer 1 d).record (.send 1 [1])).record
    (.wrote 1 [])).setSendBuffer 1 d').insertDicon 9 = t' at hRun
  have hReady' : iterate t'.onReadyToSendClients 0 = none := hTable ▸ hReady
  have h₅' : t'.serverTypes 5 = some (.client 0) := hTable ▸ h₅
  have h₉' : t'.serverTypes 9 = some (.client 1) := hTable ▸ h₉
  have hFirst' : t'.clients 0 = ⟨5, some 0, .init (.filled 0), false, false⟩ := by
    rw [← hTable, ← hFirst]
    simp [insertDicon]
  have hDicon' : t'.diconClients = {9} := by
    rw [← hTable]
    change insert 9 t.diconClients = _
    rw [hDicon]
    rfl
  have hNext : iterate t'.diconClients 0 = some 9 := by
    rw [hDicon']
    rfl
  have hLoop : [Input.poll [], .next, .next, .next].foldlM (machine (.filled 0)).step ⟨t', .run⟩ =
      some ⟨({ t' with onReadyToSendClients := ∅ } : ClientTable).disconnect 9 1,
        .disconnecting 9⟩ := by
    simp [machine, step, next, visitReady, hReady', visitDicon, hNext, h₉', maxEpolEvents]
  refine ⟨_, (Machine.run_append hRun _).trans hLoop, ?_, hFirst', hDicon'⟩
  change Function.update t'.serverTypes 9 none 5 = _
  rw [Function.update_of_ne (by decide)]
  exact h₅'

/-- In that `OnDisconnect` the first client fails as well. -/
theorem not_pending_output_kept :
    ¬∀ (inputs : List Input) (s : State), (∀ input ∈ inputs, CtlSucceeds input) →
      (machine (.filled 0)).run inputs = some s → s.control = .run → s.table.NoneForgotten := by
  obtain ⟨t, hRun, hItem, hClient, hDicon⟩ := run_disconnectSecond
  obtain ⟨d, d', hContents, hFail⟩ :=
    step_send_failed (k := .disconnecting 9) (reachable_sound hRun) rfl hItem (by rw [hClient])
      [1] true (by decide) (by decide)
  have hFailed := Machine.run_concat_eq_some.mpr ⟨_, hRun, hFail⟩
  generalize hTable : ((((t.setSendBuffer 0 d).record (.send 0 [1])).record
    (.wrote 0 [])).setSendBuffer 0 d').insertDicon 5 = t' at hFailed
  have hNext : iterate t'.diconClients 10 = none := by
    rw [← hTable]
    change iterate (insert 5 t.diconClients) 10 = none
    rw [hDicon]
    rfl
  have hLoop : [Input.callbackReturn, .next].foldlM (machine (.filled 0)).step
      ⟨t', .disconnecting 9⟩ = some ⟨{ t' with diconClients := ∅ }, .run⟩ := by
    simp [machine, step, callbackReturn, next, visitDicon, hNext]
  intro hAlwaysKept
  have hKept := hAlwaysKept _ _ (by simp [disconnectSecond, acceptTwo, CtlSucceeds])
    ((Machine.run_append hFailed _).trans hLoop) rfl 5 0 (hTable ▸ hItem)
  have hPending : ((t'.clients 0).sendBuffer).contents ≠ [] := by
    rw [← hTable]
    simp [insertDicon, hContents]
  obtain ⟨hBuffered, -⟩ | ⟨hMem, -⟩ := hKept hPending
  · change (t'.clients 0).isBuffered = true at hBuffered
    rw [← hTable] at hBuffered
    simp [insertDicon, hClient] at hBuffered
  · exact absurd hMem (Finset.notMem_empty 5)

end CStabilizer.ClientTable
