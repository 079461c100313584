import CStabilizer.SocketManager.Descriptors
import CStabilizer.SocketManager.PeerClose
import CStabilizer.SocketManager.PendingOutput

/-! # Numbers that outlive a client

The two sets that are worked off behind a batch hold descriptors, and so do the
events of a batch. A descriptor that is handed out again while it is pending
charges its new client with what happened to the old one. -/

namespace CStabilizer.ClientTable

open Library Library.CString Library.Memory Library.Splits

variable {alloc : Allocator UInt8} {t t' : ClientTable} {s s' : State} {input : Input}
  {inputs : List Input}

/-! ## The property and its condition -/

def State.fails (s : State) : Input → Option Nat
  | .send c _ results | .sendBufferedData c results =>
    if results.writes.getLast? = some .failed then
      s.table.clientAt (s.table.clients c).clientID
    else none
  | .flush results _ =>
    match s.control with
    | .writing iCliId _ _ =>
      if results.writes.getLast? = some .failed then s.table.clientAt iCliId else none
    | _ => none
  | .poll _ | .next | .accept _ | .read _ | .callbackReturn | .deleteClient _ | .createClient ..
  | .createServer .. => none

def State.reports (s : State) (c : Nat) : Input → Prop
  | .poll batch => ∃ event ∈ batch, event.writable = true ∧ s.table.clientAt event.fd = some c
  | .next | .accept _ | .read _ | .flush .. | .callbackReturn | .send .. | .sendBufferedData ..
  | .deleteClient _ | .createClient .. | .createServer .. => False

def Failed (alloc : Allocator UInt8) (c : Nat) (inputs : List Input) : Prop :=
  (machine alloc).Since (fun _ => True) (fun s input => s.fails input = some c) inputs

def Input.inBatch (input : Input) : Prop := ∀ batch, input ≠ .poll batch

def Reported (alloc : Allocator UInt8) (c : Nat) (inputs : List Input) : Prop :=
  (machine alloc).Since Input.inBatch (fun s input => s.reports c input) inputs

/-- The client for which the disconnect loop calls `OnDisconnect` next. -/
def State.charged (s : State) : Option Nat :=
  match s.control with
  | .diconLoop ite => (iterate s.table.diconClients ite).bind s.table.clientAt
  | _ => none

def State.readied (s : State) : Option Nat :=
  match s.control with
  | .readyLoop ite => (iterate s.table.onReadyToSendClients ite).bind s.table.clientAt
  | _ => none

/-- Clients are charged with their own failures and told of their own events. -/
def Charged (alloc : Allocator UInt8) (inputs : List Input) : Prop :=
  Stepwise (fun before input => ∀ s, (machine alloc).run before = some s → input = .next →
    (∀ c ∈ s.charged, Failed alloc c before) ∧ ∀ c ∈ s.readied, Reported alloc c before) inputs

def Input.connects : Input → Option Nat
  | .accept (some (fd, true)) | .createClient fd true => some fd
  | .accept (some (_, false)) | .createClient _ false | .accept none | .poll _ | .next | .read _
  | .flush .. | .callbackReturn | .send .. | .sendBufferedData .. | .deleteClient _
  | .createServer .. => none

/-- The disconnect loop is still to come to the descriptor. -/
def State.PendingDicon (s : State) (fd : Nat) : Prop :=
  fd ∈ s.table.diconClients ∧ s.control.reaches fd

def WritesTo (event : EpollEvent) (fd : Nat) : Prop :=
  event.writable = true ∧ event.fd = fd

instance instDecidableWritesTo (event : EpollEvent) : DecidablePred (WritesTo event) :=
  fun _ => inferInstanceAs (Decidable (_ ∧ _))

/-- One of the events leads to the `EPOLLOUT` branch. -/
def Awaits (rest : List EpollEvent) (fd : Nat) : Prop :=
  ∃ event ∈ rest, event.rdhup = false ∧ WritesTo event fd

instance instDecidableAwaits (rest : List EpollEvent) : DecidablePred (Awaits rest) :=
  fun fd => inferInstanceAs (Decidable (∃ event ∈ rest, event.rdhup = false ∧ WritesTo event fd))

def Control.writes : Control → Nat → Prop
  | .events rest, fd | .accepting _ rest, fd | .connecting _ _ rest, fd | .hungUp _ rest, fd =>
    Awaits rest fd
  | .reading event _ _ rest, fd | .receiving event _ _ rest, fd | .lost event _ rest, fd =>
    WritesTo event fd ∨ Awaits rest fd
  | .writing iCliId _ rest, fd => iCliId = fd ∨ Awaits rest fd
  | .run, _ | .readyLoop _, _ | .readying _, _ | .diconLoop _, _ | .disconnecting _, _ => False

instance instDecidableWrites : (k : Control) → DecidablePred k.writes
  | .events rest | .accepting _ rest | .connecting _ _ rest | .hungUp _ rest => fun fd =>
    inferInstanceAs (Decidable (Awaits rest fd))
  | .reading event _ _ rest | .receiving event _ _ rest | .lost event _ rest => fun fd =>
    inferInstanceAs (Decidable (WritesTo event fd ∨ Awaits rest fd))
  | .writing iCliId _ rest => fun fd => inferInstanceAs (Decidable (iCliId = fd ∨ Awaits rest fd))
  | .run | .readyLoop _ | .readying _ | .diconLoop _ | .disconnecting _ => fun _ =>
    inferInstanceAs (Decidable False)

/-- The least descriptor that the loop for `OnReadyToSend` can still meet. -/
def Control.readyFrom : Control → Nat
  | .readyLoop ite => ite
  | .readying iClientId => iClientId + 1
  | _ => 0

def State.PendingReady (s : State) (fd : Nat) : Prop :=
  (fd ∈ s.table.onReadyToSendClients ∧ s.control.readyFrom ≤ fd) ∨ s.control.writes fd

/-- No client gets a descriptor that is pending. -/
def NumbersFresh (s : State) (input : Input) : Prop :=
  ∀ fd ∈ input.connects, ¬s.PendingDicon fd ∧ ¬s.PendingReady fd

instance instDecidablePendingDicon (s : State) : DecidablePred s.PendingDicon :=
  fun _ => inferInstanceAs (Decidable (_ ∧ _))

instance instDecidablePendingReady (s : State) : DecidablePred s.PendingReady :=
  fun _ => inferInstanceAs (Decidable (_ ∨ _))

instance instDecidableNumbersFresh (s : State) (input : Input) : Decidable (NumbersFresh s input) :=
  inferInstanceAs (Decidable (∀ fd ∈ input.connects, _))

/-! ## Attribution -/

/-- Whoever is registered under a pending descriptor is the one that the event was about. -/
def Attributed (alloc : Allocator UInt8) (keeps : Input → Prop) (event : Nat → State → Input → Prop)
    (pending : State → Nat → Prop) (inputs : List Input) (s : State) : Prop :=
  ∀ fd c, pending s fd → s.table.serverTypes fd = some (.client c) →
    (machine alloc).Since keeps (event c) inputs

def Pends (keeps : Input → Prop) (event : Nat → State → Input → Prop)
    (pending : State → Nat → Prop) (s : State) (input : Input) (s' : State) : Prop :=
  ∀ fd, pending s' fd → (pending s fd ∧ keeps input) ∨
    (input.connects = none ∧ ∀ c, s.table.serverTypes fd = some (.client c) → event c s input)

theorem Attributed.step {keeps : Input → Prop} {event : Nat → State → Input → Prop}
    {pending : State → Nat → Prop} (h : Attributed alloc keeps event pending inputs s)
    (hSound : s.table.Sound) (hRun : (machine alloc).run inputs = some s)
    (hFresh : ∀ fd ∈ input.connects, ¬pending s fd) (hPends : Pends keeps event pending s input s')
    (hStep : Transition alloc s input s') :
    Attributed alloc keeps event pending (inputs ++ [input]) s' := by
  intro fd c hPending hItem
  rw [Machine.since_concat]
  have hOld (hConnects : input.connects ≠ some fd) : s.table.serverTypes fd = some (.client c) := by
    obtain hItem | ⟨rfl, -⟩ | ⟨rfl, -⟩ := registered_cases hSound hStep hItem
    · exact hItem
    · exact absurd rfl hConnects
    · exact absurd rfl hConnects
  obtain ⟨hPending, hKeeps⟩ | ⟨hNone, hEvent⟩ := hPends fd hPending
  · exact .inl ⟨h fd c hPending (hOld fun hConnects => hFresh fd hConnects hPending), hKeeps⟩
  · refine .inr ⟨s, hRun, hEvent c (hOld ?_)⟩
    rw [hNone]
    simp

/-! ## Failed writes -/

/-- A call of `SendToClient` leaves the ready clients as they are, and its descriptor is the only one
that it can add to the failed ones. -/
theorem Sending.deferred {fd : Nat} {results : SendResults} {i : Int}
    (hSend : Sending t fd results i t') :
    t'.onReadyToSendClients = t.onReadyToSendClients ∧
      ∀ fd' ∈ t'.diconClients, fd' ∈ t.diconClients ∨
        (fd' = fd ∧ results.writes.getLast? = some .failed) := by
  cases hSend with
  | unregistered | all | again => exact ⟨rfl, fun fd' hMem => .inl hMem⟩
  | failed hItem hLess hValid hContents hLast =>
    constructor
    · rfl
    · intro fd' hMem
      obtain rfl | hMem := Finset.mem_insert.mp hMem
      · exact .inr ⟨rfl, hLast⟩
      · exact .inl hMem

theorem diconClients_flushed (t t' : ClientTable) (fd c : Nat) (i : Int) (ctl : Bool) :
    (flushed t t' fd c i ctl).diconClients = t'.diconClients := by
  unfold flushed
  split
  · rfl
  · rfl

theorem onReadyToSendClients_flushed (t t' : ClientTable) (fd c : Nat) (i : Int) (ctl : Bool) :
    (flushed t t' fd c i ctl).onReadyToSendClients = t'.onReadyToSendClients := by
  unfold flushed
  split
  · rfl
  · rfl

theorem reaches_before_silent {k k' : Control} (h : Silent t k input k') {fd : Nat}
    (hReach : k'.reaches fd) : k.reaches fd := by
  cases h with
  | disconnected => exact hReach
  | poll | noItem | server | client | acceptEnd | again | turnsOver | removed | received | lost
    | batchEnd | notReady | readied => exact trivial

theorem pends_dicon (hStep : Transition alloc s input s') :
    Pends (fun _ => True) (fun c s input => s.fails input = some c) State.PendingDicon s input
      s' := by
  rintro fd ⟨hMem, hReach⟩
  cases hStep with
  | silent hSilent => exact .inl ⟨⟨hMem, reaches_before_silent hSilent hReach⟩, trivial⟩
  | send _ _ _ _ hSend | sendBufferedData _ _ hSend =>
    obtain hMem | ⟨rfl, hLast⟩ := hSend.deferred.2 fd hMem
    · exact .inl ⟨⟨hMem, hReach⟩, trivial⟩
    · refine .inr ⟨rfl, fun c' hItem => ?_⟩
      exact (if_pos hLast).trans (clientAt_eq_some.mpr hItem)
  | flush _ hSend =>
    rw [diconClients_flushed] at hMem
    obtain hMem | ⟨rfl, hLast⟩ := hSend.deferred.2 fd hMem
    · exact .inl ⟨⟨hMem, trivial⟩, trivial⟩
    · refine .inr ⟨rfl, fun c' hItem => ?_⟩
      exact (if_pos hLast).trans (clientAt_eq_some.mpr hItem)
  | @createClient t k fd' ctl =>
    cases ctl with
    | false => exact .inl ⟨⟨hMem, hReach⟩, trivial⟩
    | true => exact .inl ⟨⟨hMem, hReach⟩, trivial⟩
  | @createServer t k fd' ctl =>
    cases ctl with
    | false => exact .inl ⟨⟨hMem, hReach⟩, trivial⟩
    | true => exact .inl ⟨⟨hMem, hReach⟩, trivial⟩
  | @hungUp t c rest =>
    rw [hangUp_eq] at hMem
    exact .inl ⟨⟨hMem, trivial⟩, trivial⟩
  | dicon hNext =>
    refine .inl ⟨⟨hMem, ?_⟩, trivial⟩
    exact (iterate_eq_some hNext).2.1.trans (Nat.le_of_lt hReach)
  | diconGone hNext =>
    refine .inl ⟨⟨hMem, ?_⟩, trivial⟩
    exact (iterate_eq_some hNext).2.1.trans (Nat.le_of_lt hReach)
  | diconEnd => exact absurd hMem (Finset.notMem_empty fd)
  | deleteClient => exact .inl ⟨⟨hMem, hReach⟩, trivial⟩
  | accept | leak | connected | rdhup | data | lost | ready | readyEnd =>
    exact .inl ⟨⟨hMem, trivial⟩, trivial⟩

/-! ## Reported events -/

/-- The events of a batch have been handled, and `OnReadyToSend` has been called. -/
def Control.idle : Control → Bool
  | run | diconLoop _ | disconnecting _ => true
  | events _ | accepting .. | connecting .. | hungUp .. | reading .. | receiving .. | lost ..
  | writing .. | readyLoop _ | readying _ => false

def State.Idle (s : State) : Prop := s.control.idle = true → s.table.onReadyToSendClients = ∅

theorem idle_afterRead (event : EpollEvent) (p : Option Nat) (rest : List EpollEvent) :
    (afterRead event p rest).idle = false := by
  unfold afterRead
  split
  · rfl
  · rfl

theorem awaits_cons {event : EpollEvent} {rest : List EpollEvent} {fd : Nat} :
    Awaits (event :: rest) fd ↔ (event.rdhup = false ∧ WritesTo event fd) ∨ Awaits rest fd := by
  simp [Awaits]

theorem writes_afterRead {event : EpollEvent} {p : Option Nat} {rest : List EpollEvent} {fd : Nat}
    (h : (afterRead event p rest).writes fd) : WritesTo event fd ∨ Awaits rest fd := by
  unfold afterRead at h
  split at h
  · rename_i hWritable
    exact h.imp_left fun hFd => ⟨hWritable, hFd⟩
  · exact .inr h

theorem State.Idle.silent {k k' : Control} (h : State.Idle ⟨t, k⟩) (hSilent : Silent t k input k') :
    State.Idle ⟨t, k'⟩ := by
  cases hSilent with
  | again | turnsOver | removed | lost =>
    intro hIdle
    exact absurd ((idle_afterRead ..).symm.trans hIdle) Bool.false_ne_true
  | disconnected => exact h
  | poll | noItem | server | client | acceptEnd | received | batchEnd | notReady | readied =>
    exact fun hIdle => absurd hIdle Bool.false_ne_true

theorem State.Idle.step (h : s.Idle) (hStep : Transition alloc s input s') : s'.Idle := by
  cases hStep with
  | silent hSilent => exact h.silent hSilent
  | send _ _ _ _ hSend | sendBufferedData _ _ hSend =>
    exact fun hIdle => hSend.deferred.1.trans (h hIdle)
  | @createClient t k fd ctl =>
    cases ctl with
    | false => exact h
    | true => exact h
  | @createServer t k fd ctl =>
    cases ctl with
    | false => exact h
    | true => exact h
  | readyEnd => exact fun _ => rfl
  | deleteClient | dicon | diconGone | diconEnd => exact h
  | accept | leak | connected | rdhup | hungUp | data | lost | flush | ready =>
    exact fun hIdle => absurd hIdle Bool.false_ne_true

theorem pendingReady_before_silent {k k' : Control} (h : Silent t k input k')
    (hInput : input.inBatch) {fd : Nat} (hPending : State.PendingReady ⟨t, k'⟩ fd) :
    State.PendingReady ⟨t, k⟩ fd := by
  obtain ⟨hMem, hFrom⟩ | hWrites := hPending
  · refine .inl ⟨hMem, ?_⟩
    cases h with
    | notReady hNext => exact (iterate_eq_some hNext).2.1.trans (Nat.le_of_lt hFrom)
    | readied => exact hFrom
    | poll | noItem | server | client | acceptEnd | again | turnsOver | removed | received | lost
      | batchEnd | disconnected => exact Nat.zero_le fd
  · refine .inr ?_
    cases h with
    | poll => exact absurd rfl (hInput _)
    | noItem | server => exact awaits_cons.mpr (.inr hWrites)
    | client _ hUp => exact awaits_cons.mpr (hWrites.imp_left fun hEvent => ⟨hUp, hEvent⟩)
    | again | turnsOver | removed | lost => exact writes_afterRead hWrites
    | acceptEnd | received => exact hWrites
    | batchEnd | notReady | readied | disconnected => cases hWrites

theorem pends_ready (hIdle : s.Idle) (hStep : Transition alloc s input s') :
    Pends Input.inBatch (fun c s input => s.reports c input) State.PendingReady s input s' := by
  intro fd hPending
  cases hStep with
  | @silent t k k' input hSilent =>
    by_cases hInput : input.inBatch
    · exact .inl ⟨pendingReady_before_silent hSilent hInput hPending, hInput⟩
    · cases hSilent with
      | @poll batch =>
        obtain ⟨hMem, -⟩ | ⟨event, hEvent, -, hWritable, rfl⟩ := hPending
        · rw [hIdle rfl] at hMem
          exact absurd hMem (Finset.notMem_empty fd)
        · refine .inr ⟨rfl, fun c hItem => ?_⟩
          exact ⟨event, hEvent, hWritable, clientAt_eq_some.mpr hItem⟩
      | _ => exact absurd (fun _ hPoll => nomatch hPoll) hInput
  | send _ _ _ _ hSend | sendBufferedData _ _ hSend =>
    refine .inl ⟨hPending.imp_left ?_, nofun⟩
    exact fun ⟨hMem, hFrom⟩ => ⟨hSend.deferred.1 ▸ hMem, hFrom⟩
  | flush _ hSend =>
    refine .inl ⟨?_, nofun⟩
    obtain ⟨hMem, -⟩ | hWrites := hPending
    · rw [onReadyToSendClients_flushed, hSend.deferred.1] at hMem
      obtain rfl | hMem := Finset.mem_insert.mp hMem
      · exact .inr (.inl rfl)
      · exact .inl ⟨hMem, Nat.zero_le fd⟩
    · exact .inr (.inr hWrites)
  | @createClient t k fd' ctl =>
    cases ctl with
    | false => exact .inl ⟨hPending, nofun⟩
    | true => exact .inl ⟨hPending, nofun⟩
  | @createServer t k fd' ctl =>
    cases ctl with
    | false => exact .inl ⟨hPending, nofun⟩
    | true => exact .inl ⟨hPending, nofun⟩
  | deleteClient | accept | leak | connected | data | lost => exact .inl ⟨hPending, nofun⟩
  | rdhup =>
    exact .inl ⟨hPending.imp_right fun hWrites => awaits_cons.mpr (.inr hWrites), nofun⟩
  | @hungUp t c rest =>
    rw [hangUp_eq] at hPending
    exact .inl ⟨hPending, nofun⟩
  | ready hNext =>
    refine .inl ⟨hPending.imp ?_ False.elim, nofun⟩
    exact fun ⟨hMem, hFrom⟩ => ⟨hMem, (iterate_eq_some hNext).2.1.trans (Nat.le_of_lt hFrom)⟩
  | readyEnd =>
    obtain ⟨hMem, -⟩ | hWrites := hPending
    · exact absurd hMem (Finset.notMem_empty fd)
    · cases hWrites
  | dicon | diconGone | diconEnd => exact .inl ⟨hPending, nofun⟩

/-! ## Runs -/

theorem attributed_init (keeps : Input → Prop) (event : Nat → State → Input → Prop)
    (pending : State → Nat → Prop) : Attributed alloc keeps event pending [] (machine alloc).init := by
  intro fd c _ hItem
  cases hItem

theorem attributed {inputs : List Input} (hRun : (machine alloc).run inputs = some s)
    (hFresh : (machine alloc).Meets NumbersFresh inputs) :
    s.Idle ∧
      Attributed alloc (fun _ => True) (fun c s input => s.fails input = some c)
        State.PendingDicon inputs s ∧
      Attributed alloc Input.inBatch (fun c s input => s.reports c input)
        State.PendingReady inputs s := by
  refine hFresh.induction (P := fun inputs s => s.Idle ∧ Attributed alloc _ _ _ inputs s ∧
    Attributed alloc _ _ _ inputs s) ?_ ?_ hRun
  · exact ⟨fun _ => rfl, attributed_init _ _ _, attributed_init _ _ _⟩
  · rintro inputs s input s' hRun ⟨hIdle, hFailed, hReported⟩ hFresh hStep
    have hSound := reachable_sound hRun
    have hTransition := step_cases hSound.buffers hStep
    refine ⟨hIdle.step hTransition, ?_, ?_⟩
    · exact hFailed.step hSound hRun (fun fd hConnects => (hFresh fd hConnects).1)
        (pends_dicon hTransition) hTransition
    · exact hReported.step hSound hRun (fun fd hConnects => (hFresh fd hConnects).2)
        (pends_ready hIdle hTransition) hTransition

theorem visited {set : Finset Nat} {ite c : Nat}
    (h : (iterate set ite).bind t.clientAt = some c) :
    ∃ fd ∈ set, ite ≤ fd ∧ t.serverTypes fd = some (.client c) := by
  obtain ⟨fd, hNext, hItem⟩ := Option.bind_eq_some_iff.mp h
  obtain ⟨hMem, hReach, -⟩ := iterate_eq_some hNext
  exact ⟨fd, hMem, hReach, clientAt_eq_some.mp hItem⟩

/-- As long as no client gets a descriptor that is pending, `OnDisconnect` is called behind a batch
for clients whose own writes failed, and `OnReadyToSend` for clients whose own events reported
`EPOLLOUT`. -/
theorem charged_of_fresh (h : (machine alloc).Meets NumbersFresh inputs) : Charged alloc inputs := by
  rintro before input after rfl s hRun rfl
  obtain ⟨-, hFailed, hReported⟩ := attributed hRun h.front
  constructor
  · intro c hCharged
    unfold State.charged at hCharged
    split at hCharged
    · rename_i ite hControl
      obtain ⟨fd, hMem, hReach, hItem⟩ := visited hCharged
      refine hFailed fd c ⟨hMem, ?_⟩ hItem
      rw [hControl]
      exact hReach
    · cases hCharged
  · intro c hReadied
    unfold State.readied at hReadied
    split at hReadied
    · rename_i ite hControl
      obtain ⟨fd, hMem, hReach, hItem⟩ := visited hReadied
      refine hReported fd c (.inl ⟨hMem, ?_⟩) hItem
      rw [hControl]
      exact hReach
    · cases hReadied

theorem numbersFresh_of_none (h : input.connects = none) : NumbersFresh s input := by
  intro fd hConnects
  rw [h] at hConnects
  cases hConnects

theorem charged_of_fresh_second : ∃ t, (machine (.filled 0)).run disconnectSecond =
    some ⟨t, .disconnecting 9⟩ ∧ Charged (.filled 0) disconnectSecond := by
  obtain ⟨t, hRun, -⟩ := run_disconnectSecond
  refine ⟨t, hRun, charged_of_fresh ?_⟩
  have hAccept : (machine (.filled 0)).Meets NumbersFresh acceptTwo :=
    Machine.meets_of_check _ (by decide)
  rw [disconnectSecond, List.append_assoc]
  refine (stepwise_append ?_).mpr hAccept
  intro before input hInput s hRun
  have hNone : input.connects = none := by
    simp only [List.mem_append, List.mem_cons, List.not_mem_nil, or_false] at hInput
    obtain rfl | rfl | rfl | rfl | rfl := hInput
    all_goals rfl
  exact numbersFresh_of_none hNone

/-! ## A number that is handed out again -/

def DeletesOnDisconnect (s : State) (input : Input) : Prop :=
  ∀ c, input = .deleteClient c → (∃ rest, s.control = .hungUp c rest) ∨
    (∃ event rest, s.control = .lost event c rest) ∨
    ∃ iClientId, s.control = .disconnecting iClientId

def closeFirst : List Input :=
  acceptTwo ++ [.send 0 [1] ⟨[.failed], true⟩] ++
    [.poll [⟨5, true, true, false⟩, ⟨3, false, true, false⟩], .next]

def deleteFirst : List Input := closeFirst ++ [.deleteClient 0, .callbackReturn]

/-- The batch goes on with a third client that gets the same descriptor. -/
def reuseFirst : List Input :=
  deleteFirst ++ [.next, .accept (some (5, true)), .callbackReturn, .accept none, .next, .next]

theorem run_closeFirst :
    ∃ t : ClientTable, (machine (.filled 0)).run closeFirst =
        some ⟨t, .hungUp 0 [⟨3, false, true, false⟩]⟩ ∧
      t.Alive 0 ∧ (t.clients 0).clientID = 5 ∧ t.serverTypes 3 = some (.server 0) ∧
      t.clientCount = 2 ∧ t.onReadyToSendClients = ∅ ∧ t.diconClients = {5} := by
  obtain ⟨t, hAccept, h₃, h₅, hBuffer, hCount, hReady, hDicon⟩ :
      ∃ t : ClientTable, (machine (.filled 0)).run acceptTwo = some ⟨t, .run⟩ ∧
        t.serverTypes 3 = some (.server 0) ∧ t.serverTypes 5 = some (.client 0) ∧
        (t.clients 0).sendBuffer = .init (.filled 0) ∧ t.clientCount = 2 ∧
        t.onReadyToSendClients = ∅ ∧ t.diconClients = ∅ :=
    ⟨_, rfl, rfl, rfl, rfl, rfl, rfl, rfl⟩
  have hSound : t.Sound := reachable_sound hAccept
  obtain ⟨⟨-, hDeleted⟩, hID, -⟩ := hSound.registered 5 0 h₅
  obtain ⟨d, d', -, hFail⟩ :=
    step_send_failed (k := .run) hSound rfl h₅ hBuffer [1] true (by decide) (by decide)
  have hRun := Machine.run_concat_eq_some.mpr ⟨_, hAccept, hFail⟩
  have hClose : [Input.poll [⟨5, true, true, false⟩, ⟨3, false, true, false⟩], .next].foldlM
      (machine (.filled 0)).step ⟨((((t.setSendBuffer 0 d).record (.send 0 [1])).record
        (.wrote 0 [])).setSendBuffer 0 d').insertDicon 5, .run⟩ =
      some ⟨(((((t.setSendBuffer 0 d).record (.send 0 [1])).record
        (.wrote 0 [])).setSendBuffer 0 d').insertDicon 5).disconnect 5 0,
          .hungUp 0 [⟨3, false, true, false⟩]⟩ := by
    simp [machine, step, next, dispatch, maxEpolEvents, insertDicon, setSendBuffer, record, h₅]
  refine ⟨_, (Machine.run_append hRun _).trans hClose, ?_, ?_, h₃, hCount, hReady, ?_⟩
  · constructor
    · exact hCount.trans_gt (by decide)
    · simpa [disconnect, insertDicon, setItem] using hDeleted
  · simpa [disconnect, insertDicon, setItem] using hID
  · change insert 5 t.diconClients = _
    rw [hDicon]
    rfl

theorem run_deleteFirst :
    ∃ t : ClientTable, (machine (.filled 0)).run deleteFirst =
        some ⟨t, .events [⟨3, false, true, false⟩]⟩ ∧
      t.serverTypes 3 = some (.server 0) ∧ t.Free 5 ∧ t.clientCount = 2 ∧
      t.onReadyToSendClients = ∅ ∧ t.diconClients = {5} := by
  obtain ⟨t, hRun, hAlive, hID, h₃, hCount, hReady, hDicon⟩ := run_closeFirst
  have hDelete : [Input.deleteClient 0, .callbackReturn].foldlM (machine (.filled 0)).step
      ⟨t, .hungUp 0 [⟨3, false, true, false⟩]⟩ =
        some ⟨(t.deleteClient 0).hangUp 0, .events [⟨3, false, true, false⟩]⟩ := by
    simp [machine, step, callbackReturn, Control.outside, hAlive]
  refine ⟨_, (Machine.run_append hRun _).trans hDelete, ?_⟩
  rw [hangUp_eq]
  refine ⟨?_, ?_, hCount, hReady, hDicon⟩
  · refine (serverTypes_deleteClient ..).trans ((if_neg ?_).trans h₃)
    rw [hID]
    decide
  · exact (isOpen_deleteClient ..).trans (if_pos hID.symm)

theorem run_reuseFirst :
    ∃ t : ClientTable, (machine (.filled 0)).run reuseFirst = some ⟨t, .diconLoop 0⟩ ∧
      t.serverTypes 5 = some (.client 2) ∧ t.diconClients = {5} := by
  obtain ⟨t, hRun, h₃, hFree, hCount, hReady, hDicon⟩ := run_deleteFirst
  let t₁ : ClientTable := (((t.openSocket 5 true).newClient (.filled 0) 5 (some 0)).record
    (.onConnect t.clientCount)).addtoConnectedClientsList 0 t.clientCount
  have hEnd : t₁.visitReady 0 = some ⟨{ t₁ with onReadyToSendClients := ∅ }, .diconLoop 0⟩ := by
    have hNone : iterate t₁.onReadyToSendClients 0 = none := by
      change iterate t.onReadyToSendClients 0 = none
      rw [hReady]
      rfl
    rw [visitReady, hNone]
  have hReuse : [Input.next, .accept (some (5, true)), .callbackReturn, .accept none, .next,
      .next].foldlM (machine (.filled 0)).step ⟨t, .events [⟨3, false, true, false⟩]⟩ =
        some ⟨{ t₁ with onReadyToSendClients := ∅ }, .diconLoop 0⟩ := by
    simp [machine, step, callbackReturn, next, dispatch, acceptClient, InTable, maxMaxClientCount,
      h₃, hFree, hEnd, t₁]
  refine ⟨_, (Machine.run_append hRun _).trans hReuse, ?_, hDicon⟩
  change ((t.openSocket 5 true).newClient (.filled 0) 5 (some 0)).serverTypes 5 = _
  rw [serverTypes_newClient, if_pos rfl, ← hCount]
  rfl

theorem not_failed_reuseFirst : ¬Failed (.filled 0) 2 reuseFirst := by
  intro hFailed
  have hSend : Failed (.filled 0) 2 (acceptTwo ++ [.send 0 [1] ⟨[.failed], true⟩]) := by
    rw [reuseFirst, deleteFirst, closeFirst, List.append_assoc, List.append_assoc] at hFailed
    apply hFailed.of_append
    simp [State.fails]
  obtain ⟨hAccept, -⟩ | ⟨s, hRun, hFails⟩ := Machine.since_concat.mp hSend
  · have hNone : Failed (.filled 0) 2 [] := by
      apply Machine.Since.of_append hAccept
      simp [State.fails]
    exact Machine.not_since_nil hNone
  · have hFirst : ((machine (.filled 0)).run acceptTwo).map
        (State.fails · (.send 0 [1] ⟨[.failed], true⟩)) = some (some 0) := rfl
    rw [hRun, Option.map_some, hFails] at hFirst
    exact absurd hFirst (by decide)

theorem deletesOnDisconnect_reuseFirst :
    (machine (.filled 0)).Meets DeletesOnDisconnect (reuseFirst ++ [.next]) := by
  obtain ⟨t, hRun, -⟩ := run_closeFirst
  have hClose : (machine (.filled 0)).Meets DeletesOnDisconnect ([] ++ closeFirst) := by
    refine (stepwise_append ?_).mpr Machine.meets_nil
    rintro before input hInput s hRun c rfl
    simp [closeFirst, acceptTwo] at hInput
  have hDelete : (machine (.filled 0)).Meets DeletesOnDisconnect (closeFirst ++ [.deleteClient 0]) := by
    refine Machine.meets_concat.mpr ⟨hClose, ?_⟩
    rintro s hRun' c hInput
    obtain rfl := Input.deleteClient.inj hInput
    obtain rfl := Option.some.inj (hRun.symm.trans hRun')
    exact .inl ⟨_, rfl⟩
  have hSplit : reuseFirst ++ [.next] = closeFirst ++ [.deleteClient 0] ++ ([.callbackReturn, .next,
      .accept (some (5, true)), .callbackReturn, .accept none, .next, .next, .next] : List Input) := by
    simp [reuseFirst, deleteFirst]
  rw [hSplit]
  refine (stepwise_append ?_).mpr hDelete
  rintro before input hInput s hRun c rfl
  simp at hInput

/-- The third client is charged with the failure of the first one. -/
theorem not_charged :
    ¬∀ inputs, (machine (.filled 0)).Meets DeletesOnDisconnect inputs → Charged (.filled 0) inputs := by
  intro hAllCharged
  obtain ⟨t, hRun, hItem, hDicon⟩ := run_reuseFirst
  have hCharged : State.charged ⟨t, .diconLoop 0⟩ = some 2 := by
    have hNext : iterate t.diconClients 0 = some 5 := by
      rw [hDicon]
      rfl
    simp [State.charged, hNext, clientAt_eq_some.mpr hItem]
  have hSteps := hAllCharged _ deletesOnDisconnect_reuseFirst reuseFirst .next [] rfl _ hRun rfl
  exact not_failed_reuseFirst (hSteps.1 2 hCharged)

end CStabilizer.ClientTable
