import CStabilizer.SocketManager.ConnectedList

/-! # Descriptors of connections

The event loop takes a client out of the table and leaves it to the callback to
delete it, which closes its descriptor. `ServerAPI` deletes none, so a descriptor
that is accepted stays open, and the kernel does not hand it out again. -/

namespace CStabilizer.ClientTable

open Library Library.CString Library.Memory Library.Splits

variable {alloc : Allocator UInt8} {t t' : ClientTable} {s s' : State} {input : Input}
  {inputs : List Input}

/-! ## The property and its condition -/

def Input.accepts : Input → Option Nat
  | .accept (some (iCliSock, _)) => some iCliSock
  | .accept none | .poll _ | .next | .read _ | .flush .. | .callbackReturn | .send ..
  | .sendBufferedData .. | .deleteClient _ | .createClient .. | .createServer .. => none

/-- Whether `EPOLL_CTL_ADD` does not fail for an accepted descriptor. -/
def Input.registers : Input → Bool
  | .accept (some (_, ctl)) => ctl
  | .accept none | .poll _ | .next | .read _ | .flush .. | .callbackReturn | .send ..
  | .sendBufferedData .. | .deleteClient _ | .createClient .. | .createServer .. => true

/-- The index of the table that an input makes use of for the first time. -/
def Input.opens : Input → Option Nat
  | .accept (some (fd, _)) | .createClient fd _ | .createServer fd _ => some fd
  | .accept none | .poll _ | .next | .read _ | .flush .. | .callbackReturn | .send ..
  | .sendBufferedData .. | .deleteClient _ => none

def acceptedIn (inputs : List Input) : List Nat := inputs.filterMap Input.accepts

def Released (inputs : List Input) (t : ClientTable) : Prop :=
  ∀ fd ∈ acceptedIn inputs, t.isOpen fd = true → ∃ c, t.serverTypes fd = some (.client c)

def AtMost (n : Nat) (t : ClientTable) : Prop :=
  ∀ fds : Finset Nat,
    (∀ fd ∈ fds, ∃ c p, t.serverTypes fd = some (.client c) ∧ (t.clients c).server = some p) →
      fds.card ≤ n

/-- The kernel hands out the lowest descriptor that is free, with at most `k` descriptors in
use that were not accepted. -/
def LowestFree (alloc : Allocator UInt8) (k : Nat) (inputs : List Input) : Prop :=
  Stepwise (fun before input => ∀ s, (machine alloc).run before = some s → ∀ fd ∈ input.opens,
    ∃ others : Finset Nat, others.card ≤ k ∧
      ∀ lower < fd, (lower ∈ acceptedIn before ∧ s.table.isOpen lower = true) ∨ lower ∈ others)
    inputs

def IndicesBounded (alloc : Allocator UInt8) (inputs : List Input) : Prop :=
  ∀ n k, (machine alloc).Always (fun s => s.table.AtMost n) inputs → LowestFree alloc k inputs →
    ∀ fd ∈ inputs.filterMap Input.opens,
      fd < n + (k + 1) ∧ (n + (k + 1) ≤ maxMaxClientCount → fd < maxMaxClientCount)

/-- The descriptor whose client a step takes out of the table for its `OnDisconnect`. -/
def State.disconnects (s : State) : Input → Option Nat
  | .next =>
    match s.control with
    | .events (event :: _) => if event.rdhup then some event.fd else none
    | .diconLoop ite => iterate s.table.diconClients ite
    | _ => none
  | .read .closed | .read .failed =>
    match s.control with
    | .reading event .. => some event.fd
    | _ => none
  | .poll _ | .accept _ | .read (.data _) | .read .again | .flush .. | .callbackReturn | .send ..
  | .sendBufferedData .. | .deleteClient _ | .createClient .. | .createServer .. => none

def KeepsConnections (s : State) (input : Input) : Prop :=
  (∀ fd ∈ s.disconnects input, s.table.unowned fd = true) ∧ input.registers = true

instance instDecidableKeepsConnections (s : State) (input : Input) :
    Decidable (KeepsConnections s input) := inferInstanceAs (Decidable (_ ∧ _))

/-! ## Accounts of accepted descriptors -/

/-- As long as no client is deleted, accepted descriptors are open, and those of the clients
of servers are among them. -/
structure Accounts (inputs : List Input) (t : ClientTable) : Prop where
  isOpen : ∀ fd ∈ acceptedIn inputs, t.isOpen fd = true
  owner : ∀ fd c, t.serverTypes fd = some (.client c) →
    (fd ∈ acceptedIn inputs ↔ (t.clients c).server ≠ none)

theorem mem_acceptedIn_concat {fd : Nat} :
    fd ∈ acceptedIn (inputs ++ [input]) ↔ fd ∈ acceptedIn inputs ∨ input.accepts = some fd := by
  simp [acceptedIn]

theorem Accounts.not_mem_of_free (h : Accounts inputs t) {fd : Nat} (hFree : t.isOpen fd = false) :
    fd ∉ acceptedIn inputs := by
  intro hMem
  cases hFree.symm.trans (h.isOpen fd hMem)

theorem Sound.not_registered_of_free (h : t.Sound) {fd c : Nat} (hFree : t.isOpen fd = false) :
    t.serverTypes fd ≠ some (.client c) := by
  intro hItem
  obtain ⟨hAlive, hID, -⟩ := h.registered fd c hItem
  exact h.ne_of_free hFree hAlive hID

theorem Accounts.unowned_iff (h : Accounts inputs t) {fd c : Nat}
    (hItem : t.serverTypes fd = some (.client c)) :
    t.unowned fd = true ↔ fd ∉ acceptedIn inputs := by
  rw [unowned, hItem, h.owner fd c hItem, not_not]
  exact Option.isNone_iff_eq_none

theorem isOpen_step (hSound : s.table.Sound) (hStep : Transition alloc s input s')
    (hKept : ∀ c, input ≠ .deleteClient c) {fd : Nat} (hOpen : s.table.isOpen fd = true) :
    s'.table.isOpen fd = true := by
  have hOpened {t : ClientTable} (fd' : Nat) (ctl : Bool) (hOpen : t.isOpen fd = true) :
      (t.openSocket fd' ctl).isOpen fd = true := by
    rw [isOpen_openSocket]
    split
    · rfl
    · exact hOpen
  cases hStep with
  | silent => exact hOpen
  | send _ hAlive hd _ hSend => exact (sendsOnly_send hSound hAlive hd hSend).isOpen ▸ hOpen
  | sendBufferedData _ _ hSend => exact (hSend.sendsOnly hSound).1.isOpen ▸ hOpen
  | @flush t t' fd' c rest results ctl i _ hSend =>
    have hSends : SendsOnly t (flushed t t' fd' c i ctl) := (sendsOnly_flush hSound hSend).1
    exact hSends.isOpen ▸ hOpen
  | deleteClient => exact absurd rfl (hKept _)
  | @createClient t k fd' ctl =>
    cases ctl with
    | false => exact hOpened fd' false hOpen
    | true => exact hOpened fd' true hOpen
  | @createServer t k fd' ctl =>
    cases ctl with
    | false => exact hOpened fd' false hOpen
    | true => exact hOpened fd' true hOpen
  | accept => exact hOpened _ true hOpen
  | leak => exact hOpened _ false hOpen
  | hungUp =>
    rw [hangUp_eq]
    exact hOpen
  | connected | rdhup | data | lost | ready | readyEnd | dicon | diconGone | diconEnd => exact hOpen

theorem accept_step (hStep : Transition alloc s input s') {fd : Nat}
    (hAccepts : input.accepts = some fd) :
    s.table.isOpen fd = false ∧ s'.table.isOpen fd = true := by
  cases hStep with
  | silent hSilent => cases hSilent <;> cases hAccepts
  | @accept t p fd' rest hFree =>
    obtain rfl := Option.some.inj hAccepts
    exact ⟨hFree, (isOpen_openSocket (t := t) fd' fd' true).trans (if_pos rfl)⟩
  | @leak t p fd' rest hFree =>
    obtain rfl := Option.some.inj hAccepts
    exact ⟨hFree, (isOpen_openSocket (t := t) fd' fd' false).trans (if_pos rfl)⟩
  | send | sendBufferedData | deleteClient | createClient | createServer | connected | rdhup
    | hungUp | data | lost | flush | ready | readyEnd | dicon | diconGone | diconEnd =>
    cases hAccepts

theorem registered_cases (hSound : s.table.Sound) (hStep : Transition alloc s input s') {fd c : Nat}
    (hItem : s'.table.serverTypes fd = some (.client c)) :
    s.table.serverTypes fd = some (.client c) ∨
      (input = .accept (some (fd, true)) ∧ (s'.table.clients c).server ≠ none) ∨
      (input = .createClient fd true ∧ s.table.isOpen fd = false ∧
        (s'.table.clients c).server = none) := by
  have hSet {t : ClientTable} {fd' : Nat}
      (hItem : (t.setItem fd' none).serverTypes fd = some (.client c)) :
      t.serverTypes fd = some (.client c) := by
    rw [serverTypes_setItem] at hItem
    split at hItem
    · cases hItem
    · exact hItem
  cases hStep with
  | silent => exact .inl hItem
  | send _ hAlive hd _ hSend =>
    exact .inl ((sendsOnly_send hSound hAlive hd hSend).serverTypes ▸ hItem)
  | sendBufferedData _ _ hSend => exact .inl ((hSend.sendsOnly hSound).1.serverTypes ▸ hItem)
  | @flush t t' fd' c' rest results ctl i _ hSend =>
    have hSends : SendsOnly t (flushed t t' fd' c' i ctl) := (sendsOnly_flush hSound hSend).1
    exact .inl (hSends.serverTypes ▸ hItem)
  | @deleteClient t k c' =>
    have hItem' : (t.setItem (t.clients c').clientID none).serverTypes fd = some (.client c) := hItem
    exact .inl (hSet hItem')
  | @createClient t k fd' ctl _ hFree =>
    cases ctl with
    | false => exact .inl hItem
    | true =>
      change ((t.openSocket fd' true).newClient alloc fd' none).serverTypes fd = _ at hItem
      rw [serverTypes_newClient] at hItem
      split at hItem
      · rename_i hEq
        obtain rfl : t.clientCount = c := ServerType.client.inj (Option.some.inj hItem)
        exact .inr (.inr ⟨hEq ▸ rfl, hEq ▸ hFree, server_connect alloc t fd' none⟩)
      · exact .inl hItem
  | @createServer t k fd' ctl =>
    rw [serverTypes_createServer] at hItem
    split at hItem
    · cases hItem
    · exact .inl hItem
  | @accept t p fd' rest hFree =>
    change ((t.openSocket fd' true).newClient alloc fd' (some p)).serverTypes fd = _ at hItem
    rw [serverTypes_newClient] at hItem
    split at hItem
    · rename_i hEq
      obtain rfl : t.clientCount = c := ServerType.client.inj (Option.some.inj hItem)
      refine .inr (.inl ⟨hEq ▸ rfl, ?_⟩)
      have hServer := server_connect alloc t fd' (some p)
      change (((t.openSocket fd' true).newClient alloc fd' (some p)).clients t.clientCount).server ≠ _
      rw [hServer]
      simp
    · exact .inl hItem
  | rdhup | lost | dicon => exact .inl (hSet hItem)
  | @hungUp t c' rest =>
    rw [hangUp_eq] at hItem
    exact .inl hItem
  | leak | connected | data | ready | readyEnd | diconGone | diconEnd => exact .inl hItem

theorem Accounts.step (hSound : s.table.Sound) (h : Accounts inputs s.table)
    (hKept : ∀ c, input ≠ .deleteClient c) (hStep : Transition alloc s input s') :
    Accounts (inputs ++ [input]) s'.table := by
  constructor
  · intro fd hMem
    obtain hMem | hAccepts := mem_acceptedIn_concat.mp hMem
    · exact isOpen_step hSound hStep hKept (h.isOpen fd hMem)
    · exact (accept_step hStep hAccepts).2
  · intro fd c hItem
    rw [mem_acceptedIn_concat]
    obtain hItem | ⟨rfl, hServer⟩ | ⟨rfl, hFree, hServer⟩ := registered_cases hSound hStep hItem
    · have hc := (hSound.registered fd c hItem).1.1
      rw [(persists_step hSound hStep hc).server, ← h.owner fd c hItem]
      apply or_iff_left
      intro hAccepts
      exact hSound.not_registered_of_free (accept_step hStep hAccepts).1 hItem
    · exact iff_of_true (.inr rfl) hServer
    · refine iff_of_false ?_ (not_not.mpr hServer)
      rintro (hMem | hAccepts)
      · exact h.not_mem_of_free hFree hMem
      · cases hAccepts

/-! ## Connections that are kept -/

def Registered (inputs : List Input) (t : ClientTable) : Prop :=
  ∀ fd ∈ acceptedIn inputs, ∃ c, t.serverTypes fd = some (.client c)

theorem Accounts.released_iff_registered (h : Accounts inputs t) :
    Released inputs t ↔ Registered inputs t :=
  forall₂_congr fun fd hMem => forall_prop_of_true (h.isOpen fd hMem)

theorem keepsConnections_of_none (hNone : s.disconnects input = none)
    (hInput : input.registers = true) : KeepsConnections s input := by
  constructor
  · intro fd hMem
    rw [hNone] at hMem
    cases hMem
  · exact hInput

theorem keepsConnections_silent {k k' : Control} (hSilent : Silent t k input k') :
    KeepsConnections ⟨t, k⟩ input := by
  cases hSilent with
  | noItem hItem | server hItem =>
    constructor
    · intro fd hMem
      simp only [State.disconnects, Option.mem_ite_none_right, Option.mem_some] at hMem
      obtain ⟨-, rfl⟩ := hMem
      simp [unowned, hItem]
    · rfl
  | client _ hUp => exact keepsConnections_of_none (by simp [State.disconnects, hUp]) rfl
  | poll | acceptEnd | again | turnsOver | removed | received | lost | batchEnd | notReady
    | readied | disconnected => exact keepsConnections_of_none rfl rfl

theorem registers_of_accepts_none (hAccepts : input.accepts = none) : input.registers = true := by
  cases input with
  | accept iCliSock =>
    cases iCliSock with
    | none => rfl
    | some => cases hAccepts
  | _ => rfl

theorem registered_quiet
    (hItems : ∀ fd ∈ acceptedIn inputs, s'.table.serverTypes fd = s.table.serverTypes fd)
    (hAccepts : input.accepts = none) (hKeeps : KeepsConnections s input) :
    Registered (inputs ++ [input]) s'.table ↔
      Registered inputs s.table ∧ KeepsConnections s input := by
  rw [and_iff_left hKeeps]
  unfold Registered
  simp only [mem_acceptedIn_concat, hAccepts, reduceCtorEq, or_false]
  exact forall₂_congr fun fd hMem => by rw [hItems fd hMem]

theorem registered_disconnect (h : Accounts inputs s.table) {fd c : Nat}
    (hItem : s.table.serverTypes fd = some (.client c))
    (hTable : s'.table = s.table.disconnect fd c) (hDisconnects : s.disconnects input = some fd)
    (hAccepts : input.accepts = none) :
    Registered (inputs ++ [input]) s'.table ↔
      Registered inputs s.table ∧ KeepsConnections s input := by
  have hItems (fd' : Nat) : s'.table.serverTypes fd' =
      if fd' = fd then none else s.table.serverTypes fd' := by
    rw [hTable]
    exact serverTypes_setItem ..
  have hKeeps : KeepsConnections s input ↔ fd ∉ acceptedIn inputs := by
    unfold KeepsConnections
    rw [hDisconnects, and_iff_left]
    · simp only [Option.mem_def, Option.some.injEq, forall_eq']
      exact h.unowned_iff hItem
    · exact registers_of_accepts_none hAccepts
  rw [hKeeps]
  unfold Registered
  simp only [mem_acceptedIn_concat, hAccepts, reduceCtorEq, or_false, hItems]
  constructor
  · intro hRegistered
    have hAbsent : fd ∉ acceptedIn inputs := by
      intro hMem
      obtain ⟨c', hItem'⟩ := hRegistered fd hMem
      rw [if_pos rfl] at hItem'
      cases hItem'
    constructor
    · intro fd' hMem
      obtain ⟨c', hItem'⟩ := hRegistered fd' hMem
      have hNe : fd' ≠ fd := fun hEq => hAbsent (hEq ▸ hMem)
      rw [if_neg hNe] at hItem'
      exact ⟨c', hItem'⟩
    · exact hAbsent
  · rintro ⟨hRegistered, hAbsent⟩ fd' hMem
    have hNe : fd' ≠ fd := fun hEq => hAbsent (hEq ▸ hMem)
    rw [if_neg hNe]
    exact hRegistered fd' hMem

theorem registered_accept (h : Accounts inputs t) {fd p : Nat} {rest : List EpollEvent}
    (hFree : t.isOpen fd = false) :
    Registered (inputs ++ [.accept (some (fd, true))])
        (((t.openSocket fd true).newClient alloc fd (some p)).record (.onConnect t.clientCount)) ↔
      Registered inputs t ∧
        KeepsConnections ⟨t, .accepting p rest⟩ (.accept (some (fd, true))) := by
  have hItems (fd' : Nat) :
      (((t.openSocket fd true).newClient alloc fd (some p)).record
        (.onConnect t.clientCount)).serverTypes fd' =
      if fd' = fd then some (.client t.clientCount) else t.serverTypes fd' :=
    Function.update_apply ..
  rw [and_iff_left (keepsConnections_of_none rfl rfl)]
  unfold Registered
  simp only [mem_acceptedIn_concat, hItems]
  constructor
  · intro hRegistered fd' hMem
    have hNe : fd' ≠ fd := fun hEq => h.not_mem_of_free hFree (hEq ▸ hMem)
    obtain ⟨c, hItem⟩ := hRegistered fd' (.inl hMem)
    rw [if_neg hNe] at hItem
    exact ⟨c, hItem⟩
  · intro hRegistered fd' hMem
    split
    · exact ⟨t.clientCount, rfl⟩
    · rename_i hNe
      refine hRegistered fd' (hMem.resolve_right fun hAccepts => hNe ?_)
      exact (Option.some.inj hAccepts).symm

theorem registered_step (hSound : s.table.Sound) (h : Accounts inputs s.table)
    (hKept : ∀ c, input ≠ .deleteClient c) (hStep : Transition alloc s input s') :
    Registered (inputs ++ [input]) s'.table ↔
      Registered inputs s.table ∧ KeepsConnections s input := by
  cases hStep with
  | silent hSilent =>
    refine registered_quiet (fun _ _ => rfl) ?_ (keepsConnections_silent hSilent)
    cases hSilent <;> rfl
  | send _ hAlive hd _ hSend =>
    refine registered_quiet (fun _ _ => ?_) rfl (keepsConnections_of_none rfl rfl)
    rw [(sendsOnly_send hSound hAlive hd hSend).serverTypes]
  | sendBufferedData _ _ hSend =>
    refine registered_quiet (fun _ _ => ?_) rfl (keepsConnections_of_none rfl rfl)
    rw [(hSend.sendsOnly hSound).1.serverTypes]
  | @flush t t' fd' c' rest results ctl i _ hSend =>
    have hSends : SendsOnly t (flushed t t' fd' c' i ctl) := (sendsOnly_flush hSound hSend).1
    refine registered_quiet (fun _ _ => ?_) rfl (keepsConnections_of_none rfl rfl)
    rw [hSends.serverTypes]
  | deleteClient => exact absurd rfl (hKept _)
  | @createClient t k fd' ctl _ hFree =>
    refine registered_quiet (fun fd hMem => ?_) rfl (keepsConnections_of_none rfl rfl)
    have hNe : fd ≠ fd' := fun hEq => h.not_mem_of_free hFree (hEq ▸ hMem)
    cases ctl with
    | false => rfl
    | true => exact (serverTypes_newClient ..).trans (if_neg hNe)
  | @createServer t k fd' ctl _ hFree =>
    refine registered_quiet (fun fd hMem => ?_) rfl (keepsConnections_of_none rfl rfl)
    have hNe : fd ≠ fd' := fun hEq => h.not_mem_of_free hFree (hEq ▸ hMem)
    rw [serverTypes_createServer, if_neg fun hEq => hNe hEq.2]
  | accept hFree => exact registered_accept h hFree
  | @leak t p fd rest hFree =>
    refine iff_of_false ?_ fun hKeeps => Bool.false_ne_true hKeeps.2.2
    intro hRegistered
    obtain ⟨c, hItem⟩ := hRegistered fd (mem_acceptedIn_concat.mpr (.inr rfl))
    exact hSound.not_registered_of_free hFree hItem
  | rdhup hItem hDown =>
    exact registered_disconnect h hItem rfl (by simp [State.disconnects, hDown]) rfl
  | lost hItem hResult =>
    obtain rfl | rfl := hResult
    · exact registered_disconnect h hItem rfl rfl rfl
    · exact registered_disconnect h hItem rfl rfl rfl
  | dicon hNext hItem => exact registered_disconnect h hItem rfl hNext rfl
  | @hungUp t c rest =>
    refine registered_quiet (fun _ _ => ?_) rfl (keepsConnections_of_none rfl rfl)
    rw [hangUp_eq]
  | @diconGone t ite fd hNext hItem =>
    refine registered_quiet (fun _ _ => rfl) rfl ⟨?_, rfl⟩
    intro fd' hMem
    obtain rfl := Option.some.inj (hNext.symm.trans hMem)
    simp [unowned, hItem]
  | diconEnd hNext =>
    exact registered_quiet (fun _ _ => rfl) rfl (keepsConnections_of_none hNext rfl)
  | connected | data | ready | readyEnd =>
    exact registered_quiet (fun _ _ => rfl) rfl (keepsConnections_of_none rfl rfl)

/-! ## Runs -/

theorem accounts_registered_iff (hRun : (machine alloc).run inputs = some s)
    (hKept : ∀ c, .deleteClient c ∉ inputs) :
    Accounts inputs s.table ∧
      (Registered inputs s.table ↔ (machine alloc).Meets KeepsConnections inputs) := by
  induction inputs using List.reverseRecOn generalizing s with
  | nil =>
    obtain rfl := Option.some.inj hRun
    exact ⟨⟨by simp [acceptedIn], fun _ _ hItem => by cases hItem⟩,
      iff_of_true (by simp [Registered, acceptedIn]) Machine.meets_nil⟩
  | append_singleton inputs input ih =>
    obtain ⟨s₀, hRun₀, hStep⟩ := Machine.run_concat_eq_some.mp hRun
    obtain ⟨hAccounts, hIff⟩ := ih hRun₀ fun c hMem => hKept c (List.mem_append_left _ hMem)
    have hSound := reachable_sound hRun₀
    have hTransition := step_cases hSound.buffers hStep
    have hKept' : ∀ c, input ≠ .deleteClient c := by
      rintro c rfl
      exact hKept c (by simp)
    constructor
    · exact hAccounts.step hSound hKept' hTransition
    · rw [registered_step hSound hAccounts hKept' hTransition, hIff, Machine.meets_concat, hRun₀]
      simp only [Option.some.injEq, forall_eq']

theorem indicesBounded {inputs : List Input} (hRun : (machine alloc).run inputs = some s)
    (hKept : ∀ c, .deleteClient c ∉ inputs)
    (hMeets : (machine alloc).Meets KeepsConnections inputs) : IndicesBounded alloc inputs := by
  intro n k hAtMost hLowest fd hMem
  obtain ⟨input, hInput, hOpens⟩ := List.mem_filterMap.mp hMem
  obtain ⟨before, after, rfl⟩ := List.append_of_mem hInput
  obtain ⟨s₀, hRun₀, -⟩ := Machine.run_append_eq_some.mp hRun
  obtain ⟨hAccounts, hIff⟩ := accounts_registered_iff hRun₀ fun c hMem =>
    hKept c (List.mem_append_left _ hMem)
  have hRegistered := hIff.mpr hMeets.front
  obtain ⟨others, hOthers, hLower⟩ := hLowest before input after rfl s₀ hRun₀ fd hOpens
  have hConnected : ((Finset.range fd).filter (· ∈ acceptedIn before)).card ≤ n := by
    apply hAtMost before (List.prefix_append ..) s₀ hRun₀
    intro lower hLower
    have hAccepted := (Finset.mem_filter.mp hLower).2
    obtain ⟨c, hItem⟩ := hRegistered lower hAccepted
    obtain ⟨p, hServer⟩ := Option.ne_none_iff_exists'.mp ((hAccounts.owner lower c hItem).mp hAccepted)
    exact ⟨c, p, hItem, hServer⟩
  have hCover : Finset.range fd ⊆
      (Finset.range fd).filter (· ∈ acceptedIn before) ∪ others := by
    intro lower hMem
    obtain ⟨hAccepted, -⟩ | hOther := hLower lower (Finset.mem_range.mp hMem)
    · exact Finset.mem_union_left _ (Finset.mem_filter.mpr ⟨hMem, hAccepted⟩)
    · exact Finset.mem_union_right _ hOther
  have hCount : fd ≤ n + k := by
    calc
      fd = (Finset.range fd).card := (Finset.card_range fd).symm
      _ ≤ ((Finset.range fd).filter (· ∈ acceptedIn before) ∪ others).card :=
        Finset.card_le_card hCover
      _ ≤ ((Finset.range fd).filter (· ∈ acceptedIn before)).card + others.card :=
        Finset.card_union_le ..
      _ ≤ n + k := Nat.add_le_add hConnected hOthers
  have hLess : fd < n + (k + 1) := Nat.lt_succ_of_le hCount
  exact ⟨hLess, fun hMax => Nat.lt_of_lt_of_le hLess hMax⟩

/-- Where no client is deleted, accepted descriptors that are open belong to registered clients,
and the indices of the table are bounded for it, if and only if all connections are kept. -/
theorem released_iff (hRun : (machine alloc).run inputs = some s)
    (hKept : ∀ c, .deleteClient c ∉ inputs) :
    (Released inputs s.table ∧ IndicesBounded alloc inputs) ↔
      (machine alloc).Meets KeepsConnections inputs := by
  obtain ⟨hAccounts, hIff⟩ := accounts_registered_iff hRun hKept
  rw [hAccounts.released_iff_registered, hIff]
  exact and_iff_left_of_imp (indicesBounded hRun hKept)

/-! ## A run with two connections -/

theorem Sound.atMost (h : t.Sound) {n : Nat} (hCount : t.clientCount ≤ n) : t.AtMost n := by
  intro fds hClients
  have hCover : fds ⊆ (Finset.range t.clientCount).image fun c => (t.clients c).clientID := by
    intro fd hMem
    obtain ⟨c, p, hItem, -⟩ := hClients fd hMem
    obtain ⟨hAlive, hID, -⟩ := h.registered fd c hItem
    exact Finset.mem_image.mpr ⟨c, Finset.mem_range.mpr hAlive.1, hID⟩
  calc
    fds.card ≤ ((Finset.range t.clientCount).image fun c => (t.clients c).clientID).card :=
      Finset.card_le_card hCover
    _ ≤ (Finset.range t.clientCount).card := Finset.card_image_le
    _ = t.clientCount := Finset.card_range _
    _ ≤ n := hCount

def connectTwo : List Input :=
  [.createServer 4 true, .poll [⟨4, false, true, false⟩], .next, .accept (some (5, true)),
    .callbackReturn, .accept (some (6, true))]

theorem lowestFree_append {k : Nat} {rest : List Input}
    (hRest : ∀ input ∈ rest, input.opens = none) :
    LowestFree alloc k (inputs ++ rest) ↔ LowestFree alloc k inputs := by
  refine stepwise_append fun before input hMem s _ fd hOpens => ?_
  cases (hRest input hMem).symm.trans hOpens

/-- The descriptors below 5 are in use when the server is created, its own apart. -/
theorem lowestFree_connectTwo : LowestFree (.filled 0) 5 connectTwo := by
  have hServer : LowestFree (.filled 0) 5 [.createServer 4 true] := by
    refine stepwise_singleton.mpr fun s _ fd hMem => ⟨{0, 1, 2, 3, 4}, by decide, ?_⟩
    cases hMem
    exact fun lower hLess => .inr (by simp; omega)
  have hEvent : LowestFree (.filled 0) 5 [.createServer 4 true, .poll [⟨4, false, true, false⟩],
      .next] := (lowestFree_append (by decide)).mpr hServer
  have hFirst : LowestFree (.filled 0) 5 [.createServer 4 true, .poll [⟨4, false, true, false⟩],
      .next, .accept (some (5, true))] := by
    refine stepwise_concat.mpr ⟨hEvent, fun s _ fd hMem => ⟨{0, 1, 2, 3, 4}, by decide, ?_⟩⟩
    cases hMem
    exact fun lower hLess => .inr (by simp; omega)
  have hReturn : LowestFree (.filled 0) 5 [.createServer 4 true, .poll [⟨4, false, true, false⟩],
      .next, .accept (some (5, true)), .callbackReturn] :=
    (lowestFree_append (by decide)).mpr hFirst
  refine stepwise_concat.mpr ⟨hReturn, fun s hRun fd hMem => ⟨{0, 1, 2, 3, 4}, by decide, ?_⟩⟩
  cases hMem
  intro lower hLess
  obtain hLower | rfl : lower < 5 ∨ lower = 5 := by omega
  · exact .inr (by simp; omega)
  · have hOpen : ((machine (.filled 0)).run [.createServer 4 true,
        .poll [⟨4, false, true, false⟩], .next, .accept (some (5, true)), .callbackReturn]).map
          (·.table.isOpen 5) = some true := rfl
    rw [hRun] at hOpen
    exact .inl ⟨by decide, Option.some.inj hOpen⟩

theorem released_iff_two : ∃ inputs s, (machine (.filled 0)).run inputs = some s ∧
    s.control = .run ∧ acceptedIn inputs = [5, 6] ∧ Released inputs s.table ∧
    (machine (.filled 0)).Always (fun s => s.table.AtMost 2) inputs ∧
    LowestFree (.filled 0) 5 inputs ∧
    ∀ fd ∈ inputs.filterMap Input.opens, fd < 2 + (5 + 1) := by
  let rest : List Input := [.callbackReturn, .accept none, .next, .next, .next,
    .poll [⟨5, false, true, false⟩, ⟨6, false, true, false⟩], .next, .read (.data [1]),
    .callbackReturn, .read .again, .next, .read .again, .next, .next, .next]
  obtain ⟨s, hRun, hReturned, hCount⟩ : ∃ s, (machine (.filled 0)).run (connectTwo ++ rest) =
      some s ∧ s.control = .run ∧ s.table.clientCount = 2 := ⟨_, rfl, rfl, rfl⟩
  have hLowest : LowestFree (.filled 0) 5 (connectTwo ++ rest) :=
    (lowestFree_append (by decide)).mpr lowestFree_connectTwo
  have hAtMost : (machine (.filled 0)).Always (fun s => s.table.AtMost 2) (connectTwo ++ rest) := by
    have hCounts : (machine (.filled 0)).Always (·.table.clientCount ≤ 2) (connectTwo ++ rest) :=
      Machine.always_of_check hRun (by decide) hCount.le
    intro before hPrefix s' hRun'
    exact (reachable_sound hRun').atMost (hCounts before hPrefix s' hRun')
  obtain ⟨hReleased, hBounded⟩ := (released_iff hRun (by simp [connectTwo, rest])).mpr
    (Machine.meets_of_check _ (by decide))
  exact ⟨_, s, hRun, hReturned, rfl, hReleased, hAtMost, hLowest,
    fun fd hMem => (hBounded 2 5 hAtMost hLowest fd hMem).1⟩

theorem not_released :
    ¬∀ inputs s, (machine (.filled 0)).run inputs = some s → (∀ c, .deleteClient c ∉ inputs) →
      s.control = .run → Released inputs s.table := by
  intro hReleased
  let inputs : List Input := [.createServer 3 true,
    .poll [⟨3, false, true, false⟩, ⟨5, false, true, false⟩], .next, .accept (some (5, true)),
    .callbackReturn, .accept none, .next, .read .closed, .callbackReturn, .next, .next, .next]
  obtain ⟨s, hRun, hReturned, hOpen, hGone⟩ : ∃ s, (machine (.filled 0)).run inputs = some s ∧
      s.control = .run ∧ s.table.isOpen 5 = true ∧ s.table.serverTypes 5 = none :=
    ⟨_, rfl, rfl, rfl, rfl⟩
  obtain ⟨c, hItem⟩ := hReleased inputs s hRun (by simp [inputs]) hReturned 5 (by decide) hOpen
  cases hGone.symm.trans hItem

end CStabilizer.ClientTable
