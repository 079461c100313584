import CStabilizer.SocketManager.Registration

/-! # The client that an event is handled for

The read loop takes its client from the table in every turn. The branch behind it
uses the client of the last turn, or none, whatever has become of it. -/

namespace CStabilizer.ClientTable

open Library Library.CString Library.Memory

variable {alloc : Allocator UInt8} {t t' : ClientTable} {s s' : State} {input : Input}

/-! ## The property and its condition -/

/-- The pointer that `ReadSockets` dereferences next for the event that it handles,
before a callback can change the table. In the `EPOLLOUT` branch it is the local one. -/
def State.dereferences (s : State) : Option (Option ServerType) :=
  match s.control with
  | .events (event :: _) =>
    match s.table.serverTypes event.fd with
    | some (.client pClient) => if event.rdhup then some (some (.client pClient)) else none
    | _ => none
  | .reading event _ (_ + 1) _ =>
    match s.table.serverTypes event.fd with
    | none => if event.writable then some none else none
    | some item => some (some item)
  | .reading event pClient 0 _ =>
    if event.writable then some (pClient.map ServerType.client) else none
  | .writing _ pClient _ => some (pClient.map ServerType.client)
  | .run | .events [] | .accepting .. | .connecting .. | .hungUp .. | .receiving .. | .lost ..
  | .readyLoop _ | .readying _ | .diconLoop _ | .disconnecting _ => none

def Usable (t : ClientTable) (pointer : Option ServerType) : Prop :=
  ∃ c, pointer = some (.client c) ∧ t.Alive c

def State.UsesClients (s : State) : Prop := ∀ pointer ∈ s.dereferences, s.table.Usable pointer

/-- Behind `OnDisconnect`, and behind `OnData` in the last turn, the client is not deleted when
the `EPOLLOUT` branch comes next. Behind `OnData` in an earlier turn the descriptor has a client,
or it has no entry and the branch does not come. -/
def ClientLeft (s : State) : Input → Prop
  | .callbackReturn =>
    match s.control with
    | .receiving event pClient 0 _ | .lost event pClient _ =>
      event.writable = true → s.table.Alive pClient
    | .receiving event _ (_ + 1) _ =>
      match s.table.serverTypes event.fd with
      | none => event.writable = false
      | some (.server _) => False
      | some (.client _) => True
    | _ => True
  | .poll _ | .next | .accept _ | .read _ | .flush .. | .send .. | .sendBufferedData ..
  | .deleteClient _ | .createClient .. | .createServer .. => True

instance instDecidableClientLeft (s : State) : DecidablePred (ClientLeft s)
  | .callbackReturn =>
    match s with
    | ⟨t, .receiving event pClient 0 _⟩ | ⟨t, .lost event pClient _⟩ =>
      inferInstanceAs (Decidable (event.writable = true → t.Alive pClient))
    | ⟨t, .receiving event _ (_ + 1) _⟩ =>
      match hItem : t.serverTypes event.fd with
      | none => decidable_of_iff (event.writable = false) (by simp only [ClientLeft, hItem])
      | some (.server _) => decidable_of_iff False (by simp only [ClientLeft, hItem])
      | some (.client _) => decidable_of_iff True (by simp only [ClientLeft, hItem])
    | ⟨_, .run⟩ | ⟨_, .events _⟩ | ⟨_, .accepting ..⟩ | ⟨_, .connecting ..⟩ | ⟨_, .hungUp ..⟩
    | ⟨_, .reading ..⟩ | ⟨_, .writing ..⟩ | ⟨_, .readyLoop _⟩ | ⟨_, .readying _⟩
    | ⟨_, .diconLoop _⟩ | ⟨_, .disconnecting _⟩ => inferInstanceAs (Decidable True)
  | .poll _ | .next | .accept _ | .read _ | .flush .. | .send .. | .sendBufferedData ..
  | .deleteClient _ | .createClient .. | .createServer .. => inferInstanceAs (Decidable True)

/-! ## Steps -/

theorem usable_some {c : Nat} : t.Usable ((some c).map ServerType.client) ↔ t.Alive c := by
  constructor
  · rintro ⟨c', hEq, hAlive⟩
    obtain rfl : c = c' := by simpa using hEq
    exact hAlive
  · intro hAlive
    exact ⟨c, rfl, hAlive⟩

theorem not_usable_none : ¬t.Usable none := by
  rintro ⟨c, hEq, -⟩
  cases hEq

theorem Sound.usable (hSound : t.Sound) {fd c : Nat} (hItem : t.serverTypes fd = some (.client c)) :
    t.Usable (some (.client c)) := usable_some.mpr (hSound.registered fd c hItem).1

theorem usesClients_of_none (h : s.dereferences = none) : s.UsesClients := by
  intro pointer hPointer
  rw [h] at hPointer
  cases hPointer

theorem usesClients_iff (pointer : Option ServerType) (h : s.dereferences = some pointer) :
    s.UsesClients ↔ s.table.Usable pointer := by
  unfold State.UsesClients
  simp only [h, Option.mem_def, Option.some.injEq, forall_eq']

theorem usesClients_events (hSound : t.Sound) (rest : List EpollEvent) :
    State.UsesClients ⟨t, .events rest⟩ := by
  cases rest with
  | nil => exact usesClients_of_none rfl
  | cons event rest =>
    intro pointer hPointer
    simp only [State.dereferences] at hPointer
    split at hPointer
    · rename_i c hItem
      split at hPointer
      · obtain rfl := Option.mem_some.mp hPointer
        exact hSound.usable hItem
      · cases hPointer
    · cases hPointer

theorem usesClients_afterRead (hSound : t.Sound) {event : EpollEvent} {p : Option Nat}
    {rest : List EpollEvent} :
    State.UsesClients ⟨t, afterRead event p rest⟩ ↔
      (event.writable = true → t.Usable (p.map ServerType.client)) := by
  unfold afterRead
  split
  · rename_i hWritable
    rw [usesClients_iff _ rfl, forall_prop_of_true hWritable]
  · rename_i hDone
    exact iff_of_true (usesClients_events hSound rest) fun hWritable => absurd hWritable hDone

theorem usesClients_lastTurn {event : EpollEvent} {p : Option Nat} {rest : List EpollEvent} :
    State.UsesClients ⟨t, .reading event p 0 rest⟩ ↔
      (event.writable = true → t.Usable (p.map ServerType.client)) := by
  cases hWritable : event.writable with
  | true =>
    rw [usesClients_iff (p.map ServerType.client) (by simp [State.dereferences, hWritable])]
    simp
  | false =>
    refine iff_of_true (usesClients_of_none ?_) (by simp)
    simp [State.dereferences, hWritable]

theorem usesClients_turn (hSound : t.Sound) {event : EpollEvent} {p : Option Nat} {turns : Nat}
    {rest : List EpollEvent} :
    State.UsesClients ⟨t, .reading event p (turns + 1) rest⟩ ↔
      match t.serverTypes event.fd with
      | none => event.writable = false
      | some (.server _) => False
      | some (.client _) => True := by
  cases hItem : t.serverTypes event.fd with
  | none =>
    cases hWritable : event.writable with
    | true =>
      refine iff_of_false ?_ (by simp)
      rw [usesClients_iff none (by simp [State.dereferences, hItem, hWritable])]
      exact not_usable_none
    | false =>
      refine iff_of_true (usesClients_of_none ?_) rfl
      simp [State.dereferences, hItem, hWritable]
  | some item =>
    rw [usesClients_iff (some item) (by simp only [State.dereferences, hItem])]
    cases item with
    | server pServer =>
      refine iff_of_false ?_ id
      rintro ⟨c, hEq, -⟩
      cases hEq
    | client c => exact iff_of_true (hSound.usable hItem) trivial

theorem usesClients_silent {k k' : Control} (hSound : t.Sound) (h : State.UsesClients ⟨t, k⟩)
    (hSilent : Silent t k input k') :
    State.UsesClients ⟨t, k'⟩ ↔ ClientLeft ⟨t, k⟩ input := by
  cases hSilent with
  | poll | noItem | acceptEnd => exact iff_of_true (usesClients_events hSound _) trivial
  | @client event rest c hItem =>
    refine iff_of_true ?_ trivial
    split
    · exact (usesClients_turn hSound).mpr (by rw [hItem]; trivial)
    · exact usesClients_lastTurn.mpr fun _ => hSound.usable hItem
  | @again event p c turns rest hItem =>
    exact iff_of_true ((usesClients_afterRead hSound).mpr fun _ => hSound.usable hItem) trivial
  | turnsOver =>
    exact iff_of_true ((usesClients_afterRead hSound).mpr (usesClients_lastTurn.mp h)) trivial
  | @removed event p turns rest hItem =>
    refine iff_of_true ((usesClients_afterRead hSound).mpr fun hWritable => ?_) trivial
    have hLeft := (usesClients_turn hSound).mp h
    rw [hItem] at hLeft
    cases hWritable.symm.trans hLeft
  | @received event c turns rest =>
    cases turns with
    | zero => exact usesClients_lastTurn.trans (imp_congr_right fun _ => usable_some)
    | succ turns => exact usesClients_turn hSound
  | lost => exact (usesClients_afterRead hSound).trans (imp_congr_right fun _ => usable_some)
  | server | batchEnd | notReady | readied | disconnected =>
    exact iff_of_true (usesClients_of_none rfl) trivial

theorem dereferences_of_outside {k : Control} (h : k.outside = true) :
    State.dereferences ⟨t, k⟩ = none := by
  cases k with
  | run | connecting | hungUp | receiving | lost | readying | disconnecting => rfl
  | events | accepting | reading | writing | readyLoop | diconLoop => cases h

theorem usesClients_step (hSound : s.table.Sound) (h : s.UsesClients)
    (hStep : Transition alloc s input s') : s'.UsesClients ↔ ClientLeft s input := by
  have hSound' := hSound.step hStep
  cases hStep with
  | silent hSilent => exact usesClients_silent hSound h hSilent
  | send hOutside | sendBufferedData hOutside | deleteClient hOutside | createClient hOutside
    | createServer hOutside =>
    exact iff_of_true (usesClients_of_none (dereferences_of_outside hOutside)) trivial
  | hungUp | flush => exact iff_of_true (usesClients_events hSound' _) trivial
  | accept | leak | connected | rdhup | data | lost | ready | readyEnd | dicon | diconGone
    | diconEnd => exact iff_of_true (usesClients_of_none rfl) trivial

/-! ## Runs -/

/-- `ReadSockets` uses no client that is gone in a run, if and only if every callback
of the run leaves the client that is used next. -/
theorem always_usesClients_iff {inputs : List Input}
    (hRun : (machine alloc).run inputs = some s) :
    (machine alloc).Always State.UsesClients inputs ↔
      (machine alloc).Meets ClientLeft inputs := by
  refine Machine.always_iff_meets (usesClients_of_none rfl) ?_ hRun
  intro inputs s input s' hRun h hStep
  have hSound := reachable_sound hRun
  exact usesClients_step hSound h (step_cases hSound.buffers hStep)

/-- `OnData` replaces its client by one with the same descriptor, to which more can be sent. -/
theorem always_usesClients_iff_replaced : ∃ inputs,
    (∃ s, (machine (.filled 0)).run inputs = some s ∧ s.table.onReadyToSendClients = {5}) ∧
      .deleteClient 0 ∈ inputs ∧ (machine (.filled 0)).Always State.UsesClients inputs := by
  let inputs : List Input := [.createClient 5 true, .poll [⟨5, false, true, true⟩], .next,
    .read (.data [1]), .deleteClient 0, .createClient 5 true, .callbackReturn, .read .again,
    .flush ⟨[], true⟩ true]
  obtain ⟨s, hRun, hReady⟩ : ∃ s, (machine (.filled 0)).run inputs = some s ∧
      s.table.onReadyToSendClients = {5} := ⟨_, rfl, rfl⟩
  refine ⟨inputs, ⟨s, hRun, hReady⟩, by decide, (always_usesClients_iff hRun).mpr ?_⟩
  exact Machine.meets_of_check _ (by decide)

/-- A client that is deleted in the `OnDisconnect` at its end of file, in an event that
has `EPOLLOUT` as well. -/
theorem not_always_usesClients :
    ¬∀ inputs s, (machine (.filled 0)).run inputs = some s →
      (machine (.filled 0)).Always State.UsesClients inputs := by
  intro hAlwaysUses
  let inputs : List Input := [.createClient 5 true, .poll [⟨5, false, true, true⟩], .next,
    .read .closed, .deleteClient 0, .callbackReturn]
  obtain ⟨s, hRun, hPointer, hGone⟩ : ∃ s, (machine (.filled 0)).run inputs = some s ∧
      s.dereferences = some (some (.client 0)) ∧ (s.table.clients 0).deleted = true :=
    ⟨_, rfl, rfl, rfl⟩
  have hUses := hAlwaysUses inputs s hRun inputs List.prefix_rfl s hRun
  have hAlive : s.table.Alive 0 := usable_some.mp ((usesClients_iff _ hPointer).mp hUses)
  cases hGone.symm.trans hAlive.2

end CStabilizer.ClientTable
