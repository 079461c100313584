import CStabilizer.SocketManager.Registration

/-! # Peers that close

What a peer sends before it closes is read until the end of its stream, unless
its client is disconnected on another path: the flag for a peer that has closed
is tested before the flag for data, and the two can come together. -/

namespace CStabilizer.ClientTable

open Library Library.CString Library.Memory Library.Splits

variable {alloc : Allocator UInt8} {t t' : ClientTable} {s s' : State} {input : Input}

/-! ## The property and its condition -/

/-- All that the peer of a client sends is passed to `OnData` before `OnDisconnect`. -/
def Delivered (sent : Bytes) (c : Nat) (t : ClientTable) : Prop :=
  Stepwise (fun before event => event = .onDisconnect c →
    before.flatMap (SocketEvent.readFrom c) = sent) t.trace

def clientAt (t : ClientTable) (fd : Nat) : Option Nat :=
  match t.serverTypes fd with
  | some (.client c) => some c
  | _ => none

def State.reader (s : State) : Option Nat :=
  match s.control with
  | .reading event _ (_ + 1) _ => s.table.clientAt event.fd
  | _ => none

/-- Reads on a socket give what its peer has sent, in order, and end behind it. -/
def ReadsFrom (peer : Nat → Bytes) (s : State) : Input → Prop
  | .read (.data bytes) => ∀ c ∈ s.reader, s.table.received c ++ bytes <+: peer c
  | .read .closed => ∀ c ∈ s.reader, s.table.received c = peer c
  | .poll _ | .next | .accept _ | .read .again | .read .failed | .flush .. | .callbackReturn
  | .send .. | .sendBufferedData .. | .deleteClient _ | .createClient .. | .createServer .. => True

instance instDecidableReadsFrom (peer : Nat → Bytes) (s : State) : DecidablePred (ReadsFrom peer s)
  | .read (.data bytes) =>
    inferInstanceAs (Decidable (∀ c ∈ s.reader, s.table.received c ++ bytes <+: peer c))
  | .read .closed => inferInstanceAs (Decidable (∀ c ∈ s.reader, s.table.received c = peer c))
  | .poll _ | .next | .accept _ | .read .again | .read .failed | .flush .. | .callbackReturn
  | .send .. | .sendBufferedData .. | .deleteClient _ | .createClient .. | .createServer .. =>
    inferInstanceAs (Decidable True)

/-- The client that a step disconnects without having read to the end: for `EPOLLRDHUP`,
after an error of `read`, or in the disconnect loop. -/
def abandons (s : State) : Input → Option Nat
  | .next =>
    match s.control with
    | .events (event :: _) => if event.rdhup then s.table.clientAt event.fd else none
    | .diconLoop ite => (iterate s.table.diconClients ite).bind s.table.clientAt
    | _ => none
  | .read .failed => s.reader
  | .poll _ | .accept _ | .read (.data _) | .read .closed | .read .again | .flush ..
  | .callbackReturn | .send .. | .sendBufferedData .. | .deleteClient _ | .createClient ..
  | .createServer .. => none

/-- Nothing is unread when the client is disconnected without having been read to the end. -/
def Drained (sent : Bytes) (c : Nat) (s : State) (input : Input) : Prop :=
  abandons s input = some c → s.table.received c = sent

/-! ## Steps -/

theorem clientAt_eq_some {fd c : Nat} :
    t.clientAt fd = some c ↔ t.serverTypes fd = some (.client c) := by
  unfold clientAt
  split
  · rename_i hItem
    simp [hItem]
  · rename_i hNone
    simp only [reduceCtorEq, false_iff]
    exact hNone c

variable {sent : Bytes} {c : Nat}

theorem delivered_append {events : List SocketEvent} (hTrace : t'.trace = t.trace ++ events)
    (hEvents : ∀ event ∈ events, event ≠ .onDisconnect c) :
    Delivered sent c t' ↔ Delivered sent c t := by
  unfold Delivered
  rw [hTrace]
  exact stepwise_append fun _ event hEvent hEq => absurd hEq (hEvents event hEvent)

theorem delivered_record {event : SocketEvent} (hEvent : event ≠ .onDisconnect c) :
    Delivered sent c (t.record event) ↔ Delivered sent c t :=
  delivered_append rfl fun _ h => List.mem_singleton.mp h ▸ hEvent

theorem delivered_sendsOnly (h : SendsOnly t t') : Delivered sent c t' ↔ Delivered sent c t := by
  obtain ⟨events, hTrace, hEvents⟩ := h.trace
  apply delivered_append hTrace
  rintro event hEvent rfl
  cases (hEvents _ hEvent).1

theorem delivered_disconnect {fd c₀ : Nat} :
    Delivered sent c (t.disconnect fd c₀) ↔
      Delivered sent c t ∧ (c₀ = c → t.received c = sent) := by
  refine stepwise_concat.trans (and_congr_right fun _ => ?_)
  rw [SocketEvent.onDisconnect.injEq]
  rfl

theorem drained_of_none (h : abandons s input = none) : Drained sent c s input := by
  intro hSome
  cases h.symm.trans hSome

theorem drained_iff {c₀ : Nat} (h : abandons s input = some c₀) :
    Drained sent c s input ↔ (c₀ = c → s.table.received c = sent) := by
  unfold Drained
  rw [h, Option.some.injEq]

theorem abandons_of_silent {k k' : Control} (h : Silent t k input k') :
    abandons ⟨t, k⟩ input = none := by
  cases h with
  | noItem hItem | server hItem =>
    simp [abandons, clientAt, hItem]
  | client _ hUp => simp [abandons, hUp]
  | poll | acceptEnd | again | turnsOver | removed | received | lost | batchEnd | notReady
    | readied | disconnected => rfl

theorem delivered_step (hSound : s.table.Sound) {peer : Nat → Bytes}
    (hReads : ReadsFrom peer s input)
    (hStep : Transition alloc s input s') :
    Delivered (peer c) c s'.table ↔ Delivered (peer c) c s.table ∧ Drained (peer c) c s input := by
  have hQuiet (hNone : abandons s input = none)
      (hSame : Delivered (peer c) c s'.table ↔ Delivered (peer c) c s.table) :
      Delivered (peer c) c s'.table ↔
        Delivered (peer c) c s.table ∧ Drained (peer c) c s input :=
    hSame.trans (and_iff_left (drained_of_none hNone)).symm
  cases hStep with
  | silent hSilent => exact hQuiet (abandons_of_silent hSilent) Iff.rfl
  | send _ hAlive hd _ hSend =>
    exact hQuiet rfl (delivered_sendsOnly (sendsOnly_send hSound hAlive hd hSend))
  | sendBufferedData _ _ hSend => exact hQuiet rfl (delivered_sendsOnly (hSend.sendsOnly hSound).1)
  | @flush t t' fd c' rest results ctl i _ hSend =>
    have hSends : SendsOnly t (flushed t t' fd c' i ctl) := (sendsOnly_flush hSound hSend).1
    exact hQuiet rfl (delivered_sendsOnly hSends)
  | @deleteClient t k c' =>
    exact hQuiet rfl (delivered_record (t := t.addToDeletedClientSet _) (by simp))
  | @createClient t k fd ctl => exact hQuiet rfl (by cases ctl <;> rfl)
  | @createServer t k fd ctl => exact hQuiet rfl (by cases ctl <;> rfl)
  | accept =>
    refine hQuiet rfl ((delivered_record ?_).trans Iff.rfl)
    simp
  | @hungUp t c' rest =>
    have hSame : Delivered (peer c) c (t.hangUp c') ↔ Delivered (peer c) c t := by
      rw [hangUp_eq]
      rfl
    exact hQuiet rfl hSame
  | data =>
    refine hQuiet rfl (delivered_record ?_)
    simp
  | ready =>
    refine hQuiet rfl (delivered_record ?_)
    simp
  | leak | connected | readyEnd => exact hQuiet rfl Iff.rfl
  | diconGone hNext hItem => exact hQuiet (by simp [abandons, hNext, clientAt, hItem]) Iff.rfl
  | diconEnd hNext => exact hQuiet (by simp [abandons, hNext]) Iff.rfl
  | @rdhup t event rest c₀ hItem hDown =>
    have hAbandons : abandons ⟨t, .events (event :: rest)⟩ .next = some c₀ := by
      simp [abandons, hDown, clientAt_eq_some.mpr hItem]
    rw [drained_iff hAbandons]
    exact delivered_disconnect
  | @dicon t ite fd c₀ hNext hItem =>
    have hAbandons : abandons ⟨t, .diconLoop ite⟩ .next = some c₀ := by
      simp [abandons, hNext, clientAt_eq_some.mpr hItem]
    rw [drained_iff hAbandons]
    exact delivered_disconnect
  | @lost t event p c₀ turns rest result hItem hResult =>
    have hReader : State.reader ⟨t, .reading event p (turns + 1) rest⟩ = some c₀ :=
      clientAt_eq_some.mpr hItem
    obtain rfl | rfl := hResult
    · refine hQuiet rfl (delivered_disconnect.trans (and_iff_left ?_))
      rintro rfl
      exact hReads c₀ hReader
    · have hAbandons : abandons ⟨t, .reading event p (turns + 1) rest⟩ (.read .failed) = some c₀ :=
        hReader
      rw [drained_iff hAbandons]
      exact delivered_disconnect

/-! ## Runs -/

theorem delivered_iff {peer : Nat → Bytes} {inputs : List Input}
    (hReads : (machine alloc).Meets (ReadsFrom peer) inputs)
    (hRun : (machine alloc).run inputs = some s) (c : Nat) :
    Delivered (peer c) c s.table ↔ (machine alloc).Meets (Drained (peer c) c) inputs := by
  refine (hReads.induction (P := fun inputs s => s.table.Sound ∧
    (Delivered (peer c) c s.table ↔ (machine alloc).Meets (Drained (peer c) c) inputs))
    ?_ ?_ hRun).2
  · exact ⟨sound_create alloc, iff_of_true stepwise_nil Machine.meets_nil⟩
  · rintro inputs s input s' hRun ⟨hSound, hIff⟩ hReads hStep
    have hTransition := step_cases hSound.buffers hStep
    constructor
    · exact hSound.step hTransition
    · rw [delivered_step hSound hReads hTransition, hIff, Machine.meets_concat]
      refine and_congr_right fun _ => ⟨?_, fun h => h s hRun⟩
      rintro hDrained s₁ hRun₁
      exact Option.some.inj (hRun.symm.trans hRun₁) ▸ hDrained

def closeAfterRead : List Input :=
  [.createServer 3 true, .poll [⟨3, false, true, false⟩, ⟨5, false, true, false⟩], .next,
    .accept (some (5, true)), .callbackReturn, .accept none, .next, .read (.data [1]),
    .callbackReturn, .read .again, .next, .next, .next, .poll [⟨5, true, true, false⟩], .next]

theorem delivered_iff_read :
    ∃ s, (machine (.filled 0)).run closeAfterRead = some s ∧
      (Delivered [1] 0 s.table ↔
        (machine (.filled 0)).Meets (Drained [1] 0) closeAfterRead) := by
  obtain ⟨s, hRun⟩ : ∃ s, (machine (.filled 0)).run closeAfterRead = some s := ⟨_, rfl⟩
  have hReads : (machine (.filled 0)).Meets (ReadsFrom fun _ => [1]) closeAfterRead :=
    Machine.meets_of_check _ (by decide)
  exact ⟨s, hRun, delivered_iff hReads hRun 0⟩

def InOrder : Input → Prop
  | .read result => result ≠ .failed
  | .send _ _ results | .sendBufferedData _ results | .flush results _ =>
    .failed ∉ results.writes
  | .poll _ | .next | .accept _ | .callbackReturn | .deleteClient _ | .createClient ..
  | .createServer .. => True

/-- The peer of an accepted client sends a byte and closes, and one event reports both. -/
def closeUnread : List Input :=
  [.createServer 3 true, .poll [⟨3, false, true, false⟩, ⟨5, true, true, false⟩], .next,
    .accept (some (5, true)), .callbackReturn, .accept none, .next]

theorem not_delivered :
    ¬∀ (peer : Nat → Bytes) (inputs : List Input) (s : State),
      (machine (.filled 0)).Meets (ReadsFrom peer) inputs → (∀ input ∈ inputs, InOrder input) →
      (machine (.filled 0)).run inputs = some s → ∀ c, Delivered (peer c) c s.table := by
  intro hAllDelivered
  obtain ⟨s, hRun, hTrace⟩ : ∃ s, (machine (.filled 0)).run closeUnread = some s ∧
      s.table.trace = [.onConnect 0, .onDisconnect 0] := ⟨_, rfl, rfl⟩
  have hReads : (machine (.filled 0)).Meets (ReadsFrom fun _ => [1]) closeUnread :=
    Machine.meets_of_check _ (by decide)
  have hDelivered := hAllDelivered _ _ s hReads (by simp [closeUnread, InOrder]) hRun 0
  have hRead := hDelivered [.onConnect 0] (.onDisconnect 0) [] hTrace rfl
  cases hRead

end CStabilizer.ClientTable
