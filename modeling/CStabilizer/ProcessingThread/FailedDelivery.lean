import CStabilizer.ProcessingThread.Delivery

/-! # Deliveries that fail

Both counts that `write` returns are dropped, and the list of deleted values is
cleared after the two writes and the read, whatever became of them. -/

namespace CStabilizer.ProcessingThread

open Library.Containers Library.StableSort Library.Splits

/-- The values that leave the list are those whose frame the socket accepted completely. -/
def KeepsUnsent (t : ProcessingThread) (sys : Syscalls) : Prop :=
  let (t', delivered, bytes) := t.doPossibleBatchDelivery sys
  t.deletedList = delivered ++ t'.deletedList ∧
    delivered = if bytes = frame t.deletedList then t.deletedList else []

/-- Complete frames of the values that have left the list, and behind them at most the front part
of a frame whose values are still in the list. -/
def Parseable (t : ProcessingThread) (outputs : List Output) : Prop :=
  ∃ (frames : List (List Int32)) (front : List UInt8) (pending : List Int32),
    wire outputs = frames.flatMap frame ++ front ∧
    frames.flatten = deliveredAll outputs ∧ (∀ values ∈ frames, values.length < 2 ^ 31) ∧
    (front = [] ∨ pending ≠ [] ∧ pending <+: t.deletedList ∧ front <+: frame pending)

def DeliveriesKept (t : ProcessingThread) (events : Events) : Prop :=
  Stepwise (fun before event =>
    KeepsUnsent ((t.processAll before).1.released event.1).1 event.2 ∧
      Parseable (t.processAll (before ++ [event])).1 (t.processAll (before ++ [event])).2) events

/-- When the list is long enough for a delivery, its size is in the range of `int` and both writes
are complete, or the list is empty and nothing is written. -/
def WritesWhole (t : ProcessingThread) (sys : Syscalls) : Prop :=
  t.labelDeliverySize < Int32.ofNat t.deletedList.length →
    t.deletedList.length < 2 ^ 31 ∧ 4 ≤ (sys.writeCount 4).toNat ∧
        t.deletedList.length * 4 ≤ (sys.writeValues (t.deletedList.length * 4)).toNat ∨
      t.deletedList = [] ∧ (sys.writeCount 4).toNat = 0

def AllWritesWhole (t : ProcessingThread) (events : Events) : Prop :=
  Stepwise (fun before event =>
    WritesWhole ((t.processAll before).1.released event.1).1 event.2) events

theorem length_frame (values : List Int32) : (frame values).length = 4 + values.length * 4 := by
  rw [frame, List.length_append, length_intBytes, length_flatMap_intBytes]

theorem length_frames (frames : List (List Int32)) :
    (frames.flatMap frame).length = frames.length * 4 + frames.flatten.length * 4 := by
  induction frames with
  | nil => rfl
  | cons values frames ih =>
    rw [List.flatMap_cons, List.flatten_cons, List.length_append, List.length_append, ih,
      length_frame, List.length_cons]
    omega

theorem accepted_whole {result : Int} {buffer : List UInt8} (h : buffer.length ≤ result.toNat) :
    accepted result buffer = buffer := List.take_of_length_le h

theorem doPossibleBatchDelivery_of_not_due {t : ProcessingThread}
    (h : ¬t.labelDeliverySize < Int32.ofNat t.deletedList.length) (sys : Syscalls) :
    t.doPossibleBatchDelivery sys = (t, [], []) := if_neg h

/-- What the socket takes of the count and the values of a delivery. -/
def deliveryBytes (t : ProcessingThread) (sys : Syscalls) : List UInt8 :=
  let deletedCount := Int32.ofNat t.deletedList.length
  let values := (t.deletedList.flatMap intBytes).take (deletedCount.toInt.toNat * 4)
  accepted (sys.writeCount 4) (intBytes deletedCount) ++
    accepted (sys.writeValues values.length) values

theorem doPossibleBatchDelivery_of_due {t : ProcessingThread}
    (h : t.labelDeliverySize < Int32.ofNat t.deletedList.length) (sys : Syscalls) :
    t.doPossibleBatchDelivery sys =
      ({ t with deletedList := [] }, t.deletedList, t.deliveryBytes sys) := if_pos h

theorem deliveryBytes_of_empty {t : ProcessingThread} (h : t.deletedList = []) (sys : Syscalls) :
    (t.deliveryBytes sys).length = min (sys.writeCount 4).toNat 4 := by
  simp [deliveryBytes, h, accepted]

theorem deliveryBytes_whole {t : ProcessingThread} {sys : Syscalls}
    (hFits : t.deletedList.length < 2 ^ 31) (hCount : 4 ≤ (sys.writeCount 4).toNat)
    (hValues : t.deletedList.length * 4 ≤ (sys.writeValues (t.deletedList.length * 4)).toNat) :
    t.deliveryBytes sys = frame t.deletedList := by
  have hInt : (Int32.ofNat t.deletedList.length).toInt = t.deletedList.length :=
    Int32.toInt_ofNat_of_lt hFits
  have hAll : (t.deletedList.flatMap intBytes).take (t.deletedList.length * 4) =
      t.deletedList.flatMap intBytes := by
    rw [← length_flatMap_intBytes, List.take_length]
  rw [deliveryBytes, hInt, Int.toNat_natCast, hAll, accepted_whole (by rwa [length_intBytes]),
    accepted_whole (by rwa [length_flatMap_intBytes]), frame]

theorem whole_of_deliveryBytes {t : ProcessingThread} {sys : Syscalls}
    (h : t.deliveryBytes sys = frame t.deletedList) :
    t.deletedList.length < 2 ^ 31 ∧ 4 ≤ (sys.writeCount 4).toNat ∧
      t.deletedList.length * 4 ≤ (sys.writeValues (t.deletedList.length * 4)).toNat := by
  have hLength := congrArg List.length h
  have hRange := Int32.toInt_lt (Int32.ofNat t.deletedList.length)
  rw [length_frame] at hLength
  simp only [deliveryBytes, accepted, List.length_append, List.length_take, length_intBytes,
    length_flatMap_intBytes] at hLength
  have hAll : min ((Int32.ofNat t.deletedList.length).toInt.toNat * 4) (t.deletedList.length * 4) =
      t.deletedList.length * 4 := by omega
  rw [hAll] at hLength
  omega

theorem keepsUnsent_of_not_due {t : ProcessingThread}
    (h : ¬t.labelDeliverySize < Int32.ofNat t.deletedList.length) (sys : Syscalls) :
    KeepsUnsent t sys := by
  rw [KeepsUnsent, doPossibleBatchDelivery_of_not_due h]
  refine ⟨rfl, (if_neg fun hEq => ?_).symm⟩
  have hLength := congrArg List.length hEq
  rw [length_frame, List.length_nil] at hLength
  omega

theorem keepsUnsent_iff_of_due {t : ProcessingThread}
    (h : t.labelDeliverySize < Int32.ofNat t.deletedList.length) (sys : Syscalls) :
    KeepsUnsent t sys ↔ t.deletedList = [] ∨ t.deliveryBytes sys = frame t.deletedList := by
  rw [KeepsUnsent, doPossibleBatchDelivery_of_due h]
  simp only [List.append_nil, true_and]
  split
  · next hWhole => exact iff_of_true rfl (.inr hWhole)
  · next hWhole => rw [or_iff_left hWhole]

section Run

variable {t : ProcessingThread} {before : Events} {msg : ReceivedMessage} {sys : Syscalls}

theorem processAll_concat (t : ProcessingThread) (before : Events) (msg : ReceivedMessage)
    (sys : Syscalls) :
    (t.processAll (before ++ [(msg, sys)])).1.deletedList =
        ((((t.processAll before).1.released msg).1).doPossibleBatchDelivery sys).1.deletedList ∧
      wire (t.processAll (before ++ [(msg, sys)])).2 = wire (t.processAll before).2 ++
        ((((t.processAll before).1.released msg).1).doPossibleBatchDelivery sys).2.2 ∧
      deliveredAll (t.processAll (before ++ [(msg, sys)])).2 = deliveredAll (t.processAll before).2 ++
        ((((t.processAll before).1.released msg).1).doPossibleBatchDelivery sys).2.1 := by
  rw [processAll_append, wire_append, deliveredAll_append]
  simp only [processAll, wire_singleton, deliveredAll_singleton, processMessage_eq, and_true]
  exact (reportProgress_keeps _ sys).2.2.1

def StreamWhole (outputs : List Output) : Prop :=
  ∃ frames : List (List Int32), wire outputs = frames.flatMap frame ∧
    frames.flatten = deliveredAll outputs ∧ ∀ values ∈ frames, values.length < 2 ^ 31

theorem StreamWhole.step (h : StreamWhole (t.processAll before).2)
    (hWrites : WritesWhole ((t.processAll before).1.released msg).1 sys) :
    KeepsUnsent ((t.processAll before).1.released msg).1 sys ∧
      StreamWhole (t.processAll (before ++ [(msg, sys)])).2 := by
  obtain ⟨frames, hWire, hFlatten, hSizes⟩ := h
  obtain ⟨-, hStream, hDelivered⟩ := processAll_concat t before msg sys
  generalize ((t.processAll before).1.released msg).1 = s at hWrites hStream hDelivered ⊢
  by_cases hDue : s.labelDeliverySize < Int32.ofNat s.deletedList.length
  · rw [doPossibleBatchDelivery_of_due hDue] at hStream hDelivered
    rw [keepsUnsent_iff_of_due hDue]
    obtain ⟨hFits, hCount, hValues⟩ | ⟨hEmpty, hRefused⟩ := hWrites hDue
    · have hWhole := deliveryBytes_whole hFits hCount hValues
      refine ⟨.inr hWhole, frames ++ [s.deletedList], ?_, ?_, ?_⟩
      · rw [hStream, hWire, hWhole, List.flatMap_append, List.flatMap_singleton]
      · rw [hDelivered, List.flatten_concat, hFlatten]
      · exact List.forall_mem_append.mpr ⟨hSizes, by simpa using hFits⟩
    · have hBytes : s.deliveryBytes sys = [] := by
        rw [← List.length_eq_zero_iff, deliveryBytes_of_empty hEmpty, hRefused]
        rfl
      refine ⟨.inl hEmpty, frames, ?_, ?_, hSizes⟩
      · rw [hStream, hBytes, List.append_nil, hWire]
      · rw [hDelivered, hEmpty, List.append_nil, hFlatten]
  · rw [doPossibleBatchDelivery_of_not_due hDue] at hStream hDelivered
    exact ⟨keepsUnsent_of_not_due hDue sys, frames, by rw [hStream, List.append_nil, hWire],
      by rw [hDelivered, List.append_nil, hFlatten], hSizes⟩

theorem StreamWhole.writesWhole (h : StreamWhole (t.processAll before).2)
    (hKeeps : KeepsUnsent ((t.processAll before).1.released msg).1 sys)
    (hParse : Parseable (t.processAll (before ++ [(msg, sys)])).1
      (t.processAll (before ++ [(msg, sys)])).2) :
    WritesWhole ((t.processAll before).1.released msg).1 sys := by
  obtain ⟨frames, hWire, hFlatten, -⟩ := h
  obtain ⟨frames', front, pending, hWire', hFlatten', -, hFront⟩ := hParse
  obtain ⟨hCleared, hStream, hDelivered⟩ := processAll_concat t before msg sys
  generalize ((t.processAll before).1.released msg).1 = s at *
  intro hDue
  rw [doPossibleBatchDelivery_of_due hDue] at hCleared hStream hDelivered
  obtain hEmpty | hWhole := (keepsUnsent_iff_of_due hDue sys).mp hKeeps
  · -- A count that is cut leaves a length that no frames have.
    have hNoFront : front = [] := by
      obtain hFront | ⟨hPending, hPrefix, -⟩ := hFront
      · exact hFront
      · rw [hCleared] at hPrefix
        exact absurd (List.prefix_nil.mp hPrefix) hPending
    have hLength := congrArg List.length (hStream.symm.trans hWire')
    rw [hWire, List.length_append, deliveryBytes_of_empty hEmpty, hNoFront, List.append_nil,
      length_frames, length_frames, hFlatten, hFlatten', hDelivered, hEmpty, List.append_nil]
      at hLength
    have hCount : (sys.writeCount 4).toNat = 0 ∨ 4 ≤ (sys.writeCount 4).toNat := by omega
    obtain hRefused | hCount := hCount
    · exact .inr ⟨hEmpty, hRefused⟩
    · rw [hEmpty]
      exact .inl ⟨by decide, hCount, by simp⟩
  · exact .inl (whole_of_deliveryBytes hWhole)

theorem streamWhole_run (h : AllWritesWhole t before) : StreamWhole (t.processAll before).2 := by
  induction before using List.reverseRecOn with
  | nil => exact ⟨[], rfl, rfl, nofun⟩
  | append_singleton before event ih =>
    obtain ⟨hFront, hLast⟩ := stepwise_concat.mp h
    exact ((ih hFront).step hLast).2

end Run

theorem deliveriesKept_iff (t : ProcessingThread) (events : Events) :
    DeliveriesKept t events ↔ AllWritesWhole t events := by
  induction events using List.reverseRecOn with
  | nil => exact iff_of_true stepwise_nil stepwise_nil
  | append_singleton events event ih =>
    obtain ⟨msg, sys⟩ := event
    rw [DeliveriesKept, AllWritesWhole, stepwise_concat, stepwise_concat]
    refine Iff.trans (and_congr_left fun _ => ih) (and_congr_right fun hWrites => ?_)
    have hStream := streamWhole_run hWrites
    constructor
    · rintro ⟨hKeeps, hParse⟩
      exact hStream.writesWhole hKeeps hParse
    · intro hWhole
      obtain ⟨hKeeps, frames, hWire, hFlatten, hSizes⟩ := hStream.step hWhole
      exact ⟨hKeeps, frames, [], [], by rw [List.append_nil, hWire], hFlatten, hSizes, .inl rfl⟩

/-- Both writes fail, and the one value is gone. -/
theorem not_deliveriesKept :
    ¬DeliveriesKept (start 1 1 0) [(⟨1, 5, [⟨3, 7⟩]⟩, ⟨fun _ => -1, fun _ => -1, 0⟩)] := by
  intro h
  have hKeeps := (h [] _ [] rfl).1
  revert hKeeps
  unfold KeepsUnsent
  decide

end CStabilizer.ProcessingThread
