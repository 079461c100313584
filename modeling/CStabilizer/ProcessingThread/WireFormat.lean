import CStabilizer.Library.Codes
import CStabilizer.ProcessingThread.Delivery

/-! # What the label receiver can read off

A frame is the number of its values and the values, four bytes each. The stream
determines the frames, however they were cut by the delivery size. -/

namespace CStabilizer.ProcessingThread

open Library.Codes Library.Splits

theorem intBytes_injective : Function.Injective intBytes := by
  intro m n h
  apply Int32.toBitVec_inj.mp
  apply BitVec.eq_of_getLsbD_eq
  intro i hi
  have hByte : m.toBitVec.extractLsb' (8 * (i / 8)) 8 = n.toBitVec.extractLsb' (8 * (i / 8)) 8 := by
    have hEq := congrArg (fun bytes => bytes[i / 8]?) h
    simpa [intBytes, show i / 8 < 4 by omega] using hEq
  have hBit := congrArg (fun byte => byte.getLsbD (i % 8)) hByte
  simpa [BitVec.getLsbD_extractLsb', Nat.mod_lt, Nat.div_add_mod] using hBit

theorem delimits_intBytes : Delimits Set.univ intBytes :=
  delimits_of_length (fun n _ => length_intBytes n) (intBytes_injective.injOn)

theorem delimits_count : Delimits (Set.Iio (2 ^ 31)) fun n => intBytes (Int32.ofNat n) := by
  refine delimits_of_length (fun n _ => length_intBytes _) ?_
  intro m hm n hn hEq
  have hInt := congrArg Int32.toInt (intBytes_injective hEq)
  rw [Int32.toInt_ofNat_of_lt hm, Int32.toInt_ofNat_of_lt hn] at hInt
  exact Int.ofNat.inj hInt

theorem delimits_frame : Delimits {values : List Int32 | values.length < 2 ^ 31} frame := by
  have h := delimits_intBytes.counted delimits_count
  simp only [Set.mem_univ, implies_true, and_true] at h
  exact h

/-- Bytes that are the front part of another run's stream carry the front part of its values. -/
theorem wire_determines_delivery {count count' deleteThreshold deleteThreshold' batchSize batchSize' : Int32}
    {events events' : Events} (hSize : 0 ≤ batchSize) (hSize' : 0 ≤ batchSize')
    (hWrites : ∀ event ∈ events, FullWrites event.2) (hWrites' : ∀ event ∈ events', FullWrites event.2)
    (hFits : DeletedListFits (start count deleteThreshold batchSize) events)
    (hFits' : DeletedListFits (start count' deleteThreshold' batchSize') events')
    (hFront : wire ((start count deleteThreshold batchSize).processAll events).2 <+:
      wire ((start count' deleteThreshold' batchSize').processAll events').2) :
    deliveredAll ((start count deleteThreshold batchSize).processAll events).2 <+:
      deliveredAll ((start count' deleteThreshold' batchSize').processAll events').2 := by
  obtain ⟨frames, h⟩ := delivered_run hSize events hWrites hFits
  obtain ⟨frames', h'⟩ := delivered_run hSize' events' hWrites' hFits'
  rw [h.stream, h'.stream] at hFront
  obtain ⟨rest, rfl⟩ := delimits_frame.front (fun values hValues => (h.sizes values hValues).2)
    (fun values hValues => (h'.sizes values hValues).2) hFront
  rw [← h.payload, ← h'.payload, List.flatten_append]
  exact List.prefix_append ..

def firstEvent : ReceivedMessage × Syscalls :=
  (⟨7, 5, [⟨3, 30⟩, ⟨9, 90⟩, ⟨2, -1⟩]⟩, ⟨fun n => n, fun n => n, 0⟩)

def secondEvent : ReceivedMessage × Syscalls := (⟨7, 20, [⟨11, 1⟩]⟩, ⟨fun n => n, fun n => n, 0⟩)

theorem wire_determines_delivery_longer :
    deliveredAll ((start 0 100 1).processAll [firstEvent]).2 <+:
      deliveredAll ((start 0 7 1).processAll [firstEvent, secondEvent]).2 := by
  have hFirst : ∀ event ∈ [firstEvent], FullWrites event.2 :=
    fun event hEvent => List.mem_singleton.mp hEvent ▸ ⟨fun _ => rfl, fun _ => rfl⟩
  have hWrites : ∀ event ∈ [firstEvent, secondEvent], FullWrites event.2 := by
    intro event hEvent
    obtain rfl | hEvent := List.mem_cons.mp hEvent
    · exact ⟨fun _ => rfl, fun _ => rfl⟩
    · exact List.mem_singleton.mp hEvent ▸ ⟨fun _ => rfl, fun _ => rfl⟩
  have hFits : DeletedListFits (start 0 7 1) ([firstEvent] ++ [secondEvent]) :=
    stepwise_concat.mpr ⟨stepwise_singleton.mpr (by decide), by decide⟩
  exact wire_determines_delivery (by decide) (by decide) hFirst hWrites
    (stepwise_singleton.mpr (by decide)) hFits (by decide)

end CStabilizer.ProcessingThread
