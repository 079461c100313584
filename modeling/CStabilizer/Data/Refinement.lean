import CStabilizer.Data
import CStabilizer.Library.Machine

/-! # Receive buffers as lists of bytes

A history of `Append`, `DeleteFromStart` and `ResetData` on a buffer of any capacity and
step length, beside the same history of a list of bytes. -/

namespace CStabilizer.ClientData

open CStabilizer.Library CStabilizer.Library.CString CStabilizer.Library.Memory

inductive Operation where
  | append (bytes : Bytes)
  | deleteFromStart (delLen : Int)
  | resetData

/-- The list of bytes that a buffer stands for. -/
def Operation.apply (s : Bytes) : Operation → Bytes
  | .append bytes => s ++ bytes
  | .deleteFromStart delLen => s.drop delLen.toNat
  | .resetData => []

def perform (alloc : Allocator UInt8) (d : ClientData) : Operation → Except Fault ClientData
  | .append bytes => d.append alloc bytes bytes.length
  | .deleteFromStart delLen => d.deleteFromStart delLen
  -- `ResetData` writes the first cell, which must be there
  | .resetData => if 0 < d.data.length then .ok d.resetData else .error .memory

def history (alloc : Allocator UInt8) (d : ClientData) : Machine ClientData Operation where
  init := d
  step := fun d operation => (d.perform alloc operation).toOption

/-- A delete is of bytes that are there, and no length leaves the range of `int`. -/
def Permitted (d : ClientData) : Operation → Prop
  | .append bytes => d.InRange bytes.length
  | .deleteFromStart delLen => 0 ≤ delLen ∧ delLen ≤ d.currentLen
  | .resetData => True

instance instDecidablePermitted (d : ClientData) (operation : Operation) :
    Decidable (d.Permitted operation) :=
  match operation with
  | .append bytes => inferInstanceAs (Decidable (d.InRange bytes.length))
  | .deleteFromStart delLen => inferInstanceAs (Decidable (0 ≤ delLen ∧ delLen ≤ d.currentLen))
  | .resetData => inferInstanceAs (Decidable True)

/-- The same without the lengths of the blocks. -/
def TotalPermitted (d : ClientData) : Operation → Prop
  | .append bytes => d.currentLen + bytes.length ≤ intMax
  | .deleteFromStart delLen => 0 ≤ delLen ∧ delLen ≤ d.currentLen
  | .resetData => True

structure Represents (d : ClientData) (s : Bytes) : Prop extends WellFormed d where
  contents : d.data.take d.currentLen = s

variable {alloc : Allocator UInt8} {d : ClientData} {s : Bytes}

theorem Represents.perform (h : d.Represents s) {operation : Operation}
    (hPermitted : d.Permitted operation) :
    ∃ d', d.perform alloc operation = .ok d' ∧ d'.Represents (operation.apply s) := by
  cases operation with
  | append bytes =>
    obtain ⟨d', hAppend, hForm, hContents, -⟩ :=
      h.toWellFormed.append alloc (Nat.le_refl bytes.length) hPermitted
    rw [List.take_length] at hContents
    exact ⟨d', hAppend, hForm, hContents.trans (congrArg (· ++ bytes) h.contents)⟩
  | deleteFromStart delLen =>
    obtain ⟨hNonneg, hCurrent⟩ := hPermitted
    obtain ⟨k, rfl⟩ := Int.eq_ofNat_of_zero_le hNonneg
    obtain ⟨d', hDelete, hForm, hContents, -⟩ :=
      h.toWellFormed.deleteFromStart (Int.ofNat_le.mp hCurrent)
    exact ⟨d', hDelete, hForm, hContents.trans (congrArg (List.drop k) h.contents)⟩
  | resetData =>
    have hBlock := h.block
    exact ⟨d.resetData, if_pos (by omega), h.toWellFormed.resetData, contents_resetData⟩

/-- The permitted operations are those that run without a fault. -/
theorem Represents.perform_ok_iff (h : d.Represents s) {operation : Operation} :
    (∃ d', d.perform alloc operation = .ok d') ↔ d.Permitted operation := by
  constructor
  · rintro ⟨d', hPerform⟩
    by_contra hPermitted
    cases operation with
    | append bytes =>
      rw [ClientData.perform, append_overflow alloc bytes hPermitted] at hPerform
      cases hPerform
    | deleteFromStart delLen =>
      have hRefused : d.deleteFromStart delLen = .error .deleteFromStart := if_neg hPermitted
      rw [ClientData.perform, hRefused] at hPerform
      cases hPerform
    | resetData => exact hPermitted trivial
  · intro hPermitted
    obtain ⟨d', hPerform, -⟩ := h.perform hPermitted
    exact ⟨d', hPerform⟩

theorem history_represents (alloc : Allocator UInt8) {initBufLen : Nat} (incLen : Nat)
    (hCapacity : initBufLen + 1 ≤ intMax) :
    ∃ d₀, create alloc initBufLen incLen = .ok d₀ ∧
      ∀ operations, (history alloc d₀).Meets Permitted operations →
        ∃ d, (history alloc d₀).run operations = some d ∧
          d.Represents (operations.foldl Operation.apply []) := by
  refine ⟨_, create_eq alloc incLen hCapacity, ?_⟩
  intro operations hMeets
  apply hMeets.simulation
  · exact ⟨wellFormed_create alloc initBufLen incLen, List.take_zero⟩
  · intro d s operation hRepresents hPermitted
    obtain ⟨d', hPerform, hRepresents'⟩ := hRepresents.perform hPermitted
    exact ⟨d', congrArg Except.toOption hPerform, hRepresents'⟩

/-- The second chunk moves the buffer to a block of six cells, the third fills that block. -/
theorem history_represents_grown :
    ∃ d, (history (.filled 7) ⟨[0, 7, 7], 0, 2, 1⟩).run
        [.append [8], .resetData, .append [1, 2], .append [3, 4], .deleteFromStart 1,
          .append [5, 6]] = some d ∧ d.Represents [2, 3, 4, 5, 6] := by
  obtain ⟨d₀, hCreate, hHistory⟩ := history_represents (.filled 7) 1 (by decide : 2 + 1 ≤ intMax)
  obtain rfl : ⟨[0, 7, 7], 0, 2, 1⟩ = d₀ := Except.ok.inj hCreate
  exact hHistory _ (Machine.meets_of_check Permitted (by decide))

/-- One byte on a buffer without room, of the longest step: the new capacity leaves the range
of `int`, the length does not. -/
theorem not_history_represents :
    ¬∀ (alloc : Allocator UInt8) (initBufLen incLen : Nat), initBufLen ≤ intMax → incLen ≤ intMax →
      ∃ d₀, create alloc initBufLen incLen = .ok d₀ ∧
        ∀ operations, (history alloc d₀).Meets TotalPermitted operations →
          ∃ d, (history alloc d₀).run operations = some d ∧
            d.Represents (operations.foldl Operation.apply []) := by
  intro hRepresents
  obtain ⟨d₀, hCreate, hHistory⟩ := hRepresents (.filled 7) 0 intMax (Nat.zero_le _) (Nat.le_refl _)
  obtain rfl : ⟨[0], 0, 0, intMax⟩ = d₀ := Except.ok.inj hCreate
  have hMeets : (history (.filled 7) ⟨[0], 0, 0, intMax⟩).Meets TotalPermitted [.append [1]] := by
    refine Splits.stepwise_singleton.mpr fun s hRun => ?_
    cases hRun
    exact (by decide : 0 + 1 ≤ intMax)
  obtain ⟨d, hRun, -⟩ := hHistory _ hMeets
  cases hRun

end CStabilizer.ClientData
