import Mathlib

/-! # Linear orders of the fixed-width integers

`UInt64` and `Int32` carry decidable comparisons but no bundled order.
Both instances reuse the core comparisons, so they decide as before. -/

namespace CStabilizer.Library.MachineOrder

instance linearOrderUInt64 : LinearOrder UInt64 where
  le_refl _ := UInt64.le_refl _
  le_trans _ _ _ := UInt64.le_trans
  lt_iff_le_not_ge a b := by
    rw [UInt64.lt_iff_toNat_lt, UInt64.le_iff_toNat_le, UInt64.le_iff_toNat_le]
    omega
  le_antisymm _ _ := UInt64.le_antisymm
  le_total := UInt64.le_total
  toDecidableLE := UInt64.decLe
  toDecidableLT := UInt64.decLt
  toDecidableEq := instDecidableEqUInt64

instance linearOrderInt32 : LinearOrder Int32 where
  le_refl _ := Int32.le_refl _
  le_trans _ _ _ := Int32.le_trans
  lt_iff_le_not_ge a b := by
    rw [Int32.lt_iff_toInt_lt, Int32.le_iff_toInt_le, Int32.le_iff_toInt_le]
    omega
  le_antisymm _ _ := Int32.le_antisymm
  le_total := Int32.le_total
  toDecidableLE := fun a b => Int32.decLe a b
  toDecidableLT := fun a b => Int32.decLt a b
  toDecidableEq := instDecidableEqInt32

end CStabilizer.Library.MachineOrder
