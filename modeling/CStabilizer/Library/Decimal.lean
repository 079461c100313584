import CStabilizer.Library.CString

/-! # Decimal numerals

Numbers as they are written without superfluous zeros, with a minus sign where
they are negative, or padded with zeros to a width. The C readers read every one
of them back. -/

namespace CStabilizer.Library.Decimal

open CStabilizer.Library.CString

def digitByte (d : Nat) : UInt8 := .ofNat (48 + d)

def decimal (n : Nat) : Bytes := (Nat.toDigits 10 n).map fun c => c.toUInt8

def zeroPadded (width n : Nat) : Bytes :=
  List.replicate (width - (decimal n).length) (digitByte 0) ++ decimal n

def intDecimal (i : Int) : Bytes := if i < 0 then '-'.toUInt8 :: decimal i.natAbs else decimal i.natAbs

theorem toUInt8_digitChar {d : Nat} (h : d < 10) : (Nat.digitChar d).toUInt8 = digitByte d := by
  interval_cases d <;> rfl

theorem decimal_of_lt {n : Nat} (h : n < 10) : decimal n = [digitByte n] := by
  rw [decimal, Nat.toDigits_of_lt_base h, List.map_singleton, toUInt8_digitChar h]

theorem decimal_of_le {n : Nat} (h : 10 ≤ n) :
    decimal n = decimal (n / 10) ++ [digitByte (n % 10)] := by
  rw [decimal, Nat.toDigits_eq_if (by omega), if_neg (by omega), List.map_append,
    List.map_singleton, toUInt8_digitChar (Nat.mod_lt _ (by omega))]
  rfl

theorem decimal_induction {motive : Nat → Prop} (single : ∀ n < 10, motive n)
    (append : ∀ n, 10 ≤ n → motive (n / 10) → motive n) (n : Nat) : motive n := by
  induction n using Nat.strongRecOn with
  | ind n ih =>
    obtain h | h := Nat.lt_or_ge n 10
    · exact single n h
    · exact append n h (ih (n / 10) (by omega))

theorem digitValue_digitByte {d : Nat} (h : d < 10) : digitValue (digitByte d) = d := by
  interval_cases d <;> rfl

theorem decimal_digits (n : Nat) : ∀ c ∈ decimal n, ∃ d < 10, c = digitByte d := by
  induction n using decimal_induction with
  | single n h =>
    rw [decimal_of_lt h]
    rintro c hc
    exact ⟨n, h, List.mem_singleton.mp hc⟩
  | append n h ih =>
    rw [decimal_of_le h]
    intro c hc
    cases List.mem_append.mp hc with
    | inl hc => exact ih c hc
    | inr hc => exact ⟨n % 10, Nat.mod_lt _ (by omega), List.mem_singleton.mp hc⟩

theorem decimal_head (n : Nat) :
    ∃ d s, d < 10 ∧ decimal n = digitByte d :: s ∧ (d = 0 → n = 0 ∧ s = []) := by
  induction n using decimal_induction with
  | single n h => exact ⟨n, [], h, decimal_of_lt h, fun hZero => ⟨hZero, rfl⟩⟩
  | append n h ih =>
    obtain ⟨d, s, hd, hEq, hZero⟩ := ih
    refine ⟨d, s ++ [digitByte (n % 10)], hd, by rw [decimal_of_le h, hEq, List.cons_append], ?_⟩
    intro hd0
    have := (hZero hd0).1
    omega

theorem decimal_ne_nil (n : Nat) : decimal n ≠ [] := by
  obtain ⟨d, s, -, h, -⟩ := decimal_head n
  rw [h]
  exact List.cons_ne_nil _ _

theorem decimal_length_le {n k : Nat} (h : n < 10 ^ (k + 1)) : (decimal n).length ≤ k + 1 := by
  induction k generalizing n with
  | zero => rw [decimal_of_lt (by omega), List.length_singleton]
  | succ k ih =>
    obtain hSmall | hLarge := Nat.lt_or_ge n 10
    · rw [decimal_of_lt hSmall, List.length_singleton]
      omega
    · have hQuotient : n / 10 < 10 ^ (k + 1) := by
        rw [Nat.pow_succ] at h
        omega
      rw [decimal_of_le hLarge, List.length_append, List.length_singleton]
      exact Nat.succ_le_succ (ih hQuotient)

theorem length_zeroPadded {n k : Nat} (h : n < 10 ^ (k + 1)) :
    (zeroPadded (k + 1) n).length = k + 1 := by
  have hLength := decimal_length_le h
  rw [zeroPadded, List.length_append, List.length_replicate]
  omega

theorem readDigits_digitByte {base d acc : Nat} (hd : d < 10) (hBase : d < base) (s : Bytes) :
    readDigits base (digitByte d :: s) acc = readDigits base s (acc * base + d) := by
  rw [readDigits, digitValue_digitByte hd, if_pos hBase]

theorem readDigits_append {l : Bytes} (h : ∀ c ∈ l, ∃ d < 10, c = digitByte d) (s : Bytes)
    (acc : Nat) : readDigits 10 (l ++ s) acc = readDigits 10 s (readDigits 10 l acc) := by
  induction l generalizing acc with
  | nil => rfl
  | cons c l ih =>
    obtain ⟨d, hd, rfl⟩ := h c List.mem_cons_self
    rw [List.cons_append, readDigits_digitByte hd hd, readDigits_digitByte hd hd,
      ih fun c hc => h c (List.mem_cons_of_mem _ hc)]

theorem readDigits_decimal (n : Nat) : readDigits 10 (decimal n) 0 = n := by
  induction n using decimal_induction with
  | single n h =>
    rw [decimal_of_lt h, readDigits_digitByte h h, readDigits]
    omega
  | append n h ih =>
    have hDigit : n % 10 < 10 := Nat.mod_lt _ (by omega)
    rw [decimal_of_le h, readDigits_append (decimal_digits _), ih, readDigits_digitByte hDigit hDigit,
      readDigits]
    omega

theorem readDigits_zeroPadded (width n : Nat) : readDigits 10 (zeroPadded width n) 0 = n := by
  have hZeros : ∀ k, readDigits 10 (List.replicate k (digitByte 0) ++ decimal n) 0 = n := by
    intro k
    induction k with
    | zero => exact readDigits_decimal n
    | succ k ih =>
      rw [List.replicate_succ, List.cons_append, readDigits_digitByte (by omega) (by omega)]
      exact ih
  exact hZeros _

theorem digitByte_range {d : Nat} (h : d < 10) : 48 ≤ digitByte d ∧ digitByte d ≤ 57 := by
  interval_cases d <;> decide

theorem mem_decimal_range {n : Nat} {c : UInt8} (h : c ∈ decimal n) : 48 ≤ c ∧ c ≤ 57 := by
  obtain ⟨d, hd, rfl⟩ := decimal_digits n c h
  exact digitByte_range hd

theorem mem_intDecimal_range {i : Int} {c : UInt8} (h : c ∈ intDecimal i) :
    c = '-'.toUInt8 ∨ 48 ≤ c ∧ c ≤ 57 := by
  unfold intDecimal at h
  split at h
  · exact (List.mem_cons.mp h).imp_right mem_decimal_range
  · exact .inr (mem_decimal_range h)

theorem not_mem_decimal {c : UInt8} (h : ¬(48 ≤ c ∧ c ≤ 57)) (n : Nat) : c ∉ decimal n :=
  fun hc => h (mem_decimal_range hc)

theorem not_mem_intDecimal {c : UInt8} (h : ¬(c = '-'.toUInt8 ∨ 48 ≤ c ∧ c ≤ 57)) (i : Int) :
    c ∉ intDecimal i :=
  fun hc => h (mem_intDecimal_range hc)

theorem intDecimal_ne_nil (i : Int) : intDecimal i ≠ [] := by
  unfold intDecimal
  split
  · exact List.cons_ne_nil _ _
  · exact decimal_ne_nil _

theorem mem_zeroPadded {width n : Nat} {c : UInt8} (h : c ∈ zeroPadded width n) :
    ∃ d < 10, c = digitByte d := by
  cases List.mem_append.mp h with
  | inl h => exact ⟨0, by omega, List.eq_of_mem_replicate h⟩
  | inr h => exact decimal_digits n c h

theorem not_mem_zeroPadded {c : UInt8} (h : ¬(48 ≤ c ∧ c ≤ 57)) (width n : Nat) :
    c ∉ zeroPadded width n := by
  intro hc
  obtain ⟨d, hd, rfl⟩ := mem_zeroPadded hc
  exact h (digitByte_range hd)

theorem isspace_digitByte {d : Nat} (h : d < 10) : isspace (digitByte d) = false := by
  interval_cases d <;> decide

theorem readSign_digitByte {d : Nat} (h : d < 10) (s : Bytes) :
    readSign (digitByte d :: s) = (false, digitByte d :: s) := by
  have hMinus : digitByte d ≠ '-'.toUInt8 := by interval_cases d <;> decide
  have hPlus : digitByte d ≠ '+'.toUInt8 := by interval_cases d <;> decide
  rw [readSign, if_neg hMinus, if_neg hPlus]

theorem strtol_digits {l : Bytes} (hDigits : ∀ c ∈ l, ∃ d < 10, c = digitByte d)
    (hNonempty : l ≠ []) (hRange : readDigits 10 l 0 < 2 ^ 63) :
    strtol l = readDigits 10 l 0 := by
  obtain ⟨c, s, rfl⟩ := List.exists_cons_of_ne_nil hNonempty
  obtain ⟨d, hd, rfl⟩ := hDigits c List.mem_cons_self
  have hSign : readSign ((digitByte d :: s).dropWhile isspace) = (false, digitByte d :: s) := by
    rw [List.dropWhile_cons_of_neg (by simp [isspace_digitByte hd]), readSign_digitByte hd]
  simp only [strtol, hSign, Bool.false_eq_true, if_false]
  omega

theorem strtol_decimal {n : Nat} (h : n < 2 ^ 63) : strtol (decimal n) = n := by
  have hStrtol := strtol_digits (decimal_digits n) (decimal_ne_nil n) (by rwa [readDigits_decimal])
  rwa [readDigits_decimal] at hStrtol

theorem strtol_intDecimal {i : Int} (h : i.natAbs < 2 ^ 63) : strtol (intDecimal i) = i := by
  unfold intDecimal
  split
  · have hSpace : isspace '-'.toUInt8 = false := by decide
    have hSign : readSign (('-'.toUInt8 :: decimal i.natAbs).dropWhile isspace) =
        (true, decimal i.natAbs) := by
      rw [List.dropWhile_cons_of_neg (by simp [hSpace]), readSign, if_pos rfl]
    simp only [strtol, hSign, readDigits_decimal, if_true]
    omega
  · rw [strtol_decimal h]
    omega

theorem atoi_intDecimal (i : Int32) : atoi (intDecimal i.toInt) = i := by
  have hLower := Int32.le_toInt i
  have hUpper := Int32.toInt_lt i
  rw [atoi, strtol_intDecimal (by omega), Int32.ofInt_toInt]

theorem toInt_atoi_zeroPadded {width n : Nat} (h : n < 2 ^ 31) :
    (atoi (zeroPadded width n)).toInt = n := by
  have hNonempty : zeroPadded width n ≠ [] :=
    List.append_ne_nil_of_right_ne_nil _ (decimal_ne_nil n)
  have hStrtol := strtol_digits (fun c => mem_zeroPadded) hNonempty
    (by rw [readDigits_zeroPadded]; omega)
  rw [readDigits_zeroPadded] at hStrtol
  rw [atoi, hStrtol, Int32.toInt_ofInt_of_le (by omega) (by omega)]

theorem readPrefixed_decimal (n : Nat) : readPrefixed (decimal n) = n := by
  obtain ⟨d, s, hd, hEq, hZero⟩ := decimal_head n
  obtain rfl | hPos := Nat.eq_zero_or_pos d
  · obtain ⟨rfl, rfl⟩ := hZero rfl
    rfl
  · have hNe : digitByte d ≠ '0'.toUInt8 := by
      interval_cases d <;> decide
    rw [hEq, readPrefixed_of_ne hNe, ← hEq, readDigits_decimal]

theorem strtoul_decimal (n : UInt64) : strtoul (decimal n.toNat) = n := by
  obtain ⟨d, s, hd, hEq, -⟩ := decimal_head n.toNat
  have hRange := n.toNat_lt
  have hDigits : readSign ((decimal n.toNat).dropWhile isspace) = (false, decimal n.toNat) := by
    rw [hEq, List.dropWhile_cons_of_neg (by simp [isspace_digitByte hd]), readSign_digitByte hd]
  simp only [strtoul, hDigits, readPrefixed_decimal, Bool.false_eq_true, if_false]
  rw [if_neg (by omega), UInt64.ofNat_toNat]

end CStabilizer.Library.Decimal
