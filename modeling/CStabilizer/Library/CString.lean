import Mathlib

/-! # Strings of the C library

Memory from a pointer on is a list of bytes, and the string there ends before the
first null byte. The readers of numbers and of tokens follow the C standard for
the "C" locale, with 64-bit `long` and 32-bit `int`. -/

namespace CStabilizer.Library.CString

abbrev Bytes := List UInt8

def cstring (memory : Bytes) : Bytes := memory.takeWhile (· ≠ 0)

theorem cstring_append (s t : Bytes) :
    cstring (s ++ t) = cstring s ∨ cstring s = s ∧ cstring (s ++ t) = s ++ cstring t := by
  by_cases hWhole : (cstring s).length = s.length
  · exact .inr ⟨(List.takeWhile_prefix _).eq_of_length hWhole,
      List.takeWhile_append.trans (if_pos hWhole)⟩
  · exact .inl (List.takeWhile_append.trans (if_neg hWhole))

theorem cstring_append_zero {s : Bytes} (h : 0 ∉ s) (rest : Bytes) :
    cstring (s ++ 0 :: rest) = s := by
  rw [cstring, List.takeWhile_append_of_pos]
  · simp
  · intro c hc
    have hNe : c ≠ 0 := fun hZero => h (hZero ▸ hc)
    simpa using hNe

theorem mem_cstring {s : Bytes} {c : UInt8} (h : 0 ∉ s) (hc : c ≠ 0) (rest : Bytes) :
    c ∈ cstring (s ++ c :: rest) := by
  rw [cstring, List.takeWhile_append_of_pos, List.takeWhile_cons_of_pos (by simpa using hc)]
  · exact List.mem_append_right _ List.mem_cons_self
  · intro x hx
    have hNe : x ≠ 0 := fun hZero => h (hZero ▸ hx)
    simpa using hNe

def isspace (c : UInt8) : Bool := c = 32 ∨ 9 ≤ c ∧ c ≤ 13

def digitValue (c : UInt8) : Nat :=
  if 48 ≤ c ∧ c ≤ 57 then c.toNat - 48
  else if 65 ≤ c ∧ c ≤ 90 then c.toNat - 55
  else if 97 ≤ c ∧ c ≤ 122 then c.toNat - 87
  else 36

def readDigits (base : Nat) : Bytes → Nat → Nat
  | [], acc => acc
  | c :: s, acc => if digitValue c < base then readDigits base s (acc * base + digitValue c) else acc

def readSign : Bytes → Bool × Bytes
  | [] => (false, [])
  | c :: s => if c = '-'.toUInt8 then (true, s) else if c = '+'.toUInt8 then (false, s)
    else (false, c :: s)

/-- `strtol` in base 10. -/
def strtol (s : Bytes) : Int :=
  let sign := readSign (s.dropWhile isspace)
  let n := readDigits 10 sign.2 0
  if sign.1 then max (-n) (-2 ^ 63) else min n (2 ^ 63 - 1)

theorem readDigits_append_zero {base : Nat} (hBase : base ≤ 36) (s rest : Bytes) (acc : Nat) :
    readDigits base (s ++ 0 :: rest) acc = readDigits base s acc := by
  induction s generalizing acc with
  | nil => exact if_neg (Nat.not_lt.mpr hBase)
  | cons c s ih => rw [List.cons_append, readDigits, readDigits, ih]

theorem dropWhile_isspace_append_zero (s rest : Bytes) :
    (s ++ 0 :: rest).dropWhile isspace = s.dropWhile isspace ++ 0 :: rest := by
  have hZero : isspace 0 = false := by decide
  induction s with
  | nil => rw [List.nil_append, List.dropWhile_cons_of_neg (by simp [hZero])]; rfl
  | cons c s ih =>
    rw [List.cons_append, List.dropWhile_cons, List.dropWhile_cons, ih]
    split <;> rfl

theorem readSign_append_zero (s rest : Bytes) :
    readSign (s ++ 0 :: rest) = ((readSign s).1, (readSign s).2 ++ 0 :: rest) := by
  cases s with
  | nil => rfl
  | cons c s =>
    simp only [List.cons_append, readSign]
    split
    · rfl
    · split <;> rfl

theorem strtol_append_zero (s rest : Bytes) : strtol (s ++ 0 :: rest) = strtol s := by
  simp only [strtol, dropWhile_isspace_append_zero, readSign_append_zero,
    readDigits_append_zero (show 10 ≤ 36 by omega)]

theorem readDigits_lt {base : Nat} (hBase : 0 < base) (s : Bytes) (acc : Nat) :
    readDigits base s acc < (acc + 1) * base ^ s.length := by
  induction s generalizing acc with
  | nil => exact Nat.lt_of_lt_of_eq (Nat.lt_succ_self acc) (Nat.mul_one _).symm
  | cons c s ih =>
    rw [readDigits]
    split
    · next hDigit =>
      have hStep : acc * base + digitValue c + 1 ≤ (acc + 1) * base := by
        rw [Nat.add_mul]
        omega
      calc readDigits base s (acc * base + digitValue c)
        _ < (acc * base + digitValue c + 1) * base ^ s.length := ih _
        _ ≤ (acc + 1) * base * base ^ s.length := Nat.mul_le_mul_right _ hStep
        _ = (acc + 1) * base ^ (c :: s).length := by
          rw [List.length_cons, Nat.pow_succ', Nat.mul_assoc]
    · exact Nat.lt_of_lt_of_le (Nat.lt_succ_self acc)
        (Nat.le_mul_of_pos_right _ (Nat.pow_pos hBase))

theorem length_readSign_le (s : Bytes) : (readSign s).2.length ≤ s.length := by
  cases s with
  | nil => exact Nat.le_refl _
  | cons c s =>
    rw [readSign]
    split
    · exact Nat.le_succ _
    · split
      · exact Nat.le_succ _
      · exact Nat.le_refl _

/-- The value of a numeral has at most as many digits as the numeral has bytes. -/
theorem strtol_bounds (s : Bytes) : -10 ^ s.length < strtol s ∧ strtol s < 10 ^ s.length := by
  have hRead := readDigits_lt (show 0 < 10 by decide) (readSign (s.dropWhile isspace)).2 0
  have hLength := (length_readSign_le (s.dropWhile isspace)).trans
    (List.dropWhile_suffix isspace).length_le
  have hPow := Nat.pow_le_pow_right (show 0 < 10 by decide) hLength
  have hLt : readDigits 10 (readSign (s.dropWhile isspace)).2 0 < 10 ^ s.length := by omega
  have hCast : ((10 ^ s.length : Nat) : Int) = 10 ^ s.length := by norm_cast
  rw [← hCast, strtol]
  split
  · omega
  · omega

def atoi (s : Bytes) : Int32 := Int32.ofInt (strtol s)

theorem toInt_atoi {s : Bytes} (h : s.length ≤ 9) : (atoi s).toInt = strtol s := by
  have hBounds := strtol_bounds s
  have hPow := Nat.pow_le_pow_right (show 0 < 10 by decide) h
  have hCast : ((10 ^ s.length : Nat) : Int) = 10 ^ s.length := by norm_cast
  rw [atoi, Int32.toInt_ofInt_of_le (by omega) (by omega)]

theorem atoi_append_zero (s rest : Bytes) : atoi (s ++ 0 :: rest) = atoi s := by
  rw [atoi, strtol_append_zero, atoi]

def readPrefixed (s : Bytes) : Nat :=
  match s with
  | c :: x :: d :: rest =>
    if c = '0'.toUInt8 ∧ (x = 'x'.toUInt8 ∨ x = 'X'.toUInt8) ∧ digitValue d < 16 then
      readDigits 16 (d :: rest) 0
    else if c = '0'.toUInt8 then readDigits 8 s 0 else readDigits 10 s 0
  | c :: _ => if c = '0'.toUInt8 then readDigits 8 s 0 else readDigits 10 s 0
  | [] => 0

theorem readPrefixed_of_ne {c : UInt8} (h : c ≠ '0'.toUInt8) (s : Bytes) :
    readPrefixed (c :: s) = readDigits 10 (c :: s) 0 := by
  obtain _ | ⟨x, _ | ⟨d, s⟩⟩ := s
  · rw [readPrefixed, if_neg h]
    nofun
  · rw [readPrefixed, if_neg h]
    nofun
  · rw [readPrefixed, if_neg fun hPrefix => h hPrefix.1, if_neg h]

/-- `strtoul` in base 0. -/
def strtoul (s : Bytes) : UInt64 :=
  let sign := readSign (s.dropWhile isspace)
  let n := readPrefixed sign.2
  if 2 ^ 64 ≤ n then .ofNat (2 ^ 64 - 1) else if sign.1 then 0 - .ofNat n else .ofNat n

/-- The first token of a string and what is left behind its delimiter. -/
def strtok (delim : UInt8) (s : Bytes) : Option (Bytes × Bytes) :=
  match s.dropWhile (· = delim) with
  | [] => none
  | c :: s => some (c :: s.takeWhile (· ≠ delim), (s.dropWhile (· ≠ delim)).drop 1)

theorem strtok_length {delim : UInt8} {s token rest : Bytes}
    (h : strtok delim s = some (token, rest)) : rest.length < s.length := by
  have hSkip := List.length_dropWhile_le (p := fun c => decide (c = delim)) s
  unfold strtok at h
  cases hStart : s.dropWhile (· = delim) with
  | nil =>
    rw [hStart] at h
    cases h
  | cons c tail =>
    rw [hStart] at h hSkip
    have hTail := List.length_dropWhile_le (p := fun c => decide (c ≠ delim)) tail
    obtain ⟨-, rfl⟩ := Prod.mk.inj (Option.some.inj h)
    rw [List.length_cons] at hSkip
    rw [List.length_drop]
    omega

/-- All tokens of a string: `strtok` on the string and then on null until it finds no more. -/
def strtokAll (delim : UInt8) (s : Bytes) : List Bytes :=
  match h : strtok delim s with
  | none => []
  | some (token, rest) =>
    have := strtok_length h
    token :: strtokAll delim rest
termination_by s.length

theorem strtokAll_nil (delim : UInt8) : strtokAll delim [] = [] := by
  rw [strtokAll]
  rfl

theorem strtok_cons {delim c : UInt8} (h : c ≠ delim) (s : Bytes) : strtok delim (c :: s) =
    some (c :: s.takeWhile (· ≠ delim), (s.dropWhile (· ≠ delim)).drop 1) := by
  rw [strtok, List.dropWhile_cons_of_neg (by simpa using h)]

theorem strtok_token_delim {delim : UInt8} {token : Bytes} (hNonempty : token ≠ [])
    (hDelim : delim ∉ token) (rest : Bytes) :
    strtok delim (token ++ delim :: rest) = some (token, rest) := by
  obtain ⟨c, s, rfl⟩ := List.exists_cons_of_ne_nil hNonempty
  have hFirst : c ≠ delim := fun h => hDelim (h ▸ List.mem_cons_self)
  have hTail : ∀ x ∈ s, decide (x ≠ delim) = true := fun x hx =>
    decide_eq_true fun h => hDelim (h ▸ List.mem_cons_of_mem c hx)
  rw [List.cons_append, strtok_cons hFirst, List.takeWhile_append_of_pos hTail,
    List.dropWhile_append_of_pos hTail]
  simp

theorem strtok_token {delim : UInt8} {token : Bytes} (hNonempty : token ≠ [])
    (hDelim : delim ∉ token) : strtok delim token = some (token, []) := by
  obtain ⟨c, s, rfl⟩ := List.exists_cons_of_ne_nil hNonempty
  have hFirst : c ≠ delim := fun h => hDelim (h ▸ List.mem_cons_self)
  have hTail : ∀ x ∈ s, decide (x ≠ delim) = true := fun x hx =>
    decide_eq_true fun h => hDelim (h ▸ List.mem_cons_of_mem c hx)
  rw [strtok_cons hFirst, List.takeWhile_eq_self_iff.mpr hTail, List.dropWhile_eq_nil_iff.mpr hTail]
  rfl

theorem strtokAll_of_strtok {delim : UInt8} {s token rest : Bytes}
    (h : strtok delim s = some (token, rest)) :
    strtokAll delim s = token :: strtokAll delim rest := by
  rw [strtokAll]
  split
  · next hNone => cases hNone.symm.trans h
  · next hSome =>
    cases hSome.symm.trans h
    rfl

theorem strtokAll_intercalate {delim : UInt8} {tokens : List Bytes}
    (hNonempty : ∀ token ∈ tokens, token ≠ []) (hDelim : ∀ token ∈ tokens, delim ∉ token) :
    strtokAll delim ([delim].intercalate tokens) = tokens := by
  induction tokens with
  | nil => exact strtokAll_nil delim
  | cons token tokens ih =>
    have hToken := hNonempty token List.mem_cons_self
    have hFree := hDelim token List.mem_cons_self
    have hRest := ih (fun t ht => hNonempty t (List.mem_cons_of_mem _ ht))
      (fun t ht => hDelim t (List.mem_cons_of_mem _ ht))
    cases tokens with
    | nil =>
      rw [List.intercalate_singleton, strtokAll_of_strtok (strtok_token hToken hFree),
        strtokAll_nil]
    | cons token' tokens =>
      rw [List.intercalate_cons_cons, List.append_assoc, List.singleton_append,
        strtokAll_of_strtok (strtok_token_delim hToken hFree _), hRest]

/-- The non-empty pieces of a string between its delimiters. -/
def fields (delim : UInt8) (s : Bytes) : List Bytes := (s.splitOn delim).filter (· ≠ [])

theorem fields_nil (delim : UInt8) : fields delim [] = [] := rfl

theorem fields_delim (delim : UInt8) (s : Bytes) : fields delim (delim :: s) = fields delim s := by
  rw [fields, List.splitOn_cons_eq_if_modifyHead, if_pos (BEq.refl _)]
  rfl

theorem fields_dropWhile (delim : UInt8) (s : Bytes) :
    fields delim (s.dropWhile (· = delim)) = fields delim s := by
  induction s with
  | nil => rfl
  | cons c s ih =>
    rw [List.dropWhile_cons]
    split
    · next h => rw [ih, of_decide_eq_true h, fields_delim]
    · rfl

theorem fields_cons {delim c : UInt8} (h : c ≠ delim) (s : Bytes) :
    fields delim (c :: s) =
      (c :: s.takeWhile (· ≠ delim)) :: fields delim ((s.dropWhile (· ≠ delim)).drop 1) := by
  have hFree : delim ∉ c :: s.takeWhile (· ≠ delim) := by
    rintro (_ | ⟨_, hMem⟩)
    · exact h rfl
    · have hTake := List.mem_takeWhile_imp hMem
      simp at hTake
  have hSplit := List.takeWhile_append_dropWhile (p := fun x => decide (x ≠ delim)) (l := s)
  cases hRest : s.dropWhile (fun x => decide (x ≠ delim)) with
  | nil =>
    rw [hRest, List.append_nil] at hSplit
    rw [hSplit] at hFree ⊢
    rw [fields, List.splitOn_eq_singleton hFree]
    rfl
  | cons x rest =>
    have hDelim : x = delim := by
      have hHead := List.head?_dropWhile_not (fun x => decide (x ≠ delim)) s
      rw [hRest] at hHead
      simpa using hHead
    subst hDelim
    rw [hRest] at hSplit
    conv_lhs => rw [← hSplit]
    rw [← List.cons_append, fields, List.splitOn_append_cons_self_of_not_mem hFree]
    rfl

theorem strtokAll_eq_fields (delim : UInt8) (s : Bytes) : strtokAll delim s = fields delim s := by
  induction hn : s.length using Nat.strongRecOn generalizing s with
  | ind n ih =>
    rw [← fields_dropWhile]
    cases hStart : s.dropWhile (· = delim) with
    | nil =>
      rw [fields_nil, strtokAll]
      split
      · rfl
      · next h =>
        rw [strtok, hStart] at h
        cases h
    | cons c rest =>
      have hFirst : c ≠ delim := by
        have hHead := List.head?_dropWhile_not (fun x => decide (x = delim)) s
        rw [hStart] at hHead
        simpa using hHead
      have hTok : strtok delim s =
          some (c :: rest.takeWhile (· ≠ delim), (rest.dropWhile (· ≠ delim)).drop 1) := by
        rw [strtok, hStart]
      rw [fields_cons hFirst, strtokAll_of_strtok hTok, ih _ (hn ▸ strtok_length hTok) _ rfl]

end CStabilizer.Library.CString
