import CStabilizer.Library.CString
import CStabilizer.Library.Memory

/-! # Receive buffers

`ClientData` of `Data.cpp`: a block of memory that holds the received bytes and a
null byte behind them. -/

namespace CStabilizer

open CStabilizer.Library.CString CStabilizer.Library.Memory

/-- What the code does not check, and what happens when it fails. -/
inductive Fault where
  -- `_zData[_iLen - 2]` is not in the chunk
  | chunkIndex
  -- `pData[l_iPayLoadLength - 1]` is not in the buffer's contents
  | frameEnd
  -- More bytes are deleted than there are, or less than none
  | deleteFromStart
  -- The array for the payload has no element
  | payloadSize
  -- An access leaves its block of memory
  | memory
  -- A length exceeds the range of `int`
  | overflow
  -- A vector of tokens is shorter than the code assumes
  | token
deriving DecidableEq, Repr

def orFault {α : Type} (fault : Fault) : Option α → Except Fault α
  | some x => .ok x
  | none => .error fault

def intMax : Nat := 2 ^ 31 - 1

def initNormBufLen : Nat := 2097152

def incUnitLen : Nat := 2048

structure ClientData where
  data : Bytes
  currentLen : Nat
  maxDataLen : Nat
  stepLen : Nat

namespace ClientData

def create (alloc : Allocator UInt8) (initBufLen incLen : Nat) : Except Fault ClientData :=
  if intMax < initBufLen + 1 then .error .overflow
  else orFault .memory do
    let data ← write (alloc.block (initBufLen + 1)) 0 [0]
    return { data, currentLen := 0, maxDataLen := initBufLen, stepLen := incLen }

/-- What `create` makes with the default lengths. -/
def init (alloc : Allocator UInt8) : ClientData where
  data := (alloc.block (initNormBufLen + 1)).set 0 0
  currentLen := 0
  maxDataLen := initNormBufLen
  stepLen := incUnitLen

def append (alloc : Allocator UInt8) (d : ClientData) (buffer : Bytes) (bufLen : Nat) :
    Except Fault ClientData :=
  let totalLen := d.currentLen + bufLen
  if intMax < totalLen then .error .overflow
  else if d.maxDataLen < totalLen then
    let maxDataLen := totalLen + d.stepLen
    if intMax < maxDataLen + 1 then .error .overflow
    else orFault .memory do
      let kept ← read d.data 0 d.currentLen
      let data ← write (alloc.block (maxDataLen + 1)) 0 kept
      let bytes ← read buffer 0 bufLen
      let data ← write data d.currentLen bytes
      let data ← write data totalLen [0]
      return { d with data, currentLen := totalLen, maxDataLen }
  else orFault .memory do
    let bytes ← read buffer 0 bufLen
    let data ← write d.data d.currentLen bytes
    let data ← write data totalLen [0]
    return { d with data, currentLen := totalLen }

def deleteFromStart (d : ClientData) (delLen : Int) : Except Fault ClientData :=
  if 0 ≤ delLen ∧ delLen ≤ d.currentLen then orFault .memory do
    let currentLen := d.currentLen - delLen.toNat
    let moved ← read d.data delLen.toNat currentLen
    let data ← write d.data 0 moved
    let data ← write data currentLen [0]
    return { d with data, currentLen }
  else .error .deleteFromStart

def resetData (d : ClientData) : ClientData := { d with data := d.data.set 0 0, currentLen := 0 }

def contents (d : ClientData) : Bytes := d.data.take d.currentLen

/-- The buffer fills its block, the byte behind the contents is null. -/
structure WellFormed (d : ClientData) : Prop where
  block : d.data.length = d.maxDataLen + 1
  current : d.currentLen ≤ d.maxDataLen
  terminated : d.data[d.currentLen]? = some 0

structure Valid (d : ClientData) : Prop extends WellFormed d where
  room : initNormBufLen ≤ d.maxDataLen
  step : d.stepLen = incUnitLen

variable {d : ClientData}

/-- Operations that shrink no block and leave the step length keep a buffer valid. -/
theorem Valid.of_wellFormed (h : d.Valid) {d' : ClientData} (hForm : d'.WellFormed)
    (hMax : d.maxDataLen ≤ d'.maxDataLen) (hStep : d'.stepLen = d.stepLen) : d'.Valid where
  toWellFormed := hForm
  room := h.room.trans hMax
  step := hStep.trans h.step

theorem set_null {data : Bytes} {n : Nat} (h : data.length = n + 1) :
    write data 0 [0] = some (data.set 0 0) ∧ (data.set 0 0)[0]? = some 0 := by
  obtain ⟨x, rest, rfl⟩ := List.exists_cons_of_length_eq_add_one h
  exact ⟨if_pos (by simp), rfl⟩

theorem create_eq (alloc : Allocator UInt8) {initBufLen : Nat} (incLen : Nat)
    (h : initBufLen + 1 ≤ intMax) :
    create alloc initBufLen incLen =
      .ok ⟨(alloc.block (initBufLen + 1)).set 0 0, 0, initBufLen, incLen⟩ := by
  rw [create, if_neg (Nat.not_lt.mpr h), (set_null (alloc.length (initBufLen + 1))).1]
  rfl

theorem create_init (alloc : Allocator UInt8) :
    create alloc initNormBufLen incUnitLen = .ok (init alloc) :=
  create_eq alloc incUnitLen (by decide)

theorem wellFormed_create (alloc : Allocator UInt8) (initBufLen incLen : Nat) :
    WellFormed ⟨(alloc.block (initBufLen + 1)).set 0 0, 0, initBufLen, incLen⟩ where
  block := by rw [List.length_set, alloc.length]
  current := Nat.zero_le _
  terminated := (set_null (alloc.length (initBufLen + 1))).2

theorem valid_init (alloc : Allocator UInt8) : (init alloc).Valid where
  toWellFormed := wellFormed_create alloc initNormBufLen incUnitLen
  room := Nat.le_refl _
  step := rfl

theorem WellFormed.resetData (h : d.WellFormed) : d.resetData.WellFormed where
  block := (List.length_set).trans h.block
  current := Nat.zero_le _
  terminated := (set_null h.block).2

theorem Valid.resetData (h : d.Valid) : d.resetData.Valid :=
  h.of_wellFormed h.toWellFormed.resetData (Nat.le_refl _) rfl

@[simp] theorem contents_resetData : d.resetData.contents = [] := List.take_zero

theorem WellFormed.length_contents (h : d.WellFormed) : d.contents.length = d.currentLen :=
  List.length_take_of_le (by rw [h.block]; exact Nat.le_succ_of_le h.current)

theorem WellFormed.read_contents (h : d.WellFormed) {n : Nat} (hn : n ≤ d.currentLen) :
    read d.data 0 n = some (d.contents.take n) := by
  have hCurrent := h.current
  rw [read_eq _ _ _ (by rw [h.block]; omega), List.drop_zero, contents, List.take_take,
    Nat.min_eq_left hn]

theorem WellFormed.contents_zero (h : d.WellFormed) :
    d.data.take (d.currentLen + 1) = d.contents ++ [0] := by
  rw [List.take_add_one, h.terminated]
  rfl

theorem write_behind {data s : Bytes} (bytes : Bytes) {off maxDataLen : Nat} (stepLen : Nat)
    (hBlock : data.length = maxDataLen + 1) (hOff : s.length = off) (hTake : data.take off = s)
    (hFits : off + bytes.length ≤ maxDataLen) :
    ∃ data' data'', write data off bytes = some data' ∧
      write data' (off + bytes.length) [0] = some data'' ∧
      WellFormed ⟨data'', off + bytes.length, maxDataLen, stepLen⟩ ∧
      contents ⟨data'', off + bytes.length, maxDataLen, stepLen⟩ = s ++ bytes := by
  obtain ⟨data', hWrite, hLength, hTake'⟩ := write_eq data off bytes (by omega)
  obtain ⟨data'', hWrite', hLength', hTake''⟩ := write_eq data' (off + bytes.length) [0]
    (by rw [List.length_singleton]; omega)
  rw [hTake', hTake] at hTake''
  have hTotal : (s ++ bytes).length = off + bytes.length := by rw [List.length_append, hOff]
  have hContents : data''.take (off + bytes.length) = s ++ bytes := by
    have hPrefix := congrArg (List.take (off + bytes.length)) hTake''
    rwa [List.take_take, Nat.min_eq_left (Nat.le_add_right ..), List.take_left' hTotal] at hPrefix
  have hZero : data''[off + bytes.length]? = some 0 := by
    have hGet := congrArg (fun l => l[off + bytes.length]?) hTake''
    simpa [List.getElem?_take, ← hTotal] using hGet
  exact ⟨data', data'', hWrite, hWrite',
    ⟨hLength'.trans (hLength.trans hBlock), hFits, hZero⟩, hContents⟩

/-- Whether the lengths that `Append` computes for a chunk are within the range of `int`. -/
def InRange (d : ClientData) (n : Nat) : Prop :=
  d.currentLen + n ≤ intMax ∧
    (d.maxDataLen < d.currentLen + n → d.currentLen + n + d.stepLen + 1 ≤ intMax)

instance instDecidableInRange (n : Nat) : Decidable (d.InRange n) :=
  inferInstanceAs (Decidable (_ ∧ (_ → _)))

/-- Whether a chunk can be appended within the range of `int`. -/
def Fits (d : ClientData) (n : Nat) : Prop :=
  d.currentLen + n ≤ intMax ∧
    (d.maxDataLen < d.currentLen + n → d.currentLen + n + incUnitLen + 1 ≤ intMax)

theorem Valid.inRange_iff (h : d.Valid) {n : Nat} : d.InRange n ↔ d.Fits n := by
  rw [InRange, h.step, Fits]

/-- A new buffer takes any chunk that is no longer than itself. -/
theorem fits_init (alloc : Allocator UInt8) {n : Nat} (hn : n ≤ initNormBufLen) :
    (init alloc).Fits n := by
  have hMax : initNormBufLen ≤ intMax := by decide
  have hCurrent : (init alloc).currentLen + n ≤ (init alloc).maxDataLen := (Nat.zero_add n).symm ▸ hn
  exact ⟨hCurrent.trans hMax, fun hGrow => absurd hGrow (Nat.not_lt.mpr hCurrent)⟩

theorem WellFormed.append (alloc : Allocator UInt8) (h : d.WellFormed) {buffer : Bytes}
    {bufLen : Nat} (hBuffer : bufLen ≤ buffer.length) (hRange : d.InRange bufLen) :
    ∃ d', d.append alloc buffer bufLen = .ok d' ∧ d'.WellFormed ∧
      d'.contents = d.contents ++ buffer.take bufLen ∧
      d.maxDataLen ≤ d'.maxDataLen ∧ d'.stepLen = d.stepLen := by
  have hLen := h.length_contents
  have hBytes : (buffer.take bufLen).length = bufLen := List.length_take_of_le hBuffer
  have hReadBuffer : read buffer 0 bufLen = some (buffer.take bufLen) :=
    read_eq _ _ _ (by omega)
  have hCurrent := h.current
  have hTotal := hRange.1
  obtain hGrow | hRoom := Nat.lt_or_ge d.maxDataLen (d.currentLen + bufLen)
  · have hMax := hRange.2 hGrow
    have hReadKept : read d.data 0 d.currentLen = some d.contents := by
      rw [h.read_contents (Nat.le_refl _), List.take_of_length_le (Nat.le_of_eq hLen)]
    have hNew := alloc.length (d.currentLen + bufLen + d.stepLen + 1)
    obtain ⟨data, hWrite, hLength, hTake⟩ :=
      write_eq (alloc.block (d.currentLen + bufLen + d.stepLen + 1)) 0 d.contents (by omega)
    rw [Nat.zero_add, List.take_zero, List.nil_append, hLen] at hTake
    obtain ⟨data', data'', hWrite', hWrite'', hForm, hContents⟩ :=
      write_behind (buffer.take bufLen) d.stepLen (hLength.trans hNew) hLen hTake (by omega)
    rw [hBytes] at hWrite'' hForm hContents
    refine ⟨_, ?_, hForm, hContents, ?_, rfl⟩
    · rw [ClientData.append]
      rw [if_neg (Nat.not_lt.mpr hTotal), if_pos hGrow, if_neg (Nat.not_lt.mpr hMax)]
      simp [hReadKept, hWrite, hReadBuffer, hWrite', hWrite'', orFault]
    · exact hGrow.le.trans (Nat.le_add_right _ d.stepLen)
  · obtain ⟨data', data'', hWrite', hWrite'', hForm, hContents⟩ :=
      write_behind (buffer.take bufLen) d.stepLen h.block hLen rfl (by omega)
    rw [hBytes] at hWrite'' hForm hContents
    refine ⟨_, ?_, hForm, hContents, Nat.le_refl _, rfl⟩
    rw [ClientData.append, if_neg (Nat.not_lt.mpr hTotal), if_neg (Nat.not_lt.mpr hRoom)]
    simp [hReadBuffer, hWrite', hWrite'', orFault]

theorem Valid.append (alloc : Allocator UInt8) (h : d.Valid) {buffer : Bytes} {bufLen : Nat}
    (hBuffer : bufLen ≤ buffer.length) (hFits : d.Fits bufLen) :
    ∃ d', d.append alloc buffer bufLen = .ok d' ∧ d'.Valid ∧
      d'.contents = d.contents ++ buffer.take bufLen := by
  obtain ⟨d', hAppend, hForm, hContents, hMax, hStep⟩ :=
    h.toWellFormed.append alloc hBuffer (h.inRange_iff.mpr hFits)
  exact ⟨d', hAppend, h.of_wellFormed hForm hMax hStep, hContents⟩

theorem append_overflow (alloc : Allocator UInt8) (buffer : Bytes) {bufLen : Nat}
    (hRange : ¬d.InRange bufLen) : d.append alloc buffer bufLen = .error .overflow := by
  rw [ClientData.append]
  obtain hTotal | hTotal := Nat.lt_or_ge intMax (d.currentLen + bufLen)
  · rw [if_pos hTotal]
  · have hGrow : d.maxDataLen < d.currentLen + bufLen := by
      by_contra hRoom
      exact hRange ⟨hTotal, fun h => absurd h hRoom⟩
    have hMax : intMax < d.currentLen + bufLen + d.stepLen + 1 := by
      by_contra hMax
      exact hRange ⟨hTotal, fun _ => Nat.not_lt.mp hMax⟩
    rw [if_neg (Nat.not_lt.mpr hTotal), if_pos hGrow, if_pos hMax]

theorem Valid.append_overflow (alloc : Allocator UInt8) (h : d.Valid) (buffer : Bytes)
    {bufLen : Nat} (hFits : ¬d.Fits bufLen) : d.append alloc buffer bufLen = .error .overflow :=
  ClientData.append_overflow alloc buffer (h.inRange_iff.not.mpr hFits)

theorem Valid.of_append (alloc : Allocator UInt8) (h : d.Valid) {d' : ClientData} {buffer : Bytes}
    (hAppend : d.append alloc buffer buffer.length = .ok d') :
    d.Fits buffer.length ∧ d'.Valid ∧ d'.contents = d.contents ++ buffer := by
  have hFits : d.Fits buffer.length := by
    by_contra hFits
    rw [h.append_overflow alloc buffer hFits] at hAppend
    cases hAppend
  obtain ⟨d'', hAppend', hValid, hContents⟩ := h.append alloc (Nat.le_refl _) hFits
  obtain rfl := Except.ok.inj (hAppend'.symm.trans hAppend)
  exact ⟨hFits, hValid, by rw [hContents, List.take_length]⟩

theorem deleteFromStart_error {delLen : Int} (h : d.currentLen < delLen) :
    d.deleteFromStart delLen = .error .deleteFromStart :=
  if_neg fun hRange => absurd hRange.2 (Int.not_le.mpr h)

theorem WellFormed.deleteFromStart (h : d.WellFormed) {k : Nat} (hk : k ≤ d.currentLen) :
    ∃ d', d.deleteFromStart k = .ok d' ∧ d'.WellFormed ∧ d'.contents = d.contents.drop k ∧
      d'.maxDataLen = d.maxDataLen ∧ d'.stepLen = d.stepLen := by
  have hCurrent := h.current
  have hRead : read d.data k (d.currentLen - k) = some (d.contents.drop k) := by
    rw [read_eq _ _ _ (by rw [h.block]; omega), contents, List.drop_take]
  have hMoved : (d.contents.drop k).length = d.currentLen - k := by
    rw [List.length_drop, h.length_contents]
  obtain ⟨data', data'', hWrite', hWrite'', hForm, hContents⟩ :=
    write_behind (d.contents.drop k) d.stepLen h.block List.length_nil List.take_zero (by omega)
  rw [hMoved, Nat.zero_add] at hWrite'' hForm hContents
  refine ⟨_, ?_, hForm, hContents, rfl, rfl⟩
  rw [ClientData.deleteFromStart, if_pos (by omega)]
  simp [hRead, hWrite', hWrite'', orFault]

theorem Valid.deleteFromStart (h : d.Valid) {k : Nat} (hk : k ≤ d.currentLen) :
    ∃ d', d.deleteFromStart k = .ok d' ∧ d'.Valid ∧ d'.contents = d.contents.drop k := by
  obtain ⟨d', hDelete, hForm, hContents, hMax, hStep⟩ := h.toWellFormed.deleteFromStart hk
  exact ⟨d', hDelete, h.of_wellFormed hForm hMax.ge hStep, hContents⟩

end ClientData

end CStabilizer
