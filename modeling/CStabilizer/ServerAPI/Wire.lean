import CStabilizer.Library.Decimal
import CStabilizer.ServerAPI.Frames

/-! # The wire format

A frame is `L=`, its own length in eight digits, the partition, the heartbeat and
the labels, and `#`. The receiver reads back every message that is written so. -/

namespace CStabilizer.ServerAPI

open CStabilizer.Library.CString CStabilizer.Library.Decimal

def encodeLabel (label : Label) : Bytes :=
  [':'.toUInt8].intercalate [decimal label.timestamp.toNat, intDecimal label.value.toInt]

def encodeLabels (labels : List Label) : Bytes := [';'.toUInt8].intercalate (labels.map encodeLabel)

def payload (message : ReceivedMessage) : Bytes :=
  ['|'.toUInt8].intercalate [intDecimal message.partionId.toInt, decimal message.heartbeat.toNat,
    encodeLabels message.labels]

def frameLength (message : ReceivedMessage) : Nat := (payload message).length + 12

def header (message : ReceivedMessage) : Bytes :=
  'L'.toUInt8 :: '='.toUInt8 :: (zeroPadded payloadSize (frameLength message) ++ ['|'.toUInt8])

def encode (message : ReceivedMessage) : Bytes :=
  header message ++ payload message ++ ['#'.toUInt8]

/-- The messages that the format can carry: some label, and a length of at most eight digits. -/
structure Encodable (message : ReceivedMessage) : Prop where
  labels : message.labels ≠ []
  length : frameLength message ≤ 99999999

theorem mem_intercalate {d c : UInt8} {fields : List Bytes} (h : c ∈ [d].intercalate fields) :
    c = d ∨ ∃ field ∈ fields, c ∈ field := by
  induction fields with
  | nil => cases h
  | cons field fields ih =>
    cases fields with
    | nil => exact .inr ⟨field, List.mem_cons_self, by rwa [List.intercalate_singleton] at h⟩
    | cons field' fields =>
      rw [List.intercalate_cons_cons, List.mem_append, List.mem_append, List.mem_singleton] at h
      obtain (h | h) | h := h
      · exact .inr ⟨field, List.mem_cons_self, h⟩
      · exact .inl h
      · obtain h | ⟨field'', hMem, h⟩ := ih h
        · exact .inl h
        · exact .inr ⟨field'', List.mem_cons_of_mem _ hMem, h⟩

theorem not_mem_encodeLabel {c : UInt8} (hDigit : ¬(c = '-'.toUInt8 ∨ 48 ≤ c ∧ c ≤ 57))
    (hColon : c ≠ ':'.toUInt8) (label : Label) : c ∉ encodeLabel label := by
  intro hc
  obtain hc | ⟨field, hField, hc⟩ := mem_intercalate hc
  · exact hColon hc
  · simp only [List.mem_cons, List.not_mem_nil, or_false] at hField
    obtain rfl | rfl := hField
    · exact not_mem_decimal (fun h => hDigit (.inr h)) _ hc
    · exact not_mem_intDecimal hDigit _ hc

theorem not_mem_encodeLabels {c : UInt8} (hDigit : ¬(c = '-'.toUInt8 ∨ 48 ≤ c ∧ c ≤ 57))
    (hColon : c ≠ ':'.toUInt8) (hSemicolon : c ≠ ';'.toUInt8) (labels : List Label) :
    c ∉ encodeLabels labels := by
  intro hc
  obtain hc | ⟨field, hField, hc⟩ := mem_intercalate hc
  · exact hSemicolon hc
  · obtain ⟨label, -, rfl⟩ := List.mem_map.mp hField
    exact not_mem_encodeLabel hDigit hColon label hc

theorem not_mem_payload {c : UInt8} (hDigit : ¬(c = '-'.toUInt8 ∨ 48 ≤ c ∧ c ≤ 57))
    (hColon : c ≠ ':'.toUInt8) (hSemicolon : c ≠ ';'.toUInt8) (hPipe : c ≠ '|'.toUInt8)
    (message : ReceivedMessage) : c ∉ payload message := by
  intro hc
  obtain hc | ⟨field, hField, hc⟩ := mem_intercalate hc
  · exact hPipe hc
  · simp only [List.mem_cons, List.not_mem_nil, or_false] at hField
    obtain rfl | rfl | rfl := hField
    · exact not_mem_intDecimal hDigit _ hc
    · exact not_mem_decimal (fun h => hDigit (.inr h)) _ hc
    · exact not_mem_encodeLabels hDigit hColon hSemicolon _ hc

theorem encodeLabel_ne_nil (label : Label) : encodeLabel label ≠ [] := by
  rw [encodeLabel, List.intercalate_cons_cons, List.append_assoc]
  exact List.append_ne_nil_of_left_ne_nil (decimal_ne_nil _) _

theorem encodeLabels_ne_nil {labels : List Label} (h : labels ≠ []) : encodeLabels labels ≠ [] := by
  obtain ⟨label, labels, rfl⟩ := List.exists_cons_of_ne_nil h
  cases labels with
  | nil =>
    rw [encodeLabels, List.map_singleton, List.intercalate_singleton]
    exact encodeLabel_ne_nil label
  | cons label' labels =>
    rw [encodeLabels, List.map_cons, List.map_cons, List.intercalate_cons_cons, List.append_assoc]
    exact List.append_ne_nil_of_left_ne_nil (encodeLabel_ne_nil label) _

theorem processedLabel_encodeLabel (label : Label) :
    processedLabel (encodeLabel label) = some label := by
  have hTokens : strtokAll ':'.toUInt8 (encodeLabel label) =
      [decimal label.timestamp.toNat, intDecimal label.value.toInt] := by
    apply strtokAll_intercalate
    · simp [decimal_ne_nil, intDecimal_ne_nil]
    · intro token hToken
      simp only [List.mem_cons, List.not_mem_nil, or_false] at hToken
      obtain rfl | rfl := hToken
      · exact not_mem_decimal (by decide) _
      · exact not_mem_intDecimal (by decide) _
  simp [processedLabel, hTokens, strtoul_decimal, atoi_intDecimal]

theorem mapM_processedLabel (labels : List Label) :
    (labels.map encodeLabel).mapM processedLabel = some labels := by
  induction labels with
  | nil => rfl
  | cons label labels ih =>
    rw [List.map_cons, List.mapM_cons, processedLabel_encodeLabel, ih]
    rfl

/-- The three passes over the payload, with three readers of numbers, undo its encoding. -/
theorem processedSocketData_payload {message : ReceivedMessage} (h : Encodable message) :
    processedSocketData (payload message ++ [0]) = some message := by
  have hString : cstring (payload message ++ [0]) = payload message :=
    cstring_append_zero (not_mem_payload (by decide) (by decide) (by decide) (by decide) _) []
  have hFields : strtokAll '|'.toUInt8 (payload message) =
      [intDecimal message.partionId.toInt, decimal message.heartbeat.toNat,
        encodeLabels message.labels] := by
    apply strtokAll_intercalate
    · simp [decimal_ne_nil, intDecimal_ne_nil, encodeLabels_ne_nil h.labels]
    · intro token hToken
      simp only [List.mem_cons, List.not_mem_nil, or_false] at hToken
      obtain rfl | rfl | rfl := hToken
      · exact not_mem_intDecimal (by decide) _
      · exact not_mem_decimal (by decide) _
      · exact not_mem_encodeLabels (by decide) (by decide) (by decide) _
  have hTokens : strtokAll ';'.toUInt8 (encodeLabels message.labels) =
      message.labels.map encodeLabel := by
    apply strtokAll_intercalate
    · rintro token hToken
      obtain ⟨label, -, rfl⟩ := List.mem_map.mp hToken
      exact encodeLabel_ne_nil label
    · rintro token hToken
      obtain ⟨label, -, rfl⟩ := List.mem_map.mp hToken
      exact not_mem_encodeLabel (by decide) (by decide) label
  have hLabels : (strtokAll ';'.toUInt8 (encodeLabels message.labels)).mapM processedLabel =
      some message.labels := by
    rw [hTokens, mapM_processedLabel]
  simp [processedSocketData, hString, hFields, hLabels, strtoul_decimal, atoi_intDecimal]

theorem length_padded {message : ReceivedMessage} (h : Encodable message) :
    (zeroPadded payloadSize (frameLength message)).length = 8 := by
  have hLength := h.length
  exact length_zeroPadded (k := 7) (by omega)

theorem length_header {message : ReceivedMessage} (h : Encodable message) :
    (header message).length = 11 := by
  simp [header, length_padded h]

theorem length_encode {message : ReceivedMessage} (h : Encodable message) :
    (encode message).length = frameLength message := by
  rw [encode, List.length_append, List.length_append, length_header h, frameLength,
    List.length_singleton]
  omega

theorem announced_header {message : ReceivedMessage} (h : Encodable message) (rest : Bytes) :
    announced (header message ++ rest) = frameLength message := by
  have hLength := h.length
  have hPipe : '|'.toUInt8 ∈ cstring (header message ++ rest) := by
    have hFront : (0 : UInt8) ∉
        'L'.toUInt8 :: '='.toUInt8 :: zeroPadded payloadSize (frameLength message) := by
      simp only [List.mem_cons, not_or]
      exact ⟨by decide, by decide, not_mem_zeroPadded (by decide) _ _⟩
    have hMem := mem_cstring hFront (c := '|'.toUInt8) (by decide) rest
    simpa [header] using hMem
  have hDigits : ((header message ++ rest).drop 2).take payloadSize =
      zeroPadded payloadSize (frameLength message) := by
    rw [header, List.cons_append, List.cons_append, List.drop_succ_cons, List.drop_succ_cons,
      List.drop_zero, List.append_assoc, 
      List.take_left' (show _ = payloadSize from length_padded h)]
  rw [announced, if_pos ⟨rfl, hPipe⟩, hDigits, toInt_atoi_zeroPadded (by omega)]

theorem firstFrame_encode {message : ReceivedMessage} (h : Encodable message) (rest : Bytes) :
    firstFrame (encode message ++ rest) = .ok (some (message, rest)) := by
  have hHeader := length_header h
  have hEncode := length_encode h
  have hMin : 12 ≤ frameLength message := Nat.le_add_left ..
  have hAnnounced : announced (encode message ++ rest) = frameLength message := by
    rw [encode, List.append_assoc, List.append_assoc]
    exact announced_header h _
  have hTotal : (encode message ++ rest).length = frameLength message + rest.length := by
    rw [List.length_append, hEncode]
  have hClosed : (encode message ++ rest)[((frameLength message : Int) - 1).toNat]? =
      some '#'.toUInt8 := by
    have hFront : (header message ++ payload message).length = frameLength message - 1 := by
      rw [List.length_append, hHeader, frameLength]
      omega
    rw [encode, List.append_assoc, show ((frameLength message : Int) - 1).toNat =
      (header message ++ payload message).length by omega, List.getElem?_append_right (Nat.le_refl _),
      Nat.sub_self]
    rfl
  have hPayload : ((encode message ++ rest).drop 11).take ((frameLength message : Int) - 12).toNat =
      payload message := by
    rw [encode, List.append_assoc, List.append_assoc, List.drop_left' hHeader,
      List.take_left' (by rw [frameLength]; omega)]
  have hRest : (encode message ++ rest).drop ((frameLength message : Int)).toNat = rest :=
    List.drop_left' (by rw [hEncode]; omega)
  rw [firstFrame, hAnnounced, hTotal, if_neg (by omega), if_neg (by omega), if_pos hClosed,
    if_neg (by rw [payloadSize]; omega), if_neg (by omega), hPayload,
    processedSocketData_payload h, hRest]

theorem firstFrame_front {message : ReceivedMessage} (h : Encodable message) {s : Bytes}
    (hPrefix : s <+: encode message) (hLength : s.length < frameLength message) :
    firstFrame s = .ok none := by
  have hWait : announced s = 0 ∨ s.length < announced s := by
    obtain hShort | hLong := Nat.lt_or_ge s.length 11
    · have hFront : s <+: 'L'.toUInt8 :: '='.toUInt8 ::
          zeroPadded payloadSize (frameLength message) := by
        apply List.prefix_of_prefix_length_le hPrefix
        · exact ⟨['|'.toUInt8] ++ payload message ++ ['#'.toUInt8], by simp [encode, header]⟩
        · rw [List.length_cons, List.length_cons, length_padded h]
          omega
      have hPipe : '|'.toUInt8 ∉ cstring s := by
        intro hMem
        have hMem := hFront.subset ((List.takeWhile_sublist _).subset hMem)
        simp only [List.mem_cons] at hMem
        obtain hMem | hMem | hMem := hMem
        · revert hMem
          decide
        · revert hMem
          decide
        · exact not_mem_zeroPadded (by decide) _ _ hMem
      exact .inl (if_neg fun hHeader => hPipe hHeader.2)
    · have hHeader : header message <+: s :=
        List.prefix_of_prefix_length_le (by rw [encode, List.append_assoc]; exact List.prefix_append ..)
          hPrefix (by rwa [length_header h])
      obtain ⟨rest, rfl⟩ := hHeader
      rw [announced_header h]
      exact .inr (by omega)
  rw [firstFrame]
  exact if_pos hWait

end CStabilizer.ServerAPI
