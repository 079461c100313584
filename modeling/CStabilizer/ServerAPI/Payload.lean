import CStabilizer.ServerAPI.Framing

/-! # Payloads with missing fields

`strtok` skips empty fields, and the parser reads three fields of a payload and
two of each label without asking how many there are. -/

namespace CStabilizer.ServerAPI

open CStabilizer.Library.CString CStabilizer.Library.Memory

/-- Enough non-empty fields on each of the three levels of a payload. -/
def FieldsPresent (text : Bytes) : Prop :=
  ∃ partition heartbeat labels rest,
    fields '|'.toUInt8 text = partition :: heartbeat :: labels :: rest ∧
      ∀ label ∈ fields ';'.toUInt8 labels, 2 ≤ (fields ':'.toUInt8 label).length

/-- Where no field of the text is empty, the label is read from the first two of them. -/
def ReadsLabel (text : Bytes) (label : Label) : Prop :=
  ∀ timestamp value rest, text.splitOn ':'.toUInt8 = timestamp :: value :: rest →
    timestamp ≠ [] → value ≠ [] → label = ⟨strtoul timestamp, atoi value⟩

/-- Where none of the first three fields is empty, the members of the message are read from
them. -/
def ReadsFields (text : Bytes) (message : ReceivedMessage) : Prop :=
  ∀ partition heartbeat labels rest,
    text.splitOn '|'.toUInt8 = partition :: heartbeat :: labels :: rest →
    partition ≠ [] → heartbeat ≠ [] → labels ≠ [] →
      message.partionId = atoi partition ∧ message.heartbeat = strtoul heartbeat ∧
        List.Forall₂ ReadsLabel (fields ';'.toUInt8 labels) message.labels

/-- No missing token is read from a payload, and the members of the message come from its
fields. -/
def ParsesPayload (payload : Bytes) : Prop :=
  ∃ message, processedSocketData (payload ++ [0]) = some message ∧
    ReadsFields (cstring payload) message

theorem cstring_concat_zero (payload : Bytes) : cstring (payload ++ [0]) = cstring payload := by
  induction payload with
  | nil => rfl
  | cons c payload ih =>
    rw [cstring] at ih ⊢
    rw [cstring, List.cons_append, List.takeWhile_cons, List.takeWhile_cons, ih]
    rfl

theorem fields_of_splitOn_two {delim : UInt8} {s a b : Bytes} {rest : List Bytes}
    (h : s.splitOn delim = a :: b :: rest) (ha : a ≠ []) (hb : b ≠ []) :
    fields delim s = a :: b :: rest.filter (· ≠ []) := by
  rw [fields, h, List.filter_cons_of_pos (by simpa using ha),
    List.filter_cons_of_pos (by simpa using hb)]

theorem fields_of_splitOn_three {delim : UInt8} {s a b c : Bytes} {rest : List Bytes}
    (h : s.splitOn delim = a :: b :: c :: rest) (ha : a ≠ []) (hb : b ≠ []) (hc : c ≠ []) :
    fields delim s = a :: b :: c :: rest.filter (· ≠ []) := by
  rw [fields_of_splitOn_two h ha hb, List.filter_cons_of_pos (by simpa using hc)]

theorem processedLabel_isSome_iff (text : Bytes) :
    (∃ label, processedLabel text = some label) ↔ 2 ≤ (fields ':'.toUInt8 text).length := by
  rw [processedLabel, strtokAll_eq_fields]
  generalize fields ':'.toUInt8 text = tokens
  obtain _ | ⟨timestamp, _ | ⟨value, rest⟩⟩ := tokens
  · simp
  · simp
  · simp

theorem readsLabel_of_processedLabel {text : Bytes} {label : Label}
    (h : processedLabel text = some label) : ReadsLabel text label := by
  rintro timestamp value rest hSplit hTimestamp hValue
  rw [processedLabel, strtokAll_eq_fields, fields_of_splitOn_two hSplit hTimestamp hValue] at h
  exact (Option.some.inj h).symm

theorem mapM_eq_some_iff {α β : Type} {f : α → Option β} {l : List α} {out : List β} :
    l.mapM f = some out ↔ List.Forall₂ (fun a b => f a = some b) l out := by
  induction l generalizing out with
  | nil =>
    rw [List.mapM_nil, List.forall₂_nil_left_iff]
    exact ⟨fun h => (Option.some.inj h).symm, fun h => h ▸ rfl⟩
  | cons a l ih =>
    rw [List.mapM_cons, List.forall₂_cons_left_iff]
    constructor
    · intro h
      obtain ⟨b, hb, h⟩ := Option.bind_eq_some_iff.mp h
      obtain ⟨bs, hbs, h⟩ := Option.bind_eq_some_iff.mp h
      exact ⟨b, bs, hb, ih.mp hbs, (Option.some.inj h).symm⟩
    · rintro ⟨b, bs, hb, hbs, rfl⟩
      rw [hb, ih.mpr hbs]
      rfl

theorem mapM_isSome_iff {α β : Type} {f : α → Option β} {l : List α} :
    (∃ out, l.mapM f = some out) ↔ ∀ a ∈ l, ∃ b, f a = some b := by
  induction l with
  | nil => exact iff_of_true ⟨[], rfl⟩ nofun
  | cons a l ih =>
    rw [List.forall_mem_cons, ← ih]
    constructor
    · rintro ⟨out, h⟩
      rw [List.mapM_cons] at h
      obtain ⟨b, hb, h⟩ := Option.bind_eq_some_iff.mp h
      obtain ⟨bs, hbs, -⟩ := Option.bind_eq_some_iff.mp h
      exact ⟨⟨b, hb⟩, bs, hbs⟩
    · rintro ⟨⟨b, hb⟩, bs, hbs⟩
      exact ⟨b :: bs, by rw [List.mapM_cons, hb, hbs]; rfl⟩

theorem processedSocketData_of_fields {payload partition heartbeat labels : Bytes}
    {rest : List Bytes}
    (h : fields '|'.toUInt8 (cstring payload) = partition :: heartbeat :: labels :: rest) :
    processedSocketData (payload ++ [0]) =
      ((fields ';'.toUInt8 labels).mapM processedLabel).map
        (⟨atoi partition, strtoul heartbeat, ·⟩) := by
  rw [processedSocketData, cstring_concat_zero, strtokAll_eq_fields, h]
  simp only [List.getElem?_cons_zero, List.getElem?_cons_succ, Option.bind_eq_bind,
    Option.bind_some, strtokAll_eq_fields, Option.pure_def]
  exact Option.map_eq_bind.symm

theorem processedSocketData_isSome_iff (payload : Bytes) :
    (∃ message, processedSocketData (payload ++ [0]) = some message) ↔
      FieldsPresent (cstring payload) := by
  constructor
  · rintro ⟨message, h⟩
    have hTokens := h
    rw [processedSocketData, cstring_concat_zero, strtokAll_eq_fields] at hTokens
    generalize hFields : fields '|'.toUInt8 (cstring payload) = tokens at hTokens
    obtain _ | ⟨partition, _ | ⟨heartbeat, _ | ⟨labels, rest⟩⟩⟩ := tokens
    · cases hTokens
    · cases hTokens
    · cases hTokens
    · rw [processedSocketData_of_fields hFields] at h
      obtain ⟨parsed, hParsed, -⟩ := Option.map_eq_some_iff.mp h
      refine ⟨partition, heartbeat, labels, rest, hFields, fun text hText => ?_⟩
      exact (processedLabel_isSome_iff text).mp (mapM_isSome_iff.mp ⟨parsed, hParsed⟩ text hText)
  · rintro ⟨partition, heartbeat, labels, rest, hFields, h⟩
    obtain ⟨parsed, hParsed⟩ := mapM_isSome_iff.mpr fun text hText =>
      (processedLabel_isSome_iff text).mpr (h text hText)
    exact ⟨_, by rw [processedSocketData_of_fields hFields, hParsed]; rfl⟩

theorem readsFields_of_processedSocketData {payload : Bytes} {message : ReceivedMessage}
    (h : processedSocketData (payload ++ [0]) = some message) :
    ReadsFields (cstring payload) message := by
  rintro partition heartbeat labels rest hSplit hPartition hHeartbeat hLabels
  rw [processedSocketData_of_fields
    (fields_of_splitOn_three hSplit hPartition hHeartbeat hLabels)] at h
  obtain ⟨parsed, hParsed, rfl⟩ := Option.map_eq_some_iff.mp h
  exact ⟨rfl, rfl, (mapM_eq_some_iff.mp hParsed).imp fun _ _ => readsLabel_of_processedLabel⟩

theorem parsesPayload_iff (payload : Bytes) :
    ParsesPayload payload ↔ FieldsPresent (cstring payload) := by
  rw [← processedSocketData_isSome_iff]
  constructor
  · rintro ⟨message, h, -⟩
    exact ⟨message, h⟩
  · rintro ⟨message, h⟩
    exact ⟨message, h, readsFields_of_processedSocketData h⟩

/-- Partition 1 with heartbeat 5 and no label. -/
def heartbeatOnly : Bytes :=
  ['L', '=', '0', '0', '0', '0', '0', '0', '1', '6', '|', '1', '|', '5', '|', '#'].map Char.toUInt8

theorem not_parsesPayload : ¬(∀ payload, ParsesPayload payload) ∧
    (Server.init (.filled 0) 0 : Server Unit).run (.filled 0) [((), heartbeatOnly)] =
      .error .token := by
  have hFields : fields '|'.toUInt8 (cstring (framePayload heartbeatOnly)) =
      [['1'.toUInt8], ['5'.toUInt8]] := by decide
  have hMissing : ¬FieldsPresent (cstring (framePayload heartbeatOnly)) := by
    rintro ⟨partition, heartbeat, labels, rest, hThree, -⟩
    cases hFields.symm.trans hThree
  have hNone : processedSocketData (framePayload heartbeatOnly ++ [0]) = none := by
    rw [Option.eq_none_iff_forall_ne_some]
    exact fun message h => hMissing ((processedSocketData_isSome_iff _).mp ⟨message, h⟩)
  constructor
  · intro h
    obtain ⟨message, hSome, -⟩ := h (framePayload heartbeatOnly)
    cases hNone.symm.trans hSome
  · have hFirst := firstFrame_of_closed (s := heartbeatOnly) (by unfold Closed; decide) (by decide)
    rw [hNone] at hFirst
    have hLength : 2 ≤ heartbeatOnly.length := by decide
    obtain ⟨buffer, hReceive, hValid, hContents⟩ := receive_eq (.filled 0)
      (ClientData.valid_init (.filled 0)) hLength (by unfold ClientData.Fits; decide)
    have hAgrees := decode_agrees ⟨0, 0, []⟩ hValid
    rw [hContents, show kept heartbeatOnly = heartbeatOnly by decide] at hAgrees
    have hFrames : unframe ((ClientData.init (.filled 0)).contents ++ heartbeatOnly) =
        .error .token := unframe_error hFirst
    rw [hFrames] at hAgrees
    have hStep : onData (.filled 0) ⟨0, 0, []⟩ (ClientData.init (.filled 0)) heartbeatOnly =
        .error .token := by
      rw [onData, hReceive]
      exact hAgrees.of_error
    rw [Server.run, List.foldlM_cons, Server.step]
    simp only [Server.init, hStep]
    rfl

end CStabilizer.ServerAPI
