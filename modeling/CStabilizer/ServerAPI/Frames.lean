import CStabilizer.ServerAPI.Model

/-! # Frames in the receive buffer

What the receiver does with the bytes that a buffer holds, without the buffer's
memory: the announced length, whether a frame of that length is closed, and the
messages and the rest that decoding yields. -/

namespace CStabilizer.ServerAPI

open CStabilizer.Library.CString CStabilizer.Library.Memory

/-- The length in the header of the first frame, zero as long as there is no header. -/
def announced (s : Bytes) : Int :=
  if s.head? = some 'L'.toUInt8 ∧ '|'.toUInt8 ∈ cstring s then
    (atoi ((s.drop 2).take payloadSize)).toInt
  else 0

theorem pipePos_append_zero (s rest : Bytes) (pos : Nat) :
    ∃ k, pipePos (s ++ 0 :: rest) (pos + 1) = some k ∧ (k ≠ 0 ↔ '|'.toUInt8 ∈ cstring s) := by
  induction s generalizing pos with
  | nil => exact ⟨0, rfl, by simp [cstring]⟩
  | cons c s ih =>
    by_cases hZero : c = 0
    · subst hZero
      exact ⟨0, rfl, by simp [cstring]⟩
    · have hString : cstring (c :: s) = c :: cstring s :=
        List.takeWhile_cons_of_pos (by simpa using hZero)
      by_cases hPipe : c = '|'.toUInt8
      · refine ⟨pos + 1, ?_, iff_of_true (by omega) ?_⟩
        · rw [List.cons_append, pipePos, if_neg hZero, if_pos hPipe]
        · rw [hString, hPipe]
          exact List.mem_cons_self
      · obtain ⟨k, hk, hIff⟩ := ih (pos + 1)
        refine ⟨k, ?_, ?_⟩
        · rw [List.cons_append, pipePos, if_neg hZero, if_neg hPipe, hk]
        · rw [hIff, hString, List.mem_cons, or_iff_right (Ne.symm hPipe)]

theorem atoi_take_append_zero (u rest : Bytes) (n : Nat) :
    atoi ((u ++ 0 :: rest).take n ++ [0, 0]) = atoi (u.take n) := by
  obtain hShort | hLong := Nat.lt_or_ge u.length n
  · obtain ⟨k, rfl⟩ : ∃ k, n = u.length + (k + 1) := ⟨n - u.length - 1, by omega⟩
    rw [List.take_length_add_append, List.take_succ_cons, List.append_assoc, List.cons_append,
      atoi_append_zero, List.take_of_length_le (by omega)]
  · rw [List.take_append_of_le_length hLong, atoi_append_zero]

/-- Only the contents of the buffer count, although the copy of the length may reach behind
them. -/
theorem getPayLoadLength_append_zero (s rest : Bytes) (hRoom : 10 ≤ (s ++ 0 :: rest).length) :
    getPayLoadLength (s ++ 0 :: rest) = some (announced s) := by
  cases s with
  | nil => rfl
  | cons c s =>
    by_cases hFirst : c = 'L'.toUInt8
    · subst hFirst
      have hString : cstring ('L'.toUInt8 :: s) = 'L'.toUInt8 :: cstring s :=
        List.takeWhile_cons_of_pos (by decide)
      have hHeader : '|'.toUInt8 ∈ cstring ('L'.toUInt8 :: s) ↔ '|'.toUInt8 ∈ cstring s := by
        rw [hString, List.mem_cons, or_iff_right (by decide)]
      obtain ⟨k, hPos, hk⟩ := pipePos_append_zero s rest 0
      have hScan : pipePos ('L'.toUInt8 :: (s ++ 0 :: rest)) 0 = some k := by
        rw [pipePos, if_neg (by decide), if_neg (by decide), hPos]
      by_cases hPipe : '|'.toUInt8 ∈ cstring s
      · have hLong : 2 ≤ ('L'.toUInt8 :: s).length := by
          cases s with
          | nil => cases hPipe
          | cons c' s => exact Nat.le_add_left ..
        have hRead := read_eq ('L'.toUInt8 :: s ++ 0 :: rest) 2 payloadSize hRoom
        rw [List.drop_append_of_le_length hLong, List.cons_append] at hRead
        rw [announced, if_pos ⟨rfl, hHeader.mpr hPipe⟩, ← atoi_take_append_zero _ rest, getPayLoadLength]
        simp [hScan, hk.mpr hPipe, hRead]
      · have hZero : k = 0 := by
          by_contra hNe
          exact hPipe (hk.mp hNe)
        rw [announced, if_neg fun h => hPipe (hHeader.mp h.2), getPayLoadLength]
        simp [hScan, hZero]
    · rw [announced, if_neg fun h => hFirst (Option.some.inj h.1), getPayLoadLength]
      simp [hFirst]

theorem getPayLoadLength_eq {d : ClientData} (h : d.Valid) :
    getPayLoadLength d.data = some (announced d.contents) := by
  have hLength := h.block
  have hRoom := h.room
  rw [initNormBufLen] at hRoom
  have hSplit : d.data = d.contents ++ 0 :: d.data.drop (d.currentLen + 1) := by
    rw [← List.singleton_append, ← List.append_assoc, ← h.contents_zero, List.take_append_drop]
  have hLoad := getPayLoadLength_append_zero d.contents (d.data.drop (d.currentLen + 1))
    (by rw [← hSplit]; omega)
  rwa [← hSplit] at hLoad

/-- The message of the first frame and the bytes behind the frame, if a frame is closed. -/
def firstFrame (s : Bytes) : Except Fault (Option (ReceivedMessage × Bytes)) :=
  let n := announced s
  if n = 0 ∨ s.length < n then .ok none
  else if n < 0 then .error .frameEnd
  else if s[(n - 1).toNat]? = some '#'.toUInt8 then
    if s.length < payloadSize + 3 then .error .deleteFromStart
    else if n < 12 then .error .payloadSize
    else match processedSocketData ((s.drop 11).take (n - 12).toNat ++ [0]) with
      | none => .error .token
      | some message => .ok (some (message, s.drop n.toNat))
  else .ok none

theorem firstFrame_some {s rest : Bytes} {message : ReceivedMessage}
    (h : firstFrame s = .ok (some (message, rest))) :
    12 ≤ announced s ∧ announced s ≤ s.length ∧ rest = s.drop (announced s).toNat := by
  unfold firstFrame at h
  dsimp only at h
  split at h
  · cases h
  split at h
  · cases h
  split at h
  · split at h
    · cases h
    split at h
    · cases h
    split at h
    · cases h
    · cases h
      exact ⟨by omega, by omega, rfl⟩
  · cases h

theorem firstFrame_length {s rest : Bytes} {message : ReceivedMessage}
    (h : firstFrame s = .ok (some (message, rest))) : rest.length < s.length := by
  obtain ⟨hMin, hMax, rfl⟩ := firstFrame_some h
  rw [List.length_drop]
  omega

def unframe (s : Bytes) : Except Fault (List ReceivedMessage × Bytes) :=
  match h : firstFrame s with
  | .error fault => .error fault
  | .ok none => .ok ([], s)
  | .ok (some (message, rest)) =>
    have := firstFrame_length h
    (unframe rest).map fun (messages, rest) => (message :: messages, rest)
termination_by s.length

theorem unframe_none {s : Bytes} (h : firstFrame s = .ok none) : unframe s = .ok ([], s) := by
  rw [unframe]
  split
  · next h' => cases h.symm.trans h'
  · rfl
  · next h' => cases h.symm.trans h'

theorem unframe_error {s : Bytes} {fault : Fault} (h : firstFrame s = .error fault) :
    unframe s = .error fault := by
  rw [unframe]
  split
  · next h' => cases h.symm.trans h'; rfl
  · next h' => cases h.symm.trans h'
  · next h' => cases h.symm.trans h'

theorem unframe_some {s rest : Bytes} {message : ReceivedMessage}
    (h : firstFrame s = .ok (some (message, rest))) :
    unframe s = (unframe rest).map fun (messages, rest) => (message :: messages, rest) := by
  rw [unframe]
  split
  · next h' => cases h.symm.trans h'
  · next h' => cases h.symm.trans h'
  · next h' => cases h.symm.trans h'; rfl

def nextLength (s : Bytes) : Option Int := if announced s = 0 then none else some (announced s)

inductive PassAgrees (api : Receiver) (buffer : ClientData) :
    Except Fault (Receiver × ClientData × Option Int) →
    Except Fault (Option (ReceivedMessage × Bytes)) → Prop
  | error (fault : Fault) : PassAgrees api buffer (.error fault) (.error fault)
  | stop : PassAgrees api buffer (.ok (api, buffer, none)) (.ok none)
  | frame (message : ReceivedMessage) (buffer' : ClientData) (hValid : buffer'.Valid) :
      PassAgrees api buffer (.ok (api.push message, buffer', nextLength buffer'.contents))
        (.ok (some (message, buffer'.contents)))

theorem announced_nil : announced [] = 0 := rfl

section Payload

variable (api : Receiver) {buffer : ClientData} {n : Nat}

theorem decodePayload_copy (h : buffer.Valid) (hPos : 0 < n) (hLength : n ≤ buffer.currentLen) :
    ((n : Int) - 1).toNat = n - 1 ∧ ¬(n : Int) < 1 ∧
      read buffer.data 0 (n - 1) = some (buffer.contents.take (n - 1)) :=
  ⟨by omega, by omega, h.read_contents (by omega)⟩

theorem decodePayload_token (h : buffer.Valid) (hPos : 0 < n) (hLength : n ≤ buffer.currentLen)
    (hMessage : processedSocketData (buffer.contents.take (n - 1) ++ [0]) = none) :
    decodePayload api buffer n = .error .token := by
  obtain ⟨hCast, hSize, hRead⟩ := decodePayload_copy h hPos hLength
  rw [decodePayload, if_neg hSize, hCast, hRead]
  simp [orFault, hMessage, bind, Except.bind]

theorem decodePayload_message (h : buffer.Valid) (hPos : 0 < n) (hLength : n ≤ buffer.currentLen)
    {message : ReceivedMessage}
    (hMessage : processedSocketData (buffer.contents.take (n - 1) ++ [0]) = some message) :
    ∃ buffer', buffer'.Valid ∧ buffer'.contents = buffer.contents.drop n ∧
      decodePayload api buffer n = .ok (api.push message, buffer', nextLength buffer'.contents) := by
  obtain ⟨hCast, hSize, hRead⟩ := decodePayload_copy h hPos hLength
  obtain ⟨buffer', hDelete, hValid, hContents⟩ := h.deleteFromStart hLength
  refine ⟨buffer', hValid, hContents, ?_⟩
  rw [decodePayload, if_neg hSize, hCast, hRead]
  simp only [orFault, hMessage, hDelete, getPayLoadLength_eq hValid, bind, Except.bind]
  by_cases hNext : announced buffer'.contents = 0
  · rw [if_pos (.inl hNext), nextLength, if_pos hNext]
  · have hNonempty : buffer'.currentLen ≠ 0 := by
      rintro hEmpty
      rw [ClientData.contents, hEmpty] at hNext
      exact hNext announced_nil
    rw [if_neg (not_or.mpr ⟨hNext, hNonempty⟩), nextLength, if_neg hNext]

end Payload

theorem decodePass_agrees (api : Receiver) {buffer : ClientData} (h : buffer.Valid)
    (hZero : announced buffer.contents ≠ 0)
    (hLength : announced buffer.contents ≤ buffer.currentLen) :
    PassAgrees api buffer (decodePass api buffer (announced buffer.contents))
      (firstFrame buffer.contents) := by
  have hLen := h.length_contents
  obtain hNegative | hPositive := Int.lt_or_le (announced buffer.contents) 0
  · rw [decodePass, if_pos (.inl (by omega)), firstFrame, if_neg (by omega), if_pos hNegative]
    exact .error .frameEnd
  obtain ⟨n, hn⟩ := Int.eq_ofNat_of_zero_le hPositive
  rw [hn] at hZero hLength ⊢
  have hByte : buffer.data[((n : Int) - 1).toNat]? = buffer.contents[((n : Int) - 1).toNat]? := by
    rw [ClientData.contents, List.getElem?_take_of_lt (by omega)]
  rw [firstFrame, hn, if_neg (by omega), if_neg (by omega), decodePass, if_neg (by omega), hByte]
  split
  · obtain hShort | hEleven := Nat.lt_or_ge buffer.contents.length (payloadSize + 3)
    · rw [if_pos hShort, ClientData.deleteFromStart_error (by omega)]
      exact .error .deleteFromStart
    rw [if_neg (Nat.not_lt.mpr hEleven)]
    obtain ⟨buffer₁, hDelete, hValid, hContents⟩ :=
      h.deleteFromStart (k := payloadSize + 3) (by omega)
    have hRest : buffer₁.currentLen = buffer.currentLen - 11 := by
      rw [← hValid.length_contents, hContents, List.length_drop, hLen, payloadSize]
    rw [hDelete]
    dsimp only [bind, Except.bind]
    obtain hSmall | hFrame := Nat.lt_or_ge n 12
    · rw [if_pos (by omega), decodePayload, if_pos (by omega)]
      exact .error .payloadSize
    rw [if_neg (by omega), show (n : Int) - 11 = (n - 11 : Nat) by omega]
    have hCopied : (buffer.contents.drop 11).take ((n : Int) - 12).toNat =
        buffer₁.contents.take (n - 11 - 1) := by
      rw [hContents, payloadSize, show ((n : Int) - 12).toNat = n - 11 - 1 by omega]
    rw [hCopied]
    cases hMessage : processedSocketData (buffer₁.contents.take (n - 11 - 1) ++ [0]) with
    | none =>
      rw [decodePayload_token api hValid (by omega) (by omega) hMessage]
      exact .error .token
    | some message =>
      obtain ⟨buffer₂, hValid₂, hContents₂, hPayload⟩ :=
        decodePayload_message api hValid (by omega) (by omega) hMessage
      have hTail : buffer.contents.drop ((n : Int)).toNat = buffer₂.contents := by
        rw [hContents₂, hContents, List.drop_drop, payloadSize,
          show ((n : Int)).toNat = 8 + 3 + (n - 11) by omega]
      rw [hPayload, hTail]
      exact .frame message buffer₂ hValid₂
  · exact .stop

/-- Decoding a buffer pushes the messages of its contents and leaves the bytes behind them. -/
inductive Agrees (api : Receiver) :
    Except Fault (Receiver × ClientData) → Except Fault (List ReceivedMessage × Bytes) → Prop
  | error (fault : Fault) : Agrees api (.error fault) (.error fault)
  | ok (messages : List ReceivedMessage) (buffer : ClientData) (hValid : buffer.Valid) :
      Agrees api (.ok (messages.foldl Receiver.push api, buffer)) (.ok (messages, buffer.contents))

theorem Agrees.of_ok {api : Receiver} {result : Except Fault (Receiver × ClientData)}
    {messages : List ReceivedMessage} {rest : Bytes} (h : Agrees api result (.ok (messages, rest))) :
    ∃ buffer : ClientData, buffer.Valid ∧ buffer.contents = rest ∧
      result = .ok (messages.foldl Receiver.push api, buffer) := by
  generalize hFrames : Except.ok (messages, rest) = frames at h
  cases h with
  | error fault => cases hFrames
  | ok messages' buffer hValid =>
    obtain ⟨rfl, rfl⟩ := Prod.mk.inj (Except.ok.inj hFrames)
    exact ⟨buffer, hValid, rfl, rfl⟩

theorem Agrees.of_error {api : Receiver} {result : Except Fault (Receiver × ClientData)}
    {fault : Fault} (h : Agrees api result (.error fault)) : result = .error fault := by
  cases h
  rfl

theorem Agrees.cons {api : Receiver} {message : ReceivedMessage}
    {result : Except Fault (Receiver × ClientData)}
    {frames : Except Fault (List ReceivedMessage × Bytes)}
    (h : Agrees (api.push message) result frames) :
    Agrees api result (frames.map fun (messages, rest) => (message :: messages, rest)) := by
  cases h with
  | error fault => exact .error fault
  | ok messages buffer hValid => exact .ok (message :: messages) buffer hValid

theorem unframe_of_announced {s : Bytes} (h : announced s = 0 ∨ s.length < announced s) :
    unframe s = .ok ([], s) := by
  apply unframe_none
  rw [firstFrame]
  exact if_pos h

theorem decodeLoop_agrees (api : Receiver) {buffer : ClientData} (h : buffer.Valid)
    (hZero : announced buffer.contents ≠ 0) :
    Agrees api (decodeLoop api buffer (announced buffer.contents)) (unframe buffer.contents) := by
  -- on the length of the buffer, which every pass that goes round shortens
  induction hn : buffer.currentLen using Nat.strongRecOn generalizing api buffer with
  | ind n ih =>
    obtain hShort | hLength := Int.lt_or_le buffer.currentLen (announced buffer.contents)
    · rw [decodeLoop_of_lt (Int.not_le.mpr hShort),
        unframe_of_announced (.inr (by rwa [h.length_contents]))]
      exact .ok [] buffer h
    have hPass := decodePass_agrees api h hZero hLength
    generalize hResult : decodePass api buffer (announced buffer.contents) = result at hPass
    generalize hFirst : firstFrame buffer.contents = first at hPass
    cases hPass with
    | error fault =>
      rw [decodeLoop_error hLength hResult, unframe_error hFirst]
      exact .error fault
    | stop =>
      rw [decodeLoop_stop hLength hResult, unframe_none hFirst]
      exact .ok [] buffer h
    | frame message buffer' hValid =>
      have hShorter := firstFrame_length hFirst
      rw [h.length_contents, hValid.length_contents, hn] at hShorter
      rw [unframe_some hFirst]
      by_cases hNext : announced buffer'.contents = 0
      · rw [nextLength, if_pos hNext] at hResult
        rw [decodeLoop_stop hLength hResult, unframe_of_announced (.inl hNext)]
        exact .ok [message] buffer' hValid
      · rw [nextLength, if_neg hNext] at hResult
        rw [decodeLoop_round hLength hResult]
        exact (ih buffer'.currentLen hShorter (api.push message) hValid hNext rfl).cons

theorem decode_agrees (api : Receiver) {buffer : ClientData} (h : buffer.Valid) :
    Agrees api (decode api buffer) (unframe buffer.contents) := by
  rw [decode, getPayLoadLength_eq h]
  dsimp only [orFault, bind, Except.bind]
  split
  · next hZero =>
    rw [unframe_of_announced (.inl hZero)]
    exact .ok [] buffer h
  · next hZero => exact decodeLoop_agrees api h hZero

/-- The part of a chunk that is kept: not the last two bytes where the first of them is a carriage
return. -/
def kept (data : Bytes) : Bytes :=
  if data[data.length - 2]? = some carriageReturn then data.take (data.length - 2) else data

theorem receive_append (alloc : Allocator UInt8) (buffer : ClientData) {data : Bytes}
    (hLength : 2 ≤ data.length) :
    ∃ chunk, receive alloc buffer data = buffer.append alloc chunk (kept data).length ∧
      (kept data).length ≤ chunk.length ∧ chunk.take (kept data).length = kept data := by
  rw [receive, kept, if_neg (Nat.not_lt.mpr hLength)]
  split
  · refine ⟨_, by rw [List.length_take_of_le (Nat.sub_le ..)], ?_, ?_⟩
    · simp
    · rw [List.length_take_of_le (Nat.sub_le ..), List.take_set_of_le (by omega),
        List.take_set_of_le (Nat.le_refl _)]
  · exact ⟨data, rfl, Nat.le_refl _, List.take_length⟩

theorem receive_eq (alloc : Allocator UInt8) {buffer : ClientData} (h : buffer.Valid)
    {data : Bytes} (hLength : 2 ≤ data.length) (hFits : buffer.Fits (kept data).length) :
    ∃ buffer', receive alloc buffer data = .ok buffer' ∧ buffer'.Valid ∧
      buffer'.contents = buffer.contents ++ kept data := by
  obtain ⟨chunk, hReceive, hChunk, hTake⟩ := receive_append alloc buffer hLength
  obtain ⟨buffer', hAppend, hValid, hContents⟩ := h.append alloc hChunk hFits
  exact ⟨buffer', hReceive.trans hAppend, hValid, by rw [hContents, hTake]⟩

theorem receive_overflow (alloc : Allocator UInt8) {buffer : ClientData} (h : buffer.Valid)
    {data : Bytes} (hLength : 2 ≤ data.length) (hFits : ¬buffer.Fits (kept data).length) :
    receive alloc buffer data = .error .overflow := by
  obtain ⟨chunk, hReceive, -, -⟩ := receive_append alloc buffer hLength
  rw [hReceive, h.append_overflow alloc chunk hFits]

theorem receive_chunkIndex (alloc : Allocator UInt8) (buffer : ClientData) {data : Bytes}
    (hLength : data.length < 2) : receive alloc buffer data = .error .chunkIndex :=
  if_pos hLength

end CStabilizer.ServerAPI
