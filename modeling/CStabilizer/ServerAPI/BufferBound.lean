import CStabilizer.ServerAPI.Payload

/-! # How much a receive buffer holds

The length in a header has at most eight digits, so a frame that is still awaited
leaves fewer than 10⁸ bytes in the buffer. A front that is no frame is neither
taken off nor dropped, and everything that comes behind it stays. -/

namespace CStabilizer.ServerAPI

open CStabilizer.Library.CString CStabilizer.Library.Memory CStabilizer.Library.Segments

def maxFrameLen : Nat := 10 ^ 8

/-- No `L`, no `|` or a length of zero, or no `#` where the frame should end. -/
def Malformed (s : Bytes) : Prop :=
  announced s = 0 ∨
    1 ≤ announced s ∧ announced s ≤ s.length ∧ s[(announced s - 1).toNat]? ≠ some '#'.toUInt8

/-- Whatever comes behind these bytes, decoding takes nothing off. -/
def Stuck (s : Bytes) : Prop :=
  ∀ t messages rest, unframe (s ++ t) = .ok (messages, rest) → messages = [] ∧ rest = s ++ t

theorem announced_lt (s : Bytes) : announced s < maxFrameLen := by
  rw [announced]
  split
  · have hLength : ((s.drop 2).take payloadSize).length ≤ 8 := List.length_take_le _ _
    have hPow := Nat.pow_le_pow_right (show 0 < 10 by decide) hLength
    have hBounds := (strtol_bounds ((s.drop 2).take payloadSize)).2
    rw [toInt_atoi (by omega), maxFrameLen]
    apply Int.lt_of_lt_of_le hBounds
    exact_mod_cast hPow
  · decide

theorem malformed_or_awaited {s : Bytes} (h : firstFrame s = .ok none) :
    Malformed s ∨ s.length < announced s := by
  by_cases hClosed : Closed s
  · by_cases hLength : 12 ≤ announced s
    · rw [firstFrame_of_closed hClosed hLength] at h
      split at h
      · cases h
      · cases h
    · obtain ⟨fault, -, hFault⟩ := firstFrame_of_not_framed fun hFramed => hLength (hFramed.2 hClosed)
      cases h.symm.trans hFault
  · by_cases hNegative : announced s < 0
    · obtain ⟨fault, -, hFault⟩ := firstFrame_of_not_framed
        fun hFramed => Int.not_le.mpr hNegative hFramed.1
      cases h.symm.trans hFault
    · obtain hShort | hWithin := Int.lt_or_le (s.length : Int) (announced s)
      · exact .inr hShort
      · by_cases hZero : announced s = 0
        · exact .inl (.inl hZero)
        · exact .inl (.inr ⟨by omega, hWithin, fun hHash => hClosed ⟨by omega, hWithin, hHash⟩⟩)

theorem announced_of_head {s : Bytes} (h : s.head? ≠ some 'L'.toUInt8) : announced s = 0 :=
  if_neg fun hHeader => h hHeader.1

/-- The length is read from the first ten bytes, but whether there is one depends on a `|` that may
come at any distance behind them. -/
theorem announced_append {s : Bytes} (h : 10 ≤ s.length) (t : Bytes) :
    announced (s ++ t) = announced s ∨ announced s = 0 ∧ '|'.toUInt8 ∉ s := by
  have hHead : (s ++ t).head? = s.head? := by
    cases s with
    | nil => cases h
    | cons c s => rfl
  have hDigits : ((s ++ t).drop 2).take payloadSize = (s.drop 2).take payloadSize := by
    rw [List.drop_append_of_le_length (by omega),
      List.take_append_of_le_length (by rw [List.length_drop, payloadSize]; omega)]
  simp only [announced, hHead, hDigits]
  obtain hString | ⟨hWhole, hString⟩ := cstring_append s t
  · exact .inl (by rw [hString])
  · rw [hString, hWhole]
    by_cases hPipe : '|'.toUInt8 ∈ s
    · left
      simp only [List.mem_append, hPipe, true_or]
    · exact .inr ⟨if_neg fun hHeader => hPipe hHeader.2, hPipe⟩

theorem length_fields_of_not_mem {delim : UInt8} {s : Bytes} (h : delim ∉ s) :
    (fields delim s).length ≤ 1 := by
  rw [fields, List.splitOn_eq_singleton h]
  exact List.length_filter_le _ _

/-- A front of the length of the longest frame that is not taken off is never taken off: a `|`
that comes only behind it cannot be in the payload. -/
theorem stuck_of_length {s : Bytes} (h : firstFrame s = .ok none) (hLength : maxFrameLen ≤ s.length) :
    Stuck s := by
  intro t messages rest hUnframe
  have hLt := announced_lt (s ++ t)
  have hLarge : 10 ≤ s.length := Nat.le_trans (by decide) hLength
  cases hFirst : firstFrame (s ++ t) with
  | error fault => cases hUnframe.symm.trans (unframe_error hFirst)
  | ok frame =>
    cases frame with
    | none =>
      cases hUnframe.symm.trans (unframe_none hFirst)
      exact ⟨rfl, rfl⟩
    | some frame =>
      obtain ⟨hMin, -, -⟩ := firstFrame_some hFirst
      have hClosed : Closed (s ++ t) := by
        by_contra hClosed
        cases hFirst.symm.trans (firstFrame_of_not_closed (by omega) hClosed)
      obtain hSame | ⟨-, hPipe⟩ := announced_append hLarge t
      · have hByte := hClosed.2.2
        rw [hSame, List.getElem?_append_left (by omega)] at hByte
        obtain hMalformed | hAwaited := malformed_or_awaited h
        · obtain hZero | ⟨-, -, hHash⟩ := hMalformed
          · omega
          · exact absurd hByte hHash
        · omega
      · rw [firstFrame_of_closed hClosed hMin] at hFirst
        cases hMessage : processedSocketData (framePayload (s ++ t) ++ [0]) with
        | none =>
          rw [hMessage] at hFirst
          cases hFirst
        | some message =>
          obtain ⟨partition, heartbeat, labels, more, hFields, -⟩ :=
            (processedSocketData_isSome_iff _).mp ⟨message, hMessage⟩
          have hInside : framePayload (s ++ t) <+: s.drop 11 := by
            rw [framePayload, List.drop_append_of_le_length (by omega),
              List.take_append_of_le_length (by rw [List.length_drop]; omega)]
            exact List.take_prefix _ _
          have hShort := length_fields_of_not_mem (s := cstring (framePayload (s ++ t)))
            fun hMem => hPipe (List.mem_of_mem_drop
              (hInside.subset ((List.takeWhile_sublist _).subset hMem)))
          rw [hFields] at hShort
          exact absurd hShort (by simp)

theorem unframe_rest {s rest : Bytes} {messages : List ReceivedMessage}
    (h : unframe s = .ok (messages, rest)) : firstFrame rest = .ok none := by
  induction hn : s.length using Nat.strongRecOn generalizing s messages with
  | ind n ih =>
    cases hFirst : firstFrame s with
    | error fault => cases h.symm.trans (unframe_error hFirst)
    | ok frame =>
      cases frame with
      | none =>
        cases h.symm.trans (unframe_none hFirst)
        exact hFirst
      | some frame =>
        obtain ⟨message, behind⟩ := frame
        rw [unframe_some hFirst] at h
        cases hBehind : unframe behind with
        | error fault => rw [hBehind] at h; cases h
        | ok result =>
          rw [hBehind] at h
          cases h
          exact ih _ (hn ▸ firstFrame_length hFirst) hBehind rfl

section Server

variable {ι : Type} [DecidableEq ι] (alloc : Allocator UInt8)

/-- A step that does not fault pushes what decoding takes off the client's buffer, and touches no
other buffer. -/
theorem Server.step_cases {server server' : Server ι} (h : Sound server) {c : ι} {data : Bytes}
    (hStep : server.step alloc (c, data) = .ok server') :
    ∃ messages, unframe ((server.rcvBuffer c).contents ++ kept data) =
        .ok (messages, (server'.rcvBuffer c).contents) ∧
      server'.api = messages.foldl Receiver.push server.api ∧
      ∀ c', c' ≠ c → server'.rcvBuffer c' = server.rcvBuffer c' := by
  obtain ⟨⟨api, buffer'⟩, hData, hEq⟩ := bind_eq_ok hStep
  obtain ⟨buffer, hReceive, hDecode⟩ := bind_eq_ok hData
  obtain ⟨hLength, hFits⟩ := (inRange_receive_iff alloc (h c) data).mp (hReceive ▸ inRange_ok _)
  obtain ⟨buffer₁, hReceive₁, hValid, hContents⟩ := receive_eq alloc (h c) hLength hFits
  cases hReceive₁.symm.trans hReceive
  have hAgrees := decode_agrees server.api hValid
  rw [hDecode, hContents] at hAgrees
  cases hEq
  generalize hFrames : unframe ((server.rcvBuffer c).contents ++ kept data) = frames at hAgrees
  cases hAgrees with
  | ok messages buffer hValid =>
    refine ⟨messages, ?_, rfl, fun c' hc => Server.rcvBuffer_update_of_ne _ hc _ _⟩
    rw [Server.rcvBuffer_update]

/-- What came from a client, without the line ends that were dropped. -/
def keptFrom (c : ι) (events : List (ι × Bytes)) : Bytes :=
  received c (events.map fun event => (event.1, kept event.2))

theorem keptFrom_concat (c : ι) (events : List (ι × Bytes)) (event : ι × Bytes) :
    keptFrom c (events ++ [event]) =
      keptFrom c events ++ if event.1 = c then kept event.2 else [] := by
  rw [keptFrom, List.map_append, List.map_singleton, received_concat, keptFrom]

theorem stuck_run {server server' : Server ι} (h : Sound server) {c : ι}
    (hStuck : Stuck (server.rcvBuffer c).contents) {events : List (ι × Bytes)}
    (hRun : server.run alloc events = .ok server') :
    (server'.rcvBuffer c).contents = (server.rcvBuffer c).contents ++ keptFrom c events := by
  induction events using List.reverseRecOn generalizing server' with
  | nil =>
    cases hRun
    exact (List.append_nil _).symm
  | append_singleton events event ih =>
    rw [Server.run_concat] at hRun
    obtain ⟨server₁, hRun₁, hStep⟩ := bind_eq_ok hRun
    have hContents := ih hRun₁
    obtain ⟨c₁, data⟩ := event
    obtain ⟨messages, hUnframe, -, hOthers⟩ :=
      Server.step_cases alloc (h.run alloc hRun₁) hStep
    rw [keptFrom_concat, ← List.append_assoc, ← hContents]
    by_cases hc : c₁ = c
    · subst hc
      rw [hContents, List.append_assoc] at hUnframe
      rw [if_pos rfl, (hStuck _ _ _ hUnframe).2, hContents, List.append_assoc]
    · rw [if_neg hc, List.append_nil, hOthers c (Ne.symm hc)]

theorem firstFrame_run (ignoreMsgCount : Int) {events : List (ι × Bytes)} {server : Server ι}
    (hRun : (Server.init alloc ignoreMsgCount).run alloc events = .ok server) (c : ι) :
    firstFrame (server.rcvBuffer c).contents = .ok none := by
  induction events using List.reverseRecOn generalizing server with
  | nil =>
    cases hRun
    rfl
  | append_singleton events event ih =>
    rw [Server.run_concat] at hRun
    obtain ⟨server₁, hRun₁, hStep⟩ := bind_eq_ok hRun
    obtain ⟨c₁, data⟩ := event
    obtain ⟨messages, hUnframe, -, hOthers⟩ :=
      Server.step_cases alloc (sound_run alloc ignoreMsgCount hRun₁) hStep
    by_cases hc : c = c₁
    · subst hc
      exact unframe_rest hUnframe
    · rw [hOthers c hc]
      exact ih hRun₁

theorem fits_of_length {buffer : ClientData} (h : buffer.Valid)
    (hLength : buffer.contents.length < maxFrameLen) {n : Nat} (hn : n ≤ 15000) : buffer.Fits n := by
  rw [h.length_contents, maxFrameLen] at hLength
  rw [ClientData.Fits, intMax, incUnitLen]
  omega

theorem bounded_or_malformed {ι : Type} [DecidableEq ι] (alloc : Allocator UInt8)
    (ignoreMsgCount : Int) {events : List (ι × Bytes)} {server : Server ι}
    (hRun : (Server.init alloc ignoreMsgCount).run alloc events = .ok server) (c : ι) :
    ((server.rcvBuffer c).contents.length < maxFrameLen ∧
      ∀ n ≤ 15000, (server.rcvBuffer c).Fits n) ∨
    (Malformed (server.rcvBuffer c).contents ∧
      ∀ more server', server.run alloc more = .ok server' →
        (server'.rcvBuffer c).contents = (server.rcvBuffer c).contents ++ keptFrom c more) := by
  have hSound := sound_run alloc ignoreMsgCount hRun
  have hFirst := firstFrame_run alloc ignoreMsgCount hRun c
  obtain hShort | hLong := Nat.lt_or_ge (server.rcvBuffer c).contents.length maxFrameLen
  · exact .inl ⟨hShort, fun n hn => fits_of_length (hSound c) hShort hn⟩
  · right
    constructor
    · obtain hMalformed | hAwaited := malformed_or_awaited hFirst
      · exact hMalformed
      · have hLt := announced_lt (server.rcvBuffer c).contents
        omega
    · intro more server' hMore
      exact stuck_run alloc hSound (stuck_of_length hFirst hLong) hMore

end Server

def junk : Bytes := List.replicate 15000 'x'.toUInt8

theorem length_junk : junk.length = 15000 := by
  rw [junk, List.length_replicate]

theorem kept_junk : kept junk = junk := by
  apply kept_of_not_mem
  intro hMem
  rw [junk] at hMem
  exact absurd (List.eq_of_mem_replicate hMem) (by decide)

/-- Chunks of bytes that no frame begins with fill the buffer as long as its length is an
`int`. -/
theorem run_junk {k : Nat} (h : 15000 * k + 2049 ≤ intMax) :
    ∃ server : Server Unit,
      (Server.init (.filled 0) 0).run (.filled 0) (List.replicate k ((), junk)) = .ok server ∧
        (server.rcvBuffer ()).Valid ∧
        (server.rcvBuffer ()).contents = List.replicate (15000 * k) 'x'.toUInt8 := by
  induction k with
  | zero => exact ⟨_, rfl, ClientData.valid_init _, rfl⟩
  | succ k ih =>
    obtain ⟨server, hRun, hValid, hContents⟩ := ih (by omega)
    have hLength := hValid.length_contents
    rw [hContents, List.length_replicate] at hLength
    have hFits : (server.rcvBuffer ()).Fits (kept junk).length := by
      rw [kept_junk, length_junk, ClientData.Fits, incUnitLen]
      omega
    have hHead : ((server.rcvBuffer ()).contents ++ kept junk).head? ≠ some 'L'.toUInt8 := by
      rw [hContents, kept_junk, junk, List.replicate_append_replicate, List.head?_replicate,
        if_neg (by omega)]
      decide
    obtain ⟨buffer, hValid', hContents', hStep⟩ := Server.step_unframe (.filled 0) hValid
      (by rw [length_junk]; decide) hFits (unframe_of_announced (.inl (announced_of_head hHead)))
    refine ⟨server.update () ([].foldl Receiver.push server.api) buffer, ?_, ?_, ?_⟩
    · rw [List.replicate_succ', Server.run_concat, hRun]
      exact (pure_bind server _).trans hStep
    · rwa [Server.rcvBuffer_update]
    · rw [Server.rcvBuffer_update, hContents', hContents, kept_junk, junk,
        List.replicate_append_replicate, Nat.mul_succ]

theorem bounded_or_malformed_junk : ∃ server : Server Unit,
    (Server.init (.filled 0) 0).run (.filled 0) (List.replicate 6667 ((), junk)) = .ok server ∧
      Malformed (server.rcvBuffer ()).contents ∧
      ∀ more server', server.run (.filled 0) more = .ok server' →
        (server'.rcvBuffer ()).contents = (server.rcvBuffer ()).contents ++ keptFrom () more := by
  obtain ⟨server, hRun, -, hContents⟩ := run_junk (k := 6667) (by decide)
  refine ⟨server, hRun, ?_⟩
  obtain ⟨hShort, -⟩ | hMalformed := bounded_or_malformed (.filled 0) 0 hRun ()
  · rw [hContents, List.length_replicate] at hShort
    exact absurd hShort (by decide)
  · exact hMalformed

/-- More than 10⁸ bytes in the buffer, and in the end more than an `int` can count. -/
theorem not_bounded :
    ¬(∀ (events : List (Unit × Bytes)) (server : Server Unit),
      (∀ event ∈ events, 2 ≤ event.2.length ∧ event.2.length ≤ 15000) →
      (Server.init (.filled 0) 0).run (.filled 0) events = .ok server →
      (server.rcvBuffer ()).contents.length < maxFrameLen) ∧
    (Server.init (.filled 0) 0 : Server Unit).run (.filled 0)
      (List.replicate 143166 ((), junk)) = .error .overflow := by
  constructor
  · intro h
    obtain ⟨server, hRun, -, hContents⟩ := run_junk (k := 6667) (by decide)
    have hLength := h _ server (fun event hEvent => by
      rw [List.eq_of_mem_replicate hEvent, length_junk]
      decide) hRun
    rw [hContents, List.length_replicate] at hLength
    exact absurd hLength (by decide)
  · obtain ⟨server, hRun, hValid, hContents⟩ := run_junk (k := 143165) (by decide)
    have hLength := hValid.length_contents
    rw [hContents, List.length_replicate] at hLength
    have hChunk : 2 ≤ junk.length := by
      rw [length_junk]
      decide
    have hOverflow := receive_overflow (.filled 0) hValid hChunk fun hFits => by
        have hTotal := hFits.1
        rw [kept_junk, length_junk, intMax] at hTotal
        omega
    rw [List.replicate_succ', Server.run_concat, hRun]
    refine (pure_bind server _).trans ?_
    rw [Server.step, onData, hOverflow]
    rfl

end CStabilizer.ServerAPI
