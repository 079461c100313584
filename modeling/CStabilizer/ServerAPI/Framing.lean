import CStabilizer.Library.Splits
import CStabilizer.ServerAPI.Segmentation

/-! # Framing on arbitrary input

The length in a header is whatever eight unchecked bytes read as, and the same
length is an index, a count of bytes to delete and the size of an array. It does
no harm exactly where a closed frame is long enough for its own header. -/

namespace CStabilizer.ServerAPI

open CStabilizer.Library.CString CStabilizer.Library.Memory CStabilizer.Library.Splits

def Closed (s : Bytes) : Prop :=
  1 ≤ announced s ∧ announced s ≤ s.length ∧ s[(announced s - 1).toNat]? = some '#'.toUInt8

def framePayload (s : Bytes) : Bytes := (s.drop 11).take (announced s - 12).toNat

/-- The places where the receiver looks for a header: the start of the buffer, and what is behind
each closed frame whose payload it can read. -/
inductive Boundary : Bytes → Bytes → Prop
  | start (s : Bytes) : Boundary s s
  | next {s t : Bytes} {message : ReceivedMessage} (hClosed : Closed s)
      (hLength : 12 ≤ announced s)
      (hMessage : processedSocketData (framePayload s ++ [0]) = some message)
      (h : Boundary (s.drop (announced s).toNat) t) : Boundary s t

def Framed (s : Bytes) : Prop := 0 ≤ announced s ∧ (Closed s → 12 ≤ announced s)

def FramesSafe (s : Bytes) : Prop := ∀ t, Boundary s t → Framed t

/-- An outcome other than a fault of the framing; `token` is a fault of the parser. -/
def InRange {α : Type} (result : Except Fault α) : Prop :=
  ∀ fault, result = .error fault → fault = .token

theorem inRange_ok {α : Type} (x : α) : InRange (.ok x) := nofun

theorem inRange_error {α : Type} {fault : Fault} :
    InRange (.error fault : Except Fault α) ↔ fault = .token :=
  ⟨fun h => h fault rfl, fun h _ hEq => (Except.error.inj hEq).symm.trans h⟩

theorem inRange_map {α β : Type} (f : α → β) (result : Except Fault α) :
    InRange (result.map f) ↔ InRange result := by
  cases result with
  | error fault => exact inRange_error.trans inRange_error.symm
  | ok x => exact iff_of_true (inRange_ok _) (inRange_ok _)

theorem firstFrame_of_not_framed {s : Bytes} (h : ¬Framed s) :
    ∃ fault, fault ≠ .token ∧ firstFrame s = .error fault := by
  rw [Framed, not_and_or, Classical.not_imp] at h
  obtain hNegative | ⟨hClosed, hShort⟩ := h
  · refine ⟨.frameEnd, by decide, ?_⟩
    rw [firstFrame, if_neg (by omega), if_pos (by omega)]
  · obtain ⟨hMin, hMax, hHash⟩ := hClosed
    rw [firstFrame, if_neg (by omega), if_neg (by omega), if_pos hHash]
    split
    · exact ⟨.deleteFromStart, by decide, rfl⟩
    · exact ⟨.payloadSize, by decide, if_pos (by omega)⟩

theorem firstFrame_of_not_closed {s : Bytes} (h : 0 ≤ announced s) (hClosed : ¬Closed s) :
    firstFrame s = .ok none := by
  rw [firstFrame]
  split
  · rfl
  · next hWithin =>
    have hHash : s[(announced s - 1).toNat]? ≠ some '#'.toUInt8 := fun hHash =>
      hClosed ⟨by omega, by omega, hHash⟩
    rw [if_neg (by omega), if_neg hHash]

theorem firstFrame_of_closed {s : Bytes} (hClosed : Closed s) (hLength : 12 ≤ announced s) :
    firstFrame s = match processedSocketData (framePayload s ++ [0]) with
      | none => .error .token
      | some message => .ok (some (message, s.drop (announced s).toNat)) := by
  obtain ⟨hMin, hMax, hHash⟩ := hClosed
  rw [firstFrame, if_neg (by omega), if_neg (by omega), if_pos hHash,
    if_neg (by rw [payloadSize]; omega), if_neg (by omega)]
  rfl

theorem framesSafe_iff_of_not_closed {s : Bytes} (hClosed : ¬Closed s) :
    FramesSafe s ↔ Framed s := by
  constructor
  · exact fun h => h s (.start s)
  · intro h t ht
    cases ht with
    | start => exact h
    | next hClosed' => exact absurd hClosed' hClosed

theorem inRange_unframe_iff (s : Bytes) : InRange (unframe s) ↔ FramesSafe s := by
  -- on the length, since every frame that is taken off is one that a boundary lies behind
  induction hn : s.length using Nat.strongRecOn generalizing s with
  | ind n ih =>
    by_cases hFramed : Framed s
    · by_cases hClosed : Closed s
      · have hLength := hFramed.2 hClosed
        have hFirst := firstFrame_of_closed hClosed hLength
        cases hMessage : processedSocketData (framePayload s ++ [0]) with
        | none =>
          rw [hMessage] at hFirst
          rw [unframe_error hFirst, inRange_error]
          apply iff_of_true rfl
          intro t ht
          cases ht with
          | start => exact hFramed
          | next _ _ hMessage' => cases hMessage.symm.trans hMessage'
        | some message =>
          rw [hMessage] at hFirst
          rw [unframe_some hFirst, inRange_map, ih _ (hn ▸ firstFrame_length hFirst) _ rfl]
          constructor
          · intro h t ht
            cases ht with
            | start => exact hFramed
            | next _ _ _ ht => exact h t ht
          · exact fun h t ht => h t (.next hClosed hLength hMessage ht)
      · rw [unframe_none (firstFrame_of_not_closed hFramed.1 hClosed),
          framesSafe_iff_of_not_closed hClosed]
        exact iff_of_true (inRange_ok _) hFramed
    · obtain ⟨fault, hFault, hFirst⟩ := firstFrame_of_not_framed hFramed
      rw [unframe_error hFirst, inRange_error]
      exact iff_of_false hFault fun h => hFramed (h s (.start s))

theorem Agrees.inRange_iff {api : Receiver} {result : Except Fault (Receiver × ClientData)}
    {frames : Except Fault (List ReceivedMessage × Bytes)} (h : Agrees api result frames) :
    InRange result ↔ InRange frames := by
  cases h with
  | error fault => exact inRange_error.trans inRange_error.symm
  | ok messages buffer hValid => exact iff_of_true (inRange_ok _) (inRange_ok _)

theorem inRange_bind {α β : Type} {x : Except Fault α} {f : α → Except Fault β} :
    InRange (x >>= f) ↔ InRange x ∧ ∀ a, x = .ok a → InRange (f a) := by
  cases x with
  | error fault => exact ⟨fun h => ⟨fun fault' hEq => h fault' (by cases hEq; rfl), nofun⟩,
      fun h fault' hEq => h.1 fault' (by cases hEq; rfl)⟩
  | ok a => exact ⟨fun h => ⟨inRange_ok a, fun a' hEq => by cases hEq; exact h⟩,
      fun h => h.2 a rfl⟩

section Server

variable {ι : Type} [DecidableEq ι] (alloc : Allocator UInt8)

/-- The chunk has two bytes, the buffer's length stays within `int`, and the frames at every
boundary in the bytes that are then buffered are sound. -/
def ChunkSafe (server : Server ι) (event : ι × Bytes) : Prop :=
  2 ≤ event.2.length ∧ (server.rcvBuffer event.1).Fits (kept event.2).length ∧
    FramesSafe ((server.rcvBuffer event.1).contents ++ kept event.2)

theorem inRange_receive_iff {buffer : ClientData} (h : buffer.Valid) (data : Bytes) :
    InRange (receive alloc buffer data) ↔ 2 ≤ data.length ∧ buffer.Fits (kept data).length := by
  obtain hShort | hLength := Nat.lt_or_ge data.length 2
  · rw [receive_chunkIndex alloc buffer hShort, inRange_error]
    exact iff_of_false (by decide) fun h => by omega
  · by_cases hFits : buffer.Fits (kept data).length
    · obtain ⟨buffer', hReceive, -, -⟩ := receive_eq alloc h hLength hFits
      rw [hReceive]
      exact iff_of_true (inRange_ok _) ⟨hLength, hFits⟩
    · rw [receive_overflow alloc h hLength hFits, inRange_error]
      exact iff_of_false (by decide) fun h => hFits h.2

theorem inRange_onData_iff (api : Receiver) {buffer : ClientData} (h : buffer.Valid)
    (data : Bytes) : InRange (onData alloc api buffer data) ↔ 2 ≤ data.length ∧
      buffer.Fits (kept data).length ∧ FramesSafe (buffer.contents ++ kept data) := by
  rw [onData, inRange_bind, inRange_receive_iff alloc h, and_assoc]
  refine and_congr_right fun hLength => and_congr_right fun hFits => ?_
  obtain ⟨buffer', hReceive, hValid, hContents⟩ := receive_eq alloc h hLength hFits
  have hDecode : InRange (decode api buffer') ↔ FramesSafe (buffer.contents ++ kept data) := by
    rw [(decode_agrees api hValid).inRange_iff, hContents, inRange_unframe_iff]
  rw [← hDecode, hReceive]
  exact ⟨fun h => h buffer' rfl, fun h buffer'' hEq => by cases hEq; exact h⟩

def Sound (server : Server ι) : Prop := ∀ c, (server.rcvBuffer c).Valid

theorem onData_valid (api : Receiver) {buffer : ClientData} (h : buffer.Valid) {data : Bytes}
    {result : Receiver × ClientData} (hOk : onData alloc api buffer data = .ok result) :
    result.2.Valid := by
  obtain ⟨buffer', hReceive, hDecode⟩ := bind_eq_ok hOk
  have hInRange : InRange (receive alloc buffer data) := hReceive ▸ inRange_ok buffer'
  obtain ⟨hLength, hFits⟩ := (inRange_receive_iff alloc h data).mp hInRange
  obtain ⟨buffer'', hReceive', hValid, -⟩ := receive_eq alloc h hLength hFits
  cases hReceive.symm.trans hReceive'
  have hAgrees := decode_agrees api hValid
  rw [hDecode] at hAgrees
  generalize unframe buffer'.contents = frames at hAgrees
  cases hAgrees with
  | ok messages buffer hValid => exact hValid

theorem Sound.step {server server' : Server ι} (h : Sound server) {event : ι × Bytes}
    (hStep : server.step alloc event = .ok server') : Sound server' := by
  obtain ⟨⟨api, buffer⟩, hData, hEq⟩ := bind_eq_ok hStep
  have hValid := onData_valid alloc server.api (h event.1) hData
  cases hEq
  intro c
  by_cases hc : c = event.1
  · subst hc
    rwa [Server.rcvBuffer_update]
  · rw [Server.rcvBuffer_update_of_ne _ hc]
    exact h c

theorem inRange_step_iff {server : Server ι} (h : Sound server) (event : ι × Bytes) :
    InRange (server.step alloc event) ↔ ChunkSafe server event := by
  rw [Server.step, inRange_bind, inRange_onData_iff alloc server.api (h event.1), ChunkSafe]
  exact and_iff_left fun _ _ => inRange_ok _

omit [DecidableEq ι] in
theorem sound_init (ignoreMsgCount : Int) :
    Sound (Server.init alloc ignoreMsgCount : Server ι) := fun _ => ClientData.valid_init alloc

theorem Sound.run {server server' : Server ι} (h : Sound server) {events : List (ι × Bytes)}
    (hRun : server.run alloc events = .ok server') : Sound server' := by
  induction events using List.reverseRecOn generalizing server' with
  | nil => cases hRun; exact h
  | append_singleton events event ih =>
    rw [Server.run_concat] at hRun
    obtain ⟨server₁, hRun₁, hStep⟩ := bind_eq_ok hRun
    exact (ih hRun₁).step alloc hStep

theorem sound_run (ignoreMsgCount : Int) {events : List (ι × Bytes)} {server : Server ι}
    (h : (Server.init alloc ignoreMsgCount).run alloc events = .ok server) : Sound server :=
  (sound_init alloc ignoreMsgCount).run alloc h

def ChunksSafe (ignoreMsgCount : Int) (events : List (ι × Bytes)) : Prop :=
  Stepwise (fun before event => ∀ server : Server ι,
    (Server.init alloc ignoreMsgCount).run alloc before = .ok server → ChunkSafe server event) events

theorem inRange_run_iff (ignoreMsgCount : Int) (events : List (ι × Bytes)) :
    InRange ((Server.init alloc ignoreMsgCount).run alloc events) ↔
      ChunksSafe alloc ignoreMsgCount events := by
  induction events using List.reverseRecOn with
  | nil => exact iff_of_true (inRange_ok _) stepwise_nil
  | append_singleton events event ih =>
    rw [Server.run_concat, inRange_bind, ih, ChunksSafe, ChunksSafe, stepwise_concat]
    exact and_congr_right fun _ => forall_congr' fun server => imp_congr_right fun hRun =>
      inRange_step_iff alloc (sound_run alloc ignoreMsgCount hRun) event

theorem chunksSafe_of_sent {messages : ι → List ReceivedMessage} {ignoreMsgCount : Int}
    {events : List (ι × Bytes)} (hMessages : ∀ c, ∀ message ∈ messages c, Encodable message)
    (hSent : Sent messages events) : ChunksSafe alloc ignoreMsgCount events := by
  obtain ⟨server, hRun, -⟩ := decoded_run alloc hMessages hSent
  rw [← inRange_run_iff, hRun]
  exact inRange_ok server

end Server

inductive LoopHead (api : Receiver) (buffer : ClientData) : Receiver → ClientData → Int → Prop
  | first {payLoadLength : Int} (h : getPayLoadLength buffer.data = some payLoadLength)
      (hZero : payLoadLength ≠ 0) : LoopHead api buffer api buffer payLoadLength
  | round {api₁ api₂ : Receiver} {buffer₁ buffer₂ : ClientData} {payLoadLength next : Int}
      (h : LoopHead api buffer api₁ buffer₁ payLoadLength)
      (hLength : payLoadLength ≤ buffer₁.currentLen)
      (hPass : decodePass api₁ buffer₁ payLoadLength = .ok (api₂, buffer₂, some next)) :
      LoopHead api buffer api₂ buffer₂ next

theorem LoopHead.decode_eq {api api₁ : Receiver} {buffer buffer₁ : ClientData}
    {payLoadLength : Int} (h : LoopHead api buffer api₁ buffer₁ payLoadLength) :
    decode api buffer = decodeLoop api₁ buffer₁ payLoadLength := by
  induction h with
  | first h hZero =>
    rw [decode, h]
    exact if_neg hZero
  | round _ hLength hPass ih => rw [ih, decodeLoop_round hLength hPass]

/-- A pass that finds `#` at the end of the announced frame shortens the buffer by the announced
length, or the parser fails on the payload. -/
def PassesShorten (api : Receiver) (buffer : ClientData) : Prop :=
  ∀ api₁ buffer₁ payLoadLength, LoopHead api buffer api₁ buffer₁ payLoadLength →
    payLoadLength ≤ buffer₁.currentLen →
    buffer₁.data[(payLoadLength - 1).toNat]? = some '#'.toUInt8 →
    decodePass api₁ buffer₁ payLoadLength = .error .token ∨
      12 ≤ payLoadLength ∧ ∃ api₂ buffer₂ next,
        decodePass api₁ buffer₁ payLoadLength = .ok (api₂, buffer₂, next) ∧
          (buffer₂.currentLen : Int) = buffer₁.currentLen - payLoadLength

theorem passesShorten_of_inRange {api : Receiver} {buffer : ClientData}
    (h : InRange (decode api buffer)) : PassesShorten api buffer := by
  intro api₁ buffer₁ payLoadLength hHead hLength hHash
  rw [hHead.decode_eq] at h
  cases hPass : decodePass api₁ buffer₁ payLoadLength with
  | error fault => exact .inl (by rw [h fault (decodeLoop_error hLength hPass)])
  | ok result =>
    obtain ⟨api₂, buffer₂, next⟩ := result
    obtain ⟨hMin, hShorter⟩ := (decodePass_shortens hPass).1 hHash
    exact .inr ⟨hMin, api₂, buffer₂, next, rfl, hShorter⟩

/-- No access of the framing is out of range in a run, and every pass of a loop of `Decode` in it
that finds the end of a frame shortens the buffer. -/
structure FramingSafe {ι : Type} [DecidableEq ι] (alloc : Allocator UInt8) (ignoreMsgCount : Int)
    (events : List (ι × Bytes)) : Prop where
  inRange : InRange ((Server.init alloc ignoreMsgCount).run alloc events)
  passes : ∀ before c data after, events = before ++ (c, data) :: after →
    ∀ server : Server ι, (Server.init alloc ignoreMsgCount).run alloc before = .ok server →
    ∀ buffer, receive alloc (server.rcvBuffer c) data = .ok buffer → PassesShorten server.api buffer

theorem framingSafe_iff {ι : Type} [DecidableEq ι] (alloc : Allocator UInt8) (ignoreMsgCount : Int)
    (events : List (ι × Bytes)) :
    FramingSafe alloc ignoreMsgCount events ↔ ChunksSafe alloc ignoreMsgCount events := by
  constructor
  · exact fun h => (inRange_run_iff alloc ignoreMsgCount events).mp h.inRange
  · intro h
    constructor
    · exact (inRange_run_iff alloc ignoreMsgCount events).mpr h
    · intro before c data after hSplit server hRun buffer hReceive
      have hSound := sound_run alloc ignoreMsgCount hRun
      have hStep := (inRange_onData_iff alloc server.api (hSound c) data).mpr
        (h before (c, data) after hSplit server hRun)
      exact passesShorten_of_inRange ((inRange_bind.mp hStep).2 buffer hReceive)

/-- A chunk of one byte, and headers whose lengths are shorter than the header or negative. -/
theorem not_framingSafe :
    ¬(∀ events : List (Unit × Bytes), (∀ event ∈ events, 1 ≤ event.2.length) →
      FramingSafe (.filled 0) 0 events) ∧
    ¬FramingSafe (.filled 0) 0 [((), ['L'].map Char.toUInt8)] ∧
    ¬FramingSafe (.filled 0) 0 [((), ['L', '=', '4', '#', '|'].map Char.toUInt8)] ∧
    ¬FramingSafe (.filled 0) 0 [((), ['L', '=', '-', '5', '|'].map Char.toUInt8)] := by
  have hByte : ¬FramingSafe (.filled 0) 0 [((), ['L'].map Char.toUInt8)] := fun h =>
    absurd (h.inRange .chunkIndex rfl) (by decide)
  have hFramed : ∀ data, FramingSafe (.filled 0) 0 [((), data)] → Framed (kept data) := by
    intro data h
    have hChunk := (inRange_run_iff _ 0 [((), data)]).mp h.inRange [] _ [] rfl _ rfl
    exact hChunk.2.2 _ (.start _)
  refine ⟨fun h => hByte (h _ (by decide)), hByte, fun h => ?_, fun h => ?_⟩
  · exact absurd ((hFramed _ h).2 ⟨by decide, by decide, by decide⟩) (by decide)
  · exact absurd (hFramed _ h).1 (by decide)

end CStabilizer.ServerAPI
