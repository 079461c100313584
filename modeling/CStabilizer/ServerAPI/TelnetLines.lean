import CStabilizer.ServerAPI.BufferBound

/-! # Frames on lines of their own

A telnet client ends each frame with a carriage return and a line feed. The
receiver drops the two bytes where they end a chunk; anywhere else they stay in
front of the next frame, and from then on the buffer does not begin with `L`. -/

namespace CStabilizer.ServerAPI

open CStabilizer.Library.CString CStabilizer.Library.Memory CStabilizer.Library.Segments

def line (message : ReceivedMessage) : Bytes :=
  encode message ++ [carriageReturn, '\n'.toUInt8]

/-- Every line but the last ends where a chunk ends; `u` is what came before the chunks. -/
def LinesEndChunks (u : Bytes) (messages : List ReceivedMessage) (chunks : List Bytes) : Prop :=
  ∀ front, front ≠ [] → front <+: messages → front ≠ messages →
    ∃ before, before <+: chunks ∧ u ++ before.flatten = encodeAll line front

theorem carriageReturn_not_mem_encode (message : ReceivedMessage) :
    carriageReturn ∉ encode message := by
  have hAll := carriageReturn_not_mem [message]
  rwa [encodeAll_cons, encodeAll, List.flatMap_nil, List.append_nil] at hAll

/-- The chunk as it is kept, where the chunk goes beyond the end of a frame but does not end with
its line. -/
theorem kept_behind {message : ReceivedMessage} {u data rest : Bytes} (hData : 2 ≤ data.length)
    (h : u ++ data = encode message ++ carriageReturn :: rest) (hRest : rest.length ≠ 1) :
    ∃ rest', u ++ kept data = encode message ++ carriageReturn :: rest' := by
  have hLength := congrArg List.length h
  simp only [List.length_append, List.length_cons] at hLength
  rw [kept]
  split
  · next hGet =>
    have hGet' : (u ++ data)[u.length + (data.length - 2)]? = some carriageReturn := by
      rwa [List.getElem?_append_right (Nat.le_add_right ..), Nat.add_sub_cancel_left]
    cases rest with
    | nil =>
      -- the byte before the last is the last byte of the frame
      rw [List.length_nil] at hLength
      rw [h, List.getElem?_append_left (by omega)] at hGet'
      exact absurd (List.mem_of_getElem? hGet') (carriageReturn_not_mem_encode message)
    | cons c rest =>
      rw [List.length_cons] at hLength hRest
      refine ⟨(c :: rest).take (rest.length - 1), ?_⟩
      have hTake := congrArg (List.take (u.length + (data.length - 2))) h
      rw [List.take_length_add_append, show u.length + (data.length - 2) =
        (encode message).length + (rest.length - 1 + 1) by omega, List.take_length_add_append,
        List.take_succ_cons] at hTake
      exact hTake
  · exact ⟨rest, h⟩

theorem kept_line {message : ReceivedMessage} {u data : Bytes} (hData : 2 ≤ data.length)
    (h : u ++ data = line message) : u ++ kept data = encode message := by
  have hLength := congrArg List.length h
  rw [line, List.length_append, List.length_append, List.length_cons, List.length_singleton] at hLength
  have hGet : data[data.length - 2]? = some carriageReturn := by
    have hGet' : (u ++ data)[u.length + (data.length - 2)]? =
        data[u.length + (data.length - 2) - u.length]? :=
      List.getElem?_append_right (Nat.le_add_right u.length (data.length - 2))
    rw [Nat.add_sub_cancel_left, h, line, show u.length + (data.length - 2) =
      (encode message).length by omega, List.getElem?_append_right (Nat.le_refl _), Nat.sub_self] at hGet'
    exact hGet'.symm
  rw [kept, if_pos hGet, ← List.take_length_add_append, h, line,
    List.take_left' (by omega)]

/-- Decoding what was left of a frame together with the bytes up to its end. -/
theorem unframe_leftover {message : ReceivedMessage} (h : Encodable message) {u t rest : Bytes}
    (hu : u.length ≤ (encode message).length) (hEq : u ++ t = encode message ++ rest)
    (hRest : unframe rest = .ok ([], rest)) :
    unframe (leftover encode [message] u ++ t) =
      .ok ([message].drop (arrived encode [message] u.length).length, rest) := by
  obtain hShort | hFull := Nat.lt_or_ge u.length (encode message).length
  · rw [leftover_of_lt hShort, arrived_of_lt hShort, hEq, unframe_some (firstFrame_encode h rest),
      hRest]
    rfl
  · obtain ⟨rfl, rfl⟩ := List.append_inj hEq (Nat.le_antisymm hu hFull)
    have hArrived : arrived encode [message] (encodeAll encode [message]).length = [message] :=
      arrived_all [message]
    have hLeftover : leftover encode [message] (encodeAll encode [message]) = [] :=
      leftover_all [message]
    rw [encodeAll_cons, encodeAll, List.flatMap_nil, List.append_nil] at hArrived hLeftover
    rw [hArrived, hLeftover]
    exact hRest

theorem unframe_of_head {s : Bytes} (h : s.head? = some carriageReturn) :
    unframe s = .ok ([], s) := by
  apply unframe_of_announced
  left
  apply announced_of_head
  rw [h]
  decide

theorem stuck_of_head {s : Bytes} (h : s.head? = some carriageReturn) : Stuck s := by
  intro t messages rest hUnframe
  have hHead : (s ++ t).head? = some carriageReturn := by rw [List.head?_append, h, Option.some_or]
  cases hUnframe.symm.trans (unframe_of_head hHead)
  exact ⟨rfl, rfl⟩

theorem Stuck.append {s : Bytes} (h : Stuck s) (t : Bytes) : Stuck (s ++ t) := by
  intro t' messages rest hUnframe
  rw [List.append_assoc] at hUnframe ⊢
  exact h (t ++ t') messages rest hUnframe

theorem length_line (message : ReceivedMessage) :
    (line message).length = (encode message).length + 2 := List.length_append

/-- No further chunks complete the line when one of them ends behind its frame and elsewhere than
with the line. -/
theorem line_ne {message : ReceivedMessage} {s : Bytes} {chunks : List Bytes}
    (hChunks : ∀ chunk ∈ chunks, 2 ≤ chunk.length) (hBehind : (encode message).length < s.length)
    (hLine : s ≠ line message) : s ++ chunks.flatten ≠ line message := by
  intro h
  cases chunks with
  | nil => exact hLine (by rwa [List.flatten_nil, List.append_nil] at h)
  | cons chunk chunks =>
    have hLength := congrArg List.length h
    have hChunk := hChunks chunk List.mem_cons_self
    rw [List.length_append, List.flatten_cons, List.length_append, length_line] at hLength
    omega

theorem chunks_eq_nil {chunks : List Bytes} (hChunks : ∀ chunk ∈ chunks, 2 ≤ chunk.length)
    (h : chunks.flatten = []) : chunks = [] := by
  cases chunks with
  | nil => rfl
  | cons chunk chunks =>
    have hChunk := hChunks chunk List.mem_cons_self
    have hEmpty := (List.append_eq_nil_iff.mp (List.flatten_cons ▸ h)).1
    rw [hEmpty] at hChunk
    cases hChunk

theorem behind_line {message : ReceivedMessage} {s rest : Bytes} (h : s <+: line message ++ rest)
    (hBehind : (encode message).length < s.length) (hLine : s ≠ line message) :
    ∃ behind, s = encode message ++ carriageReturn :: behind ∧ behind.length ≠ 1 := by
  have hPrefix : encode message ++ [carriageReturn] <+: s := by
    apply List.prefix_of_prefix_length_le _ h
    · rw [List.length_append, List.length_singleton]
      exact hBehind
    · rw [line, List.append_assoc]
      exact (List.prefix_append_right_inj _).mpr ⟨'\n'.toUInt8 :: rest, rfl⟩
  obtain ⟨behind, rfl⟩ := hPrefix
  rw [List.append_assoc, List.singleton_append] at h hLine ⊢
  refine ⟨behind, rfl, fun hOne => hLine ?_⟩
  obtain ⟨c, rfl⟩ := List.length_eq_one_iff.mp hOne
  rw [line, List.append_assoc, List.prefix_append_right_inj] at h
  obtain ⟨-, hNext⟩ := List.cons_prefix_cons.mp h
  obtain rfl := (List.cons_prefix_cons.mp hNext).1
  rfl

section Condition

variable {message : ReceivedMessage} {messages : List ReceivedMessage} {u data : Bytes}
  {chunks : List Bytes}

theorem linesEndChunks_within (hu : u.length ≤ (encode message).length) :
    LinesEndChunks u (message :: messages) (data :: chunks) ↔
      LinesEndChunks (u ++ data) (message :: messages) chunks := by
  refine forall_congr' fun front => forall_congr' fun hFront => forall_congr' fun hPrefix =>
    forall_congr' fun _ => ?_
  constructor
  · rintro ⟨before, hBefore, hEq⟩
    obtain rfl | ⟨before, rfl, hRest⟩ := List.prefix_cons_iff.mp hBefore
    · obtain ⟨m, front, rfl⟩ := List.exists_cons_of_ne_nil hFront
      obtain rfl := (List.cons_prefix_cons.mp hPrefix).1
      have hLength := congrArg List.length hEq
      rw [List.flatten_nil, List.append_nil, encodeAll_cons, List.length_append,
        length_line] at hLength
      omega
    · exact ⟨before, hRest, by rwa [List.append_assoc, ← List.flatten_cons]⟩
  · rintro ⟨before, hBefore, hEq⟩
    exact ⟨data :: before, List.cons_prefix_cons.mpr ⟨rfl, hBefore⟩,
      by rwa [List.flatten_cons, ← List.append_assoc]⟩

theorem linesEndChunks_line (hu : u.length ≤ (encode message).length)
    (hLine : u ++ data = line message) :
    LinesEndChunks u (message :: messages) (data :: chunks) ↔ LinesEndChunks [] messages chunks := by
  rw [linesEndChunks_within hu, hLine]
  constructor
  · intro h front hFront hPrefix hNe
    obtain ⟨before, hBefore, hEq⟩ := h (message :: front) (List.cons_ne_nil _ _)
      (List.cons_prefix_cons.mpr ⟨rfl, hPrefix⟩) fun hEq => hNe (List.cons.inj hEq).2
    rw [encodeAll_cons] at hEq
    exact ⟨before, hBefore, List.append_cancel_left hEq⟩
  · intro h front hFront hPrefix hNe
    obtain ⟨m, front, rfl⟩ := List.exists_cons_of_ne_nil hFront
    obtain ⟨rfl, hTail⟩ := List.cons_prefix_cons.mp hPrefix
    by_cases hLast : front = []
    · subst hLast
      exact ⟨[], List.nil_prefix, rfl⟩
    · obtain ⟨before, hBefore, hEq⟩ := h front hLast hTail fun hEq => hNe (by rw [hEq])
      exact ⟨before, hBefore, by rw [encodeAll_cons, ← hEq]; rfl⟩

theorem not_linesEndChunks (hu : u.length ≤ (encode message).length)
    (hChunks : ∀ chunk ∈ chunks, 2 ≤ chunk.length)
    (hBehind : (encode message).length < (u ++ data).length) (hLine : u ++ data ≠ line message)
    (hMessages : messages ≠ []) : ¬LinesEndChunks u (message :: messages) (data :: chunks) := by
  rw [linesEndChunks_within hu]
  intro h
  obtain ⟨before, hBefore, hEq⟩ := h [message] (List.cons_ne_nil _ _)
    (List.cons_prefix_cons.mpr ⟨rfl, List.nil_prefix⟩) fun hEq => hMessages (List.cons.inj hEq).2.symm
  rw [encodeAll_cons, encodeAll, List.flatMap_nil, List.append_nil] at hEq
  exact line_ne (fun chunk hChunk => hChunks chunk (hBefore.subset hChunk)) hBehind hLine hEq

end Condition

section Lines

variable {ι : Type} [DecidableEq ι] (alloc : Allocator UInt8) {ignoreMsgCount : Int} {c : ι}

theorem stuck_run_api {server server' : Server ι} (h : Sound server)
    (hStuck : Stuck (server.rcvBuffer c).contents) {chunks : List Bytes}
    (hRun : server.run alloc (chunks.map (c, ·)) = .ok server') : server'.api = server.api := by
  induction chunks generalizing server with
  | nil => cases hRun; rfl
  | cons data chunks ih =>
    rw [List.map_cons, Server.run_cons] at hRun
    obtain ⟨server₁, hStep, hRun⟩ := bind_eq_ok hRun
    obtain ⟨messages, hUnframe, hApi, -⟩ := Server.step_cases alloc h hStep
    obtain ⟨rfl, hContents⟩ := hStuck _ _ _ hUnframe
    exact (ih (h.step alloc hStep) (hContents ▸ hStuck.append _) hRun).trans hApi

/-- In front of the next chunk: `u` of the line of `message` has been received, not beyond the
frame, and the messages before it have been decoded. -/
structure InLine (ignoreMsgCount : Int) (c : ι) (done : List ReceivedMessage)
    (message : ReceivedMessage) (u : Bytes) (server : Server ι) : Prop where
  sound : Sound server
  api : server.api = counted ignoreMsgCount (done ++ arrived encode [message] u.length)
  contents : (server.rcvBuffer c).contents = leftover encode [message] u
  length : u.length ≤ (encode message).length

theorem length_kept_le (data : Bytes) : (kept data).length ≤ data.length := by
  rw [kept]
  split
  · exact List.length_take_le' _ _
  · exact Nat.le_refl _

section Step

variable {done : List ReceivedMessage} {message : ReceivedMessage} {u data : Bytes}
  {server : Server ι}

theorem InLine.decode (h : InLine ignoreMsgCount c done message u server)
    (hMessage : Encodable message) (hMin : 2 ≤ data.length) (hMax : data.length ≤ 15000)
    {decoded : List ReceivedMessage} {rest : Bytes}
    (hUnframe : unframe (leftover encode [message] u ++ kept data) = .ok (decoded, rest)) :
    ∃ server', server.step alloc (c, data) = .ok server' ∧ Sound server' ∧
      server'.api =
        counted ignoreMsgCount (done ++ (arrived encode [message] u.length ++ decoded)) ∧
      (server'.rcvBuffer c).contents = rest := by
  have hShort : (server.rcvBuffer c).contents.length < maxFrameLen := by
    have hLength := hMessage.length
    have hu := h.length
    rw [length_encode hMessage] at hu
    rw [h.contents, leftover, List.length_drop, maxFrameLen]
    omega
  rw [← h.contents] at hUnframe
  obtain ⟨buffer, hValid, hContents, hStep⟩ := Server.step_unframe alloc (h.sound c) hMin
    (fits_of_length (h.sound c) hShort ((length_kept_le data).trans hMax)) hUnframe
  refine ⟨_, hStep, h.sound.step alloc hStep, ?_, ?_⟩
  · rw [Server.update, h.api, foldl_push_counted, List.append_assoc]
  · rw [Server.rcvBuffer_update, hContents]

theorem InLine.within (h : InLine ignoreMsgCount c done message u server)
    (hMessage : Encodable message) (hMin : 2 ≤ data.length) (hMax : data.length ≤ 15000)
    (hPrefix : u ++ data <+: encode message) :
    ∃ server', server.step alloc (c, data) = .ok server' ∧
      InLine ignoreMsgCount c done message (u ++ data) server' := by
  have hAll : encodeAll encode [message] = encode message := by
    rw [encodeAll_cons, encodeAll, List.flatMap_nil, List.append_nil]
  have hKept : kept data = data := kept_of_not_mem fun hMem =>
    carriageReturn_not_mem_encode message (hPrefix.subset (List.mem_append_right _ hMem))
  rw [← hAll] at hPrefix
  have hUnframe := unframe_front (fun m hm => List.mem_singleton.mp (List.mem_of_mem_drop hm) ▸
    hMessage) (leftover_append_front hPrefix)
  obtain ⟨hArrived, hLeftover⟩ := leftover_add (t := data) ((List.prefix_append u data).trans hPrefix)
  rw [← hKept] at hUnframe
  obtain ⟨server', hStep, hSound, hApi, hContents⟩ := h.decode alloc hMessage hMin hMax hUnframe
  rw [hKept] at hApi hContents
  refine ⟨server', hStep, hSound, ?_, ?_, ?_⟩
  · rw [hApi, hArrived]
  · rw [hContents, hLeftover]
  · rw [← hAll]
    exact hPrefix.length_le

/-- The frame is complete with this chunk or was so before, and what is behind it is no
message. -/
theorem InLine.complete (h : InLine ignoreMsgCount c done message u server)
    (hMessage : Encodable message) (hMin : 2 ≤ data.length) (hMax : data.length ≤ 15000)
    {rest : Bytes} (hEq : u ++ kept data = encode message ++ rest)
    (hRest : unframe rest = .ok ([], rest)) :
    ∃ server', server.step alloc (c, data) = .ok server' ∧ Sound server' ∧
      server'.api = counted ignoreMsgCount (done ++ [message]) ∧
      (server'.rcvBuffer c).contents = rest := by
  obtain ⟨server', hStep, hSound, hApi, hContents⟩ :=
    h.decode alloc hMessage hMin hMax (unframe_leftover hMessage h.length hEq hRest)
  refine ⟨server', hStep, hSound, ?_, hContents⟩
  have hArrived : arrived encode [message] u.length ++
      [message].drop (arrived encode [message] u.length).length = [message] := by
    rw [arrived]
    split
    · rfl
    · rfl
  rw [hApi, hArrived]

omit [DecidableEq ι] in
theorem InLine.next {done : List ReceivedMessage} {server : Server ι} (hSound : Sound server)
    (hApi : server.api = counted ignoreMsgCount done) (hContents : (server.rcvBuffer c).contents = [])
    (message : ReceivedMessage) : InLine ignoreMsgCount c done message [] server where
  sound := hSound
  api := by
    rw [hApi, List.length_nil, arrived_of_lt (List.length_pos_iff.mpr (encode_ne_nil message)),
      List.append_nil]
  contents := by rw [hContents, leftover, List.drop_nil]
  length := Nat.zero_le _

end Step

theorem run_lines_iff {message : ReceivedMessage} {messages done : List ReceivedMessage} {u : Bytes}
    {server : Server ι} {chunks : List Bytes} (h : InLine ignoreMsgCount c done message u server)
    (hMessages : ∀ m ∈ message :: messages, Encodable m)
    (hChunks : ∀ chunk ∈ chunks, 2 ≤ chunk.length ∧ chunk.length ≤ 15000)
    (hStream : u ++ chunks.flatten = encodeAll line (message :: messages)) :
    (∃ server', server.run alloc (chunks.map (c, ·)) = .ok server' ∧
      server'.api = counted ignoreMsgCount (done ++ message :: messages)) ↔
    LinesEndChunks u (message :: messages) chunks := by
  induction chunks generalizing message messages done u server with
  | nil =>
    have hLength := congrArg List.length hStream
    have hu := h.length
    rw [List.flatten_nil, List.append_nil, encodeAll_cons, List.length_append,
      length_line] at hLength
    omega
  | cons data chunks ih =>
    have hMessage := hMessages message List.mem_cons_self
    obtain ⟨hMin, hMax⟩ := hChunks data List.mem_cons_self
    have hTail : ∀ chunk ∈ chunks, 2 ≤ chunk.length ∧ chunk.length ≤ 15000 :=
      fun chunk hChunk => hChunks chunk (List.mem_cons_of_mem _ hChunk)
    rw [List.flatten_cons, ← List.append_assoc] at hStream
    have hFront : u ++ data <+: encodeAll line (message :: messages) := ⟨_, hStream⟩
    rw [encodeAll_cons] at hFront hStream
    rw [List.map_cons, Server.run_cons]
    obtain hWithin | hBehind := Nat.lt_or_ge (encode message).length (u ++ data).length |>.symm
    · -- the chunk ends in the frame or with it
      have hPrefix : u ++ data <+: encode message := List.prefix_of_prefix_length_le hFront
        (by rw [line, List.append_assoc]; exact List.prefix_append ..) hWithin
      obtain ⟨server', hStep, hInLine⟩ := h.within alloc hMessage hMin hMax hPrefix
      rw [hStep, linesEndChunks_within h.length]
      exact ih hInLine hMessages hTail (by rw [hStream, encodeAll_cons])
    · by_cases hLine : u ++ data = line message
      · -- the chunk ends with the line, whose end is dropped
        obtain ⟨server', hStep, hSound, hApi, hContents⟩ := h.complete alloc hMessage hMin hMax
          ((kept_line hMin hLine).trans (List.append_nil _).symm) (unframe_of_announced (.inl rfl))
        rw [hStep, linesEndChunks_line h.length hLine]
        rw [hLine] at hStream
        have hRest := List.append_cancel_left hStream
        cases messages with
        | nil =>
          obtain rfl := chunks_eq_nil (fun chunk hChunk => (hTail chunk hChunk).1) hRest
          apply iff_of_true ⟨server', rfl, hApi⟩
          intro front hFront hPrefix
          exact absurd (List.prefix_nil.mp hPrefix) hFront
        | cons message' messages =>
          have hNext := ih (InLine.next hSound hApi hContents message')
            (fun m hm => hMessages m (List.mem_cons_of_mem _ hm)) hTail hRest
          rwa [List.append_assoc, List.singleton_append] at hNext
      · -- the chunk leaves a carriage return in front of the next line, if there is one
        have hTwo : ∀ chunk ∈ chunks, 2 ≤ chunk.length := fun chunk hChunk => (hTail chunk hChunk).1
        have hNonempty : messages ≠ [] := by
          rintro rfl
          apply line_ne hTwo hBehind hLine
          rw [hStream, encodeAll, List.flatMap_nil, List.append_nil]
        refine iff_of_false ?_ (not_linesEndChunks h.length hTwo hBehind hLine hNonempty)
        obtain ⟨rest, hEq, hRest⟩ := behind_line hFront hBehind hLine
        obtain ⟨rest', hKept⟩ := kept_behind hMin hEq hRest
        have hStuck : Stuck (carriageReturn :: rest') := stuck_of_head rfl
        obtain ⟨server', hStep, hSound, hApi, hContents⟩ :=
          h.complete alloc hMessage hMin hMax hKept (unframe_of_head rfl)
        rintro ⟨server'', hRun, hAll⟩
        rw [hStep] at hRun
        rw [stuck_run_api alloc hSound (hContents ▸ hStuck) hRun, hApi] at hAll
        have hCount := congrArg Receiver.currentMsgCount hAll
        simp only [counted, List.length_append, List.length_cons, List.length_nil] at hCount
        have hLength := List.length_pos_iff.mpr hNonempty
        omega

end Lines

theorem counted_lines_iff {ι : Type} [DecidableEq ι] (alloc : Allocator UInt8)
    (ignoreMsgCount : Int) (c : ι) {messages : List ReceivedMessage} {chunks : List Bytes}
    (hMessages : ∀ message ∈ messages, Encodable message)
    (hChunks : ∀ chunk ∈ chunks, 2 ≤ chunk.length ∧ chunk.length ≤ 15000)
    (hStream : chunks.flatten = encodeAll line messages) :
    (∃ server, (Server.init alloc ignoreMsgCount).run alloc (chunks.map (c, ·)) = .ok server ∧
      server.api = counted ignoreMsgCount messages) ↔ LinesEndChunks [] messages chunks := by
  cases messages with
  | nil =>
    obtain rfl := chunks_eq_nil (fun chunk hChunk => (hChunks chunk hChunk).1) hStream
    apply iff_of_true ⟨_, rfl, by rw [counted, List.drop_nil]; rfl⟩
    intro front hFront hPrefix
    exact absurd (List.prefix_nil.mp hPrefix) hFront
  | cons message messages =>
    have hInit : InLine ignoreMsgCount c [] message [] (Server.init alloc ignoreMsgCount) :=
      InLine.next (sound_init alloc ignoreMsgCount) (by rw [counted, List.drop_nil]; rfl) rfl message
    exact run_lines_iff alloc hInit hMessages hChunks hStream

def twoMessages : List ReceivedMessage := [⟨1, 10, [⟨10, 7⟩]⟩, ⟨2, 20, [⟨20, 3⟩]⟩]

theorem encodable_twoMessages : ∀ message ∈ twoMessages, Encodable message := by
  intro message hMessage
  rw [twoMessages, List.mem_cons, List.mem_singleton] at hMessage
  obtain rfl | rfl := hMessage
  · exact ⟨List.cons_ne_nil _ _, by decide⟩
  · exact ⟨List.cons_ne_nil _ _, by decide⟩

/-- The first line in two chunks, the second in one. -/
theorem counted_lines_iff_cut : ∃ server : Server Unit,
    (Server.init (.filled 0) 0).run (.filled 0)
      ([(line ⟨1, 10, [⟨10, 7⟩]⟩).take 7, (line ⟨1, 10, [⟨10, 7⟩]⟩).drop 7,
        line ⟨2, 20, [⟨20, 3⟩]⟩].map ((), ·)) = .ok server ∧
      server.api = counted 0 twoMessages := by
  apply (counted_lines_iff (.filled 0) 0 () encodable_twoMessages (by decide) (by decide)).mpr
  rintro front hFront hPrefix hNe
  refine ⟨[(line ⟨1, 10, [⟨10, 7⟩]⟩).take 7, (line ⟨1, 10, [⟨10, 7⟩]⟩).drop 7], ⟨[_], rfl⟩, ?_⟩
  obtain ⟨message, front, rfl⟩ := List.exists_cons_of_ne_nil hFront
  obtain ⟨rfl, hTail⟩ := List.cons_prefix_cons.mp hPrefix
  obtain rfl | ⟨front, rfl, hEnd⟩ := List.prefix_cons_iff.mp hTail
  · decide
  · obtain rfl := List.prefix_nil.mp hEnd
    exact absurd rfl hNe

/-- Two lines in one chunk: the second is behind a carriage return that is never taken off. -/
theorem not_counted_lines :
    ¬(∀ (messages : List ReceivedMessage) (chunks : List Bytes),
      (∀ message ∈ messages, Encodable message) →
      (∀ chunk ∈ chunks, 2 ≤ chunk.length ∧ chunk.length ≤ 15000) →
      chunks.flatten = encodeAll line messages →
      ∃ server : Server Unit, (Server.init (.filled 0) 0).run (.filled 0) (chunks.map ((), ·)) =
        .ok server ∧ server.api.pushed = messages) ∧
    ∃ server : Server Unit,
      (Server.init (.filled 0) 0).run (.filled 0) [((), encodeAll line twoMessages)] = .ok server ∧
        server.api.pushed = [⟨1, 10, [⟨10, 7⟩]⟩] ∧
        (server.rcvBuffer ()).contents.head? = some carriageReturn := by
  have hInit : InLine 0 () [] ⟨1, 10, [⟨10, 7⟩]⟩ [] (Server.init (.filled 0) 0) :=
    InLine.next (sound_init (.filled 0) 0) rfl rfl _
  have hLines : [] ++ encodeAll line twoMessages = encode ⟨1, 10, [⟨10, 7⟩]⟩ ++
      carriageReturn :: '\n'.toUInt8 :: line ⟨2, 20, [⟨20, 3⟩]⟩ := by decide
  obtain ⟨rest, hKept⟩ := kept_behind (by decide) hLines (by decide)
  obtain ⟨server, hStep, -, hApi, hContents⟩ := hInit.complete (.filled 0)
    (encodable_twoMessages _ List.mem_cons_self) (by decide) (by decide) hKept (unframe_of_head rfl)
  have hRun : (Server.init (.filled 0) 0 : Server Unit).run (.filled 0)
      [((), encodeAll line twoMessages)] = .ok server := by
    rw [Server.run_cons, hStep]
    rfl
  have hPushed : server.api.pushed = [⟨1, 10, [⟨10, 7⟩]⟩] := by
    rw [hApi]
    rfl
  refine ⟨fun h => ?_, server, hRun, hPushed, by rw [hContents]; rfl⟩
  obtain ⟨server', hRun', hAll⟩ := h twoMessages [encodeAll line twoMessages]
    encodable_twoMessages (by decide) (by decide)
  obtain rfl := Except.ok.inj (hRun.symm.trans hRun')
  rw [hPushed] at hAll
  exact absurd hAll (by decide)

end CStabilizer.ServerAPI
