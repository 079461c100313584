import CStabilizer.Library.Segments
import CStabilizer.ServerAPI.Wire

/-! # Decoding undoes encoding

Clients send frames, and the receiver gets their bytes in chunks that may end
anywhere. What it pushes are the messages that were sent, in the order in which
their last bytes arrived, and what a buffer holds is the front of a frame. -/

namespace CStabilizer.ServerAPI

open CStabilizer.Library.CString CStabilizer.Library.Memory CStabilizer.Library.Segments

theorem encode_ne_nil (message : ReceivedMessage) : encode message ≠ [] := by
  rw [encode]
  exact List.append_ne_nil_of_right_ne_nil _ (List.cons_ne_nil _ _)

/-- A front part of a stream of frames is decoded up to its last complete frame. -/
theorem unframe_front {messages : List ReceivedMessage}
    (hMessages : ∀ message ∈ messages, Encodable message) {s : Bytes}
    (hs : s <+: encodeAll encode messages) :
    unframe s = .ok (arrived encode messages s.length, leftover encode messages s) := by
  induction messages generalizing s with
  | nil =>
    obtain rfl := List.prefix_nil.mp hs
    exact unframe_of_announced (.inl announced_nil)
  | cons message messages ih =>
    have hMessage := hMessages message List.mem_cons_self
    obtain ⟨t, rfl, ht⟩ | ⟨hPrefix, hShort⟩ := prefix_encodeAll_cons hs
    · rw [unframe_some (firstFrame_encode hMessage t),
        ih (fun m hm => hMessages m (List.mem_cons_of_mem _ hm)) ht, arrived_append,
        leftover_append]
      rfl
    · rw [unframe_none (firstFrame_front hMessage hPrefix (by rwa [← length_encode hMessage])),
        arrived_of_lt hShort, leftover_of_lt hShort]

theorem carriageReturn_not_mem (messages : List ReceivedMessage) :
    carriageReturn ∉ encodeAll encode messages := by
  intro hMem
  obtain ⟨message, -, hMem⟩ := List.mem_flatMap.mp hMem
  rw [encode, List.mem_append, List.mem_append, header] at hMem
  obtain (hMem | hMem) | hMem := hMem
  · simp only [List.mem_cons, List.mem_append, List.not_mem_nil, or_false] at hMem
    obtain hMem | hMem | hMem | hMem := hMem
    · revert hMem; decide
    · revert hMem; decide
    · exact Library.Decimal.not_mem_zeroPadded (by decide) _ _ hMem
    · revert hMem; decide
  · exact not_mem_payload (by decide) (by decide) (by decide) (by decide) _ hMem
  · revert hMem; decide

theorem kept_of_not_mem {data : Bytes} (h : carriageReturn ∉ data) : kept data = data :=
  if_neg fun hGet => h (List.mem_of_getElem? hGet)

def counted (ignoreMsgCount : Int) (messages : List ReceivedMessage) : Receiver :=
  ⟨messages.length, ignoreMsgCount, messages.drop ignoreMsgCount.toNat⟩

theorem push_counted (ignoreMsgCount : Int) (messages : List ReceivedMessage)
    (message : ReceivedMessage) :
    (counted ignoreMsgCount messages).push message =
      counted ignoreMsgCount (messages ++ [message]) := by
  rw [counted, counted, Receiver.push, List.length_append, List.length_singleton]
  dsimp only
  split
  · rw [List.drop_append_of_le_length (by omega)]
    rfl
  · rw [List.drop_eq_nil_of_le (by omega), List.drop_eq_nil_of_le (by
      rw [List.length_append, List.length_singleton]
      omega)]
    rfl

theorem foldl_push_counted (ignoreMsgCount : Int) (messages more : List ReceivedMessage) :
    more.foldl Receiver.push (counted ignoreMsgCount messages) =
      counted ignoreMsgCount (messages ++ more) := by
  induction more generalizing messages with
  | nil => rw [List.append_nil]; rfl
  | cons message more ih =>
    rw [List.foldl_cons, push_counted, ih, List.append_assoc, List.singleton_append]

section Clients

variable {ι : Type} [DecidableEq ι] (alloc : Allocator UInt8)
  {messages : ι → List ReceivedMessage} {ignoreMsgCount : Int}

theorem Server.step_eq {server : Server ι} {c : ι} {data : Bytes} {api : Receiver}
    {buffer buffer' : ClientData}
    (hReceive : receive alloc (server.rcvBuffer c) data = .ok buffer)
    (hDecode : decode server.api buffer = .ok (api, buffer')) :
    server.step alloc (c, data) = .ok (server.update c api buffer') := by
  simp only [Server.step, onData, hReceive, hDecode, bind, Except.bind]
  rfl

/-- A chunk that fits, in front of bytes that decode: the messages are pushed, and the rest is what
the buffer holds. -/
theorem Server.step_unframe {server : Server ι} {c : ι} {data rest : Bytes}
    {decoded : List ReceivedMessage} (h : (server.rcvBuffer c).Valid) (hLength : 2 ≤ data.length)
    (hFits : (server.rcvBuffer c).Fits (kept data).length)
    (hUnframe : unframe ((server.rcvBuffer c).contents ++ kept data) =
      .ok (decoded, rest)) :
    ∃ buffer : ClientData, buffer.Valid ∧ buffer.contents = rest ∧
      server.step alloc (c, data) =
        .ok (server.update c (decoded.foldl Receiver.push server.api) buffer) := by
  obtain ⟨buffer, hReceive, hValid, hContents⟩ := receive_eq alloc h hLength hFits
  have hAgrees := decode_agrees server.api hValid
  rw [hContents, hUnframe] at hAgrees
  obtain ⟨buffer', hValid', hContents', hDecode⟩ := hAgrees.of_ok
  exact ⟨buffer', hValid', hContents', Server.step_eq alloc hReceive hDecode⟩

structure Decoded (messages : ι → List ReceivedMessage) (ignoreMsgCount : Int)
    (events : List (ι × Bytes)) (server : Server ι) : Prop where
  api : server.api = counted ignoreMsgCount ((arrivals encode messages events).map Prod.snd)
  valid : ∀ c, (server.rcvBuffer c).Valid
  contents : ∀ c, (server.rcvBuffer c).contents = leftover encode (messages c) (received c events)

theorem decoded_init : Decoded messages ignoreMsgCount [] (Server.init alloc ignoreMsgCount) where
  api := by simp [Server.init, counted, arrivals, arrivalsFrom]
  valid := fun _ => ClientData.valid_init alloc
  contents := fun _ => by rw [received, leftover, List.filter_nil, List.flatMap_nil, List.drop_nil]; rfl

/-- Chunks of at most `CLI_READ_SIZE` bytes, each client's the front part of its stream. -/
structure Sent (messages : ι → List ReceivedMessage) (events : List (ι × Bytes)) : Prop where
  chunks : ∀ event ∈ events, 2 ≤ event.2.length ∧ event.2.length ≤ 15000
  stream : ∀ c, received c events <+: encodeAll encode (messages c)

theorem Sent.front {events : List (ι × Bytes)} {event : ι × Bytes}
    (h : Sent messages (events ++ [event])) : Sent messages events where
  chunks := fun e he => h.chunks e (List.mem_append_left _ he)
  stream := fun c => (by
    have hStream := h.stream c
    rw [received_concat] at hStream
    exact (List.prefix_append _ _).trans hStream)

theorem Sent.last {events : List (ι × Bytes)} {c : ι} {data : Bytes}
    (h : Sent messages (events ++ [(c, data)])) :
    received c events ++ data <+: encodeAll encode (messages c) := by
  have hStream := h.stream c
  rwa [received_concat, if_pos rfl] at hStream

theorem Sent.kept {events : List (ι × Bytes)} {c : ι} {data : Bytes}
    (h : Sent messages (events ++ [(c, data)])) : kept data = data :=
  kept_of_not_mem fun hMem =>
    carriageReturn_not_mem (messages c) (h.last.subset (List.mem_append_right _ hMem))

theorem Decoded.fits (hMessages : ∀ c, ∀ message ∈ messages c, Encodable message)
    {events : List (ι × Bytes)} {server : Server ι} (h : Decoded messages ignoreMsgCount events server)
    {c : ι} (hStream : received c events <+: encodeAll encode (messages c)) {n : Nat}
    (hn : n ≤ 15000) : (server.rcvBuffer c).Fits n := by
  have hLength := length_leftover_le
    (fun m hm => by rw [length_encode (hMessages c m hm)]; exact (hMessages c m hm).length) hStream
  rw [← h.contents, (h.valid c).length_contents] at hLength
  rw [ClientData.Fits, intMax, incUnitLen]
  omega

theorem Decoded.step (hMessages : ∀ c, ∀ message ∈ messages c, Encodable message)
    {events : List (ι × Bytes)} {event : ι × Bytes} {server : Server ι} (h : Decoded messages ignoreMsgCount events server)
    (hSent : Sent messages (events ++ [event])) :
    ∃ server', server.step alloc event = .ok server' ∧
      Decoded messages ignoreMsgCount (events ++ [event]) server' := by
  obtain ⟨c, data⟩ := event
  have hStream := hSent.last
  have hFront : received c events <+: encodeAll encode (messages c) :=
    (List.prefix_append _ _).trans hStream
  obtain ⟨hMin, hMax⟩ := hSent.chunks (c, data) (List.mem_append_right _ (List.mem_singleton_self _))
  have hUnframe := unframe_front (fun m hm => hMessages c m (List.mem_of_mem_drop hm))
    (leftover_append_front hStream)
  rw [← h.contents, ← hSent.kept] at hUnframe
  obtain ⟨buffer', hValid', hContents', hStep⟩ := Server.step_unframe alloc (h.valid c) hMin
    (by rw [hSent.kept]; exact h.fits hMessages hFront hMax) hUnframe
  rw [hSent.kept, h.contents] at hContents' hStep
  obtain ⟨hArrived, hLeftover⟩ := leftover_add (t := data) hFront
  refine ⟨_, hStep, ?_, ?_, ?_⟩
  · rw [Server.update, h.api, foldl_push_counted, arrivals_concat, List.map_append, completed, hArrived,
      List.drop_left, List.map_map]
    simp
  · intro c'
    by_cases hc : c' = c
    · subst hc
      rwa [Server.rcvBuffer_update]
    · rw [Server.rcvBuffer_update_of_ne _ hc]
      exact h.valid c'
  · intro c'
    rw [received_concat]
    by_cases hc : c' = c
    · subst hc
      rw [Server.rcvBuffer_update, hContents', if_pos rfl, hLeftover]
    · rw [Server.rcvBuffer_update_of_ne _ hc, if_neg (Ne.symm hc), List.append_nil]
      exact h.contents c'

theorem decoded_run (hMessages : ∀ c, ∀ message ∈ messages c, Encodable message)
    {events : List (ι × Bytes)} (hSent : Sent messages events) :
    ∃ server, (Server.init alloc ignoreMsgCount).run alloc events = .ok server ∧
      Decoded messages ignoreMsgCount events server := by
  induction events using List.reverseRecOn with
  | nil => exact ⟨_, rfl, decoded_init alloc⟩
  | append_singleton events event ih =>
    obtain ⟨server, hRun, hDecoded⟩ := ih hSent.front
    obtain ⟨server', hStep, hDecoded'⟩ := hDecoded.step alloc hMessages hSent
    exact ⟨server', by rw [Server.run_concat, hRun]; exact hStep, hDecoded'⟩

theorem pushed_eq_arrivals {ι : Type} [DecidableEq ι] (alloc : Allocator UInt8)
    {messages : ι → List ReceivedMessage} {ignoreMsgCount : Int} {events : List (ι × Bytes)}
    (_hIgnore : 0 ≤ ignoreMsgCount) (hMessages : ∀ c, ∀ message ∈ messages c, Encodable message)
    (hSent : Sent messages events) :
    ∃ server, (Server.init alloc ignoreMsgCount).run alloc events = .ok server ∧
      server.api.pushed =
        ((arrivals encode messages events).map Prod.snd).drop ignoreMsgCount.toNat ∧
      ∀ c, encodeAll encode (arrived encode (messages c) (received c events).length) ++
          (server.rcvBuffer c).contents = received c events ∧
        (received c events = encodeAll encode (messages c) →
          ((arrivals encode messages events).filter fun arrival => arrival.1 = c).map Prod.snd =
            messages c ∧
          (server.rcvBuffer c).contents = []) := by
  obtain ⟨server, hRun, hDecoded⟩ := decoded_run alloc hMessages hSent
  refine ⟨server, hRun, by rw [hDecoded.api, counted], fun c => ⟨?_, fun hAll => ?_⟩⟩
  · rw [hDecoded.contents c, encodeAll_append_leftover (hSent.stream c)]
  have hSender := arrivals_sender messages (fun _ m _ => encode_ne_nil m) events c
  rw [hAll, arrived_all] at hSender
  exact ⟨hSender, by rw [hDecoded.contents c, hAll, leftover_all]⟩

end Clients

def sampleMessages : Bool → List ReceivedMessage
  | true => [⟨1, 10, [⟨10, 7⟩]⟩]
  | false => [⟨-2, 20, [⟨5, -1⟩, ⟨18446744073709551615, 3⟩]⟩]

def sampleEvents : List (Bool × Bytes) :=
  [(true, (encodeAll encode (sampleMessages true)).take 7),
    (false, (encodeAll encode (sampleMessages false)).take 13),
    (true, (encodeAll encode (sampleMessages true)).drop 7),
    (false, (encodeAll encode (sampleMessages false)).drop 13)]

/-- Two clients with a frame each, cut in the header and in a field, and the first message
ignored. -/
theorem pushed_eq_arrivals_cut : ∃ server : Server Bool,
    (Server.init (.filled 0) 1).run (.filled 0) sampleEvents = .ok server ∧
      server.api.pushed = sampleMessages false ∧ ∀ c, (server.rcvBuffer c).contents = [] := by
  have hMessages : ∀ c, ∀ message ∈ sampleMessages c, Encodable message := by
    rintro (_ | _) message hMessage
    · obtain rfl := List.mem_singleton.mp hMessage
      exact ⟨List.cons_ne_nil _ _, by decide⟩
    · obtain rfl := List.mem_singleton.mp hMessage
      exact ⟨List.cons_ne_nil _ _, by decide⟩
  obtain ⟨server, hRun, hPushed, hBuffers⟩ := pushed_eq_arrivals (.filled 0) (show (0 : Int) ≤ 1 by decide)
    hMessages (⟨by decide, by decide⟩ : Sent sampleMessages sampleEvents)
  refine ⟨server, hRun, hPushed.trans (by decide), fun c => ((hBuffers c).2 ?_).2⟩
  revert c
  decide

end CStabilizer.ServerAPI
