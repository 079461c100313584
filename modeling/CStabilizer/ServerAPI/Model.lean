import CStabilizer.Data
import CStabilizer.Message

/-! # The receiver

`ServerAPI.cpp` from a chunk that a client sent to the messages that are pushed
to the event queue. A message is announced by the length of its frame and closed
by `#`. -/

namespace CStabilizer.ServerAPI

open CStabilizer.Library.CString CStabilizer.Library.Memory

structure Receiver where
  currentMsgCount : Int
  ignoreMsgCount : Int
  pushed : List ReceivedMessage

def processedLabel (lblstr : Bytes) : Option Label := do
  let lbl := strtokAll ':'.toUInt8 lblstr
  let heartbeat ← lbl[0]?
  let value ← lbl[1]?
  return ⟨strtoul heartbeat, atoi value⟩

/-- No result where the code reads behind the end of a vector of tokens. -/
def processedSocketData (data : Bytes) : Option ReceivedMessage := do
  let v := strtokAll '|'.toUInt8 (cstring data)
  let partitionId ← v[0]?
  let heartbeat ← v[1]?
  let lblstr ← v[2]?
  let labels ← (strtokAll ';'.toUInt8 lblstr).mapM processedLabel
  return ⟨atoi partitionId, strtoul heartbeat, labels⟩

def payloadSize : Nat := 8

def pipePos : Bytes → Nat → Option Nat
  | [], _ => none
  | c :: s, pos =>
    if c = 0 then some 0 else if c = '|'.toUInt8 then some pos else pipePos s (pos + 1)

def getPayLoadLength (data : Bytes) : Option Int := do
  let first ← data[0]?
  if first = 'L'.toUInt8 then
    let pos ← pipePos data 0
    if pos ≠ 0 then
      let payLoadSize ← read data 2 payloadSize
      return (atoi (payLoadSize ++ [0, 0])).toInt
    else return 0
  else return 0

def Receiver.push (api : Receiver) (message : ReceivedMessage) : Receiver :=
  let currentMsgCount := api.currentMsgCount + 1
  if api.ignoreMsgCount < currentMsgCount then
    { api with currentMsgCount, pushed := api.pushed ++ [message] }
  else { api with currentMsgCount }

/-- The part of the loop of `Decode` from the allocation of the payload on, with the next length
when the loop goes round. -/
def decodePayload (api : Receiver) (buffer : ClientData) (payLoadLength : Int) :
    Except Fault (Receiver × ClientData × Option Int) :=
  if payLoadLength < 1 then .error .payloadSize
  else do
    let copied ← orFault .memory (read buffer.data 0 (payLoadLength - 1).toNat)
    let message ← orFault .token (processedSocketData (copied ++ [0]))
    let buffer ← buffer.deleteFromStart payLoadLength
    let payLoadLength ← orFault .memory (getPayLoadLength buffer.data)
    if payLoadLength = 0 ∨ buffer.currentLen = 0 then .ok (api.push message, buffer, none)
    else .ok (api.push message, buffer, some payLoadLength)

def decodePass (api : Receiver) (buffer : ClientData) (payLoadLength : Int) :
    Except Fault (Receiver × ClientData × Option Int) :=
  if payLoadLength - 1 < 0 ∨ buffer.currentLen ≤ payLoadLength - 1 then .error .frameEnd
  else if buffer.data[(payLoadLength - 1).toNat]? = some '#'.toUInt8 then do
    let buffer ← buffer.deleteFromStart (payloadSize + 3 : Nat)
    decodePayload api buffer (payLoadLength - 11)
  else .ok (api, buffer, none)

theorem orFault_eq_ok {α : Type} {fault : Fault} {o : Option α} {x : α}
    (h : orFault fault o = .ok x) : o = some x := by
  cases o with
  | none => cases h
  | some y => cases h; rfl

theorem bind_eq_ok {α β : Type} {x : Except Fault α} {f : α → Except Fault β} {b : β}
    (h : (x >>= f) = .ok b) : ∃ a, x = .ok a ∧ f a = .ok b := by
  cases x with
  | error fault => cases h
  | ok a => exact ⟨a, rfl, h⟩

theorem deleteFromStart_currentLen {d d' : ClientData} {delLen : Int}
    (h : d.deleteFromStart delLen = .ok d') :
    0 ≤ delLen ∧ (d'.currentLen : Int) = d.currentLen - delLen := by
  unfold ClientData.deleteFromStart at h
  split at h
  · next hRange =>
    obtain ⟨moved, -, h⟩ := Option.bind_eq_some_iff.mp (orFault_eq_ok h)
    obtain ⟨data, -, h⟩ := Option.bind_eq_some_iff.mp h
    obtain ⟨data', -, h⟩ := Option.bind_eq_some_iff.mp h
    cases h
    exact ⟨hRange.1, by simp only; omega⟩
  · cases h

theorem decodePayload_shortens {api api' : Receiver} {buffer buffer' : ClientData}
    {payLoadLength : Int} {next : Option Int}
    (h : decodePayload api buffer payLoadLength = .ok (api', buffer', next)) :
    1 ≤ payLoadLength ∧ (buffer'.currentLen : Int) = buffer.currentLen - payLoadLength := by
  unfold decodePayload at h
  split at h
  · cases h
  · next hSize =>
    obtain ⟨copied, -, h⟩ := bind_eq_ok h
    obtain ⟨message, -, h⟩ := bind_eq_ok h
    obtain ⟨buffer₁, hDelete, h⟩ := bind_eq_ok h
    obtain ⟨length, -, h⟩ := bind_eq_ok h
    have hLength := (deleteFromStart_currentLen hDelete).2
    split at h
    · cases h
      exact ⟨by omega, hLength⟩
    · cases h
      exact ⟨by omega, hLength⟩

/-- A pass that finds the end of a frame takes exactly the announced length off the buffer, and
only such a pass goes round. -/
theorem decodePass_shortens {api api' : Receiver} {buffer buffer' : ClientData}
    {payLoadLength : Int} {next : Option Int}
    (h : decodePass api buffer payLoadLength = .ok (api', buffer', next)) :
    (buffer.data[(payLoadLength - 1).toNat]? = some '#'.toUInt8 → 12 ≤ payLoadLength ∧
      (buffer'.currentLen : Int) = buffer.currentLen - payLoadLength) ∧
    (next.isSome → buffer.data[(payLoadLength - 1).toNat]? = some '#'.toUInt8) := by
  unfold decodePass at h
  split at h
  · cases h
  split at h
  · next hHash =>
    obtain ⟨buffer₁, hDelete, h⟩ := bind_eq_ok h
    have hFirst := (deleteFromStart_currentLen hDelete).2
    have hSecond := decodePayload_shortens h
    rw [payloadSize] at hFirst
    exact ⟨fun _ => by omega, fun _ => hHash⟩
  · next hHash =>
    cases h
    exact ⟨fun h => absurd h hHash, nofun⟩

theorem decodePass_round {api api' : Receiver} {buffer buffer' : ClientData}
    {payLoadLength next : Int}
    (h : decodePass api buffer payLoadLength = .ok (api', buffer', some next)) :
    buffer'.currentLen < buffer.currentLen := by
  obtain ⟨hShortens, hHash⟩ := decodePass_shortens h
  have hLength := hShortens (hHash rfl)
  omega

def decodeLoop (api : Receiver) (buffer : ClientData) (payLoadLength : Int) :
    Except Fault (Receiver × ClientData) :=
  if payLoadLength ≤ buffer.currentLen then
    match h : decodePass api buffer payLoadLength with
    | .error fault => .error fault
    | .ok (api, buffer, none) => .ok (api, buffer)
    | .ok (api, buffer', some next) =>
      have := decodePass_round h
      decodeLoop api buffer' next
  else .ok (api, buffer)
termination_by buffer.currentLen

section Loop

variable {api api' : Receiver} {buffer buffer' : ClientData} {payLoadLength next : Int}

theorem decodeLoop_of_lt (h : ¬payLoadLength ≤ buffer.currentLen) :
    decodeLoop api buffer payLoadLength = .ok (api, buffer) := by
  rw [decodeLoop, if_neg h]

theorem decodeLoop_error {fault : Fault} (hLength : payLoadLength ≤ buffer.currentLen)
    (h : decodePass api buffer payLoadLength = .error fault) :
    decodeLoop api buffer payLoadLength = .error fault := by
  rw [decodeLoop, if_pos hLength]
  split
  · next h' => cases h.symm.trans h'; rfl
  · next h' => cases h.symm.trans h'
  · next h' => cases h.symm.trans h'

theorem decodeLoop_stop (hLength : payLoadLength ≤ buffer.currentLen)
    (h : decodePass api buffer payLoadLength = .ok (api', buffer', none)) :
    decodeLoop api buffer payLoadLength = .ok (api', buffer') := by
  rw [decodeLoop, if_pos hLength]
  split
  · next h' => cases h.symm.trans h'
  · next h' => cases h.symm.trans h'; rfl
  · next h' => cases h.symm.trans h'

theorem decodeLoop_round (hLength : payLoadLength ≤ buffer.currentLen)
    (h : decodePass api buffer payLoadLength = .ok (api', buffer', some next)) :
    decodeLoop api buffer payLoadLength = decodeLoop api' buffer' next := by
  rw [decodeLoop, if_pos hLength]
  split
  · next h' => cases h.symm.trans h'
  · next h' => cases h.symm.trans h'
  · next h' => cases h.symm.trans h'; rfl

end Loop

def decode (api : Receiver) (buffer : ClientData) : Except Fault (Receiver × ClientData) := do
  let payLoadLength ← orFault .memory (getPayLoadLength buffer.data)
  if payLoadLength = 0 then .ok (api, buffer) else decodeLoop api buffer payLoadLength

def carriageReturn : UInt8 := 13

def receive (alloc : Allocator UInt8) (buffer : ClientData) (data : Bytes) :
    Except Fault ClientData :=
  let len := data.length
  if len < 2 then .error .chunkIndex
  else if data[len - 2]? = some carriageReturn then
    buffer.append alloc ((data.set (len - 2) '\n'.toUInt8).set (len - 1) 0) (len - 2)
  else buffer.append alloc data len

def onData (alloc : Allocator UInt8) (api : Receiver) (buffer : ClientData) (data : Bytes) :
    Except Fault (Receiver × ClientData) := do
  let buffer ← receive alloc buffer data
  decode api buffer

structure Server (ι : Type) where
  api : Receiver
  rcvBuffer : ι → ClientData

namespace Server

variable {ι : Type}

def init (alloc : Allocator UInt8) (ignoreMsgCount : Int) : Server ι :=
  ⟨⟨0, ignoreMsgCount, []⟩, fun _ => ClientData.init alloc⟩

variable [DecidableEq ι]

def update (server : Server ι) (c : ι) (api : Receiver) (buffer : ClientData) : Server ι :=
  ⟨api, Function.update server.rcvBuffer c buffer⟩

theorem rcvBuffer_update (server : Server ι) (c : ι) (api : Receiver) (buffer : ClientData) :
    (server.update c api buffer).rcvBuffer c = buffer :=
  Function.update_self ..

theorem rcvBuffer_update_of_ne (server : Server ι) {c c' : ι} (h : c' ≠ c) (api : Receiver)
    (buffer : ClientData) : (server.update c api buffer).rcvBuffer c' = server.rcvBuffer c' :=
  Function.update_of_ne h ..

def step (alloc : Allocator UInt8) (server : Server ι) (event : ι × Bytes) :
    Except Fault (Server ι) := do
  let (api, buffer) ← onData alloc server.api (server.rcvBuffer event.1) event.2
  return server.update event.1 api buffer

def run (alloc : Allocator UInt8) (server : Server ι) (events : List (ι × Bytes)) :
    Except Fault (Server ι) :=
  events.foldlM (step alloc) server

theorem run_cons (alloc : Allocator UInt8) (server : Server ι) (event : ι × Bytes)
    (events : List (ι × Bytes)) : server.run alloc (event :: events) =
      server.step alloc event >>= fun server => server.run alloc events := List.foldlM_cons

theorem run_concat (alloc : Allocator UInt8) (server : Server ι) (events : List (ι × Bytes))
    (event : ι × Bytes) :
    server.run alloc (events ++ [event]) =
      server.run alloc events >>= fun server => server.step alloc event := by
  rw [run, List.foldlM_append]
  simp [run]

end Server

end CStabilizer.ServerAPI
