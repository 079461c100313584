import CStabilizer.ServerAPI.Model

/-! # A round of the decoding loop in two halves

`Decode` calls the event queue in the middle of a round of its loop, and the
queue can make it wait. The first half finds the message of a frame, the second
removes the frame and finds the next length. -/

namespace CStabilizer.ServerAPI

open CStabilizer.Library.CString CStabilizer.Library.Memory

/-- `OnData` up to the loop of `Decode`, with the length that the loop tests first. -/
def enterDecode (alloc : Allocator UInt8) (buffer : ClientData) (data : Bytes) :
    Except Fault (ClientData × Option Int) := do
  let buffer ← receive alloc buffer data
  let payLoadLength ← orFault .memory (getPayLoadLength buffer.data)
  if payLoadLength = 0 then .ok (buffer, none) else .ok (buffer, some payLoadLength)

/-- From the loop test to `ProcessedSocketData`: the message, the buffer from its payload on and
the length of the payload; nothing when the loop ends here. -/
def openFrame (buffer : ClientData) (payLoadLength : Int) :
    Except Fault (Option (ReceivedMessage × ClientData × Int)) :=
  if payLoadLength ≤ buffer.currentLen then
    if payLoadLength - 1 < 0 ∨ buffer.currentLen ≤ payLoadLength - 1 then .error .frameEnd
    else if buffer.data[(payLoadLength - 1).toNat]? = some '#'.toUInt8 then do
      let buffer ← buffer.deleteFromStart (payloadSize + 3 : Nat)
      if payLoadLength - 11 < 1 then .error .payloadSize
      else
        let copied ← orFault .memory (read buffer.data 0 (payLoadLength - 11 - 1).toNat)
        let message ← orFault .token (processedSocketData (copied ++ [0]))
        .ok (some (message, buffer, payLoadLength - 11))
    else .ok none
  else .ok none

/-- From the second `DeleteFromStart` on. -/
def closeFrame (buffer : ClientData) (payLoadLength : Int) :
    Except Fault (ClientData × Option Int) := do
  let buffer ← buffer.deleteFromStart payLoadLength
  let payLoadLength ← orFault .memory (getPayLoadLength buffer.data)
  if payLoadLength = 0 ∨ buffer.currentLen = 0 then .ok (buffer, none)
  else .ok (buffer, some payLoadLength)

/-- What is left of `Decode` once the next length is known. -/
def resumeLoop (api : Receiver) :
    Except Fault (ClientData × Option Int) → Except Fault (Receiver × ClientData)
  | .error fault => .error fault
  | .ok (buffer, none) => .ok (api, buffer)
  | .ok (buffer, some payLoadLength) => decodeLoop api buffer payLoadLength

/-- What is left of `Decode` after the first half of a round. -/
def resumeRound (api : Receiver) (buffer : ClientData) :
    Except Fault (Option (ReceivedMessage × ClientData × Int)) →
    Except Fault (Receiver × ClientData)
  | .error fault => .error fault
  | .ok none => .ok (api, buffer)
  | .ok (some (message, buffer, payLoadLength)) =>
    resumeLoop (api.push message) (closeFrame buffer payLoadLength)

theorem onData_eq_resumeLoop (alloc : Allocator UInt8) (api : Receiver) (buffer : ClientData)
    (data : Bytes) : onData alloc api buffer data = resumeLoop api (enterDecode alloc buffer data) := by
  rw [onData, enterDecode]
  cases receive alloc buffer data with
  | error fault => rfl
  | ok buffer =>
    dsimp only [bind, Except.bind]
    rw [decode]
    cases orFault Fault.memory (getPayLoadLength buffer.data) with
    | error fault => rfl
    | ok payLoadLength =>
      dsimp only [bind, Except.bind]
      split <;> rfl

/-- What `closeFrame` gives, with the message counted. -/
def finishPass (api : Receiver) :
    Except Fault (ClientData × Option Int) → Except Fault (Receiver × ClientData × Option Int)
  | .error fault => .error fault
  | .ok (buffer, next) => .ok (api, buffer, next)

theorem decodePayload_message_eq (api : Receiver) {buffer : ClientData} {payLoadLength : Int}
    (hSize : ¬payLoadLength < 1) {copied : Bytes}
    (hCopied : read buffer.data 0 (payLoadLength - 1).toNat = some copied)
    {message : ReceivedMessage} (hMessage : processedSocketData (copied ++ [0]) = some message) :
    decodePayload api buffer payLoadLength =
      finishPass (api.push message) (closeFrame buffer payLoadLength) := by
  rw [decodePayload, if_neg hSize, hCopied, closeFrame]
  simp only [orFault, hMessage, bind, Except.bind]
  cases buffer.deleteFromStart payLoadLength with
  | error fault => rfl
  | ok buffer =>
    dsimp only
    cases getPayLoadLength buffer.data with
    | none => rfl
    | some payLoadLength =>
      dsimp only
      split <;> rfl

/-- The two halves of a pass. -/
theorem decodePass_eq (api : Receiver) {buffer : ClientData} {payLoadLength : Int}
    (hLength : payLoadLength ≤ buffer.currentLen) :
    decodePass api buffer payLoadLength =
      match openFrame buffer payLoadLength with
      | .error fault => .error fault
      | .ok none => .ok (api, buffer, none)
      | .ok (some (message, buffer, payLoadLength)) =>
        finishPass (api.push message) (closeFrame buffer payLoadLength) := by
  rw [decodePass, openFrame, if_pos hLength]
  split
  · rfl
  split
  · cases buffer.deleteFromStart (payloadSize + 3 : Nat) with
    | error fault => rfl
    | ok buffer =>
      dsimp only [bind, Except.bind]
      by_cases hSize : payLoadLength - 11 < 1
      · rw [if_pos hSize, decodePayload, if_pos hSize]
      rw [if_neg hSize]
      cases hCopied : read buffer.data 0 (payLoadLength - 11 - 1).toNat with
      | none =>
        rw [decodePayload, if_neg hSize, hCopied]
        rfl
      | some copied =>
        cases hMessage : processedSocketData (copied ++ [0]) with
        | none =>
          rw [decodePayload, if_neg hSize, hCopied]
          simp only [orFault, hMessage, bind, Except.bind]
        | some message =>
          rw [decodePayload_message_eq api hSize hCopied hMessage]
          simp only [orFault, hMessage]
  · rfl

theorem decodeLoop_eq_resumeRound (api : Receiver) (buffer : ClientData) (payLoadLength : Int) :
    decodeLoop api buffer payLoadLength = resumeRound api buffer (openFrame buffer payLoadLength) := by
  by_cases hLength : payLoadLength ≤ buffer.currentLen
  · have hPass := decodePass_eq api hLength
    cases hOpen : openFrame buffer payLoadLength with
    | error fault =>
      rw [hOpen] at hPass
      exact decodeLoop_error hLength hPass
    | ok found =>
      obtain _ | ⟨message, opened, payload⟩ := found
      · rw [hOpen] at hPass
        exact decodeLoop_stop hLength hPass
      rw [hOpen] at hPass
      dsimp only at hPass
      rw [resumeRound]
      cases hClose : closeFrame opened payload with
      | error fault =>
        rw [hClose] at hPass
        exact decodeLoop_error hLength hPass
      | ok closed =>
        rw [hClose] at hPass
        obtain ⟨closed, _ | next⟩ := closed
        · exact decodeLoop_stop hLength hPass
        · exact decodeLoop_round hLength hPass
  · rw [decodeLoop_of_lt hLength, openFrame, if_neg hLength]
    rfl

end CStabilizer.ServerAPI
