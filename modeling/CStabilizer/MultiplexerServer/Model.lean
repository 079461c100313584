import CStabilizer.ProcessingThread.Run
import CStabilizer.ServerAPI.Rounds
import CStabilizer.ServerAPI.Segmentation
import CStabilizer.ThreadUtil.FlowControl

/-! # The program as a whole

`main` starts the processing thread, sets it up, starts the receiver and sets it
up, one statement after the other. The receiver decodes what the clients send
and hands the messages over to the processing thread. A step is a statement of
`main`, a part of `Decode` between two calls of the event queue, a section of
the event queue under its mutex, or the handling of one message. -/

namespace CStabilizer.MultiplexerServer

open CStabilizer.Library.CString CStabilizer.Library.Memory
open CStabilizer.ServerAPI CStabilizer.ThreadUtil
open CStabilizer.ProcessingThread (Events Syscalls Output)

/-- The arguments of the program, without the port. -/
structure Arguments where
  clientCount : Int32
  deleteThreshold : Int64
  labelDeliverySize : Int32
  ignoreMsgCount : Int64

/-- What the members that no constructor sets hold until `main` sets them. -/
structure Garbage where
  clientCount : Int32
  deleteThreshold : Int
  labelDeliverySize : Int32
  ignoreMsgCount : Int
  currentMsgCount : Int

inductive Statement where
  | setClientCount
  | setDeleteThreshold
  | openConnectionToLabelReceiver
  | setLabelDeliverySize
  | initReceiverThread
  | startReceiverThread
  | setIgnoreMessageCount
deriving DecidableEq

/-- The statements behind `StartProcessingThread`. -/
def statements : List Statement :=
  [.setClientCount, .setDeleteThreshold, .openConnectionToLabelReceiver, .setLabelDeliverySize,
    .initReceiverThread, .startReceiverThread, .setIgnoreMessageCount]

def queueCapacity : UInt64 := 50000

/-- Where the receiver is: not started, waiting for an event, at the test of the loop of `Decode`,
between the counting of a message and its hand-over, or behind the hand-over. -/
inductive Decoding (ι : Type) where
  | created
  | epoll
  | head (c : ι) (payLoadLength : Int)
  | queueing (c : ι) (message : ReceivedMessage) (payLoadLength : Int)
  | closing (c : ι) (payLoadLength : Int)
  | faulted (fault : Fault)

/-- The threads, and beside them their history: the chunks received, the messages decoded before
and after `SetIgnoreMessageCount`, the messages handled and what they let out. -/
structure Stabilizer (ι : Type) where
  pending : List Statement
  receiverStatus : Option Bool
  system : System ReceivedMessage
  decoding : Decoding ι
  server : Server ι
  thread : ProcessingThread
  chunks : List (ι × Bytes)
  early : List ReceivedMessage
  later : List ReceivedMessage
  handled : Events
  outputs : List Output

namespace Stabilizer

variable {ι : Type}

def init (alloc : Allocator UInt8) (garbage : Garbage) : Stabilizer ι where
  pending := statements
  receiverStatus := none
  system := System.init queueCapacity
  decoding := .created
  server := ⟨⟨garbage.currentMsgCount, garbage.ignoreMsgCount, []⟩, fun _ => ClientData.init alloc⟩
  thread :=
    { ProcessingThread.create with
      clientCount := garbage.clientCount
      deleteThreshold := garbage.deleteThreshold
      labelDeliverySize := garbage.labelDeliverySize }
  chunks := []
  early := []
  later := []
  handled := []
  outputs := []

/-- `status` is what `connect` and the calls before it come to. -/
def execute (s : Stabilizer ι) (args : Arguments) (status : Bool) : Statement → Stabilizer ι
  | .setClientCount => { s with thread := s.thread.setClientCount args.clientCount }
  | .setDeleteThreshold =>
    { s with thread := s.thread.setDeleteThreshold args.deleteThreshold.toInt32 }
  | .openConnectionToLabelReceiver => { s with receiverStatus := some status }
  | .setLabelDeliverySize =>
    { s with thread := s.thread.setLabelDeliverySize args.labelDeliverySize }
  | .initReceiverThread =>
    { s with server := { s.server with api := { s.server.api with currentMsgCount := 0 } } }
  | .startReceiverThread => { s with decoding := .epoll }
  | .setIgnoreMessageCount =>
    { s with server :=
        { s.server with api := { s.server.api with ignoreMsgCount := args.ignoreMsgCount.toInt } } }

section Receiver

variable [DecidableEq ι]

/-- The receiver stores a client's buffer and goes on to the next test of the loop, if there is
one. -/
def nextRound (s : Stabilizer ι) (c : ι) : Except Fault (ClientData × Option Int) → Stabilizer ι
  | .error fault => { s with decoding := .faulted fault }
  | .ok (buffer, next) =>
    { s with
      server := s.server.update c s.server.api buffer
      decoding := match next with
        | none => .epoll
        | some payLoadLength => .head c payLoadLength }

def onData (alloc : Allocator UInt8) (s : Stabilizer ι) (c : ι) (data : Bytes) : Stabilizer ι :=
  nextRound { s with chunks := s.chunks ++ [(c, data)] } c
    (enterDecode alloc (s.server.rcvBuffer c) data)

/-- `++m_iCurrentMsgCount` and the test behind it. -/
def count (s : Stabilizer ι) (c : ι) (message : ReceivedMessage) (payLoadLength : Int) :
    Stabilizer ι :=
  { s with
    server := { s.server with api := s.server.api.push message }
    early := if .setIgnoreMessageCount ∈ s.pending then s.early ++ [message] else s.early
    later := if .setIgnoreMessageCount ∈ s.pending then s.later else s.later ++ [message]
    decoding :=
      if s.server.api.ignoreMsgCount < s.server.api.currentMsgCount + 1 then
        .queueing c message payLoadLength
      else .closing c payLoadLength }

def decodeHead (s : Stabilizer ι) (c : ι) (payLoadLength : Int) : Stabilizer ι :=
  match openFrame (s.server.rcvBuffer c) payLoadLength with
  | .error fault => { s with decoding := .faulted fault }
  | .ok none => { s with decoding := .epoll }
  | .ok (some (message, buffer, payLoadLength)) =>
    count { s with server := s.server.update c s.server.api buffer } c message payLoadLength

def decodeTail (s : Stabilizer ι) (c : ι) (payLoadLength : Int) : Stabilizer ι :=
  s.nextRound c (closeFrame (s.server.rcvBuffer c) payLoadLength)

end Receiver

/-- `processQ` for one message, with its results of system calls, all of which return. -/
def process (s : Stabilizer ι) (message : ReceivedMessage) (sys : Syscalls) : Stabilizer ι :=
  { s with
    thread := (s.thread.processMessage message sys).1
    handled := s.handled ++ [(message, sys)]
    outputs := s.outputs ++ [(s.thread.processMessage message sys).2] }

variable [DecidableEq ι]

/-- A step that one of the three threads takes on its own. -/
inductive Advance (args : Arguments) : Stabilizer ι → Stabilizer ι → Prop
  | main {s : Stabilizer ι} {statement : Statement} {rest : List Statement} (status : Bool)
      (h : s.pending = statement :: rest) :
      Advance args s { s.execute args status statement with pending := rest }
  | decodeHead {s : Stabilizer ι} {c : ι} {payLoadLength : Int}
      (h : s.decoding = .head c payLoadLength) :
      Advance args s (s.decodeHead c payLoadLength)
  | increaseWaits {s : Stabilizer ι} {c : ι} {message : ReceivedMessage} {payLoadLength : Int}
      {cond : QueueSizeCondition} (h : s.decoding = .queueing c message payLoadLength)
      (hIncreasing : s.system.Increasing message)
      (hCond : increaseQueueSize .receiver (.ofNat sizeOfEventPacket) s.system.cond .waits cond) :
      Advance args s { s with system := { s.system with cond, receiver := .waiting message } }
  | increaseLeaves {s : Stabilizer ι} {c : ι} {message : ReceivedMessage} {payLoadLength : Int}
      {cond : QueueSizeCondition} (h : s.decoding = .queueing c message payLoadLength)
      (hIncreasing : s.system.Increasing message)
      (hCond : increaseQueueSize .receiver (.ofNat sizeOfEventPacket) s.system.cond .leaves cond) :
      Advance args s { s with system := { s.system with cond, receiver := .reserved message } }
  | addToProducerQueue {s : Stabilizer ι} {message : ReceivedMessage}
      (h : s.system.receiver = .reserved message) :
      Advance args s { s with
        system := { s.system with stages := s.system.stages.add message, receiver := .added } }
  | pushToIntermediateQueue {s : Stabilizer ι} {c : ι} {message : ReceivedMessage}
      {payLoadLength : Int} (h : s.decoding = .queueing c message payLoadLength)
      (hAdded : s.system.receiver = .added) :
      Advance args s { s with
        system := { s.system with
          stages := s.system.stages.pushToIntermediate, receiver := .ready }
        decoding := .closing c payLoadLength }
  | decodeTail {s : Stabilizer ι} {c : ι} {payLoadLength : Int}
      (h : s.decoding = .closing c payLoadLength) :
      Advance args s (s.decodeTail c payLoadLength)
  | pollFromIntermediateQueue {s : Stabilizer ι} (h : s.system.processor = .start) :
      Advance args s { s with
        system := { s.system with
          stages := s.system.stages.pollFromIntermediate, processor := .polling 0 } }
  | process {s : Stabilizer ι} {processedMsg : Nat} {message : ReceivedMessage}
      {stages : Stages ReceivedMessage} (sys : Syscalls)
      (h : s.system.processor = .polling processedMsg)
      (hPoll : s.system.stages.pollFromConsumer = (some message, stages)) :
      Advance args s { s.process message sys with
        system := { s.system with stages, processor := .polling (processedMsg + 1) } }
  | processed {s : Stabilizer ι} {processedMsg : Nat} {stages : Stages ReceivedMessage}
      (h : s.system.processor = .polling processedMsg)
      (hPoll : s.system.stages.pollFromConsumer = (none, stages)) :
      Advance args s { s with
        system := { s.system with stages, processor := .decreasing processedMsg } }
  | decreaseWaits {s : Stabilizer ι} {processedMsg : Nat} {cond : QueueSizeCondition}
      (h : s.system.Decreasing processedMsg)
      (hCond : decreaseQueueSize .processor (System.amount processedMsg) s.system.cond .waits cond) :
      Advance args s { s with
        system := { s.system with cond, processor := .waiting processedMsg } }
  | decreaseLeaves {s : Stabilizer ι} {processedMsg : Nat} {cond : QueueSizeCondition}
      (h : s.system.Decreasing processedMsg)
      (hCond : decreaseQueueSize .processor (System.amount processedMsg) s.system.cond .leaves cond) :
      Advance args s { s with system := { s.system with cond, processor := .start } }

/-- Data that arrives, or the wakeup of a waiter that was not signalled. -/
inductive Event (alloc : Allocator UInt8) : Stabilizer ι → Stabilizer ι → Prop
  | onData {s : Stabilizer ι} (c : ι) (data : Bytes) (h : s.decoding = .epoll) :
      Event alloc s (s.onData alloc c data)
  | spuriousWakeup {s : Stabilizer ι} {t : Thread} (h : t ∈ s.system.cond.waiters) :
      Event alloc s { s with
        system := { s.system with
          cond := { s.system.cond with waiters := s.system.cond.waiters.erase t } } }

def Step (alloc : Allocator UInt8) (args : Arguments) (s s' : Stabilizer ι) : Prop :=
  Advance args s s' ∨ Event alloc s s'

def Reachable (alloc : Allocator UInt8) (args : Arguments) (garbage : Garbage)
    (s : Stabilizer ι) : Prop :=
  Relation.ReflTransGen (Step alloc args) (init alloc garbage) s

end Stabilizer

end CStabilizer.MultiplexerServer
