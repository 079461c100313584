import CStabilizer.Library.Containers
import CStabilizer.Message

/-! # The processing thread

The heartbeat table, the label storage and the list of values that await
delivery, with the functions that `processQ` calls for each message. What a
message sends out of the thread is returned beside the new state. -/

namespace CStabilizer

open Library.Containers

structure ProcessingThread where
  clientCount : Int32
  deleteThreshold : Int
  labelDeliverySize : Int32
  processed : Int
  oldTimerTick : Int
  heartbeat : OrderedMap Int32 UInt64
  storage : Multimap UInt64 Int32
  deletedList : List Int32

namespace ProcessingThread

abbrev Entry := UInt64 × Int32

/-- Results of the system calls made for one message: what each `write`
returns for a buffer of the given length, and the clock in milliseconds. -/
structure Syscalls where
  writeCount : Nat → Int
  writeValues : Nat → Int
  clock : Int

/-- What one message lets out: the value of `GetStableTimestamp`, the range
erased from the storage, the values cleared from `deletedList` and the bytes
that the socket accepted. -/
structure Output where
  stable : UInt64
  erased : List Entry
  delivered : List Int32
  bytes : List UInt8

def create : ProcessingThread where
  clientCount := 0
  deleteThreshold := 0
  labelDeliverySize := 0
  processed := 0
  oldTimerTick := 0
  heartbeat := .empty
  storage := .empty
  deletedList := []

def setClientCount (t : ProcessingThread) (count : Int32) : ProcessingThread :=
  { t with
    clientCount := count
    heartbeat := ((List.range' 1 count.toInt.toNat).map Int32.ofNat).foldl
      (fun table n => table.assign n 0) t.heartbeat }

def setLabelDeliverySize (t : ProcessingThread) (batchSize : Int32) : ProcessingThread :=
  { t with labelDeliverySize := batchSize }

def setDeleteThreshold (t : ProcessingThread) (deleteThreshold : Int32) : ProcessingThread :=
  { t with deleteThreshold := deleteThreshold.toInt }

def start (count deleteThreshold batchSize : Int32) : ProcessingThread :=
  ((create.setClientCount count).setDeleteThreshold deleteThreshold).setLabelDeliverySize batchSize

def updateHeartbeatTable (t : ProcessingThread) (partitionId : Int32) (heartbeat : UInt64) :
    ProcessingThread := { t with heartbeat := t.heartbeat.assign partitionId heartbeat }

def getStableTimestamp (t : ProcessingThread) (partitionId : Int32) : ProcessingThread × UInt64 :=
  let (table, minStableTimestamp) := t.heartbeat.index partitionId 0
  ({ t with heartbeat := table }, scanMin minStableTimestamp table.values)

def insertBatchLabels (t : ProcessingThread) (labels : List Label) : ProcessingThread :=
  { t with storage := (labels.map Label.entry).foldl Multimap.insert t.storage }

/-- The loop of `DeletePossibleLabels` over the entries not yet visited, `it`
being the position of the first of them. -/
def deleteLoop (stableTimestamp : UInt64) :
    List Entry → (it : Nat) → (deletedList : List Int32) → (processed : Int) → Nat × List Int32 × Int
  | [], it, deletedList, processed => (it, deletedList, processed)
  | (first, second) :: rest, it, deletedList, processed =>
    if first > stableTimestamp then (it, deletedList, processed)
    else deleteLoop stableTimestamp rest (it + 1) (deletedList ++ [second]) (processed + 1)

/-- The final `it--` changes only the iterator, which is not read again. It has no
effect here, although it is undefined for `begin()`. The second component is the
erased range. -/
def deletePossibleLabels (t : ProcessingThread) (stableTimestamp : UInt64) :
    ProcessingThread × List Entry :=
  let (it, deletedList, processed) :=
    deleteLoop stableTimestamp t.storage.entries 0 t.deletedList t.processed
  ({ t with storage := t.storage.eraseFront it, deletedList, processed }, t.storage.entries.take it)

def intBytes (n : Int32) : List UInt8 :=
  (List.range 4).map fun i => UInt8.ofBitVec (n.toBitVec.extractLsb' (8 * i) 8)

/-- What the socket takes of a buffer when `write` returns `result`. -/
def accepted (result : Int) (buffer : List UInt8) : List UInt8 := buffer.take result.toNat

/-- No result of a call is tested; the reply is read only to be reported. -/
def doPossibleBatchDelivery (t : ProcessingThread) (sys : Syscalls) :
    ProcessingThread × List Int32 × List UInt8 :=
  let deletedCount := Int32.ofNat t.deletedList.length
  if deletedCount > t.labelDeliverySize then
    let values := (t.deletedList.flatMap intBytes).take (deletedCount.toInt.toNat * 4)
    ({ t with deletedList := [] }, t.deletedList,
      accepted (sys.writeCount 4) (intBytes deletedCount) ++
        accepted (sys.writeValues values.length) values)
  else (t, [], [])

def reportProgress (t : ProcessingThread) (sys : Syscalls) : ProcessingThread :=
  if t.processed ≥ t.deleteThreshold then { t with oldTimerTick := sys.clock, processed := 0 } else t

def processMessage (t : ProcessingThread) (msg : ReceivedMessage) (sys : Syscalls) :
    ProcessingThread × Output :=
  let t := t.insertBatchLabels msg.labels
  let t := t.updateHeartbeatTable msg.partionId msg.heartbeat
  let (t, stable) := t.getStableTimestamp msg.partionId
  let (t, erased) := t.deletePossibleLabels stable
  let (t, delivered, bytes) := t.doPossibleBatchDelivery sys
  (t.reportProgress sys, { stable, erased, delivered, bytes })

def processAll (t : ProcessingThread) :
    List (ReceivedMessage × Syscalls) → ProcessingThread × List Output
  | [] => (t, [])
  | (msg, sys) :: rest =>
    let (t, output) := t.processMessage msg sys
    let (t, outputs) := t.processAll rest
    (t, output :: outputs)

def processQ (t : ProcessingThread) (consumerQueue : List (ReceivedMessage × Syscalls)) :
    (ProcessingThread × List Output) × Int32 :=
  (t.processAll consumerQueue, Int32.ofNat consumerQueue.length * 24)

end ProcessingThread

end CStabilizer
