import CStabilizer.Library.MachineOrder

/-! # Labels and received messages

`unsigned long` is 64 bits wide and `int` 32. The vector of label pointers of
a message is the list of its labels; every label is owned by one message. -/

namespace CStabilizer

structure Label where
  timestamp : UInt64
  value : Int32
deriving DecidableEq, Repr

structure ReceivedMessage where
  partionId : Int32
  heartbeat : UInt64
  labels : List Label
deriving DecidableEq, Repr

def Label.entry (label : Label) : UInt64 × Int32 := (label.timestamp, label.value)

end CStabilizer
