import CStabilizer.Data
import CStabilizer.Library.Buckets
import CStabilizer.Library.Machine

/-! # The timer wheel

The timers of `SocketManager`: their ids, their boxes in the slots of the wheel,
and the loops of `Run` and `FireAll` cut at the points at which a clock is read,
a box is met or `OnTimer` returns. Callbacks create and delete timers in between. -/

namespace CStabilizer

open Library Library.Buckets

def maxArraySize : Nat := 1024

def maxTimersLimit : Nat := 128

def maxTimersIncreaseInterval : Nat := 128

def maxEpolWait : UInt32 := 5

/-- `MAX_PULSE_TIMEOUT` in milliseconds, as `CreateTimer` converts it. -/
def pulseInterval : UInt32 := 30000

/-- What no code reads: where the wheel stood when the timer was created, and
whether its destructor has run. -/
structure Timer where
  interval : UInt32
  repeated : Bool
  nextFire : UInt32
  timerID : Nat
  createdAt : Nat
  deleted : Bool
deriving DecidableEq, Repr

/-- A box refers to its timer by the number of the object. Where the wheel stood
when the box was put into its slot is recorded beside it. -/
structure TimerBox where
  timerID : Nat
  timer : Nat
  putAt : Nat
deriving DecidableEq, Repr

inductive TimerEvent where
  | onTimer (timer pos : Nat)
  | deleted (timer : Nat)
deriving DecidableEq, Repr

/-- `pos` counts the positions that `currentPos` has moved through, and `trace`
records calls of `OnTimer` and destructors; no code reads either. -/
structure TimerWheel where
  currentPos : UInt32
  lastTime : UInt32
  totalDeviation : UInt32
  maxTimers : Nat
  ptrTimers : Nat → Option Nat
  freeTimerIDs : List Nat
  setTimers : Nat → List TimerBox
  timers : Nat → Timer
  timerCount : Nat
  pos : Nat
  trace : List TimerEvent

namespace TimerWheel

def create : TimerWheel where
  currentPos := 1
  lastTime := 0
  totalDeviation := 0
  maxTimers := maxTimersLimit
  ptrTimers _ := none
  freeTimerIDs := (List.range' 1 (maxTimersLimit - 1)).reverse
  setTimers _ := []
  timers _ := ⟨0, false, 0, 0, 0, false⟩
  timerCount := 0
  pos := 1
  trace := []

variable (w : TimerWheel)

/-! ## Tables -/

def slot (ui : UInt32) : Nat := ui.toNat % maxArraySize

def isTimerLive (uiTimerID : Nat) : Bool := (w.ptrTimers uiTimerID).isSome

/-- The stack with its top first. A table that outgrows `int` is not built. -/
def getTimerIDFromStack : Option (Nat × TimerWheel) :=
  match w.freeTimerIDs with
  | id :: rest => some (id, { w with freeTimerIDs := rest })
  | [] =>
    if intMax < w.maxTimers + maxTimersIncreaseInterval then none
    else
      let ids := (List.range' w.maxTimers maxTimersIncreaseInterval).reverse
      some (ids.headD 0, { w with
        maxTimers := w.maxTimers + maxTimersIncreaseInterval
        ptrTimers := fun i => if i < w.maxTimers then w.ptrTimers i else none
        freeTimerIDs := ids.tail })

def setNextFire (pTimer : Nat) (uiFireTime : UInt32) : TimerWheel :=
  let timer := { w.timers pTimer with nextFire := uiFireTime }
  { w with timers := Function.update w.timers pTimer timer }

def resetTimerId (pTimer : Nat) : TimerWheel :=
  let timer := { w.timers pTimer with timerID := 0 }
  { w with timers := Function.update w.timers pTimer timer }

def pushBack (uiNext : UInt32) (uiTimerID pTimer : Nat) : TimerWheel :=
  let boxes := w.setTimers (slot uiNext) ++ [⟨uiTimerID, pTimer, w.pos⟩]
  { w with setTimers := Function.update w.setTimers (slot uiNext) boxes }

def addToTimerList (pTimer : Nat) : TimerWheel :=
  let timer := w.timers pTimer
  if timer.interval < 1024 then
    w.pushBack (w.currentPos + timer.interval) timer.timerID pTimer
  else
    (w.setNextFire pTimer (timer.interval - 1024 + 1)).pushBack
      (w.currentPos + 1024 - 1) timer.timerID pTimer

def addToCorrectSlot (pstTimeBox : TimerBox) : TimerWheel :=
  let pTimer := pstTimeBox.timer
  let uiNextFire := (w.timers pTimer).nextFire
  if uiNextFire < 1024 then
    (w.setNextFire pTimer 0).pushBack (w.currentPos + uiNextFire) pstTimeBox.timerID pTimer
  else
    (w.setNextFire pTimer (uiNextFire - 1024 + 1)).pushBack
      (w.currentPos + 1024 - 1) pstTimeBox.timerID pTimer

/-- The interval is the `double` of the caller in milliseconds, converted to `unsigned int`. -/
def createTimer (uiInt : UInt32) (isRepeated : Bool) : Option TimerWheel := do
  let (uiTimerID, w) ← w.getTimerIDFromStack
  let pTimer := w.timerCount
  let w : TimerWheel := { w with
    timers := Function.update w.timers pTimer ⟨uiInt, isRepeated, 0, uiTimerID, w.pos, false⟩
    timerCount := pTimer + 1
    ptrTimers := Function.update w.ptrTimers uiTimerID (some pTimer) }
  return w.addToTimerList pTimer

def addToDeletedTimerSet (uiTimerID : Nat) : TimerWheel :=
  { w with ptrTimers := Function.update w.ptrTimers uiTimerID none }

/-- The destructor of a timer, which is deleted once only. -/
def deleteTimer (pTimer : Nat) : Option TimerWheel :=
  let timer := w.timers pTimer
  if pTimer < w.timerCount ∧ timer.deleted = false then
    some { w.addToDeletedTimerSet timer.timerID with
      timers := Function.update w.timers pTimer { timer with deleted := true }
      trace := w.trace ++ [.deleted pTimer] }
  else none

def recycle (uiTimerID : Nat) : TimerWheel :=
  { w with freeTimerIDs := uiTimerID :: w.freeTimerIDs }

def onTimer (pTimer : Nat) : TimerWheel := { w with trace := w.trace ++ [.onTimer pTimer w.pos] }

/-- What the slot pass and `FireAll` both do after `OnTimer` has returned. -/
def finishCall (pTimeBox : TimerBox) : TimerWheel :=
  let timer := w.timers pTimeBox.timer
  if w.isTimerLive pTimeBox.timerID then
    if timer.repeated then
      (w.setNextFire pTimeBox.timer timer.interval).addToCorrectSlot pTimeBox
    else (w.resetTimerId pTimeBox.timer).recycle pTimeBox.timerID
  else w.recycle pTimeBox.timerID

/-! ## Positions -/

def advance (n : UInt32) : TimerWheel :=
  { w with currentPos := w.currentPos + n, pos := w.pos + n.toNat }

def deviate (n : UInt32) : TimerWheel := { w with totalDeviation := w.totalDeviation + n }

/-- `ui_CurrTime - ui_LastTime`, after which the reading is the last one. -/
def readClock (now : UInt32) : UInt32 × TimerWheel := (now - w.lastTime, { w with lastTime := now })

/-- One slot of the first loop of `FireAll`. The box of a dead timer is not
freed, but its id is. -/
def collectSlot (iLPos : Nat) (lstFireAll : List TimerBox) : TimerWheel × List TimerBox :=
  let boxes := w.setTimers iLPos
  ({ w with
      freeTimerIDs :=
        ((boxes.filter (!w.isTimerLive ·.timerID)).map TimerBox.timerID).reverse ++ w.freeTimerIDs
      setTimers := Function.update w.setTimers iLPos [] },
    lstFireAll ++ boxes.filter (w.isTimerLive ·.timerID))

/-- The first loop of `FireAll`, with the turns left until `uiTemp` is
`MAX_ARRAY_SIZE`. -/
def collectLoop : (turns : Nat) → (ui : UInt32) → TimerWheel → List TimerBox →
    TimerWheel × List TimerBox
  | 0, _, w, lstFireAll => (w, lstFireAll)
  | turns + 1, ui, w, lstFireAll =>
    if ui < w.currentPos + w.totalDeviation then
      if turns = 0 then ({ w with totalDeviation := 1024 - 1 }, lstFireAll)
      else
        let (w, lstFireAll) := w.collectSlot (slot ui) lstFireAll
        collectLoop turns (ui + 1) w lstFireAll
    else (w, lstFireAll)

/-- `FireAll` up to its second loop. -/
def collect : TimerWheel × List TimerBox :=
  let (w, lstFireAll) := collectLoop maxArraySize w.currentPos w []
  ({ w.advance w.totalDeviation with totalDeviation := 0 }, lstFireAll)

/-- The look-ahead of `Run`, which has at most `MAX_EPOL_WAIT` turns. -/
def pollLoop (uiMax : UInt32) : (turns : Nat) → (ui : UInt32) → UInt32
  | 0, _ => maxEpolWait
  | turns + 1, ui =>
    if ui < uiMax then
      if (w.setTimers (slot ui)).length > 0 then ui - w.currentPos + 1
      else pollLoop uiMax turns (ui + 1)
    else maxEpolWait

def pollInterval : UInt32 :=
  w.pollLoop (w.currentPos + maxEpolWait) maxEpolWait.toNat w.currentPos

/-- What `Run` does with the time that `ReadSockets` took. -/
def afterSockets (uiPollInterval uiRet : UInt32) : TimerWheel :=
  if uiPollInterval < uiRet then
    (w.deviate (uiRet - uiPollInterval + 1)).advance (uiPollInterval - 1)
  else if uiRet > 0 then w.advance (uiRet - 1)
  else w

/-! ## Control -/

/-- Where the program is, with what its local variables hold: the iterator of the
slot pass is at the first box of the slot or at the end, that of `FireAll` is at
the first of the boxes left. The intervals of the timers created since the
look-ahead are recorded. -/
inductive Control where
  | start
  | pass (atEnd : Bool)
  | passCall (pTimeBox : TimerBox) (atEnd : Bool)
  | fire (iteAll : List TimerBox)
  | fireCall (pTimeBox : TimerBox) (iteAll : List TimerBox)
  | sockets (uiPollInterval : UInt32) (created : List UInt32)

inductive Input where
  | createTimer (uiInt : UInt32) (isRepeated : Bool)
  | deleteTimer (pTimer : Nat)
  | clock (now : UInt32)
  -- The next box is met, or `OnTimer` returns
  | next

structure State where
  wheel : TimerWheel
  control : Control

/-- Whether code outside `Run` and `FireAll` has the control. -/
def Control.outside : Control → Bool
  | start | passCall .. | fireCall .. | sockets .. => true
  | pass _ | fire _ => false

def Control.noteCreated (uiInt : UInt32) : Control → Control
  | sockets uiPollInterval created => sockets uiPollInterval (created ++ [uiInt])
  | c => c

def lookAhead : State := ⟨w, .sockets w.pollInterval []⟩

/-- `Run` from the `++` behind the slot pass to the first box of `FireAll`, or to `ReadSockets`. -/
def endPass (now : UInt32) : State :=
  let (elapsed, w) := (w.advance 1).readClock now
  let w := w.deviate (elapsed / 2)
  if w.totalDeviation > 0 then ⟨w.collect.1, .fire w.collect.2⟩
  else w.lookAhead

def endFireAll (now : UInt32) : State :=
  let (uiFRet, w) := w.readClock now
  (w.deviate (uiFRet / 2)).lookAhead

def visitSlot : Option State :=
  match w.setTimers (slot w.currentPos) with
  | [] => none
  | pTimeBox :: rest =>
    let w := { w with setTimers := Function.update w.setTimers (slot w.currentPos) rest }
    if w.isTimerLive pTimeBox.timerID then
      if (w.timers pTimeBox.timer).nextFire = 0 then
        some ⟨w.onTimer pTimeBox.timer, .passCall pTimeBox rest.isEmpty⟩
      else some ⟨w.addToCorrectSlot pTimeBox, .pass rest.isEmpty⟩
    else some ⟨w.recycle pTimeBox.timerID, .pass rest.isEmpty⟩

def visitFireAll (pTimeBox : TimerBox) (iteAll : List TimerBox) : State :=
  let timer := w.timers pTimeBox.timer
  if w.isTimerLive pTimeBox.timerID then
    if timer.nextFire = 0 then
      ⟨(w.setNextFire pTimeBox.timer timer.interval).onTimer pTimeBox.timer,
        .fireCall pTimeBox iteAll⟩
    else ⟨w.addToCorrectSlot pTimeBox, .fire iteAll⟩
  else ⟨w.recycle pTimeBox.timerID, .fire iteAll⟩

/-- Whether the slot pass is over. -/
def passOver (atEnd : Bool) : Bool := atEnd || (w.setTimers (slot w.currentPos)).isEmpty

def step (s : State) : Input → Option State
  | .createTimer uiInt isRepeated =>
    if s.control.outside then
      (s.wheel.createTimer uiInt isRepeated).map (⟨·, s.control.noteCreated uiInt⟩)
    else none
  | .deleteTimer pTimer =>
    if s.control.outside then (s.wheel.deleteTimer pTimer).map (⟨·, s.control⟩) else none
  | .clock now =>
    match s.control with
    | .start =>
      (s.wheel.createTimer pulseInterval true).map fun w => ⟨(w.readClock now).2, .pass false⟩
    | .pass atEnd => if s.wheel.passOver atEnd then some (s.wheel.endPass now) else none
    | .fire [] => some (s.wheel.endFireAll now)
    | .sockets uiPollInterval _ =>
      let (uiRet, w) := s.wheel.readClock now
      some ⟨w.afterSockets uiPollInterval uiRet, .pass false⟩
    | _ => none
  | .next =>
    match s.control with
    | .pass false => s.wheel.visitSlot
    | .passCall pTimeBox atEnd => some ⟨s.wheel.finishCall pTimeBox, .pass atEnd⟩
    | .fire (pTimeBox :: iteAll) => some (s.wheel.visitFireAll pTimeBox iteAll)
    | .fireCall pTimeBox iteAll => some ⟨s.wheel.finishCall pTimeBox, .fire iteAll⟩
    | _ => none

def machine : Machine State Input where
  init := ⟨create, .start⟩
  step := step

end TimerWheel

end CStabilizer
