import CStabilizer.Data
import CStabilizer.Library.Machine

/-! # The client table

The clients of `SocketManager`: the table of descriptors, the send buffers, the
two sets of descriptors that outlive a batch, and `ReadSockets` cut at the points
at which a system call or a callback returns. Callbacks send, delete clients and
create new ones in between, and so does the code around `ReadSockets`. -/

namespace CStabilizer

open Library Library.CString Library.Memory

def maxMaxClientCount : Nat := 65000

def cliReadSize : Nat := 15000

def maxEpolEvents : Nat := 128

/-- `i_ReadTurns`. -/
def readTurns : Nat := 1024

/-- An entry of the table refers to its object by a number. -/
inductive ServerType where
  | server (pServer : Nat)
  | client (pClient : Nat)
deriving DecidableEq, Repr

/-- Whether its destructor has run is recorded beside a client. -/
structure Client where
  clientID : Nat
  server : Option Nat
  sendBuffer : ClientData
  isBuffered : Bool
  deleted : Bool

/-- An event with the flags that the code tests. -/
structure EpollEvent where
  fd : Nat
  rdhup : Bool
  readable : Bool
  writable : Bool
deriving DecidableEq, Repr

inductive ReadResult where
  | data (bytes : Bytes)
  | closed
  -- `EAGAIN`
  | again
  -- Any other error
  | failed
deriving DecidableEq, Repr

inductive WriteResult where
  | accepted (n : Nat)
  | again
  | failed
deriving DecidableEq, Repr

/-- The results of the writes of one `SendToClient`, and whether its `epoll_ctl` succeeds. -/
structure SendResults where
  writes : List WriteResult
  ctl : Bool
deriving DecidableEq, Repr

inductive SendExit where
  | all
  | again
  | failed
deriving DecidableEq, Repr

inductive SocketEvent where
  | onConnect (pClient : Nat)
  | onData (pClient : Nat) (bytes : Bytes)
  | onReadyToSend (pClient : Nat)
  | onDisconnect (pClient : Nat)
  | deleted (pClient : Nat)
  -- A call of `Client::Send`
  | send (pClient : Nat) (zData : Bytes)
  -- What the socket accepts in one call of `SendToClient`
  | wrote (pClient : Nat) (bytes : Bytes)
deriving DecidableEq, Repr

namespace SocketEvent

def client : SocketEvent → Nat
  | .onConnect pClient | .onData pClient _ | .onReadyToSend pClient | .onDisconnect pClient
  | .deleted pClient | .send pClient _ | .wrote pClient _ => pClient

/-- Whether it is an event of sending, not of a callback or a destructor. -/
def sends : SocketEvent → Bool
  | .send .. | .wrote .. => true
  | .onConnect _ | .onData .. | .onReadyToSend _ | .onDisconnect _ | .deleted _ => false

def passedTo (pClient : Nat) : SocketEvent → Bytes
  | .send pOther zData => if pOther = pClient then zData else []
  | _ => []

def acceptedFrom (pClient : Nat) : SocketEvent → Bytes
  | .wrote pOther bytes => if pOther = pClient then bytes else []
  | _ => []

def readFrom (pClient : Nat) : SocketEvent → Bytes
  | .onData pOther bytes => if pOther = pClient then bytes else []
  | _ => []

end SocketEvent

/-- `isOpen` and `epoll` belong to the kernel: the descriptors in use, and for each
one registered whether `EPOLLOUT` is armed. `trace` records what happens to the
clients; no code reads it. -/
structure ClientTable where
  serverTypes : Nat → Option ServerType
  clients : Nat → Client
  clientCount : Nat
  connectedClients : Nat → List Nat
  serverCount : Nat
  isOpen : Nat → Bool
  epoll : Nat → Option Bool
  onReadyToSendClients : Finset Nat
  diconClients : Finset Nat
  trace : List SocketEvent

namespace ClientTable

def create (alloc : Allocator UInt8) : ClientTable where
  serverTypes _ := none
  clients _ := ⟨0, none, .init alloc, false, false⟩
  clientCount := 0
  connectedClients _ := []
  serverCount := 0
  isOpen _ := false
  epoll _ := none
  onReadyToSendClients := ∅
  diconClients := ∅
  trace := []

variable (t : ClientTable)

def Alive (pClient : Nat) : Prop :=
  pClient < t.clientCount ∧ (t.clients pClient).deleted = false

instance instDecidableAlive (pClient : Nat) : Decidable (t.Alive pClient) :=
  inferInstanceAs (Decidable (_ ∧ _))

/-! ## What happened to a client -/

/-- All data passed to `Send`. -/
def passed (pClient : Nat) : Bytes := t.trace.flatMap (SocketEvent.passedTo pClient)

/-- All bytes that the socket has accepted. -/
def accepted (pClient : Nat) : Bytes := t.trace.flatMap (SocketEvent.acceptedFrom pClient)

/-- All bytes passed to `OnData`. -/
def received (pClient : Nat) : Bytes := t.trace.flatMap (SocketEvent.readFrom pClient)

/-! ## Updates -/

def record (event : SocketEvent) : ClientTable := { t with trace := t.trace ++ [event] }

def setBufferStatus (pClient : Nat) (bStatus : Bool) : ClientTable :=
  let client := { t.clients pClient with isBuffered := bStatus }
  { t with clients := Function.update t.clients pClient client }

def setSendBuffer (pClient : Nat) (buffer : ClientData) : ClientTable :=
  let client := { t.clients pClient with sendBuffer := buffer }
  { t with clients := Function.update t.clients pClient client }

def setItem (fd : Nat) (item : Option ServerType) : ClientTable :=
  { t with serverTypes := Function.update t.serverTypes fd item }

/-- `EPOLL_CTL_MOD` of a client, with or without `EPOLLOUT`. -/
def epollMod (fd : Nat) (out ctl : Bool) : ClientTable :=
  { t with epoll :=
      if ctl && (t.epoll fd).isSome then Function.update t.epoll fd (some out) else t.epoll }

def epollDel (fd : Nat) : ClientTable := { t with epoll := Function.update t.epoll fd none }

def insertDicon (fd : Nat) : ClientTable := { t with diconClients := insert fd t.diconClients }

def insertReady (fd : Nat) : ClientTable :=
  { t with onReadyToSendClients := insert fd t.onReadyToSendClients }

def addtoConnectedClientsList (pServer pClient : Nat) : ClientTable :=
  { t with connectedClients :=
      Function.update t.connectedClients pServer (t.connectedClients pServer ++ [pClient]) }

def removeFromConnectedClientsList (pServer pClient : Nat) : ClientTable :=
  { t with connectedClients :=
      Function.update t.connectedClients pServer ((t.connectedClients pServer).erase pClient) }

/-! ## Sending -/

/-- The loop of `SendToClient`, with what the socket has accepted in it. A write of
`iBufLen` bytes accepts some of them or fails. -/
def sendLoop (zBuf : Bytes) (iTotLen : Nat) :
    List WriteResult → (iBufLen iSendLen : Nat) → Bytes → Option (SendExit × Nat × Bytes)
  | [], _, iSendLen, wrote => if iSendLen < iTotLen then none else some (.all, iSendLen, wrote)
  | result :: rest, iBufLen, iSendLen, wrote =>
    if iSendLen < iTotLen then do
      let bytes ← read zBuf iSendLen iBufLen
      match result with
      | .accepted n =>
        if 1 ≤ n ∧ n ≤ iBufLen then
          sendLoop zBuf iTotLen rest (iBufLen - n) (iSendLen + n) (wrote ++ bytes.take n)
        else none
      | .again =>
        if rest.isEmpty then some (if 0 < iBufLen then .again else .failed, iSendLen, wrote)
        else none
      | .failed => if rest.isEmpty then some (.failed, iSendLen, wrote) else none
    else none

/-- What is returned, and the table. The entry of a server is not a client. -/
def sendToClient (fd : Nat) (results : SendResults) : Option (Int × ClientTable) :=
  match t.serverTypes fd with
  | none => if results.writes.isEmpty then some (-1, t) else none
  | some (.server _) => none
  | some (.client pClient) => do
    let buffer := (t.clients pClient).sendBuffer
    let (exit, iSendLen, wrote) ←
      sendLoop buffer.data buffer.currentLen results.writes buffer.currentLen 0 []
    let t := t.record (.wrote pClient wrote)
    match exit with
    | .all => return (iSendLen, t.setSendBuffer pClient buffer.resetData)
    | .again =>
      let buffer ← (buffer.deleteFromStart iSendLen).toOption
      let t := (t.setBufferStatus pClient true).setSendBuffer pClient buffer
      return (iSendLen, t.epollMod fd true results.ctl)
    | .failed =>
      let buffer ← (buffer.deleteFromStart iSendLen).toOption
      return (0, (t.setSendBuffer pClient buffer).insertDicon fd)

def appendToBuffer (alloc : Allocator UInt8) (pClient : Nat) (zData : Bytes) :
    Option ClientTable := do
  let buffer ← ((t.clients pClient).sendBuffer.append alloc zData zData.length).toOption
  return (t.setSendBuffer pClient buffer).record (.send pClient zData)

def send (alloc : Allocator UInt8) (pClient : Nat) (zData : Bytes) (results : SendResults) :
    Option (Bool × ClientTable) := do
  let t ← t.appendToBuffer alloc pClient zData
  let (_, t) ← t.sendToClient (t.clients pClient).clientID results
  return (!(t.clients pClient).isBuffered, t)

def sendBufferedData (pClient : Nat) (results : SendResults) : Option ClientTable := do
  let (_, t) ← t.sendToClient (t.clients pClient).clientID results
  return t

/-- A client that has been deleted cannot be sent to. -/
def sendToAllClients (alloc : Allocator UInt8) (pServer : Nat) (zBuf : Bytes)
    (results : Nat → SendResults) : Option ClientTable :=
  (t.connectedClients pServer).foldlM (fun t pClient => do
    if t.Alive pClient then
      let (_, t) ← t.send alloc pClient zBuf (results pClient)
      return t
    else none) t

/-! ## Clients and servers -/

/-- A new client that is registered under its descriptor. -/
def newClient (alloc : Allocator UInt8) (fd : Nat) (pServer : Option Nat) : ClientTable :=
  { t with
    clients := Function.update t.clients t.clientCount ⟨fd, pServer, .init alloc, false, false⟩
    clientCount := t.clientCount + 1
    serverTypes := Function.update t.serverTypes fd (some (.client t.clientCount)) }

/-- The kernel hands out a descriptor that is not in use, and registers it in
`epoll` when `EPOLL_CTL_ADD` succeeds. -/
def openSocket (fd : Nat) (ctl : Bool) : ClientTable :=
  { t with
    isOpen := Function.update t.isOpen fd true
    epoll := if ctl then Function.update t.epoll fd (some false) else t.epoll }

/-- The kernel may hand out any descriptor that is not in use. -/
def Free (fd : Nat) : Prop := t.isOpen fd = false

instance instDecidableFree (fd : Nat) : Decidable (t.Free fd) :=
  inferInstanceAs (Decidable (_ = _))

/-- The code writes the table at the descriptor that it has registered. Nothing
checks that the index is in the table: beyond its end the write is a fault. -/
def InTable (fd : Nat) (ctl : Bool) : Prop := ctl = true → fd < maxMaxClientCount

instance instDecidableInTable (fd : Nat) (ctl : Bool) : Decidable (InTable fd ctl) :=
  inferInstanceAs (Decidable (_ → _))

/-- `CreateClient` from the point at which the socket is connected. -/
def createClient (alloc : Allocator UInt8) (fd : Nat) (ctl : Bool) : ClientTable :=
  if ctl then (t.openSocket fd true).newClient alloc fd none else t.openSocket fd false

/-- `CreateServer` from the point at which the socket listens. -/
def createServer (fd : Nat) (ctl : Bool) : ClientTable :=
  if ctl then
    { (t.openSocket fd true).setItem fd (some (.server t.serverCount)) with
      serverCount := t.serverCount + 1 }
  else t.openSocket fd false

def addToDeletedClientSet (uiClientID : Nat) : ClientTable :=
  let t := (t.setItem uiClientID none).epollDel uiClientID
  { t with isOpen := Function.update t.isOpen uiClientID false }

/-- The destructor of a client. -/
def deleteClient (pClient : Nat) : ClientTable :=
  let client := t.clients pClient
  { (t.addToDeletedClientSet client.clientID).record (.deleted pClient) with
    clients := Function.update t.clients pClient { client with deleted := true } }

/-! ## Control -/

/-- Where the program is, with what its local variables hold: the events of the
batch that are left, the event and the client that are handled, the turns left
in the read loop, and the least descriptor that an iterator can still reach. -/
inductive Control where
  | run
  | events (rest : List EpollEvent)
  | accepting (pServer : Nat) (rest : List EpollEvent)
  -- In `OnConnect`
  | connecting (pServer pClient : Nat) (rest : List EpollEvent)
  -- In `OnDisconnect` for `EPOLLRDHUP`
  | hungUp (pClient : Nat) (rest : List EpollEvent)
  | reading (event : EpollEvent) (pClient : Option Nat) (turns : Nat) (rest : List EpollEvent)
  -- In `OnData`
  | receiving (event : EpollEvent) (pClient turns : Nat) (rest : List EpollEvent)
  -- In `OnDisconnect` behind a read
  | lost (event : EpollEvent) (pClient : Nat) (rest : List EpollEvent)
  | writing (iCliId : Nat) (pClient : Option Nat) (rest : List EpollEvent)
  | readyLoop (ite : Nat)
  -- In `OnReadyToSend`
  | readying (iClientId : Nat)
  | diconLoop (ite : Nat)
  -- In `OnDisconnect` behind a failed write
  | disconnecting (iClientId : Nat)
deriving DecidableEq, Repr

inductive Input where
  | poll (batch : List EpollEvent)
  | next
  -- The descriptor, and whether `EPOLL_CTL_ADD` succeeds
  | accept (iCliSock : Option (Nat × Bool))
  | read (result : ReadResult)
  -- The `EPOLLOUT` branch, and whether its own `epoll_ctl` succeeds
  | flush (results : SendResults) (ctl : Bool)
  | callbackReturn
  | send (pClient : Nat) (zData : Bytes) (results : SendResults)
  | sendBufferedData (pClient : Nat) (results : SendResults)
  | deleteClient (pClient : Nat)
  | createClient (fd : Nat) (ctl : Bool)
  | createServer (fd : Nat) (ctl : Bool)
deriving DecidableEq, Repr

structure State where
  table : ClientTable
  control : Control

/-- Whether code outside `ReadSockets` has the control. -/
def Control.outside : Control → Bool
  | run | connecting .. | hungUp .. | receiving .. | lost .. | readying _ | disconnecting _ => true
  | events _ | accepting .. | reading .. | writing .. | readyLoop _ | diconLoop _ => false

/-- Takes a client out of the table and calls `OnDisconnect`. -/
def disconnect (fd pClient : Nat) : ClientTable :=
  (t.setItem fd none).record (.onDisconnect pClient)

def dispatch (event : EpollEvent) (rest : List EpollEvent) : State :=
  match t.serverTypes event.fd with
  | none => ⟨t, .events rest⟩
  | some (.server pServer) => ⟨t, .accepting pServer rest⟩
  | some (.client pClient) =>
    if event.rdhup then ⟨t.disconnect event.fd pClient, .hungUp pClient rest⟩
    else ⟨t, .reading event (some pClient) (if event.readable then readTurns else 0) rest⟩

def acceptClient (alloc : Allocator UInt8) (pServer : Nat) (rest : List EpollEvent) :
    Option (Nat × Bool) → Option State
  | none => some ⟨t, .events rest⟩
  | some (iCliSock, ctl) =>
    if t.Free iCliSock ∧ InTable iCliSock ctl then
      if ctl then
        some ⟨((t.openSocket iCliSock true).newClient alloc iCliSock (some pServer)).record
          (.onConnect t.clientCount), .connecting pServer t.clientCount rest⟩
      else some ⟨t.openSocket iCliSock false, .accepting pServer rest⟩
    else none

/-- What is behind the read loop. -/
def afterRead (event : EpollEvent) (pClient : Option Nat) (rest : List EpollEvent) : Control :=
  if event.writable then .writing event.fd pClient rest else .events rest

def readClient (event : EpollEvent) (pClient turns : Nat) (rest : List EpollEvent) :
    ReadResult → Option State
  | .data bytes =>
    if 0 < bytes.length ∧ bytes.length ≤ cliReadSize then
      some ⟨t.record (.onData pClient bytes), .receiving event pClient turns rest⟩
    else none
  | .closed | .failed => some ⟨t.disconnect event.fd pClient, .lost event pClient rest⟩
  | .again => some ⟨t, afterRead event (some pClient) rest⟩

/-- The `EPOLLOUT` branch. -/
def flush (iCliId pClient : Nat) (results : SendResults) (ctl : Bool) : Option ClientTable := do
  let t := (t.insertReady iCliId).setBufferStatus pClient false
  let iBufLen := (t.clients pClient).sendBuffer.currentLen
  let (iSendLen, t) ← t.sendToClient iCliId results
  return if iBufLen = iSendLen then t.epollMod iCliId false ctl else t

/-- The element of a set at which an iterator stands that has passed all below `ite`. -/
def iterate (set : Finset Nat) (ite : Nat) : Option Nat := (set.filter (ite ≤ ·)).min

def visitReady (ite : Nat) : Option State :=
  match iterate t.onReadyToSendClients ite with
  | none => some ⟨{ t with onReadyToSendClients := ∅ }, .diconLoop 0⟩
  | some iClientId =>
    match t.serverTypes iClientId with
    | none => some ⟨t, .readyLoop (iClientId + 1)⟩
    | some (.server _) => none
    | some (.client pClient) => some ⟨t.record (.onReadyToSend pClient), .readying iClientId⟩

def visitDicon (ite : Nat) : Option State :=
  match iterate t.diconClients ite with
  | none => some ⟨{ t with diconClients := ∅ }, .run⟩
  | some iClientId =>
    match t.serverTypes iClientId with
    | none => some ⟨t.epollDel iClientId, .diconLoop (iClientId + 1)⟩
    | some (.server _) => none
    | some (.client pClient) => some ⟨t.disconnect iClientId pClient, .disconnecting iClientId⟩

def hangUp (pClient : Nat) : ClientTable :=
  match (t.clients pClient).server with
  | none => t
  | some pServer => t.removeFromConnectedClientsList pServer pClient

def callbackReturn : Control → Option State
  | .connecting pServer pClient rest =>
    some ⟨t.addtoConnectedClientsList pServer pClient, .accepting pServer rest⟩
  | .hungUp pClient rest => some ⟨t.hangUp pClient, .events rest⟩
  | .receiving event pClient turns rest => some ⟨t, .reading event (some pClient) turns rest⟩
  | .lost event pClient rest => some ⟨t, afterRead event (some pClient) rest⟩
  | .readying iClientId => some ⟨t, .readyLoop (iClientId + 1)⟩
  | .disconnecting iClientId => some ⟨t, .diconLoop (iClientId + 1)⟩
  | _ => none

def next : Control → Option State
  | .events [] => some ⟨t, .readyLoop 0⟩
  | .events (event :: rest) => some (t.dispatch event rest)
  | .reading event pClient 0 rest => some ⟨t, afterRead event pClient rest⟩
  | .reading event _ (_ + 1) rest =>
    if t.serverTypes event.fd = none then some ⟨t, afterRead event none rest⟩ else none
  | .readyLoop ite => t.visitReady ite
  | .diconLoop ite => t.visitDicon ite
  | _ => none

def step (alloc : Allocator UInt8) (s : State) : Input → Option State
  | .poll batch =>
    if s.control = .run ∧ batch.length ≤ maxEpolEvents then some ⟨s.table, .events batch⟩ else none
  | .next => s.table.next s.control
  | .accept iCliSock =>
    match s.control with
    | .accepting pServer rest => s.table.acceptClient alloc pServer rest iCliSock
    | _ => none
  | .read result =>
    match s.control with
    | .reading event _ (turns + 1) rest =>
      match s.table.serverTypes event.fd with
      | some (.client pClient) => s.table.readClient event pClient turns rest result
      | _ => none
    | _ => none
  | .flush results ctl =>
    match s.control with
    | .writing iCliId (some pClient) rest =>
      if s.table.Alive pClient then
        (s.table.flush iCliId pClient results ctl).map (⟨·, .events rest⟩)
      else none
    | _ => none
  | .callbackReturn => s.table.callbackReturn s.control
  | .send pClient zData results =>
    if s.control.outside ∧ s.table.Alive pClient then
      (s.table.send alloc pClient zData results).map (⟨·.2, s.control⟩)
    else none
  | .sendBufferedData pClient results =>
    if s.control.outside ∧ s.table.Alive pClient then
      (s.table.sendBufferedData pClient results).map (⟨·, s.control⟩)
    else none
  | .deleteClient pClient =>
    if s.control.outside ∧ s.table.Alive pClient then
      some ⟨s.table.deleteClient pClient, s.control⟩
    else none
  | .createClient fd ctl =>
    if s.control.outside ∧ s.table.Free fd ∧ InTable fd ctl then
      some ⟨s.table.createClient alloc fd ctl, s.control⟩
    else none
  | .createServer fd ctl =>
    if s.control.outside ∧ s.table.Free fd ∧ InTable fd ctl then
      some ⟨s.table.createServer fd ctl, s.control⟩
    else none

def machine (alloc : Allocator UInt8) : Machine State Input where
  init := ⟨create alloc, .run⟩
  step := step alloc

end ClientTable

end CStabilizer
