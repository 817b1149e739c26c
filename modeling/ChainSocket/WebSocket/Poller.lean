import ChainSocket.WebSocket.Handshake

/-!
# WebSocketPoller.hpp

`onRecv` of one session. The session is `none` once it has been closed, and its `readBuffer` is
the list of the bytes received and not erased; `behind` is what the memory holds from there on
while `onRecv` runs.
-/

namespace ChainSocket

open CString

/-- `userData.u32`. -/
inductive WsPhase where
  | handshakeWait | handshakeReq | frame
  deriving DecidableEq, Repr

/-- The fields of a `Session` that `onRecv` works on. -/
structure WsSession where
  sessionId : Nat
  userData : WsPhase
  readBuffer : List UInt8
  deriving DecidableEq, Repr

/-- The calls `onRecv` makes. -/
inductive WsCall where
  | sendTo (buf : List UInt8)
  | onReadMsg (payload : List UInt8)
  | onHandShake
  | closeSession (sessionId : Nat) (type : CloseType)
  deriving DecidableEq, Repr

structure WsState where
  hs : Handshake
  conn : Option WsSession
  calls : List WsCall
  deriving DecidableEq, Repr

abbrev WsM := EStateM Fault WsState

/-- What user code decides when `onReadMsg` or `onHandShake` is called, from the calls so far:
whether to close the session. The `onSend` that `sendTo` calls is not among the callbacks, and
`sendTo` keeps the session: that of the IOCP `Poller`, which may close it, is left out. -/
abbrev WsUser := List WsCall → Bool

/-- User code that does not touch the session. -/
def WsUser.idle : WsUser := fun _ => false

namespace WebSocketPoller

def memstr (substr : List UInt8) : List UInt8 → Option Nat
  | [] => none
  | b :: data =>
    if substr.isPrefixOf (b :: data) then some 0 else (memstr substr data).map (· + 1)

def conn : WsM WsSession := do
  match (← get).conn with
  | some c => return c
  | none => throw .freed

theorem conn_run (hs : Handshake) (c : WsSession) (calls : List WsCall) :
    conn.run ⟨hs, some c, calls⟩ = .ok c ⟨hs, some c, calls⟩ := rfl

def setConn (c : WsSession) : WsM Unit := modify fun s => { s with conn := some c }

def call (c : WsCall) : WsM Unit := modify fun s => { s with calls := s.calls ++ [c] }

def closeSession (type : CloseType) : WsM Unit := do
  let c ← conn
  call (.closeSession c.sessionId type)
  modify fun s => { s with conn := none }

/-- A call of `onReadMsg` or `onHandShake`. -/
def callback (user : WsUser) (c : WsCall) : WsM Unit := do
  call c
  if user (← get).calls then modify fun s => { s with conn := none }

/-- `conn.readBuffer.erase(len)`. -/
def erase (len : Nat) : WsM Unit := do
  let c ← conn
  setConn { c with readBuffer := c.readBuffer.drop len }

def liftExcept {α : Type} : Except Fault α → WsM α
  | .ok a => pure a
  | .error e => throw e

theorem liftExcept_run {α : Type} (a : α) (s : WsState) :
    (liftExcept (.ok a)).run s = .ok a s := rfl

/-- The branch of `WS_WAIT_HANDSHAKE_WAIT`: whether `onRecv` goes on to the frames. -/
def serverHandshake (behind : List UInt8) : WsM Bool := do
  let c ← conn
  match memstr (rn ++ rn) c.readBuffer with
  | none => return true
  | some pos =>
    let (frameType, hs) ←
      liftExcept (wsParseHandshake (c.readBuffer ++ behind) (pos + 1) (← get).hs)
    modify fun s => { s with hs := hs }
    if frameType = .error then
      closeSession .normal
      return false
    match hs.key with
    | none => throw .abort
    | some key =>
      call (.sendTo (← liftExcept (handshakeReply key)))
      setConn { c with userData := .frame }
      erase (pos + 4)
      return (← conn).readBuffer ≠ []

/-- The branch of `WS_WAIT_HANDSHAKE_REQ`: `sizeof("HTTP/1.1 101")` is 13, and the search for it
compares four bytes. -/
def clientHandshake (user : WsUser) : WsM Bool := do
  let c ← conn
  if c.readBuffer.length < 13 then return false
  match memstr (rn ++ rn) c.readBuffer with
  | none => return false
  | some pos =>
    match memstr (ascii "HTTP") c.readBuffer with
    | none =>
      closeSession .websocketReadHeadError
      return false
    | some _ =>
      setConn { c with userData := .frame }
      erase (pos + 4)
      callback user .onHandShake
      return (← conn).readBuffer ≠ []

/-- Writes the unmasked payload over the one at `offset`. -/
def writeBack (offset : Nat) (payload : List UInt8) : WsM Unit := do
  let c ← conn
  setConn { c with readBuffer :=
    c.readBuffer.take offset ++ payload ++ c.readBuffer.drop (offset + payload.length) }

/-- How an iteration of the frame loop ends: by a `break`, by the `return` of `onRecv`, or in front
of the next one. -/
inductive Iteration where
  | leave | returned | next (parseSize : Nat)
  deriving DecidableEq, Repr

def frameIteration (user : WsUser) (parseSize : Nat) : WsM Iteration := do
  match frameStep ((← conn).readBuffer.drop parseSize) with
  | .leave => return .leave
  | .close type =>
    closeSession type
    return .returned
  | .abort => throw .abort
  | .data headerSize payload =>
    writeBack (parseSize + headerSize) payload
    callback user (.onReadMsg payload)
    return .next (parseSize + (headerSize + payload.length))
  | .control headerSize payload =>
    writeBack (parseSize + headerSize) payload
    return .next parseSize

/-- At most `fuel` iterations: the `parseSize` the loop is left with, or `none` where `onRecv`
returns out of it. -/
def frameLoop (user : WsUser) : (fuel parseSize : Nat) → WsM (Option Nat)
  | 0, _ => throw .fuel
  | fuel + 1, parseSize => do
    match ← frameIteration user parseSize with
    | .leave => return some parseSize
    | .returned => return none
    | .next parseSize => frameLoop user fuel parseSize

def recvFrames (user : WsUser) (fuel : Nat) : WsM Nat := do
  match ← frameLoop user fuel 0 with
  | none => return WsFrameType.error.code.toNat
  | some parseSize =>
    erase parseSize
    return 0

/-- The branches in front of the frames: whether `onRecv` goes on to them. -/
def handshake (user : WsUser) (behind : List UInt8) : WsM Bool := do
  match (← conn).userData with
  | .handshakeWait => serverHandshake behind
  | .handshakeReq => clientHandshake user
  | .frame => return true

def onRecv (user : WsUser) (behind : List UInt8) (fuel : Nat) : WsM Nat := do
  let more ← handshake user behind
  if more then
    let c ← conn
    if c.userData = .frame then recvFrames user fuel else return 0
  else return 0

/-- One `recv` of `chunk` and the `onRecv` it leads to. A closed session receives nothing. -/
def receive (user : WsUser) (fuel : Nat) (chunk behind : List UInt8) : WsM Unit := do
  match (← get).conn with
  | none => return ()
  | some c =>
    setConn { c with readBuffer := c.readBuffer ++ chunk }
    let _ ← onRecv user behind fuel

/-- A run of chunks, each with what lies behind the data when it has come in. -/
def receiveAll (user : WsUser) (fuel : Nat) : List (List UInt8 × List UInt8) → WsM Unit
  | [] => return ()
  | (chunk, behind) :: chunks => do
    receive user fuel chunk behind
    receiveAll user fuel chunks

end WebSocketPoller

end ChainSocket
