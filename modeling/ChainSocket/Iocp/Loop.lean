import ChainSocket.Table
import ChainSocket.Lib.Reentrant
import Mathlib.Data.Fin.Basic

/-!
# IOCPPoller.cpp

The `Poller` over completion ports, with a table of `n` sessions (`maxId`). `contexts` are the
`IocpData` of the open sessions, less the `Session`.

What the system answers, and what the callbacks do, is part of each call and each completion. A
call on a session that is not open cannot be made. A closed session's `IocpData` stays where it
is, zeroed; its contexts are freed.
-/

namespace ChainSocket

inductive RWMod where
  | null | accept | connect | read | write
  deriving DecidableEq

/-- `Pre_IO_Context`. -/
structure IoContext where
  self : Nat
  accept : Nat
  action : RWMod

/-- `IocpData`. -/
structure IocpData where
  io_ctx_r : IoContext
  io_ctx_s : IoContext

structure Iocp (n : Nat) extends Table n where
  contexts : Fin n → IocpData
  /-- The id given last, or nothing for -1. -/
  curId : Option (Fin n)
  /-- The sessions whose completions have been taken for accepted connections. -/
  accepts : List (Fin n)
  /-- How many bytes `do_recv` has stored, and how many it has reported to `onRecv`. -/
  received : Nat
  reported : Nat

abbrev IocpM (n : Nat) := EStateM Fault (Iocp n)

/-- What a `send` of the loop in `postSend` answers; with `EAGAIN`, whether `WSASend` succeeds. -/
inductive IocpSend where
  | accepted (k : Nat)
  | eagain (posted : Bool)
  | error
  deriving DecidableEq

/-- What has to be answered for a session to be created. -/
structure Creation where
  mem : Alloc
  /-- `CreateIoCompletionPort`. -/
  port : Bool

/-- What `post_accept_ex` is answered: the socket of `WSASocket`, if there is one, and whether
`AcceptEx` succeeds or is left pending. -/
structure Posting where
  socket : Option Nat
  pending : Bool
  deriving DecidableEq

/-- `INVALID_SOCKET`. -/
def invalidSocket : Nat := 2 ^ 64 - 1

/-- The calls that callbacks and other users of the `Poller` make. -/
inductive IocpCall (n : Nat) where
  | sendTo (id : Fin n) (mem : Alloc) (buf : List UInt8)
  | postSend (id : Fin n)
  | postRecv (id : Fin n)
  | closeSession (id : Fin n) (type : CloseType)
  | initNewSession (fd : Nat) (type : SessionType) (creation : Creation)
  | listenTo (listener : Nat) (creation : Creation) (posting : Posting)
  | consume (id : Fin n) (len : Nat)

abbrev IocpScript (n : Nat) := Reentrant.Script (IocpCall n) IocpSend
abbrev IocpReplies (n : Nat) := Reentrant.Replies (IocpCall n) IocpSend

/-- A connection accepted on a listener, and what `onAccept` does. -/
structure IocpIncoming (n : Nat) where
  sock : Nat
  creation : Creation
  onAccept : IocpScript n

/-- The bytes of a `recv` that stores some. -/
structure Chunk where
  bytes : List UInt8
  some : bytes ≠ []
  mem : Alloc

/-- How `do_recv` finds the end of what has come in. -/
inductive DrainEnd where
  | eagain | zero | error
  deriving DecidableEq

/-- One of the two contexts of a session. -/
inductive CtxKind where
  | r | s
  deriving DecidableEq

/-- An entry of the completions, with what the calls made for it answer. -/
structure Completion (n : Nat) where
  id : Fin n
  /-- The session that posted the operation. -/
  birth : Nat
  ctx : Option CtxKind
  mem : Alloc
  reads : List Chunk
  drained : DrainEnd
  onRecv : IocpScript n
  sends : IocpReplies n
  creation : Creation
  onAccept : IocpScript n
  accepts : List (IocpIncoming n)
  posting : Posting

def Completion.waiting {n : Nat} (e : Completion n) : Waiting n := ⟨e.id, e.birth⟩

namespace Iocp

variable {n : Nat}

def nullContext : IoContext := ⟨0, 0, .null⟩

def init : Iocp n :=
  { Table.empty with
    contexts := fun _ => ⟨nullContext, nullContext⟩, curId := none, accepts := [],
    received := 0, reported := 0 }

def table : Effect.Lens (Iocp n) (Table n) where
  get p := p.toTable
  set t p := { p with toTable := t }
  get_set _ _ := rfl
  set_get _ := rfl
  set_set _ _ _ := rfl

def slot (id : Fin n) : IocpM n Session := table.zoom (Table.slot id)

def change (id : Fin n) (f : Session → Except Fault Session) : IocpM n Unit :=
  table.zoom (Table.change id f)

def act (event : Nat) (id : Fin n) : IocpM n Unit := table.zoom (Table.act event id)

/-! ## Sessions -/

/-- `(curId + i) % maxId`. -/
def nextId (h : 0 < n) (curId : Option (Fin n)) (i : Nat) : Fin n :=
  match curId with
  | none => ⟨(i - 1) % n, Nat.mod_lt _ h⟩
  | some c => ⟨(c + i) % n, Nat.mod_lt _ h⟩

/-- The ids of `1 ≤ i < maxId` are tried; nothing for -1. -/
def idGen (p : Iocp n) : Option (Fin n) :=
  if h : 0 < n then
    ((List.range' 1 (n - 1)).map (nextId h p.curId)).find? fun id => (p.sessions id).isNone
  else none

def setContexts (id : Fin n) (f : IocpData → IocpData) : IocpM n Unit :=
  modify fun p => { p with contexts := Function.update p.contexts id (f (p.contexts id)) }

/-- With -1 for an id, the session is stored in front of the table. -/
def initNewSession (fd : Nat) (type : SessionType) (creation : Creation) :
    IocpM n (Option (Fin n)) := fun p =>
  match p.idGen with
  | none => .error .outOfBounds { p with curId := none }
  | some id =>
    let p' : Iocp n :=
      { p with toTable := p.toTable.create id fd type creation.mem, curId := some id }
    if creation.port then
      .ok (some id) { p' with
        contexts := Function.update p'.contexts id ⟨⟨0, fd, .read⟩, ⟨0, fd, .write⟩⟩ }
    else
      .ok none { p' with
        contexts := Function.update p'.contexts id ⟨nullContext, nullContext⟩ }

def closeSession (id : Fin n) (_type : CloseType) : IocpM n Unit :=
  modify fun p =>
    match p.sessions id with
    | none => p
    | some conn => { p with toTable := p.toTable.remove id conn.fd }

/-- The accept that is pending behind it, if there is one: the session it is posted for, and the
socket it listens on. What the function returns instead, 0 or -1, is read nowhere. -/
def post_accept_ex (id : Fin n) (listenFd : Nat) (posting : Posting) :
    IocpM n (Option (Nat × Nat)) := do
  let p ← get
  match p.sessions id with
  | none => return none
  | some conn => do
    setContexts id fun data =>
      { data with io_ctx_r := ⟨listenFd, posting.socket.getD invalidSocket, .accept⟩ }
    match posting.socket with
    | none => return none
    | some _ => if posting.pending then return some (conn.birth, listenFd) else return none

/-- `listenTo`, from the point where it has a listening socket. -/
def listenTo (listener : Nat) (creation : Creation) (posting : Posting) : IocpM n Unit := do
  match ← initNewSession listener .listen creation with
  | none => return
  | some id => do
    let _ ← post_accept_ex id listener posting
    return

/-- The session `birth` at `id`: once it is closed, its contexts are NULL. -/
def postRecv (id : Fin n) (birth : Nat) : IocpM n Unit := do
  let p ← get
  match p.sessions id with
  | none => throw .null
  | some conn =>
    if conn.birth = birth then
      setContexts id fun data => { data with io_ctx_r := { data.io_ctx_r with action := .read } }
    else throw .null

/-! ## Sending -/

/-- The loop of `postSend`, for the session `birth` at `id`: a session that has been closed has
nothing left to send. The answers end with `EAGAIN`. -/
def sendLoop (id : Fin n) (birth : Nat) : List (IocpSend × IocpM n Unit) → IocpM n Unit
  | [] => do
    let p ← get
    match p.sessions id with
    | none => return
    | some conn =>
      if conn.birth ≠ birth ∨ conn.writeBuffer.size = 0 then return
      else change id (·.offer .eagain)
  | (r, onSend) :: rest => do
    let p ← get
    match p.sessions id with
    | none => return
    | some conn =>
      if conn.birth ≠ birth ∨ conn.writeBuffer.size = 0 then return
      else
        match r with
        | .accepted k =>
          if k = 0 then
            sendLoop id birth rest
          else do
            change id (·.offer (.accepted k))
            onSend
            sendLoop id birth rest
        | .eagain posted => do
          change id (·.offer .eagain)
          if posted then return else closeSession id .wsendError1
        | .error => do
          change id (·.offer .error)
          closeSession id .wsendError2

def postSend (id : Fin n) (replies : List (IocpSend × IocpM n Unit)) : IocpM n Unit := do
  let conn ← slot id
  setContexts id fun data => { data with io_ctx_s := { data.io_ctx_s with action := .write } }
  sendLoop id conn.birth replies

def sendTo (id : Fin n) (mem : Alloc) (buf : List UInt8)
    (replies : List (IocpSend × IocpM n Unit)) : IocpM n Unit := do
  let conn ← slot id
  if 0 < conn.writeBuffer.size then
    change id (·.push mem buf)
  else do
    change id (·.push mem buf)
    postSend id replies

def do_send (id : Fin n) (replies : List (IocpSend × IocpM n Unit)) : IocpM n Unit := do
  let conn ← slot id
  if 0 < conn.writeBuffer.size then postSend id replies else return

/-! ## Callbacks -/

/-- Notes what `sendTo` is called with. -/
def hand (id : Fin n) (buf : List UInt8) : IocpM n Unit := change id fun s => .ok (s.hand buf)

def call (c : IocpCall n) (replies : List (IocpSend × IocpM n Unit)) : IocpM n Unit := do
  let p ← get
  match c with
  | .sendTo id mem buf =>
    if p.sessions id = none then return
    else do
      hand id buf
      sendTo id mem buf replies
  | .postSend id => if p.sessions id = none then return else postSend id replies
  | .postRecv id =>
    match p.sessions id with
    | none => return
    | some conn => postRecv id conn.birth
  | .closeSession id type => closeSession id type
  | .initNewSession fd type creation => do
    let _ ← initNewSession fd type creation
    return
  | .listenTo listener creation posting => listenTo listener creation posting
  | .consume id len => if p.sessions id = none then return else change id (·.consume len)

def run (script : IocpScript n) : IocpM n Unit := script.run call (table.zoom Table.observe)

def handlers (replies : IocpReplies n) : List (IocpSend × IocpM n Unit) :=
  replies.handlers call (table.zoom Table.observe)

/-! ## Receiving -/

/-- The reads of `do_recv`, and `readNum` at their end. -/
def drain (id : Fin n) : List Chunk → IocpM n Nat
  | [] => return 0
  | c :: rest => do
    change id (·.receive c.mem c.bytes)
    modify fun p => { p with received := p.received + c.bytes.length }
    let readNum ← drain id rest
    return c.bytes.length + readNum

/-- `onRecv(connp, readNum)`. -/
def report (readNum : Nat) (onRecv : IocpM n Unit) : IocpM n Unit := do
  modify fun p => { p with reported := p.reported + readNum }
  onRecv

def do_recv (id : Fin n) (mem : Alloc) (reads : List Chunk) (drained : DrainEnd)
    (onRecv : IocpM n Unit) : IocpM n Unit := do
  let conn ← slot id
  change id (·.grow mem)
  let readNum ← drain id reads
  match drained with
  | .zero => closeSession id .readZero
  | .error => closeSession id .readError
  | .eagain =>
    if 0 < readNum then do
      report readNum onRecv
      let p ← get
      if p.sessions id = none then return else postRecv id conn.birth
    else
      postRecv id conn.birth

/-! ## The loop -/

/-- `*io_ctx`, of the session `birth`: it is freed with the session. -/
def context (id : Fin n) (birth : Nat) (kind : CtxKind) : IocpM n IoContext := fun p =>
  match p.sessions id with
  | none => .error .freed p
  | some conn =>
    if conn.birth = birth then
      match kind with
      | .r => .ok (p.contexts id).io_ctx_r p
      | .s => .ok (p.contexts id).io_ctx_s p
    else .error .freed p

/-- `do_accept` is called for the listener in slot 0. -/
def do_accept (e : Completion n) : IocpM n Unit :=
  modify fun p =>
    match p.sessions ⟨0, e.id.pos⟩ with
    | none => { p with accepts := p.accepts ++ [e.id] }
    | some conn =>
      { p with
        toTable := p.toTable.record e.birth conn.birth
        accepts := p.accepts ++ [e.id] }

/-- `WSAAccept` on `io_ctx->self`, until it fails. -/
def acceptLoop (e : Completion n) (kind : CtxKind) : List (IocpIncoming n) → IocpM n Unit
  | [] => do
    let _ ← context e.id e.birth kind
    return
  | c :: rest => do
    let _ ← context e.id e.birth kind
    match ← initNewSession c.sock .accept c.creation with
    | none => acceptLoop e kind rest
    | some _ => do
      run c.onAccept
      acceptLoop e kind rest

def accepted (e : Completion n) (kind : CtxKind) (client : Nat) : IocpM n Unit := do
  do_accept e
  match ← initNewSession client .accept e.creation with
  | none => return
  | some _ => do
    run e.onAccept
    acceptLoop e kind e.accepts
    let io_ctx ← context e.id e.birth kind
    let _ ← post_accept_ex e.id io_ctx.self e.posting
    return

/-- The `switch` on the action of the context. -/
def dispatch (e : Completion n) (kind : CtxKind) : IocpM n Unit := do
  act e.birth e.id
  let io_ctx ← context e.id e.birth kind
  match io_ctx.action with
  | .accept => accepted e kind io_ctx.accept
  | .read => do_recv e.id e.mem e.reads e.drained (run e.onRecv)
  | .write => do_send e.id (handlers e.sends)
  | .null | .connect => return

def handle (e : Completion n) : IocpM n Unit := do
  let p ← get
  match p.sessions e.id, e.ctx with
  | none, _ => return
  | some _, none => return
  | some _, some kind => dispatch e kind

def handleAll : List (Completion n) → IocpM n Unit
  | [] => return
  | e :: es => do
    handle e
    modify fun p => { p with waiting := p.waiting.tail }
    handleAll es

/-- `loopOnce`, with the completions that `GetQueuedCompletionStatusEx` answers. -/
def loopOnce (es : List (Completion n)) : IocpM n Unit := do
  modify fun p =>
    { p with toTable := p.toTable.begin (es.map Completion.waiting), accepts := [] }
  handleAll es

end Iocp

end ChainSocket
