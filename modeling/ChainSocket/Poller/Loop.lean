import ChainSocket.Table
import ChainSocket.Lib.Reentrant
import Mathlib.Data.Fin.Basic

/-!
# Poller.cpp

`Poller` with a table of `n` sessions (`maxId`), over the epoll backend: closing a descriptor takes
it out of the interest list, and `pollDel` does nothing.

What the system answers, and what the callbacks do, is part of each call and each event. A call on
a session that is not open cannot be made, and no system call answers with a descriptor that is in
use.
-/

namespace ChainSocket

/-- What `pollAdd` and `pollMod` have set for a descriptor. -/
structure Interest (n : Nat) where
  read : Bool
  write : Bool
  once : Bool
  ptr : Fin n
  deriving DecidableEq

structure Poller (n : Nat) extends Table n where
  curId : Fin n
  interest : Nat → Option (Interest n)

abbrev PollerM (n : Nat) := EStateM Fault (Poller n)

/-- The calls that callbacks and other users of the `Poller` make, but for `listenTo`, which is
modelled on its own. -/
inductive PollerCall (n : Nat) where
  | sendTo (id : Fin n) (mem : Alloc) (buf : List UInt8)
  | postRecv (id : Fin n)
  | closeSession (id : Fin n) (type : CloseType)
  | initNewSession (fd : Nat) (type : SessionType) (mem : Alloc)
  | consume (id : Fin n) (len : Nat)

abbrev PollerScript (n : Nat) := Reentrant.Script (PollerCall n) SendResult

/-- A connection that `accept` answers with. -/
structure Incoming (n : Nat) where
  sock : Nat
  mem : Alloc
  onAccept : PollerScript n

/-- An event of `pollGetEvents`, with what the calls made for it answer. -/
structure PollEvent (n : Nat) where
  id : Fin n
  /-- The session the event was generated for. -/
  birth : Nat
  read : Bool
  write : Bool
  recv : RecvResult
  mem : Alloc
  onRecv : PollerScript n
  send : SendResult
  onSend : PollerScript n
  accepts : List (Incoming n)

def PollEvent.waiting {n : Nat} (e : PollEvent n) : Waiting n := ⟨e.id, e.birth⟩

namespace Poller

variable {n : Nat}

def init (h : 0 < n) : Poller n := { Table.empty with curId := ⟨0, h⟩, interest := fun _ => none }

def table : Effect.Lens (Poller n) (Table n) where
  get p := p.toTable
  set t p := { p with toTable := t }
  get_set _ _ := rfl
  set_get _ := rfl
  set_set _ _ _ := rfl

def slot (id : Fin n) : PollerM n Session := table.zoom (Table.slot id)

def change (id : Fin n) (f : Session → Except Fault Session) : PollerM n Unit :=
  table.zoom (Table.change id f)

def act (event : Nat) (id : Fin n) : PollerM n Unit := table.zoom (Table.act event id)

/-! ## The epoll backend

`epoll_ctl` fails where the descriptor is registered already, or is not. That it runs out of memory
or of watches is left out: `listenTo` alone has that answer.
-/

def pollAdd (fd : Nat) (i : Interest n) : PollerM n Unit :=
  modify fun p =>
    match p.interest fd with
    | none => { p with interest := Function.update p.interest fd (some i) }
    | some _ => p

def pollMod (fd : Nat) (i : Interest n) : PollerM n Unit :=
  modify fun p =>
    match p.interest fd with
    | none => p
    | some _ => { p with interest := Function.update p.interest fd (some i) }

/-! ## Sessions -/

/-- Where the loop of `initNewSession` leaves `curId`, and the slot it has found. -/
def findSlot (sessions : Fin n → Option Session) (curId : Fin n) : Nat → Fin n × Option (Fin n)
  | 0 => (curId, none)
  | i + 1 =>
    let next : Fin n := ⟨(curId + 1) % n, Nat.mod_lt _ curId.pos⟩
    match sessions curId with
    | some _ => findSlot sessions next i
    | none => (next, some curId)

def initNewSession (fd : Nat) (type : SessionType) (mem : Alloc) :
    PollerM n (Option (Fin n)) := fun p =>
  match findSlot p.sessions p.curId n with
  | (curId, none) => .ok none { p with curId }
  | (curId, some id) =>
    .ok (some id) { p with toTable := p.toTable.create id fd type mem, curId }

def closeSession (id : Fin n) (_type : CloseType) : PollerM n Unit :=
  modify fun p =>
    match p.sessions id with
    | none => p
    | some conn =>
      { p with
        toTable := p.toTable.remove id conn.fd
        interest := Function.update p.interest conn.fd none }

def postRecv (id : Fin n) : PollerM n Unit := do
  let conn ← slot id
  pollAdd conn.fd ⟨true, false, false, id⟩
  change id fun s => .ok { s with registered := true }

/-! ## Sending and receiving -/

/-- `postSend` after its `send` and its `erase`. -/
def sent (r : SendResult) (onSend : PollerM n Unit) : PollerM n Int :=
  match r with
  | .error => return -3
  | .eagain => return 0
  | .accepted k =>
    if k = 0 then
      return 0
    else do
      onSend
      return 0

def postSend (id : Fin n) (r : SendResult) (onSend : PollerM n Unit) : PollerM n Int := do
  let conn ← slot id
  if conn.writeBuffer.size = 0 then
    return 0
  else do
    change id (·.offer r)
    sent r onSend

def sendTo (id : Fin n) (mem : Alloc) (buf : List UInt8) (r : SendResult)
    (onSend : PollerM n Unit) : PollerM n Unit := do
  let conn ← slot id
  if 0 < conn.writeBuffer.size then
    change id (·.push mem buf)
  else do
    change id (·.push mem buf)
    let _ ← postSend id r onSend
    return

def handleReadEvent (id : Fin n) (mem : Alloc) (r : RecvResult) (onRecv : PollerM n Unit) :
    PollerM n Int := do
  let conn ← slot id
  if conn.readBuffer.maxSize < conn.readBuffer.size then
    return -1
  else
    match r with
    | .received [] => return -3
    | .received (byte :: bytes) => do
      change id (·.receive mem (byte :: bytes))
      onRecv
      return 0
    | .eagain => return 0
    | .error => return -4

/-! ## Callbacks -/

/-- Notes what `sendTo` is called with. -/
def hand (id : Fin n) (buf : List UInt8) : PollerM n Unit := change id fun s => .ok (s.hand buf)

def call (c : PollerCall n) (replies : List (SendResult × PollerM n Unit)) : PollerM n Unit := do
  let p ← get
  match c with
  | .sendTo id mem buf =>
    if p.sessions id = none then return
    else do
      hand id buf
      match replies with
      | [] => sendTo id mem buf .eagain (pure ())
      | (r, onSend) :: _ => sendTo id mem buf r onSend
  | .postRecv id => if p.sessions id = none then return else postRecv id
  | .closeSession id type => closeSession id type
  | .initNewSession fd type mem =>
    if p.owner fd = none then do
      let _ ← initNewSession fd type mem
      return
    else
      return
  | .consume id len => if p.sessions id = none then return else change id (·.consume len)

def run (script : PollerScript n) : PollerM n Unit :=
  script.run call (table.zoom Table.observe)

/-! ## The loop -/

/-- `evFlag & EVENT_READ`. It answers whether the event is still to be handled. -/
def readBranch (e : PollEvent n) : PollerM n Bool :=
  if e.read then do
    act e.birth e.id
    let ret ← handleReadEvent e.id e.mem e.recv (run e.onRecv)
    let p ← get
    if p.sessions e.id = none then
      return false
    else if ret < 0 then do
      closeSession e.id .readError2
      return false
    else
      return true
  else
    return true

/-- `evFlag & EVENT_WRITE`. It answers whether `ev` gets `EVENT_WRITE`, or nothing where the event
is not handled further. -/
def writeBranch (e : PollEvent n) : PollerM n (Option Bool) :=
  if e.write then do
    act e.birth e.id
    let ret ← postSend e.id e.send (run e.onSend)
    let p ← get
    if p.sessions e.id = none then
      return none
    else if ret < 0 then do
      closeSession e.id .sendError2
      return some false
    else do
      let conn ← slot e.id
      return some (decide (0 < conn.writeBuffer.size))
  else
    return some false

/-- The `pollMod` at the end. -/
def rearm (e : PollEvent n) (write : Bool) : PollerM n Unit := do
  let conn ← slot e.id
  act e.birth e.id
  pollMod conn.fd ⟨true, write, true, e.id⟩

def ready (e : PollEvent n) : PollerM n Unit := do
  if ← readBranch e then
    match ← writeBranch e with
    | none => return
    | some write => rearm e write
  else
    return

/-- `accept` on `sock`, until it fails; it fails on a socket that is closed. -/
def acceptLoop (e : PollEvent n) (sock : Nat) : List (Incoming n) → PollerM n Unit
  | [] => return
  | c :: rest => do
    let p ← get
    match p.owner sock with
    | none => return
    | some target =>
      if c.sock = 0 ∨ p.owner c.sock ≠ none then return
      else do
        modify fun p => { p with toTable := p.toTable.record e.birth target }
        match ← initNewSession c.sock .accept c.mem with
        | none => acceptLoop e sock rest
        | some _ => do
          act e.birth e.id
          run c.onAccept
          acceptLoop e sock rest

/-- The `switch` on the type of the session. -/
def dispatch (e : PollEvent n) (conn : Session) : PollerM n Unit :=
  match conn.type with
  | .connect | .accept => ready e
  | .listen => do
    modify fun p => { p with listening := some (conn.fd, e.birth) }
    acceptLoop e conn.fd e.accepts
    modify fun p => { p with listening := none }
  | .none => throw .abort

def handle (e : PollEvent n) : PollerM n Unit := do
  let p ← get
  match p.sessions e.id with
  | none => return
  | some conn => dispatch e conn

def handleAll : List (PollEvent n) → PollerM n Unit
  | [] => return
  | e :: es => do
    handle e
    modify fun p => { p with waiting := p.waiting.tail }
    handleAll es

/-- `loopOnce`, with the events that `pollGetEvents` answers. -/
def loopOnce (es : List (PollEvent n)) : PollerM n Unit := do
  modify fun p => { p with toTable := p.toTable.begin (es.map PollEvent.waiting) }
  handleAll es

end Poller

end ChainSocket
