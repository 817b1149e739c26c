import ChainSocket.Poller.Runs
import ChainSocket.Timer.Operations
import Mathlib.Algebra.Group.Int.Defs

/-!
# MsgHub.cpp

`MsgHub` and its `ConnectPoller`. Every call of `connectTo` is an attempt with a number, and
`attempts` keeps its history; the number also goes with what `connectTime` and `resultMap` hold of
it.

What the system answers, and what `onConnect` and `onConnectFailed` do, is part of each call. The
other callbacks of `Poller` make calls of `Poller`. `owner` also has the sockets that are being
connected: no system call answers with one of them.
-/

namespace ChainSocket

/-- A call of `onConnect` or `onConnectFailed`; a session is known by its birth. -/
inductive Report where
  | onConnect (session : Nat) (ip : String) (port : Int)
  | onConnectFailed (ip : String) (port : Int) (type : Int)
  deriving DecidableEq

def Report.ip : Report → String
  | .onConnect _ ip _ => ip
  | .onConnectFailed ip _ _ => ip

def Report.port : Report → Int
  | .onConnect _ _ port => port
  | .onConnectFailed _ port _ => port

/-- One call of `connectTo` and what has come of it. -/
structure Attempt where
  ip : String
  port : Int
  limitTime : Nat
  /-- The socket `tryConnect` has opened. -/
  sock : Option Nat
  /-- The callbacks made for it. -/
  reports : List Report
  /-- The birth of the session it was given. -/
  session : Option Nat
  /-- Whether every slot was taken when it was to get a session. -/
  exhausted : Bool
  /-- How often its socket has been closed. -/
  closes : Nat
  deriving DecidableEq

/-- The value type of `connectTime`; the second member of the tuple is not used. -/
structure Connecting where
  limitTime : Nat
  ip : String
  port : Int
  attempt : Nat
  deriving DecidableEq

structure SockInfo where
  ip : String
  port : Int
  ret : Int
  attempt : Nat
  deriving DecidableEq

/-- `tm` has `connectTimer` alone. -/
structure ConnectPoller where
  tm : TimerManager Unit
  connectTime : Std.TreeMap Nat Connecting
  resultMap : Std.TreeMap Nat SockInfo

/-- What `GetSocketStatus` answers. -/
inductive SocketStatus where
  | pending | connected | failed
  deriving DecidableEq

/-- What one `checkAllStatus` reads: the clock, and the status of each descriptor. -/
structure Check where
  msTick : Nat
  status : Nat → SocketStatus

/-- What `socket` and `connect` answer. -/
inductive TryConnect where
  | noSocket
  | refused (fd : Nat)
  | inProgress (fd : Nat)
  | connected (fd : Nat)
  deriving DecidableEq

def TryConnect.sock : TryConnect → Option Nat
  | .noSocket => none
  | .refused fd => some fd
  | .inProgress fd => some fd
  | .connected fd => some fd

/-- What one `connectTo` reads; `startTick` is the clock as `Start` reads it. -/
structure ConnectAnswer where
  tried : TryConnect
  msTick : Nat
  startTick : Nat
  mem : Alloc

structure MsgHub (n : Nat) extends Poller n where
  connectPoller : ConnectPoller
  attempts : List Attempt

abbrev MsgHubM (n : Nat) := EStateM Fault (MsgHub n)

/-- The calls that `onConnect`, `onConnectFailed` and other users of the `MsgHub` make. -/
inductive MsgHubCall (n : Nat) where
  | connectTo (ip : String) (port : Int) (timeout : Int)
  | poller (script : PollerScript n)

abbrev MsgHubScript (n : Nat) := Reentrant.Script (MsgHubCall n) ConnectAnswer

/-- What one `waitMsg` reads, with a check for each time `connectTimer` fires, and what is done for
each result. -/
structure WaitMsg (n : Nat) where
  now : Nat
  checks : List Check
  replies : List (Alloc × MsgHubScript n)
  events : List (PollEvent n)

/-- A number as `unsigned long long` has it. -/
def limitTime (msTick : Nat) (timeout : Int) : Nat := ((msTick + timeout) % 2 ^ 64).toNat

/-- A session of this birth is open. -/
def Table.Live {n : Nat} (t : Table n) (birth : Nat) : Prop :=
  ∃ id, (t.sessions id).map Session.birth = some birth

instance {n : Nat} (t : Table n) (birth : Nat) : Decidable (t.Live birth) :=
  inferInstanceAs (Decidable (∃ id, (t.sessions id).map Session.birth = some birth))

/-- Between `before` and `after`, `closeSession` has closed the sockets of the sessions that were
open. -/
def Attempt.follow {n : Nat} (before after : Table n) (t : Attempt) : Attempt :=
  if ∃ birth ∈ t.session, before.Live birth ∧ ¬ after.Live birth then
    { t with closes := t.closes + 1 }
  else t

namespace MsgHub

variable {n : Nat}

def init (h : 0 < n) (timers : Unit → Timer) : MsgHub n :=
  { Poller.init h with connectPoller := ⟨.fresh timers, ∅, ∅⟩, attempts := [] }

def poller : Effect.Lens (MsgHub n) (Poller n) where
  get h := h.toPoller
  set p h := { h with toPoller := p }
  get_set _ _ := rfl
  set_get _ := rfl
  set_set _ _ _ := rfl

/-! ## What is kept of an attempt -/

def begin (h : MsgHub n) (ip : String) (port : Int) (limitTime : Nat) : MsgHub n :=
  { h with attempts := h.attempts ++ [⟨ip, port, limitTime, none, [], none, false, 0⟩] }

def note (h : MsgHub n) (attempt : Nat) (f : Attempt → Attempt) : MsgHub n :=
  { h with attempts := h.attempts.modify attempt f }

def openSocket (h : MsgHub n) (attempt fd : Nat) : MsgHub n :=
  note { h with owner := Function.update h.owner fd (some attempt) } attempt
    fun t => { t with sock := some fd }

def closeSocket (h : MsgHub n) (attempt fd : Nat) : MsgHub n :=
  note { h with owner := Function.update h.owner fd none } attempt
    fun t => { t with closes := t.closes + 1 }

def follow (h : MsgHub n) (before : Table n) : MsgHub n :=
  { h with attempts := h.attempts.map (·.follow before h.toTable) }

/-- A call of `Poller`. -/
def onPoller {α : Type} (m : PollerM n α) : MsgHubM n α := do
  let h ← get
  let a ← poller.zoom m
  modify (·.follow h.toTable)
  return a

/-! ## ConnectPoller -/

/-- `GetSocketStatus` has settled an attempt: it goes from `connectTime` to `resultMap`. -/
def decided (h : MsgHub n) (connectFd : Nat) (e : Connecting) (ret : Int) : MsgHub n :=
  { h with
    connectPoller :=
      { h.connectPoller with
        connectTime := h.connectPoller.connectTime.erase connectFd
        resultMap := h.connectPoller.resultMap.insert connectFd ⟨e.ip, e.port, ret, e.attempt⟩ } }

/-- The body of the loop of `checkAllStatus`. -/
def checkStatus (c : Check) (h : MsgHub n) (entry : Nat × Connecting) : MsgHub n :=
  let (connectFd, e) := entry
  if e.limitTime < c.msTick then (h.closeSocket e.attempt connectFd).decided connectFd e (-1)
  else
    match c.status connectFd with
    | .pending => h
    | .connected => h.decided connectFd e 1
    | .failed => (h.closeSocket e.attempt connectFd).decided connectFd e (-1)

def stopTimer (h : MsgHub n) : MsgHub n :=
  { h with connectPoller := { h.connectPoller with tm := h.connectPoller.tm.stop () } }

def checkAllStatus (h : MsgHub n) (c : Check) : MsgHub n :=
  let checked := h.connectPoller.connectTime.toList.foldl (checkStatus c) h
  if checked.connectPoller.connectTime.isEmpty then checked.stopTimer else checked

/-- `RemoveTimer`, and `OnTimer` up to the callback. -/
def fireTimer (h : MsgHub n) (now : Nat) : MsgHub n :=
  { h with connectPoller := { h.connectPoller with tm := h.connectPoller.tm.fire () now } }

/-- The first timer of the heap is due. -/
def due (h : MsgHub n) (now : Nat) : Bool :=
  match h.connectPoller.tm.heap with
  | [] => false
  | e :: _ => decide (e.time ≤ now)

/-- `DetectTimers`, with `onTimerCheckConnect` as the callback. -/
def detectTimers (now : Nat) : List Check → MsgHubM n Unit
  | [] => do
    let h ← get
    if h.due now then throw .fuel else return
  | c :: rest => do
    let h ← get
    if h.due now then do
      set ((h.fireTimer now).checkAllStatus c)
      detectTimers now rest
    else
      return

def clearResults (h : MsgHub n) : MsgHub n :=
  { h with connectPoller := { h.connectPoller with resultMap := ∅ } }

def getResult (now : Nat) (checks : List Check) : MsgHubM n (List (Nat × SockInfo)) := do
  modify clearResults
  detectTimers now checks
  let h ← get
  return h.connectPoller.resultMap.toList

/-- What `tryConnect` returns, and where it leaves `*sockFd`, which the caller has set to 0. -/
def tryConnect (h : MsgHub n) (attempt : Nat) : TryConnect → (Int × Nat) × MsgHub n
  | .noSocket => ((-1, 0), h)
  | .refused fd => ((-1, 0), (h.openSocket attempt fd).closeSocket attempt fd)
  | .inProgress fd => ((0, fd), h.openSocket attempt fd)
  | .connected fd => ((1, fd), h.openSocket attempt fd)

/-- The branch of `ConnectPoller::connectTo` for an attempt that is not settled yet. -/
def pend (h : MsgHub n) (connectSocket : Nat) (e : Connecting) (startTick : Nat) : MsgHub n :=
  { h with
    connectPoller :=
      { h.connectPoller with
        connectTime := h.connectPoller.connectTime.insert connectSocket e
        tm :=
          if h.connectPoller.connectTime.isEmpty then
            h.connectPoller.tm.start () 10 .circle startTick
          else h.connectPoller.tm } }

/-! ## MsgHub -/

def onConnect (h : MsgHub n) (attempt : Nat) (session : Nat) (ip : String) (port : Int) :
    MsgHub n :=
  h.note attempt fun t =>
    { t with session := some session, reports := t.reports ++ [.onConnect session ip port] }

def onConnectFailed (h : MsgHub n) (attempt : Nat) (ip : String) (port : Int) (type : Int) :
    MsgHub n :=
  h.note attempt fun t => { t with reports := t.reports ++ [.onConnectFailed ip port type] }

def handOver (h : MsgHub n) (attempt : Nat) : MsgHub n :=
  h.note attempt fun t => { t with exhausted := decide (∀ id, (h.sessions id).isSome) }

/-- A connected socket gets a session; `type` is what `onConnectFailed` is told otherwise. -/
def initConnected (attempt fd : Nat) (ip : String) (port : Int) (type : Int) (mem : Alloc)
    (callback : MsgHubM n Unit) : MsgHubM n Unit := do
  let h ← get
  set (h.handOver attempt)
  match ← onPoller (Poller.initNewSession fd .connect mem) with
  | none => do
    modify (·.onConnectFailed attempt ip port type)
    callback
  | some _ => do
    modify (·.onConnect attempt h.births ip port)
    callback

def connectTo (ip : String) (port : Int) (timeout : Int) (os : ConnectAnswer)
    (callback : MsgHubM n Unit) : MsgHubM n Unit := do
  let h ← get
  let attempt := h.attempts.length
  let limit := limitTime os.msTick timeout
  let ((ret, connectSocket), h) := (h.begin ip port limit).tryConnect attempt os.tried
  if ret = 1 then do
    set h
    initConnected attempt connectSocket ip port (-1) os.mem callback
  else if ret < 0 then do
    set (h.onConnectFailed attempt ip port (-1))
    callback
  else
    set (h.pend connectSocket ⟨limit, ip, port, attempt⟩ os.startTick)

def processConnectSockets :
    List (Nat × SockInfo) → List (Alloc × MsgHubM n Unit) → MsgHubM n Unit
  | [], _ => return
  | (fd, E) :: eventMap, replies => do
    let (mem, callback) := replies.head?.getD (⟨true, fun _ => 0⟩, pure ())
    if E.ret = 1 then initConnected E.attempt fd E.ip E.port E.ret mem callback
    else do
      modify (·.onConnectFailed E.attempt E.ip E.port E.ret)
      callback
    processConnectSockets eventMap replies.tail

/-- A `connectTo` has an answer, with a descriptor that was not open. -/
def call (c : MsgHubCall n) (replies : List (ConnectAnswer × MsgHubM n Unit)) :
    MsgHubM n Unit :=
  match c, replies with
  | .connectTo _ _ _, [] => return
  | .connectTo ip port timeout, (os, callback) :: _ => do
    let h ← get
    if ∀ fd ∈ os.tried.sock, h.owner fd = none then connectTo ip port timeout os callback
    else return
  | .poller script, _ => onPoller (Poller.run script)

def run (script : MsgHubScript n) : MsgHubM n Unit := script.run call (pure ())

def waitMsg (w : WaitMsg n) : MsgHubM n Unit := do
  let rt ← getResult w.now w.checks
  processConnectSockets rt (w.replies.map fun r => (r.1, run r.2))
  onPoller (Poller.loopOnce w.events)

/-- A top-level call. -/
inductive MsgHubEvent (n : Nat) where
  | call (c : MsgHubCall n) (replies : Reentrant.Replies (MsgHubCall n) ConnectAnswer)
  | waitMsg (w : WaitMsg n)

def onEvent : MsgHubEvent n → MsgHubM n Unit
  | .call c replies => call c (replies.handlers call (pure ()))
  | .waitMsg w => waitMsg w

def runAll : List (MsgHubEvent n) → MsgHubM n Unit
  | [] => return
  | e :: es => do
    onEvent e
    runAll es

end MsgHub

end ChainSocket
