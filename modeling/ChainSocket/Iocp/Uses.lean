import ChainSocket.Iocp.Runs
import ChainSocket.Lib.Triple

/-!
# The sessions that IOCPPoller.cpp uses

`loopOnce` and what it calls, with a record of the sessions they read or write, and of what has
come between: callbacks, and the time until a completion is taken. Reads and writes with no callback
and no `closeSession` between them are one use.

* `turns_erases`: without the record, this is the `Poller`.
-/

namespace ChainSocket

/-- A session that is read or written, it or one of its contexts, and the one in its slot then. -/
structure UsedSession where
  birth : Nat
  slot : Option Nat
  deriving DecidableEq

/-- The session is still open. -/
def UsedSession.Open (u : UsedSession) : Prop := u.slot = some u.birth

instance (u : UsedSession) : Decidable u.Open := inferInstanceAs (Decidable (u.slot = some u.birth))

/-- What the code comes back from. -/
inductive Interlude where
  | completion | onAccept | onRecv | onSend
  deriving DecidableEq

/-- The session that the code comes back to, and the one in its slot then. -/
structure Resumption where
  interlude : Interlude
  birth : Nat
  slot : Option Nat

structure IocpUses (n : Nat) extends Iocp n where
  uses : List UsedSession
  resumptions : List Resumption

abbrev IocpUsesM (n : Nat) := EStateM Fault (IocpUses n)

namespace IocpUses

open Effect

variable {n : Nat}

def start (p : Iocp n) : IocpUses n := { p with uses := [], resumptions := [] }

def iocp : Lens (IocpUses n) (Iocp n) where
  get p := p.toIocp
  set q p := { p with toIocp := q }
  get_set _ _ := rfl
  set_get _ := rfl
  set_set _ _ _ := rfl

/-- The session in a slot. -/
def inSlot (p : IocpUses n) (id : Fin n) : Option Nat := (p.sessions id).map Session.birth

/-- The session `birth`, which was at `id`, is used. -/
def use (id : Fin n) (birth : Nat) : IocpUsesM n Unit :=
  modify fun p => { p with uses := p.uses ++ [⟨birth, p.inSlot id⟩] }

/-- What is in the slot is used, if anything. -/
def useSlot (id : Fin n) : IocpUsesM n Unit :=
  modify fun p =>
    { p with uses := p.uses ++ (p.inSlot id).toList.map fun birth => ⟨birth, some birth⟩ }

def resume (interlude : Interlude) (id : Fin n) (birth : Nat) : IocpUsesM n Unit :=
  modify fun p =>
    { p with resumptions := p.resumptions ++ [⟨interlude, birth, p.inSlot id⟩] }

/-! ## Sending -/

/-- The loop of `postSend`. -/
def sendLoop (id : Fin n) (birth : Nat) : List (IocpSend × IocpUsesM n Unit) → IocpUsesM n Unit
  | [] => do
    let p ← get
    match p.sessions id with
    | none => return
    | some conn => do
      use id birth
      if conn.birth ≠ birth ∨ conn.writeBuffer.size = 0 then return
      else iocp.zoom (Iocp.change id (·.offer .eagain))
  | (r, onSend) :: rest => do
    let p ← get
    match p.sessions id with
    | none => return
    | some conn => do
      use id birth
      if conn.birth ≠ birth ∨ conn.writeBuffer.size = 0 then return
      else
        match r with
        | .accepted k =>
          if k = 0 then
            sendLoop id birth rest
          else do
            iocp.zoom (Iocp.change id (·.offer (.accepted k)))
            onSend
            resume .onSend id birth
            sendLoop id birth rest
        | .eagain posted => do
          iocp.zoom (Iocp.change id (·.offer .eagain))
          if posted then return else iocp.zoom (Iocp.closeSession id .wsendError1)
        | .error => do
          iocp.zoom (Iocp.change id (·.offer .error))
          iocp.zoom (Iocp.closeSession id .wsendError2)

def postSend (id : Fin n) (replies : List (IocpSend × IocpUsesM n Unit)) : IocpUsesM n Unit := do
  let conn ← iocp.zoom (Iocp.slot id)
  use id conn.birth
  iocp.zoom (Iocp.setContexts id fun data =>
    { data with io_ctx_s := { data.io_ctx_s with action := .write } })
  sendLoop id conn.birth replies

def sendTo (id : Fin n) (mem : Alloc) (buf : List UInt8)
    (replies : List (IocpSend × IocpUsesM n Unit)) : IocpUsesM n Unit := do
  let conn ← iocp.zoom (Iocp.slot id)
  if 0 < conn.writeBuffer.size then
    iocp.zoom (Iocp.change id (·.push mem buf))
  else do
    iocp.zoom (Iocp.change id (·.push mem buf))
    postSend id replies

def do_send (id : Fin n) (replies : List (IocpSend × IocpUsesM n Unit)) : IocpUsesM n Unit := do
  let conn ← iocp.zoom (Iocp.slot id)
  use id conn.birth
  if 0 < conn.writeBuffer.size then postSend id replies else return

/-! ## Callbacks -/

/-- Only sending calls back. -/
def call (c : IocpCall n) (replies : List (IocpSend × IocpUsesM n Unit)) : IocpUsesM n Unit :=
  match c with
  | .sendTo id mem buf => do
    let p ← get
    if p.sessions id = none then return
    else do
      iocp.zoom (Iocp.hand id buf)
      sendTo id mem buf replies
  | .postSend id => do
    let p ← get
    if p.sessions id = none then return else postSend id replies
  | .postRecv .. | .closeSession .. | .initNewSession .. | .listenTo .. | .consume .. =>
    iocp.zoom (Iocp.call c [])

def observe : IocpUsesM n Unit := iocp.zoom (Iocp.table.zoom Table.observe)

def run (script : IocpScript n) : IocpUsesM n Unit := script.run call observe

def handlers (replies : IocpReplies n) : List (IocpSend × IocpUsesM n Unit) :=
  replies.handlers call observe

/-! ## The loop -/

/-- `onRecv(connp, readNum)`. -/
def report (id : Fin n) (birth readNum : Nat) (onRecv : IocpUsesM n Unit) : IocpUsesM n Unit := do
  iocp.zoom (modify fun p => { p with reported := p.reported + readNum })
  onRecv
  resume .onRecv id birth

def do_recv (id : Fin n) (mem : Alloc) (reads : List Chunk) (drained : DrainEnd)
    (onRecv : IocpUsesM n Unit) : IocpUsesM n Unit := do
  let conn ← iocp.zoom (Iocp.slot id)
  use id conn.birth
  iocp.zoom (Iocp.change id (·.grow mem))
  let readNum ← iocp.zoom (Iocp.drain id reads)
  match drained with
  | .zero => iocp.zoom (Iocp.closeSession id .readZero)
  | .error => iocp.zoom (Iocp.closeSession id .readError)
  | .eagain =>
    if 0 < readNum then do
      report id conn.birth readNum onRecv
      let p ← get
      if p.sessions id = none then return
      else do
        use id conn.birth
        iocp.zoom (Iocp.postRecv id conn.birth)
    else
      iocp.zoom (Iocp.postRecv id conn.birth)

/-- `*io_ctx`. -/
def context (id : Fin n) (birth : Nat) (kind : CtxKind) : IocpUsesM n IoContext := do
  use id birth
  iocp.zoom (Iocp.context id birth kind)

theorem slots_pos (e : Completion n) : 0 < n := e.id.pos

def do_accept (e : Completion n) : IocpUsesM n Unit := do
  useSlot ⟨0, slots_pos e⟩
  iocp.zoom (Iocp.do_accept e)

/-- `onAccept`, for the listener of `e` and the session that has been created. -/
def onAccept (e : Completion n) (id : Fin n) (script : IocpScript n) : IocpUsesM n Unit := do
  useSlot id
  run script
  resume .onAccept e.id e.birth

def acceptLoop (e : Completion n) (kind : CtxKind) : List (IocpIncoming n) → IocpUsesM n Unit
  | [] => do
    let _ ← context e.id e.birth kind
    return
  | c :: rest => do
    let _ ← context e.id e.birth kind
    match ← iocp.zoom (Iocp.initNewSession c.sock .accept c.creation) with
    | none => acceptLoop e kind rest
    | some id => do
      onAccept e id c.onAccept
      acceptLoop e kind rest

def accepted (e : Completion n) (kind : CtxKind) (client : Nat) : IocpUsesM n Unit := do
  do_accept e
  match ← iocp.zoom (Iocp.initNewSession client .accept e.creation) with
  | none => return
  | some id => do
    onAccept e id e.onAccept
    acceptLoop e kind e.accepts
    let io_ctx ← context e.id e.birth kind
    useSlot e.id
    let _ ← iocp.zoom (Iocp.post_accept_ex e.id io_ctx.self e.posting)
    return

def dispatch (e : Completion n) (kind : CtxKind) : IocpUsesM n Unit := do
  iocp.zoom (Iocp.act e.birth e.id)
  let io_ctx ← context e.id e.birth kind
  match io_ctx.action with
  | .accept => accepted e kind io_ctx.accept
  | .read => do_recv e.id e.mem e.reads e.drained (run e.onRecv)
  | .write => do_send e.id (handlers e.sends)
  | .null | .connect => return

def handle (e : Completion n) : IocpUsesM n Unit := do
  let p ← get
  match p.sessions e.id, e.ctx with
  | none, _ => return
  | some _, none => return
  | some _, some kind => do
    resume .completion e.id e.birth
    dispatch e kind

def handleAll : List (Completion n) → IocpUsesM n Unit
  | [] => return
  | e :: es => do
    handle e
    iocp.zoom (modify fun p => { p with waiting := p.waiting.tail })
    handleAll es

def loopOnce (es : List (Completion n)) : IocpUsesM n Unit := do
  iocp.zoom (modify fun p =>
    { p with toTable := p.toTable.begin (es.map Completion.waiting), accepts := [] })
  handleAll es

def turn : Iocp.Turn n → IocpUsesM n Unit
  | .user script => run script
  | .batch es => loopOnce es

/-- A process, from its start. -/
def turns : List (Iocp.Turn n) → IocpUsesM n Unit
  | [] => return
  | t :: ts => do
    turn t
    turns ts

/-! ## Without the record -/

theorem use_erases (id : Fin n) (birth : Nat) : Erases iocp (use id birth) (pure ()) :=
  fun _ => rfl

theorem useSlot_erases (id : Fin n) : Erases iocp (useSlot id) (pure ()) := fun _ => rfl

theorem resume_erases (interlude : Interlude) (id : Fin n) (birth : Nat) :
    Erases iocp (resume interlude id birth) (pure ()) := fun _ => rfl

/-- The answers, each with what `onSend` does. -/
def Pairs (replies' : List (IocpSend × IocpUsesM n Unit))
    (replies : List (IocpSend × IocpM n Unit)) : Prop :=
  List.Forall₂ (fun h' h => h'.1 = h.1 ∧ Erases iocp h'.2 h.2) replies' replies

section

variable {replies' : List (IocpSend × IocpUsesM n Unit)}
  {replies : List (IocpSend × IocpM n Unit)} (h : Pairs replies' replies)

include h

theorem sendLoop_erases (id : Fin n) (birth : Nat) :
    Erases iocp (sendLoop id birth replies') (Iocp.sendLoop id birth replies) := by
  induction h with
  | nil =>
    unfold sendLoop Iocp.sendLoop
    apply Erases.get_bind
    intro p
    change Erases iocp (match p.sessions id with | none => _ | some conn => _)
      (match p.sessions id with | none => _ | some conn => _)
    cases p.sessions id with
    | none => exact .pure ()
    | some conn =>
      apply Erases.silent_bind (use_erases id birth)
      exact .ite (.pure ()) (.zoom _)
  | @cons a' a rest' rest ha _ ih =>
    obtain ⟨r', onSend'⟩ := a'
    obtain ⟨r, onSend⟩ := a
    obtain ⟨hr, honSend⟩ := ha
    dsimp only at hr honSend
    subst hr
    unfold sendLoop Iocp.sendLoop
    apply Erases.get_bind
    intro p
    change Erases iocp (match p.sessions id with | none => _ | some conn => _)
      (match p.sessions id with | none => _ | some conn => _)
    cases p.sessions id with
    | none => exact .pure ()
    | some conn =>
      apply Erases.silent_bind (use_erases id birth)
      apply Erases.ite (.pure ())
      cases r' with
      | error => exact .bind (.zoom _) fun _ => .zoom _
      | eagain posted => exact .bind (.zoom _) fun _ => .ite (.pure ()) (.zoom _)
      | accepted k =>
        apply Erases.ite ih
        apply Erases.bind (.zoom _)
        intro _
        apply Erases.bind honSend
        intro _
        exact .silent_bind (resume_erases .onSend id birth) ih

theorem postSend_erases (id : Fin n) :
    Erases iocp (postSend id replies') (Iocp.postSend id replies) := by
  apply Erases.bind (.zoom _)
  intro conn
  apply Erases.silent_bind (use_erases id conn.birth)
  apply Erases.bind (.zoom _)
  intro _
  exact sendLoop_erases h id conn.birth

theorem sendTo_erases (id : Fin n) (mem : Alloc) (buf : List UInt8) :
    Erases iocp (sendTo id mem buf replies') (Iocp.sendTo id mem buf replies) := by
  apply Erases.bind (.zoom _)
  intro conn
  apply Erases.ite (.zoom _)
  exact .bind (.zoom _) fun _ => postSend_erases h id

theorem do_send_erases (id : Fin n) :
    Erases iocp (do_send id replies') (Iocp.do_send id replies) := by
  apply Erases.bind (.zoom _)
  intro conn
  apply Erases.silent_bind (use_erases id conn.birth)
  exact .ite (postSend_erases h id) (.pure ())

theorem call_erases (c : IocpCall n) : Erases iocp (call c replies') (Iocp.call c replies) := by
  cases c with
  | sendTo id mem buf =>
    apply Erases.get_bind
    intro p
    change Erases iocp (if p.sessions id = none then _ else _)
      (if p.sessions id = none then _ else _)
    apply Erases.ite (.pure ())
    exact .bind (.zoom _) fun _ => sendTo_erases h id mem buf
  | postSend id =>
    apply Erases.get_bind
    intro p
    change Erases iocp (if p.sessions id = none then _ else _)
      (if p.sessions id = none then _ else _)
    exact .ite (.pure ()) (postSend_erases h id)
  | closeSession id type => exact Erases.zoom (Iocp.call (.closeSession id type) [])
  | postRecv | initNewSession | listenTo | consume => exact .zoom _

end

theorem run_erases (script : IocpScript n) : Erases iocp (run script) (Iocp.run script) :=
  Reentrant.Script.run_related (.zoom _)
    (fun _ _ _ _ hx hy => Erases.bind hx fun _ => hy) (fun c _ _ hs => call_erases hs c) script

theorem handlers_pairs (replies : IocpReplies n) : Pairs (handlers replies) (Iocp.handlers replies) :=
  Reentrant.Replies.handlers_related (.zoom _)
    (fun _ _ _ _ hx hy => Erases.bind hx fun _ => hy) (fun c _ _ hs => call_erases hs c) replies

theorem report_erases (id : Fin n) (birth readNum : Nat) {onRecv' : IocpUsesM n Unit}
    {onRecv : IocpM n Unit} (h : Erases iocp onRecv' onRecv) :
    Erases iocp (report id birth readNum onRecv') (Iocp.report readNum onRecv) := by
  apply Erases.bind (.zoom _)
  intro _
  exact .bind_silent h (resume_erases .onRecv id birth)

theorem do_recv_erases (id : Fin n) (mem : Alloc) (reads : List Chunk) (drained : DrainEnd)
    {onRecv' : IocpUsesM n Unit} {onRecv : IocpM n Unit} (h : Erases iocp onRecv' onRecv) :
    Erases iocp (do_recv id mem reads drained onRecv')
      (Iocp.do_recv id mem reads drained onRecv) := by
  apply Erases.bind (.zoom _)
  intro conn
  apply Erases.silent_bind (use_erases id conn.birth)
  apply Erases.bind (.zoom _)
  intro _
  apply Erases.bind (.zoom _)
  intro readNum
  cases drained with
  | zero => exact .zoom _
  | error => exact .zoom _
  | eagain =>
    apply Erases.ite _ (.zoom _)
    apply Erases.bind (report_erases id conn.birth readNum h)
    intro _
    apply Erases.get_bind
    intro p
    change Erases iocp (if p.sessions id = none then _ else _)
      (if p.sessions id = none then _ else _)
    exact .ite (.pure ()) (.silent_bind (use_erases id conn.birth) (.zoom _))

theorem context_erases (id : Fin n) (birth : Nat) (kind : CtxKind) :
    Erases iocp (context id birth kind) (Iocp.context id birth kind) :=
  .silent_bind (use_erases id birth) (.zoom _)

theorem onAccept_erases (e : Completion n) (id : Fin n) (script : IocpScript n) :
    Erases iocp (onAccept e id script) (Iocp.run script) :=
  .silent_bind (useSlot_erases id)
    (.bind_silent (run_erases script) (resume_erases .onAccept e.id e.birth))

theorem acceptLoop_erases (e : Completion n) (kind : CtxKind) (incoming : List (IocpIncoming n)) :
    Erases iocp (acceptLoop e kind incoming) (Iocp.acceptLoop e kind incoming) := by
  induction incoming with
  | nil => exact .bind (context_erases e.id e.birth kind) fun _ => .pure ()
  | cons c rest ih =>
    apply Erases.bind (context_erases e.id e.birth kind)
    intro _
    apply Erases.bind (.zoom _)
    intro created
    cases created with
    | none => exact ih
    | some id => exact .bind (onAccept_erases e id c.onAccept) fun _ => ih

theorem accepted_erases (e : Completion n) (kind : CtxKind) (client : Nat) :
    Erases iocp (accepted e kind client) (Iocp.accepted e kind client) := by
  apply Erases.bind (.silent_bind (useSlot_erases _) (.zoom _))
  intro _
  apply Erases.bind (.zoom _)
  intro created
  cases created with
  | none => exact .pure ()
  | some id =>
    apply Erases.bind (onAccept_erases e id e.onAccept)
    intro _
    apply Erases.bind (acceptLoop_erases e kind e.accepts)
    intro _
    apply Erases.bind (context_erases e.id e.birth kind)
    intro io_ctx
    apply Erases.silent_bind (useSlot_erases e.id)
    exact .bind (.zoom _) fun _ => .pure ()

theorem handle_erases (e : Completion n) : Erases iocp (handle e) (Iocp.handle e) := by
  apply Erases.get_bind
  intro p
  change Erases iocp
    (match p.sessions e.id, e.ctx with
      | none, _ => _
      | some _, none => _
      | some _, some kind => _)
    (match p.sessions e.id, e.ctx with
      | none, _ => _
      | some _, none => _
      | some _, some kind => _)
  cases p.sessions e.id with
  | none => exact .pure ()
  | some conn =>
    cases e.ctx with
    | none => exact .pure ()
    | some kind =>
      apply Erases.silent_bind (resume_erases .completion e.id e.birth)
      apply Erases.bind (.zoom _)
      intro _
      apply Erases.bind (context_erases e.id e.birth kind)
      intro io_ctx
      cases io_ctx.action with
      | accept => exact accepted_erases e kind io_ctx.accept
      | read => exact do_recv_erases e.id e.mem e.reads e.drained (run_erases e.onRecv)
      | write => exact do_send_erases (handlers_pairs e.sends) e.id
      | null | connect => exact .pure ()

theorem handleAll_erases (es : List (Completion n)) :
    Erases iocp (handleAll es) (Iocp.handleAll es) := by
  induction es with
  | nil => exact .pure ()
  | cons e es ih =>
    apply Erases.bind (handle_erases e)
    intro _
    exact .bind (.zoom _) fun _ => ih

theorem turn_erases (t : Iocp.Turn n) : Erases iocp (turn t) (Iocp.turn t) := by
  cases t with
  | user script => exact run_erases script
  | batch es => exact .bind (.zoom _) fun _ => handleAll_erases es

/-- The turns are those of the `Poller`. -/
theorem turns_erases (ts : List (Iocp.Turn n)) : Erases iocp (turns ts) (ts.forM Iocp.turn) := by
  induction ts with
  | nil => exact .pure ()
  | cons t ts ih => exact .bind (turn_erases t) fun _ => ih

end IocpUses

end ChainSocket
