import ChainSocket.Iocp.Loop
import ChainSocket.Lib.Triple

/-!
# The writes of one session of IOCPPoller.cpp

Runs of `sendTo` and of write completions on one session, with a record of what is outstanding on
the overlapped structure of `io_ctx_s`.

* `sendTo_event_erases`, `completed_erases`: without the record, they do what `sendTo` and `do_send`
  of the `Poller` do;
* `runAll_erases`: and so does a run of them.
-/

namespace ChainSocket

/-- The overlapped structure of `io_ctx_s`. -/
structure Overlapped where
  /-- How many `WSASend`s have been posted and not completed. -/
  outstanding : Nat
  /-- The most there have been at one time. -/
  peak : Nat
  /-- Whether one of them has been posted while `onSend` was running. -/
  nested : Bool
  /-- Whether one has been posted while one of these was outstanding. -/
  clash : Bool
  deriving DecidableEq

structure IocpWrites (n : Nat) extends Iocp n where
  overlapped : Overlapped
  /-- How many calls of `onSend` are running. -/
  depth : Nat

abbrev IocpWritesM (n : Nat) := EStateM Fault (IocpWrites n)

/-- The calls that `onSend` makes. -/
structure SendCall where
  mem : Alloc
  buf : List UInt8

abbrev SendReplies := Reentrant.Replies SendCall IocpSend

/-- A top-level `sendTo`, or the completion of a `WSASend`. -/
inductive WriteEvent where
  | sendTo (c : SendCall) (replies : SendReplies)
  | completed (replies : SendReplies)

namespace Overlapped

def fresh : Overlapped := ⟨0, 0, false, false⟩

def post (o : Overlapped) (inside : Bool) : Overlapped :=
  { outstanding := o.outstanding + 1
    peak := max o.peak (o.outstanding + 1)
    nested := o.nested || inside
    clash := o.clash || o.nested }

def complete (o : Overlapped) : Overlapped :=
  { o with
    outstanding := o.outstanding - 1
    nested := o.nested && decide (1 < o.outstanding) }

end Overlapped

namespace IocpWrites

open Effect

variable {n : Nat}

def start (p : Iocp n) : IocpWrites n := { p with overlapped := .fresh, depth := 0 }

def iocp : Lens (IocpWrites n) (Iocp n) where
  get p := p.toIocp
  set q p := { p with toIocp := q }
  get_set _ _ := rfl
  set_get _ := rfl
  set_set _ _ _ := rfl

/-- `WSASend`, when it is taken. -/
def post : IocpWritesM n Unit :=
  modify fun p => { p with overlapped := p.overlapped.post (decide (0 < p.depth)) }

def enter : IocpWritesM n Unit := modify fun p => { p with depth := p.depth + 1 }

def leave : IocpWritesM n Unit := modify fun p => { p with depth := p.depth - 1 }

/-- The loop of `postSend`. -/
def sendLoop (id : Fin n) (birth : Nat) :
    List (IocpSend × IocpWritesM n Unit) → IocpWritesM n Unit
  | [] => do
    let p ← get
    match p.sessions id with
    | none => return
    | some conn =>
      if conn.birth ≠ birth ∨ conn.writeBuffer.size = 0 then return
      else do
        iocp.zoom (Iocp.change id (·.offer .eagain))
        post
  | (r, onSend) :: rest => do
    let p ← get
    match p.sessions id with
    | none => return
    | some conn =>
      if conn.birth ≠ birth ∨ conn.writeBuffer.size = 0 then return
      else
        match r with
        | .accepted k =>
          if k = 0 then
            sendLoop id birth rest
          else do
            iocp.zoom (Iocp.change id (·.offer (.accepted k)))
            enter
            onSend
            leave
            sendLoop id birth rest
        | .eagain posted => do
          iocp.zoom (Iocp.change id (·.offer .eagain))
          if posted then post else iocp.zoom (Iocp.closeSession id .wsendError1)
        | .error => do
          iocp.zoom (Iocp.change id (·.offer .error))
          iocp.zoom (Iocp.closeSession id .wsendError2)

def postSend (id : Fin n) (replies : List (IocpSend × IocpWritesM n Unit)) :
    IocpWritesM n Unit := do
  let conn ← iocp.zoom (Iocp.slot id)
  iocp.zoom (Iocp.setContexts id fun data =>
    { data with io_ctx_s := { data.io_ctx_s with action := .write } })
  sendLoop id conn.birth replies

def sendTo (id : Fin n) (mem : Alloc) (buf : List UInt8)
    (replies : List (IocpSend × IocpWritesM n Unit)) : IocpWritesM n Unit := do
  let conn ← iocp.zoom (Iocp.slot id)
  if 0 < conn.writeBuffer.size then
    iocp.zoom (Iocp.change id (·.push mem buf))
  else do
    iocp.zoom (Iocp.change id (·.push mem buf))
    postSend id replies

def do_send (id : Fin n) (replies : List (IocpSend × IocpWritesM n Unit)) :
    IocpWritesM n Unit := do
  let conn ← iocp.zoom (Iocp.slot id)
  if 0 < conn.writeBuffer.size then postSend id replies else return

def call (id : Fin n) (c : SendCall) (replies : List (IocpSend × IocpWritesM n Unit)) :
    IocpWritesM n Unit := do
  let p ← get
  if p.sessions id = none then return
  else do
    iocp.zoom (Iocp.hand id c.buf)
    sendTo id c.mem c.buf replies

def observe : IocpWritesM n Unit := iocp.zoom (Iocp.table.zoom Table.observe)

/-- A `WSASend` that is outstanding is completed, and `do_send` runs if the session is open. -/
def completed (id : Fin n) (replies : List (IocpSend × IocpWritesM n Unit)) :
    IocpWritesM n Unit := do
  modify fun p => { p with overlapped := p.overlapped.complete }
  let p ← get
  if p.sessions id = none then return else do_send id replies

def onWrite (id : Fin n) : WriteEvent → IocpWritesM n Unit
  | .sendTo c replies => call id c (replies.handlers (call id) observe)
  | .completed replies => do
    let p ← get
    if p.overlapped.outstanding = 0 then return
    else completed id (replies.handlers (call id) observe)

def runAll (id : Fin n) : List WriteEvent → IocpWritesM n Unit
  | [] => return
  | e :: es => do
    onWrite id e
    runAll id es

/-! ## Without the record -/

theorem post_erases : Erases iocp (post : IocpWritesM n Unit) (pure ()) := fun _ => rfl

theorem enter_erases : Erases iocp (enter : IocpWritesM n Unit) (pure ()) := fun _ => rfl

theorem leave_erases : Erases iocp (leave : IocpWritesM n Unit) (pure ()) := fun _ => rfl

/-- The answers, each with what `onSend` does. -/
def Pairs (replies' : List (IocpSend × IocpWritesM n Unit))
    (replies : List (IocpSend × IocpM n Unit)) : Prop :=
  List.Forall₂ (fun h' h => h'.1 = h.1 ∧ Erases iocp h'.2 h.2) replies' replies

section

variable {id : Fin n} {replies' : List (IocpSend × IocpWritesM n Unit)}
  {replies : List (IocpSend × IocpM n Unit)} (h : Pairs replies' replies)

include h

theorem sendLoop_erases (birth : Nat) :
    Erases iocp (sendLoop id birth replies') (Iocp.sendLoop id birth replies) := by
  induction h with
  | nil =>
    unfold sendLoop Iocp.sendLoop
    apply Erases.get_bind
    intro p
    change Erases iocp (match p.sessions id with | none => _ | some conn => _)
      (match p.sessions id with | none => _ | some conn => _)
    cases p.sessions id with
    | none => exact .pure ()
    | some conn => exact .ite (.pure ()) (.bind_silent (.zoom _) post_erases)
  | @cons a' a rest' rest ha _ ih =>
    obtain ⟨r', onSend'⟩ := a'
    obtain ⟨r, onSend⟩ := a
    obtain ⟨hr, honSend⟩ := ha
    dsimp only at hr honSend
    subst hr
    unfold sendLoop Iocp.sendLoop
    apply Erases.get_bind
    intro p
    change Erases iocp (match p.sessions id with | none => _ | some conn => _)
      (match p.sessions id with | none => _ | some conn => _)
    cases p.sessions id with
    | none => exact .pure ()
    | some conn =>
      apply Erases.ite (.pure ())
      cases r' with
      | error => exact .bind (.zoom _) fun _ => .zoom _
      | eagain posted => exact .bind (.zoom _) fun _ => .ite post_erases (.zoom _)
      | accepted k =>
        apply Erases.ite ih
        apply Erases.bind (.zoom _)
        intro _
        apply Erases.silent_bind enter_erases
        apply Erases.bind honSend
        intro _
        exact .silent_bind leave_erases ih

theorem postSend_erases : Erases iocp (postSend id replies') (Iocp.postSend id replies) := by
  apply Erases.bind (.zoom _)
  intro conn
  apply Erases.bind (.zoom _)
  intro _
  exact sendLoop_erases h conn.birth

theorem sendTo_erases (mem : Alloc) (buf : List UInt8) :
    Erases iocp (sendTo id mem buf replies') (Iocp.sendTo id mem buf replies) := by
  apply Erases.bind (.zoom _)
  intro conn
  apply Erases.ite (.zoom _)
  exact .bind (.zoom _) fun _ => postSend_erases h

theorem do_send_erases : Erases iocp (do_send id replies') (Iocp.do_send id replies) := by
  apply Erases.bind (.zoom _)
  intro conn
  exact .ite (postSend_erases h) (.pure ())

theorem call_erases (c : SendCall) :
    Erases iocp (call id c replies') (Iocp.call (.sendTo id c.mem c.buf) replies) := by
  apply Erases.get_bind
  intro p
  change Erases iocp (if p.sessions id = none then _ else _)
    (if p.sessions id = none then _ else _)
  apply Erases.ite (.pure ())
  exact .bind (.zoom _) fun _ => sendTo_erases h c.mem c.buf

end

/-- The answers to an event, on the `Poller` without the record. -/
def sends (id : Fin n) (replies : SendReplies) : List (IocpSend × IocpM n Unit) :=
  replies.handlers (fun c => Iocp.call (.sendTo id c.mem c.buf)) (Iocp.table.zoom Table.observe)

theorem sends_pairs (id : Fin n) (replies : SendReplies) :
    Pairs (replies.handlers (call id) observe) (sends id replies) :=
  Reentrant.Replies.handlers_related (.zoom _)
    (fun _ _ _ _ hx hy => Erases.bind hx fun _ => hy) (fun c _ _ hs => call_erases hs c) replies

/-- A `sendTo` of the outside is that of the `Poller`. -/
theorem sendTo_event_erases (id : Fin n) (c : SendCall) (replies : SendReplies) :
    Erases iocp (onWrite id (.sendTo c replies))
      (Iocp.call (.sendTo id c.mem c.buf) (sends id replies)) :=
  call_erases (sends_pairs id replies) c

/-- A completion runs `do_send`, where the session is open. -/
theorem completed_erases (id : Fin n) (replies : SendReplies) :
    Erases iocp (completed id (replies.handlers (call id) observe)) (do
      let p ← get
      if p.sessions id = none then return else Iocp.do_send id (sends id replies)) := by
  apply Erases.silent_bind (fun _ => rfl)
  apply Erases.get_bind
  intro p
  change Erases iocp (if p.sessions id = none then _ else _)
    (if p.sessions id = none then _ else _)
  exact .ite (.pure ()) (do_send_erases (sends_pairs id replies))

/-- An event on the `Poller`. -/
def write (id : Fin n) : WriteEvent → IocpM n Unit
  | .sendTo c replies => Iocp.call (.sendTo id c.mem c.buf) (sends id replies)
  | .completed replies => do
    let p ← get
    if p.sessions id = none then return else Iocp.do_send id (sends id replies)

def writeAll (id : Fin n) : List WriteEvent → IocpM n Unit
  | [] => return
  | e :: es => do
    write id e
    writeAll id es

/-- Where a `WSASend` is outstanding, or the event is no completion. -/
theorem onWrite_erases {id : Fin n} {e : WriteEvent} {p : IocpWrites n}
    (h : ∀ replies, e = .completed replies → p.overlapped.outstanding ≠ 0) :
    erase iocp ((onWrite id e).run p) = (write id e).run p.toIocp := by
  cases e with
  | sendTo c replies => exact sendTo_event_erases id c replies p
  | completed replies =>
    have hcompleted : (onWrite id (.completed replies)).run p =
        (completed id (replies.handlers (call id) observe)).run p := by
      unfold onWrite
      rw [run_bind_ok (run_get p), if_neg (h replies rfl)]
    rw [hcompleted]
    exact completed_erases id replies p

/-- A run is one of the `Poller`, without the completions for which nothing is outstanding. -/
theorem runAll_erases (id : Fin n) (es : List WriteEvent) (p : IocpWrites n) :
    ∃ es', es'.Sublist es ∧ erase iocp ((runAll id es).run p) = (writeAll id es').run p.toIocp := by
  induction es generalizing p with
  | nil => exact ⟨[], .slnil, rfl⟩
  | cons e es ih =>
    by_cases hidle : ∃ replies, e = .completed replies ∧ p.overlapped.outstanding = 0
    · obtain ⟨replies, rfl, hnone⟩ := hidle
      obtain ⟨es', hsub, hrun⟩ := ih p
      have hskip : (onWrite id (.completed replies)).run p = .ok () p := by
        unfold onWrite
        rw [run_bind_ok (run_get p), if_pos hnone]
        rfl
      refine ⟨es', hsub.cons _, ?_⟩
      rw [runAll, run_bind_ok hskip, hrun]
    · have hevent : erase iocp ((onWrite id e).run p) = (write id e).run p.toIocp := by
        apply onWrite_erases
        rintro replies rfl hnone
        exact hidle ⟨replies, rfl, hnone⟩
      cases hfirst : (onWrite id e).run p with
      | ok _ p₁ =>
        obtain ⟨es', hsub, hrun⟩ := ih p₁
        rw [hfirst] at hevent
        refine ⟨e :: es', hsub.cons_cons e, ?_⟩
        rw [runAll, run_bind_ok hfirst, hrun, writeAll, run_bind_ok hevent.symm]
        rfl
      | error f p₁ =>
        rw [hfirst] at hevent
        refine ⟨[e], (List.nil_sublist es).cons_cons e, ?_⟩
        rw [runAll, run_bind_error hfirst, writeAll, run_bind_error hevent.symm]
        rfl

end IocpWrites

end ChainSocket
