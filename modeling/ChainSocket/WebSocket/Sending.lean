import ChainSocket.Lib.Triple
import ChainSocket.Poller.Loop
import ChainSocket.WebSocket.SharedBuffer
import Mathlib.Data.List.Permutation

/-!
# Calls of sendMsg on one session

`sendMsg` hands the header and the payload of a frame to `sendTo` one after the other, and either
call can come to `onSend`, which may call `sendMsg` again. The log keeps, at every call, what the
calls in progress have yet to hand over, and what has gone out wherever none is in progress.

* `sendBufs_framed`: what one `sendMsg` does to the frames, with any callbacks that keep them;
* `whole_of_calm`: the runs in which all that goes out are whole frames;
* `msgRun_alone`, `msgRun_whole`: on a session of a `Poller`.
-/

namespace ChainSocket

inductive MsgEvent where
  /-- A `sendMsg` begins. -/
  | begins (unsent : List (List UInt8))
  /-- No `sendMsg` is in progress: what is accepted or queued, and the messages so far. -/
  | quiet (wire : List UInt8) (msgs : List (List UInt8))
  deriving DecidableEq

structure Outgoing where
  session : Session
  isConnect : Bool
  /-- What each `sendMsg` in progress has yet to hand to `sendTo`, the innermost first. -/
  unsent : List (List UInt8)
  msgs : List (List UInt8)
  log : List MsgEvent

abbrev OutgoingM := EStateM Fault Outgoing

/-- What the system answers to one `sendTo`. -/
structure MsgAnswer where
  mem : Alloc
  send : SendResult

inductive MsgCall where
  | sendMsg (curBuffer : List UInt8)
  /-- `loopOnce` handles an `EVENT_WRITE`. -/
  | postSend

abbrev MsgScript := Reentrant.Script MsgCall MsgAnswer

namespace Outgoing

def wire (o : Outgoing) : List UInt8 := o.session.accepted ++ o.session.writeBuffer.data

def change (f : Session → Except Fault Session) : OutgoingM Unit := fun o =>
  match f o.session with
  | .ok s => .ok () { o with session := s }
  | .error e => .error e o

def sent (r : SendResult) (onSend : OutgoingM Unit) : OutgoingM Int :=
  match r with
  | .error => return -3
  | .eagain => return 0
  | .accepted k =>
    if k = 0 then
      return 0
    else do
      onSend
      return 0

def postSend (r : SendResult) (onSend : OutgoingM Unit) : OutgoingM Int := do
  let o ← get
  if o.session.writeBuffer.size = 0 then
    return 0
  else do
    change (·.offer r)
    sent r onSend

def sendTo (mem : Alloc) (buf : List UInt8) (r : SendResult) (onSend : OutgoingM Unit) :
    OutgoingM Unit := do
  let o ← get
  if 0 < o.session.writeBuffer.size then
    change (·.push mem buf)
  else do
    change (·.push mem buf)
    let _ ← postSend r onSend
    return

/-- The answer to the next `sendTo`, with its `onSend`. -/
def answer (replies : List (MsgAnswer × OutgoingM Unit)) : MsgAnswer × OutgoingM Unit :=
  replies.headD (⟨⟨true, fun _ => 0⟩, .eagain⟩, pure ())

/-- Behind the buffer that is handed over now, `bufs` are left. -/
def hands (bufs : List (List UInt8)) : OutgoingM Unit :=
  modify fun o => { o with unsent := bufs.flatten :: o.unsent.tail }

/-- The calls of `sendTo` at the end of `sendMsg2`. -/
def sendBufs : List (List UInt8) → List (MsgAnswer × OutgoingM Unit) → OutgoingM Unit
  | [], _ => return
  | buf :: bufs, replies => do
    hands bufs
    sendTo (answer replies).1.mem buf (answer replies).1.send (answer replies).2
    sendBufs bufs replies.tail

def begins (curBuffer : List UInt8) (bufs : List (List UInt8)) : OutgoingM Unit :=
  modify fun o => { o with
    log := o.log ++ [.begins o.unsent]
    msgs := o.msgs ++ [curBuffer]
    unsent := bufs.flatten :: o.unsent }

def sendMsg (curBuffer : List UInt8) (replies : List (MsgAnswer × OutgoingM Unit)) :
    OutgoingM Unit := do
  let o ← get
  match ChainSocket.sendMsg o.isConnect curBuffer with
  | .error e => throw e
  | .ok (bufs, _) => do
    begins curBuffer bufs
    sendBufs bufs replies
    modify fun o => { o with unsent := o.unsent.tail }

def call (c : MsgCall) (replies : List (MsgAnswer × OutgoingM Unit)) : OutgoingM Unit :=
  match c with
  | .sendMsg curBuffer => sendMsg curBuffer replies
  | .postSend => do
    let _ ← postSend (answer replies).1.send (answer replies).2
    return

def observe : OutgoingM Unit :=
  modify fun o =>
    match o.unsent with
    | [] => { o with log := o.log ++ [.quiet o.wire o.msgs] }
    | _ :: _ => o

def run (script : MsgScript) : OutgoingM Unit := script.run call observe

def start (s : Session) (isConnect : Bool) : Outgoing := ⟨s, isConnect, [], [], []⟩

/-- Where a run of calls ends. -/
def after (s : Session) (isConnect : Bool) (script : MsgScript) : Outgoing :=
  Effect.final ((run script).run (start s isConnect))

end Outgoing

/-- Behind what has been sent before, the wire has the frames of the messages, in some order. -/
def WholeFrames (isConnect : Bool) (sentBefore wire : List UInt8) (msgs : List (List UInt8)) :
    Prop :=
  ∃ ordered frames, List.Perm ordered msgs ∧
    encodeAll (ordered.map fun msg => (.sendMsg2 isConnect, msg)) = .ok frames ∧
    wire = sentBefore ++ frames

/-- No `sendMsg` begins between the header and the payload of another. -/
def Calm (log : List MsgEvent) : Prop :=
  ∀ unsent, .begins unsent ∈ log → ∀ rest ∈ unsent, rest = []

theorem Calm.of_append {log log' : List MsgEvent} (h : Calm (log ++ log')) : Calm log :=
  fun unsent hbegins => h unsent (List.mem_append_left _ hbegins)

/-! ## One call -/

namespace Session

theorem push_pushed {s s' : Session} {mem : Alloc} {bytes : List UInt8}
    (h : s.push mem bytes = .ok s') : s'.pushed = s.pushed ++ bytes := by
  obtain ⟨b, -, hret⟩ := Effect.except_bind_inv h
  cases hret
  rfl

theorem offer_pushed {s s' : Session} {r : SendResult} (h : s.offer r = .ok s') :
    s'.pushed = s.pushed := by
  cases r with
  | eagain | error =>
    cases h
    rfl
  | accepted k =>
    obtain ⟨b, -, hret⟩ := Effect.except_bind_inv h
    cases hret
    rfl

end Session

theorem encodeAll_append (msgs msgs' : List (Encoding × List UInt8)) {wire wire' : List UInt8}
    (h : encodeAll msgs = .ok wire) (h' : encodeAll msgs' = .ok wire') :
    encodeAll (msgs ++ msgs') = .ok (wire ++ wire') := by
  induction msgs generalizing wire with
  | nil =>
    cases h
    exact h'
  | cons m msgs ih =>
    obtain ⟨frame, hframe, hrest⟩ := Effect.except_bind_inv h
    obtain ⟨frames, hframes, hret⟩ := Effect.except_bind_inv hrest
    cases hret
    simp only [List.cons_append, encodeAll, hframe, ih hframes]
    simp [bind, Except.bind, pure, Except.pure]

/-- What `sendMsg` hands over are the bytes of one frame. -/
theorem sendMsg_encode {isConnect : Bool} {msg : List UInt8} {bufs : List (List UInt8)}
    {left : List UInt8} (h : sendMsg isConnect msg = .ok (bufs, left)) :
    encodeAll [(.sendMsg2 isConnect, msg)] = .ok bufs.flatten := by
  have hsame : sendMsg2 msg isConnect = .ok (bufs, left) := by
    rw [← h]
    cases isConnect <;> rfl
  simp [encodeAll, Encoding.encode, hsame, bind, Except.bind, pure, Except.pure]

namespace Outgoing

open Effect

section

variable (c : Bool) (sentBefore : List UInt8)

/-- As long as the log is calm, it has noted whole frames. -/
def Noted (o : Outgoing) : Prop :=
  Calm o.log → ∀ wire msgs, .quiet wire msgs ∈ o.log → WholeFrames c sentBefore wire msgs

/-- What has been handed over, then `handing`, then what the calls in progress have yet to hand
over, are the frames of the messages. -/
structure Framed (handing : List UInt8) (o : Outgoing) : Prop where
  connect : o.isConnect = c
  streams : o.session.Streams
  frames : Calm o.log → ∃ frames,
    encodeAll (o.msgs.map fun msg => (.sendMsg2 c, msg)) = .ok frames ∧
      o.session.pushed ++ handing ++ o.unsent.flatten = sentBefore ++ frames
  noted : Noted c sentBefore o

/-- The frames are kept, `unsent` is as it was, and the log has only grown. -/
structure Stays (unsent : List (List UInt8)) (log : List MsgEvent) (handing : List UInt8)
    (o : Outgoing) : Prop where
  framed : Framed c sentBefore handing o
  unsent : o.unsent = unsent
  grown : log <+: o.log

/-- From frames that are kept, `m` keeps them. -/
def Keeps (m : OutgoingM Unit) : Prop :=
  ∀ unsent log, Triple (Noted c sentBefore) (Stays c sentBefore unsent log [])
    m fun _ => Stays c sentBefore unsent log []

end

variable {c : Bool} {sentBefore : List UInt8} {unsent : List (List UInt8)} {log : List MsgEvent}

/-- What is handed over or queued moves, and no byte of it is lost. -/
theorem Framed.moved {handing handing' : List UInt8} {o : Outgoing} {s : Session}
    {unsent' : List (List UInt8)} (h : Framed c sentBefore handing o) (hstreams : s.Streams)
    (hsame : s.pushed ++ handing' ++ unsent'.flatten =
      o.session.pushed ++ handing ++ o.unsent.flatten) :
    Framed c sentBefore handing' { o with session := s, unsent := unsent' } := by
  refine ⟨h.connect, hstreams, fun hcalm => ?_, h.noted⟩
  obtain ⟨frames, hencode, hall⟩ := h.frames hcalm
  exact ⟨frames, hencode, hsame.trans hall⟩

theorem change_ok {f : Session → Except Fault Session} {o : Outgoing} {s : Session}
    (h : f o.session = .ok s) : (change f).run o = .ok () { o with session := s } := by
  change change f o = _
  simp only [change, h]

theorem change_error {f : Session → Except Fault Session} {o : Outgoing} {e : Fault}
    (h : f o.session = .error e) : (change f).run o = .error e o := by
  change change f o = _
  simp only [change, h]

theorem push_stays (mem : Alloc) (buf : List UInt8) :
    Triple (Noted c sentBefore) (Stays c sentBefore unsent log buf) (change (·.push mem buf))
      fun _ => Stays c sentBefore unsent log [] := by
  constructor
  · intro o _ o' hstays hrun
    cases hpush : o.session.push mem buf with
    | error e =>
      rw [change_error hpush] at hrun
      cases hrun
    | ok s =>
      rw [change_ok hpush] at hrun
      cases hrun
      obtain ⟨hstreams, -⟩ := Session.push_spec hstays.framed.streams hpush
      exact ⟨hstays.framed.moved hstreams (by simp [Session.push_pushed hpush]),
        hstays.unsent, hstays.grown⟩
  · intro o e o' hstays hrun
    cases hpush : o.session.push mem buf with
    | error e' =>
      rw [change_error hpush] at hrun
      cases hrun
      exact hstays.framed.noted
    | ok s =>
      rw [change_ok hpush] at hrun
      cases hrun

theorem offer_stays (r : SendResult) :
    Triple (Noted c sentBefore) (Stays c sentBefore unsent log []) (change (·.offer r))
      fun _ => Stays c sentBefore unsent log [] := by
  have hoffer : ∀ o, Stays c sentBefore unsent log [] o → ∃ s,
      (change (·.offer r)).run o = .ok () { o with session := s } ∧
        Stays c sentBefore unsent log [] { o with session := s } := by
    intro o hstays
    obtain ⟨s, hs, hstreams, -⟩ := Session.offer_spec hstays.framed.streams r
    exact ⟨s, change_ok hs, hstays.framed.moved hstreams (by rw [Session.offer_pushed hs]),
      hstays.unsent, hstays.grown⟩
  constructor
  · intro o _ o' hstays hrun
    obtain ⟨s, hs, hstays'⟩ := hoffer o hstays
    rw [hs] at hrun
    cases hrun
    exact hstays'
  · intro o e o' hstays hrun
    obtain ⟨s, hs, -⟩ := hoffer o hstays
    rw [hs] at hrun
    cases hrun

theorem postSend_stays (r : SendResult) {onSend : OutgoingM Unit}
    (hkeeps : Keeps c sentBefore onSend) :
    Triple (Noted c sentBefore) (Stays c sentBefore unsent log []) (postSend r onSend)
      fun _ => Stays c sentBefore unsent log [] := by
  unfold postSend
  apply Triple.get_bind
  intro o hstays
  split_ifs with hempty
  · exact Triple.pure fun _ heq => heq ▸ hstays
  apply ((offer_stays r).of_eq hstays).bind
  intro _
  unfold sent
  cases r with
  | eagain | error => exact Triple.pure fun _ h => h
  | accepted k =>
    dsimp only
    split_ifs with hk
    · exact Triple.pure fun _ h => h
    · exact Triple.bind (hkeeps unsent log) fun _ => Triple.pure fun _ h => h

theorem sendTo_stays (mem : Alloc) (buf : List UInt8) (r : SendResult) {onSend : OutgoingM Unit}
    (hkeeps : Keeps c sentBefore onSend) :
    Triple (Noted c sentBefore) (Stays c sentBefore unsent log buf) (sendTo mem buf r onSend)
      fun _ => Stays c sentBefore unsent log [] := by
  unfold sendTo
  apply Triple.get_bind
  intro o hstays
  split_ifs with hqueued
  · exact (push_stays mem buf).of_eq hstays
  · apply ((push_stays mem buf).of_eq hstays).bind
    intro _
    exact (postSend_stays r hkeeps).bind fun _ => Triple.pure fun _ h => h

/-- The next `sendTo` and its `onSend` are among those of the call. -/
theorem answer_keeps {replies : List (MsgAnswer × OutgoingM Unit)}
    (hkeeps : ∀ reply ∈ replies, Keeps c sentBefore reply.2) :
    Keeps c sentBefore (answer replies).2 := by
  cases replies with
  | nil => exact fun _ _ => Triple.pure fun _ h => h
  | cons reply replies => exact hkeeps reply List.mem_cons_self

/-- Buffer by buffer, what a `sendMsg` has begun goes out. -/
theorem sendBufs_framed (bufs : List (List UInt8)) :
    ∀ {replies : List (MsgAnswer × OutgoingM Unit)},
      (∀ reply ∈ replies, Keeps c sentBefore reply.2) →
      Triple (Noted c sentBefore) (Stays c sentBefore (bufs.flatten :: unsent) log [])
        (sendBufs bufs replies) fun _ => Stays c sentBefore ([] :: unsent) log [] := by
  induction bufs with
  | nil => exact fun _ => Triple.pure fun _ h => h
  | cons buf bufs ih =>
    intro replies hkeeps
    unfold sendBufs
    have hhands : Triple (Noted c sentBefore)
        (Stays c sentBefore ((buf :: bufs).flatten :: unsent) log [])
        (hands bufs) fun _ => Stays c sentBefore (bufs.flatten :: unsent) log buf := by
      apply Triple.modify
      intro o hstays
      exact ⟨hstays.framed.moved hstays.framed.streams (by simp [hstays.unsent]),
        by simp [hstays.unsent], hstays.grown⟩
    apply hhands.bind
    intro _
    apply (sendTo_stays _ buf _ (answer_keeps hkeeps)).bind
    intro _
    exact ih fun reply hreply => hkeeps reply (List.mem_of_mem_tail hreply)

/-- A calm `sendMsg` begins where nothing is unsent. -/
theorem begins_stays {curBuffer left : List UInt8} {bufs : List (List UInt8)}
    (hbufs : ChainSocket.sendMsg c curBuffer = .ok (bufs, left)) {o : Outgoing}
    (h : Stays c sentBefore unsent log [] o) :
    Stays c sentBefore (bufs.flatten :: unsent) log [] { o with
      log := o.log ++ [.begins o.unsent]
      msgs := o.msgs ++ [curBuffer]
      unsent := bufs.flatten :: o.unsent } := by
  refine ⟨⟨h.framed.connect, h.framed.streams, fun hcalm => ?_, fun hcalm wire msgs hquiet => ?_⟩,
    by rw [h.unsent], h.grown.trans (List.prefix_append ..)⟩
  · obtain ⟨frames, hencode, hall⟩ := h.framed.frames hcalm.of_append
    have hnone : o.unsent.flatten = [] :=
      List.flatten_eq_nil_iff.mpr (hcalm o.unsent (by simp))
    refine ⟨frames ++ bufs.flatten, ?_, ?_⟩
    · rw [List.map_append]
      exact encodeAll_append _ _ hencode (sendMsg_encode hbufs)
    · rw [hnone, List.append_nil, List.append_nil] at hall
      simp [hnone, hall]
  · cases List.mem_append.mp hquiet with
    | inl hold => exact h.framed.noted hcalm.of_append wire msgs hold
    | inr hnew => simp at hnew

theorem sendMsg_keeps (curBuffer : List UInt8) {replies : List (MsgAnswer × OutgoingM Unit)}
    (hkeeps : ∀ reply ∈ replies, Keeps c sentBefore reply.2) :
    Keeps c sentBefore (sendMsg curBuffer replies) := by
  intro unsent log
  unfold sendMsg
  apply Triple.get_bind
  intro o hstays
  rw [hstays.framed.connect]
  cases hbufs : ChainSocket.sendMsg c curBuffer with
  | error e =>
    constructor
    · intro _ _ _ _ hrun
      cases hrun
    · rintro _ _ _ rfl hrun
      cases hrun
      exact hstays.framed.noted
  | ok sent =>
    have hbegins : Triple (Noted c sentBefore) (· = o) (begins curBuffer sent.1)
        fun _ => Stays c sentBefore (sent.1.flatten :: unsent) log [] := by
      apply Triple.modify
      rintro _ rfl
      exact begins_stays hbufs hstays
    apply hbegins.bind
    intro _
    apply (sendBufs_framed sent.1 hkeeps).bind
    intro _
    apply Triple.modify
    intro o' h
    exact ⟨h.framed.moved h.framed.streams (by simp [h.unsent]), by simp [h.unsent], h.grown⟩

/-! ## Runs -/

theorem observe_keeps : Keeps c sentBefore observe := by
  intro unsent log
  apply Triple.modify
  rintro ⟨session, isConnect, waiting, msgs, log'⟩ h
  cases waiting with
  | cons => exact h
  | nil =>
    refine ⟨⟨h.framed.connect, h.framed.streams, fun hcalm => ?_, ?_⟩, h.unsent,
      h.grown.trans (List.prefix_append ..)⟩
    · exact h.framed.frames hcalm.of_append
    · intro hcalm wire msgs' hquiet
      cases List.mem_append.mp hquiet with
      | inl hold => exact h.framed.noted hcalm.of_append wire msgs' hold
      | inr hnew =>
        obtain ⟨frames, hencode, hall⟩ := h.framed.frames hcalm.of_append
        simp only [List.mem_singleton, MsgEvent.quiet.injEq] at hnew
        obtain ⟨rfl, rfl⟩ := hnew
        refine ⟨_, frames, List.Perm.refl _, hencode, ?_⟩
        rw [← hall, Outgoing.wire, h.framed.streams.stream]
        simp

theorem run_keeps (script : MsgScript) : Keeps c sentBefore (run script) := by
  refine Reentrant.Script.run_rule observe_keeps ?_ ?_ script
  · exact fun x y hx hy unsent log => Triple.bind (hx unsent log) fun _ => hy unsent log
  · intro call replies hkeeps
    cases call with
    | sendMsg curBuffer => exact sendMsg_keeps curBuffer hkeeps
    | postSend =>
      intro unsent log
      exact Triple.bind (postSend_stays _ (answer_keeps hkeeps)) fun _ => Triple.pure fun _ h => h

theorem start_stays {s : Session} (h : s.Streams) (isConnect : Bool) :
    Stays isConnect s.pushed [] [] [] (start s isConnect) := by
  refine ⟨⟨rfl, h, fun _ => ⟨[], rfl, by simp [start]⟩, ?_⟩, rfl, List.nil_prefix⟩
  intro _ wire msgs hquiet
  cases hquiet

/-- **Whatever `send` answers and whatever `onSend` calls, what has gone out where no `sendMsg` is in
progress is one whole frame for each of them, as long as none begins between the header and the
payload of another.** -/
theorem whole_of_calm {s : Session} (h : s.Streams) (isConnect : Bool) (script : MsgScript)
    (hcalm : Calm (after s isConnect script).log) : ∀ wire msgs,
      .quiet wire msgs ∈ (after s isConnect script).log →
        WholeFrames isConnect s.pushed wire msgs :=
  (run_keeps script [] []).final (fun _ _ hstays => hstays.framed.noted) (start_stays h isConnect)
    hcalm

/-! ## A frame in the middle of another -/

/-- `onSend` answers the bytes of the first header with a message of its own. -/
def echoing : MsgScript :=
  .call (.sendMsg [0x41])
    (.reply ⟨⟨true, fun _ => 0⟩, .accepted 2⟩ (.call (.sendMsg [0x42]) .none .done) .none) .done

def fresh : Session := .create 0 5 .accept 0 ⟨true, fun _ => 0⟩

theorem echoing_wire : .quiet [0x81, 1, 0x81, 1, 0x42, 0x41] [[0x41], [0x42]] ∈
    (after fresh false echoing).log := by
  decide +kernel

theorem echoing_interleaved : ¬ ∀ (s : Session), s.Streams → ∀ isConnect script wire msgs,
    .quiet wire msgs ∈ (after s isConnect script).log →
      WholeFrames isConnect s.pushed wire msgs := by
  intro h
  obtain ⟨ordered, frames, hperm, hencode, hwire⟩ :=
    h fresh (Session.create_streams ..) false echoing _ _ echoing_wire
  have hpushed : fresh.pushed = [] := rfl
  rw [hpushed, List.nil_append] at hwire
  subst hwire
  have horders : ∀ ordered ∈ [[0x41], [0x42]].permutations',
      encodeAll (ordered.map fun msg => (.sendMsg2 false, msg)) ≠
        .ok [0x81, 1, 0x81, 1, 0x42, 0x41] := by
    decide
  exact horders ordered (List.mem_permutations'.mpr hperm) hencode

/-- Where `onSend` waits until the payload is handed over, it may answer. -/
def answering : MsgScript :=
  .call (.sendMsg [0x41])
    (.reply ⟨⟨true, fun _ => 0⟩, .accepted 2⟩ .done
      (.reply ⟨⟨true, fun _ => 0⟩, .accepted 1⟩ (.call (.sendMsg [0x42]) .none .done) .none)) .done

theorem answering_whole : WholeFrames false [] [0x81, 1, 0x41, 0x81, 1, 0x42] [[0x41], [0x42]] := by
  have hlog : (after fresh false answering).log = [.quiet [] [], .begins [], .begins [[]],
      .quiet [0x81, 1, 0x41, 0x81, 1, 0x42] [[0x41], [0x42]]] := by
    decide +kernel
  refine whole_of_calm (s := fresh) (Session.create_streams ..) false answering ?_ _ _ ?_
  · intro unsent hbegins
    rw [hlog] at hbegins
    simp only [List.mem_cons, MsgEvent.begins.injEq, reduceCtorEq, false_or, or_false,
      List.not_mem_nil] at hbegins
    rcases hbegins with rfl | rfl <;> simp
  · rw [hlog]
    simp

end Outgoing

/-! ## The session in a Poller -/

namespace Poller

variable {n : Nat}

def msgAnswer (replies : List (MsgAnswer × PollerM n Unit)) : MsgAnswer × PollerM n Unit :=
  replies.headD (⟨⟨true, fun _ => 0⟩, .eagain⟩, pure ())

def sendBufs (id : Fin n) : List (List UInt8) → List (MsgAnswer × PollerM n Unit) → PollerM n Unit
  | [], _ => return
  | buf :: bufs, replies => do
    sendTo id (msgAnswer replies).1.mem buf (msgAnswer replies).1.send (msgAnswer replies).2
    sendBufs id bufs replies.tail

/-- The calls of a script on the session at `id`, without what the log keeps of them. -/
def msgCall (id : Fin n) (isConnect : Bool) (c : MsgCall)
    (replies : List (MsgAnswer × PollerM n Unit)) : PollerM n Unit :=
  match c with
  | .sendMsg curBuffer =>
    match ChainSocket.sendMsg isConnect curBuffer with
    | .error e => throw e
    | .ok (bufs, _) => sendBufs id bufs replies
  | .postSend => do
    let _ ← postSend id (msgAnswer replies).1.send (msgAnswer replies).2
    return

def msgRun (id : Fin n) (isConnect : Bool) (script : MsgScript) : PollerM n Unit :=
  script.run (msgCall id isConnect) (pure ())

end Poller

namespace Outgoing

open Effect

section

variable {n : Nat} {α β : Type}

/-- On the session in a slot of a `Poller`, `y` does what `x` does, and nothing to the others. -/
def Alone (id : Fin n) (c : Bool) (x : OutgoingM α) (y : PollerM n α) : Prop :=
  ∀ o p, o.isConnect = c → p.sessions id = some o.session →
    (∀ a o', x.run o = .ok a o' → o'.isConnect = c ∧ ∃ p', y.run p = .ok a p' ∧
      p'.sessions = Function.update p.sessions id (some o'.session)) ∧
    ∀ e o', x.run o = .error e o' → ∃ p', y.run p = .error e p'

namespace Alone

variable {id : Fin n} {c : Bool} {x : OutgoingM α} {y : PollerM n α}

protected theorem pure (a : α) : Alone id c (pure a) (pure a) := by
  intro o p hc hp
  constructor
  · intro _ _ hrun
    cases hrun
    exact ⟨hc, p, rfl, by rw [← hp, Function.update_eq_self]⟩
  · intro _ _ hrun
    cases hrun

/-- What `sendMsg` and the log note changes no session. -/
theorem notes {f : Outgoing → Outgoing}
    (hf : ∀ o, (f o).session = o.session ∧ (f o).isConnect = o.isConnect) :
    Alone id c (modify f) (pure ()) := by
  intro o p hc hp
  constructor
  · intro _ _ hrun
    cases hrun
    refine ⟨(hf o).2.trans hc, p, rfl, ?_⟩
    rw [(hf o).1, ← hp, Function.update_eq_self]
  · intro _ _ hrun
    cases hrun

theorem get_bind {k : Outgoing → OutgoingM α} (h : ∀ o, o.isConnect = c → Alone id c (k o) y) :
    Alone id c (get >>= k) y := by
  intro o p hc hp
  rw [run_bind_ok (run_get o)]
  exact h o hc o p hc hp

theorem bind {k : α → OutgoingM β} {k' : α → PollerM n β} (h : Alone id c x y)
    (hk : ∀ a, Alone id c (k a) (k' a)) : Alone id c (x >>= k) (y >>= k') := by
  intro o p hc hp
  obtain ⟨hok, herror⟩ := h o p hc hp
  have hput : ∀ (o₁ : Outgoing) (p₁ : Poller n),
      p₁.sessions = Function.update p.sessions id (some o₁.session) →
      p₁.sessions id = some o₁.session := fun o₁ p₁ hsessions => by simp [hsessions]
  constructor
  · intro b o' hrun
    obtain ⟨a, o₁, hfirst, hrest⟩ := run_bind_inv hrun
    obtain ⟨hc₁, p₁, hy, hsessions⟩ := hok a o₁ hfirst
    obtain ⟨hc', p', hk', hsessions'⟩ := (hk a o₁ p₁ hc₁ (hput o₁ p₁ hsessions)).1 b o' hrest
    refine ⟨hc', p', by rw [run_bind_ok hy, hk'], ?_⟩
    rw [hsessions', hsessions, Function.update_idem]
  · intro e o' hrun
    cases hfirst : x.run o with
    | error e₁ o₁ =>
      rw [run_bind_error hfirst] at hrun
      cases hrun
      obtain ⟨p', hy⟩ := herror e o' hfirst
      exact ⟨p', by rw [run_bind_error hy]⟩
    | ok a o₁ =>
      rw [run_bind_ok hfirst] at hrun
      obtain ⟨hc₁, p₁, hy, hsessions⟩ := hok a o₁ hfirst
      obtain ⟨p', hk'⟩ := (hk a o₁ p₁ hc₁ (hput o₁ p₁ hsessions)).2 e o' hrun
      exact ⟨p', by rw [run_bind_ok hy, hk']⟩

theorem slot_bind {k : Outgoing → OutgoingM α} {k' : Session → PollerM n α}
    (h : ∀ o, Alone id c (k o) (k' o.session)) :
    Alone id c (get >>= k) (Poller.slot id >>= k') := by
  intro o p hc hp
  have hslot : (Poller.slot id).run p = .ok o.session p :=
    Lens.zoom_ok (l := Poller.table) (Table.slot_run hp)
  rw [run_bind_ok (run_get o), run_bind_ok hslot]
  exact h o o p hc hp

theorem change (f : Session → Except Fault Session) :
    Alone id c (Outgoing.change f) (Poller.change id f) := by
  intro o p hc hp
  cases hf : f o.session with
  | ok s =>
    rw [change_ok hf]
    constructor
    · intro _ _ hrun
      cases hrun
      exact ⟨hc, _, Lens.zoom_ok (Table.change_run hp hf), rfl⟩
    · intro _ _ hrun
      cases hrun
  | error e =>
    rw [change_error hf]
    constructor
    · intro _ _ hrun
      cases hrun
    · intro _ _ hrun
      cases hrun
      exact ⟨_, Lens.zoom_error (Table.change_error hp hf)⟩

end Alone

section

variable {id : Fin n} {c : Bool}

theorem postSend_alone (r : SendResult) {x : OutgoingM Unit} {y : PollerM n Unit}
    (h : Alone id c x y) : Alone id c (postSend r x) (Poller.postSend id r y) := by
  unfold postSend Poller.postSend
  refine Alone.slot_bind fun o => ?_
  split_ifs with hempty
  · exact .pure 0
  refine (Alone.change _).bind fun _ => ?_
  unfold sent Poller.sent
  cases r with
  | eagain | error => exact .pure _
  | accepted k =>
    dsimp only
    split_ifs with hk
    · exact .pure 0
    · exact h.bind fun _ => .pure 0

/-- On a session of a `Poller`, with an `onSend` that does the same to it. -/
theorem sendTo_alone (mem : Alloc) (buf : List UInt8) (r : SendResult) {x : OutgoingM Unit}
    {y : PollerM n Unit} (h : Alone id c x y) :
    Alone id c (sendTo mem buf r x) (Poller.sendTo id mem buf r y) := by
  unfold sendTo Poller.sendTo
  refine Alone.slot_bind fun o => ?_
  split_ifs with hqueued
  · exact .change _
  · exact (Alone.change _).bind fun _ => (postSend_alone r h).bind fun _ => .pure ()

/-- The callbacks of a call, on either side, with what they are called back for. -/
abbrev AnsweredAlone (id : Fin n) (c : Bool) (replies : List (MsgAnswer × OutgoingM Unit))
    (replies' : List (MsgAnswer × PollerM n Unit)) : Prop :=
  List.Forall₂ (fun reply reply' => reply.1 = reply'.1 ∧ Alone id c reply.2 reply'.2)
    replies replies'

theorem answer_alone {replies : List (MsgAnswer × OutgoingM Unit)}
    {replies' : List (MsgAnswer × PollerM n Unit)} (h : AnsweredAlone id c replies replies') :
    (answer replies).1 = (Poller.msgAnswer replies').1 ∧
      Alone id c (answer replies).2 (Poller.msgAnswer replies').2 := by
  cases h with
  | nil => exact ⟨rfl, .pure ()⟩
  | cons first _ => exact first

theorem sendBufs_alone (bufs : List (List UInt8)) :
    ∀ {replies replies'}, AnsweredAlone id c replies replies' →
      Alone id c (sendBufs bufs replies) (Poller.sendBufs id bufs replies') := by
  induction bufs with
  | nil => exact fun _ => .pure ()
  | cons buf bufs ih =>
    intro replies replies' hreplies
    obtain ⟨hsame, honSend⟩ := answer_alone hreplies
    have htail : AnsweredAlone id c replies.tail replies'.tail := by
      cases hreplies with
      | nil => exact .nil
      | cons _ rest => exact rest
    have hhands : Alone id c (hands bufs) (pure ()) := .notes fun _ => ⟨rfl, rfl⟩
    unfold sendBufs Poller.sendBufs
    rw [hsame]
    exact hhands.bind fun _ => (sendTo_alone _ buf _ honSend).bind fun _ => ih htail

theorem call_alone (call : MsgCall) {replies : List (MsgAnswer × OutgoingM Unit)}
    {replies' : List (MsgAnswer × PollerM n Unit)} (h : AnsweredAlone id c replies replies') :
    Alone id c (Outgoing.call call replies) (Poller.msgCall id c call replies') := by
  cases call with
  | postSend =>
    obtain ⟨hsame, honSend⟩ := answer_alone h
    unfold Outgoing.call Poller.msgCall
    dsimp only
    rw [hsame]
    exact (postSend_alone _ honSend).bind fun _ => .pure ()
  | sendMsg curBuffer =>
    unfold Outgoing.call Poller.msgCall sendMsg
    dsimp only
    refine Alone.get_bind fun o hc => ?_
    rw [hc]
    cases hbufs : ChainSocket.sendMsg c curBuffer with
    | error e =>
      intro o p _ _
      constructor
      · intro _ _ hrun
        cases hrun
      · intro _ _ hrun
        cases hrun
        exact ⟨p, rfl⟩
    | ok sent =>
      have hbegins : Alone id c (begins curBuffer sent.1) (pure ()) := .notes fun _ => ⟨rfl, rfl⟩
      have hends : Alone id c (modify fun o : Outgoing => { o with unsent := o.unsent.tail })
          (pure ()) := .notes fun _ => ⟨rfl, rfl⟩
      have hall := hbegins.bind fun _ => (sendBufs_alone sent.1 h).bind fun _ => hends
      rwa [pure_bind, bind_pure] at hall

/-- A run of calls on one session, with all that `onSend` calls, is that run on the `Poller`. -/
theorem msgRun_alone (script : MsgScript) :
    Alone id c (run script) (Poller.msgRun id c script) := by
  refine Reentrant.Script.run_related (R := Alone id c) ?_ ?_ ?_ script
  · refine Alone.notes fun o => ?_
    cases hunsent : o.unsent <;> simp
  · exact fun x y x' y' h h' => h.bind fun _ => h'
  · exact fun call replies replies' h => call_alone call h

/-- **Where a calm run has returned, the session in the slot has sent or queued whole frames.** -/
theorem msgRun_whole {s : Session} (h : s.Streams) (script : MsgScript)
    (hcalm : Calm (after s c script).log) {p : Poller n} (hp : p.sessions id = some s) {o : Outgoing}
    (hrun : (run script).run (start s c) = .ok () o) :
    ∃ p' s', (Poller.msgRun id c script).run p = .ok () p' ∧ p'.sessions id = some s' ∧
      WholeFrames c s.pushed (s'.accepted ++ s'.writeBuffer.data) o.msgs := by
  obtain ⟨-, p', hp', hsessions⟩ := (msgRun_alone script (start s c) p rfl hp).1 () o hrun
  refine ⟨p', o.session, hp', by simp [hsessions], ?_⟩
  have hstays := (run_keeps script [] []).ok _ _ _ (start_stays h c) hrun
  have hafter : after s c script = o := by rw [after, hrun]; rfl
  rw [hafter] at hcalm
  obtain ⟨frames, hencode, hall⟩ := hstays.framed.frames hcalm
  rw [hstays.unsent, ← hstays.framed.streams.stream] at hall
  exact ⟨o.msgs, frames, List.Perm.refl _, hencode, by simpa using hall⟩

end

end

end Outgoing

end ChainSocket
