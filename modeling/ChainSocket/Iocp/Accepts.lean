import ChainSocket.Iocp.Listening
import ChainSocket.Iocp.Runs

/-!
# The accepts of IOCPPoller.cpp

`loopOnce`, with a record of what `do_accept` hands to `setsockopt` and of the accepts that are
posted again.

* `turns_erases`: without the record, this is the `Poller`;
* `accepts_iff`: the accepts that are handled right.
-/

namespace ChainSocket

/-- `SO_UPDATE_ACCEPT_CONTEXT`, for an accept that has completed. -/
structure ContextUpdate where
  /-- The id of the listener. -/
  id : Nat
  /-- Its socket, and the one that has been accepted. -/
  listener : Option Nat
  client : Nat
  /-- The socket of the session in slot 0. -/
  first : Option Nat
  /-- The socket that `setsockopt` is called on, and the listening socket it is given. -/
  handed : Option (Nat × Nat)
  deriving DecidableEq

/-- The end of an accept that has completed. -/
structure Reposting where
  /-- The listener. -/
  birth : Nat
  /-- What `CreateIoCompletionPort` has answered. -/
  port : Bool
  /-- What `WSASocket` and `AcceptEx` answer. -/
  posting : Posting
  /-- The session now at the id of the listener, and its socket. -/
  slot : Option (Nat × Nat)
  /-- The session whose accept is pending now, and the listening socket. -/
  posted : Option (Nat × Nat)

/-- The socket accepted is handed over, with the one it was accepted on. -/
def ContextUpdate.Right (u : ContextUpdate) : Prop :=
  ∃ l, u.listener = some l ∧ u.handed = some (u.client, l)

/-- Two sessions that are open have different sockets, and no socket is 0. -/
def ContextUpdate.Apart (u : ContextUpdate) : Prop :=
  u.id ≠ 0 → u.first ≠ u.listener ∧ u.listener ≠ some 0

instance (u : ContextUpdate) : Decidable u.Apart :=
  inferInstanceAs (Decidable (u.id ≠ 0 → u.first ≠ u.listener ∧ u.listener ≠ some 0))

/-- An accept is pending on the listener, if that is still open. -/
def Reposting.Right (r : Reposting) : Prop :=
  ∀ fd, r.slot = some (r.birth, fd) → r.posted = some (r.birth, fd)

structure IocpAccepts (n : Nat) extends Iocp n where
  updates : List ContextUpdate
  repostings : List Reposting

abbrev IocpAcceptsM (n : Nat) := EStateM Fault (IocpAccepts n)

namespace IocpAccepts

open Effect

variable {n : Nat}

def start (p : Iocp n) : IocpAccepts n := { p with updates := [], repostings := [] }

def iocp : Lens (IocpAccepts n) (Iocp n) where
  get p := p.toIocp
  set q p := { p with toIocp := q }
  get_set _ _ := rfl
  set_get _ := rfl
  set_set _ _ _ := rfl

theorem slots_pos (e : Completion n) : 0 < n := e.id.pos

/-- What `do_accept` hands over: it looks at slot 0. -/
def contextUpdate (p : Iocp n) (e : Completion n) (client : Nat) : ContextUpdate :=
  let first : Fin n := ⟨0, slots_pos e⟩
  let io_ctx := (p.contexts first).io_ctx_r
  { id := e.id
    listener := (p.sessions e.id).map Session.fd
    client
    first := (p.sessions first).map Session.fd
    handed := (p.sessions first).map fun _ => (io_ctx.accept, io_ctx.self) }

/-- `posted` is the accept that is pending. -/
def reposting (p : Iocp n) (e : Completion n) (posted : Option (Nat × Nat)) : Reposting where
  birth := e.birth
  port := e.creation.port
  posting := e.posting
  slot := p.holder e.id
  posted := posted

def update (e : Completion n) (client : Nat) : IocpAcceptsM n Unit :=
  modify fun p => { p with updates := p.updates ++ [contextUpdate p.toIocp e client] }

def settle (e : Completion n) (posted : Option (Nat × Nat)) : IocpAcceptsM n Unit :=
  modify fun p => { p with repostings := p.repostings ++ [reposting p.toIocp e posted] }

def accepted (e : Completion n) (kind : CtxKind) (client : Nat) : IocpAcceptsM n Unit := do
  update e client
  iocp.zoom (Iocp.do_accept e)
  match ← iocp.zoom (Iocp.initNewSession client .accept e.creation) with
  | none => settle e none
  | some _ => do
    iocp.zoom (Iocp.run e.onAccept)
    iocp.zoom (Iocp.acceptLoop e kind e.accepts)
    let io_ctx ← iocp.zoom (Iocp.context e.id e.birth kind)
    let posted ← iocp.zoom (Iocp.post_accept_ex e.id io_ctx.self e.posting)
    settle e posted

def dispatch (e : Completion n) (kind : CtxKind) : IocpAcceptsM n Unit := do
  iocp.zoom (Iocp.act e.birth e.id)
  let io_ctx ← iocp.zoom (Iocp.context e.id e.birth kind)
  match io_ctx.action with
  | .accept => accepted e kind io_ctx.accept
  | .read => iocp.zoom (Iocp.do_recv e.id e.mem e.reads e.drained (Iocp.run e.onRecv))
  | .write => iocp.zoom (Iocp.do_send e.id (Iocp.handlers e.sends))
  | .null | .connect => return

def handle (e : Completion n) : IocpAcceptsM n Unit := do
  let p ← get
  match p.sessions e.id, e.ctx with
  | none, _ => return
  | some _, none => return
  | some _, some kind => dispatch e kind

def handleAll : List (Completion n) → IocpAcceptsM n Unit
  | [] => return
  | e :: es => do
    handle e
    iocp.zoom (modify fun p => { p with waiting := p.waiting.tail })
    handleAll es

def loopOnce (es : List (Completion n)) : IocpAcceptsM n Unit := do
  iocp.zoom (modify fun p =>
    { p with toTable := p.toTable.begin (es.map Completion.waiting), accepts := [] })
  handleAll es

def turn : Iocp.Turn n → IocpAcceptsM n Unit
  | .user script => iocp.zoom (Iocp.run script)
  | .batch es => loopOnce es

/-- A process, from its start. -/
def turns : List (Iocp.Turn n) → IocpAcceptsM n Unit
  | [] => return
  | t :: ts => do
    turn t
    turns ts

def after (ts : List (Iocp.Turn n)) : IocpAccepts n := final ((turns ts).run (start .init))

/-! ## Without the record -/

theorem accepted_erases (e : Completion n) (kind : CtxKind) (client : Nat) :
    Erases iocp (accepted e kind client) (Iocp.accepted e kind client) := by
  have hupdate : Erases iocp (update e client) (pure ()) := fun _ => rfl
  have hsettle : ∀ posted, Erases iocp (settle e posted) (pure ()) := fun _ _ => rfl
  apply Erases.silent_bind hupdate
  apply Erases.bind (.zoom _)
  intro _
  apply Erases.bind (.zoom _)
  intro created
  cases created with
  | none => exact hsettle none
  | some id =>
    apply Erases.bind (.zoom _)
    intro _
    apply Erases.bind (.zoom _)
    intro _
    apply Erases.bind (.zoom _)
    intro io_ctx
    exact .bind (.zoom _) hsettle

theorem dispatch_erases (e : Completion n) (kind : CtxKind) :
    Erases iocp (dispatch e kind) (Iocp.dispatch e kind) := by
  apply Erases.bind (.zoom _)
  intro _
  apply Erases.bind (.zoom _)
  intro io_ctx
  cases io_ctx.action with
  | accept => exact accepted_erases e kind io_ctx.accept
  | read | write => exact .zoom _
  | null | connect => exact .pure ()

theorem handle_erases (e : Completion n) : Erases iocp (handle e) (Iocp.handle e) := by
  apply Erases.get_bind
  intro p
  change Erases iocp
    (match p.sessions e.id, e.ctx with
      | none, _ => _
      | some _, none => _
      | some _, some kind => _)
    (match p.sessions e.id, e.ctx with
      | none, _ => _
      | some _, none => _
      | some _, some kind => _)
  cases p.sessions e.id with
  | none => exact .pure ()
  | some conn =>
    cases e.ctx with
    | none => exact .pure ()
    | some kind => exact dispatch_erases e kind

theorem handleAll_erases (es : List (Completion n)) :
    Erases iocp (handleAll es) (Iocp.handleAll es) := by
  induction es with
  | nil => exact .pure ()
  | cons e es ih =>
    apply Erases.bind (handle_erases e)
    intro _
    exact .bind (.zoom _) fun _ => ih

theorem turn_erases (t : Iocp.Turn n) : Erases iocp (turn t) (Iocp.turn t) := by
  cases t with
  | user script => exact .zoom _
  | batch es => exact .bind (.zoom _) fun _ => handleAll_erases es

/-- The turns are those of the `Poller`. -/
theorem turns_erases (ts : List (Iocp.Turn n)) : Erases iocp (turns ts) (ts.forM Iocp.turn) := by
  induction ts with
  | nil => exact .pure ()
  | cons t ts ih => exact .bind (turn_erases t) fun _ => ih

/-! ## What is handled right -/

/-- `setsockopt` is right for the listener in slot 0, and an accept is posted again for a socket that
has got a session, where the system takes it. -/
structure Noted (p : IocpAccepts n) : Prop where
  updates : ∀ u ∈ p.updates, u.Apart → (u.Right ↔ u.id = 0)
  repostings : ∀ r ∈ p.repostings, r.Right ↔ r.port = true ∧ r.posting.succeeds = true

/-- `P` holds of the `Poller`, and the record is as it should be. -/
def Sound (P : Iocp n → Prop) (p : IocpAccepts n) : Prop := P p.toIocp ∧ p.Noted

theorem zoom_sound {α : Type} {m : IocpM n α} {P : Iocp n → Prop} {Q : α → Iocp n → Prop}
    (h : Triple Iocp.Own P m Q) : Triple (Sound Iocp.Own) (Sound P) (iocp.zoom m)
      fun a => Sound (Q a) :=
  h.frame (l := iocp) (F := Noted) fun _ _ hn => ⟨hn.updates, hn.repostings⟩

section

variable {e : Completion n} {l client : Nat}

/-- An accept has completed on `l`. -/
structure Completed (e : Completion n) (l client : Nat) (p : Iocp n) : Prop where
  serving : p.Serving e.id e.birth
  holder : p.holder e.id = some (e.birth, l)
  self : (p.contexts e.id).io_ctx_r.self = l
  accept : (p.contexts e.id).io_ctx_r.accept = client

theorem contextUpdate_right {p : Iocp n} (hp : Completed e l client p)
    (hapart : (contextUpdate p e client).Apart) :
    (contextUpdate p e client).Right ↔ (e.id : Nat) = 0 := by
  obtain ⟨s, hs, hholder⟩ := Option.map_eq_some_iff.mp hp.holder
  obtain ⟨-, hl⟩ := Prod.mk.inj hholder
  have hlistener : (contextUpdate p e client).listener = some l := by
    simp [contextUpdate, hs, hl]
  constructor
  · rintro ⟨l', hl', hhanded⟩
    obtain rfl : l' = l := Option.some.inj (hl'.symm.trans hlistener)
    by_contra hid
    obtain ⟨hfirst, hzero⟩ := hapart hid
    rw [hlistener] at hfirst hzero
    obtain ⟨s₀, hs₀, hpair⟩ := Option.map_eq_some_iff.mp hhanded
    obtain ⟨-, hself⟩ := Prod.mk.inj hpair
    -- A session in slot 0 has no listening socket, or its own.
    rcases (hp.serving.own _ s₀ hs₀).2.self with h0 | h0
    · exact hzero (congrArg some (hself.symm.trans h0))
    · exact hfirst (by simp [contextUpdate, hs₀, ← h0, hself])
  · intro hid
    refine ⟨l, hlistener, ?_⟩
    have hfirst : (⟨0, slots_pos e⟩ : Fin n) = e.id := Fin.ext hid.symm
    simp [contextUpdate, hfirst, hs, hp.self, hp.accept]

theorem update_sound : Triple (Sound Iocp.Own) (Sound (Completed e l client)) (update e client)
    fun _ => Sound fun p => p.Serving e.id e.birth ∧ p.holder e.id = some (e.birth, l) := by
  apply Triple.modify
  rintro p ⟨hp, hnoted⟩
  refine ⟨⟨hp.serving, hp.holder⟩, ?_, hnoted.repostings⟩
  intro u hu hapart
  rcases List.mem_append.mp hu with hu | hu
  · exact hnoted.updates u hu hapart
  · cases List.mem_singleton.mp hu
    exact contextUpdate_right hp hapart

theorem settle_sound (l : Nat) (posted : Option (Nat × Nat))
    (hposted : posted = if e.creation.port && e.posting.succeeds then some (e.birth, l) else none) :
    Triple (Sound Iocp.Own) (Sound fun p => p.Own ∧ p.holder e.id = some (e.birth, l))
      (settle e posted) fun _ => Sound Iocp.Own := by
  apply Triple.modify
  rintro p ⟨⟨hp, hholder⟩, hnoted⟩
  refine ⟨hp, hnoted.updates, ?_⟩
  intro r hr
  rcases List.mem_append.mp hr with hr | hr
  · exact hnoted.repostings r hr
  · cases List.mem_singleton.mp hr
    have hright : (reposting p.toIocp e posted).Right ↔ posted = some (e.birth, l) := by
      simp [Reposting.Right, reposting, hholder]
    rw [hright, hposted]
    simp [reposting]

/-- From where a session has been made for the socket accepted. -/
theorem made_sound (hport : e.creation.port = true) :
    Triple (Sound Iocp.Own) (Sound (Iocp.Serving e.id e.birth)) (do
      iocp.zoom (Iocp.run e.onAccept)
      iocp.zoom (Iocp.acceptLoop e .r e.accepts)
      let io_ctx ← iocp.zoom (Iocp.context e.id e.birth .r)
      let posted ← iocp.zoom (Iocp.post_accept_ex e.id io_ctx.self e.posting)
      settle e posted) fun _ => Sound Iocp.Own := by
  have hrun : ∀ p : Iocp n, Iocp.Changes none p (Iocp.run e.onAccept) :=
    Iocp.run_changes e.onAccept
  apply (zoom_sound (Iocp.Changes.serving hrun)).bind
  intro _
  apply (zoom_sound (Iocp.acceptLoop_serving e .r e.accepts)).bind
  intro _
  apply (zoom_sound Iocp.context_serving).bind
  intro io_ctx
  apply (zoom_sound (Iocp.post_accept_ex_own io_ctx.self e.posting)).bind
  intro posted
  apply Triple.pointwise
  rintro p ⟨⟨hp, hholder, hposted⟩, hnoted⟩
  have hsettle := settle_sound (e := e) io_ctx.self posted (by rw [hposted, hport, Bool.true_and])
  exact hsettle.of_eq ⟨⟨hp, hholder⟩, hnoted⟩

theorem accepted_sound (l client : Nat) :
    Triple (Sound Iocp.Own) (Sound (Completed e l client)) (accepted e .r client)
      fun _ => Sound Iocp.Own := by
  apply update_sound.bind
  intro _
  apply (zoom_sound (Iocp.do_accept_serving e l)).bind
  intro _
  apply (zoom_sound (Iocp.initNewSession_serving l client .accept e.creation)).bind
  intro created
  apply Triple.pointwise
  rintro p ⟨⟨hp, hholder, hport⟩, hnoted⟩
  cases created with
  | none =>
    have hsettle := settle_sound (e := e) l none (by simp [← hport])
    exact hsettle.of_eq ⟨⟨hp.own, hholder⟩, hnoted⟩
  | some new => exact (made_sound hport.symm).of_eq ⟨hp, hnoted⟩

theorem dispatch_sound (kind : CtxKind) :
    Triple (Sound Iocp.Own) (Sound Iocp.Own) (dispatch e kind) fun _ => Sound Iocp.Own := by
  have hact : ∀ p : Iocp n, Iocp.Changes (some e.waiting) p (Iocp.act e.birth e.id) :=
    fun _ => Iocp.act_changes e.waiting
  have honRecv : ∀ p : Iocp n, Iocp.Changes none p (Iocp.run e.onRecv) := Iocp.run_changes e.onRecv
  have hsend : ∀ p : Iocp n, Iocp.Changes none p (Iocp.do_send e.id (Iocp.handlers e.sends)) :=
    fun _ => Iocp.do_send_changes e.id (Iocp.handlers_changes e.sends)
  apply (zoom_sound (Iocp.Changes.own hact)).bind
  intro _
  apply (zoom_sound (Iocp.context_open (fun _ hp => hp) kind)).bind
  intro io_ctx
  apply Triple.pointwise
  rintro p ⟨⟨hp, ⟨s, hs, hb⟩, rfl⟩, hnoted⟩
  have hown := (hp e.id s hs).2
  cases haction : ((p.contexts e.id).ctx kind).action with
  | accept =>
    cases kind with
    | s => exact absurd haction hown.write
    | r =>
      have hself := hown.accept haction
      have hcompleted : Completed e s.fd (p.contexts e.id).io_ctx_r.accept p.toIocp :=
        ⟨hb ▸ hp.serving hs hself, by simp [Iocp.holder, hs, hb], hself, rfl⟩
      exact (accepted_sound s.fd _).of_eq ⟨hcompleted, hnoted⟩
  | read =>
    apply (zoom_sound _).of_eq ⟨hp, hnoted⟩
    exact Iocp.do_recv_own e.mem e.reads e.drained (Iocp.Changes.own honRecv)
  | write => exact (zoom_sound (Iocp.Changes.own hsend)).of_eq ⟨hp, hnoted⟩
  | null | connect => exact .pure fun _ h => h ▸ ⟨hp, hnoted⟩

theorem handle_sound (e : Completion n) :
    Triple (Sound Iocp.Own) (Sound Iocp.Own) (handle e) fun _ => Sound Iocp.Own := by
  apply Triple.get_bind
  intro p hp
  cases p.sessions e.id with
  | none => exact .pure fun _ h => h ▸ hp
  | some conn =>
    cases e.ctx with
    | none => exact .pure fun _ h => h ▸ hp
    | some kind => exact (dispatch_sound kind).of_eq hp

end

theorem handleAll_sound (es : List (Completion n)) :
    Triple (Sound Iocp.Own) (Sound Iocp.Own) (handleAll es) fun _ => Sound Iocp.Own := by
  induction es with
  | nil => exact .pure fun _ hp => hp
  | cons e es ih =>
    apply (handle_sound e).bind
    intro _
    apply Triple.bind (R := fun _ => Sound Iocp.Own) _ fun _ => ih
    exact zoom_sound (.modify fun _ hp => hp)

theorem turns_sound (ts : List (Iocp.Turn n)) :
    Triple (Sound Iocp.Own) (Sound Iocp.Own) (turns ts) fun _ => Sound Iocp.Own := by
  induction ts with
  | nil => exact .pure fun _ hp => hp
  | cons t ts ih =>
    apply Triple.bind _ fun _ => ih
    cases t with
    | user script =>
      have hrun : ∀ p : Iocp n, Iocp.Changes none p (Iocp.run script) := Iocp.run_changes script
      exact zoom_sound (Iocp.Changes.own hrun)
    | batch es =>
      apply Triple.bind (R := fun _ => Sound Iocp.Own) _ fun _ => handleAll_sound es
      exact zoom_sound (.modify fun _ hp => hp)

/-- **Exactly the accepts of the listener in slot 0 have their own socket and listener handed to
`setsockopt`. An accept is posted again on the listener, if that is still open, exactly where a
session could be made for the socket accepted, and `WSASocket` and `AcceptEx` succeed.** -/
theorem accepts_iff (ts : List (Iocp.Turn n)) (hsockets : ∀ u ∈ (after ts).updates, u.Apart) :
    (∀ u ∈ (after ts).updates, u.Right ↔ u.id = 0) ∧
      ∀ r ∈ (after ts).repostings, r.Right ↔ r.port = true ∧ r.posting.succeeds = true := by
  have hstart : Sound Iocp.Own (start (.init : Iocp n)) := by
    refine ⟨?_, ?_, ?_⟩
    · intro id s hs
      cases hs
    · intro u hu
      cases hu
    · intro r hr
      cases hr
  obtain ⟨-, hupdates, hrepostings⟩ := (turns_sound ts).final (fun _ _ h => h) hstart
  exact ⟨fun u hu => hupdates u hu (hsockets u hu), hrepostings⟩

/-! ## Listeners behind slot 0 -/

def mem : Alloc := ⟨true, fun _ => 0⟩

/-- A connection comes in on the listener `birth` at `id`. -/
def incoming (id : Fin 4) (birth : Nat) (posting : Posting) : Completion 4 where
  id := id
  birth := birth
  ctx := some .r
  mem := mem
  reads := []
  drained := .eagain
  onRecv := .done
  sends := .none
  creation := ⟨mem, true⟩
  onAccept := .done
  accepts := []
  posting := posting

def listens (listener socket : Nat) : Iocp.Turn 4 :=
  .user (.call (.listenTo listener ⟨mem, true⟩ ⟨some socket, true⟩) .none .done)

/-- Two listeners, each with a connection; `AcceptEx` fails for the second one. -/
def twoListeners : List (Iocp.Turn 4) :=
  [listens 100 101, listens 200 201,
    .batch [incoming 0 0 ⟨some 102, true⟩, incoming 1 1 ⟨some 202, false⟩]]

theorem accepts_two_listeners :
    (after twoListeners).updates.map ContextUpdate.handed = [some (101, 100), some (102, 100)] ∧
      (after twoListeners).repostings.map Reposting.posted = [some (0, 100), none] ∧
      (∀ u ∈ (after twoListeners).updates, u.Right ↔ u.id = 0) ∧
      ∀ r ∈ (after twoListeners).repostings, r.Right ↔ r.port = true ∧ r.posting.succeeds = true :=
  ⟨by decide +kernel, by decide +kernel, accepts_iff twoListeners (by decide +kernel)⟩

/-- A connection is made first, then a listener. -/
def connectFirst : List (Iocp.Turn 4) :=
  [.user (.call (.initNewSession 5 .connect ⟨mem, true⟩) .none .done), listens 100 101,
    .batch [incoming 1 1 ⟨some 102, true⟩]]

/-- `setsockopt` gets the socket of the connection, and no listener. -/
theorem connection_handed : (∀ u ∈ (after connectFirst).updates, u.Apart) ∧
    ¬ ((∀ u ∈ (after connectFirst).updates, u.Right) ∧
      ∀ r ∈ (after connectFirst).repostings, r.Right) := by
  refine ⟨by decide +kernel, ?_⟩
  rintro ⟨hupdates, -⟩
  have hmem : ⟨1, some 100, 101, some 5, some (5, 0)⟩ ∈ (after connectFirst).updates := by
    decide +kernel
  simpa [ContextUpdate.Right] using hupdates _ hmem

end IocpAccepts

end ChainSocket
