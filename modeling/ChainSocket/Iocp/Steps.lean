import ChainSocket.Iocp.Contexts

/-!
# The steps of IOCPPoller.cpp

Every run of the callbacks, and every `loopOnce`, is a sequence of steps of the session table, of
the contexts beside it, and of the counters of `do_recv`.
-/

namespace ChainSocket.Iocp

open Effect Relation

variable {n : Nat}

/-- The steps of calls from outside the loop, and those made while the completion `cur` is
handled. -/
inductive Step (cur : Option (Waiting n)) : Iocp n → Iocp n → Prop
  | table {p : Iocp n} {t : Table n} (move : Table.Move true cur none p.toTable t) :
      Step cur p { p with toTable := t }
  | create {p : Iocp n} (id : Fin n) (fd : Nat) (type : SessionType) (mem : Alloc)
      (vacant : p.sessions id = none) :
      Step cur p { p with toTable := p.toTable.create id fd type mem }
  | beside (p : Iocp n) (contexts : Fin n → IocpData) (curId : Option (Fin n)) :
      Step cur p { p with contexts, curId }

/-- The steps of the loop for the completion `e`. The session in slot 0 is acted on for a
completion that has been taken for an accepted connection. -/
inductive During (e : Waiting n) : Iocp n → Iocp n → Prop
  | step {p p' : Iocp n} (h : Step (some e) p p') : During e p p'
  | count (p : Iocp n) (received reported : Nat) : During e p { p with received, reported }
  | take (p : Iocp n) : During e p { p with accepts := p.accepts ++ [e.id] }
  | first {p : Iocp n} {s : Session} (taken : e.id ∈ p.accepts)
      (filled : p.sessions ⟨0, e.id.pos⟩ = some s) :
      During e p { p with toTable := p.toTable.record e.birth s.birth }

inductive LoopStep : Iocp n → Iocp n → Prop
  | during {e : Waiting n} {p p' : Iocp n} (waiting : e ∈ p.waiting) (h : During e p p') :
      LoopStep p p'
  | pop (p : Iocp n) : LoopStep p { p with waiting := p.waiting.tail }

def Goes {α : Type} (cur : Option (Waiting n)) (p : Iocp n) (m : IocpM n α) : Prop :=
  Moves (Step cur) (Step cur) p m

section

variable {cur : Option (Waiting n)} {p : Iocp n} {α β : Type}

theorem ContextStep.steps {p' : Iocp n} (h : ContextStep cur p p') :
    ReflTransGen (Step cur) p p' := by
  cases h with
  | table move => exact .single (.table move)
  | create fd type mem port vacant =>
    exact .tail (.single (.create _ fd type mem vacant)) (.beside _ _ _)
  | full => exact .single (.beside p p.contexts none)
  | read | write | post => exact .single (.beside p _ p.curId)

theorem Changes.goes {m : IocpM n α} (h : Changes cur p m) : Goes cur p m := by
  constructor
  · intro a p' ha
    exact (h.ok a p' ha).lift' id fun _ _ => ContextStep.steps
  · intro e p' he
    exact (h.error e p' he).lift' id fun _ _ => ContextStep.steps

/-! ## Calls -/

theorem slot_goes (id : Fin n) : Goes cur p (slot id) := (slot_changes id).goes

theorem change_goes {id : Fin n} {f : Session → Except Fault Session}
    (hf : ∀ s s', p.sessions id = some s → f s = .ok s' → s.Move true s') :
    Goes cur p (change id f) := (change_changes hf).goes

theorem act_goes (e : Waiting n) : Goes (some e) p (act e.birth e.id) := (act_changes e).goes

theorem initNewSession_goes (fd : Nat) (type : SessionType) (creation : Creation) :
    Goes cur p (initNewSession fd type creation) := (initNewSession_changes fd type creation).goes

theorem closeSession_goes (id : Fin n) (type : CloseType) : Goes cur p (closeSession id type) :=
  (closeSession_changes id type).goes

theorem post_accept_ex_goes (id : Fin n) (listenFd : Nat) (posting : Posting) :
    Goes cur p (post_accept_ex id listenFd posting) := by
  apply Moves.of_run (run_bind_ok (run_get p))
  split
  · exact Moves.pure _
  · apply Moves.bind (fun _ _ h => h) (Moves.modify (.single (.beside p _ p.curId)))
    intro _ p₁ _
    split
    · exact Moves.pure _
    · split_ifs
      · exact Moves.pure _
      · exact Moves.pure _

theorem postRecv_goes (id : Fin n) (birth : Nat) : Goes cur p (postRecv id birth) :=
  (postRecv_changes id birth).goes

theorem run_goes (script : IocpScript n) (p : Iocp n) : Goes cur p (run script) :=
  (run_changes script p).goes

/-! ## One completion -/

def Handles {α : Type} (e : Waiting n) (p : Iocp n) (m : IocpM n α) : Prop :=
  Moves (During e) (During e) p m

variable {e : Waiting n}

theorem Handles.bind {m : IocpM n α} {k : α → IocpM n β} (hm : Handles e p m)
    (hk : ∀ a p', m.run p = .ok a p' → Handles e p' (k a)) : Handles e p (m >>= k) :=
  Moves.bind (fun _ _ => id) hm hk

theorem Goes.handles {m : IocpM n α} (h : Goes (some e) p m) : Handles e p m :=
  Moves.mono (fun _ _ => .step) (fun _ _ => .step) h

theorem drain_handles (id : Fin n) (reads : List Chunk) (p : Iocp n) :
    Handles e p (drain id reads) := by
  induction reads generalizing p with
  | nil => exact Moves.pure _
  | cons c rest ih =>
    have hreceive : ∀ p, Goes (some e) p (change id (·.receive c.mem c.bytes)) := fun p =>
      change_goes fun _ _ _ hs => Session.receive_move hs
    apply (hreceive p).handles.bind
    intro _ p₁ _
    apply Handles.bind (Moves.modify (.single (.count p₁ _ p₁.reported)))
    intro _ p₂ _
    exact (ih p₂).bind fun _ _ _ => Moves.pure _

theorem report_handles (readNum : Nat) {onRecv : IocpM n Unit}
    (honRecv : ∀ p, Goes (some e) p onRecv) : Handles e p (report readNum onRecv) := by
  apply Handles.bind (Moves.modify (.single (.count p p.received _)))
  intro _ p₁ _
  exact (honRecv p₁).handles

theorem do_recv_handles (id : Fin n) (mem : Alloc) (reads : List Chunk) (drained : DrainEnd)
    {onRecv : IocpM n Unit} (honRecv : ∀ p, Goes (some e) p onRecv) :
    Handles e p (do_recv id mem reads drained onRecv) := by
  have hgrow : ∀ p, Goes (some e) p (change id (·.grow mem)) := fun p =>
    change_goes fun _ _ _ hs => Session.grow_move hs
  apply (slot_goes id).handles.bind
  intro conn p₁ _
  apply (hgrow p₁).handles.bind
  intro _ p₂ _
  apply (drain_handles id reads p₂).bind
  intro readNum p₃ _
  cases drained with
  | zero => exact (closeSession_goes id _).handles
  | error => exact (closeSession_goes id _).handles
  | eagain =>
    dsimp only
    split_ifs
    · apply (report_handles readNum honRecv).bind
      intro _ p₄ _
      apply Handles.bind Moves.get
      intro q p₅ _
      split_ifs
      · exact Moves.pure _
      · exact (postRecv_goes id _).handles
    · exact (postRecv_goes id _).handles

theorem context_handles (id : Fin n) (birth : Nat) (kind : CtxKind) :
    Handles e p (context id birth kind) := by
  have hsame : final ((context id birth kind).run p) = p := context_final id birth kind
  constructor
  · intro a p' hp'
    rw [hp'] at hsame
    cases hsame
    exact .refl
  · intro f p' hp'
    rw [hp'] at hsame
    cases hsame
    exact .refl

variable {c : Completion n}

theorem do_accept_handles : Handles c.waiting p (do_accept c) := by
  apply Moves.modify
  split
  · exact .single (.take p)
  · rename_i s hs
    refine .tail (.single (.take p)) ?_
    exact .first (by simp [Completion.waiting]) hs

theorem acceptLoop_handles (kind : CtxKind) (accepts : List (IocpIncoming n)) (p : Iocp n) :
    Handles c.waiting p (acceptLoop c kind accepts) := by
  induction accepts generalizing p with
  | nil => exact (context_handles c.id c.birth kind).bind fun _ _ _ => Moves.pure _
  | cons i rest ih =>
    apply (context_handles c.id c.birth kind).bind
    intro _ p₁ _
    apply (initNewSession_goes i.sock .accept i.creation).handles.bind
    intro found p₂ _
    cases found with
    | none => exact ih p₂
    | some id =>
      exact (run_goes i.onAccept p₂).handles.bind fun _ p₃ _ => ih p₃

theorem accepted_handles (kind : CtxKind) (client : Nat) :
    Handles c.waiting p (accepted c kind client) := by
  apply do_accept_handles.bind
  intro _ p₁ _
  apply (initNewSession_goes client .accept c.creation).handles.bind
  intro found p₂ _
  cases found with
  | none => exact Moves.pure _
  | some id =>
    apply (run_goes c.onAccept p₂).handles.bind
    intro _ p₃ _
    apply (acceptLoop_handles kind c.accepts p₃).bind
    intro _ p₄ _
    apply (context_handles c.id c.birth kind).bind
    intro io_ctx p₅ _
    apply (post_accept_ex_goes c.id io_ctx.self c.posting).handles.bind
    intro _ p₆ _
    exact Moves.pure _

theorem dispatch_handles (kind : CtxKind) : Handles c.waiting p (dispatch c kind) := by
  apply (act_goes c.waiting).handles.bind
  intro _ p₁ _
  apply (context_handles c.id c.birth kind).bind
  intro io_ctx p₂ _
  cases io_ctx.action with
  | null | connect => exact Moves.pure _
  | accept => exact accepted_handles kind io_ctx.accept
  | read => exact do_recv_handles c.id c.mem c.reads c.drained (run_goes c.onRecv)
  | write => exact (do_send_changes c.id (handlers_changes c.sends)).goes.handles

theorem handle_handles : Handles c.waiting p (handle c) := by
  unfold handle
  apply Handles.bind Moves.get
  intro q p₁ _
  cases q.sessions c.id with
  | none => exact Moves.pure _
  | some conn =>
    cases c.ctx with
    | none => exact Moves.pure _
    | some kind => exact dispatch_handles kind

/-! ## The loop -/

def Loops {α : Type} (p : Iocp n) (m : IocpM n α) : Prop := Moves LoopStep LoopStep p m

theorem step_waiting {p p' : Iocp n} (h : Step cur p p') : p'.waiting = p.waiting := by
  cases h with
  | table move => exact move.frame.1
  | create | beside => rfl

theorem during_waiting {p p' : Iocp n} (h : During e p p') : p'.waiting = p.waiting := by
  cases h with
  | step h => exact step_waiting h
  | count | take | first => rfl

theorem handle_loops (hc : c.waiting ∈ p.waiting) : Loops p (handle c) := by
  have hstep : ∀ q q' : Iocp n, During c.waiting q q' → q.waiting = p.waiting →
      LoopStep q q' ∧ q'.waiting = p.waiting := by
    intro q q' h hq
    exact ⟨.during (by rw [hq]; exact hc) h, (during_waiting h).trans hq⟩
  exact Moves.guard hstep hstep handle_handles rfl

theorem handle_waiting {p' : Iocp n} (h : (handle c).run p = .ok () p') :
    p'.waiting = p.waiting :=
  Moves.keeps (G := fun q => q.waiting = p.waiting)
    (fun _ _ hstep hq => (during_waiting hstep).trans hq) handle_handles h rfl

theorem handleAll_loops (es : List (Completion n)) (p : Iocp n)
    (hp : p.waiting = es.map Completion.waiting) : Loops p (handleAll es) := by
  induction es generalizing p with
  | nil => exact Moves.pure _
  | cons c es ih =>
    unfold handleAll
    apply Moves.bind (fun _ _ => id) (handle_loops (by simp [hp]))
    intro _ p₁ h₁
    apply Moves.bind (fun _ _ => id) (Moves.modify (.single (.pop p₁)))
    intro _ p₂ h₂
    cases h₂
    exact ih _ (by simp [handle_waiting h₁, hp])

end

end ChainSocket.Iocp
