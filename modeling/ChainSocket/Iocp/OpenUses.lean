import ChainSocket.Iocp.Uses

/-!
# Where IOCPPoller.cpp uses closed sessions

`open_iff`: the runs in which every session is used while it is open.
-/

namespace ChainSocket

/-- A listener is to be as before; any other session can be gone, but not replaced. -/
def Resumption.Spared (r : Resumption) : Prop :=
  match r.interlude with
  | .onAccept => r.slot = some r.birth
  | .completion | .onRecv | .onSend => r.slot = none ∨ r.slot = some r.birth

namespace IocpUses

open Effect

variable {n : Nat} {id : Fin n} {birth : Nat}

/-- With `c` for what is to be used next, the sessions were open exactly where they were spared. -/
def Balanced (c : Prop) (p : IocpUses n) : Prop :=
  ((∀ u ∈ p.uses, u.Open) ∧ c) ↔ ∀ r ∈ p.resumptions, r.Spared

def Fair (p : IocpUses n) : Prop := Balanced True p

/-- The session `birth` is used next. -/
def Due (id : Fin n) (birth : Nat) (p : IocpUses n) : Prop :=
  Balanced (p.inSlot id = some birth) p

/-- The session `birth` is used next, if there is one in its slot. -/
def DueIfFilled (id : Fin n) (birth : Nat) (p : IocpUses n) : Prop :=
  Balanced (p.inSlot id = none ∨ p.inSlot id = some birth) p

/-- The session `birth` is open. -/
structure At (id : Fin n) (birth : Nat) (p : IocpUses n) : Prop where
  fair : Fair p
  slot : p.inSlot id = some birth

theorem Balanced.congr {c d : Prop} {p : IocpUses n} (h : Balanced c p) (hcd : c ↔ d) :
    Balanced d p := by
  unfold Balanced at h ⊢
  rw [← hcd]
  exact h

theorem At.due {p : IocpUses n} (h : At id birth p) : Due id birth p :=
  h.fair.congr (iff_of_true trivial h.slot)

theorem At.dueIfFilled {p : IocpUses n} (h : At id birth p) : DueIfFilled id birth p :=
  h.fair.congr (iff_of_true trivial (.inr h.slot))

theorem DueIfFilled.fair {p : IocpUses n} (h : DueIfFilled id birth p)
    (hslot : p.inSlot id = none) : Fair p :=
  h.congr (iff_of_true (.inl hslot) trivial)

theorem DueIfFilled.due {p : IocpUses n} (h : DueIfFilled id birth p)
    (hslot : p.inSlot id ≠ none) : Due id birth p :=
  h.congr (or_iff_right hslot)

/-- A use settles what was due. -/
theorem Due.used {p : IocpUses n} (h : Due id birth p) :
    Fair { p with uses := p.uses ++ [⟨birth, p.inSlot id⟩] } := by
  unfold Due Balanced at h
  simp only [Fair, Balanced, List.forall_mem_append, List.forall_mem_singleton, and_true]
  exact h

theorem Fair.resumed {p : IocpUses n} (h : Fair p) (interlude : Interlude) :
    Balanced (Resumption.Spared ⟨interlude, birth, p.inSlot id⟩)
      { p with resumptions := p.resumptions ++ [⟨interlude, birth, p.inSlot id⟩] } := by
  unfold Fair Balanced at h
  simp only [Balanced, List.forall_mem_append, List.forall_mem_singleton, ← h, and_true]

theorem inSlot_none {p : IocpUses n} (h : p.sessions id = none) : p.inSlot id = none :=
  congrArg (Option.map Session.birth) h

theorem inSlot_some {p : IocpUses n} {conn : Session} (h : p.sessions id = some conn) :
    p.inSlot id = some conn.birth :=
  congrArg (Option.map Session.birth) h

theorem DueIfFilled.filled {p : IocpUses n} {conn : Session} (h : DueIfFilled id birth p)
    (hs : p.sessions id = some conn) : Due id birth p ∧ p.inSlot id = some conn.birth := by
  have hslot := inSlot_some hs
  exact ⟨h.due (by simp [hslot]), hslot⟩

/-! ## The parts -/

/-- What the `Poller` does leaves the record alone. -/
theorem zoom_fair {α : Type} (m : IocpM n α) :
    Triple Fair Fair (iocp.zoom m) fun _ => Fair :=
  .zoom (fun _ _ _ h _ => h) fun _ _ _ h _ => h

theorem use_at (b : Nat) :
    Triple Fair (fun p : IocpUses n => Due id birth p ∧ p.inSlot id = some b) (use id birth)
      fun _ p => Fair p ∧ p.inSlot id = some b :=
  .modify fun _ h => ⟨h.1.used, h.2⟩

theorem use_fair : Triple Fair (Due id birth) (use id birth) fun _ => Fair :=
  .modify fun _ h => h.used

theorem resume_due (interlude : Interlude) :
    Triple Fair Fair (resume interlude id birth : IocpUsesM n Unit)
      fun _ p => Balanced (Resumption.Spared ⟨interlude, birth, p.inSlot id⟩) p :=
  .modify fun _ h => h.resumed interlude

theorem useSlot_fair (id : Fin n) : Triple Fair Fair (useSlot id) fun _ => Fair := by
  apply Triple.modify
  intro p h
  unfold Fair Balanced at h ⊢
  have hslot : ∀ u ∈ (p.inSlot id).toList.map fun birth => ⟨birth, some birth⟩,
      UsedSession.Open u := by
    simp [UsedSession.Open]
  simpa only [List.forall_mem_append, and_iff_left hslot] using h

theorem slot_at (id : Fin n) :
    Triple Fair Fair (iocp.zoom (Iocp.slot id)) fun conn => At id conn.birth := by
  apply Triple.zoom
  · intro p conn t h hrun
    obtain ⟨u, hu, rfl⟩ := Lens.zoom_inv hrun
    replace hu : (Table.slot id).run p.toTable = .ok conn u := hu
    cases hs : p.sessions id with
    | none =>
      rw [Table.slot_none hs] at hu
      cases hu
    | some s =>
      rw [Table.slot_run hs] at hu
      cases hu
      exact ⟨h, inSlot_some hs⟩
  · intro p e t h _
    exact h

/-! ## Sending -/

section

variable {replies : List (IocpSend × IocpUsesM n Unit)}
  (hreplies : ∀ h ∈ replies, Triple Fair Fair h.2 fun _ => Fair)

include hreplies

theorem sendLoop_fair (id : Fin n) (birth : Nat) :
    Triple Fair (DueIfFilled id birth) (sendLoop id birth replies) fun _ => Fair := by
  induction replies with
  | nil =>
    unfold sendLoop
    apply Triple.get_bind
    intro p hdue
    cases hs : p.sessions id with
    | none => exact .pure fun _ h => h ▸ hdue.fair (inSlot_none hs)
    | some conn =>
      apply ((use_at conn.birth).of_eq (hdue.filled hs)).bind
      intro _
      split
      · exact .pure fun _ h => h.1
      · exact (zoom_fair _).pre fun _ h => h.1
  | cons a rest ih =>
    obtain ⟨r, onSend⟩ := a
    have honSend := hreplies _ (List.mem_cons_self ..)
    have hrest := ih fun h hh => hreplies h (List.mem_cons_of_mem _ hh)
    unfold sendLoop
    apply Triple.get_bind
    intro p hdue
    cases hs : p.sessions id with
    | none => exact .pure fun _ h => h ▸ hdue.fair (inSlot_none hs)
    | some conn =>
      apply ((use_at conn.birth).of_eq (hdue.filled hs)).bind
      intro _
      split
      · exact .pure fun _ h => h.1
      case isFalse hgoes =>
        have hsame : conn.birth = birth := by tauto
        cases r with
        | eagain posted =>
          apply ((zoom_fair _).pre fun _ h => h.1).bind
          intro _
          split
          · exact .pure fun _ h => h
          · exact zoom_fair _
        | error => exact ((zoom_fair _).pre fun _ h => h.1).bind fun _ => zoom_fair _
        | accepted k =>
          dsimp only
          split
          · exact hrest.pre fun q h => At.dueIfFilled ⟨h.1, hsame ▸ h.2⟩
          · apply ((zoom_fair _).pre fun _ h => h.1).bind
            intro _
            apply honSend.bind
            intro _
            exact (resume_due .onSend).bind fun _ => hrest

theorem postSend_fair (id : Fin n) :
    Triple Fair Fair (postSend id replies) fun _ => Fair := by
  apply (slot_at id).bind
  intro conn
  apply ((use_at conn.birth).pre fun _ h => ⟨At.due h, h.slot⟩).bind
  intro _
  have hcontexts : Triple Fair (fun p => Fair p ∧ p.inSlot id = some conn.birth)
      (iocp.zoom (Iocp.setContexts id fun data =>
        { data with io_ctx_s := { data.io_ctx_s with action := .write } }))
      fun _ => At id conn.birth := by
    apply Triple.zoom
    · intro p a t h hrun
      cases hrun
      exact ⟨h.1, h.2⟩
    · intro p e t h hrun
      cases hrun
  apply hcontexts.bind
  intro _
  exact (sendLoop_fair hreplies id conn.birth).pre fun _ h => h.dueIfFilled

theorem sendTo_fair (id : Fin n) (mem : Alloc) (buf : List UInt8) :
    Triple Fair Fair (sendTo id mem buf replies) fun _ => Fair := by
  apply (zoom_fair _).bind
  intro conn
  split
  · exact zoom_fair _
  · exact (zoom_fair _).bind fun _ => postSend_fair hreplies id

theorem do_send_fair (id : Fin n) : Triple Fair Fair (do_send id replies) fun _ => Fair := by
  apply (slot_at id).bind
  intro conn
  apply (use_fair.pre fun _ => At.due).bind
  intro _
  split
  · exact postSend_fair hreplies id
  · exact .pure fun _ h => h

theorem call_fair (c : IocpCall n) : Triple Fair Fair (call c replies) fun _ => Fair := by
  cases c with
  | sendTo id mem buf =>
    apply Triple.get_bind
    intro p h
    split
    · exact .pure fun _ hp => hp ▸ h
    · have hhand : Triple Fair Fair (iocp.zoom (Iocp.hand id buf)) fun _ => Fair := zoom_fair _
      exact (hhand.of_eq h).bind fun _ => sendTo_fair hreplies id mem buf
  | postSend id =>
    apply Triple.get_bind
    intro p h
    split
    · exact .pure fun _ hp => hp ▸ h
    · exact (postSend_fair hreplies id).of_eq h
  | closeSession id type => exact zoom_fair (Iocp.call (.closeSession id type) [])
  | postRecv | initNewSession | listenTo | consume => exact zoom_fair _

end

theorem run_fair (script : IocpScript n) : Triple Fair Fair (run script) fun _ => Fair :=
  Reentrant.Script.run_rule (P := fun x => Triple Fair Fair x fun _ => Fair) (zoom_fair _)
    (fun _ _ hx hy => hx.bind fun _ => hy) (fun c _ hs => call_fair hs c) script

theorem handlers_fair (replies : IocpReplies n) :
    ∀ h ∈ handlers replies, Triple Fair Fair h.2 fun _ => Fair :=
  Reentrant.Replies.handlers_rule (P := fun x => Triple Fair Fair x fun _ => Fair) (zoom_fair _)
    (fun _ _ hx hy => hx.bind fun _ => hy) (fun c _ hs => call_fair hs c) replies

/-! ## The loop -/

theorem do_recv_fair (id : Fin n) (mem : Alloc) (reads : List Chunk) (drained : DrainEnd)
    {onRecv : IocpUsesM n Unit} (honRecv : Triple Fair Fair onRecv fun _ => Fair) :
    Triple Fair Fair (do_recv id mem reads drained onRecv) fun _ => Fair := by
  apply (slot_at id).bind
  intro conn
  apply (use_fair.pre fun _ => At.due).bind
  intro _
  apply (zoom_fair _).bind
  intro _
  apply (zoom_fair _).bind
  intro readNum
  cases drained with
  | zero | error => exact zoom_fair _
  | eagain =>
    dsimp only
    split
    · have hreport : Triple Fair Fair (report id conn.birth readNum onRecv)
          fun _ => DueIfFilled id conn.birth :=
        (zoom_fair _).bind fun _ => honRecv.bind fun _ => resume_due .onRecv
      apply hreport.bind
      intro _
      apply Triple.get_bind
      intro p hdue
      cases hs : p.sessions id with
      | none => exact .pure fun _ h => h ▸ hdue.fair (inSlot_none hs)
      | some conn' =>
        rw [if_neg (Option.some_ne_none conn')]
        exact (use_fair.of_eq (hdue.filled hs).1).bind fun _ => zoom_fair _
    · exact zoom_fair _

theorem context_at (kind : CtxKind) :
    Triple Fair (Due id birth) (context id birth kind : IocpUsesM n IoContext)
      fun _ => At id birth := by
  apply use_fair.bind
  intro _
  apply Triple.zoom
  · intro p io_ctx q h hrun
    obtain ⟨rfl, s, hs, hb, -⟩ := Iocp.context_ok hrun
    exact ⟨h, (inSlot_some hs).trans (congrArg some hb)⟩
  · intro p e q h _
    exact h

theorem initNewSession_at (fd : Nat) (type : SessionType) (creation : Creation) :
    Triple Fair (At id birth) (iocp.zoom (Iocp.initNewSession fd type creation) : IocpUsesM n _)
      fun _ => At id birth := by
  apply Triple.zoom
  · intro p created q h hrun
    have hfilled : p.sessions id ≠ none := by
      intro hnone
      have hslot := h.slot
      rw [inSlot_none hnone] at hslot
      cases hslot
    have hsame := Iocp.initNewSession_others hrun hfilled
    exact ⟨h.fair, (congrArg (Option.map Session.birth) hsame).trans h.slot⟩
  · intro p e q h _
    exact h.fair

theorem act_sessions {p q : Iocp n} {event : Nat} {i : Fin n}
    (h : (Iocp.act event i).run p = .ok () q) : q.sessions = p.sessions := by
  obtain ⟨t, ht, rfl⟩ := Lens.zoom_inv h
  replace ht : (Table.act event i).run p.toTable = .ok () t := ht
  change t.sessions = p.toTable.sessions
  cases ht
  dsimp only
  split <;> rfl

theorem act_due (event : Nat) (i : Fin n) :
    Triple Fair (Due id birth) (iocp.zoom (Iocp.act event i)) fun _ => Due id birth := by
  apply Triple.zoom
  · intro p a q h hrun
    have hslot : (iocp.set q p).inSlot id = p.inSlot id :=
      congrArg (Option.map Session.birth) (congrFun (act_sessions hrun) id)
    exact h.congr (by rw [hslot])
  · intro p e q h hrun
    cases hrun

theorem onAccept_due (e : Completion n) (id : Fin n) (script : IocpScript n) :
    Triple Fair Fair (onAccept e id script) fun _ => Due e.id e.birth :=
  (useSlot_fair id).bind fun _ => (run_fair script).bind fun _ => resume_due .onAccept

theorem acceptLoop_at (e : Completion n) (kind : CtxKind) (incoming : List (IocpIncoming n)) :
    Triple Fair (Due e.id e.birth) (acceptLoop e kind incoming) fun _ => At e.id e.birth := by
  induction incoming with
  | nil => exact (context_at kind).bind fun _ => .pure fun _ h => h
  | cons c rest ih =>
    apply (context_at kind).bind
    intro _
    apply (initNewSession_at ..).bind
    intro created
    cases created with
    | none => exact ih.pre fun _ => At.due
    | some id => exact ((onAccept_due e id c.onAccept).pre fun _ => At.fair).bind fun _ => ih

theorem accepted_fair (e : Completion n) (kind : CtxKind) (client : Nat) :
    Triple Fair Fair (accepted e kind client) fun _ => Fair := by
  apply ((useSlot_fair _).bind fun _ => zoom_fair _).bind
  intro _
  apply (zoom_fair _).bind
  intro created
  cases created with
  | none => exact .pure fun _ h => h
  | some id =>
    apply (onAccept_due e id e.onAccept).bind
    intro _
    apply (acceptLoop_at e kind e.accepts).bind
    intro _
    apply ((context_at kind).pre fun _ => At.due).bind
    intro io_ctx
    apply ((useSlot_fair e.id).pre fun _ => At.fair).bind
    intro _
    exact (zoom_fair _).bind fun _ => .pure fun _ h => h

theorem handle_fair (e : Completion n) : Triple Fair Fair (handle e) fun _ => Fair := by
  apply Triple.get_bind
  intro p h
  cases hs : p.sessions e.id with
  | none => exact .pure fun _ hp => hp ▸ h
  | some conn =>
    cases hctx : e.ctx with
    | none => exact .pure fun _ hp => hp ▸ h
    | some kind =>
      have hresume : Triple Fair (· = p) (resume .completion e.id e.birth)
          fun _ => Due e.id e.birth := by
        apply Triple.modify
        rintro _ rfl
        exact DueIfFilled.due (h.resumed .completion) (by simp [inSlot, hs])
      apply hresume.bind
      intro _
      apply (act_due e.birth e.id).bind
      intro _
      apply (context_at kind).bind
      intro io_ctx
      cases io_ctx.action with
      | accept => exact (accepted_fair e kind io_ctx.accept).pre fun _ => At.fair
      | read =>
        exact (do_recv_fair e.id e.mem e.reads e.drained (run_fair e.onRecv)).pre fun _ => At.fair
      | write => exact (do_send_fair (handlers_fair e.sends) e.id).pre fun _ => At.fair
      | null | connect => exact .pure fun _ => At.fair

theorem handleAll_fair (es : List (Completion n)) :
    Triple Fair Fair (handleAll es) fun _ => Fair := by
  induction es with
  | nil => exact .pure fun _ h => h
  | cons e es ih => exact (handle_fair e).bind fun _ => (zoom_fair _).bind fun _ => ih

theorem turns_fair (ts : List (Iocp.Turn n)) : Triple Fair Fair (turns ts) fun _ => Fair := by
  induction ts with
  | nil => exact .pure fun _ h => h
  | cons t ts ih =>
    apply Triple.bind _ fun _ => ih
    cases t with
    | user script => exact run_fair script
    | batch es => exact (zoom_fair _).bind fun _ => handleAll_fair es

/-- **Every session is used while it is open, exactly where no `onAccept` closes its listener, and
neither a callback nor the time until a completion is taken leaves another session in the place of
the one the code goes on with.** -/
theorem open_iff (ts : List (Iocp.Turn n)) :
    (∀ u ∈ (final ((turns ts).run (start .init))).uses, u.Open) ↔
      ∀ r ∈ (final ((turns ts).run (start .init))).resumptions, r.Spared := by
  have hstart : Fair (start (.init : Iocp n)) := by simp [Fair, Balanced, start]
  have hfair := (turns_fair ts).final (fun _ _ h => h) hstart
  simpa [Fair, Balanced] using hfair

/-! ## A listener that is closed -/

def listener : Fin 2 := ⟨0, by decide⟩

def mem : Alloc := ⟨true, fun _ => 0⟩

def listens : Iocp.Turn 2 := .user (.call (.listenTo 100 ⟨mem, true⟩ ⟨some 101, true⟩) .none .done)

/-- A connection comes in, and `onAccept` closes the listener. -/
def closes : Completion 2 where
  id := listener
  birth := 0
  ctx := some .r
  mem := mem
  reads := []
  drained := .eagain
  onRecv := .done
  sends := .none
  creation := ⟨mem, true⟩
  onAccept := .call (.closeSession listener .normal) .none .done
  accepts := []
  posting := ⟨some 102, true⟩

/-- `WSAAccept` is called on `io_ctx->self`. -/
theorem listener_used :
    ¬ ∀ u ∈ (final ((turns [listens, .batch [closes]]).run (start .init))).uses, u.Open := by
  decide +kernel

end IocpUses

end ChainSocket
