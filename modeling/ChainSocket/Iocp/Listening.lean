import ChainSocket.Iocp.Contexts
import ChainSocket.Lib.Triple

/-!
# The listening sockets of IOCPPoller.cpp

* `Own`: an accept is posted on the socket of the session whose context it is posted with;
* `Serving`: and a listener keeps its socket for as long as it is open.
-/

namespace ChainSocket

/-- `WSASocket` and `AcceptEx` succeed. -/
def Posting.succeeds (posting : Posting) : Bool := posting.socket.isSome && posting.pending

namespace Iocp

open Effect Relation

variable {n : Nat}

/-- The contexts of a session on the socket `fd`. -/
structure OwnContexts (fd : Nat) (data : IocpData) : Prop where
  self : data.io_ctx_r.self = 0 ∨ data.io_ctx_r.self = fd
  accept : data.io_ctx_r.action = .accept → data.io_ctx_r.self = fd
  write : data.io_ctx_s.action ≠ .accept

theorem newContexts_own (fd : Nat) (port : Bool) : OwnContexts fd (newContexts fd port) := by
  cases port with
  | true => exact ⟨.inl rfl, by simp [newContexts], by simp [newContexts]⟩
  | false => exact ⟨.inl rfl, by simp [newContexts, nullContext], by simp [newContexts, nullContext]⟩

/-- No session accepts on a socket of another one. -/
def Own (p : Iocp n) : Prop :=
  ∀ id s, p.sessions id = some s → s.birth < p.births ∧ OwnContexts s.fd (p.contexts id)

/-- The session `birth` accepts on its own socket, for as long as it is at `id`. -/
structure Listens (id : Fin n) (birth : Nat) (p : Iocp n) : Prop where
  born : birth < p.births
  self : ∀ s, p.sessions id = some s → s.birth = birth → (p.contexts id).io_ctx_r.self = s.fd

section

variable {cur : Option (Waiting n)} {p p' : Iocp n} {id : Fin n} {birth : Nat}

theorem withContexts_own (hp : p.Own) {data : IocpData}
    (hdata : ∀ s, p.sessions id = some s → OwnContexts s.fd (p.contexts id) →
      OwnContexts s.fd data) : (p.withContexts id data).Own := by
  intro i s hs
  obtain ⟨hborn, hown⟩ := hp i s hs
  refine ⟨hborn, ?_⟩
  by_cases hi : i = id
  · subst hi
    simpa [withContexts] using hdata s hs hown
  · simpa [withContexts, hi] using hown

theorem withContexts_listens {i : Fin n} (hp : p.Listens id birth) {data : IocpData}
    (hdata : ∀ s, p.sessions i = some s → (p.contexts i).io_ctx_r.self = s.fd →
      data.io_ctx_r.self = s.fd) : (p.withContexts i data).Listens id birth := by
  refine ⟨hp.born, ?_⟩
  intro s hs hb
  have hself := hp.self s hs hb
  by_cases hi : id = i
  · subst hi
    simpa [withContexts] using hdata s hs hself
  · simpa [withContexts, hi] using hself

theorem ContextStep.own (h : ContextStep cur p p') (hp : p.Own) : p'.Own := by
  cases h with
  | table move =>
    obtain ⟨hbirths, hold⟩ := Table.move_old move
    intro i u hu
    obtain ⟨v, hv, hfd, hb⟩ := hold i u hu
    rw [hfd, hb]
    exact hbirths ▸ hp i v hv
  | @create id fd type mem port vacant =>
    intro i u hu
    rcases Table.create_old hu with ⟨rfl, rfl⟩ | ⟨hi, hold⟩
    · refine ⟨Nat.lt_succ_self _, ?_⟩
      simpa [Session.create] using newContexts_own fd port
    · obtain ⟨hborn, hown⟩ := hp i u hold
      refine ⟨Nat.lt_succ_of_lt hborn, ?_⟩
      simpa [hi] using hown
  | full => exact hp
  | read => exact withContexts_own hp fun s _ h => ⟨h.self, (absurd · (by simp)), h.write⟩
  | write => exact withContexts_own hp fun s _ h => ⟨h.self, h.accept, by simp⟩
  | post socket filled =>
    apply withContexts_own hp
    intro s hs h
    cases filled.symm.trans hs
    exact ⟨.inr rfl, fun _ => rfl, h.write⟩

theorem ContextStep.listens (h : ContextStep cur p p') (hp : p.Listens id birth) :
    p'.Listens id birth := by
  cases h with
  | table move =>
    obtain ⟨hbirths, hold⟩ := Table.move_old move
    refine ⟨hbirths ▸ hp.born, ?_⟩
    intro u hu hub
    obtain ⟨v, hv, hfd, hb⟩ := hold id u hu
    rw [hfd]
    exact hp.self v hv (hb.symm.trans hub)
  | @create i fd type mem port vacant =>
    refine ⟨Nat.lt_succ_of_lt hp.born, ?_⟩
    intro u hu hub
    rcases Table.create_old hu with ⟨-, rfl⟩ | ⟨hi, hold⟩
    · exact absurd hub (Nat.ne_of_gt hp.born)
    · simpa [hi] using hp.self u hold hub
  | full => exact ⟨hp.born, hp.self⟩
  | read | write => exact withContexts_listens hp fun _ _ h => h
  | post socket filled =>
    apply withContexts_listens hp
    intro s hs _
    cases filled.symm.trans hs
    rfl

end

/-- The session `birth` accepts on its own socket, as every session does. -/
structure Serving (id : Fin n) (birth : Nat) (p : Iocp n) : Prop where
  own : p.Own
  listens : p.Listens id birth

theorem Own.serving {p : Iocp n} {id : Fin n} {s : Session} (hp : p.Own)
    (hs : p.sessions id = some s) (hself : (p.contexts id).io_ctx_r.self = s.fd) :
    p.Serving id s.birth := by
  refine ⟨hp, (hp id s hs).1, ?_⟩
  intro u hu _
  cases hs.symm.trans hu
  exact hself

/-- The session at `id`, and its socket. -/
def holder (p : Iocp n) (id : Fin n) : Option (Nat × Nat) :=
  (p.sessions id).map fun s => (s.birth, s.fd)

/-! ## Calls -/

section

variable {cur : Option (Waiting n)} {id : Fin n} {birth : Nat} {α : Type}

theorem Changes.keeps {G : Iocp n → Prop} (hG : ∀ p p', ContextStep cur p p' → G p → G p')
    {m : IocpM n α} (h : ∀ p, Changes cur p m) : Triple G G m fun _ => G := by
  constructor
  · intro p a p' hp hrun
    exact Moves.keeps hG (h p) hrun hp
  · intro p e p' hp hrun
    have hfinal := Moves.final_keeps hG (h p) hp
    rwa [hrun] at hfinal

theorem Changes.own {m : IocpM n α} (h : ∀ p, Changes cur p m) : Triple Own Own m fun _ => Own :=
  Changes.keeps (fun _ _ => ContextStep.own) h

theorem Changes.serving {m : IocpM n α} (h : ∀ p, Changes cur p m) :
    Triple Own (Serving id birth) m fun _ => Serving id birth := by
  have hkeeps := Changes.keeps (G := Serving id birth)
    (fun _ _ hstep hp => ⟨hstep.own hp.own, hstep.listens hp.listens⟩) h
  exact hkeeps.errors fun _ hp => hp.own

/-- `io_ctx` is read where the session is open. -/
theorem context_open {E G : Iocp n → Prop} (hE : ∀ p, G p → E p) (kind : CtxKind) :
    Triple E G (context id birth kind) fun io_ctx p => G p ∧
      (∃ s, p.sessions id = some s ∧ s.birth = birth) ∧ io_ctx = (p.contexts id).ctx kind := by
  constructor
  · intro p io_ctx q hp hrun
    obtain ⟨rfl, s, hs, hb, hctx⟩ := context_ok hrun
    exact ⟨hp, ⟨s, hs, hb⟩, hctx⟩
  · intro p e q hp hrun
    have hsame : final ((context id birth kind).run p) = p := context_final id birth kind
    rw [hrun] at hsame
    cases hsame
    exact hE _ hp

theorem context_serving : Triple Own (Serving id birth) (context id birth .r)
    fun io_ctx p => p.Own ∧ p.holder id = some (birth, io_ctx.self) := by
  apply (context_open (fun _ hp => hp.own) .r).mono (fun _ hp => hp)
  rintro _ p ⟨hp, ⟨s, hs, hb⟩, rfl⟩
  have hself := hp.listens.self s hs hb
  exact ⟨hp.own, by simp [holder, hs, hb, IocpData.ctx, hself]⟩

/-- Another session is created in another slot. -/
theorem initNewSession_serving (l : Nat) (fd : Nat) (type : SessionType) (creation : Creation) :
    Triple Own (fun p => p.Serving id birth ∧ p.holder id = some (birth, l))
      (initNewSession fd type creation) fun created p =>
        p.Serving id birth ∧ p.holder id = some (birth, l) ∧ created.isSome = creation.port := by
  have hcreate : ∀ p : Iocp n, Changes none p (initNewSession fd type creation) :=
    fun _ => initNewSession_changes fd type creation
  have hserving : Triple Own (Serving id birth) (initNewSession fd type creation)
      fun _ => Serving id birth := Changes.serving hcreate
  constructor
  · rintro p created q ⟨hp, hholder⟩ hrun
    refine ⟨hserving.ok p created q hp hrun, ?_, initNewSession_created hrun⟩
    have hfilled : p.sessions id ≠ none := by
      intro hnone
      simp [holder, hnone] at hholder
    unfold holder
    rw [initNewSession_others hrun hfilled]
    exact hholder
  · intro p e q hp hrun
    exact hserving.error p e q hp.1 hrun

/-- The accept is pending on the socket of the session, or there is none. -/
theorem post_accept_ex_own (l : Nat) (posting : Posting) :
    Triple Own (fun p => p.Own ∧ p.holder id = some (birth, l)) (post_accept_ex id l posting)
      fun posted p => p.Own ∧ p.holder id = some (birth, l) ∧
        posted = if posting.succeeds then some (birth, l) else none := by
  apply Triple.get_bind
  rintro p ⟨hp, hholder⟩
  obtain ⟨s, hs, hsame⟩ := Option.map_eq_some_iff.mp hholder
  obtain ⟨rfl, rfl⟩ := Prod.mk.inj hsame
  simp only [hs]
  have hset : Triple Own (· = p) (setContexts id fun data => { data with
      io_ctx_r := ⟨s.fd, posting.socket.getD invalidSocket, .accept⟩ })
      fun _ q => q.Own ∧ q.holder id = some (s.birth, s.fd) := by
    apply Triple.modify
    rintro _ rfl
    have hpost : ContextStep none _ _ := .post (posting.socket.getD invalidSocket) hs
    exact ⟨hpost.own hp, hholder⟩
  apply hset.bind
  intro _
  unfold Posting.succeeds
  cases posting.socket with
  | none => exact .pure fun q hq => ⟨hq.1, hq.2, by simp⟩
  | some socket =>
    cases posting.pending with
    | true => exact .pure fun q hq => ⟨hq.1, hq.2, by simp⟩
    | false => exact .pure fun q hq => ⟨hq.1, hq.2, by simp⟩

/-! ## The loop -/

theorem drain_own (reads : List Chunk) : Triple Own Own (drain id reads) fun _ => Own := by
  induction reads with
  | nil => exact .pure fun _ hp => hp
  | cons c rest ih =>
    have hreceive : ∀ p : Iocp n, Changes none p (change id (·.receive c.mem c.bytes)) :=
      fun p => change_changes fun _ _ _ hs => Session.receive_move hs
    apply (Changes.own hreceive).bind
    intro _
    have hcount : Triple Own Own (modify fun p =>
        { p with received := p.received + c.bytes.length } : IocpM n Unit) fun _ => Own :=
      .modify fun _ hp => hp
    apply hcount.bind
    intro _
    exact ih.bind fun _ => .pure fun _ hp => hp

theorem do_recv_own (mem : Alloc) (reads : List Chunk) (drained : DrainEnd)
    {onRecv : IocpM n Unit} (honRecv : Triple Own Own onRecv fun _ => Own) :
    Triple Own Own (do_recv id mem reads drained onRecv) fun _ => Own := by
  have hgrow : ∀ p : Iocp n, Changes none p (change id (·.grow mem)) :=
    fun p => change_changes fun _ _ _ hs => Session.grow_move hs
  have hslot : ∀ p : Iocp n, Changes none p (slot id) := fun _ => slot_changes id
  have hclose : ∀ type (p : Iocp n), Changes none p (closeSession id type) :=
    fun type _ => closeSession_changes id type
  have hpost : ∀ birth (p : Iocp n), Changes none p (postRecv id birth) :=
    fun birth _ => postRecv_changes id birth
  apply (Changes.own hslot).bind
  intro conn
  apply (Changes.own hgrow).bind
  intro _
  apply (drain_own reads).bind
  intro readNum
  cases drained with
  | zero => exact Changes.own (hclose _)
  | error => exact Changes.own (hclose _)
  | eagain =>
    dsimp only
    split
    · have hcount : Triple Own Own (modify fun p =>
          { p with reported := p.reported + readNum } : IocpM n Unit) fun _ => Own :=
        .modify fun _ hp => hp
      apply (hcount.bind fun _ => honRecv).bind
      intro _
      apply Triple.get_bind
      intro p hp
      split
      · exact .pure fun _ h => h ▸ hp
      · exact (Changes.own (hpost _)).of_eq hp
    · exact Changes.own (hpost _)

theorem do_accept_serving (e : Completion n) (l : Nat) :
    Triple Own (fun p => p.Serving id birth ∧ p.holder id = some (birth, l)) (do_accept e)
      fun _ p => p.Serving id birth ∧ p.holder id = some (birth, l) := by
  apply Triple.modify
  rintro p ⟨hp, hholder⟩
  dsimp only
  split
  · exact ⟨⟨hp.own, hp.listens.born, hp.listens.self⟩, hholder⟩
  · exact ⟨⟨hp.own, hp.listens.born, hp.listens.self⟩, hholder⟩

theorem acceptLoop_serving (e : Completion n) (kind : CtxKind) (accepts : List (IocpIncoming n)) :
    Triple Own (Serving e.id e.birth) (acceptLoop e kind accepts) fun _ => Serving e.id e.birth := by
  have hcontext : Triple Own (Serving e.id e.birth) (context e.id e.birth kind)
      fun _ => Serving e.id e.birth :=
    (context_open (fun _ hp => hp.own) kind).mono (fun _ hp => hp) fun _ _ hp => hp.1
  induction accepts with
  | nil => exact hcontext.bind fun _ => .pure fun _ hp => hp
  | cons c rest ih =>
    have hcreate : ∀ p : Iocp n, Changes none p (initNewSession c.sock .accept c.creation) :=
      fun _ => initNewSession_changes c.sock .accept c.creation
    have hrun : ∀ p : Iocp n, Changes none p (run c.onAccept) := run_changes c.onAccept
    apply hcontext.bind
    intro _
    apply (Changes.serving hcreate).bind
    intro created
    cases created with
    | none => exact ih
    | some new => exact (Changes.serving hrun).bind fun _ => ih

end

end Iocp

end ChainSocket
