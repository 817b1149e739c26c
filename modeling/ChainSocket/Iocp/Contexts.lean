import ChainSocket.Iocp.Loop

/-!
# The contexts of IOCPPoller.cpp

What calls do to the session table and to the contexts beside it, step by step.

* `run_changes`: every run of the callbacks is a sequence of these steps.
-/

namespace ChainSocket

def IocpData.ctx (data : IocpData) : CtxKind → IoContext
  | .r => data.io_ctx_r
  | .s => data.io_ctx_s

namespace Iocp

open Effect Relation

variable {n : Nat}

/-- The contexts of a session that has just been created. -/
def newContexts (fd : Nat) (port : Bool) : IocpData :=
  if port then ⟨⟨0, fd, .read⟩, ⟨0, fd, .write⟩⟩ else ⟨nullContext, nullContext⟩

def withContexts (p : Iocp n) (id : Fin n) (data : IocpData) : Iocp n :=
  { p with contexts := Function.update p.contexts id data }

/-- An accept is posted for a session on its own socket. -/
inductive ContextStep (cur : Option (Waiting n)) : Iocp n → Iocp n → Prop
  | table {p : Iocp n} {t : Table n} (move : Table.Move true cur none p.toTable t) :
      ContextStep cur p { p with toTable := t }
  | create {p : Iocp n} {id : Fin n} (fd : Nat) (type : SessionType) (mem : Alloc) (port : Bool)
      (vacant : p.sessions id = none) :
      ContextStep cur p { p with
        toTable := p.toTable.create id fd type mem
        contexts := Function.update p.contexts id (newContexts fd port)
        curId := some id }
  | full (p : Iocp n) : ContextStep cur p { p with curId := none }
  | read (p : Iocp n) (id : Fin n) :
      ContextStep cur p (p.withContexts id { p.contexts id with
        io_ctx_r := { (p.contexts id).io_ctx_r with action := .read } })
  | write (p : Iocp n) (id : Fin n) :
      ContextStep cur p (p.withContexts id { p.contexts id with
        io_ctx_s := { (p.contexts id).io_ctx_s with action := .write } })
  | post {p : Iocp n} {id : Fin n} {s : Session} (socket : Nat)
      (filled : p.sessions id = some s) :
      ContextStep cur p (p.withContexts id { p.contexts id with
        io_ctx_r := ⟨s.fd, socket, .accept⟩ })

def Changes {α : Type} (cur : Option (Waiting n)) (p : Iocp n) (m : IocpM n α) : Prop :=
  Moves (ContextStep cur) (ContextStep cur) p m

section

variable {cur : Option (Waiting n)} {p : Iocp n} {α β : Type}

theorem Changes.bind {m : IocpM n α} {k : α → IocpM n β} (hm : Changes cur p m)
    (hk : ∀ a p', m.run p = .ok a p' → Changes cur p' (k a)) : Changes cur p (m >>= k) :=
  Moves.bind (fun _ _ => id) hm hk

theorem Changes.pure (a : α) : Changes cur p (pure a : IocpM n α) := Moves.pure a

theorem Changes.of_run {m m' : IocpM n α} (h : m.run p = m'.run p) (hm : Changes cur p m') :
    Changes cur p m := Moves.of_run h hm

theorem Changes.of_table {m : TableM n α}
    (h : Moves (Table.Move true cur none) (Table.Move true cur none) p.toTable m) :
    Changes cur p (table.zoom m) :=
  Lens.zoom_moves (fun _ _ => .table) (fun _ _ => .table) h

/-! ## One session -/

theorem slot_run {id : Fin n} {s : Session} (h : p.sessions id = some s) :
    (slot id).run p = .ok s p :=
  Lens.zoom_ok (l := table) (Table.slot_run h)

def put (p : Iocp n) (id : Fin n) (s : Session) : Iocp n :=
  { p with toTable := p.toTable.put id s }

@[simp] theorem sessions_put (id i : Fin n) (s : Session) :
    (p.put id s).sessions i = if i = id then some s else p.sessions i :=
  Table.sessions_put ..

theorem change_run {id : Fin n} {f : Session → Except Fault Session} {s s' : Session}
    (h : p.sessions id = some s) (hf : f s = .ok s') :
    (change id f).run p = .ok () (p.put id s') :=
  Lens.zoom_ok (l := table) (Table.change_run h hf)

theorem change_error {id : Fin n} {f : Session → Except Fault Session} {s : Session} {e : Fault}
    (h : p.sessions id = some s) (hf : f s = .error e) : (change id f).run p = .error e p :=
  Lens.zoom_error (l := table) (Table.change_error h hf)

theorem slot_changes (id : Fin n) : Changes cur p (slot id) := .of_table (Table.slot_moves id)

theorem change_changes {id : Fin n} {f : Session → Except Fault Session}
    (hf : ∀ s s', p.sessions id = some s → f s = .ok s' → s.Move true s') :
    Changes cur p (change id f) := .of_table (Table.change_moves hf)

theorem act_changes (e : Waiting n) : Changes (some e) p (act e.birth e.id) :=
  .of_table (Table.act_moves e)

theorem idGen_vacant {id : Fin n} (h : p.idGen = some id) : p.sessions id = none := by
  unfold idGen at h
  split_ifs at h
  have hfound := List.find?_some h
  simpa using hfound

section

variable {fd : Nat} {type : SessionType} {creation : Creation}

theorem initNewSession_none (h : p.idGen = none) :
    (initNewSession fd type creation).run p = .error .outOfBounds { p with curId := none } := by
  change initNewSession fd type creation p = _
  simp only [initNewSession, h]

theorem initNewSession_port {id : Fin n} (h : p.idGen = some id) (hport : creation.port = true) :
    (initNewSession fd type creation).run p = .ok (some id) { p with
      toTable := p.toTable.create id fd type creation.mem
      curId := some id
      contexts := Function.update p.contexts id ⟨⟨0, fd, .read⟩, ⟨0, fd, .write⟩⟩ } := by
  change initNewSession fd type creation p = _
  simp only [initNewSession, h, hport, if_true]

theorem initNewSession_noPort {id : Fin n} (h : p.idGen = some id)
    (hport : creation.port = false) :
    (initNewSession fd type creation).run p = .ok none { p with
      toTable := p.toTable.create id fd type creation.mem
      curId := some id
      contexts := Function.update p.contexts id ⟨nullContext, nullContext⟩ } := by
  change initNewSession fd type creation p = _
  simp only [initNewSession, h, hport, Bool.false_eq_true, if_false]

end

/-- A session is created in an empty slot; with no port for it, it stays there. -/
theorem initNewSession_ok {q : Iocp n} {fd : Nat} {type : SessionType} {creation : Creation}
    {created : Option (Fin n)} (h : (initNewSession fd type creation).run p = .ok created q) :
    ∃ new, p.sessions new = none ∧ created = (if creation.port then some new else none) ∧
      q = { p with
        toTable := p.toTable.create new fd type creation.mem
        contexts := Function.update p.contexts new (newContexts fd creation.port)
        curId := some new } := by
  cases hgen : p.idGen with
  | none =>
    rw [initNewSession_none hgen] at h
    cases h
  | some new =>
    refine ⟨new, idGen_vacant hgen, ?_⟩
    cases hport : creation.port with
    | true =>
      rw [initNewSession_port hgen hport] at h
      cases h
      exact ⟨rfl, rfl⟩
    | false =>
      rw [initNewSession_noPort hgen hport] at h
      cases h
      exact ⟨rfl, rfl⟩

theorem initNewSession_others {q : Iocp n} {id : Fin n} {fd : Nat} {type : SessionType}
    {creation : Creation} {created : Option (Fin n)}
    (h : (initNewSession fd type creation).run p = .ok created q)
    (hfilled : p.sessions id ≠ none) : q.sessions id = p.sessions id := by
  obtain ⟨new, hvacant, -, rfl⟩ := initNewSession_ok h
  have hne : id ≠ new := fun heq => hfilled (heq ▸ hvacant)
  simp [hne]

theorem initNewSession_created {q : Iocp n} {fd : Nat} {type : SessionType} {creation : Creation}
    {created : Option (Fin n)} (h : (initNewSession fd type creation).run p = .ok created q) :
    created.isSome = creation.port := by
  obtain ⟨new, -, rfl, -⟩ := initNewSession_ok h
  cases creation.port with
  | true => rfl
  | false => rfl

theorem initNewSession_changes (fd : Nat) (type : SessionType) (creation : Creation) :
    Changes cur p (initNewSession fd type creation) := by
  cases h : p.idGen with
  | none => exact Moves.of_error (initNewSession_none h) (.single (.full p))
  | some id =>
    have hcreate : ∀ port, ContextStep cur p _ := fun port =>
      .create fd type creation.mem port (idGen_vacant h)
    cases hport : creation.port with
    | true => exact Moves.of_ok (initNewSession_port h hport) (.single (hcreate true))
    | false => exact Moves.of_ok (initNewSession_noPort h hport) (.single (hcreate false))

theorem closeSession_changes (id : Fin n) (type : CloseType) :
    Changes cur p (closeSession id type) := by
  apply Moves.modify
  split
  · exact .refl
  · rename_i s hs
    exact .single (.table (.remove id hs))

/-- On the socket of the session at `id`. -/
theorem post_accept_ex_changes {id : Fin n} {s : Session} (hs : p.sessions id = some s)
    (posting : Posting) : Changes cur p (post_accept_ex id s.fd posting) := by
  apply Changes.of_run (run_bind_ok (run_get p))
  simp only [hs]
  have hpost : Changes cur p (setContexts id fun data => { data with
      io_ctx_r := ⟨s.fd, posting.socket.getD invalidSocket, .accept⟩ }) :=
    Moves.modify (.single (.post _ hs))
  apply hpost.bind
  intro _ p₁ _
  cases posting.socket with
  | none => exact .pure _
  | some socket =>
    dsimp only
    split_ifs
    · exact .pure _
    · exact .pure _

/-- The session that `listenTo` posts an accept for is the one it has created. -/
theorem listenTo_changes (listener : Nat) (creation : Creation) (posting : Posting) :
    Changes cur p (listenTo listener creation posting) := by
  apply (initNewSession_changes listener .listen creation).bind
  intro found p₁ hrun
  cases found with
  | none => exact .pure _
  | some id =>
    have hs : ∃ s, p₁.sessions id = some s ∧ s.fd = listener := by
      obtain ⟨new, -, hcreated, rfl⟩ := initNewSession_ok hrun
      cases hport : creation.port with
      | true =>
        simp only [hport, if_true, Option.some.injEq] at hcreated
        exact ⟨.create id listener .listen p.births creation.mem, by simp [hcreated], rfl⟩
      | false => simp [hport] at hcreated
    obtain ⟨s, hs, rfl⟩ := hs
    exact (post_accept_ex_changes hs posting).bind fun _ _ _ => .pure _

theorem context_final (id : Fin n) (birth : Nat) (kind : CtxKind) :
    final ((context id birth kind).run p) = p := by
  change final (context id birth kind p) = p
  unfold context
  split
  · rfl
  · split_ifs
    · cases kind with
      | r => rfl
      | s => rfl
    · rfl

theorem context_ok {q : Iocp n} {id : Fin n} {birth : Nat} {kind : CtxKind} {io_ctx : IoContext}
    (h : (context id birth kind).run p = .ok io_ctx q) :
    q = p ∧ ∃ s, p.sessions id = some s ∧ s.birth = birth ∧
      io_ctx = (p.contexts id).ctx kind := by
  change context id birth kind p = _ at h
  unfold context at h
  cases hs : p.sessions id with
  | none => simp [hs] at h
  | some s =>
    simp only [hs] at h
    split at h
    case isTrue hbirth =>
      cases kind with
      | r => cases h; exact ⟨rfl, s, rfl, hbirth, rfl⟩
      | s => cases h; exact ⟨rfl, s, rfl, hbirth, rfl⟩
    case isFalse => cases h

theorem postRecv_changes (id : Fin n) (birth : Nat) : Changes cur p (postRecv id birth) := by
  apply Changes.of_run (run_bind_ok (run_get p))
  split
  · exact Moves.throw _
  · split_ifs
    · exact Moves.modify (.single (.read p id))
    · exact Moves.throw _

/-! ## Sending -/

theorem offer_changes (id : Fin n) (r : SendResult) : Changes cur p (change id (·.offer r)) :=
  change_changes fun _ _ _ ho => .flush r rfl ho

theorem push_changes (id : Fin n) (mem : Alloc) (buf : List UInt8) :
    Changes cur p (change id (·.push mem buf)) :=
  change_changes fun _ _ _ hp => .queue (fun h => by cases h) hp

theorem sendLoop_changes (id : Fin n) (birth : Nat) {replies : List (IocpSend × IocpM n Unit)}
    (hreplies : ∀ h ∈ replies, ∀ p, Changes cur p h.2) (p : Iocp n) :
    Changes cur p (sendLoop id birth replies) := by
  induction replies generalizing p with
  | nil =>
    unfold sendLoop
    apply Changes.of_run (run_bind_ok (run_get p))
    split
    · exact .pure _
    · split_ifs
      · exact .pure _
      · exact offer_changes id .eagain
  | cons reply rest ih =>
    obtain ⟨r, onSend⟩ := reply
    have honSend : ∀ p, Changes cur p onSend := hreplies (r, onSend) (by simp)
    have hrest := ih fun h hh => hreplies h (List.mem_cons_of_mem _ hh)
    unfold sendLoop
    apply Changes.of_run (run_bind_ok (run_get p))
    split
    · exact .pure _
    · split_ifs
      · exact .pure _
      · cases r with
        | accepted k =>
          dsimp only
          split_ifs
          · exact hrest p
          · apply (offer_changes id (.accepted k)).bind
            intro _ p₁ _
            exact (honSend p₁).bind fun _ p₂ _ => hrest p₂
        | eagain posted =>
          apply (offer_changes id .eagain).bind
          intro _ p₁ _
          split_ifs
          · exact .pure _
          · exact closeSession_changes id _
        | error => exact (offer_changes id .error).bind fun _ p₁ _ => closeSession_changes id _

theorem postSend_changes (id : Fin n) {replies : List (IocpSend × IocpM n Unit)}
    (hreplies : ∀ h ∈ replies, ∀ p, Changes cur p h.2) : Changes cur p (postSend id replies) := by
  apply (slot_changes id).bind
  intro conn p₁ _
  have hwrite : Changes cur p₁ (setContexts id fun data =>
      { data with io_ctx_s := { data.io_ctx_s with action := .write } }) :=
    Moves.modify (.single (.write p₁ id))
  exact hwrite.bind fun _ p₂ _ => sendLoop_changes id _ hreplies p₂

theorem sendTo_changes (id : Fin n) (mem : Alloc) (buf : List UInt8)
    {replies : List (IocpSend × IocpM n Unit)} (hreplies : ∀ h ∈ replies, ∀ p, Changes cur p h.2) :
    Changes cur p (sendTo id mem buf replies) := by
  apply (slot_changes id).bind
  intro conn p₁ _
  split_ifs
  · exact push_changes id mem buf
  · exact (push_changes id mem buf).bind fun _ p₂ _ => postSend_changes id hreplies

theorem do_send_changes (id : Fin n) {replies : List (IocpSend × IocpM n Unit)}
    (hreplies : ∀ h ∈ replies, ∀ p, Changes cur p h.2) : Changes cur p (do_send id replies) := by
  apply (slot_changes id).bind
  intro conn p₁ _
  split_ifs
  · exact postSend_changes id hreplies
  · exact .pure _

/-! ## Callbacks -/

theorem hand_changes (id : Fin n) (buf : List UInt8) : Changes cur p (hand id buf) := by
  apply change_changes
  intro s s' _ hs
  cases hs
  exact .hand s buf

theorem call_changes (c : IocpCall n) (replies : List (IocpSend × IocpM n Unit))
    (hreplies : ∀ h ∈ replies, ∀ p, Changes cur p h.2) (p : Iocp n) :
    Changes cur p (call c replies) := by
  unfold call
  apply Changes.of_run (run_bind_ok (run_get p))
  cases c with
  | sendTo id mem buf =>
    dsimp only
    split_ifs
    · exact .pure _
    · exact (hand_changes id buf).bind fun _ _ _ => sendTo_changes id mem buf hreplies
  | postSend id =>
    dsimp only
    split_ifs
    · exact .pure _
    · exact postSend_changes id hreplies
  | postRecv id =>
    dsimp only
    split
    · exact .pure _
    · exact postRecv_changes id _
  | closeSession id type => exact closeSession_changes id type
  | initNewSession fd type creation =>
    exact (initNewSession_changes fd type creation).bind fun _ _ _ => .pure _
  | listenTo listener creation posting => exact listenTo_changes listener creation posting
  | consume id len =>
    dsimp only
    split_ifs
    · exact .pure _
    · exact change_changes fun _ _ _ hs => Session.consume_move hs

theorem run_changes (script : IocpScript n) : ∀ p, Changes cur p (run script) := by
  apply Reentrant.Script.run_rule (P := fun m => ∀ p, Changes cur p m)
  · intro p
    exact .of_table Table.observe_moves
  · intro x y hx hy p
    exact (hx p).bind fun _ p' _ => hy p'
  · exact call_changes

theorem handlers_changes (replies : IocpReplies n) :
    ∀ h ∈ handlers replies, ∀ p, Changes cur p h.2 := by
  apply Reentrant.Replies.handlers_rule (P := fun m => ∀ p, Changes cur p m)
  · intro p
    exact .of_table Table.observe_moves
  · intro x y hx hy p
    exact (hx p).bind fun _ p' _ => hy p'
  · exact call_changes

end

end Iocp

end ChainSocket
