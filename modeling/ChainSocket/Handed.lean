import ChainSocket.Poller.Runs
import ChainSocket.Iocp.Runs
import ChainSocket.Lib.Triple

/-!
# What sendTo is called with

`handed` of a session is noted where `sendTo` is called, `pushed` where `writeBuffer` gets the bytes.
They are the same at every entry and exit of a callback and between the calls, of both `Poller`s.

* `Table.Given`: what has been pushed, less what one `sendTo` is about to push;
* `Poller.turn_given`, `Iocp.turn_given`: the turns of a process.
-/

namespace ChainSocket

open Effect

/-- `f` does not push. -/
def Session.Quiet (f : Session → Except Fault Session) : Prop :=
  ∀ s s', f s = .ok s' → s'.handed = s.handed ∧ s'.pushed = s.pushed

namespace Session

theorem push_handed {s s' : Session} {mem : Alloc} {bytes : List UInt8}
    (h : s.push mem bytes = .ok s') :
    s'.handed = s.handed ∧ s'.pushed = s.pushed ++ bytes := by
  obtain ⟨b, -, hs⟩ := except_bind_inv h
  cases hs
  exact ⟨rfl, rfl⟩

theorem offer_quiet (r : SendResult) : Quiet (·.offer r) := by
  intro s s' h
  cases r with
  | accepted k =>
    obtain ⟨b, -, hs⟩ := except_bind_inv h
    cases hs
    exact ⟨rfl, rfl⟩
  | eagain | error =>
    cases h
    exact ⟨rfl, rfl⟩

theorem receive_quiet (mem : Alloc) (bytes : List UInt8) : Quiet (·.receive mem bytes) := by
  intro s s' h
  obtain ⟨b, -, hb⟩ := except_bind_inv h
  obtain ⟨b', -, hs⟩ := except_bind_inv hb
  cases hs
  exact ⟨rfl, rfl⟩

theorem grow_quiet (mem : Alloc) : Quiet (·.grow mem) := by
  intro s s' h
  obtain ⟨b, -, hs⟩ := except_bind_inv h
  cases hs
  exact ⟨rfl, rfl⟩

theorem consume_quiet (len : Nat) : Quiet (·.consume len) := by
  intro s s' h
  obtain ⟨b, -, hs⟩ := except_bind_inv h
  cases hs
  exact ⟨rfl, rfl⟩

end Session

namespace Table

variable {n : Nat}

/-- At every point of the trail, all that was handed over has been pushed. -/
def Past (t : Table n) : Prop :=
  ∀ view ∈ t.trail, ∀ id s, view id = some s → s.handed = s.pushed

/-- Of what has been handed over for a session, `lack` is not pushed yet. -/
structure Given (lack : Fin n → List UInt8) (t : Table n) : Prop where
  now : ∀ id s, t.sessions id = some s → s.handed = s.pushed ++ lack id
  past : t.Past

/-- Every call of `sendTo` has pushed its buffer. -/
def nothing : Fin n → List UInt8 := fun _ => []

/-- `buf` is what `sendTo` has to push for the session at `id`. -/
def lacking (id : Fin n) (buf : List UInt8) : Fin n → List UInt8 :=
  Function.update nothing id buf

theorem empty_given : (empty : Table n).Given nothing := by
  constructor
  · intro id s hs
    cases hs
  · intro view hview
    cases hview

/-- A change of the session at `id` alone, with what it lacks then. -/
theorem change_given {lack lack' : Fin n → List UInt8} {id : Fin n}
    {f : Session → Except Fault Session} (hother : ∀ i, i ≠ id → lack' i = lack i)
    (hf : ∀ s s', f s = .ok s' → s.handed = s.pushed ++ lack id →
      s'.handed = s'.pushed ++ lack' id) :
    Triple Past (Given lack) (change id f) fun _ => Given lack' := by
  constructor
  · intro t _ t' ht hrun
    cases hs : t.sessions id with
    | none =>
      rw [change_none hs] at hrun
      cases hrun
    | some s =>
      cases hfs : f s with
      | error e =>
        rw [change_error hs hfs] at hrun
        cases hrun
      | ok s' =>
        rw [change_run hs hfs] at hrun
        cases hrun
        refine ⟨?_, ht.past⟩
        intro i u hu
        rw [sessions_put] at hu
        split_ifs at hu with hi
        · cases hu
          exact hi ▸ hf s s' hfs (ht.now id s hs)
        · rw [hother i hi]
          exact ht.now i u hu
  · intro t e t' ht hrun
    cases hs : t.sessions id with
    | none =>
      rw [change_none hs] at hrun
      cases hrun
      exact ht.past
    | some s =>
      cases hfs : f s with
      | error e =>
        rw [change_error hs hfs] at hrun
        cases hrun
        exact ht.past
      | ok s' =>
        rw [change_run hs hfs] at hrun
        cases hrun

theorem hand_given (id : Fin n) (buf : List UInt8) :
    Triple Past (Given nothing) (change id fun s => .ok (s.hand buf))
      fun _ => Given (lacking id buf) := by
  apply change_given
  · intro i hi
    exact Function.update_of_ne hi ..
  · intro s s' hs hlack
    cases hs
    simp [lacking, Session.hand, hlack, nothing]

theorem push_given (id : Fin n) (mem : Alloc) (buf : List UInt8) :
    Triple Past (Given (lacking id buf)) (change id (·.push mem buf)) fun _ => Given nothing := by
  apply change_given
  · intro i hi
    exact (Function.update_of_ne hi ..).symm
  · intro s s' hs hlack
    obtain ⟨hhanded, hpushed⟩ := Session.push_handed hs
    rw [hhanded, hpushed, hlack]
    simp [lacking, nothing]

theorem slot_given {lack : Fin n → List UInt8} (id : Fin n) :
    Triple Past (Given lack) (slot id) fun _ => Given lack := by
  constructor
  · intro t s t' ht hrun
    cases hs : t.sessions id with
    | none =>
      rw [slot_none hs] at hrun
      cases hrun
    | some u =>
      rw [slot_run hs] at hrun
      cases hrun
      exact ht
  · intro t e t' ht hrun
    cases hs : t.sessions id with
    | none =>
      rw [slot_none hs] at hrun
      cases hrun
      exact ht.past
    | some u =>
      rw [slot_run hs] at hrun
      cases hrun

theorem observe_given : Triple Past (Given nothing) observe fun _ => Given (nothing : Fin n → _) := by
  apply Triple.modify
  intro t ht
  refine ⟨ht.now, ?_⟩
  intro view hview id s hs
  rcases List.mem_append.1 hview with hview | hview
  · exact ht.past view hview id s hs
  · cases List.mem_singleton.1 hview
    exact (ht.now id s hs).trans (List.append_nil _)

theorem act_given (event : Nat) (id : Fin n) :
    Triple Past (Given nothing) (act event id) fun _ => Given (nothing : Fin n → _) := by
  apply Triple.modify
  intro t ht
  split
  · exact ht
  · exact ⟨ht.now, ht.past⟩

theorem create_given {t : Table n} (ht : t.Given nothing) (id : Fin n) (fd : Nat)
    (type : SessionType) (mem : Alloc) : (t.create id fd type mem).Given nothing := by
  refine ⟨?_, ht.past⟩
  intro i u hu
  rcases create_old hu with ⟨-, rfl⟩ | ⟨-, hold⟩
  · rfl
  · exact ht.now i u hold

theorem remove_given {t : Table n} (ht : t.Given nothing) (id : Fin n) (fd : Nat) :
    (t.remove id fd).Given nothing := by
  refine ⟨?_, ht.past⟩
  intro i u hu
  exact ht.now i u (remove_old hu).2

end Table

/-! ## Programs on a table -/

section

variable {n : Nat} {σ α β : Type} {l : Lens σ (Table n)}

/-- From a state where `lack` is not pushed yet, a run of `m` returns where all is pushed, and all
was at every point of the trail. -/
def Settles (l : Lens σ (Table n)) (lack : Fin n → List UInt8) (m : EStateM Fault σ α) : Prop :=
  Triple (fun s => (l.get s).Past) (fun s => (l.get s).Given lack) m
    fun _ s => (l.get s).Given Table.nothing

abbrev Keeps (l : Lens σ (Table n)) (m : EStateM Fault σ α) : Prop := Settles l Table.nothing m

theorem Settles.bind {lack : Fin n → List UInt8} {m : EStateM Fault σ α}
    {k : α → EStateM Fault σ β} (hm : Settles l lack m) (hk : ∀ a, Keeps l (k a)) :
    Settles l lack (m >>= k) := Triple.bind hm hk

namespace Keeps

protected theorem pure (a : α) : Keeps l (pure a : EStateM Fault σ α) := Triple.pure fun _ h => h

theorem get_bind {k : σ → EStateM Fault σ α} (hk : ∀ s, Keeps l (k s)) : Keeps l (get >>= k) :=
  Triple.get_bind fun s hs => (hk s).of_eq hs

protected theorem throw (e : Fault) : Keeps l (throw e : EStateM Fault σ α) := by
  constructor
  · intro s a s' _ hrun
    cases hrun
  · intro s e' s' hs hrun
    cases hrun
    exact hs.past

protected theorem modify {f : σ → σ}
    (hf : ∀ s, (l.get s).Given Table.nothing → (l.get (f s)).Given Table.nothing) :
    Keeps l (modify f : EStateM Fault σ PUnit) := Triple.modify hf

theorem modify_bind {f : σ → σ} {k : PUnit → EStateM Fault σ α}
    (hf : ∀ s, (l.get s).Given Table.nothing → (l.get (f s)).Given Table.nothing)
    (hk : Keeps l (k ⟨⟩)) : Keeps l (modify f >>= k) :=
  Settles.bind (Keeps.modify hf) fun _ => hk

theorem change {id : Fin n} {f : Session → Except Fault Session} (hf : Session.Quiet f) :
    Keeps l (l.zoom (Table.change id f)) := by
  apply Triple.zoom_part (Table.change_given (fun _ _ => rfl) ?_)
  intro s s' hs hlack
  obtain ⟨hhanded, hpushed⟩ := hf s s' hs
  rw [hhanded, hpushed, hlack]

theorem slot (id : Fin n) : Keeps l (l.zoom (Table.slot id)) :=
  Triple.zoom_part (Table.slot_given id)

theorem act (event : Nat) (id : Fin n) : Keeps l (l.zoom (Table.act event id)) :=
  Triple.zoom_part (Table.act_given event id)

theorem observe : Keeps l (l.zoom Table.observe) := Triple.zoom_part Table.observe_given

/-- Noting the call, then what pushes its buffer. -/
theorem hand {id : Fin n} {buf : List UInt8} {k : PUnit → EStateM Fault σ α}
    (hk : ∀ u, Settles l (Table.lacking id buf) (k u)) :
    Keeps l (l.zoom (Table.change id fun s => .ok (s.hand buf)) >>= k) :=
  Triple.bind (Triple.zoom_part (Table.hand_given id buf)) hk

end Keeps

/-- Where a program asks for the session first. -/
theorem Settles.slot {id : Fin n} {lack : Fin n → List UInt8} {k : Session → EStateM Fault σ α}
    (hk : ∀ s, Settles l lack (k s)) : Settles l lack (l.zoom (Table.slot id) >>= k) :=
  Triple.bind (Triple.zoom_part (Table.slot_given id)) hk

theorem Settles.push (id : Fin n) (mem : Alloc) (buf : List UInt8) :
    Settles l (Table.lacking id buf) (l.zoom (Table.change id (·.push mem buf))) :=
  Triple.zoom_part (Table.push_given id mem buf)

end

/-! ## Poller.cpp -/

namespace Poller

variable {n : Nat}

theorem initNewSession_given (fd : Nat) (type : SessionType) (mem : Alloc) :
    Keeps table (initNewSession fd type mem : PollerM n _) := by
  constructor
  · intro p created p' hp hrun
    cases hfind : findSlot p.sessions p.curId n with
    | mk curId found =>
      cases found with
      | none =>
        rw [initNewSession_full hfind] at hrun
        cases hrun
        exact hp
      | some id =>
        rw [initNewSession_run hfind] at hrun
        cases hrun
        exact Table.create_given hp id fd type mem
  · intro p e p' _ hrun
    cases hfind : findSlot p.sessions p.curId n with
    | mk curId found =>
      cases found with
      | none =>
        rw [initNewSession_full hfind] at hrun
        cases hrun
      | some id =>
        rw [initNewSession_run hfind] at hrun
        cases hrun

theorem closeSession_given (id : Fin n) (type : CloseType) :
    Keeps table (closeSession id type) := by
  apply Keeps.modify
  intro p hp
  split
  · exact hp
  · rename_i conn _
    exact Table.remove_given hp id conn.fd

theorem pollAdd_given (fd : Nat) (i : Interest n) : Keeps table (pollAdd fd i) := by
  apply Keeps.modify
  intro p hp
  split <;> exact hp

theorem pollMod_given (fd : Nat) (i : Interest n) : Keeps table (pollMod fd i) := by
  apply Keeps.modify
  intro p hp
  split <;> exact hp

theorem postRecv_given (id : Fin n) : Keeps table (postRecv id) := by
  apply (Keeps.slot id).bind
  intro conn
  apply (pollAdd_given ..).bind
  intro _
  apply Keeps.change
  intro s s' hs
  cases hs
  exact ⟨rfl, rfl⟩

section

variable {onSend onRecv : PollerM n Unit}

theorem postSend_given (id : Fin n) (r : SendResult) (honSend : Keeps table onSend) :
    Keeps table (postSend id r onSend) := by
  apply (Keeps.slot id).bind
  intro conn
  split_ifs
  · exact .pure _
  · apply (Keeps.change (Session.offer_quiet r)).bind
    intro _
    unfold sent
    split
    · exact .pure _
    · exact .pure _
    · split_ifs
      · exact .pure _
      · exact honSend.bind fun _ => .pure _

/-- `sendTo` pushes what it is called with. -/
theorem sendTo_given (id : Fin n) (mem : Alloc) (buf : List UInt8) (r : SendResult)
    (honSend : Keeps table onSend) :
    Settles table (Table.lacking id buf) (sendTo id mem buf r onSend) := by
  apply Settles.slot
  intro conn
  split_ifs
  · exact .push id mem buf
  · apply (Settles.push id mem buf).bind
    intro _
    exact (postSend_given id r honSend).bind fun _ => .pure _

theorem handleReadEvent_given (id : Fin n) (mem : Alloc) (r : RecvResult)
    (honRecv : Keeps table onRecv) : Keeps table (handleReadEvent id mem r onRecv) := by
  apply (Keeps.slot id).bind
  intro conn
  split_ifs
  · exact .pure _
  · split
    · exact .pure _
    · apply (Keeps.change (Session.receive_quiet mem _)).bind
      intro _
      exact honRecv.bind fun _ => .pure _
    · exact .pure _
    · exact .pure _

end

theorem call_given (c : PollerCall n) (replies : List (SendResult × PollerM n Unit))
    (hreplies : ∀ h ∈ replies, Keeps table h.2) : Keeps table (call c replies) := by
  apply Keeps.get_bind
  intro p
  cases c with
  | sendTo id mem buf =>
    dsimp only
    split_ifs
    · exact .pure _
    · apply Keeps.hand
      intro _
      cases replies with
      | nil => exact sendTo_given id mem buf _ (.pure _)
      | cons reply rest => exact sendTo_given id mem buf _ (hreplies reply (by simp))
  | postRecv id =>
    dsimp only
    split_ifs
    · exact .pure _
    · exact postRecv_given id
  | closeSession id type => exact closeSession_given id type
  | initNewSession fd type mem =>
    dsimp only
    split_ifs
    · exact (initNewSession_given fd type mem).bind fun _ => .pure _
    · exact .pure _
  | consume id len =>
    dsimp only
    split_ifs
    · exact .pure _
    · exact .change (Session.consume_quiet len)

theorem run_given (script : PollerScript n) : Keeps table (run script) :=
  Reentrant.Script.run_rule (P := Keeps table) .observe (fun _ _ hx hy => hx.bind fun _ => hy)
    call_given script

section

variable (e : PollEvent n)

theorem readBranch_given : Keeps table (readBranch e) := by
  unfold readBranch
  split_ifs
  · apply (Keeps.act e.birth e.id).bind
    intro _
    apply (handleReadEvent_given e.id e.mem e.recv (run_given e.onRecv)).bind
    intro ret
    apply Keeps.get_bind
    intro p
    split_ifs
    · exact .pure _
    · exact (closeSession_given e.id _).bind fun _ => .pure _
    · exact .pure _
  · exact .pure _

theorem writeBranch_given : Keeps table (writeBranch e) := by
  unfold writeBranch
  split_ifs
  · apply (Keeps.act e.birth e.id).bind
    intro _
    apply (postSend_given e.id e.send (run_given e.onSend)).bind
    intro ret
    apply Keeps.get_bind
    intro p
    split_ifs
    · exact .pure _
    · exact (closeSession_given e.id _).bind fun _ => .pure _
    · exact (Keeps.slot e.id).bind fun _ => .pure _
  · exact .pure _

theorem ready_given : Keeps table (ready e) := by
  apply (readBranch_given e).bind
  intro more
  split_ifs
  · apply (writeBranch_given e).bind
    intro write
    cases write with
    | none => exact .pure _
    | some write =>
      apply (Keeps.slot e.id).bind
      intro conn
      exact (Keeps.act e.birth e.id).bind fun _ => pollMod_given ..
  · exact .pure _

theorem acceptLoop_given (sock : Nat) (accepts : List (Incoming n)) :
    Keeps table (acceptLoop e sock accepts) := by
  induction accepts with
  | nil => exact .pure _
  | cons c rest ih =>
    apply Keeps.get_bind
    intro p
    split
    · exact .pure _
    · split_ifs
      · exact .pure _
      · apply Keeps.modify_bind
        · exact fun _ hp => ⟨hp.now, hp.past⟩
        · apply (initNewSession_given c.sock .accept c.mem).bind
          intro created
          cases created with
          | none => exact ih
          | some _ =>
            apply (Keeps.act e.birth e.id).bind
            intro _
            exact (run_given c.onAccept).bind fun _ => ih

theorem handle_given : Keeps table (handle e) := by
  apply Keeps.get_bind
  intro p
  split
  · exact .pure _
  · rename_i conn _
    unfold dispatch
    split
    · exact ready_given e
    · exact ready_given e
    · apply Keeps.modify_bind
      · exact fun _ hp => ⟨hp.now, hp.past⟩
      · apply (acceptLoop_given e conn.fd e.accepts).bind
        intro _
        exact Keeps.modify fun _ hp => ⟨hp.now, hp.past⟩
    · exact .throw _

end

theorem handleAll_given (es : List (PollEvent n)) : Keeps table (handleAll es) := by
  induction es with
  | nil => exact .pure _
  | cons e es ih =>
    apply (handle_given e).bind
    intro _
    exact Keeps.modify_bind (fun _ hp => ⟨hp.now, hp.past⟩) ih

theorem turn_given (t : Turn n) : Keeps table (turn t) := by
  cases t with
  | user script => exact run_given script
  | batch es =>
    apply Keeps.modify_bind
    · exact fun _ hp => ⟨hp.now, hp.past⟩
    · exact handleAll_given es

theorem reachable_given {reports : Poller n → Turn n → Prop} {p : Poller n}
    (h : Reachable reports p) : p.toTable.Given Table.nothing := by
  induction h with
  | init => exact Table.empty_given
  | @turn p p' t _ _ returned ih => exact (turn_given t).ok p () p' ih returned

end Poller

/-! ## IOCPPoller.cpp -/

namespace Iocp

variable {n : Nat}

theorem initNewSession_given (fd : Nat) (type : SessionType) (creation : Creation) :
    Keeps table (initNewSession fd type creation : IocpM n _) := by
  constructor
  · intro p created p' hp hrun
    obtain ⟨new, -, -, rfl⟩ := initNewSession_ok hrun
    exact Table.create_given hp new fd type creation.mem
  · intro p e p' hp hrun
    cases hgen : p.idGen with
    | none =>
      rw [initNewSession_none hgen] at hrun
      cases hrun
      exact hp.past
    | some id =>
      cases hport : creation.port with
      | true =>
        rw [initNewSession_port hgen hport] at hrun
        cases hrun
      | false =>
        rw [initNewSession_noPort hgen hport] at hrun
        cases hrun

theorem closeSession_given (id : Fin n) (type : CloseType) :
    Keeps table (closeSession id type) := by
  apply Keeps.modify
  intro p hp
  split
  · exact hp
  · rename_i conn _
    exact Table.remove_given hp id conn.fd

theorem setContexts_given (id : Fin n) (f : IocpData → IocpData) :
    Keeps table (setContexts id f) := .modify fun _ hp => hp

theorem post_accept_ex_given (id : Fin n) (listenFd : Nat) (posting : Posting) :
    Keeps table (post_accept_ex id listenFd posting) := by
  apply Keeps.get_bind
  intro p
  split
  · exact .pure _
  · apply (setContexts_given id _).bind
    intro _
    split
    · exact .pure _
    · split_ifs
      · exact .pure _
      · exact .pure _

theorem listenTo_given (listener : Nat) (creation : Creation) (posting : Posting) :
    Keeps table (listenTo listener creation posting : IocpM n Unit) := by
  apply (initNewSession_given listener .listen creation).bind
  intro created
  cases created with
  | none => exact .pure _
  | some id => exact (post_accept_ex_given id listener posting).bind fun _ => .pure _

theorem postRecv_given (id : Fin n) (birth : Nat) : Keeps table (postRecv id birth) := by
  apply Keeps.get_bind
  intro p
  split
  · exact .throw _
  · split_ifs
    · exact setContexts_given id _
    · exact .throw _

section

variable {replies : List (IocpSend × IocpM n Unit)} (hreplies : ∀ h ∈ replies, Keeps table h.2)

include hreplies

theorem sendLoop_given (id : Fin n) (birth : Nat) : Keeps table (sendLoop id birth replies) := by
  induction replies with
  | nil =>
    apply Keeps.get_bind
    intro p
    split
    · exact .pure _
    · split_ifs
      · exact .pure _
      · exact .change (Session.offer_quiet .eagain)
  | cons reply rest ih =>
    have hrest := ih fun h hh => hreplies h (List.mem_cons_of_mem _ hh)
    have honSend := hreplies reply List.mem_cons_self
    apply Keeps.get_bind
    intro p
    split
    · exact .pure _
    · split_ifs
      · exact .pure _
      · split
        · split_ifs
          · exact hrest
          · apply (Keeps.change (Session.offer_quiet _)).bind
            intro _
            exact honSend.bind fun _ => hrest
        · apply (Keeps.change (Session.offer_quiet _)).bind
          intro _
          split_ifs
          · exact .pure _
          · exact closeSession_given id _
        · exact (Keeps.change (Session.offer_quiet _)).bind fun _ => closeSession_given id _

theorem postSend_given (id : Fin n) : Keeps table (postSend id replies) := by
  apply (Keeps.slot id).bind
  intro conn
  exact (setContexts_given id _).bind fun _ => sendLoop_given hreplies id conn.birth

/-- `sendTo` pushes what it is called with. -/
theorem sendTo_given (id : Fin n) (mem : Alloc) (buf : List UInt8) :
    Settles table (Table.lacking id buf) (sendTo id mem buf replies) := by
  apply Settles.slot
  intro conn
  split_ifs
  · exact .push id mem buf
  · exact (Settles.push id mem buf).bind fun _ => postSend_given hreplies id

theorem do_send_given (id : Fin n) : Keeps table (do_send id replies) := by
  apply (Keeps.slot id).bind
  intro conn
  split_ifs
  · exact postSend_given hreplies id
  · exact .pure _

theorem call_given (c : IocpCall n) : Keeps table (call c replies) := by
  apply Keeps.get_bind
  intro p
  cases c with
  | sendTo id mem buf =>
    dsimp only
    split_ifs
    · exact .pure _
    · exact Keeps.hand fun _ => sendTo_given hreplies id mem buf
  | postSend id =>
    dsimp only
    split_ifs
    · exact .pure _
    · exact postSend_given hreplies id
  | postRecv id =>
    dsimp only
    split
    · exact .pure _
    · exact postRecv_given id _
  | closeSession id type => exact closeSession_given id type
  | initNewSession fd type creation =>
    exact (initNewSession_given fd type creation).bind fun _ => .pure _
  | listenTo listener creation posting => exact listenTo_given listener creation posting
  | consume id len =>
    dsimp only
    split_ifs
    · exact .pure _
    · exact .change (Session.consume_quiet len)

end

theorem run_given (script : IocpScript n) : Keeps table (run script) :=
  Reentrant.Script.run_rule (P := Keeps table) .observe (fun _ _ hx hy => hx.bind fun _ => hy)
    (fun c _ hs => call_given hs c) script

theorem handlers_given (replies : IocpReplies n) : ∀ h ∈ handlers replies, Keeps table h.2 :=
  Reentrant.Replies.handlers_rule (P := Keeps table) .observe
    (fun _ _ hx hy => hx.bind fun _ => hy) (fun c _ hs => call_given hs c) replies

theorem drain_given (id : Fin n) (reads : List Chunk) : Keeps table (drain id reads) := by
  induction reads with
  | nil => exact .pure _
  | cons c rest ih =>
    apply (Keeps.change (Session.receive_quiet c.mem c.bytes)).bind
    intro _
    apply Keeps.modify_bind
    · exact fun _ hp => hp
    · exact ih.bind fun _ => .pure _

theorem do_recv_given (id : Fin n) (mem : Alloc) (reads : List Chunk) (drained : DrainEnd)
    {onRecv : IocpM n Unit} (honRecv : Keeps table onRecv) :
    Keeps table (do_recv id mem reads drained onRecv) := by
  apply (Keeps.slot id).bind
  intro conn
  apply (Keeps.change (Session.grow_quiet mem)).bind
  intro _
  apply (drain_given id reads).bind
  intro readNum
  cases drained with
  | zero => exact closeSession_given id _
  | error => exact closeSession_given id _
  | eagain =>
    dsimp only
    split_ifs
    · have hreport : Keeps table (report readNum onRecv) := by
        apply Keeps.modify_bind
        · exact fun _ hp => hp
        · exact honRecv
      apply hreport.bind
      intro _
      apply Keeps.get_bind
      intro p
      split_ifs
      · exact .pure _
      · exact postRecv_given id conn.birth
    · exact postRecv_given id conn.birth

theorem context_given (id : Fin n) (birth : Nat) (kind : CtxKind) :
    Keeps table (context id birth kind) := by
  constructor
  · intro p io_ctx p' hp hrun
    have hsame := context_final (p := p) id birth kind
    rw [hrun] at hsame
    cases hsame
    exact hp
  · intro p e p' hp hrun
    have hsame := context_final (p := p) id birth kind
    rw [hrun] at hsame
    cases hsame
    exact hp.past

section

variable (e : Completion n) (kind : CtxKind)

theorem acceptLoop_given (accepts : List (IocpIncoming n)) :
    Keeps table (acceptLoop e kind accepts) := by
  induction accepts with
  | nil => exact (context_given e.id e.birth kind).bind fun _ => .pure _
  | cons c rest ih =>
    apply (context_given e.id e.birth kind).bind
    intro _
    apply (initNewSession_given c.sock .accept c.creation).bind
    intro created
    cases created with
    | none => exact ih
    | some id => exact (run_given c.onAccept).bind fun _ => ih

theorem accepted_given (client : Nat) : Keeps table (accepted e kind client) := by
  have hdo_accept : Keeps table (do_accept e) := by
    apply Keeps.modify
    intro p hp
    split
    · exact hp
    · exact ⟨hp.now, hp.past⟩
  apply hdo_accept.bind
  intro _
  apply (initNewSession_given client .accept e.creation).bind
  intro created
  cases created with
  | none => exact .pure _
  | some id =>
    apply (run_given e.onAccept).bind
    intro _
    apply (acceptLoop_given e kind e.accepts).bind
    intro _
    apply (context_given e.id e.birth kind).bind
    intro io_ctx
    exact (post_accept_ex_given e.id io_ctx.self e.posting).bind fun _ => .pure _

theorem dispatch_given : Keeps table (dispatch e kind) := by
  apply (Keeps.act e.birth e.id).bind
  intro _
  apply (context_given e.id e.birth kind).bind
  intro io_ctx
  split
  · exact accepted_given e kind io_ctx.accept
  · exact do_recv_given e.id e.mem e.reads e.drained (run_given e.onRecv)
  · exact do_send_given (handlers_given e.sends) e.id
  · exact .pure _
  · exact .pure _

theorem handle_given : Keeps table (handle e) := by
  apply Keeps.get_bind
  intro p
  split
  · exact .pure _
  · exact .pure _
  · exact dispatch_given e _

end

theorem turn_given (t : Turn n) : Keeps table (turn t) := by
  have hall : ∀ es : List (Completion n), Keeps table (handleAll es) := by
    intro es
    induction es with
    | nil => exact .pure _
    | cons e es ih =>
      apply (handle_given e).bind
      intro _
      exact Keeps.modify_bind (fun _ hp => ⟨hp.now, hp.past⟩) ih
  cases t with
  | user script => exact run_given script
  | batch es =>
    apply Keeps.modify_bind
    · exact fun _ hp => ⟨hp.now, hp.past⟩
    · exact hall es

theorem reachable_given {p : Iocp n} (h : Reachable p) : p.toTable.Given Table.nothing := by
  induction h with
  | init => exact Table.empty_given
  | @turn p p' t _ returned ih => exact (turn_given t).ok p () p' ih returned

end Iocp

end ChainSocket
