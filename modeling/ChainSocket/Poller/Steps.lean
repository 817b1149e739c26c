import ChainSocket.Poller.Loop

/-!
# The steps of Poller.cpp

Every run of the callbacks, and every `loopOnce`, is a sequence of steps of the session table and
of the interest list; without an event that reports a socket writable, no step offers bytes but as
they are pushed, and none asks for `EVENT_WRITE`.
-/

namespace ChainSocket.Poller

open Effect Relation

variable {n : Nat}

/-- A step of the table, or of what the poller keeps beside it. -/
inductive Step (R : Table n → Table n → Prop) (w : Bool) : Poller n → Poller n → Prop
  | table {p : Poller n} {t : Table n} (move : R p.toTable t) :
      Step R w p { p with toTable := t }
  | create {p : Poller n} (id : Fin n) (fd : Nat) (type : SessionType) (mem : Alloc)
      (vacant : p.sessions id = none) (closed : p.owner fd = none) :
      Step R w p { p with toTable := p.toTable.create id fd type mem }
  | curId (p : Poller n) (curId : Fin n) : Step R w p { p with curId }
  | forget (p : Poller n) (fd : Nat) :
      Step R w p { p with interest := Function.update p.interest fd none }
  | watch (p : Poller n) (fd : Nat) (i : Interest n) (writable : i.write = true → w = true) :
      Step R w p { p with interest := Function.update p.interest fd (some i) }

theorem Step.mono {R Q : Table n → Table n → Prop} {w v : Bool} (hRQ : ∀ t t', R t t' → Q t t')
    (hwv : w = true → v = true) {p p' : Poller n} (h : Step R w p p') : Step Q v p p' := by
  cases h with
  | table move => exact .table (hRQ _ _ move)
  | create id fd type mem vacant closed => exact .create id fd type mem vacant closed
  | curId curId => exact .curId p curId
  | forget fd => exact .forget p fd
  | watch fd i writable => exact .watch p fd i fun h => hwv (writable h)

/-- The steps made while `cur` is handled; where the run fails, any step may have been made. -/
def Goes {α : Type} (w : Bool) (cur : Option (Waiting n)) (sock : Option Nat) (p : Poller n)
    (m : PollerM n α) : Prop :=
  Moves (Step (Table.Move w cur sock) w) (Step (Table.Move true cur sock) true) p m

section

variable {w : Bool} {cur : Option (Waiting n)} {sock : Option Nat} {p : Poller n} {α β : Type}

theorem step_writable {p p' : Poller n} (h : Step (Table.Move w cur sock) w p p') :
    Step (Table.Move true cur sock) true p p' :=
  h.mono (fun _ _ => Table.Move.writable) fun _ => rfl

theorem Goes.bind {m : PollerM n α} {k : α → PollerM n β} (hm : Goes w cur sock p m)
    (hk : ∀ a p', m.run p = .ok a p' → Goes w cur sock p' (k a)) :
    Goes w cur sock p (m >>= k) :=
  Moves.bind (fun _ _ => step_writable) hm hk

theorem Goes.pure (a : α) : Goes w cur sock p (pure a : PollerM n α) := Moves.pure a

/-- After steps that lead to `p'`, what is left of the run goes on from there. -/
theorem Goes.after {m m' : PollerM n α} {p' : Poller n} (h : m.run p = m'.run p')
    (hsteps : ReflTransGen (Step (Table.Move w cur sock) w) p p') (hm : Goes w cur sock p' m') :
    Goes w cur sock p m :=
  Moves.after h hsteps (ReflTransGen.mono (fun _ _ => step_writable) _ _ hsteps) hm

theorem Goes.of_table {m : TableM n α}
    (h : Moves (Table.Move w cur sock) (Table.Move true cur sock) p.toTable m) :
    Goes w cur sock p (table.zoom m) :=
  Lens.zoom_moves (fun _ _ => .table) (fun _ _ => .table) h

/-! ## One session -/

theorem slot_run {id : Fin n} {s : Session} (h : p.sessions id = some s) :
    (slot id).run p = .ok s p :=
  Lens.zoom_ok (l := table) (Table.slot_run h)

theorem slot_none {id : Fin n} (h : p.sessions id = none) :
    (slot id).run p = .error .slot p :=
  Lens.zoom_error (l := table) (Table.slot_none h)

def put (p : Poller n) (id : Fin n) (s : Session) : Poller n :=
  { p with toTable := p.toTable.put id s }

@[simp] theorem sessions_put (id i : Fin n) (s : Session) :
    (p.put id s).sessions i = if i = id then some s else p.sessions i :=
  Table.sessions_put ..

theorem put_put (id : Fin n) (s s' : Session) : (p.put id s).put id s' = p.put id s' := by
  simp only [put, Table.put_put]

theorem change_run {id : Fin n} {f : Session → Except Fault Session} {s s' : Session}
    (h : p.sessions id = some s) (hf : f s = .ok s') :
    (change id f).run p = .ok () (p.put id s') :=
  Lens.zoom_ok (l := table) (Table.change_run h hf)

theorem change_error {id : Fin n} {f : Session → Except Fault Session} {s : Session} {e : Fault}
    (h : p.sessions id = some s) (hf : f s = .error e) :
    (change id f).run p = .error e p :=
  Lens.zoom_error (l := table) (Table.change_error h hf)

theorem slot_goes (id : Fin n) : Goes w cur sock p (slot id) := .of_table (Table.slot_moves id)

theorem put_step {id : Fin n} {s s' : Session} (h : p.sessions id = some s)
    (move : s.Move w s') : Step (Table.Move w cur sock) w p (p.put id s') :=
  .table (.change id h move)

theorem change_goes {id : Fin n} {f : Session → Except Fault Session}
    (hf : ∀ s s', p.sessions id = some s → f s = .ok s' → s.Move w s') :
    Goes w cur sock p (change id f) := .of_table (Table.change_moves hf)

theorem act_goes (e : Waiting n) : Goes w (some e) sock p (act e.birth e.id) :=
  .of_table (Table.act_moves e)

theorem pollAdd_goes (fd : Nat) (i : Interest n) (h : i.write = true → w = true) :
    Goes w cur sock p (pollAdd fd i) := by
  apply Moves.modify
  split
  · exact .single (.watch p fd i h)
  · exact .refl

theorem pollMod_goes (fd : Nat) (i : Interest n) (h : i.write = true → w = true) :
    Goes w cur sock p (pollMod fd i) := by
  apply Moves.modify
  split
  · exact .refl
  · exact .single (.watch p fd i h)

theorem findSlot_vacant {sessions : Fin n → Option Session} (i : Nat) (curId next id : Fin n)
    (h : findSlot sessions curId i = (next, some id)) : sessions id = none := by
  induction i generalizing curId with
  | zero => simp [findSlot] at h
  | succ i ih =>
    unfold findSlot at h
    dsimp only at h
    split at h
    · exact ih _ h
    · cases h
      assumption

theorem initNewSession_full {fd : Nat} {type : SessionType} {mem : Alloc} {curId : Fin n}
    (h : findSlot p.sessions p.curId n = (curId, none)) :
    (initNewSession fd type mem).run p = .ok none { p with curId } := by
  change initNewSession fd type mem p = _
  simp only [initNewSession, h]

theorem initNewSession_run {fd : Nat} {type : SessionType} {mem : Alloc} {curId id : Fin n}
    (h : findSlot p.sessions p.curId n = (curId, some id)) :
    (initNewSession fd type mem).run p =
      .ok (some id) { p with toTable := p.toTable.create id fd type mem, curId } := by
  change initNewSession fd type mem p = _
  simp only [initNewSession, h]

theorem initNewSession_goes (fd : Nat) (type : SessionType) (mem : Alloc)
    (hfd : p.owner fd = none) : Goes w cur sock p (initNewSession fd type mem) := by
  cases h : findSlot p.sessions p.curId n with
  | mk curId found =>
    cases found with
    | none => exact Moves.of_ok (initNewSession_full h) (.single (.curId p curId))
    | some id =>
      have hvacant := findSlot_vacant n p.curId curId id h
      exact Moves.of_ok (initNewSession_run h)
        (.tail (.single (.create id fd type mem hvacant hfd)) (.curId _ curId))

theorem closeSession_goes (id : Fin n) (type : CloseType) :
    Goes w cur sock p (closeSession id type) := by
  apply Moves.modify
  split
  · exact .refl
  · rename_i s hs
    exact .tail (.single (.table (.remove id hs))) (.forget _ s.fd)

theorem postRecv_goes (id : Fin n) : Goes w cur sock p (postRecv id) := by
  apply (slot_goes id).bind
  intro conn p₁ _
  apply (pollAdd_goes _ _ fun h => by cases h).bind
  intro _ p₂ _
  apply change_goes
  intro s s' _ hs
  cases hs
  exact .register s

/-! ## Sending -/

theorem sent_goes (r : SendResult) {onSend : PollerM n Unit}
    (honSend : ∀ p, Goes w cur sock p onSend) : Goes w cur sock p (sent r onSend) := by
  cases r with
  | error => exact .pure _
  | eagain => exact .pure _
  | accepted k =>
    unfold sent
    dsimp only
    split_ifs with hk
    · exact .pure _
    · exact (honSend p).bind fun _ _ _ => .pure _

theorem postSend_goes (id : Fin n) (r : SendResult) {onSend : PollerM n Unit}
    (honSend : ∀ p, Goes true cur sock p onSend) : Goes true cur sock p (postSend id r onSend) := by
  apply (slot_goes id).bind
  intro conn p₁ _
  split_ifs with hsize
  · exact .pure _
  · apply Goes.bind (change_goes fun s s' _ hs => .flush r rfl hs)
    intro _ p₂ _
    exact sent_goes r honSend

theorem postSend_empty {id : Fin n} {r : SendResult} {onSend : PollerM n Unit} {s : Session}
    (hs : p.sessions id = some s) (h0 : s.writeBuffer.size = 0) :
    (postSend id r onSend).run p = .ok 0 p := by
  unfold postSend
  rw [run_bind_ok (slot_run hs), if_pos h0]
  rfl

theorem postSend_error {id : Fin n} {r : SendResult} {onSend : PollerM n Unit} {s : Session}
    {e : Fault} (hs : p.sessions id = some s) (h0 : s.writeBuffer.size ≠ 0)
    (ho : s.offer r = .error e) : (postSend id r onSend).run p = .error e p := by
  unfold postSend
  rw [run_bind_ok (slot_run hs), if_neg h0, run_bind_error (change_error hs ho)]

theorem postSend_run {id : Fin n} {r : SendResult} {onSend : PollerM n Unit} {s s' : Session}
    (hs : p.sessions id = some s) (h0 : s.writeBuffer.size ≠ 0) (ho : s.offer r = .ok s') :
    (postSend id r onSend).run p = (sent r onSend).run (p.put id s') := by
  unfold postSend
  rw [run_bind_ok (slot_run hs), if_neg h0, run_bind_ok (change_run hs ho)]

/-- The `postSend` of `sendTo`: with the bytes just pushed it is one step. -/
theorem postSend_pushed {id : Fin n} {mem : Alloc} {buf : List UInt8} {r : SendResult}
    {onSend : PollerM n Unit} {s s₁ : Session} (hs : p.sessions id = some s)
    (hempty : s.writeBuffer.size = 0) (hpush : s.push mem buf = .ok s₁)
    (honSend : ∀ p, Goes w cur sock p onSend) {m : PollerM n Int}
    (hm : m.run p = (postSend id r onSend).run (p.put id s₁)) : Goes w cur sock p m := by
  have hs₁ : (p.put id s₁).sessions id = some s₁ := by simp
  have hsize := Session.push_size hpush
  by_cases hzero : s₁.writeBuffer.size = 0
  · have hbuf : buf = [] := List.eq_nil_of_length_eq_zero (by omega)
    exact Moves.of_ok (hm.trans (postSend_empty hs₁ hzero))
      (.single (put_step hs (.queue (fun _ => .inr hbuf) hpush)))
  · cases ho : s₁.offer r with
    | error e =>
      refine Moves.of_error (hm.trans (postSend_error hs₁ hzero ho)) (.single ?_)
      exact put_step hs (.queue (fun h => by cases h) hpush)
    | ok s₂ =>
      have hrun := hm.trans (postSend_run hs₁ hzero ho)
      rw [put_put] at hrun
      have hsend : s.Move w s₂ := .send r hempty hpush (by omega) ho
      exact Goes.after hrun (.single (put_step hs hsend)) (sent_goes r honSend)

theorem sendTo_goes (id : Fin n) (mem : Alloc) (buf : List UInt8) (r : SendResult)
    {onSend : PollerM n Unit} (honSend : ∀ p, Goes w cur sock p onSend) :
    Goes w cur sock p (sendTo id mem buf r onSend) := by
  cases hs : p.sessions id with
  | none => exact Moves.of_error (run_bind_error (slot_none hs)) .refl
  | some s =>
    unfold sendTo
    apply Goes.after (run_bind_ok (slot_run hs)) .refl
    split_ifs with hsize
    · apply change_goes
      intro u u' hu hu'
      rw [hs] at hu
      cases hu
      exact .queue (fun _ => .inl hsize) hu'
    · cases hpush : s.push mem buf with
      | error e => exact Moves.of_error (run_bind_error (change_error hs hpush)) .refl
      | ok s₁ =>
        rw [← bind_assoc]
        refine Goes.bind (postSend_pushed (r := r) hs (by omega) hpush honSend ?_) fun _ _ _ => ?_
        · exact run_bind_ok (change_run hs hpush)
        · exact .pure _

/-! ## Callbacks -/

theorem hand_goes (id : Fin n) (buf : List UInt8) : Goes w cur sock p (hand id buf) := by
  apply change_goes
  intro s s' _ hs
  cases hs
  exact .hand s buf

theorem call_goes (c : PollerCall n) (replies : List (SendResult × PollerM n Unit))
    (hreplies : ∀ h ∈ replies, ∀ p, Goes w cur sock p h.2) :
    Goes w cur sock p (call c replies) := by
  unfold call
  apply Goes.after (run_bind_ok (run_get p)) .refl
  cases c with
  | sendTo id mem buf =>
    dsimp only
    split_ifs
    · exact .pure _
    · apply (hand_goes id buf).bind
      intro _ p₁ _
      cases replies with
      | nil => exact sendTo_goes id mem buf _ fun _ => .pure _
      | cons reply rest => exact sendTo_goes id mem buf _ (hreplies reply (by simp))
  | postRecv id =>
    dsimp only
    split_ifs
    · exact .pure _
    · exact postRecv_goes id
  | closeSession id type => exact closeSession_goes id type
  | initNewSession fd type mem =>
    dsimp only
    split_ifs with hfd
    · exact (initNewSession_goes fd type mem hfd).bind fun _ _ _ => .pure _
    · exact .pure _
  | consume id len =>
    dsimp only
    split_ifs
    · exact .pure _
    · exact change_goes fun s s' _ hs => Session.consume_move hs

theorem run_goes (script : PollerScript n) : ∀ p, Goes w cur sock p (run script) := by
  refine Reentrant.Script.run_rule (P := fun m => ∀ p, Goes w cur sock p m) ?_ ?_ ?_ script
  · intro p
    exact .of_table Table.observe_moves
  · intro x y hx hy p
    exact (hx p).bind fun _ p' _ => hy p'
  · intro c replies hreplies p
    exact call_goes c replies hreplies

/-! ## The loop -/

theorem handleReadEvent_goes (id : Fin n) (mem : Alloc) (r : RecvResult)
    {onRecv : PollerM n Unit} (honRecv : ∀ p, Goes w cur sock p onRecv) :
    Goes w cur sock p (handleReadEvent id mem r onRecv) := by
  apply (slot_goes id).bind
  intro conn p₁ _
  split_ifs
  · exact .pure _
  · split
    · exact .pure _
    · apply Goes.bind (change_goes fun s s' _ hs => Session.receive_move hs)
      intro _ p₂ _
      exact (honRecv p₂).bind fun _ _ _ => .pure _
    · exact .pure _
    · exact .pure _

variable {e : PollEvent n}

theorem readBranch_goes : Goes w (some e.waiting) sock p (readBranch e) := by
  unfold readBranch
  split_ifs
  · apply (act_goes e.waiting).bind
    intro _ p₁ _
    apply (handleReadEvent_goes e.id e.mem e.recv (run_goes e.onRecv)).bind
    intro ret p₂ _
    apply Goes.after (run_bind_ok (run_get p₂)) .refl
    split_ifs
    · exact .pure _
    · exact (closeSession_goes ..).bind fun _ _ _ => .pure _
    · exact .pure _
  · exact .pure _

theorem writeBranch_goes (hw : e.write = true → w = true) :
    Goes w (some e.waiting) sock p (writeBranch e) := by
  unfold writeBranch
  split_ifs with hwrite
  · cases hw hwrite
    apply (act_goes e.waiting).bind
    intro _ p₁ _
    apply (postSend_goes e.id e.send (run_goes e.onSend)).bind
    intro ret p₂ _
    apply Goes.after (run_bind_ok (run_get p₂)) .refl
    split_ifs
    · exact .pure _
    · exact (closeSession_goes ..).bind fun _ _ _ => .pure _
    · exact (slot_goes _).bind fun _ _ _ => .pure _
  · exact .pure _

/-- `EVENT_WRITE` is asked for only where it was reported. -/
theorem writeBranch_asks {p' : Poller n} (h : (writeBranch e).run p = .ok (some true) p') :
    e.write = true := by
  cases hwrite : e.write with
  | true => rfl
  | false =>
    unfold writeBranch at h
    rw [if_neg (by simp [hwrite])] at h
    cases h

theorem rearm_goes {write : Bool} (hw : write = true → w = true) :
    Goes w (some e.waiting) sock p (rearm e write) := by
  apply (slot_goes e.id).bind
  intro conn p₁ _
  exact (act_goes e.waiting).bind fun _ p₂ _ => pollMod_goes _ _ hw

theorem ready_goes (hw : e.write = true → w = true) :
    Goes w (some e.waiting) sock p (ready e) := by
  apply readBranch_goes.bind
  intro more p₁ _
  split_ifs
  · apply (writeBranch_goes hw).bind
    intro write p₂ hwrite
    cases write with
    | none => exact .pure _
    | some write =>
      refine rearm_goes fun htrue => hw ?_
      subst htrue
      exact writeBranch_asks hwrite
  · exact .pure _

theorem acceptLoop_goes {fd : Nat} (accepts : List (Incoming n)) (p : Poller n) :
    Goes w (some e.waiting) (some fd) p (acceptLoop e fd accepts) := by
  induction accepts generalizing p with
  | nil => exact .pure _
  | cons c rest ih =>
    unfold acceptLoop
    apply Goes.after (run_bind_ok (run_get p)) .refl
    cases howner : p.owner fd with
    | none => exact .pure _
    | some target =>
      dsimp only
      split_ifs with hsock
      · exact .pure _
      · have hvacant : p.owner c.sock = none := by
          by_contra h
          exact hsock (.inr h)
        have hrecord : Step (Table.Move w (some e.waiting) (some fd)) w p
            { p with toTable := p.toTable.record e.birth target } :=
          .table (.accept rfl rfl howner)
        apply Goes.after (run_bind_ok (run_modify _ p)) (.single hrecord)
        refine Goes.bind (initNewSession_goes c.sock .accept c.mem hvacant) fun found p₂ _ => ?_
        cases found with
        | none => exact ih p₂
        | some aid =>
          apply (act_goes e.waiting).bind
          intro _ p₃ _
          exact (run_goes c.onAccept p₃).bind fun _ p₄ _ => ih p₄

/-- The steps of the loop over a batch. -/
def Loops {α : Type} (w : Bool) (p : Poller n) (m : PollerM n α) : Prop :=
  Moves (Step (Table.LoopMove w) w) (Step (Table.LoopMove true) true) p m

theorem loop_writable {p p' : Poller n} (h : Step (Table.LoopMove w) w p p') :
    Step (Table.LoopMove true) true p p' :=
  h.mono (fun _ _ => Table.LoopMove.writable) fun _ => rfl

theorem Loops.bind {m : PollerM n α} {k : α → PollerM n β} (hm : Loops w p m)
    (hk : ∀ a p', m.run p = .ok a p' → Loops w p' (k a)) : Loops w p (m >>= k) :=
  Moves.bind (fun _ _ => loop_writable) hm hk

/-- What handling an event leaves as it is. -/
def Frame (waiting : List (Waiting n)) (listening : Option (Nat × Nat)) (p : Poller n) : Prop :=
  p.waiting = waiting ∧ p.listening = listening

theorem step_frame {waiting : List (Waiting n)} {listening : Option (Nat × Nat)}
    {p p' : Poller n} (h : Step (Table.Move w cur sock) w p p') (hp : Frame waiting listening p) :
    Frame waiting listening p' := by
  cases h with
  | table move =>
    obtain ⟨hw, hl, -⟩ := move.frame
    exact ⟨hw.trans hp.1, hl.trans hp.2⟩
  | create | curId | forget | watch => exact hp

theorem Goes.loops {m : PollerM n α} (h : Goes w (some e.waiting) sock p m)
    (he : e.waiting ∈ p.waiting)
    (hsock : ∀ fd, sock = some fd → p.listening = some (fd, e.birth)) : Loops w p m := by
  have hstep : ∀ v, ∀ q q' : Poller n, Step (Table.Move v (some e.waiting) sock) v q q' →
      Frame p.waiting p.listening q →
        Step (Table.LoopMove v) v q q' ∧ Frame p.waiting p.listening q' := by
    intro v q q' hq hframe
    refine ⟨?_, step_frame hq hframe⟩
    cases hq with
    | table move =>
      refine .table (move.loop ?_ ?_)
      · rw [hframe.1]
        exact he
      · intro fd hfd
        rw [hframe.2]
        exact hsock fd hfd
    | create id fd type mem vacant closed => exact .create id fd type mem vacant closed
    | curId curId => exact .curId q curId
    | forget fd => exact .forget q fd
    | watch fd i writable => exact .watch q fd i writable
  exact Moves.guard (hstep w) (hstep true) h ⟨rfl, rfl⟩

theorem handle_none (hs : p.sessions e.id = none) : (handle e).run p = .ok () p := by
  unfold handle
  rw [run_bind_ok (run_get p)]
  simp only [hs]
  rfl

theorem handle_some {conn : Session} (hs : p.sessions e.id = some conn) :
    (handle e).run p = (dispatch e conn).run p := by
  unfold handle
  rw [run_bind_ok (run_get p)]
  simp only [hs]

theorem dispatch_loops {conn : Session} (hs : p.sessions e.id = some conn)
    (hw : e.write = true → w = true) (he : e.waiting ∈ p.waiting) :
    Loops w p (dispatch e conn) := by
  unfold dispatch
  cases conn.type with
  | none => exact Moves.throw _
  | connect | accept =>
    have hready : Goes w (some e.waiting) none p (ready e) := ready_goes hw
    exact hready.loops he fun fd hfd => by cases hfd
  | listen =>
    apply Loops.bind (Moves.modify (.single (.table (.listen he hs))))
    intro _ p₁ hp₁
    cases hp₁
    refine Loops.bind ((acceptLoop_goes e.accepts _).loops he ?_) fun _ p₂ _ => ?_
    · intro fd hfd
      cases hfd
      rfl
    · exact Moves.modify (.single (.table (.unlisten _)))

/-- An event that waits is handled in steps of the loop. -/
theorem handle_loops (hw : e.write = true → w = true) (he : e.waiting ∈ p.waiting) :
    Loops w p (handle e) := by
  cases hs : p.sessions e.id with
  | none => exact Moves.of_ok (handle_none hs) .refl
  | some conn => exact Moves.of_run (handle_some hs) (dispatch_loops hs hw he)

theorem Goes.waiting {m : PollerM n α} {a : α} {p' : Poller n} (h : Goes w cur sock p m)
    (hrun : m.run p = .ok a p') : p'.waiting = p.waiting := by
  have hframe : Frame p.waiting p.listening p' :=
    Moves.keeps (fun _ _ hstep => step_frame hstep) h hrun ⟨rfl, rfl⟩
  exact hframe.1

theorem handle_waiting {p' : Poller n} (h : (handle e).run p = .ok () p') :
    p'.waiting = p.waiting := by
  cases hs : p.sessions e.id with
  | none =>
    rw [handle_none hs] at h
    cases h
    rfl
  | some conn =>
    rw [handle_some hs] at h
    unfold dispatch at h
    have hready : Goes true (some e.waiting) none p (ready e) := ready_goes fun _ => rfl
    cases htype : conn.type with
    | none => simp only [htype] at h; cases h
    | connect | accept =>
      simp only [htype] at h
      exact hready.waiting h
    | listen =>
      simp only [htype] at h
      rw [run_bind_ok (run_modify _ p)] at h
      obtain ⟨_, p₁, hloop, hlast⟩ := run_bind_inv h
      rw [run_modify] at hlast
      cases hlast
      have haccept : ∀ q, Goes true (some e.waiting) (some conn.fd) q
          (acceptLoop e conn.fd e.accepts) := acceptLoop_goes e.accepts
      have hkeep := (haccept _).waiting hloop
      exact hkeep

/-- The loop over the events of a batch, whether or not there are more of them. -/
theorem handleAll_before (es after : List (PollEvent n)) (p : Poller n)
    (hw : ∀ e ∈ es, e.write = true → w = true)
    (hp : p.waiting = (es ++ after).map PollEvent.waiting) : Loops w p (handleAll es) := by
  induction es generalizing p with
  | nil => exact Moves.pure _
  | cons e es ih =>
    unfold handleAll
    apply Loops.bind (handle_loops (hw e (by simp)) (by simp [hp]))
    intro _ p₁ h₁
    apply Loops.bind (Moves.modify (.single (.table (.pop _))))
    intro _ p₂ h₂
    cases h₂
    refine ih _ (fun e' he' => hw e' (List.mem_cons_of_mem _ he')) ?_
    simp [handle_waiting h₁, hp]

theorem handleAll_loops (es : List (PollEvent n)) (p : Poller n)
    (hw : ∀ e ∈ es, e.write = true → w = true) (hp : p.waiting = es.map PollEvent.waiting) :
    Loops w p (handleAll es) :=
  handleAll_before es [] p hw (by rw [hp, List.append_nil])

end

end ChainSocket.Poller
