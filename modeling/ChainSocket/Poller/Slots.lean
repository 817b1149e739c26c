import ChainSocket.Poller.Flush

/-!
# Empty slots in Poller.cpp

The one place where the loop dereferences an empty slot is the `pollMod` at the end of an event
whose `send` has failed: the session is closed, and the event goes on.

* `run_avoids`: no callback dereferences an empty slot;
* `loopOnce_slot_iff`: the loop does exactly when such an event comes up.
-/

namespace ChainSocket.Poller

open Effect

variable {n : Nat}

section

variable {p : Poller n} {α β : Type}

theorem change_avoids {id : Fin n} {f : Session → Except Fault Session} {s : Session}
    (hs : p.sessions id = some s) (hf : f s ≠ .error .slot) :
    Avoids Fault.slot p (change id f) := by
  cases h : f s with
  | ok s' => exact .of_ok (change_run hs h)
  | error e =>
    refine .of_error (change_error hs h) ?_
    intro he
    exact hf (by rw [h, he])

theorem initNewSession_avoids (fd : Nat) (type : SessionType) (mem : Alloc) :
    Avoids Fault.slot p (initNewSession fd type mem) := by
  cases h : findSlot p.sessions p.curId n with
  | mk curId found =>
    cases found with
    | none => exact .of_ok (initNewSession_full h)
    | some id => exact .of_ok (initNewSession_run h)

theorem sent_avoids (r : SendResult) {onSend : PollerM n Unit}
    (honSend : ∀ p, Avoids Fault.slot p onSend) : Avoids Fault.slot p (sent r onSend) := by
  cases r with
  | error => exact .pure _
  | eagain => exact .pure _
  | accepted k =>
    unfold sent
    dsimp only
    split_ifs
    · exact .pure _
    · exact (honSend p).bind fun _ _ _ => .pure _

theorem postSend_avoids {id : Fin n} {r : SendResult} {onSend : PollerM n Unit} {s : Session}
    (hs : p.sessions id = some s) (honSend : ∀ p, Avoids Fault.slot p onSend) :
    Avoids Fault.slot p (postSend id r onSend) := by
  by_cases h0 : s.writeBuffer.size = 0
  · exact .of_ok (postSend_empty hs h0)
  · cases ho : s.offer r with
    | ok s' => exact .after (postSend_run hs h0 ho) (sent_avoids r honSend)
    | error e =>
      refine .of_error (postSend_error hs h0 ho) ?_
      intro he
      exact Session.offer_fault (by rw [ho, he])

theorem sendTo_avoids {id : Fin n} {mem : Alloc} {buf : List UInt8} {r : SendResult}
    {onSend : PollerM n Unit} {s : Session} (hs : p.sessions id = some s)
    (honSend : ∀ p, Avoids Fault.slot p onSend) :
    Avoids Fault.slot p (sendTo id mem buf r onSend) := by
  unfold sendTo
  apply Avoids.after (run_bind_ok (slot_run hs))
  split_ifs
  · exact change_avoids hs Session.push_fault
  · apply (change_avoids hs Session.push_fault).bind
    intro _ p₁ hp₁
    cases hpush : s.push mem buf with
    | error e =>
      rw [change_error hs hpush] at hp₁
      cases hp₁
    | ok s₁ =>
      rw [change_run hs hpush] at hp₁
      cases hp₁
      have hs₁ : (p.put id s₁).sessions id = some s₁ := by simp
      exact (postSend_avoids hs₁ honSend).bind fun _ _ _ => .pure _

theorem postRecv_avoids {id : Fin n} {s : Session} (hs : p.sessions id = some s) :
    Avoids Fault.slot p (postRecv id) := by
  apply Avoids.after (run_bind_ok (slot_run hs))
  refine .after (run_bind_ok (run_modify _ p)) (change_avoids (s := s) ?_ fun h => by cases h)
  split <;> exact hs

theorem hand_run {id : Fin n} {s : Session} (buf : List UInt8) (hs : p.sessions id = some s) :
    (hand id buf).run p = .ok () (p.put id (s.hand buf)) := change_run hs rfl

theorem call_avoids (c : PollerCall n) (replies : List (SendResult × PollerM n Unit))
    (hreplies : ∀ h ∈ replies, ∀ p, Avoids Fault.slot p h.2) :
    Avoids Fault.slot p (call c replies) := by
  unfold call
  apply Avoids.after (run_bind_ok (run_get p))
  cases c with
  | sendTo id mem buf =>
    dsimp only
    split_ifs with hs
    · exact .pure _
    · obtain ⟨s, hs⟩ := Option.ne_none_iff_exists'.1 hs
      apply Avoids.after (run_bind_ok (hand_run buf hs))
      have hs₁ : (p.put id (s.hand buf)).sessions id = some (s.hand buf) := by simp
      cases replies with
      | nil => exact sendTo_avoids hs₁ fun _ => .pure _
      | cons reply rest => exact sendTo_avoids hs₁ (hreplies reply (by simp))
  | postRecv id =>
    dsimp only
    split_ifs with hs
    · exact .pure _
    · obtain ⟨s, hs⟩ := Option.ne_none_iff_exists'.1 hs
      exact postRecv_avoids hs
  | closeSession id type => exact .of_ok (run_modify _ p)
  | initNewSession fd type mem =>
    dsimp only
    split_ifs
    · exact (initNewSession_avoids fd type mem).bind fun _ _ _ => .pure _
    · exact .pure _
  | consume id len =>
    dsimp only
    split_ifs with hs
    · exact .pure _
    · obtain ⟨s, hs⟩ := Option.ne_none_iff_exists'.1 hs
      exact change_avoids hs Session.consume_fault

/-- No callback dereferences an empty slot. -/
theorem run_avoids (script : PollerScript n) : ∀ p, Avoids Fault.slot p (run script) := by
  refine Reentrant.Script.run_rule (P := fun m => ∀ p, Avoids Fault.slot p m) ?_ ?_ ?_ script
  · intro p
    exact .of_ok (Lens.zoom_ok (run_modify _ _))
  · intro x y hx hy p
    exact (hx p).bind fun _ p' _ => hy p'
  · intro c replies hreplies p
    exact call_avoids c replies hreplies

/-! ## One event -/

theorem act_run (event : Nat) (id : Fin n) :
    ∃ p', (act event id).run p = .ok () p' ∧ p'.sessions = p.sessions := by
  refine ⟨_, Lens.zoom_ok (run_modify _ _), ?_⟩
  dsimp only [table]
  split <;> rfl

theorem closeSession_run (id : Fin n) (type : CloseType) :
    ∃ p', (closeSession id type).run p = .ok () p' ∧ p'.sessions id = none := by
  refine ⟨_, run_modify _ p, ?_⟩
  split
  · assumption
  · simp [Table.remove]

theorem handleReadEvent_avoids {id : Fin n} {mem : Alloc} {r : RecvResult}
    {onRecv : PollerM n Unit} {s : Session} (hs : p.sessions id = some s)
    (honRecv : ∀ p, Avoids Fault.slot p onRecv) :
    Avoids Fault.slot p (handleReadEvent id mem r onRecv) := by
  unfold handleReadEvent
  apply Avoids.after (run_bind_ok (slot_run hs))
  split_ifs
  · exact .pure _
  · split
    · exact .pure _
    · apply (change_avoids hs Session.receive_fault).bind
      intro _ p₁ _
      exact (honRecv p₁).bind fun _ _ _ => .pure _
    · exact .pure _
    · exact .pure _

variable {e : PollEvent n}

theorem readBranch_avoids {s : Session} (hs : p.sessions e.id = some s) :
    Avoids Fault.slot p (readBranch e) := by
  unfold readBranch
  split_ifs
  · obtain ⟨p₁, hact, hsame⟩ := act_run (p := p) e.birth e.id
    apply Avoids.after (run_bind_ok hact)
    have hs₁ : p₁.sessions e.id = some s := by rw [hsame, hs]
    apply (handleReadEvent_avoids hs₁ (run_avoids e.onRecv)).bind
    intro ret p₂ _
    apply Avoids.after (run_bind_ok (run_get p₂))
    split_ifs
    · exact .pure _
    · obtain ⟨p₃, hclose, _⟩ := closeSession_run (p := p₂) e.id .readError2
      exact .after (run_bind_ok hclose) (.pure _)
    · exact .pure _
  · exact .pure _

/-- Where the event is still to be handled, its slot is not empty. -/
theorem readBranch_filled {s : Session} (hs : p.sessions e.id = some s) {p' : Poller n}
    (h : (readBranch e).run p = .ok true p') : ∃ s', p'.sessions e.id = some s' := by
  unfold readBranch at h
  split_ifs at h
  · obtain ⟨_, p₁, _, h⟩ := run_bind_inv h
    obtain ⟨ret, p₂, _, h⟩ := run_bind_inv h
    rw [run_bind_ok (run_get p₂)] at h
    cases hs₂ : p₂.sessions e.id with
    | none => rw [if_pos hs₂] at h; cases h
    | some s' =>
      rw [if_neg (by simp [hs₂])] at h
      split_ifs at h
      · obtain ⟨_, p₃, _, h⟩ := run_bind_inv h
        cases h
      · cases h
        exact ⟨s', hs₂⟩
  · cases h
    exact ⟨s, hs⟩

/-- `postSend` reports a failure when `send` does, and then nothing has been called back. -/
theorem postSend_failed {id : Fin n} {onSend : PollerM n Unit} {s : Session}
    (hs : p.sessions id = some s) (h0 : s.writeBuffer.size ≠ 0) :
    (postSend id .error onSend).run p = .ok (-3) (p.put id { s with short := true }) :=
  postSend_run (r := .error) hs h0 rfl

theorem postSend_ret {id : Fin n} {r : SendResult} {onSend : PollerM n Unit} {s : Session}
    (hs : p.sessions id = some s) {ret : Int} {p' : Poller n}
    (h : (postSend id r onSend).run p = .ok ret p') (hret : ret < 0) :
    r = .error ∧ s.writeBuffer.size ≠ 0 := by
  by_cases h0 : s.writeBuffer.size = 0
  · rw [postSend_empty hs h0] at h
    cases h
    omega
  · refine ⟨?_, h0⟩
    cases ho : s.offer r with
    | error f => rw [postSend_error hs h0 ho] at h; cases h
    | ok s' =>
      rw [postSend_run hs h0 ho] at h
      cases r with
      | error => rfl
      | eagain => cases h; omega
      | accepted k =>
        unfold sent at h
        dsimp only at h
        split_ifs at h
        · cases h; omega
        · obtain ⟨_, p₁, _, h⟩ := run_bind_inv h
          cases h
          omega

/-- The `send` of the write branch is made, and fails. -/
def Fails (e : PollEvent n) (s : Session) : Prop :=
  e.write = true ∧ e.send = .error ∧ s.writeBuffer.size ≠ 0

theorem writeBranch_fails {s : Session} (hs : p.sessions e.id = some s) (hf : Fails e s) :
    ∃ p', (writeBranch e).run p = .ok (some false) p' ∧ p'.sessions e.id = none := by
  obtain ⟨hwrite, hsend, h0⟩ := hf
  obtain ⟨p₁, hact, hsame⟩ := act_run (p := p) e.birth e.id
  have hs₁ : p₁.sessions e.id = some s := by rw [hsame, hs]
  have hput : (p₁.put e.id { s with short := true }).sessions e.id =
      some { s with short := true } := by simp
  unfold writeBranch
  rw [if_pos hwrite, run_bind_ok hact, hsend, run_bind_ok (postSend_failed hs₁ h0),
    run_bind_ok (run_get _), if_neg (by simp), if_pos (by decide)]
  obtain ⟨p₂, hclose, hnone⟩ :=
    closeSession_run (p := p₁.put e.id { s with short := true }) e.id .sendError2
  exact ⟨p₂, run_bind_ok hclose, hnone⟩

theorem writeBranch_avoids {s : Session} (hs : p.sessions e.id = some s) :
    Avoids Fault.slot p (writeBranch e) := by
  unfold writeBranch
  split_ifs
  · obtain ⟨p₁, hact, hsame⟩ := act_run (p := p) e.birth e.id
    apply Avoids.after (run_bind_ok hact)
    have hs₁ : p₁.sessions e.id = some s := by rw [hsame, hs]
    apply (postSend_avoids hs₁ (run_avoids e.onSend)).bind
    intro ret p₂ _
    apply Avoids.after (run_bind_ok (run_get p₂))
    split_ifs with hs₂
    · exact .pure _
    · obtain ⟨p₃, hclose, _⟩ := closeSession_run (p := p₂) e.id .sendError2
      exact .after (run_bind_ok hclose) (.pure _)
    · obtain ⟨s₂, hs₂⟩ := Option.ne_none_iff_exists'.1 hs₂
      exact .after (run_bind_ok (slot_run hs₂)) (.pure _)
  · exact .pure _

/-- Otherwise the event goes on with its slot filled. -/
theorem writeBranch_filled {s : Session} (hs : p.sessions e.id = some s) (hf : ¬Fails e s)
    {write : Bool} {p' : Poller n} (h : (writeBranch e).run p = .ok (some write) p') :
    ∃ s', p'.sessions e.id = some s' := by
  unfold writeBranch at h
  split_ifs at h with hwrite
  · obtain ⟨p₁, hact, hsame⟩ := act_run (p := p) e.birth e.id
    have hs₁ : p₁.sessions e.id = some s := by rw [hsame, hs]
    rw [run_bind_ok hact] at h
    obtain ⟨ret, p₂, hpost, h⟩ := run_bind_inv h
    rw [run_bind_ok (run_get p₂)] at h
    cases hs₂ : p₂.sessions e.id with
    | none => rw [if_pos hs₂] at h; cases h
    | some s₂ =>
      rw [if_neg (by simp [hs₂])] at h
      split_ifs at h with hret
      · obtain ⟨hsend, h0⟩ := postSend_ret hs₁ hpost hret
        exact absurd ⟨hwrite, hsend, h0⟩ hf
      · rw [run_bind_ok (slot_run hs₂)] at h
        cases h
        exact ⟨s₂, hs₂⟩
  · cases h
    exact ⟨s, hs⟩

theorem rearm_slot_iff {write : Bool} :
    (∃ p', (rearm e write).run p = .error .slot p') ↔ p.sessions e.id = none := by
  cases hs : p.sessions e.id with
  | none => simp only [rearm, run_bind_error (slot_none hs), EStateM.Result.error.injEq, true_and,
      exists_eq', iff_self]
  | some s =>
    have havoids : Avoids Fault.slot p (rearm e write) := by
      unfold rearm
      apply Avoids.after (run_bind_ok (slot_run hs))
      obtain ⟨p₁, hact, _⟩ := act_run (p := p) e.birth e.id
      exact .after (run_bind_ok hact) (.of_ok (run_modify _ p₁))
    constructor
    · rintro ⟨p', hp'⟩
      exact absurd hp' (havoids p')
    · intro h
      cases h

theorem acceptLoop_avoids {fd : Nat} (accepts : List (Incoming n)) (p : Poller n) :
    Avoids Fault.slot p (acceptLoop e fd accepts) := by
  induction accepts generalizing p with
  | nil => exact .pure _
  | cons c rest ih =>
    unfold acceptLoop
    apply Avoids.after (run_bind_ok (run_get p))
    cases p.owner fd with
    | none => exact .pure _
    | some target =>
      dsimp only
      split_ifs
      · exact .pure _
      · apply Avoids.after (run_bind_ok (run_modify _ p))
        apply (initNewSession_avoids c.sock .accept c.mem).bind
        intro found p₂ _
        cases found with
        | none => exact ih p₂
        | some aid =>
          obtain ⟨p₃, hact, _⟩ := act_run (p := p₂) e.birth e.id
          apply Avoids.after (run_bind_ok hact)
          exact (run_avoids c.onAccept p₃).bind fun _ p₄ _ => ih p₄

/-- The event's `send` fails: its session is a connection, the read branch leaves it open with
bytes queued, and the write branch is taken. -/
def SendFails (p : Poller n) (e : PollEvent n) : Prop :=
  ∃ conn p₁ s, p.sessions e.id = some conn ∧ (conn.type = .connect ∨ conn.type = .accept) ∧
    (readBranch e).run p = .ok true p₁ ∧ p₁.sessions e.id = some s ∧ Fails e s

theorem ready_slot_iff {conn : Session} (hs : p.sessions e.id = some conn) :
    (∃ p', (ready e).run p = .error .slot p') ↔
      ∃ p₁ s, (readBranch e).run p = .ok true p₁ ∧ p₁.sessions e.id = some s ∧ Fails e s := by
  constructor
  · rintro ⟨p', hp'⟩
    cases hread : (readBranch e).run p with
    | error f p₁ =>
      unfold ready at hp'
      rw [run_bind_error hread] at hp'
      cases hp'
      exact absurd hread (readBranch_avoids hs p')
    | ok more p₁ =>
      unfold ready at hp'
      rw [run_bind_ok hread] at hp'
      cases more with
      | false => rw [if_neg (by simp)] at hp'; cases hp'
      | true =>
        rw [if_pos rfl] at hp'
        obtain ⟨s, hs₁⟩ := readBranch_filled hs hread
        by_contra hnot
        have hf : ¬Fails e s := fun hf => hnot ⟨p₁, s, rfl, hs₁, hf⟩
        cases hwrite : (writeBranch e).run p₁ with
        | error f p₂ =>
          rw [run_bind_error hwrite] at hp'
          cases hp'
          exact writeBranch_avoids hs₁ p' hwrite
        | ok write p₂ =>
          rw [run_bind_ok hwrite] at hp'
          cases write with
          | none => cases hp'
          | some write =>
            obtain ⟨s₂, hs₂⟩ := writeBranch_filled hs₁ hf hwrite
            have hnone := rearm_slot_iff.1 ⟨p', hp'⟩
            rw [hs₂] at hnone
            cases hnone
  · rintro ⟨p₁, s, hread, hs₁, hf⟩
    obtain ⟨p₂, hwrite, hnone⟩ := writeBranch_fails hs₁ hf
    obtain ⟨p', hp'⟩ : ∃ p', (rearm e false).run p₂ = .error .slot p' := rearm_slot_iff.2 hnone
    refine ⟨p', ?_⟩
    unfold ready
    rw [run_bind_ok hread, if_pos rfl, run_bind_ok hwrite]
    exact hp'

theorem handle_slot_iff :
    (∃ p', (handle e).run p = .error .slot p') ↔ SendFails p e := by
  cases hs : p.sessions e.id with
  | none => simp [handle_none hs, SendFails, hs]
  | some conn =>
    rw [handle_some hs]
    unfold dispatch
    cases htype : conn.type with
    | connect | accept =>
      dsimp only
      rw [ready_slot_iff hs]
      simp [SendFails, hs, htype]
    | listen =>
      have havoids : Avoids Fault.slot p (do
          modify fun p => { p with listening := some (conn.fd, e.birth) }
          acceptLoop e conn.fd e.accepts
          modify fun p => { p with listening := none }) := by
        apply Avoids.after (run_bind_ok (run_modify _ p))
        exact (acceptLoop_avoids e.accepts _).bind fun _ p₁ _ => .of_ok (run_modify _ p₁)
      constructor
      · rintro ⟨p', hp'⟩
        exact absurd hp' (havoids p')
      · rintro ⟨conn', p₁, s, hs', htypes, -⟩
        rw [hs] at hs'
        cases hs'
        simp [htype] at htypes
    | none =>
      constructor
      · rintro ⟨p', hp'⟩
        cases hp'
      · rintro ⟨conn', p₁, s, hs', htypes, -⟩
        rw [hs] at hs'
        cases hs'
        simp [htype] at htypes

/-! ## The batch -/

theorem handleAll_cons {es : List (PollEvent n)} {p' : Poller n}
    (h : (handle e).run p = .ok () p') : (handleAll (e :: es)).run p =
      (handleAll es).run { p' with waiting := p'.waiting.tail } := by
  rw [handleAll, run_bind_ok h, run_bind_ok (run_modify _ p')]

theorem handleAll_cons_error {es : List (PollEvent n)} {f : Fault} {p' : Poller n}
    (h : (handle e).run p = .error f p') : (handleAll (e :: es)).run p = .error f p' := by
  rw [handleAll, run_bind_error h]

/-- The batch comes to an empty slot at its first event or behind it. -/
theorem handleAll_slot_cons {es : List (PollEvent n)} :
    (∃ p', (handleAll (e :: es)).run p = .error .slot p') ↔
      (∃ p', (handle e).run p = .error .slot p') ∨
        ∃ p₁, (handle e).run p = .ok () p₁ ∧
          ∃ p', (handleAll es).run { p₁ with waiting := p₁.waiting.tail } = .error .slot p' := by
  cases hrun : (handle e).run p with
  | error f p₁ => simp [handleAll_cons_error hrun]
  | ok _ p₁ => simp [handleAll_cons hrun]

/-- The event that is come to is the first of the batch or behind it. -/
theorem comes_cons {es : List (PollEvent n)} :
    (∃ before e' after p₁, e :: es = before ++ e' :: after ∧
      (handleAll before).run p = .ok () p₁ ∧ SendFails p₁ e') ↔
      SendFails p e ∨ ∃ p₁, (handle e).run p = .ok () p₁ ∧
        ∃ before e' after p₂, es = before ++ e' :: after ∧
          (handleAll before).run { p₁ with waiting := p₁.waiting.tail } = .ok () p₂ ∧
            SendFails p₂ e' := by
  constructor
  · rintro ⟨before, e', after, p₁, hes, hbefore, hfails⟩
    cases before with
    | nil =>
      cases hes
      cases hbefore
      exact .inl hfails
    | cons e'' before =>
      cases hes
      cases hrun : (handle e).run p with
      | error f p₂ => rw [handleAll_cons_error hrun] at hbefore; cases hbefore
      | ok _ p₂ =>
        rw [handleAll_cons hrun] at hbefore
        exact .inr ⟨p₂, rfl, before, e', after, p₁, rfl, hbefore, hfails⟩
  · rintro (hfails | ⟨p₁, hrun, before, e', after, p₂, rfl, hbefore, hfails⟩)
    · exact ⟨[], e, es, p, rfl, rfl, hfails⟩
    · exact ⟨e :: before, e', after, p₂, rfl, by rw [handleAll_cons hrun, hbefore], hfails⟩

theorem handleAll_slot_iff (es : List (PollEvent n)) (p : Poller n) :
    (∃ p', (handleAll es).run p = .error .slot p') ↔
      ∃ before e after p₁, es = before ++ e :: after ∧
        (handleAll before).run p = .ok () p₁ ∧ SendFails p₁ e := by
  induction es generalizing p with
  | nil =>
    constructor
    · rintro ⟨p', hp'⟩
      cases hp'
    · rintro ⟨before, e, after, p₁, hes, -⟩
      simp at hes
  | cons e es ih => simp only [handleAll_slot_cons, comes_cons, handle_slot_iff, ih]

end

/-- `loopOnce` keeps off empty slots exactly as long as no event of the batch comes to a `send`
that fails with an error. -/
theorem loopOnce_slot_iff (p : Poller n) (es : List (PollEvent n)) :
    (∀ p', (loopOnce es).run p ≠ .error .slot p') ↔
      ∀ before e after p₁, es = before ++ e :: after →
        (handleAll before).run (p.begun es) = .ok () p₁ → ¬SendFails p₁ e := by
  rw [loopOnce_run]
  have h := handleAll_slot_iff es (p.begun es)
  constructor
  · intro hsafe before e after p₁ hes hbefore hfails
    obtain ⟨p', hp'⟩ := h.2 ⟨before, e, after, p₁, hes, hbefore, hfails⟩
    exact hsafe p' hp'
  · intro hnone p' hp'
    obtain ⟨before, e, after, p₁, hes, hbefore, hfails⟩ := h.1 ⟨p', hp'⟩
    exact hnone before e after p₁ hes hbefore hfails

/-- A writable event for the stalled connection, whose peer has gone. -/
def resetEvent : PollEvent 1 :=
  { id := Table.front, birth := 0, read := false, write := true, recv := .eagain,
    mem := ⟨true, fun _ => 0⟩, onRecv := .done, send := .error, onSend := .done, accepts := [] }

theorem failing_send_slot : ¬ ∀ (n : Nat) (p : Poller n) (es : List (PollEvent n)),
    Reachable (fun _ _ => True) p → ∀ p', (loopOnce es).run p ≠ .error .slot p' := by
  intro h
  have hp : Reachable (fun _ _ => True) stalled :=
    .turn (t := .user stallScript) (.init Nat.one_pos) trivial stalled_returned
  have hrun : fault ((loopOnce [resetEvent]).run stalled) = some .slot := by decide +kernel
  exact h 1 stalled [resetEvent] hp _ (eq_error_of_fault hrun)

end ChainSocket.Poller
