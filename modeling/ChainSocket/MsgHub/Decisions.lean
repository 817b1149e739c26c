import ChainSocket.MsgHub.Settled

/-!
# What a waitMsg decides

* `checkAllStatus_checked`: a check takes up every attempt that waits, and decides it or leaves it;
* `Onward`: what calls and callbacks may still do to an attempt that is there;
* `waitMsg_decides`: in every state that a run reaches, a `waitMsg` decides each attempt that waits
  by its own time and its own socket, and says so in one callback.
-/

namespace ChainSocket

open Effect

variable {n : Nat}

/-- The `ret` of the result that a check has for a socket; `none` where it goes on waiting. -/
def Check.verdict (c : Check) (fd limitTime : Nat) : Option Int :=
  if limitTime < c.msTick then some (-1)
  else
    match c.status fd with
    | .pending => none
    | .connected => some 1
    | .failed => some (-1)

/-- What `onConnect` or `onConnectFailed` has made of a result. -/
def SockInfo.Outcome (r : SockInfo) (t : Attempt) : Prop :=
  if r.ret = 1 then
    (∃ birth, t.reports = [.onConnect birth r.ip r.port] ∧ t.session = some birth) ∨
      t.reports = [.onConnectFailed r.ip r.port 1] ∧ t.session = none ∧ t.exhausted = true
  else t.reports = [.onConnectFailed r.ip r.port r.ret] ∧ t.session = none ∧ t.closes = 1

/-- The attempt is what it was, but that `closeSession` may have closed the socket of its
session. -/
structure Attempt.Later (t t' : Attempt) : Prop where
  fields : t' = { t with closes := t'.closes }
  closes : t.session = none → t'.closes = t.closes

theorem Attempt.Later.refl (t : Attempt) : t.Later t := ⟨rfl, fun _ => rfl⟩

theorem Attempt.Later.same {t t' : Attempt} (h : t.Later t') (ht : t.session = none) : t' = t := by
  rw [h.fields, h.closes ht]

theorem Attempt.Later.session {t t' : Attempt} (h : t.Later t') : t'.session = t.session := by
  rw [h.fields]

theorem Attempt.Later.trans {t t' t'' : Attempt} (h : t.Later t') (h' : t'.Later t'') :
    t.Later t'' := by
  constructor
  · rw [h'.fields, h.fields]
  · intro ht
    exact (h'.closes (h.session.trans ht)).trans (h.closes ht)

theorem Attempt.follow_later (t : Attempt) (before after : Table n) :
    t.Later (t.follow before after) := by
  unfold Attempt.follow
  split_ifs with hclosed
  · refine ⟨rfl, fun ht => ?_⟩
    obtain ⟨birth, hbirth, -⟩ := hclosed
    rw [ht] at hbirth
    cases hbirth
  · exact .refl t

/-- An outcome stays. -/
theorem SockInfo.Outcome.later {r : SockInfo} {t t' : Attempt} (h : r.Outcome t)
    (ht : t.Later t') : r.Outcome t' := by
  unfold SockInfo.Outcome at h ⊢
  split_ifs at h ⊢ with hret
  · rw [ht.fields]
    exact h
  · rw [ht.same h.2.1]
    exact h

namespace MsgHub

variable {hand : Option Nat} {R : Nat → SockInfo → Prop} {h h' h'' : MsgHub n} {a fd : Nat}
  {t : Attempt}

/-! ## The checks of connectTime -/

/-- A check takes `e` off `connectTime` where it has a verdict. -/
theorem checkStatus_poller (c : Check) (h : MsgHub n) (fd : Nat) (e : Connecting) :
    (checkStatus c h (fd, e)).connectPoller =
      (c.verdict fd e.limitTime).elim h.connectPoller
        fun ret => (h.decided fd e ret).connectPoller := by
  unfold checkStatus Check.verdict
  dsimp only
  split_ifs
  · rfl
  · cases c.status fd <;> rfl

/-- The maps have the same of the descriptor. -/
def SameAt (fd : Nat) (h h' : MsgHub n) : Prop :=
  (∀ e, h'.Pending fd e ↔ h.Pending fd e) ∧ ∀ r, h'.Results fd r ↔ h.Results fd r

theorem checkStatus_other (c : Check) {e : Connecting} {fd' : Nat} (hne : fd' ≠ fd) :
    SameAt fd' h (checkStatus c h (fd, e)) := by
  have hpoller := checkStatus_poller c h fd e
  unfold SameAt Pending Results
  rw [hpoller]
  cases c.verdict fd e.limitTime with
  | none => exact ⟨fun _ => Iff.rfl, fun _ => Iff.rfl⟩
  | some ret =>
    constructor
    · intro e'
      exact decided_pending.trans (and_iff_right hne)
    · intro r
      exact decided_results.trans ⟨fun hr => hr.elim (fun hl => absurd hl.1 hne) And.right,
        fun hr => .inr ⟨hne, hr⟩⟩

theorem checkEach_other (c : Check) {entries : List (Nat × Connecting)}
    (hfd : ∀ p ∈ entries, fd ≠ p.1) : SameAt fd h (entries.foldl (checkStatus c) h) := by
  induction entries generalizing h with
  | nil => exact ⟨fun _ => Iff.rfl, fun _ => Iff.rfl⟩
  | cons p entries ih =>
    obtain ⟨hpending, hresults⟩ :=
      checkStatus_other c (h := h) (e := p.2) (hfd p List.mem_cons_self)
    obtain ⟨hpending', hresults'⟩ := ih (h := checkStatus c h p)
      fun q hq => hfd q (List.mem_cons_of_mem _ hq)
    exact ⟨fun e => (hpending' e).trans (hpending e), fun r => (hresults' r).trans (hresults r)⟩

/-- What a check makes of `connectTime` and `resultMap`. -/
structure Checked (c : Check) (h h' : MsgHub n) : Prop where
  pending : ∀ fd e, h'.Pending fd e ↔ h.Pending fd e ∧ c.verdict fd e.limitTime = none
  results : ∀ fd e ret, h.Pending fd e → c.verdict fd e.limitTime = some ret →
    h'.Results fd ⟨e.ip, e.port, ret, e.attempt⟩

theorem checkEach_self (c : Check) {entries : List (Nat × Connecting)} {e : Connecting}
    (hkeys : entries.Pairwise fun p q => p.1 ≠ q.1) (hmem : (fd, e) ∈ entries)
    (he : h.Pending fd e) :
    (∀ e', (entries.foldl (checkStatus c) h).Pending fd e' ↔
      e' = e ∧ c.verdict fd e.limitTime = none) ∧
    ∀ ret, c.verdict fd e.limitTime = some ret →
      (entries.foldl (checkStatus c) h).Results fd ⟨e.ip, e.port, ret, e.attempt⟩ := by
  induction entries generalizing h with
  | nil => cases hmem
  | cons p entries ih =>
    obtain ⟨hfirst, hrest⟩ := List.pairwise_cons.1 hkeys
    rcases List.mem_cons.1 hmem with rfl | hmem
    · obtain ⟨hpending, hresults⟩ := checkEach_other c (h := checkStatus c h (fd, e)) hfirst
      have hpoller := checkStatus_poller c h fd e
      constructor
      · intro e'
        apply (hpending e').trans
        unfold Pending
        rw [hpoller]
        cases c.verdict fd e.limitTime with
        | none =>
          have heq : h.connectPoller.connectTime[fd]? = some e := he
          simp [heq, eq_comm]
        | some ret =>
          refine iff_of_false (fun hp => (decided_pending.1 hp).1 rfl) ?_
          rintro ⟨-, hnone⟩
          cases hnone
      · intro ret hret
        refine (hresults _).2 ?_
        unfold Results
        rw [hpoller, hret]
        exact decided_results.2 (.inl ⟨rfl, rfl⟩)
    · have hne : fd ≠ p.1 := (hfirst (fd, e) hmem).symm
      exact ih hrest hmem (((checkStatus_other c (h := h) (e := p.2) hne).1 e).2 he)

theorem checkAllStatus_checked (c : Check) (h : MsgHub n) : Checked c h (h.checkAllStatus c) := by
  have hmem : ∀ fd e, h.Pending fd e ↔ (fd, e) ∈ h.connectPoller.connectTime.toList :=
    fun _ _ => Std.TreeMap.mem_toList_iff_getElem?_eq_some.symm
  have hkeys := toList_keys h.connectPoller.connectTime
  have hchecked : Checked c h (h.connectPoller.connectTime.toList.foldl (checkStatus c) h) := by
    constructor
    · intro fd e
      by_cases hwaits : ∃ e', h.Pending fd e'
      · obtain ⟨e', he'⟩ := hwaits
        refine ((checkEach_self c hkeys ((hmem fd e').1 he') he').1 e).trans ?_
        constructor
        · rintro ⟨rfl, hnone⟩
          exact ⟨he', hnone⟩
        · rintro ⟨he, hnone⟩
          have hsame : some e' = some e := he'.symm.trans he
          cases hsame
          exact ⟨rfl, hnone⟩
      · have hother : ∀ p ∈ h.connectPoller.connectTime.toList, fd ≠ p.1 := by
          rintro p hp rfl
          exact hwaits ⟨p.2, (hmem _ _).2 hp⟩
        refine ((checkEach_other c hother).1 e).trans ?_
        exact ⟨fun he => absurd ⟨e, he⟩ hwaits, And.left⟩
    · intro fd e ret he
      exact (checkEach_self c hkeys ((hmem fd e).1 he) he).2 ret
  unfold checkAllStatus
  dsimp only
  split_ifs
  · exact ⟨hchecked.pending, hchecked.results⟩
  · exact hchecked

/-- `DetectTimers` makes no check, or one. -/
theorem detectTimers_once {now : Nat} {checks : List Check} (ht : h.connectPoller.Timed)
    (hnow : now + 10 < 2 ^ 64) (hrun : (detectTimers now checks).run h = .ok () h') :
    (h.due now = false ∧ h' = h) ∨
      (h.due now = true ∧ ∃ c rest, checks = c :: rest ∧
        h' = (h.fireTimer now).checkAllStatus c ∧ h'.due now = false) := by
  have hover : ∀ (g g' : MsgHub n) (rest : List Check), g.due now = false →
      (detectTimers now rest).run g = .ok () g' → g' = g := by
    intro g g' rest hdue hrest
    cases rest with
    | nil | cons =>
      unfold detectTimers at hrest
      rw [run_bind_ok (run_get g), if_neg (by simp [hdue])] at hrest
      cases hrest
      rfl
  cases hdue : h.due now with
  | false => exact .inl ⟨rfl, hover h h' checks hdue hrun⟩
  | true =>
    cases checks with
    | nil =>
      unfold detectTimers at hrun
      rw [run_bind_ok (run_get h), if_pos hdue] at hrun
      cases hrun
    | cons c rest =>
      unfold detectTimers at hrun
      rw [run_bind_ok (run_get h), if_pos hdue] at hrun
      obtain ⟨_, h₁, hset, hrest⟩ := run_bind_inv hrun
      cases hset
      have hlate := fire_due ht hdue hnow c
      obtain rfl := hover _ h' rest hlate hrest
      exact .inr ⟨rfl, c, rest, rfl, rfl, hlate⟩

/-! ## What goes on meanwhile -/

/-- What the code does for the attempt in hand, seen from the attempts that are there. -/
structure Onward (hand : Option Nat) (h h' : MsgHub n) : Prop where
  attempts : ∀ a t, h.attempts[a]? = some t → hand ≠ some a →
    ∃ t', h'.attempts[a]? = some t' ∧ t.Later t'
  pending : ∀ fd e, h.Pending fd e → h'.Pending fd e

theorem Onward.refl (h : MsgHub n) : Onward hand h h :=
  ⟨fun _ t ht _ => ⟨t, ht, .refl t⟩, fun _ _ he => he⟩

theorem Onward.trans (ho : Onward hand h h') (ho' : Onward hand h' h'') : Onward hand h h'' := by
  constructor
  · intro a t ht ha
    obtain ⟨t', ht', hlater⟩ := ho.attempts a t ht ha
    obtain ⟨t'', ht'', hlater'⟩ := ho'.attempts a t' ht' ha
    exact ⟨t'', ht'', hlater.trans hlater'⟩
  · exact fun fd e he => ho'.pending fd e (ho.pending fd e he)

theorem Onward.aside (ho : Onward none h h') : Onward hand h h' :=
  ⟨fun a t ht _ => ho.attempts a t ht nofun, ho.pending⟩

/-- An attempt in hand that has just begun is none of those that were there. -/
theorem Onward.begun (ho : Onward (some h.attempts.length) h h') : Onward none h h' := by
  refine ⟨fun a t ht _ => ho.attempts a t ht ?_, ho.pending⟩
  rintro heq
  cases heq
  obtain ⟨hlt, -⟩ := List.getElem?_eq_some_iff.1 ht
  exact Nat.lt_irrefl _ hlt

theorem Onward.of_note (f : Attempt → Attempt) (ha : h'.attempts = h.attempts.modify a f)
    (hc : h'.connectPoller.connectTime = h.connectPoller.connectTime) :
    Onward (some a) h h' := by
  constructor
  · intro b t ht hb
    refine ⟨t, ?_, .refl t⟩
    rw [ha]
    exact (note_other (h := h) f hb).trans ht
  · intro fd e he
    unfold Pending
    rw [hc]
    exact he

theorem Onward.of_same (ha : h'.attempts = h.attempts)
    (hc : h'.connectPoller.connectTime = h.connectPoller.connectTime) : Onward hand h h' := by
  constructor
  · intro b t ht _
    exact ⟨t, by rw [ha]; exact ht, .refl t⟩
  · intro fd e he
    unfold Pending
    rw [hc]
    exact he

theorem onPoller_onward {α : Type} {m : PollerM n α} {x : α}
    (hrun : (onPoller m).run h = .ok x h') : Onward hand h h' := by
  obtain ⟨p, -, rfl⟩ := onPoller_inv hrun
  constructor
  · intro a t ht _
    refine ⟨t.follow h.toTable p.toTable, ?_, t.follow_later _ _⟩
    exact (List.getElem?_map ..).trans (congrArg _ ht)
  · exact fun fd e he => he

theorem begin_onward (h : MsgHub n) (ip : String) (port : Int) (limit : Nat) :
    Onward none h (h.begin ip port limit) := by
  refine ⟨fun a t ht _ => ⟨t, ?_, .refl t⟩, fun fd e he => he⟩
  obtain ⟨hlt, -⟩ := List.getElem?_eq_some_iff.1 ht
  exact (List.getElem?_append_left hlt).trans ht

theorem tryConnect_onward (h : MsgHub n) (a : Nat) (tried : TryConnect) :
    Onward (some a) h (h.tryConnect a tried).2 := by
  have hopen : ∀ fd, Onward (some a) h (h.openSocket a fd) := fun fd => .of_note _ rfl rfl
  cases tried with
  | noSocket => exact .refl h
  | refused fd => exact (hopen fd).trans (.of_note _ rfl rfl)
  | inProgress fd => exact hopen fd
  | connected fd => exact hopen fd

/-- The program keeps every attempt in its place, and those that wait go on waiting. -/
def Proceeds (m : MsgHubM n Unit) : Prop :=
  ∀ R h h', Inv none R h → m.run h = .ok () h' → Inv none R h' ∧ Onward none h h'

theorem Proceeds.keeps {m : MsgHubM n Unit} (hm : Proceeds m) : Keeps m :=
  fun R h h' hI hrun => (hm R h h' hI hrun).1

theorem proceeds_pure : Proceeds (pure () : MsgHubM n Unit) := by
  intro R h h' hI hrun
  cases hrun
  exact ⟨hI, .refl h⟩

theorem proceeds_seq {x y : MsgHubM n Unit} (hx : Proceeds x) (hy : Proceeds y) :
    Proceeds (do x; y) := by
  intro R h h' hI hrun
  obtain ⟨_, h₁, hfirst, hrest⟩ := run_bind_inv hrun
  obtain ⟨hI₁, ho₁⟩ := hx R h h₁ hI hfirst
  obtain ⟨hI', ho'⟩ := hy R h₁ h' hI₁ hrest
  exact ⟨hI', ho₁.trans ho'⟩

/-- A callback is the last thing that a program does. -/
structure CalledLast (m : MsgHubM n Unit → MsgHubM n Unit) : Prop where
  split : ∀ callback h h', (m callback).run h = .ok () h' →
    ∃ h₁, (m (pure ())).run h = .ok () h₁ ∧ (callback.run h₁ = .ok () h' ∨ h' = h₁)

/-- What such a program does, and then the callback. -/
theorem CalledLast.proceeds {m : MsgHubM n Unit → MsgHubM n Unit} (hlast : CalledLast m)
    {callback : MsgHubM n Unit} (hcallback : Proceeds callback) {h₁ : MsgHub n}
    (hI : ∀ g, (m (pure ())).run h = .ok () g → Inv none R g ∧ Onward hand h g)
    (hrun : (m callback).run h = .ok () h₁) : Inv none R h₁ ∧ Onward hand h h₁ := by
  obtain ⟨g, hfirst, hthen | rfl⟩ := hlast.split callback h h₁ hrun
  · obtain ⟨hI₁, ho₁⟩ := hI g hfirst
    obtain ⟨hI', ho'⟩ := hcallback R g h₁ hI₁ hthen
    exact ⟨hI', ho₁.trans ho'.aside⟩
  · exact hI _ hfirst

theorem initConnected_last (a fd : Nat) (ip : String) (port type : Int) (mem : Alloc) :
    CalledLast (n := n) (initConnected a fd ip port type mem) := by
  constructor
  intro callback h h' hrun
  unfold initConnected at hrun ⊢
  rw [run_bind_ok (run_get h)] at hrun ⊢
  obtain ⟨_, h₁, hset, hinit⟩ := run_bind_inv hrun
  rw [run_bind_ok hset]
  obtain ⟨answer, h₂, hanswer, hrest⟩ := run_bind_inv hinit
  rw [run_bind_ok hanswer]
  cases answer with
  | none | some id =>
    dsimp only at hrest ⊢
    rw [run_bind_ok (run_modify _ h₂)] at hrest ⊢
    exact ⟨_, rfl, .inl hrest⟩

theorem connectTo_last (ip : String) (port timeout : Int) (os : ConnectAnswer) :
    CalledLast (n := n) (connectTo ip port timeout os) := by
  constructor
  intro callback h h' hrun
  unfold connectTo at hrun ⊢
  rw [run_bind_ok (run_get h)] at hrun ⊢
  dsimp only at hrun ⊢
  split_ifs at hrun ⊢
  · obtain ⟨_, h₁, hset, hinit⟩ := run_bind_inv hrun
    rw [run_bind_ok hset]
    exact (initConnected_last ..).split callback h₁ h' hinit
  · obtain ⟨_, h₁, hset, hrest⟩ := run_bind_inv hrun
    rw [run_bind_ok hset]
    exact ⟨h₁, rfl, .inl hrest⟩
  · cases hrun
    exact ⟨_, rfl, .inr rfl⟩

/-! ## A connected socket gets a session -/

/-- What `initConnected` does up to its callback. -/
theorem initConnected_outcome {ip : String} {port type : Int} {mem : Alloc}
    (ht : h.attempts[a]? = some t) (hw : t.Waiting)
    (hrun : (initConnected a fd ip port type mem (pure ())).run h = .ok () h') :
    Onward (some a) h h' ∧ ∃ t', h'.attempts[a]? = some t' ∧
      ((∃ birth, t'.reports = [.onConnect birth ip port] ∧ t'.session = some birth) ∨
        t'.reports = [.onConnectFailed ip port type] ∧ t'.session = none ∧
          t'.exhausted = true) := by
  unfold initConnected at hrun
  rw [run_bind_ok (run_get h)] at hrun
  obtain ⟨_, h₁, hset, hrun⟩ := run_bind_inv hrun
  cases hset
  have hself : (h.handOver a).attempts[a]? =
      some { t with exhausted := decide (∀ id, (h.sessions id).isSome) } := note_self ht _
  have hnote : Onward (some a) h (h.handOver a) := .of_note _ rfl rfl
  obtain ⟨answer, h₁, hinit, hrest⟩ := run_bind_inv hrun
  rcases initNewSession_hand hinit with
    ⟨rfl, hfull, rfl⟩ | ⟨id, rfl, hfree, htable, hpoller, hattempts⟩
  · dsimp only at hrest
    rw [run_bind_ok (run_modify ..)] at hrest
    cases hrest
    refine ⟨hnote.trans (.of_note _ rfl rfl), _, note_self hself _, .inr ⟨?_, hw.session, ?_⟩⟩
    · exact congrArg (· ++ [.onConnectFailed ip port type]) hw.reports
    · rw [decide_eq_true_eq]
      intro id
      exact Option.isSome_iff_ne_none.2 (hfull id)
  · dsimp only at hrest
    rw [run_bind_ok (run_modify _ h₁)] at hrest
    cases hrest
    rw [← hattempts] at hself
    have hcreate : Onward (some a) (h.handOver a) h₁ := .of_same hattempts (by rw [hpoller])
    refine ⟨hnote.trans (hcreate.trans (.of_note _ rfl rfl)), _, note_self hself _,
      .inl ⟨h.births, ?_, rfl⟩⟩
    exact congrArg (· ++ [.onConnect h.births ip port]) hw.reports

theorem pend_onward (hfd : ∀ e, ¬ h.Pending fd e) (e : Connecting) (startTick : Nat) :
    Onward hand h (h.pend fd e startTick) := by
  refine ⟨fun a t ht _ => ⟨t, ht, .refl t⟩, fun fd' e' he' => ?_⟩
  refine pend_pending.2 (.inr ⟨?_, he'⟩)
  rintro rfl
  exact hfd e' he'

/-- The socket of an attempt that waits is open. -/
theorem Inv.open_pending (hI : Inv hand R h) (hfd : h.owner fd = none) (e : Connecting) :
    ¬ h.Pending fd e := by
  intro he
  obtain ⟨-, t, -, hof⟩ := hI.pending fd e he
  have howned := hof.held.owned
  rw [hfd] at howned
  cases howned

theorem connectTo_onward {ip : String} {port timeout : Int} {os : ConnectAnswer}
    (hI : Inv none R h) (hclosed : ∀ fd ∈ os.tried.sock, h.owner fd = none)
    (hrun : (connectTo ip port timeout os (pure ())).run h = .ok () h') : Onward none h h' := by
  have hbegin := begin_onward h ip port (limitTime os.msTick timeout)
  have hself := begin_self h ip port (limitTime os.msTick timeout)
  have htried := tryConnect_onward (h.begin ip port (limitTime os.msTick timeout))
    h.attempts.length os.tried
  unfold connectTo at hrun
  rw [run_bind_ok (run_get h)] at hrun
  dsimp only at hrun
  apply Onward.begun
  apply hbegin.aside.trans
  apply htried.trans
  cases hos : os.tried with
  | noSocket | refused fd =>
    simp only [hos, tryConnect] at hrun ⊢
    rw [if_neg (by decide), if_pos (by decide)] at hrun
    obtain ⟨_, h₁, hset, hrest⟩ := run_bind_inv hrun
    cases hset
    cases hrest
    exact .of_note _ rfl rfl
  | inProgress fd =>
    have hfd : h.owner fd = none := hclosed fd (by simp [hos, TryConnect.sock])
    simp only [hos, tryConnect] at hrun ⊢
    rw [if_neg (by decide), if_neg (by decide)] at hrun
    cases hrun
    have hwaits : ∀ e, ¬ ((h.begin ip port (limitTime os.msTick timeout)).openSocket
        h.attempts.length fd).Pending fd e := hI.open_pending hfd
    exact pend_onward hwaits _ os.startTick
  | connected fd =>
    simp only [hos, tryConnect] at hrun ⊢
    rw [if_pos trivial] at hrun
    obtain ⟨_, h₁, hset, hrest⟩ := run_bind_inv hrun
    cases hset
    exact (initConnected_outcome (openSocket_self hself fd) ⟨rfl, rfl, rfl⟩ hrest).1

theorem call_proceeds (c : MsgHubCall n) (replies : List (ConnectAnswer × MsgHubM n Unit))
    (hreplies : ∀ r ∈ replies, Proceeds r.2) : Proceeds (call c replies) := by
  intro R h h' hI hrun
  refine ⟨call_keeps c replies (fun r hr => (hreplies r hr).keeps) R h h' hI hrun, ?_⟩
  cases c with
  | poller script => exact onPoller_onward hrun
  | connectTo ip port timeout =>
    cases replies with
    | nil =>
      cases hrun
      exact .refl h
    | cons r rest =>
      obtain ⟨os, callback⟩ := r
      unfold call at hrun
      rw [run_bind_ok (run_get h)] at hrun
      split_ifs at hrun with hclosed
      · have hsteps : ∀ g, (connectTo ip port timeout os (pure ())).run h = .ok () g →
            Inv none R g ∧ Onward none h g := by
          intro g hg
          exact ⟨connectTo_keeps ip port timeout os keeps_pure hI hclosed hg,
            connectTo_onward hI hclosed hg⟩
        exact ((connectTo_last ..).proceeds (hreplies _ List.mem_cons_self) hsteps hrun).2
      · cases hrun
        exact .refl h

theorem run_proceeds (script : MsgHubScript n) : Proceeds (run script) :=
  Reentrant.Script.run_rule proceeds_pure (fun _ _ => proceeds_seq) call_proceeds script

/-! ## The results are reported -/

/-- One result is reported, and then its callback runs. -/
def reportResult (fd : Nat) (E : SockInfo) (mem : Alloc) (callback : MsgHubM n Unit) :
    MsgHubM n Unit :=
  if E.ret = 1 then initConnected E.attempt fd E.ip E.port E.ret mem callback
  else do
    modify (·.onConnectFailed E.attempt E.ip E.port E.ret)
    callback

theorem reportResult_last (fd : Nat) (E : SockInfo) (mem : Alloc) :
    CalledLast (n := n) (reportResult fd E mem) := by
  constructor
  intro callback h h' hrun
  unfold reportResult at hrun ⊢
  split_ifs at hrun ⊢
  · exact (initConnected_last ..).split callback h h' hrun
  · rw [run_bind_ok (run_modify _ h)] at hrun ⊢
    exact ⟨_, rfl, .inl hrun⟩

/-- What is reported of a result. -/
theorem reportResult_outcome {E : SockInfo} {mem : Alloc} (ht : h.attempts[E.attempt]? = some t)
    (hof : E.Of h.toTable fd t)
    (hrun : (reportResult fd E mem (pure ())).run h = .ok () h') :
    Onward (some E.attempt) h h' ∧
      ∃ t', h'.attempts[E.attempt]? = some t' ∧ E.Outcome t' := by
  unfold reportResult at hrun
  unfold SockInfo.Outcome
  split_ifs at hrun with hret
  · rw [hret] at hrun
    obtain ⟨honward, t', ht', hout⟩ := initConnected_outcome ht hof.waiting hrun
    exact ⟨honward, t', ht', by rwa [if_pos hret]⟩
  · rw [run_bind_ok (run_modify _ h)] at hrun
    cases hrun
    refine ⟨.of_note _ rfl rfl, _, note_self ht _, ?_⟩
    rw [if_neg hret]
    refine ⟨?_, hof.waiting.session, hof.failed hret⟩
    exact congrArg (· ++ [.onConnectFailed E.ip E.port E.ret]) hof.waiting.reports

/-- The attempts that no result is of go on, and every result is reported. -/
structure Reporting (eventMap : List (Nat × SockInfo)) (h h' : MsgHub n) : Prop where
  others : ∀ a t, h.attempts[a]? = some t → (∀ p ∈ eventMap, p.2.attempt ≠ a) →
    ∃ t', h'.attempts[a]? = some t' ∧ t.Later t'
  pending : ∀ fd e, h.Pending fd e → h'.Pending fd e
  outcomes : ∀ p ∈ eventMap, ∃ t', h'.attempts[p.2.attempt]? = some t' ∧ p.2.Outcome t'

theorem reportResult_inv {E : SockInfo} {mem : Alloc} (hI : Inv (some E.attempt) R h)
    (ht : h.attempts[E.attempt]? = some t) (hof : E.Of h.toTable fd t)
    (hrun : (reportResult fd E mem (pure ())).run h = .ok () h') : Inv none R h' := by
  unfold reportResult at hrun
  split_ifs at hrun with hret
  · rw [hof.ip, hof.port] at hrun
    obtain ⟨hcloses, hheld⟩ := hof.connected hret
    exact initConnected_inv hI ht hof.waiting hof.sock hcloses hheld keeps_pure hrun
  · rw [run_bind_ok (run_modify _ h)] at hrun
    cases hrun
    refine hI.report ht _ ?_ ?_
    · exact hof.waiting.reported _ (.onConnectFailed E.ip E.port E.ret) rfl hof.ip hof.port
    · exact .closed hof.sock hof.waiting.session hof.waiting.exhausted (hof.failed hret)

theorem reportResult_step {E : SockInfo} {mem : Alloc} {callback : MsgHubM n Unit}
    (hcallback : Proceeds callback) (hI : Inv (some E.attempt) R h)
    (ht : h.attempts[E.attempt]? = some t) (hof : E.Of h.toTable fd t)
    (hrun : (reportResult fd E mem callback).run h = .ok () h') :
    Inv none R h' ∧ Onward (some E.attempt) h h' ∧
      ∃ t', h'.attempts[E.attempt]? = some t' ∧ E.Outcome t' := by
  obtain ⟨g, hfirst, hthen⟩ := (reportResult_last fd E mem).split callback h h' hrun
  have hg := reportResult_inv hI ht hof hfirst
  obtain ⟨hgo, t₁, ht₁, hout⟩ := reportResult_outcome ht hof hfirst
  rcases hthen with hthen | rfl
  · obtain ⟨hI', ho'⟩ := hcallback R g h' hg hthen
    obtain ⟨t', ht', hlater⟩ := ho'.attempts _ t₁ ht₁ nofun
    exact ⟨hI', hgo.trans ho'.aside, t', ht', hout.later hlater⟩
  · exact ⟨hg, hgo, t₁, ht₁, hout⟩

theorem processConnectSockets_cons (fd : Nat) (E : SockInfo) (eventMap : List (Nat × SockInfo))
    (replies : List (Alloc × MsgHubM n Unit)) :
    processConnectSockets ((fd, E) :: eventMap) replies = (do
      reportResult fd E (replies.head?.getD (⟨true, fun _ => 0⟩, pure ())).1
        (replies.head?.getD (⟨true, fun _ => 0⟩, pure ())).2
      processConnectSockets eventMap replies.tail) := by
  rw [processConnectSockets]
  unfold reportResult
  dsimp only
  split_ifs
  · rfl
  · rfl

theorem processConnectSockets_reporting {eventMap : List (Nat × SockInfo)}
    {replies : List (Alloc × MsgHubM n Unit)} (hreplies : ∀ r ∈ replies, Proceeds r.2)
    (hkeys : eventMap.Pairwise fun p q => p.1 ≠ q.1)
    (hI : Inv none (fun fd r => (fd, r) ∈ eventMap) h)
    (hrun : (processConnectSockets eventMap replies).run h = .ok () h') :
    Reporting eventMap h h' := by
  induction eventMap generalizing h replies with
  | nil =>
    cases hrun
    exact ⟨fun a t ht _ => ⟨t, ht, .refl t⟩, fun fd e he => he, nofun⟩
  | cons p eventMap ih =>
    obtain ⟨fd, E⟩ := p
    obtain ⟨hfirst, hrest⟩ := List.pairwise_cons.1 hkeys
    rw [processConnectSockets_cons] at hrun
    obtain ⟨_, h₁, hreport, hmore⟩ := run_bind_inv hrun
    have hcallback : Proceeds (replies.head?.getD (⟨true, fun _ => 0⟩, pure ())).2 := by
      cases replies with
      | nil => exact proceeds_pure
      | cons r _ => exact hreplies r List.mem_cons_self
    have htail : ∀ r ∈ replies.tail, Proceeds r.2 :=
      fun r hr => hreplies r (List.mem_of_mem_tail hr)
    obtain ⟨-, t, ht, hof⟩ := hI.results fd E List.mem_cons_self
    have hhand := hI.next hfirst
    obtain ⟨hI₁, ho₁, t₁, ht₁, hout⟩ := reportResult_step hcallback hhand ht hof hreport
    have hmoreover := ih htail hrest hI₁ hmore
    constructor
    case others =>
      intro a u hu ha
      have hne : some E.attempt ≠ some a := by
        intro heq
        injection heq with heq
        exact ha (fd, E) List.mem_cons_self heq
      obtain ⟨u₁, hu₁, hlater₁⟩ := ho₁.attempts a u hu hne
      obtain ⟨u', hu', hlater'⟩ := hmoreover.others a u₁ hu₁
        fun q hq => ha q (List.mem_cons_of_mem _ hq)
      exact ⟨u', hu', hlater₁.trans hlater'⟩
    case pending => exact fun fd' e he => hmoreover.pending fd' e (ho₁.pending fd' e he)
    case outcomes =>
      intro q hq
      rcases List.mem_cons.1 hq with rfl | hq
      · -- no other result is of the same attempt
        have hothers : ∀ q ∈ eventMap, q.2.attempt ≠ E.attempt := by
          intro q hq heq
          exact (hhand.results q.1 q.2 hq).1 (congrArg some heq.symm)
        obtain ⟨t', ht', hlater⟩ := hmoreover.others E.attempt t₁ ht₁ hothers
        exact ⟨t', ht', hout.later hlater⟩
      · exact hmoreover.outcomes q hq

/-! ## A waitMsg -/

end MsgHub

/-- The `ret` that a `waitMsg` finds for a socket that waits; `none` where it leaves it waiting. -/
def WaitMsg.verdict (w : WaitMsg n) (h : MsgHub n) (fd limitTime : Nat) : Option Int :=
  if h.due w.now then w.checks.head?.bind fun c => c.verdict fd limitTime else none

/-- `connectTime` has all there is to say of an attempt that waits. -/
theorem Connecting.Of.unique {table table' : Table n} {fd : Nat} {e : Connecting} {t t' : Attempt}
    (h : e.Of table fd t) (h' : e.Of table' fd t') : t = t' := by
  cases t
  cases t'
  obtain ⟨⟨rfl, rfl, rfl⟩, rfl, rfl, rfl, rfl, rfl, -⟩ := h
  obtain ⟨⟨rfl, rfl, rfl⟩, hlimit, hip, hport, hsock, hcloses, -⟩ := h'
  cases hlimit
  cases hip
  cases hport
  cases hsock
  cases hcloses
  rfl

theorem SockInfo.Outcome.reported {r : SockInfo} {t : Attempt} (h : r.Outcome t) :
    t.reports ≠ [] := by
  unfold SockInfo.Outcome at h
  split_ifs at h
  · rcases h with ⟨birth, hreports, -⟩ | ⟨hreports, -⟩
    · simp [hreports]
    · simp [hreports]
  · simp [h.1]

namespace MsgHub

/-- What `getResult` hands over of an attempt that waits. -/
theorem getResult_verdict {w : WaitMsg n} {rt : List (Nat × SockInfo)}
    (ht : h.connectPoller.Timed) (hnow : w.now + 10 < 2 ^ 64)
    (hrun : (getResult w.now w.checks).run h = .ok rt h') {e : Connecting}
    (he : h.Pending fd e) :
    (w.verdict h fd e.limitTime = none → h'.Pending fd e) ∧
    ∀ ret, w.verdict h fd e.limitTime = some ret → (fd, ⟨e.ip, e.port, ret, e.attempt⟩) ∈ rt := by
  unfold getResult at hrun
  rw [run_bind_ok (run_modify _ h)] at hrun
  obtain ⟨_, h₁, hdetect, hrest⟩ := run_bind_inv hrun
  cases hrest
  have hclear : h.clearResults.connectPoller.Timed := ⟨ht.good, ht.armed, ht.circle⟩
  unfold WaitMsg.verdict
  rcases detectTimers_once hclear hnow hdetect with
    ⟨hdue, rfl⟩ | ⟨hdue, c, rest, hchecks, rfl, -⟩
  · have hdue' : h.due w.now = false := hdue
    rw [hdue']
    exact ⟨fun _ => he, nofun⟩
  · have hdue' : h.due w.now = true := hdue
    have hchecked := checkAllStatus_checked c (h.clearResults.fireTimer w.now)
    rw [if_pos hdue', hchecks]
    constructor
    · exact fun hnone => (hchecked.pending fd e).2 ⟨he, hnone⟩
    · intro ret hret
      exact Std.TreeMap.mem_toList_iff_getElem?_eq_some.2 (hchecked.results fd e ret he hret)

/-- In every state that a run reaches, a `waitMsg` leaves an attempt waiting that is within its time
and whose socket is pending, or where `connectTimer` is not due; every other it decides by the
attempt's own limit and socket, and makes one callback for it that says so. -/
theorem waitMsg_decides (hn : 0 < n) (timers : Unit → Timer) (es : List (MsgHubEvent n))
    {h h' : MsgHub n} (hrun : (runAll es).run (init hn timers) = .ok () h) {w : WaitMsg n}
    (hnow : w.now + 10 < 2 ^ 64) (hwait : (waitMsg w).run h = .ok () h') {a fd : Nat} {t : Attempt}
    (ht : h.attempts[a]? = some t) (he : h.Pending fd ⟨t.limitTime, t.ip, t.port, a⟩) :
    (w.verdict h fd t.limitTime = none →
      h'.Pending fd ⟨t.limitTime, t.ip, t.port, a⟩ ∧ h'.attempts[a]? = some t) ∧
    ∀ ret, w.verdict h fd t.limitTime = some ret →
      (∀ fd e, h'.Pending fd e → e.attempt ≠ a) ∧
      ∃ t', h'.attempts[a]? = some t' ∧ SockInfo.Outcome ⟨t.ip, t.port, ret, a⟩ t' := by
  have hI := runAll_inv (init_inv hn timers) hrun
  have htimed := runAll_timed es _ _ (init_timed hn timers) hrun
  have hI' := waitMsg_inv hI hwait
  unfold waitMsg at hwait
  obtain ⟨rt, h₁, hget, hrest⟩ := run_bind_inv hwait
  obtain ⟨hleft, hdecided⟩ := getResult_verdict htimed hnow hget he
  obtain ⟨hresults, hkeys⟩ := getResult_inv hI hget
  obtain ⟨_, h₂, hprocess, hloop⟩ := run_bind_inv hrest
  have hreplies : ∀ r ∈ w.replies.map (fun r => (r.1, run r.2)), Proceeds r.2 := by
    intro r hr
    obtain ⟨s, -, rfl⟩ := List.mem_map.1 hr
    exact run_proceeds s.2
  have hreporting := processConnectSockets_reporting hreplies hkeys hresults hprocess
  have honward : Onward none h₂ h' := onPoller_onward hloop
  constructor
  · intro hnone
    have he' := honward.pending _ _ (hreporting.pending _ _ (hleft hnone))
    refine ⟨he', ?_⟩
    obtain ⟨-, u, hu, hof⟩ := hI.pending _ _ he
    obtain ⟨-, u', hu', hof'⟩ := hI'.pending _ _ he'
    rw [ht] at hu
    cases hu
    rw [hu', hof.unique hof']
  · intro ret hret
    obtain ⟨u, hu, hout⟩ := hreporting.outcomes _ (hdecided ret hret)
    obtain ⟨t', ht', hlater⟩ := honward.attempts _ u hu nofun
    refine ⟨?_, t', ht', hout.later hlater⟩
    rintro fd' e' he' rfl
    obtain ⟨-, v, hv, hof⟩ := hI'.pending _ _ he'
    rw [ht'] at hv
    cases hv
    exact (hout.later hlater).reported hof.waiting.reports

def connecting : List (MsgHubEvent 1) :=
  [.call (.connectTo "::1" 80 10) (.reply (inProgress 100) .done .none)]

def underway : MsgHub 1 :=
  final ((runAll connecting).run (init Nat.one_pos fun _ => ⟨.once, 0, 0, none⟩))

/-- The time has run out, and `onConnectFailed` tries again. -/
def overdue : WaitMsg 1 :=
  ⟨112, [⟨112, fun _ => .pending⟩], [(⟨true, fun _ => 0⟩,
    .call (.connectTo "::1" 81 10) (.reply (inProgress 112) .done .none) .done)], []⟩

theorem overdue_run :
    returns ((runAll connecting).run (init Nat.one_pos fun _ => ⟨.once, 0, 0, none⟩)) = true ∧
    returns ((waitMsg overdue).run underway) = true ∧
    underway.attempts[0]? = some ⟨"::1", 80, 110, some 5, [], none, false, 0⟩ ∧
    underway.connectPoller.connectTime[5]? = some ⟨110, "::1", 80, 0⟩ ∧
    overdue.verdict underway 5 110 = some (-1) := by
  decide +kernel

theorem waitMsg_decides_overdue : ∃ t', (final ((waitMsg overdue).run underway)).attempts[0]? =
    some t' ∧ SockInfo.Outcome ⟨"::1", 80, -1, 0⟩ t' := by
  obtain ⟨hrun, hwait, ht, he, hverdict⟩ := overdue_run
  exact ((waitMsg_decides Nat.one_pos _ connecting (eq_ok_of_returns hrun) (by decide)
    (eq_ok_of_returns hwait) ht he).2 (-1) hverdict).2

end MsgHub

end ChainSocket
