import ChainSocket.MsgHub.Results

/-!
# Every connect attempt is settled once

* `runAll_timed`: `connectTimer` is armed as long as `connectTime` has an entry;
* `detectTimers_returns`, `detectTimers_pass`: its callbacks are run by `DetectTimers` as the timers
  have it;
* `getResult_returns`: and so they are in every `getResult` of a run;
* `attempts_settled`: after every run of calls.
-/

namespace ChainSocket

open Effect TimerManager

/-- `connectTimer` is armed, and goes round, as long as an attempt waits. -/
structure ConnectPoller.Timed (c : ConnectPoller) : Prop where
  good : c.tm.Good
  armed : (∃ x, c.tm.Armed () x) ↔ c.connectTime.isEmpty = false
  circle : c.connectTime.isEmpty = false →
    (c.tm.timers ()).timerType = .circle ∧ (c.tm.timers ()).interval = 10

namespace MsgHub

variable {n : Nat} {h h' : MsgHub n}

theorem waits_iff (h : MsgHub n) :
    h.connectPoller.connectTime.isEmpty = false ↔ ∃ fd e, h.Pending fd e := by
  rw [Std.TreeMap.isEmpty_eq_false_iff_exists_mem]
  apply exists_congr
  intro fd
  rw [Std.TreeMap.mem_iff_isSome_getElem?, Option.isSome_iff_exists]
  rfl

theorem init_timed (hn : 0 < n) (timers : Unit → Timer) : (init hn timers).connectPoller.Timed := by
  refine ⟨fresh_good timers, ?_, ?_⟩
  · constructor
    · rintro ⟨x, hx⟩
      cases hx
    · intro he
      simp [init] at he
  · intro he
    simp [init] at he

theorem pend_timed (ht : h.connectPoller.Timed) (fd : Nat) (e : Connecting) (startTick : Nat) :
    (h.pend fd e startTick).connectPoller.Timed := by
  have hfull : (h.pend fd e startTick).connectPoller.connectTime.isEmpty = false := by
    simp [pend]
  cases hempty : h.connectPoller.connectTime.isEmpty with
  | true =>
    have htm : (h.pend fd e startTick).connectPoller.tm =
        h.connectPoller.tm.start () 10 .circle startTick := by
      simp [pend, hempty]
    obtain ⟨hgood, hcore, -, harmed⟩ := start_good ht.good () 10 .circle startTick
    refine ⟨?_, ?_, fun _ => ?_⟩
    · rwa [htm]
    · rw [htm]
      exact iff_of_true ⟨_, (harmed () _).2 (.inl ⟨rfl, rfl⟩)⟩ hfull
    · rw [htm]
      exact ⟨congrArg Prod.fst hcore, congrArg (·.2.1) hcore⟩
  | false =>
    have htm : (h.pend fd e startTick).connectPoller.tm = h.connectPoller.tm := by
      simp [pend, hempty]
    refine ⟨?_, ?_, fun _ => ?_⟩
    · rw [htm]
      exact ht.good
    · rw [htm]
      exact iff_of_true (ht.armed.2 hempty) hfull
    · rw [htm]
      exact ht.circle hempty

theorem checkEach_tm (c : Check) (entries : List (Nat × Connecting)) (h : MsgHub n) :
    (entries.foldl (checkStatus c) h).connectPoller.tm = h.connectPoller.tm := by
  induction entries generalizing h with
  | nil => rfl
  | cons p entries ih =>
    apply (ih _).trans
    unfold checkStatus
    dsimp only
    split_ifs
    · rfl
    · cases c.status p.1 <;> rfl

/-- `checkAllStatus` stops the timer or leaves it. -/
theorem checkAllStatus_tm (h : MsgHub n) (c : Check) :
    (h.checkAllStatus c).connectPoller.connectTime.isEmpty = true ∧
      (h.checkAllStatus c).connectPoller.tm = h.connectPoller.tm.stop () ∨
    (h.checkAllStatus c).connectPoller.connectTime.isEmpty = false ∧
      (h.checkAllStatus c).connectPoller.tm = h.connectPoller.tm := by
  have hsame := checkEach_tm c h.connectPoller.connectTime.toList h
  unfold checkAllStatus
  dsimp only
  split_ifs with hempty
  · exact .inl ⟨hempty, congrArg (·.stop ()) hsame⟩
  · exact .inr ⟨Bool.eq_false_iff.2 hempty, hsame⟩

/-- `checkAllStatus` runs in the callback, with the timer armed again. -/
theorem checkAllStatus_timed (hgood : h.connectPoller.tm.Good)
    (harmed : ∃ x, h.connectPoller.tm.Armed () x)
    (hcircle : (h.connectPoller.tm.timers ()).timerType = .circle ∧
      (h.connectPoller.tm.timers ()).interval = 10) (c : Check) :
    (h.checkAllStatus c).connectPoller.Timed := by
  rcases checkAllStatus_tm h c with ⟨hempty, htm⟩ | ⟨hfull, htm⟩
  · obtain ⟨hstop, -, -, hrest⟩ := stop_good hgood ()
    have hnone : ¬ ∃ x, (h.connectPoller.tm.stop ()).Armed () x := by
      rintro ⟨x, hx⟩
      exact ((hrest () x).1 hx).1 rfl
    constructor
    · rwa [htm]
    · rw [htm, hempty]
      exact iff_of_false hnone Bool.noConfusion
    · rw [hempty]
      exact Bool.noConfusion
  · constructor
    · rwa [htm]
    · rw [htm]
      exact iff_of_true harmed hfull
    · rw [htm]
      exact fun _ => hcircle

theorem due_armed {now : Nat} (hdue : h.due now = true) :
    ∃ x, h.connectPoller.tm.Armed () x := by
  unfold due at hdue
  unfold Armed
  split at hdue
  · cases hdue
  · rename_i e _ heap
    refine ⟨e.time, ?_⟩
    rw [heap]
    exact List.mem_cons_self

theorem fire_timed {now : Nat} (ht : h.connectPoller.Timed) (hdue : h.due now = true) (c : Check) :
    ((h.fireTimer now).checkAllStatus c).connectPoller.Timed := by
  obtain ⟨y, hy⟩ := due_armed hdue
  have hcircle := ht.circle (ht.armed.1 ⟨y, hy⟩)
  obtain ⟨hgood, htypes, harmed⟩ := fire_good ht.good hy now
  apply checkAllStatus_timed hgood
  · exact ⟨_, (harmed () _).2 (.inr ⟨rfl, hcircle.1, rfl⟩)⟩
  · exact ⟨(htypes ()).1.trans hcircle.1, (htypes ()).2.trans hcircle.2⟩

/-- A timer that has fired is not due again before the clock goes on. -/
theorem fire_due {now : Nat} (ht : h.connectPoller.Timed) (hdue : h.due now = true)
    (hnow : now + 10 < 2 ^ 64) (c : Check) :
    ((h.fireTimer now).checkAllStatus c).due now = false := by
  obtain ⟨y, hy⟩ := due_armed hdue
  obtain ⟨hcircle, hinterval⟩ := ht.circle (ht.armed.1 ⟨y, hy⟩)
  obtain ⟨hgood, -, harmed⟩ := fire_good ht.good hy now
  have hlate : ∀ x, ((h.fireTimer now).checkAllStatus c).connectPoller.tm.Armed () x →
      now < x := by
    intro x hx
    have hfired : (h.connectPoller.tm.fire () now).Armed () x := by
      rcases checkAllStatus_tm (h.fireTimer now) c with ⟨-, htm⟩ | ⟨-, htm⟩
      · rw [htm] at hx
        exact (((stop_good hgood ()).2.2.2 () x).1 hx).2
      · rwa [htm] at hx
    rcases (harmed () x).1 hfired with ⟨hne, -⟩ | ⟨-, -, rfl⟩
    · exact absurd rfl hne
    · rw [hinterval, wrap64, Nat.mod_eq_of_lt (by omega)]
      omega
  by_contra hagain
  rw [Bool.not_eq_false] at hagain
  unfold due at hagain
  split at hagain
  · cases hagain
  · rename_i e _ heap
    have hlt := hlate e.time (by unfold Armed; rw [heap]; exact List.mem_cons_self)
    have hle := of_decide_eq_true hagain
    omega

theorem detectTimers_timed {now : Nat} {checks : List Check} (ht : h.connectPoller.Timed)
    (hrun : (detectTimers now checks).run h = .ok () h') : h'.connectPoller.Timed := by
  induction checks generalizing h with
  | nil =>
    unfold detectTimers at hrun
    rw [run_bind_ok (run_get h)] at hrun
    split_ifs at hrun
    · cases hrun
    · cases hrun
      exact ht
  | cons c rest ih =>
    unfold detectTimers at hrun
    rw [run_bind_ok (run_get h)] at hrun
    split_ifs at hrun with hdue
    · obtain ⟨_, h₁, hset, hrest⟩ := run_bind_inv hrun
      cases hset
      exact ih (fire_timed ht hdue c) hrest
    · cases hrun
      exact ht

/-- The loop is over after one check. -/
theorem detectTimers_returns {now : Nat} (ht : h.connectPoller.Timed) (hnow : now + 10 < 2 ^ 64)
    (c : Check) : ∃ h', (detectTimers now [c]).run h = .ok () h' := by
  have hover : ∀ g : MsgHub n, g.due now = false → (detectTimers now []).run g = .ok () g := by
    intro g hdue
    unfold detectTimers
    rw [run_bind_ok (run_get g), if_neg (by simp [hdue])]
    rfl
  unfold detectTimers
  rw [run_bind_ok (run_get h)]
  split_ifs with hdue
  · exact ⟨_, hover _ (fire_due ht hdue hnow c)⟩
  · exact ⟨h, rfl⟩

/-- The loop goes through the timers as `DetectTimers` does. -/
theorem detectTimers_pass {now : Nat} {checks : List Check}
    (hrun : (detectTimers now checks).run h = .ok () h') : ∃ callbacks,
      (h.connectPoller.tm.detectTimers now callbacks).manager = h'.connectPoller.tm ∧
      (h.connectPoller.tm.detectTimers now callbacks).wait.isSome = true := by
  have hover : ∀ g : MsgHub n, g.due now = false →
      (g.connectPoller.tm.detectTimers now []).manager = g.connectPoller.tm ∧
      (g.connectPoller.tm.detectTimers now []).wait.isSome = true := by
    intro g hdue
    unfold due at hdue
    unfold TimerManager.detectTimers
    split at hdue
    · rename_i heap
      simp [heap]
    · rename_i e _ heap
      simp [heap, of_decide_eq_false hdue]
  induction checks generalizing h with
  | nil =>
    unfold detectTimers at hrun
    rw [run_bind_ok (run_get h)] at hrun
    split_ifs at hrun with hdue
    · cases hrun
    · cases hrun
      exact ⟨[], hover _ (Bool.eq_false_iff.2 hdue)⟩
  | cons c rest ih =>
    unfold detectTimers at hrun
    rw [run_bind_ok (run_get h)] at hrun
    split_ifs at hrun with hdue
    · obtain ⟨_, h₁, hset, hrest⟩ := run_bind_inv hrun
      cases hset
      obtain ⟨callbacks, hmanager, hwait⟩ := ih hrest
      -- the callback stops the timer, or asks nothing of the manager
      have hops : ∃ ops : List (TimerOp Unit),
          ((h.fireTimer now).checkAllStatus c).connectPoller.tm =
            ops.foldl TimerOp.apply (h.connectPoller.tm.fire () now) := by
        rcases checkAllStatus_tm (h.fireTimer now) c with ⟨-, htm⟩ | ⟨-, htm⟩
        · exact ⟨[.stop ()], htm⟩
        · exact ⟨[], htm⟩
      obtain ⟨ops, hops⟩ := hops
      refine ⟨ops :: callbacks, ?_⟩
      unfold due at hdue
      split at hdue
      · cases hdue
      · rename_i e _ heap
        unfold TimerManager.detectTimers
        simp only [heap, of_decide_eq_true hdue, if_true]
        rw [hops] at hmanager hwait
        exact ⟨hmanager, hwait⟩
    · cases hrun
      exact ⟨[], hover _ (Bool.eq_false_iff.2 hdue)⟩

/-! ## The calls and the timer -/

def KeepsTimed (m : MsgHubM n Unit) : Prop :=
  ∀ h h', h.connectPoller.Timed → m.run h = .ok () h' → h'.connectPoller.Timed

theorem onPoller_timed {α : Type} {m : PollerM n α} {x : α} (ht : h.connectPoller.Timed)
    (hrun : (onPoller m).run h = .ok x h') : h'.connectPoller.Timed := by
  obtain ⟨p, -, rfl⟩ := onPoller_inv hrun
  exact ht

theorem initConnected_timed {a fd : Nat} {ip : String} {port type : Int} {mem : Alloc}
    {callback : MsgHubM n Unit} (hcallback : KeepsTimed callback) :
    KeepsTimed (initConnected a fd ip port type mem callback) := by
  intro h h' ht hrun
  unfold initConnected at hrun
  rw [run_bind_ok (run_get h)] at hrun
  obtain ⟨_, h₁, hset, hinit⟩ := run_bind_inv hrun
  cases hset
  have hnote : (h.handOver a).connectPoller.Timed := ht
  obtain ⟨answer, h₂, hanswer, hrest⟩ := run_bind_inv hinit
  have ht₂ := onPoller_timed hnote hanswer
  cases answer with
  | none | some id =>
    dsimp only at hrest
    rw [run_bind_ok (run_modify _ h₂)] at hrest
    exact hcallback _ _ (by exact ht₂) hrest

theorem tryConnect_poller (h : MsgHub n) (a : Nat) (tried : TryConnect) :
    (h.tryConnect a tried).2.connectPoller = h.connectPoller := by
  cases tried <;> rfl

theorem connectTo_timed {ip : String} {port timeout : Int} {os : ConnectAnswer}
    {callback : MsgHubM n Unit} (hcallback : KeepsTimed callback) :
    KeepsTimed (connectTo ip port timeout os callback) := by
  intro h h' ht hrun
  unfold connectTo at hrun
  rw [run_bind_ok (run_get h)] at hrun
  dsimp only at hrun
  have hpoller := tryConnect_poller (h.begin ip port (limitTime os.msTick timeout))
    h.attempts.length os.tried
  generalize (h.begin ip port (limitTime os.msTick timeout)).tryConnect h.attempts.length
    os.tried = r at hrun hpoller
  obtain ⟨⟨ret, fd⟩, h₁⟩ := r
  have ht₁ : h₁.connectPoller.Timed := by
    rw [hpoller]
    exact ht
  dsimp only at hrun
  split_ifs at hrun
  · obtain ⟨_, h₂, hset, hrest⟩ := run_bind_inv hrun
    cases hset
    exact initConnected_timed hcallback _ _ ht₁ hrest
  · obtain ⟨_, h₂, hset, hrest⟩ := run_bind_inv hrun
    cases hset
    exact hcallback _ _ (by exact ht₁) hrest
  · cases hrun
    exact pend_timed ht₁ ..

theorem call_timed (c : MsgHubCall n) (replies : List (ConnectAnswer × MsgHubM n Unit))
    (hreplies : ∀ r ∈ replies, KeepsTimed r.2) : KeepsTimed (call c replies) := by
  intro h h' ht hrun
  cases c with
  | poller script => exact onPoller_timed ht hrun
  | connectTo ip port timeout =>
    cases replies with
    | nil =>
      cases hrun
      exact ht
    | cons r rest =>
      unfold call at hrun
      rw [run_bind_ok (run_get h)] at hrun
      split_ifs at hrun
      · exact connectTo_timed (hreplies _ List.mem_cons_self) _ _ ht hrun
      · cases hrun
        exact ht

theorem keepsTimed_pure : KeepsTimed (pure () : MsgHubM n Unit) := by
  intro h h' ht hrun
  cases hrun
  exact ht

theorem keepsTimed_seq {x y : MsgHubM n Unit} (hx : KeepsTimed x) (hy : KeepsTimed y) :
    KeepsTimed (do x; y) := by
  intro h h' ht hrun
  obtain ⟨_, h₁, hfirst, hrest⟩ := run_bind_inv hrun
  exact hy h₁ h' (hx h h₁ ht hfirst) hrest

theorem run_timed (script : MsgHubScript n) : KeepsTimed (run script) :=
  Reentrant.Script.run_rule keepsTimed_pure (fun _ _ => keepsTimed_seq) call_timed script

theorem processConnectSockets_timed (eventMap : List (Nat × SockInfo))
    {replies : List (Alloc × MsgHubM n Unit)} (hreplies : ∀ r ∈ replies, KeepsTimed r.2) :
    KeepsTimed (processConnectSockets eventMap replies) := by
  induction eventMap generalizing replies with
  | nil => exact keepsTimed_pure
  | cons p eventMap ih =>
    intro h h' ht hrun
    obtain ⟨fd, E⟩ := p
    unfold processConnectSockets at hrun
    dsimp only at hrun
    have hcallback : KeepsTimed (replies.head?.getD (⟨true, fun _ => 0⟩, pure ())).2 := by
      cases replies with
      | nil => exact keepsTimed_pure
      | cons r _ => exact hreplies r List.mem_cons_self
    have htail : ∀ r ∈ replies.tail, KeepsTimed r.2 :=
      fun r hr => hreplies r (List.mem_of_mem_tail hr)
    split_ifs at hrun
    · obtain ⟨_, h₁, hinit, hmore⟩ := run_bind_inv hrun
      exact ih htail _ _ (initConnected_timed hcallback _ _ ht hinit) hmore
    · rw [run_bind_ok (run_modify _ h)] at hrun
      obtain ⟨_, h₁, hreport, hmore⟩ := run_bind_inv hrun
      exact ih htail _ _ (hcallback _ _ (by exact ht) hreport) hmore

theorem waitMsg_timed (w : WaitMsg n) : KeepsTimed (waitMsg w) := by
  intro h h' ht hrun
  unfold waitMsg at hrun
  obtain ⟨rt, h₁, hget, hrest⟩ := run_bind_inv hrun
  unfold getResult at hget
  rw [run_bind_ok (run_modify _ h)] at hget
  obtain ⟨_, h₂, hdetect, hlast⟩ := run_bind_inv hget
  cases hlast
  have hclear : h.clearResults.connectPoller.Timed := ⟨ht.good, ht.armed, ht.circle⟩
  obtain ⟨_, h₃, hprocess, hloop⟩ := run_bind_inv hrest
  have hreplies : ∀ r ∈ w.replies.map (fun r => (r.1, run r.2)), KeepsTimed r.2 := by
    intro r hr
    obtain ⟨s, -, rfl⟩ := List.mem_map.1 hr
    exact run_timed s.2
  have ht₃ := processConnectSockets_timed _ hreplies _ _ (detectTimers_timed hclear hdetect)
    hprocess
  exact onPoller_timed ht₃ hloop

theorem runAll_timed (es : List (MsgHubEvent n)) : KeepsTimed (runAll es) := by
  induction es with
  | nil => exact keepsTimed_pure
  | cons e es ih =>
    apply keepsTimed_seq _ ih
    cases e with
    | waitMsg w => exact waitMsg_timed w
    | call c replies =>
      exact call_timed c _ (Reentrant.Replies.handlers_rule keepsTimed_pure
        (fun _ _ => keepsTimed_seq) call_timed replies)

/-! ## Every run -/

/-- Wherever a run has come to, `getResult` returns after one check, and the timers have been gone
through as `DetectTimers` does. -/
theorem getResult_returns (hn : 0 < n) (timers : Unit → Timer) (es : List (MsgHubEvent n))
    (hrun : (runAll es).run (init hn timers) = .ok () h) {now : Nat} (hnow : now + 10 < 2 ^ 64)
    (c : Check) : ∃ rt h' callbacks, (getResult now [c]).run h = .ok rt h' ∧
      (h.connectPoller.tm.detectTimers now callbacks).manager = h'.connectPoller.tm ∧
      (h.connectPoller.tm.detectTimers now callbacks).wait.isSome = true := by
  have ht := runAll_timed es _ _ (init_timed hn timers) hrun
  have hclear : h.clearResults.connectPoller.Timed := ⟨ht.good, ht.armed, ht.circle⟩
  obtain ⟨h', hdetect⟩ := detectTimers_returns hclear hnow c
  obtain ⟨callbacks, hmanager, hwait⟩ := detectTimers_pass hdetect
  refine ⟨h'.connectPoller.resultMap.toList, h', callbacks, ?_, hmanager, hwait⟩
  unfold getResult
  rw [run_bind_ok (run_modify _ h), run_bind_ok hdetect]
  rfl

/-- After every run of calls, an attempt waits in `connectTime` and has not been reported, or it has
been reported once, to its own address; and `connectTimer` is armed where an attempt waits. -/
theorem attempts_settled (hn : 0 < n) (timers : Unit → Timer) (es : List (MsgHubEvent n))
    {h : MsgHub n} (hrun : (runAll es).run (init hn timers) = .ok () h) :
    (∀ a t, h.attempts[a]? = some t →
      ((∃ fd, h.Pending fd ⟨t.limitTime, t.ip, t.port, a⟩) ∧ t.reports = []) ∨
      ((∀ fd e, h.Pending fd e → e.attempt ≠ a) ∧
        ∃ r, t.reports = [r] ∧ r.ip = t.ip ∧ r.port = t.port)) ∧
    ((∃ x, h.connectPoller.tm.Armed () x) ↔ ∃ fd e, h.Pending fd e) := by
  have hI := runAll_inv (init_inv hn timers) hrun
  constructor
  · intro a t ht
    rcases hI.placed a t ht nofun with ⟨fd, e, he, rfl⟩ | ⟨fd, r, hr, -⟩ | ⟨hreported, -⟩
    · obtain ⟨-, t', ht', hof⟩ := hI.pending fd e he
      rw [ht] at ht'
      cases ht'
      refine .inl ⟨⟨fd, ?_⟩, hof.waiting.reports⟩
      rw [← hof.limitTime, ← hof.ip, ← hof.port]
      exact he
    · exact hr.elim
    · refine .inr ⟨?_, hreported⟩
      rintro fd e he rfl
      obtain ⟨-, t', ht', hof⟩ := hI.pending fd e he
      rw [ht] at ht'
      cases ht'
      obtain ⟨r, hr, -⟩ := hreported
      rw [hof.waiting.reports] at hr
      cases hr
  · exact (runAll_timed es _ _ (init_timed hn timers) hrun).armed.trans h.waits_iff

def inProgress (tick : Nat) : ConnectAnswer := ⟨.inProgress 5, tick, tick, ⟨true, fun _ => 0⟩⟩

/-- The time of an attempt runs out, and `onConnectFailed` tries again; the new socket gets the
descriptor of the one that has been closed. -/
def retry : List (MsgHubEvent 1) :=
  [.call (.connectTo "::1" 80 10) (.reply (inProgress 100) .done .none),
    .waitMsg ⟨112, [⟨112, fun _ => .pending⟩],
      [(⟨true, fun _ => 0⟩,
        .call (.connectTo "::1" 81 10) (.reply (inProgress 112) .done .none) .done)], []⟩]

def retried : MsgHub 1 :=
  final ((runAll retry).run (init Nat.one_pos fun _ => ⟨.once, 0, 0, none⟩))

theorem attempts_settled_retry :
    (∀ fd e, retried.Pending fd e → e.attempt ≠ 0) ∧ ∃ x, retried.connectPoller.tm.Armed () x := by
  have hrun : (runAll retry).run (init Nat.one_pos fun _ => ⟨.once, 0, 0, none⟩) =
      .ok () retried := eq_ok_of_returns (by decide +kernel)
  obtain ⟨hsettled, harmed⟩ := attempts_settled Nat.one_pos _ retry hrun
  have hfirst : retried.attempts[0]?.map (·.reports.length) = some 1 := by decide +kernel
  have hsecond : retried.connectPoller.connectTime[5]? = some ⟨122, "::1", 81, 1⟩ := by
    decide +kernel
  obtain ⟨t, ht, hlength⟩ := Option.map_eq_some_iff.1 hfirst
  rcases hsettled 0 t ht with ⟨-, hnil⟩ | ⟨hgone, -⟩
  · rw [hnil] at hlength
    cases hlength
  · exact ⟨hgone, harmed.2 ⟨5, _, hsecond⟩⟩

end MsgHub

end ChainSocket
