import ChainSocket.MsgHub.Decisions

/-!
# When the attempts are decided

* `Prompt`: `connectTimer` is never more than 10 ms after what the clock has shown, nor after the
  time of an attempt that waits;
* `run_prompt`: the calls and callbacks of a clock that goes on keep it so;
* `reported_in_time`: a `waitMsg` leaves no attempt waiting that was out of time 10 ms before it.
-/

namespace ChainSocket

open Effect TimerManager

variable {n : Nat}

/-- From `start` to `stop` the clock is read for the answers, and does not go back. The time that a
`connectTo` is given is not over before it returns. -/
inductive Clocked : Nat → List (MsgHubCall n × ConnectAnswer) → Nat → Prop
  | done {start stop : Nat} (le : start ≤ stop) : Clocked start [] stop
  | connectTo {ip : String} {port timeout : Int} {os : ConnectAnswer} {start stop : Nat}
      {rest : List (MsgHubCall n × ConnectAnswer)} (later : start ≤ os.msTick)
      (starts : os.msTick ≤ os.startTick) (given : os.startTick ≤ limitTime os.msTick timeout)
      (next : Clocked os.startTick rest stop) :
      Clocked start ((.connectTo ip port timeout, os) :: rest) stop
  | poller {script : PollerScript n} {os : ConnectAnswer} {start stop : Nat}
      {rest : List (MsgHubCall n × ConnectAnswer)} (next : Clocked start rest stop) :
      Clocked start ((.poller script, os) :: rest) stop

theorem Clocked.le {xs : List (MsgHubCall n × ConnectAnswer)} {start stop : Nat}
    (h : Clocked start xs stop) : start ≤ stop := by
  induction h with
  | done le => exact le
  | connectTo later starts given next ih => omega
  | poller next ih => exact ih

theorem Clocked.split {xs ys : List (MsgHubCall n × ConnectAnswer)} {start stop : Nat}
    (h : Clocked start (xs ++ ys) stop) : ∃ mid, Clocked start xs mid ∧ Clocked mid ys stop := by
  induction xs generalizing start with
  | nil => exact ⟨start, .done (Nat.le_refl start), h⟩
  | cons x xs ih =>
    cases h with
    | connectTo later starts given next =>
      obtain ⟨mid, hxs, hys⟩ := ih next
      exact ⟨mid, .connectTo later starts given hxs, hys⟩
    | poller next =>
      obtain ⟨mid, hxs, hys⟩ := ih next
      exact ⟨mid, .poller hxs, hys⟩

/-- What a top-level call reads from `start` to `stop`. -/
inductive MsgHub.MsgHubEvent.Clocked : Nat → MsgHub.MsgHubEvent n → Nat → Prop
  | call {c : MsgHubCall n} {replies : Reentrant.Replies (MsgHubCall n) ConnectAnswer}
      {start stop : Nat} (reads : ChainSocket.Clocked start (replies.exchanges c) stop) :
      Clocked start (.call c replies) stop
  | waitMsg {w : WaitMsg n} {start stop : Nat} (later : start ≤ w.now)
      (checks : ∀ c ∈ w.checks, w.now ≤ c.msTick)
      (reads : ChainSocket.Clocked w.now (w.replies.flatMap fun r => r.2.exchanges) stop) :
      Clocked start (.waitMsg w) stop

/-- What a run reads. -/
inductive RunClocked : Nat → List (MsgHub.MsgHubEvent n) → Nat → Prop
  | done {start stop : Nat} (le : start ≤ stop) : RunClocked start [] stop
  | next {start mid stop : Nat} {e : MsgHub.MsgHubEvent n} {es : List (MsgHub.MsgHubEvent n)}
      (first : e.Clocked start mid) (rest : RunClocked mid es stop) :
      RunClocked start (e :: es) stop

theorem MsgHub.MsgHubEvent.Clocked.le {e : MsgHub.MsgHubEvent n} {start stop : Nat}
    (h : e.Clocked start stop) : start ≤ stop := by
  cases h with
  | call reads => exact reads.le
  | waitMsg later checks reads => exact later.trans reads.le

theorem RunClocked.le {es : List (MsgHub.MsgHubEvent n)} {start stop : Nat}
    (h : RunClocked start es stop) : start ≤ stop := by
  induction h with
  | done le => exact le
  | next first rest ih => exact first.le.trans ih

/-- `connectTimer` goes off after `past`, and within 10 ms of `clock` and of the time of every
attempt that waits. -/
structure ConnectPoller.Prompt (c : ConnectPoller) (past clock : Nat) : Prop where
  timed : c.Timed
  late : ∀ x, c.tm.Armed () x → past < x
  soon : ∀ x, c.tm.Armed () x → x ≤ clock + 10
  before : ∀ (x fd : Nat) (e : Connecting), c.tm.Armed () x → c.connectTime[fd]? = some e →
    x ≤ e.limitTime + 10

theorem ConnectPoller.Prompt.mono {c : ConnectPoller} {past clock clock' : Nat}
    (h : c.Prompt past clock) (hle : clock ≤ clock') : c.Prompt past clock' :=
  { h with soon := fun x hx => (h.soon x hx).trans (Nat.add_le_add_right hle 10) }

namespace MsgHub

variable {h h' : MsgHub n} {past start stop : Nat}

/-! ## The passes -/

theorem not_due {now : Nat} (ht : h.connectPoller.Timed) (hdue : h.due now = false) {x : Nat}
    (hx : h.connectPoller.tm.Armed () x) : now < x := by
  unfold due at hdue
  unfold Armed at hx
  split at hdue
  · rename_i heap
    rw [heap] at hx
    cases hx
  · rename_i e _ heap
    have hfirst : e.time ≤ x := Sift.root_least ht.good.ordered (by rw [heap]; rfl) _ hx
    have hlate := of_decide_eq_false hdue
    omega

theorem detectTimers_prompt {now : Nat} {checks : List Check}
    (hp : h.connectPoller.Prompt past start) (hnow : start ≤ now) (hmax : now + 10 < 2 ^ 64)
    (hchecks : ∀ c ∈ checks, now ≤ c.msTick)
    (hrun : (detectTimers now checks).run h = .ok () h') : h'.connectPoller.Prompt now now := by
  have ht := hp.timed
  rcases detectTimers_once ht hmax hrun with ⟨hdue, rfl⟩ | ⟨hdue, c, rest, rfl, rfl, hlate⟩
  · exact ⟨ht, fun x hx => not_due ht hdue hx, (hp.mono hnow).soon, hp.before⟩
  · have ht' := fire_timed ht hdue c
    obtain ⟨y, hy⟩ := due_armed hdue
    obtain ⟨-, hinterval⟩ := ht.circle (ht.armed.1 ⟨y, hy⟩)
    obtain ⟨hgood, -, harmed⟩ := fire_good ht.good hy now
    -- the timer goes off again after 10 ms, or not at all
    have hnext : ∀ x, ((h.fireTimer now).checkAllStatus c).connectPoller.tm.Armed () x →
        x = now + 10 := by
      intro x hx
      have hfired : (h.connectPoller.tm.fire () now).Armed () x := by
        rcases checkAllStatus_tm (h.fireTimer now) c with ⟨-, htm⟩ | ⟨-, htm⟩
        · rw [htm] at hx
          exact (((stop_good hgood ()).2.2.2 () x).1 hx).2
        · rwa [htm] at hx
      rcases (harmed () x).1 hfired with ⟨hne, -⟩ | ⟨-, -, rfl⟩
      · exact absurd rfl hne
      · rw [hinterval, wrap64, Nat.mod_eq_of_lt (by omega)]
        omega
    constructor
    case timed => exact ht'
    case late => exact fun x hx => not_due ht' hlate hx
    case soon => exact fun x hx => Nat.le_of_eq (hnext x hx)
    case before =>
      intro x fd e hx he
      obtain ⟨-, hnone⟩ := ((checkAllStatus_checked c (h.fireTimer now)).pending fd e).1 he
      have hread := hchecks c List.mem_cons_self
      have hlimit : ¬ e.limitTime < c.msTick := by
        intro hover
        unfold Check.verdict at hnone
        rw [if_pos hover] at hnone
        cases hnone
      have heq := hnext x hx
      omega

/-! ## The calls and the timer -/

/-- The program ends as it begins, or with its callback, and leaves `connectPoller` as it is up to
there. -/
theorem initConnected_poller {a fd : Nat} {ip : String} {port type : Int} {mem : Alloc}
    {callback : MsgHubM n Unit}
    (hrun : (initConnected a fd ip port type mem callback).run h = .ok () h') :
    ∃ g, g.connectPoller = h.connectPoller ∧ callback.run g = .ok () h' := by
  unfold initConnected at hrun
  rw [run_bind_ok (run_get h)] at hrun
  obtain ⟨_, h₁, hset, hinit⟩ := run_bind_inv hrun
  cases hset
  obtain ⟨answer, h₂, hanswer, hrest⟩ := run_bind_inv hinit
  have hpoller : h₂.connectPoller = h.connectPoller := by
    obtain ⟨p, -, rfl⟩ := onPoller_inv hanswer
    rfl
  cases answer with
  | none | some id =>
    dsimp only at hrest
    rw [run_bind_ok (run_modify _ h₂)] at hrest
    refine ⟨_, ?_, hrest⟩
    exact hpoller

/-- A `connectTo` is reported at once, or comes to wait. -/
theorem connectTo_poller {ip : String} {port timeout : Int} {os : ConnectAnswer}
    {callback : MsgHubM n Unit}
    (hrun : (connectTo ip port timeout os callback).run h = .ok () h') :
    ∃ g : MsgHub n, g.connectPoller = h.connectPoller ∧
      (callback.run g = .ok () h' ∨ ∃ fd,
        h' = g.pend fd ⟨limitTime os.msTick timeout, ip, port, h.attempts.length⟩
          os.startTick) := by
  unfold connectTo at hrun
  rw [run_bind_ok (run_get h)] at hrun
  dsimp only at hrun
  have hpoller := tryConnect_poller (h.begin ip port (limitTime os.msTick timeout))
    h.attempts.length os.tried
  generalize (h.begin ip port (limitTime os.msTick timeout)).tryConnect h.attempts.length
    os.tried = r at hrun hpoller
  obtain ⟨⟨ret, fd⟩, h₁⟩ := r
  dsimp only at hrun
  split_ifs at hrun
  · obtain ⟨_, h₂, hset, hrest⟩ := run_bind_inv hrun
    cases hset
    obtain ⟨g, hg, hcallback⟩ := initConnected_poller hrest
    exact ⟨g, hg.trans hpoller, .inl hcallback⟩
  · obtain ⟨_, h₂, hset, hrest⟩ := run_bind_inv hrun
    cases hset
    refine ⟨_, ?_, .inl hrest⟩
    exact hpoller
  · cases hrun
    exact ⟨h₁, hpoller, .inr ⟨fd, rfl⟩⟩

theorem pend_prompt {fd : Nat} {e : Connecting} {startTick : Nat}
    (hp : h.connectPoller.Prompt past start) (hpast : past ≤ start) (hstart : start ≤ startTick)
    (hlimit : startTick ≤ e.limitTime) (hmax : startTick + 10 < 2 ^ 64) :
    (h.pend fd e startTick).connectPoller.Prompt past startTick := by
  have hwaits : ∀ fd' e', (h.pend fd e startTick).Pending fd' e' → e' = e ∨ h.Pending fd' e' := by
    intro fd' e' he'
    rcases pend_pending.1 he' with ⟨-, heq⟩ | ⟨-, hold⟩
    · exact .inl heq
    · exact .inr hold
  have htimed := pend_timed hp.timed fd e startTick
  cases hempty : h.connectPoller.connectTime.isEmpty with
  | true =>
    have htm : (h.pend fd e startTick).connectPoller.tm =
        h.connectPoller.tm.start () 10 .circle startTick := by
      simp [pend, hempty]
    -- the timer is new, and nothing has waited before
    have hnew : ∀ x, (h.pend fd e startTick).connectPoller.tm.Armed () x → x = startTick + 10 := by
      intro x hx
      rw [htm] at hx
      obtain ⟨-, -, -, harmed⟩ := start_good hp.timed.good () 10 .circle startTick
      rcases (harmed () x).1 hx with ⟨-, rfl⟩ | ⟨hne, -⟩
      · rw [wrap64, Nat.mod_eq_of_lt (by omega)]
        omega
      · exact absurd rfl hne
    constructor
    case timed => exact htimed
    case late =>
      intro x hx
      have heq := hnew x hx
      omega
    case soon => exact fun x hx => Nat.le_of_eq (hnew x hx)
    case before =>
      intro x fd' e' hx he'
      have heq := hnew x hx
      rcases hwaits fd' e' he' with rfl | hold
      · omega
      · have hfull := h.waits_iff.2 ⟨fd', e', hold⟩
        rw [hempty] at hfull
        cases hfull
  | false =>
    have htm : (h.pend fd e startTick).connectPoller.tm = h.connectPoller.tm := by
      simp [pend, hempty]
    constructor
    case timed => exact htimed
    case late =>
      rw [htm]
      exact hp.late
    case soon =>
      rw [htm]
      exact (hp.mono hstart).soon
    case before =>
      rw [htm]
      intro x fd' e' hx he'
      rcases hwaits fd' e' he' with rfl | hold
      · have hsoon := hp.soon x hx
        omega
      · exact hp.before x fd' e' hx hold

/-- The program keeps the timer prompt while the clock is read for these answers. -/
def KeepsPrompt (past : Nat) (xs : List (MsgHubCall n × ConnectAnswer)) (m : MsgHubM n Unit) :
    Prop :=
  ∀ start stop h h', Clocked start xs stop → past ≤ start → stop + 10 < 2 ^ 64 →
    h.connectPoller.Prompt past start → m.run h = .ok () h' → h'.connectPoller.Prompt past stop

theorem keepsPrompt_pure : KeepsPrompt past [] (pure () : MsgHubM n Unit) := by
  intro start stop h h' hclock _ _ hp hrun
  cases hrun
  exact hp.mono hclock.le

theorem keepsPrompt_seq (xs ys : List (MsgHubCall n × ConnectAnswer)) (x y : MsgHubM n Unit)
    (hx : KeepsPrompt past xs x) (hy : KeepsPrompt past ys y) :
    KeepsPrompt past (xs ++ ys) (do x; y) := by
  intro start stop h h' hclock hpast hmax hp hrun
  obtain ⟨mid, hxs, hys⟩ := hclock.split
  obtain ⟨_, h₁, hfirst, hrest⟩ := run_bind_inv hrun
  have hle := hxs.le
  have hle' := hys.le
  have hp₁ := hx start mid h h₁ hxs hpast (by omega) hp hfirst
  exact hy mid stop h₁ h' hys (by omega) hmax hp₁ hrest

theorem call_prompt (c : MsgHubCall n) (hs : List (ConnectAnswer × MsgHubM n Unit))
    (xs : List (MsgHubCall n × ConnectAnswer))
    (hanswered : Reentrant.Answered (KeepsPrompt past) c hs xs) :
    KeepsPrompt past xs (call c hs) := by
  intro start stop h h' hclock hpast hmax hp hrun
  cases c with
  | poller script =>
    obtain ⟨p, -, rfl⟩ := onPoller_inv hrun
    exact hp.mono hclock.le
  | connectTo ip port timeout =>
    cases hanswered with
    | nil =>
      cases hrun
      exact hp.mono hclock.le
    | @cons os callback rest xs ys first others =>
      unfold call at hrun
      rw [run_bind_ok (run_get h)] at hrun
      split_ifs at hrun
      · obtain ⟨g, hg, hend⟩ := connectTo_poller hrun
        have hpg : g.connectPoller.Prompt past start := by
          rw [hg]
          exact hp
        cases hclock with
        | connectTo later starts given next =>
          obtain ⟨mid, hxs, hys⟩ := next.split
          have hle := hxs.le
          have hle' := hys.le
          rcases hend with hcallback | ⟨fd, rfl⟩
          · have hp' := first os.startTick mid g h' hxs (by omega) (by omega)
              (hpg.mono (by omega)) hcallback
            exact hp'.mono hle'
          · have hp' : (g.pend fd ⟨limitTime os.msTick timeout, ip, port, h.attempts.length⟩
                os.startTick).connectPoller.Prompt past os.startTick :=
              pend_prompt hpg hpast (by omega) given (by omega)
            exact hp'.mono (hle.trans hle')
      · cases hrun
        exact hp.mono hclock.le

theorem run_prompt (script : MsgHubScript n) : KeepsPrompt past script.exchanges (run script) :=
  Reentrant.Script.run_answered keepsPrompt_pure keepsPrompt_seq call_prompt script

/-! ## waitMsg -/

theorem reportResult_poller {fd : Nat} {E : SockInfo} {mem : Alloc} {callback : MsgHubM n Unit}
    (hrun : (reportResult fd E mem callback).run h = .ok () h') :
    ∃ g, g.connectPoller = h.connectPoller ∧ callback.run g = .ok () h' := by
  unfold reportResult at hrun
  split_ifs at hrun
  · exact initConnected_poller hrun
  · rw [run_bind_ok (run_modify _ h)] at hrun
    refine ⟨_, ?_, hrun⟩
    rfl

theorem processConnectSockets_prompt (eventMap : List (Nat × SockInfo))
    {replies : List (Alloc × MsgHubScript n)}
    (hclock : Clocked start (replies.flatMap fun r => r.2.exchanges) stop) (hpast : past ≤ start)
    (hmax : stop + 10 < 2 ^ 64) (hp : h.connectPoller.Prompt past start)
    (hrun : (processConnectSockets eventMap (replies.map fun r => (r.1, run r.2))).run h =
      .ok () h') : h'.connectPoller.Prompt past stop := by
  induction eventMap generalizing h start replies with
  | nil =>
    cases hrun
    exact hp.mono hclock.le
  | cons p eventMap ih =>
    obtain ⟨fd, E⟩ := p
    rw [processConnectSockets_cons] at hrun
    obtain ⟨_, h₁, hreport, hmore⟩ := run_bind_inv hrun
    obtain ⟨g, hg, hcallback⟩ := reportResult_poller hreport
    have hpg : g.connectPoller.Prompt past start := by
      rw [hg]
      exact hp
    cases replies with
    | nil =>
      cases hcallback
      exact ih hclock hpast hpg hmore
    | cons r replies =>
      rw [List.flatMap_cons] at hclock
      obtain ⟨mid, hfirst, hrest⟩ := hclock.split
      have hle := hfirst.le
      have hle' := hrest.le
      have hp₁ := run_prompt r.2 start mid g h₁ hfirst hpast (by omega) hpg hcallback
      exact ih hrest (by omega) hp₁ hmore

theorem waitMsg_prompt {w : WaitMsg n} (hp : h.connectPoller.Prompt past start)
    (hlater : start ≤ w.now) (hchecks : ∀ c ∈ w.checks, w.now ≤ c.msTick)
    (hclock : Clocked w.now (w.replies.flatMap fun r => r.2.exchanges) stop)
    (hmax : stop + 10 < 2 ^ 64) (hrun : (waitMsg w).run h = .ok () h') :
    h'.connectPoller.Prompt w.now stop := by
  unfold waitMsg at hrun
  obtain ⟨rt, h₁, hget, hrest⟩ := run_bind_inv hrun
  unfold getResult at hget
  rw [run_bind_ok (run_modify _ h)] at hget
  obtain ⟨_, h₂, hdetect, hlast⟩ := run_bind_inv hget
  cases hlast
  have hclear : h.clearResults.connectPoller.Prompt past start :=
    ⟨⟨hp.timed.good, hp.timed.armed, hp.timed.circle⟩, hp.late, hp.soon, hp.before⟩
  have hle := hclock.le
  have hp₂ := detectTimers_prompt hclear hlater (by omega) hchecks hdetect
  obtain ⟨_, h₃, hprocess, hloop⟩ := run_bind_inv hrest
  have hp₃ := processConnectSockets_prompt _ hclock (Nat.le_refl _) hmax hp₂ hprocess
  obtain ⟨p, -, rfl⟩ := onPoller_inv hloop
  exact hp₃

/-! ## Every run -/

/-- What the last `waitMsg` of a run has read; `past` where there is none. -/
def lastPass (past : Nat) : List (MsgHubEvent n) → Nat
  | [] => past
  | .call _ _ :: es => lastPass past es
  | .waitMsg w :: es => lastPass w.now es

theorem onEvent_prompt {e : MsgHubEvent n} (hclock : e.Clocked start stop) (hpast : past ≤ start)
    (hmax : stop + 10 < 2 ^ 64) (hp : h.connectPoller.Prompt past start)
    (hrun : (onEvent e).run h = .ok () h') :
    h'.connectPoller.Prompt (lastPass past [e]) stop ∧ lastPass past [e] ≤ stop := by
  cases hclock with
  | @call c replies _ _ reads =>
    have hanswered : Reentrant.Answered (KeepsPrompt past) c (replies.handlers call (pure ()))
        (replies.exchanges c) :=
      Reentrant.Replies.handlers_answered keepsPrompt_pure keepsPrompt_seq call_prompt c replies
    exact ⟨call_prompt c _ _ hanswered start stop h h' reads hpast hmax hp hrun,
      hpast.trans reads.le⟩
  | waitMsg later checks reads =>
    exact ⟨waitMsg_prompt hp later checks reads hmax hrun, reads.le⟩

theorem lastPass_cons (past : Nat) (e : MsgHubEvent n) (es : List (MsgHubEvent n)) :
    lastPass past (e :: es) = lastPass (lastPass past [e]) es := by
  cases e <;> rfl

theorem runAll_prompt {es : List (MsgHubEvent n)} (hclock : RunClocked start es stop)
    (hpast : past ≤ start) (hmax : stop + 10 < 2 ^ 64) (hp : h.connectPoller.Prompt past start)
    (hrun : (runAll es).run h = .ok () h') : h'.connectPoller.Prompt (lastPass past es) stop := by
  induction hclock generalizing h past with
  | done le =>
    cases hrun
    exact hp.mono le
  | @next start mid stop e es first rest ih =>
    obtain ⟨_, h₁, hfirst, hrest⟩ := run_bind_inv hrun
    have hle := rest.le
    obtain ⟨hp₁, hpast₁⟩ := onEvent_prompt first hpast (by omega) hp hfirst
    rw [lastPass_cons]
    exact ih hpast₁ hmax hp₁ hrest

theorem init_prompt (hn : 0 < n) (timers : Unit → Timer) (clock : Nat) :
    (init hn timers).connectPoller.Prompt 0 clock := by
  have hnone : ∀ x, ¬ (init hn timers).connectPoller.tm.Armed () x := by
    intro x hx
    cases hx
  exact ⟨init_timed hn timers, fun x hx => (hnone x hx).elim, fun x hx => (hnone x hx).elim,
    fun x _ _ hx _ => (hnone x hx).elim⟩

/-- In every run whose clock does not go back, every attempt that was out of time 10 ms before the
last `waitMsg` has been reported, once. -/
theorem reported_in_time (hn : 0 < n) (timers : Unit → Timer) {es : List (MsgHubEvent n)}
    {start stop : Nat} (hclock : RunClocked start es stop) (hmax : stop + 10 < 2 ^ 64)
    {h : MsgHub n} (hrun : (runAll es).run (init hn timers) = .ok () h) {a : Nat} {t : Attempt}
    (ht : h.attempts[a]? = some t) (hover : t.limitTime + 10 ≤ lastPass 0 es) : t.Reported := by
  have hI := runAll_inv (init_inv hn timers) hrun
  have hp := runAll_prompt hclock (Nat.zero_le _) hmax (init_prompt hn timers start) hrun
  rcases hI.placed a t ht nofun with ⟨fd, e, he, rfl⟩ | ⟨_, _, hr, -⟩ | ⟨hreported, -⟩
  · -- the timer is armed, and goes off after the last `waitMsg`
    obtain ⟨x, hx⟩ := hp.timed.armed.2 (h.waits_iff.2 ⟨fd, e, he⟩)
    obtain ⟨-, u, hu, hof⟩ := hI.pending fd e he
    rw [ht] at hu
    cases hu
    have hlate := hp.late x hx
    have hbefore := hp.before x fd e hx he
    have hlimit := hof.limitTime
    omega
  · exact hr.elim
  · exact hreported

/-- The attempt is decided 10 ms late, and `onConnectFailed` tries again. -/
def belated : List (MsgHubEvent 1) :=
  [.call (.connectTo "::1" 80 10) (.reply (inProgress 100) .done .none),
    .waitMsg ⟨120, [⟨120, fun _ => .pending⟩], [(⟨true, fun _ => 0⟩,
      .call (.connectTo "::1" 81 10) (.reply (inProgress 121) .done .none) .done)], []⟩]

theorem belated_clocked : RunClocked 100 belated 121 := by
  have hfirst : Clocked 100 [((.connectTo "::1" 80 10 : MsgHubCall 1), inProgress 100)] 100 :=
    .connectTo (by decide) (by decide) (by decide) (.done (by decide))
  have hagain : Clocked 120 [((.connectTo "::1" 81 10 : MsgHubCall 1), inProgress 121)] 121 :=
    .connectTo (by decide) (by decide) (by decide) (.done (by decide))
  exact .next (.call hfirst) (.next (.waitMsg (by decide) (by simp) hagain) (.done (by decide)))

def belatedly : MsgHub 1 :=
  final ((runAll belated).run (init Nat.one_pos fun _ => ⟨.once, 0, 0, none⟩))

theorem belated_run :
    returns ((runAll belated).run (init Nat.one_pos fun _ => ⟨.once, 0, 0, none⟩)) = true ∧
    (belatedly.attempts[0]?).map Attempt.limitTime = some 110 := by
  decide +kernel

theorem reported_in_time_belated : ∃ t, belatedly.attempts[0]? = some t ∧ t.Reported := by
  obtain ⟨hrun, hfirst⟩ := belated_run
  obtain ⟨t, ht, hlimit⟩ := Option.map_eq_some_iff.1 hfirst
  refine ⟨t, ht, reported_in_time Nat.one_pos _ belated_clocked (by decide) (eq_ok_of_returns hrun)
    ht ?_⟩
  rw [hlimit]
  decide

end MsgHub

end ChainSocket
