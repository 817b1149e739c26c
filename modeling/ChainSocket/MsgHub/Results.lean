import ChainSocket.MsgHub.Calls

/-!
# waitMsg and the attempts

* `detectTimers_checking`: while results are put together, an attempt goes from `connectTime` to
  `resultMap`;
* `processConnectSockets_inv`: every result is reported, whatever the callbacks do before;
* `runAll_inv`: after every run of calls every attempt is in its place.
-/

namespace ChainSocket.MsgHub

open Effect

variable {n : Nat} {hand : Option Nat} {R : Nat → SockInfo → Prop} {h h' : MsgHub n}
  {a fd : Nat} {t : Attempt}

/-! ## The checks of connectTime -/

/-- `resultMap` holds `r` for the descriptor. -/
def Results (h : MsgHub n) (fd : Nat) (r : SockInfo) : Prop :=
  h.connectPoller.resultMap[fd]? = some r

theorem decided_pending {e : Connecting} {ret : Int} {fd' : Nat} {e' : Connecting} :
    (h.decided fd e ret).Pending fd' e' ↔ fd' ≠ fd ∧ h.Pending fd' e' := by
  unfold Pending decided
  simp only [Std.TreeMap.getElem?_erase, compare_eq_iff_eq]
  split_ifs with hfd
  · simp [hfd]
  · simp [Ne.symm hfd]

theorem decided_results {e : Connecting} {ret : Int} {fd' : Nat} {r : SockInfo} :
    (h.decided fd e ret).Results fd' r ↔
      (fd' = fd ∧ r = ⟨e.ip, e.port, ret, e.attempt⟩) ∨ (fd' ≠ fd ∧ h.Results fd' r) := by
  unfold Results decided
  simp only [Std.TreeMap.getElem?_insert, compare_eq_iff_eq]
  split_ifs with hfd
  · simp [hfd, eq_comm]
  · simp [Ne.symm hfd]

/-- An attempt has one socket. -/
theorem sock_unique {b fd' : Nat} {t' : Attempt} (ht : h.attempts[a]? = some t)
    (ht' : h.attempts[b]? = some t') (hab : a = b) (hsock : t.sock = some fd)
    (hsock' : t'.sock = some fd') : fd = fd' := by
  subst hab
  rw [ht] at ht'
  cases ht'
  rw [hsock] at hsock'
  cases hsock'
  rfl

/-- A settled attempt is in hand between `connectTime` and `resultMap`. -/
theorem Inv.take (hI : Inv none R h) {e : Connecting} (he : h.Pending fd e) (ret : Int) :
    Inv (some e.attempt) R (h.decided fd e ret) := by
  obtain ⟨-, t, ht, hof⟩ := hI.pending fd e he
  constructor
  case sound => exact hI.sound
  case pending =>
    intro fd' e' he'
    obtain ⟨hne, hold⟩ := decided_pending.1 he'
    obtain ⟨-, t', ht', hof'⟩ := hI.pending fd' e' hold
    refine ⟨?_, t', ht', hof'⟩
    intro heq
    injection heq with heq
    exact hne (sock_unique ht ht' heq hof.sock hof'.sock).symm
  case results =>
    intro fd' r hr
    refine ⟨fun heq => ?_, (hI.results fd' r hr).2⟩
    injection heq with heq
    exact hI.apart fd e fd' r he hr heq
  case apart =>
    intro fd' e' fd'' r he'
    exact hI.apart fd' e' fd'' r (decided_pending.1 he').2
  case placed =>
    intro b u hu hb
    rcases hI.placed b u hu nofun with ⟨fd', e', he', rfl⟩ | hrest
    · refine .inl ⟨fd', e', decided_pending.2 ⟨?_, he'⟩, rfl⟩
      rintro rfl
      have hsame : some e = some e' := he.symm.trans he'
      cases hsame
      exact hb rfl
    · exact .inr hrest

theorem Inv.put {R' : Nat → SockInfo → Prop} (hI : Inv (some a) R h)
    (ht : h.attempts[a]? = some t) {r : SockInfo} (hra : r.attempt = a)
    (hof : r.Of h.toTable fd t)
    (hR : ∀ fd' r', R' fd' r' ↔ (fd' = fd ∧ r' = r) ∨ R fd' r') : Inv none R' h := by
  constructor
  case sound => exact hI.sound
  case pending => exact fun fd' e he => ⟨nofun, (hI.pending fd' e he).2⟩
  case results =>
    intro fd' r' hr'
    refine ⟨nofun, ?_⟩
    rcases (hR fd' r').1 hr' with ⟨rfl, rfl⟩ | hold
    · exact ⟨t, hra ▸ ht, hof⟩
    · exact (hI.results fd' r' hold).2
  case apart =>
    intro fd' e fd'' r' he hr'
    rcases (hR fd'' r').1 hr' with ⟨-, rfl⟩ | hold
    · intro heq
      exact (hI.pending fd' e he).1 (congrArg some (hra.symm.trans heq.symm))
    · exact hI.apart fd' e fd'' r' he hold
  case placed =>
    intro b u hu _
    by_cases hb : some a = some b
    · cases hb
      exact .inr (.inl ⟨fd, r, (hR fd r).2 (.inl ⟨rfl, rfl⟩), hra⟩)
    · rcases hI.placed b u hu hb with hpending | ⟨fd', r', hr', hrb⟩ | hrest
      · exact .inl hpending
      · exact .inr (.inl ⟨fd', r', (hR fd' r').2 (.inr hr'), hrb⟩)
      · exact .inr (.inr hrest)

/-- While the results are put together, no descriptor is in both maps. -/
structure Checking (h : MsgHub n) : Prop where
  inv : Inv none h.Results h
  fresh : ∀ fd e r, h.Pending fd e → ¬ h.Results fd r

theorem Checking.decided (hc : Checking h) {e : Connecting} (he : h.Pending fd e) {ret : Int}
    (hI : Inv (some e.attempt) h.Results h')
    (hpoller : h'.connectPoller = (h.decided fd e ret).connectPoller)
    (ht : h'.attempts[e.attempt]? = some t)
    (hof : SockInfo.Of h'.toTable fd ⟨e.ip, e.port, ret, e.attempt⟩ t) : Checking h' := by
  have hpending : ∀ fd' e', h'.Pending fd' e' ↔ fd' ≠ fd ∧ h.Pending fd' e' := by
    intro fd' e'
    unfold Pending
    rw [hpoller]
    exact decided_pending
  have hresults : ∀ fd' r, h'.Results fd' r ↔
      (fd' = fd ∧ r = ⟨e.ip, e.port, ret, e.attempt⟩) ∨ h.Results fd' r := by
    intro fd' r
    unfold Results
    rw [hpoller]
    refine decided_results.trans (or_congr_right ?_)
    apply and_iff_right_of_imp
    rintro hr rfl
    exact hc.fresh fd' e r he hr
  refine ⟨hI.put ht rfl hof hresults, ?_⟩
  intro fd' e' r he' hr
  obtain ⟨hne, hold⟩ := (hpending fd' e').1 he'
  rcases (hresults fd' r).1 hr with ⟨heq, -⟩ | hr
  · exact hne heq
  · exact hc.fresh fd' e' r hold hr

theorem checkStatus_checking (c : Check) {e : Connecting} (hc : Checking h)
    (he : h.Pending fd e) : Checking (checkStatus c h (fd, e)) := by
  obtain ⟨-, t, ht, hof⟩ := hc.inv.pending fd e he
  have hclose : Checking ((h.closeSocket e.attempt fd).decided fd e (-1)) := by
    have htake := hc.inv.take he (-1)
    have hI : Inv (some e.attempt) h.Results ((h.closeSocket e.attempt fd).decided fd e (-1)) :=
      htake.beside (closeSocket_beside (h := h.decided fd e (-1)) htake.sound hof.held)
    apply hc.decided he hI rfl (closeSocket_self ht fd)
    refine ⟨?_, hof.ip, hof.port, hof.sock, fun hret => ?_, fun _ => ?_⟩
    · exact ⟨hof.waiting.reports, hof.waiting.session, hof.waiting.exhausted⟩
    · cases hret
    · exact congrArg (· + 1) hof.closes
  unfold checkStatus
  dsimp only
  split_ifs with hlimit
  · exact hclose
  · cases c.status fd with
    | pending => exact hc
    | failed => exact hclose
    | connected =>
      refine hc.decided he (hc.inv.take he 1) rfl ht ?_
      exact ⟨hof.waiting, hof.ip, hof.port, hof.sock, fun _ => ⟨hof.closes, hof.held⟩,
        fun hret => absurd rfl hret⟩

theorem checkStatus_pending (c : Check) {e : Connecting} {fd' : Nat} {e' : Connecting}
    (hne : fd' ≠ fd) (he' : h.Pending fd' e') : (checkStatus c h (fd, e)).Pending fd' e' := by
  unfold checkStatus
  dsimp only
  split_ifs
  · exact decided_pending.2 ⟨hne, he'⟩
  · cases c.status fd with
    | pending => exact he'
    | connected | failed => exact decided_pending.2 ⟨hne, he'⟩

theorem checkEach_checking (c : Check) (entries : List (Nat × Connecting)) (hc : Checking h)
    (hpending : ∀ p ∈ entries, h.Pending p.1 p.2)
    (hkeys : entries.Pairwise fun p q => p.1 ≠ q.1) :
    Checking (entries.foldl (checkStatus c) h) := by
  induction entries generalizing h with
  | nil => exact hc
  | cons p entries ih =>
    obtain ⟨hfirst, hrest⟩ := List.pairwise_cons.1 hkeys
    apply ih (checkStatus_checking c hc (hpending p List.mem_cons_self)) _ hrest
    intro q hq
    exact checkStatus_pending c (hfirst q hq).symm (hpending q (List.mem_cons_of_mem _ hq))

theorem toList_keys {β : Type} (m : Std.TreeMap Nat β) :
    m.toList.Pairwise fun p q => p.1 ≠ q.1 := by
  apply m.distinct_keys_toList.imp
  intro p q hpq
  simpa using hpq

theorem checkAllStatus_checking (c : Check) (hc : Checking h) : Checking (h.checkAllStatus c) := by
  have hchecked : Checking (h.connectPoller.connectTime.toList.foldl (checkStatus c) h) := by
    apply checkEach_checking c _ hc
    · intro p hp
      exact Std.TreeMap.mem_toList_iff_getElem?_eq_some.1 hp
    · exact toList_keys _
  unfold checkAllStatus
  dsimp only
  split_ifs
  · obtain ⟨⟨hsound, hpending, hresults, hapart, hplaced⟩, hfresh⟩ := hchecked
    exact ⟨⟨hsound, hpending, hresults, hapart, hplaced⟩, hfresh⟩
  · exact hchecked

theorem detectTimers_checking {now : Nat} {checks : List Check} (hc : Checking h)
    (hrun : (detectTimers now checks).run h = .ok () h') : Checking h' := by
  induction checks generalizing h with
  | nil =>
    unfold detectTimers at hrun
    rw [run_bind_ok (run_get h)] at hrun
    split_ifs at hrun
    · cases hrun
    · cases hrun
      exact hc
  | cons c rest ih =>
    unfold detectTimers at hrun
    rw [run_bind_ok (run_get h)] at hrun
    split_ifs at hrun
    · obtain ⟨_, h₁, hset, hrest⟩ := run_bind_inv hrun
      cases hset
      apply ih (checkAllStatus_checking c _) hrest
      obtain ⟨⟨hsound, hpending, hresults, hapart, hplaced⟩, hfresh⟩ := hc
      exact ⟨⟨hsound, hpending, hresults, hapart, hplaced⟩, hfresh⟩
    · cases hrun
      exact hc

/-- Nothing is to be reported. -/
def nothing : Nat → SockInfo → Prop := fun _ _ => False

theorem Inv.congr {R' : Nat → SockInfo → Prop} (hI : Inv hand R h)
    (hR : ∀ fd r, R' fd r ↔ R fd r) : Inv hand R' h := by
  have heq : R' = R := by
    funext fd r
    exact propext (hR fd r)
  rw [heq]
  exact hI

theorem getResult_inv {now : Nat} {checks : List Check} {rt : List (Nat × SockInfo)}
    (hI : Inv none nothing h) (hrun : (getResult now checks).run h = .ok rt h') :
    Inv none (fun fd r => (fd, r) ∈ rt) h' ∧ rt.Pairwise fun p q => p.1 ≠ q.1 := by
  unfold getResult at hrun
  rw [run_bind_ok (run_modify _ h)] at hrun
  obtain ⟨_, h₁, hdetect, hrest⟩ := run_bind_inv hrun
  cases hrest
  have hempty : ∀ fd r, ¬ h.clearResults.Results fd r := by
    intro fd r hr
    simp [Results, clearResults] at hr
  have hclear : Checking h.clearResults := by
    refine ⟨?_, fun fd _ r _ => hempty fd r⟩
    have hI' : Inv none nothing h.clearResults :=
      ⟨hI.sound, hI.pending, hI.results, hI.apart, hI.placed⟩
    exact hI'.congr fun fd r => iff_of_false (hempty fd r) fun hr => hr
  have hchecking := detectTimers_checking hclear hdetect
  refine ⟨hchecking.inv.congr ?_, toList_keys _⟩
  intro fd r
  exact Std.TreeMap.mem_toList_iff_getElem?_eq_some

/-! ## The results are reported -/

theorem Inv.next {E : SockInfo} {eventMap : List (Nat × SockInfo)}
    (hI : Inv none (fun fd' r => (fd', r) ∈ (fd, E) :: eventMap) h)
    (hkeys : ∀ q ∈ eventMap, fd ≠ q.1) :
    Inv (some E.attempt) (fun fd' r => (fd', r) ∈ eventMap) h := by
  obtain ⟨-, t, ht, hof⟩ := hI.results fd E List.mem_cons_self
  constructor
  case sound => exact hI.sound
  case pending =>
    intro fd' e he
    refine ⟨fun heq => ?_, (hI.pending fd' e he).2⟩
    injection heq with heq
    exact hI.apart fd' e fd E he List.mem_cons_self heq.symm
  case results =>
    intro fd' r hr
    obtain ⟨-, t', ht', hof'⟩ := hI.results fd' r (List.mem_cons_of_mem _ hr)
    refine ⟨?_, t', ht', hof'⟩
    intro heq
    injection heq with heq
    exact hkeys (fd', r) hr (sock_unique ht ht' heq hof.sock hof'.sock)
  case apart =>
    intro fd' e fd'' r he hr
    exact hI.apart fd' e fd'' r he (List.mem_cons_of_mem _ hr)
  case placed =>
    intro b u hu hb
    rcases hI.placed b u hu nofun with hpending | ⟨fd', r, hr, rfl⟩ | hrest
    · exact .inl hpending
    · rcases List.mem_cons.1 hr with heq | hr
      · cases heq
        exact absurd rfl hb
      · exact .inr (.inl ⟨fd', r, hr, rfl⟩)
    · exact .inr (.inr hrest)

theorem processConnectSockets_inv {eventMap : List (Nat × SockInfo)}
    {replies : List (Alloc × MsgHubM n Unit)} (hreplies : ∀ r ∈ replies, Keeps r.2)
    (hkeys : eventMap.Pairwise fun p q => p.1 ≠ q.1)
    (hI : Inv none (fun fd r => (fd, r) ∈ eventMap) h)
    (hrun : (processConnectSockets eventMap replies).run h = .ok () h') :
    Inv none nothing h' := by
  induction eventMap generalizing h replies with
  | nil =>
    cases hrun
    exact hI.congr fun fd r => iff_of_false (fun hr => hr) List.not_mem_nil
  | cons p eventMap ih =>
    obtain ⟨fd, E⟩ := p
    obtain ⟨hfirst, hrest⟩ := List.pairwise_cons.1 hkeys
    unfold processConnectSockets at hrun
    dsimp only at hrun
    have hcallback : Keeps (replies.head?.getD (⟨true, fun _ => 0⟩, pure ())).2 := by
      cases replies with
      | nil => exact keeps_pure
      | cons r _ => exact hreplies r List.mem_cons_self
    obtain ⟨-, t, ht, hof⟩ := hI.results fd E List.mem_cons_self
    have hhand := hI.next hfirst
    have htail : ∀ r ∈ replies.tail, Keeps r.2 := fun r hr => hreplies r (List.mem_of_mem_tail hr)
    split_ifs at hrun with hret
    · obtain ⟨_, h₁, hinit, hmore⟩ := run_bind_inv hrun
      refine ih htail hrest ?_ hmore
      rw [hof.ip, hof.port] at hinit
      obtain ⟨hcloses, hheld⟩ := hof.connected hret
      exact initConnected_inv hhand ht hof.waiting hof.sock hcloses hheld hcallback hinit
    · rw [run_bind_ok (run_modify _ h)] at hrun
      obtain ⟨_, h₁, hreport, hmore⟩ := run_bind_inv hrun
      refine ih htail hrest (hcallback _ _ _ ?_ hreport) hmore
      refine hhand.report ht _ ?_ ?_
      · exact hof.waiting.reported _ (.onConnectFailed E.ip E.port E.ret) rfl hof.ip hof.port
      · exact .closed hof.sock hof.waiting.session hof.waiting.exhausted (hof.failed hret)

theorem waitMsg_inv {w : WaitMsg n} (hI : Inv none nothing h)
    (hrun : (waitMsg w).run h = .ok () h') : Inv none nothing h' := by
  unfold waitMsg at hrun
  obtain ⟨rt, h₁, hget, hrest⟩ := run_bind_inv hrun
  obtain ⟨hresults, hkeys⟩ := getResult_inv hI hget
  obtain ⟨_, h₂, hprocess, hloop⟩ := run_bind_inv hrest
  have hreplies : ∀ r ∈ w.replies.map (fun r => (r.1, run r.2)), Keeps r.2 := by
    intro r hr
    obtain ⟨s, -, rfl⟩ := List.mem_map.1 hr
    exact run_keeps s.2
  have hprocessed := processConnectSockets_inv hreplies hkeys hresults hprocess
  exact hprocessed.beside (turn_beside (t := .batch w.events) hprocessed.sound hloop)

/-! ## Every run -/

theorem init_inv (hn : 0 < n) (timers : Unit → Timer) : Inv none nothing (init hn timers) := by
  constructor
  case sound => exact Table.empty_sound
  case pending =>
    intro fd e he
    simp [Pending, init] at he
  case results => exact fun _ _ => False.elim
  case apart => exact fun _ _ _ _ _ => False.elim
  case placed =>
    intro a t ht
    cases ht

theorem onEvent_inv {e : MsgHubEvent n} (hI : Inv none nothing h)
    (hrun : (onEvent e).run h = .ok () h') : Inv none nothing h' := by
  cases e with
  | waitMsg w => exact waitMsg_inv hI hrun
  | call c replies =>
    have hreplies := Reentrant.Replies.handlers_rule keeps_pure (fun _ _ => keeps_seq) call_keeps
      replies
    exact call_keeps c _ hreplies nothing h h' hI hrun

theorem runAll_inv {es : List (MsgHubEvent n)} (hI : Inv none nothing h)
    (hrun : (runAll es).run h = .ok () h') : Inv none nothing h' := by
  induction es generalizing h with
  | nil =>
    cases hrun
    exact hI
  | cons e es ih =>
    obtain ⟨_, h₁, hfirst, hrest⟩ := run_bind_inv hrun
    exact ih (onEvent_inv hI hfirst) hrest

end ChainSocket.MsgHub
