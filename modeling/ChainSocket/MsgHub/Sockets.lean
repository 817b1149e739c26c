import ChainSocket.MsgHub.Results

/-!
# The sockets of the connect attempts

* `turn_closes`, `run_closes`: `closes` counts what `closeSession` closes;
* `sockets_accounted_iff`: after every run of calls, the socket of an attempt is waiting, or belongs
  to one session, or has been closed once, unless every slot was taken when it was connected;
* `full_table_leaks`: then it stays open.
-/

namespace ChainSocket.MsgHub

open Effect

variable {n : Nat} {h : MsgHub n} {a fd : Nat} {t : Attempt}

/-- What a call of `Poller` adds to `closes` is how often it closes the socket of the session. -/
theorem turn_closes {turn : Poller.Turn n} {h' : MsgHub n} {birth : Nat} (hs : h.toTable.Sound)
    (hrun : (onPoller (Poller.turn turn)).run h = .ok () h') (hsession : t.session = some birth)
    (hb : birth < h.births) : ∃ q k, q.sessions = h.sessions ∧
      Poller.Closings birth q h'.toPoller k ∧
      (t.follow h.toTable h'.toTable).closes = t.closes + k := by
  obtain ⟨p, hp, rfl⟩ := onPoller_inv hrun
  obtain ⟨q, hq, hcloses⟩ := Poller.turn_closings hp hs hb
  refine ⟨q, _, hq, hcloses, ?_⟩
  have hgone : (∃ b ∈ t.session, h.Live b ∧ ¬ p.Live b) ↔ h.Live birth ∧ ¬ p.Live birth := by
    simp [hsession]
  change (t.follow h.toTable p.toTable).closes = _
  unfold Attempt.follow
  by_cases hclosed : h.Live birth ∧ ¬ p.Live birth
  · rw [if_pos (hgone.2 hclosed), if_pos hclosed]
  · rw [if_neg (mt hgone.1 hclosed), if_neg hclosed]
    rfl

/-- The socket `fd` of the attempt is that of exactly one open session. -/
def HasSession (h : MsgHub n) (t : Attempt) (fd : Nat) : Prop :=
  ∃ id s, h.sessions id = some s ∧ s.fd = fd ∧ t.session = some s.birth ∧
    ∀ id' s', h.sessions id' = some s' → s'.fd = fd → id' = id

/-- Where the socket `fd` of the attempt is: in one of three places. -/
inductive Accounted (h : MsgHub n) (a : Nat) (t : Attempt) (fd : Nat) : Prop
  | waits (key : ∃ e, h.Pending fd e ∧ e.attempt = a)
      (noSession : ∀ id s, h.sessions id = some s → s.fd ≠ fd) (opened : t.closes = 0)
  | session (own : h.HasSession t fd) (noKey : ∀ e, ¬ h.Pending fd e) (opened : t.closes = 0)
  | closed (noKey : ∀ fd e, h.Pending fd e → e.attempt ≠ a) (noSession : ¬ h.HasSession t fd)
      (once : t.closes = 1)

theorem waiting_accounted (hI : Inv none nothing h) {e : Connecting} (he : h.Pending fd e)
    (ht : h.attempts[e.attempt]? = some t) :
    Accounted h e.attempt t fd ∧ t.exhausted = false := by
  obtain ⟨-, t', ht', hof⟩ := hI.pending fd e he
  rw [ht] at ht'
  cases ht'
  exact ⟨.waits ⟨e, he, rfl⟩ hof.held.apart hof.closes, hof.waiting.exhausted⟩

/-- Nothing waits for an attempt that has been reported. -/
theorem reported_gone (hI : Inv none nothing h) (ht : h.attempts[a]? = some t)
    (hr : t.Reported) {e : Connecting} (he : h.Pending fd e) : e.attempt ≠ a := by
  rintro rfl
  obtain ⟨-, t', ht', hof⟩ := hI.pending fd e he
  rw [ht] at ht'
  cases ht'
  obtain ⟨r, hreports, -⟩ := hr
  rw [hof.waiting.reports] at hreports
  cases hreports

/-- The socket of a session is not one that waits. -/
theorem session_key (hI : Inv none nothing h) {id : Fin n} {s : Session}
    (hs : h.sessions id = some s) (e : Connecting) : ¬ h.Pending s.fd e := by
  intro he
  obtain ⟨-, t, -, hof⟩ := hI.pending s.fd e he
  exact hof.held.apart id s hs rfl

theorem disposed_accounted (hI : Inv none nothing h) (ht : h.attempts[a]? = some t)
    (hr : t.Reported) (hd : t.Disposed h.toTable a) (hsock : t.sock = some fd) :
    Accounted h a t fd ↔ t.exhausted = false := by
  have hgone : ∀ fd e, h.Pending fd e → e.attempt ≠ a := fun fd e he => reported_gone hI ht hr he
  cases hd with
  | noSocket sock =>
    rw [hsock] at sock
    cases sock
  | closed _ session exhausted closes =>
    refine iff_of_true (.closed hgone ?_ closes) exhausted
    rintro ⟨id, s, -, -, hb, -⟩
    rw [session] at hb
    cases hb
  | @session fd' birth sock session exhausted born own closes =>
    rw [hsock] at sock
    cases sock
    refine iff_of_true ?_ exhausted
    by_cases hlive : h.Live birth
    · rw [if_pos hlive] at closes
      obtain ⟨id, s, hs, rfl⟩ := Table.live_iff.1 hlive
      obtain rfl := own id s hs rfl
      refine .session ⟨id, s, hs, rfl, session, ?_⟩ (session_key hI hs) closes
      intro i u hu heq
      exact hI.sound.wf.distinct i id u s hu hs heq
    · rw [if_neg hlive] at closes
      refine .closed hgone ?_ closes
      rintro ⟨id, s, hs, -, hb, -⟩
      rw [session] at hb
      cases hb
      exact hlive (Table.live_iff.2 ⟨id, s, hs, rfl⟩)
  | leaked _ session exhausted closes held =>
    refine iff_of_false ?_ (by simp [exhausted])
    intro hacc
    cases hacc with
    | waits key =>
      obtain ⟨e, he, hea⟩ := key
      exact hgone fd e he hea
    | session own =>
      obtain ⟨id, s, -, -, hb, -⟩ := own
      rw [session] at hb
      cases hb
    | closed _ _ once =>
      rw [closes] at once
      cases once

/-- After every run of calls, a socket that an attempt has opened is in one of its three places,
unless every slot was taken when it was to get a session. -/
theorem sockets_accounted_iff (hn : 0 < n) (timers : Unit → Timer) (es : List (MsgHubEvent n))
    {h : MsgHub n} (hrun : (runAll es).run (init hn timers) = .ok () h) {a fd : Nat} {t : Attempt}
    (ht : h.attempts[a]? = some t) (hsock : t.sock = some fd) :
    Accounted h a t fd ↔ t.exhausted = false := by
  have hI := runAll_inv (init_inv hn timers) hrun
  rcases hI.placed a t ht nofun with ⟨fd', e, he, rfl⟩ | ⟨fd', r, hr, -⟩ | ⟨hreported, hdisposed⟩
  · have hsame : fd' = fd := by
      obtain ⟨-, t', ht', hof⟩ := hI.pending fd' e he
      rw [ht] at ht'
      cases ht'
      exact Option.some_inj.1 (hof.sock.symm.trans hsock)
    subst hsame
    obtain ⟨hacc, hfits⟩ := waiting_accounted hI he ht
    exact iff_of_true hacc hfits
  · exact hr.elim
  · exact disposed_accounted hI ht hreported hdisposed hsock

/-- Wherever a run has come to, a call of `Poller` adds to `closes` of an attempt that has got a
session how often it closes the socket of that. -/
theorem run_closes (hn : 0 < n) (timers : Unit → Timer) (es : List (MsgHubEvent n))
    (hrun : (runAll es).run (init hn timers) = .ok () h) {turn : Poller.Turn n} {h' : MsgHub n}
    (hturn : (onPoller (Poller.turn turn)).run h = .ok () h') (ht : h.attempts[a]? = some t)
    (hsock : t.sock = some fd) {birth : Nat} (hsession : t.session = some birth) :
    ∃ t' q k, h'.attempts[a]? = some t' ∧ q.sessions = h.sessions ∧
      Poller.Closings birth q h'.toPoller k ∧ t'.closes = t.closes + k := by
  have hI := runAll_inv (init_inv hn timers) hrun
  have hborn : birth < h.births := by
    rcases hI.placed a t ht nofun with ⟨fd, e, he, rfl⟩ | ⟨fd, r, hr, -⟩ | ⟨-, hdisposed⟩
    · obtain ⟨-, t', ht', hof⟩ := hI.pending fd e he
      rw [ht] at ht'
      cases ht'
      rw [hof.waiting.session] at hsession
      cases hsession
    · exact hr.elim
    · cases hdisposed with
      | noSocket sock =>
        rw [hsock] at sock
        cases sock
      | closed _ session | leaked _ session =>
        rw [session] at hsession
        cases hsession
      | session _ session _ born =>
        rw [session] at hsession
        cases hsession
        exact born
  obtain ⟨q, k, hq, hcloses, hcount⟩ := turn_closes hI.sound hturn hsession hborn
  obtain ⟨p, hp, rfl⟩ := onPoller_inv hturn
  refine ⟨_, q, k, ?_, hq, hcloses, hcount⟩
  simp [follow, ht]

/-- Two connections with room for one session. -/
def crowd : List (MsgHubEvent 1) :=
  let answer (fd : Nat) : ConnectAnswer := ⟨.connected fd, 100, 100, ⟨true, fun _ => 0⟩⟩
  [.call (.connectTo "::1" 80 10) (.reply (answer 5) .done .none),
    .call (.connectTo "::1" 81 10) (.reply (answer 6) .done .none)]

def crowded : MsgHub 1 :=
  final ((runAll crowd).run (init Nat.one_pos fun _ => ⟨.once, 0, 0, none⟩))

theorem crowded_run :
    (runAll crowd).run (init Nat.one_pos fun _ => ⟨.once, 0, 0, none⟩) = .ok () crowded :=
  eq_ok_of_returns (by decide +kernel)

def firstAttempt : Attempt :=
  ⟨"::1", 80, 110, some 5, [.onConnect 0 "::1" 80], some 0, false, 0⟩

def secondAttempt : Attempt :=
  ⟨"::1", 81, 110, some 6, [.onConnectFailed "::1" 81 (-1)], none, true, 0⟩

theorem crowded_attempts : crowded.attempts = [firstAttempt, secondAttempt] := by
  decide +kernel

theorem sockets_accounted_iff_crowd : Accounted crowded 0 firstAttempt 5 := by
  have hfirst : crowded.attempts[0]? = some firstAttempt := by
    rw [crowded_attempts]
    rfl
  exact (sockets_accounted_iff Nat.one_pos _ crowd crowded_run hfirst rfl).2 rfl

/-- The second connection finds no slot, and its socket is left open. -/
theorem full_table_leaks : ¬ ∀ (n : Nat) (hn : 0 < n) (timers : Unit → Timer)
    (es : List (MsgHubEvent n)) (h : MsgHub n) (a fd : Nat) (t : Attempt),
    (runAll es).run (init hn timers) = .ok () h → h.attempts[a]? = some t → t.sock = some fd →
      Accounted h a t fd := by
  intro hall
  have hsecond : crowded.attempts[1]? = some secondAttempt := by
    rw [crowded_attempts]
    rfl
  cases hall 1 Nat.one_pos _ crowd crowded 1 6 secondAttempt crowded_run hsecond rfl with
  | waits key =>
    obtain ⟨e, he, -⟩ := key
    have hempty : crowded.connectPoller.connectTime[6]? = none := by decide +kernel
    have hsome : crowded.connectPoller.connectTime[6]? = some e := he
    rw [hempty] at hsome
    cases hsome
  | session own =>
    obtain ⟨_, _, -, -, hb, -⟩ := own
    cases hb
  | closed _ _ once => cases once

end ChainSocket.MsgHub
