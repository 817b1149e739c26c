import ChainSocket.MsgHub.Sessions

/-!
# Attempts

Where an attempt is at any point of a run: it waits in `connectTime`, its result is still to be
reported, or it has been reported once and its socket is accounted for. One attempt may be in the
hands of the code.

* `Inv.beside`: what the code does for one attempt leaves the others as they are;
* `call_inv`, `waitMsg_inv`: every call leaves every attempt in its place.
-/

namespace ChainSocket

open Effect

variable {n : Nat}

/-- Nothing has been reported of it. -/
structure Attempt.Waiting (t : Attempt) : Prop where
  reports : t.reports = []
  session : t.session = none
  exhausted : t.exhausted = false

/-- One callback has been made for it, with its own address. -/
def Attempt.Reported (t : Attempt) : Prop :=
  ∃ r, t.reports = [r] ∧ r.ip = t.ip ∧ r.port = t.port

theorem Attempt.Waiting.reported {t : Attempt} (ht : t.Waiting) (u : Attempt) (r : Report)
    (hu : u.reports = t.reports ++ [r]) (hip : r.ip = u.ip) (hport : r.port = u.port) :
    u.Reported := by
  refine ⟨r, ?_, hip, hport⟩
  rw [hu, ht.reports]
  rfl

/-- Where the socket of an attempt is that has been reported. -/
inductive Attempt.Disposed (table : Table n) (attempt : Nat) (t : Attempt) : Prop
  | noSocket (sock : t.sock = none)
  | closed {fd : Nat} (sock : t.sock = some fd) (session : t.session = none)
      (exhausted : t.exhausted = false) (closes : t.closes = 1)
  | session {fd birth : Nat} (sock : t.sock = some fd) (session : t.session = some birth)
      (exhausted : t.exhausted = false) (born : birth < table.births)
      (own : ∀ id s, table.sessions id = some s → s.birth = birth → s.fd = fd)
      (closes : t.closes = if table.Live birth then 0 else 1)
  | leaked {fd : Nat} (sock : t.sock = some fd) (session : t.session = none)
      (exhausted : t.exhausted = true) (closes : t.closes = 0) (held : table.Held attempt fd)

/-- `e` is what `connectTime` holds of the attempt at `fd`. -/
structure Connecting.Of (table : Table n) (fd : Nat) (e : Connecting) (t : Attempt) : Prop where
  waiting : t.Waiting
  limitTime : e.limitTime = t.limitTime
  ip : e.ip = t.ip
  port : e.port = t.port
  sock : t.sock = some fd
  closes : t.closes = 0
  held : table.Held e.attempt fd

/-- `r` is a result that is still to be reported. -/
structure SockInfo.Of (table : Table n) (fd : Nat) (r : SockInfo) (t : Attempt) : Prop where
  waiting : t.Waiting
  ip : r.ip = t.ip
  port : r.port = t.port
  sock : t.sock = some fd
  connected : r.ret = 1 → t.closes = 0 ∧ table.Held r.attempt fd
  failed : r.ret ≠ 1 → t.closes = 1

namespace MsgHub

/-- `connectTime` holds `e` for the descriptor. -/
def Pending (h : MsgHub n) (fd : Nat) (e : Connecting) : Prop :=
  h.connectPoller.connectTime[fd]? = some e

/-- Every attempt but the one in hand is in its place; `R` are the results that are still to be
reported. -/
structure Inv (hand : Option Nat) (R : Nat → SockInfo → Prop) (h : MsgHub n) : Prop where
  sound : h.toTable.Sound
  pending : ∀ fd e, h.Pending fd e → hand ≠ some e.attempt ∧
    ∃ t, h.attempts[e.attempt]? = some t ∧ e.Of h.toTable fd t
  results : ∀ fd r, R fd r → hand ≠ some r.attempt ∧
    ∃ t, h.attempts[r.attempt]? = some t ∧ r.Of h.toTable fd t
  apart : ∀ fd e fd' r, h.Pending fd e → R fd' r → e.attempt ≠ r.attempt
  placed : ∀ a t, h.attempts[a]? = some t → hand ≠ some a →
    (∃ fd e, h.Pending fd e ∧ e.attempt = a) ∨ (∃ fd r, R fd r ∧ r.attempt = a) ∨
      (t.Reported ∧ t.Disposed h.toTable a)

variable {hand : Option Nat} {R : Nat → SockInfo → Prop} {h h' : MsgHub n}

/-! ## The other attempts -/

/-- What is done to the attempt in hand, or to the sessions, seen from the other attempts. -/
structure Beside (hand : Option Nat) (h h' : MsgHub n) : Prop where
  sound : h'.toTable.Sound
  held : ∀ a fd, hand ≠ some a → h.toTable.Held a fd → h'.toTable.Held a fd
  births : h.births ≤ h'.births
  old : ∀ id s', h'.sessions id = some s' → s'.birth < h.births →
    ∃ s, h.sessions id = some s ∧ s.birth = s'.birth ∧ s.fd = s'.fd
  connectTime : h'.connectPoller.connectTime = h.connectPoller.connectTime
  attempts : ∀ a, hand ≠ some a →
    h'.attempts[a]? = (h.attempts[a]?).map (·.follow h.toTable h'.toTable)

theorem follow_waiting {t : Attempt} (ht : t.session = none) (before after : Table n) :
    t.follow before after = t := by
  unfold Attempt.follow
  simp [ht]

theorem follow_same {t : Attempt} {before after : Table n}
    (hlive : ∀ birth, t.session = some birth → before.Live birth → after.Live birth) :
    t.follow before after = t := by
  unfold Attempt.follow
  rw [if_neg]
  rintro ⟨birth, hb, hbefore, hafter⟩
  exact hafter (hlive birth hb hbefore)

theorem follow_fields (t : Attempt) (before after : Table n) :
    (t.follow before after).ip = t.ip ∧ (t.follow before after).port = t.port ∧
      (t.follow before after).sock = t.sock ∧ (t.follow before after).reports = t.reports ∧
      (t.follow before after).session = t.session ∧
      (t.follow before after).exhausted = t.exhausted := by
  unfold Attempt.follow
  split <;> exact ⟨rfl, rfl, rfl, rfl, rfl, rfl⟩

theorem follow_reported {t : Attempt} (ht : t.Reported) (before after : Table n) :
    (t.follow before after).Reported := by
  obtain ⟨r, hr, hip, hport⟩ := ht
  obtain ⟨hi, hp, -, hreports, -, -⟩ := follow_fields t before after
  exact ⟨r, hreports.trans hr, hip.trans hi.symm, hport.trans hp.symm⟩

theorem Beside.live (hb : Beside hand h h') {birth : Nat} (hbirth : birth < h.births)
    (hlive : h'.Live birth) : h.Live birth := by
  obtain ⟨id, s, hs, rfl⟩ := Table.live_iff.1 hlive
  obtain ⟨s', hs', hbs, -⟩ := hb.old id s hs hbirth
  exact Table.live_iff.2 ⟨id, s', hs', hbs⟩

theorem Beside.disposed (hb : Beside hand h h') {a : Nat} (ha : hand ≠ some a) {t : Attempt}
    (ht : t.Disposed h.toTable a) : (t.follow h.toTable h'.toTable).Disposed h'.toTable a := by
  cases ht with
  | noSocket sock =>
    obtain ⟨-, -, hsock, -⟩ := follow_fields t h.toTable h'.toTable
    exact .noSocket (hsock.trans sock)
  | closed sock session exhausted closes =>
    rw [follow_waiting session]
    exact .closed sock session exhausted closes
  | leaked sock session exhausted closes held =>
    rw [follow_waiting session]
    exact .leaked sock session exhausted closes (hb.held a _ ha held)
  | @session fd birth sock session exhausted born own closes =>
    obtain ⟨-, -, hsock, -, hsession, hexhausted⟩ := follow_fields t h.toTable h'.toTable
    refine .session (hsock.trans sock) (hsession.trans session) (hexhausted.trans exhausted)
      (Nat.lt_of_lt_of_le born hb.births) ?_ ?_
    · rintro id s' hs' rfl
      obtain ⟨s, hs, hbs, hfd⟩ := hb.old id s' hs' born
      exact hfd ▸ own id s hs hbs
    · unfold Attempt.follow
      by_cases hlive : h.Live birth
      · by_cases hlive' : h'.Live birth
        · simp [session, hlive, hlive', closes]
        · simp [session, hlive, hlive', closes]
      · have hlive' : ¬ h'.Live birth := fun hl => hlive (hb.live born hl)
        simp [session, hlive, hlive', closes]

/-- The other attempts stay in their places. -/
theorem Inv.beside (hI : Inv hand R h) (hb : Beside hand h h') : Inv hand R h' := by
  have hpending : ∀ fd e, h'.Pending fd e ↔ h.Pending fd e := by
    intro fd e
    unfold Pending
    rw [hb.connectTime]
  have hwaiting : ∀ a t, h.attempts[a]? = some t → hand ≠ some a → t.Waiting →
      h'.attempts[a]? = some t := by
    intro a t ht ha hw
    rw [hb.attempts a ha, ht, Option.map_some, follow_waiting hw.session]
  constructor
  case sound => exact hb.sound
  case pending =>
    intro fd e he
    obtain ⟨hne, t, ht, hof⟩ := hI.pending fd e ((hpending fd e).1 he)
    refine ⟨hne, t, hwaiting _ t ht hne hof.waiting, ?_⟩
    exact { hof with held := hb.held _ fd hne hof.held }
  case results =>
    intro fd r hr
    obtain ⟨hne, t, ht, hof⟩ := hI.results fd r hr
    refine ⟨hne, t, hwaiting _ t ht hne hof.waiting, ?_⟩
    exact { hof with
      connected := fun hret => ⟨(hof.connected hret).1, hb.held _ fd hne (hof.connected hret).2⟩ }
  case apart =>
    intro fd e fd' r he
    exact hI.apart fd e fd' r ((hpending fd e).1 he)
  case placed =>
    intro a t' ht' ha
    rw [hb.attempts a ha] at ht'
    obtain ⟨t, ht, rfl⟩ := Option.map_eq_some_iff.1 ht'
    rcases hI.placed a t ht ha with ⟨fd, e, he, hea⟩ | hresult | ⟨hreported, hdisposed⟩
    · exact .inl ⟨fd, e, (hpending fd e).2 he, hea⟩
    · exact .inr (.inl hresult)
    · exact .inr (.inr ⟨follow_reported hreported .., hb.disposed ha hdisposed⟩)

/-! ## What is done to one attempt -/

section

variable {a fd : Nat} {t : Attempt}

theorem note_self (ht : h.attempts[a]? = some t) (f : Attempt → Attempt) :
    (h.note a f).attempts[a]? = some (f t) := by
  simp [note, ht]

theorem note_other (f : Attempt → Attempt) {b : Nat} (hb : some a ≠ some b) :
    (h.note a f).attempts[b]? = h.attempts[b]? :=
  List.getElem?_modify_ne f h.attempts fun heq => hb (congrArg some heq)

/-- No session goes, and only the attempt in hand changes. -/
theorem beside_of_live (hs : h'.toTable.Sound)
    (held : ∀ b fd, some a ≠ some b → h.toTable.Held b fd → h'.toTable.Held b fd)
    (births : h.births ≤ h'.births)
    (old : ∀ id s', h'.sessions id = some s' → s'.birth < h.births → h.sessions id = some s')
    (connectTime : h'.connectPoller.connectTime = h.connectPoller.connectTime)
    (others : ∀ b, some a ≠ some b → h'.attempts[b]? = h.attempts[b]?)
    (live : ∀ birth, h.Live birth → h'.Live birth) : Beside (some a) h h' := by
  refine ⟨hs, held, births, fun id s' hs' hb => ⟨s', old id s' hs' hb, rfl, rfl⟩, connectTime, ?_⟩
  intro b hb
  rw [others b hb]
  cases h.attempts[b]? with
  | none => rfl
  | some u => exact congrArg some (follow_same fun birth _ => live birth).symm

/-- What is kept of an attempt in hand changes nothing for the others. -/
theorem note_beside (hs : h.toTable.Sound) (f : Attempt → Attempt) :
    Beside (some a) h (h.note a f) :=
  beside_of_live hs (fun _ _ _ hheld => hheld) (Nat.le_refl _) (fun _ _ hs' _ => hs') rfl
    (fun _ hb => note_other f hb) fun _ hlive => hlive

theorem owner_sound (hs : h.toTable.Sound) (hfd : ∀ id s, h.sessions id = some s → s.fd ≠ fd)
    (x : Option Nat) : ({ h.toTable with owner := Function.update h.owner fd x }).Sound := by
  refine ⟨⟨?_, hs.wf.distinct⟩, hs.born, hs.single⟩
  intro id s hs'
  simpa [Function.update_apply, hfd id s hs'] using hs.wf.owned id s hs'

theorem Sound.unused (hs : h.toTable.Sound) (hfd : h.owner fd = none) :
    ∀ id s, h.sessions id = some s → s.fd ≠ fd := by
  rintro id s hs' rfl
  have howned := hs.wf.owned id s hs'
  rw [hfd] at howned
  cases howned

theorem owner_held {b fd' : Nat} (hheld : h.toTable.Held b fd') (hne : fd' ≠ fd) (x : Option Nat) :
    ({ h.toTable with owner := Function.update h.owner fd x }).Held b fd' :=
  ⟨by simpa [Function.update_apply, hne] using hheld.owned, hheld.apart⟩

theorem openSocket_beside (hs : h.toTable.Sound) (hfd : h.owner fd = none) :
    Beside (some a) h (h.openSocket a fd) := by
  apply beside_of_live
  case hs => exact owner_sound hs (Sound.unused hs hfd) _
  case held =>
    intro b fd' _ hheld
    refine owner_held hheld ?_ _
    rintro rfl
    have howned := hheld.owned
    rw [hfd] at howned
    cases howned
  case births => exact Nat.le_refl _
  case old => exact fun _ _ hs' _ => hs'
  case connectTime => rfl
  case others => exact fun _ hb => note_other _ hb
  case live => exact fun _ hlive => hlive

theorem openSocket_held (hs : h.toTable.Sound) (hfd : h.owner fd = none) :
    (h.openSocket a fd).toTable.Held a fd :=
  ⟨Function.update_self .., Sound.unused (h := h) hs hfd⟩

theorem openSocket_self (ht : h.attempts[a]? = some t) (fd : Nat) :
    (h.openSocket a fd).attempts[a]? = some { t with sock := some fd } := note_self ht _

theorem closeSocket_self (ht : h.attempts[a]? = some t) (fd : Nat) :
    (h.closeSocket a fd).attempts[a]? = some { t with closes := t.closes + 1 } := note_self ht _

theorem closeSocket_beside (hs : h.toTable.Sound) (hheld : h.toTable.Held a fd) :
    Beside (some a) h (h.closeSocket a fd) := by
  apply beside_of_live
  case hs => exact owner_sound hs hheld.apart _
  case held =>
    intro b fd' hb hheld'
    refine owner_held hheld' ?_ _
    rintro rfl
    have howned := hheld'.owned
    rw [hheld.owned] at howned
    exact hb howned
  case births => exact Nat.le_refl _
  case old => exact fun _ _ hs' _ => hs'
  case connectTime => rfl
  case others => exact fun _ hb => note_other _ hb
  case live => exact fun _ hlive => hlive

/-- A new attempt is in hand. -/
theorem Inv.begin (hI : Inv none R h) (ip : String) (port : Int) (limit : Nat) :
    Inv (some h.attempts.length) R (h.begin ip port limit) := by
  have hget : ∀ b u, h.attempts[b]? = some u → (h.begin ip port limit).attempts[b]? = some u ∧
      some h.attempts.length ≠ some b := by
    intro b u hu
    obtain ⟨hlt, -⟩ := List.getElem?_eq_some_iff.1 hu
    refine ⟨?_, fun heq => ?_⟩
    · exact (List.getElem?_append_left hlt).trans hu
    · cases heq
      exact Nat.lt_irrefl _ hlt
  constructor
  case sound => exact hI.sound
  case pending =>
    intro fd e he
    obtain ⟨-, u, hu, hof⟩ := hI.pending fd e he
    exact ⟨(hget _ u hu).2, u, (hget _ u hu).1, hof⟩
  case results =>
    intro fd r hr
    obtain ⟨-, u, hu, hof⟩ := hI.results fd r hr
    exact ⟨(hget _ u hu).2, u, (hget _ u hu).1, hof⟩
  case apart => exact hI.apart
  case placed =>
    intro b u hu hb
    have hne : b ≠ h.attempts.length := fun heq => hb (congrArg some heq.symm)
    have hlt : b < h.attempts.length := by
      obtain ⟨hlt, -⟩ := List.getElem?_eq_some_iff.1 hu
      have hlen : (h.begin ip port limit).attempts.length = h.attempts.length + 1 := by
        simp [MsgHub.begin]
      omega
    have hold : h.attempts[b]? = some u := (List.getElem?_append_left hlt).symm.trans hu
    exact hI.placed b u hold nofun

theorem pend_pending {e : Connecting} {startTick fd' : Nat} {e' : Connecting} :
    (h.pend fd e startTick).Pending fd' e' ↔
      (fd' = fd ∧ e' = e) ∨ (fd' ≠ fd ∧ h.Pending fd' e') := by
  unfold Pending pend
  simp only [Std.TreeMap.getElem?_insert, compare_eq_iff_eq]
  split_ifs with hfd
  · simp [hfd, eq_comm]
  · simp [Ne.symm hfd]

/-- The attempt in hand comes to wait in `connectTime`. -/
theorem Inv.pend (hI : Inv (some a) R h) (ht : h.attempts[a]? = some t) {e : Connecting}
    (hea : e.attempt = a) (hof : e.Of h.toTable fd t) (startTick : Nat) :
    Inv none R (h.pend fd e startTick) := by
  have hne : ∀ fd' e', h.Pending fd' e' → fd' ≠ fd := by
    rintro fd' e' he' rfl
    obtain ⟨hne, u, hu, hof'⟩ := hI.pending fd' e' he'
    have howned := hof'.held.owned
    rw [hof.held.owned, hea] at howned
    exact hne howned
  constructor
  case sound => exact hI.sound
  case pending =>
    intro fd' e' he'
    refine ⟨nofun, ?_⟩
    rcases pend_pending.1 he' with ⟨rfl, rfl⟩ | ⟨-, hold⟩
    · exact ⟨t, by rw [hea]; exact ht, hof⟩
    · exact (hI.pending fd' e' hold).2
  case results =>
    intro fd' r hr
    exact ⟨nofun, (hI.results fd' r hr).2⟩
  case apart =>
    intro fd' e' fd'' r he' hr
    rcases pend_pending.1 he' with ⟨-, rfl⟩ | ⟨-, hold⟩
    · intro heq
      exact (hI.results fd'' r hr).1 (congrArg some (hea.symm.trans heq))
    · exact hI.apart fd' e' fd'' r hold hr
  case placed =>
    intro b u hu _
    by_cases hb : some a = some b
    · cases hb
      exact .inl ⟨fd, e, pend_pending.2 (.inl ⟨rfl, rfl⟩), hea⟩
    · rcases hI.placed b u hu hb with ⟨fd', e', he', heb⟩ | hrest
      · exact .inl ⟨fd', e', pend_pending.2 (.inr ⟨hne fd' e' he', he'⟩), heb⟩
      · exact .inr hrest

/-- The attempt in hand has been reported. -/
theorem Inv.settle (hI : Inv (some a) R h) (ht : h.attempts[a]? = some t) (hr : t.Reported)
    (hd : t.Disposed h.toTable a) : Inv none R h := by
  constructor
  case sound => exact hI.sound
  case pending => exact fun fd e he => ⟨nofun, (hI.pending fd e he).2⟩
  case results => exact fun fd r hr => ⟨nofun, (hI.results fd r hr).2⟩
  case apart => exact hI.apart
  case placed =>
    intro b u hu _
    by_cases hb : some a = some b
    · cases hb
      rw [ht] at hu
      cases hu
      exact .inr (.inr ⟨hr, hd⟩)
    · exact hI.placed b u hu hb

end

end MsgHub

end ChainSocket
