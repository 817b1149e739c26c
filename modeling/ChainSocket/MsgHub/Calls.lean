import ChainSocket.MsgHub.Attempts
import ChainSocket.Poller.Ids

/-!
# The calls of MsgHub and the attempts

* `connectTo_keeps`: a `connectTo` leaves every attempt in its place, its own included;
* `run_keeps`: so does every script of calls, to any depth of callbacks.
-/

namespace ChainSocket.MsgHub

open Effect

variable {n : Nat} {hand : Option Nat} {R : Nat → SockInfo → Prop} {h h' : MsgHub n}
  {a fd : Nat} {t : Attempt}

/-! ## Calls of Poller -/

theorem onPoller_inv {α : Type} {m : PollerM n α} {x : α} (hrun : (onPoller m).run h = .ok x h') :
    ∃ p, m.run h.toPoller = .ok x p ∧ h' = ({ h with toPoller := p } : MsgHub n).follow h.toTable := by
  unfold onPoller at hrun
  rw [run_bind_ok (run_get h)] at hrun
  obtain ⟨y, h₁, hm, hrest⟩ := run_bind_inv hrun
  obtain ⟨p, hp, rfl⟩ := Lens.zoom_inv hm
  cases hrest
  exact ⟨p, hp, rfl⟩

theorem turn_beside {t : Poller.Turn n} (hs : h.toTable.Sound)
    (hrun : (onPoller (Poller.turn t)).run h = .ok () h') : Beside none h h' := by
  obtain ⟨p, hp, rfl⟩ := onPoller_inv hrun
  obtain ⟨hsound, hheld, hbirths, hold⟩ := Poller.turn_kept hp hs
  refine ⟨hsound, fun a fd _ => hheld a fd, hbirths, hold, rfl, fun a _ => ?_⟩
  exact List.getElem?_map ..

/-- What `initNewSession` leaves where it finds no slot, and where it fills one. -/
theorem initNewSession_hand {mem : Alloc} {answer : Option (Fin n)}
    (hrun : (onPoller (Poller.initNewSession fd .connect mem)).run h = .ok answer h') :
    (answer = none ∧ (∀ id, h.sessions id ≠ none) ∧ h' = h) ∨
    ∃ id, answer = some id ∧ h.sessions id = none ∧
      h'.toTable = h.toTable.create id fd .connect mem ∧ h'.connectPoller = h.connectPoller ∧
      h'.attempts = h.attempts := by
  obtain ⟨p, hp, rfl⟩ := onPoller_inv hrun
  have hfollow : ∀ after : Table n, (∀ birth, h.Live birth → after.Live birth) →
      h.attempts.map (·.follow h.toTable after) = h.attempts := by
    intro after hlive
    refine List.map_id'' (fun t => follow_same fun birth _ => hlive birth) _
  rcases Poller.initNewSession_cases h.toPoller fd .connect mem with
    ⟨m, -, hfree, hcase⟩ | ⟨hfull, hcase⟩
  · rw [hcase] at hp
    cases hp
    refine .inr ⟨_, rfl, hfree, rfl, rfl, hfollow _ ?_⟩
    intro birth hlive
    exact Table.create_live hlive hfree fd .connect mem
  · rw [hcase] at hp
    cases hp
    refine .inl ⟨rfl, hfull, ?_⟩
    unfold follow
    rw [hfollow _ fun _ hlive => hlive]

theorem create_beside (hs : h.toTable.Sound) (hheld : h.toTable.Held a fd) {id : Fin n}
    {type : SessionType} {mem : Alloc} (hfree : h.sessions id = none)
    (ht : h'.toTable = h.toTable.create id fd type mem)
    (hc : h'.connectPoller = h.connectPoller) (ha : h'.attempts = h.attempts) :
    Beside (some a) h h' := by
  have hsessions : ∀ i, h'.sessions i = (h.toTable.create id fd type mem).sessions i := by
    intro i
    rw [ht]
  apply beside_of_live
  case hs =>
    rw [ht]
    exact Table.create_sound hs id type mem hheld.apart
  case held =>
    intro b fd' hb hheld'
    rw [ht]
    apply Table.create_held hheld'
    rintro rfl
    have howned := hheld'.owned
    rw [hheld.owned] at howned
    exact hb howned
  case births =>
    rw [ht]
    exact Nat.le_succ _
  case old =>
    intro i s hs' hb
    rw [hsessions] at hs'
    exact Table.create_born hs' hb
  case connectTime => rw [hc]
  case others =>
    intro b _
    rw [ha]
  case live =>
    intro birth hlive
    rw [ht]
    exact Table.create_live hlive hfree fd type mem

/-! ## A connected socket gets a session -/

/-- The program leaves every attempt in its place, whatever is still to be reported. -/
def Keeps (m : MsgHubM n Unit) : Prop :=
  ∀ R h h', Inv none R h → m.run h = .ok () h' → Inv none R h'

theorem Inv.report (hI : Inv (some a) R h) (ht : h.attempts[a]? = some t)
    (f : Attempt → Attempt) (hr : (f t).Reported) (hd : (f t).Disposed h.toTable a) :
    Inv none R (h.note a f) :=
  (hI.beside (note_beside hI.sound f)).settle (note_self ht f) hr hd

/-- The attempt has got the new session. -/
theorem Attempt.disposed_create {table : Table n} {t : Attempt} (hs : table.Sound)
    (hsock : t.sock = some fd) (hsession : t.session = some table.births)
    (hexhausted : t.exhausted = false) (hcloses : t.closes = 0) (id : Fin n) (type : SessionType)
    (mem : Alloc) : t.Disposed (table.create id fd type mem) a := by
  refine .session hsock hsession hexhausted (Nat.lt_succ_self _) ?_ ?_
  · intro i s hi hb
    rcases Table.create_old hi with ⟨-, rfl⟩ | ⟨-, hold⟩
    · rfl
    · exact absurd hb (Nat.ne_of_lt (hs.born i s hold))
  · rw [if_pos (Table.create_live_self ..)]
    exact hcloses

theorem initConnected_inv (hI : Inv (some a) R h) (ht : h.attempts[a]? = some t)
    (hw : t.Waiting) (hsock : t.sock = some fd) (hcloses : t.closes = 0)
    (hheld : h.toTable.Held a fd) {type : Int} {mem : Alloc} {callback : MsgHubM n Unit}
    (hcallback : Keeps callback)
    (hrun : (initConnected a fd t.ip t.port type mem callback).run h = .ok () h') :
    Inv none R h' := by
  unfold initConnected at hrun
  rw [run_bind_ok (run_get h)] at hrun
  obtain ⟨_, h₁, hset, hrun⟩ := run_bind_inv hrun
  cases hset
  have hnote : Inv (some a) R (h.handOver a) := hI.beside (note_beside hI.sound _)
  have hself : (h.handOver a).attempts[a]? =
      some { t with exhausted := decide (∀ id, (h.sessions id).isSome) } := note_self ht _
  obtain ⟨answer, h₁, hinit, hrest⟩ := run_bind_inv hrun
  rcases initNewSession_hand hinit with
    ⟨rfl, hfull, rfl⟩ | ⟨id, rfl, hfree, htable, hpoller, hattempts⟩
  · have hexhausted : decide (∀ id, (h.sessions id).isSome) = true := by
      rw [decide_eq_true_eq]
      intro id
      exact Option.isSome_iff_ne_none.2 (hfull id)
    dsimp only at hrest
    rw [run_bind_ok (run_modify ..)] at hrest
    refine hcallback _ _ _ (hnote.report hself _ ?_ ?_) hrest
    · exact ⟨_, congrArg (· ++ [.onConnectFailed t.ip t.port type]) hw.reports, rfl, rfl⟩
    · exact .leaked hsock hw.session hexhausted hcloses hheld
  · have hfits : decide (∀ id, (h.sessions id).isSome) = false := by
      rw [decide_eq_false_iff_not]
      intro hall
      have hsome := hall id
      change h.sessions id = none at hfree
      rw [hfree] at hsome
      cases hsome
    dsimp only at hrest
    rw [run_bind_ok (run_modify _ h₁)] at hrest
    have hbeside := create_beside hnote.sound hheld hfree htable hpoller hattempts
    rw [← hattempts] at hself
    refine hcallback _ _ _ ((hnote.beside hbeside).report hself _ ?_ ?_) hrest
    · exact ⟨_, congrArg (· ++ [.onConnect h.births t.ip t.port]) hw.reports, rfl, rfl⟩
    · rw [htable]
      refine Attempt.disposed_create hI.sound ?_ rfl ?_ ?_ id .connect mem
      · exact hsock
      · exact hfits
      · exact hcloses

/-! ## connectTo -/

theorem begin_self (h : MsgHub n) (ip : String) (port : Int) (limit : Nat) :
    (h.begin ip port limit).attempts[h.attempts.length]? =
      some ⟨ip, port, limit, none, [], none, false, 0⟩ :=
  List.getElem?_concat_length

theorem connectTo_keeps (ip : String) (port timeout : Int) (os : ConnectAnswer)
    {callback : MsgHubM n Unit} (hcallback : Keeps callback) (hI : Inv none R h)
    (hclosed : ∀ fd ∈ os.tried.sock, h.owner fd = none)
    (hrun : (connectTo ip port timeout os callback).run h = .ok () h') : Inv none R h' := by
  unfold connectTo at hrun
  rw [run_bind_ok (run_get h)] at hrun
  dsimp only at hrun
  have hbegin := hI.begin ip port (limitTime os.msTick timeout)
  have hself := begin_self h ip port (limitTime os.msTick timeout)
  have hwaiting : (⟨ip, port, limitTime os.msTick timeout, none, [], none, false, 0⟩ :
      Attempt).Waiting := ⟨rfl, rfl, rfl⟩
  cases htried : os.tried with
  | noSocket =>
    simp only [htried, tryConnect] at hrun
    rw [if_neg (by decide), if_pos (by decide)] at hrun
    obtain ⟨_, h₁, hset, hrest⟩ := run_bind_inv hrun
    cases hset
    refine hcallback _ _ _ (hbegin.report hself _ ?_ (.noSocket rfl)) hrest
    exact hwaiting.reported _ (.onConnectFailed ip port (-1)) rfl rfl rfl
  | refused fd =>
    have hfd : h.owner fd = none := hclosed fd (by simp [htried, TryConnect.sock])
    simp only [htried, tryConnect] at hrun
    rw [if_neg (by decide), if_pos (by decide)] at hrun
    obtain ⟨_, h₁, hset, hrest⟩ := run_bind_inv hrun
    cases hset
    have hopen := hbegin.beside (openSocket_beside hbegin.sound hfd)
    have hclose := hopen.beside
      (closeSocket_beside hopen.sound (openSocket_held hbegin.sound hfd))
    have hself' := closeSocket_self (openSocket_self hself fd) fd
    refine hcallback _ _ _ (hclose.report hself' _ ?_ (.closed rfl rfl rfl rfl)) hrest
    exact hwaiting.reported _ (.onConnectFailed ip port (-1)) rfl rfl rfl
  | inProgress fd =>
    have hfd : h.owner fd = none := hclosed fd (by simp [htried, TryConnect.sock])
    simp only [htried, tryConnect] at hrun
    rw [if_neg (by decide), if_neg (by decide)] at hrun
    cases hrun
    have hopen := hbegin.beside (openSocket_beside hbegin.sound hfd)
    refine hopen.pend (openSocket_self hself fd) rfl ?_ os.startTick
    exact ⟨⟨rfl, rfl, rfl⟩, rfl, rfl, rfl, rfl, rfl, openSocket_held hbegin.sound hfd⟩
  | connected fd =>
    have hfd : h.owner fd = none := hclosed fd (by simp [htried, TryConnect.sock])
    simp only [htried, tryConnect] at hrun
    rw [if_pos trivial] at hrun
    obtain ⟨_, h₁, hset, hrest⟩ := run_bind_inv hrun
    cases hset
    have hopen := hbegin.beside (openSocket_beside hbegin.sound hfd)
    exact initConnected_inv hopen (openSocket_self hself fd) ⟨rfl, rfl, rfl⟩ rfl rfl
      (openSocket_held hbegin.sound hfd) hcallback hrest

theorem call_keeps (c : MsgHubCall n) (replies : List (ConnectAnswer × MsgHubM n Unit))
    (hreplies : ∀ r ∈ replies, Keeps r.2) : Keeps (call c replies) := by
  intro R h h' hI hrun
  cases c with
  | poller script => exact hI.beside (turn_beside (t := .user script) hI.sound hrun)
  | connectTo ip port timeout =>
    cases replies with
    | nil =>
      cases hrun
      exact hI
    | cons r rest =>
      obtain ⟨os, callback⟩ := r
      unfold call at hrun
      rw [run_bind_ok (run_get h)] at hrun
      split_ifs at hrun with hclosed
      · exact connectTo_keeps ip port timeout os (hreplies _ List.mem_cons_self) hI hclosed hrun
      · cases hrun
        exact hI

theorem keeps_pure : Keeps (pure () : MsgHubM n Unit) := by
  intro R h h' hI hrun
  cases hrun
  exact hI

theorem keeps_seq {x y : MsgHubM n Unit} (hx : Keeps x) (hy : Keeps y) :
    Keeps (do x; y) := by
  intro R h h' hI hrun
  obtain ⟨_, h₁, hfirst, hrest⟩ := run_bind_inv hrun
  exact hy R h₁ h' (hx R h h₁ hI hfirst) hrest

theorem run_keeps (script : MsgHubScript n) : Keeps (run script) :=
  Reentrant.Script.run_rule keeps_pure (fun _ _ => keeps_seq) call_keeps script

end ChainSocket.MsgHub
