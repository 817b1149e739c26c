import ChainSocket.MsgHub.Connect

/-!
# What Poller does to the sockets of MsgHub

* `turn_kept`: a call of `Poller`, and a `loopOnce`, leaves the sockets alone that are being
  connected, and opens no session under a birth from before;
* `closings_once`: on the way the socket of a session is closed once if the session goes, and not
  at all if it stays.
-/

namespace ChainSocket

variable {n : Nat}

namespace Table

/-- A socket that is being connected, or was when the table was full. -/
structure Held (t : Table n) (attempt fd : Nat) : Prop where
  owned : t.owner fd = some attempt
  apart : ∀ id s, t.sessions id = some s → s.fd ≠ fd

structure Sound (t : Table n) : Prop where
  wf : t.Wf
  born : ∀ id s, t.sessions id = some s → s.birth < t.births
  single : ∀ i j s s', t.sessions i = some s → t.sessions j = some s' → s.birth = s'.birth → i = j

theorem empty_sound : (empty : Table n).Sound := by
  refine ⟨empty_wf, ?_, ?_⟩
  · intro id s hs
    cases hs
  · intro i j s s' hs
    cases hs

theorem Sound.of_eq {t t' : Table n} (h : t.Sound) (hs : t'.sessions = t.sessions)
    (ho : t'.owner = t.owner) (hb : t'.births = t.births) : t'.Sound := by
  refine ⟨⟨?_, ?_⟩, ?_, ?_⟩
  · rw [hs, ho]
    exact h.wf.owned
  · rw [hs]
    exact h.wf.distinct
  · rw [hs, hb]
    exact h.born
  · rw [hs]
    exact h.single

theorem Held.of_eq {t t' : Table n} {attempt fd : Nat} (h : t.Held attempt fd)
    (hs : t'.sessions = t.sessions) (ho : t'.owner = t.owner) : t'.Held attempt fd := by
  refine ⟨?_, ?_⟩
  · rw [ho]
    exact h.owned
  · rw [hs]
    exact h.apart

/-- What any number of steps leaves of the sessions and of the sockets that are held. -/
structure Kept (t t' : Table n) : Prop where
  sound : t'.Sound
  held : ∀ attempt fd, t.Held attempt fd → t'.Held attempt fd
  births : t.births ≤ t'.births
  old : ∀ id s', t'.sessions id = some s' → s'.birth < t.births →
    ∃ s, t.sessions id = some s ∧ s.birth = s'.birth ∧ s.fd = s'.fd

theorem Kept.of_eq {t t' : Table n} (ht : t.Sound) (hs : t'.sessions = t.sessions)
    (ho : t'.owner = t.owner) (hb : t'.births = t.births) : Kept t t' := by
  refine ⟨ht.of_eq hs ho hb, fun _ _ hheld => hheld.of_eq hs ho, Nat.le_of_eq hb.symm, ?_⟩
  intro id s' hs' _
  rw [hs] at hs'
  exact ⟨s', hs', rfl, rfl⟩

theorem Kept.refl {t : Table n} (ht : t.Sound) : Kept t t := .of_eq ht rfl rfl rfl

theorem Kept.trans {t u v : Table n} (h : Kept t u) (h' : Kept u v) : Kept t v := by
  refine ⟨h'.sound, fun a fd hheld => h'.held a fd (h.held a fd hheld), h.births.trans h'.births,
    ?_⟩
  intro id s hs hb
  obtain ⟨s₁, hs₁, hb₁, hfd₁⟩ := h'.old id s hs (Nat.lt_of_lt_of_le hb h.births)
  obtain ⟨s₂, hs₂, hb₂, hfd₂⟩ := h.old id s₁ hs₁ (by omega)
  exact ⟨s₂, hs₂, hb₂.trans hb₁, hfd₂.trans hfd₁⟩

theorem move_kept {w : Bool} {cur : Option (Waiting n)} {sock : Option Nat} {t t' : Table n}
    (h : Move w cur sock t t') (ht : t.Sound) : Kept t t' := by
  have hwf := move_wf h ht.wf
  cases h with
  | observe | act | accept => exact .of_eq ht rfl rfl rfl
  | @change id s s' filled move =>
    obtain ⟨hfd, hb⟩ := Session.move_identity move
    have hold : ∀ i u, (t.put id s').sessions i = some u →
        ∃ v, t.sessions i = some v ∧ u.fd = v.fd ∧ u.birth = v.birth :=
      fun i u hu => put_old filled hfd hb hu
    refine ⟨⟨hwf, ?_, ?_⟩, ?_, Nat.le_refl _, ?_⟩
    · intro i u hu
      obtain ⟨v, hv, -, hvb⟩ := hold i u hu
      rw [hvb]
      exact ht.born i v hv
    · intro i j u u' hu hu' heq
      obtain ⟨v, hv, -, hvb⟩ := hold i u hu
      obtain ⟨v', hv', -, hvb'⟩ := hold j u' hu'
      exact ht.single i j v v' hv hv' (by rw [← hvb, heq, hvb'])
    · rintro attempt fd ⟨howned, hapart⟩
      refine ⟨howned, ?_⟩
      intro i u hu
      obtain ⟨v, hv, hvfd, -⟩ := hold i u hu
      rw [hvfd]
      exact hapart i v hv
    · intro i u hu _
      obtain ⟨v, hv, hvfd, hvb⟩ := hold i u hu
      exact ⟨v, hv, hvb.symm, hvfd.symm⟩
  | @remove id s filled =>
    refine ⟨⟨hwf, fun i u hu => ht.born i u (remove_old hu).2, ?_⟩, ?_, Nat.le_refl _, ?_⟩
    · intro i j u u' hu hu'
      exact ht.single i j u u' (remove_old hu).2 (remove_old hu').2
    · rintro attempt fd ⟨howned, hapart⟩
      refine ⟨?_, fun i u hu => hapart i u (remove_old hu).2⟩
      rw [owner_remove, if_neg (hapart id s filled).symm]
      exact howned
    · intro i u hu _
      exact ⟨u, (remove_old hu).2, rfl, rfl⟩

theorem loop_kept {w : Bool} {t t' : Table n} (h : LoopMove w t t') (ht : t.Sound) :
    Kept t t' := by
  cases h with
  | move _ _ move => exact move_kept move ht
  | listen | unlisten | pop => exact .of_eq ht rfl rfl rfl

/-- A session on a socket that no session has keeps every socket with its own session. -/
theorem create_sound {t : Table n} (ht : t.Sound) (id : Fin n) {fd : Nat} (type : SessionType)
    (mem : Alloc) (apart : ∀ i s, t.sessions i = some s → s.fd ≠ fd) :
    (t.create id fd type mem).Sound := by
  refine ⟨⟨?_, ?_⟩, ?_, ?_⟩
  · intro i u hu
    rcases create_old hu with ⟨-, rfl⟩ | ⟨-, hold⟩
    · simp [Session.create]
    · simpa [apart i u hold] using ht.wf.owned i u hold
  · intro i j u u' hu hu' heq
    rcases create_old hu with ⟨hi, rfl⟩ | ⟨-, hold⟩ <;>
      rcases create_old hu' with ⟨hj, rfl⟩ | ⟨-, hold'⟩
    · exact hi.trans hj.symm
    · exact absurd heq.symm (apart j u' hold')
    · exact absurd heq (apart i u hold)
    · exact ht.wf.distinct i j u u' hold hold' heq
  · intro i u hu
    rcases create_old hu with ⟨-, rfl⟩ | ⟨-, hold⟩
    · exact Nat.lt_succ_self _
    · exact Nat.lt_succ_of_lt (ht.born i u hold)
  · intro i j u u' hu hu' heq
    rcases create_old hu with ⟨hi, rfl⟩ | ⟨-, hold⟩ <;>
      rcases create_old hu' with ⟨hj, rfl⟩ | ⟨-, hold'⟩
    · exact hi.trans hj.symm
    · exact absurd heq.symm (Nat.ne_of_lt (ht.born j u' hold'))
    · exact absurd heq (Nat.ne_of_lt (ht.born i u hold))
    · exact ht.single i j u u' hold hold' heq

theorem create_born {t : Table n} {id i : Fin n} {fd : Nat} {type : SessionType} {mem : Alloc}
    {u : Session} (hu : (t.create id fd type mem).sessions i = some u) (hb : u.birth < t.births) :
    t.sessions i = some u := by
  rcases create_old hu with ⟨-, rfl⟩ | ⟨-, hold⟩
  · exact absurd hb (Nat.lt_irrefl _)
  · exact hold

/-- A new session leaves the other sockets held. -/
theorem create_held {t : Table n} {attempt fd fd' : Nat} (h : t.Held attempt fd) (id : Fin n)
    (type : SessionType) (mem : Alloc) (hne : fd' ≠ fd) :
    (t.create id fd' type mem).Held attempt fd := by
  refine ⟨?_, ?_⟩
  · rw [owner_create, if_neg hne.symm]
    exact h.owned
  · intro i u hu
    rcases create_old hu with ⟨-, rfl⟩ | ⟨-, hold⟩
    · exact hne
    · exact h.apart i u hold

theorem create_kept {t : Table n} (ht : t.Sound) (id : Fin n) (fd : Nat) (type : SessionType)
    (mem : Alloc) (closed : t.owner fd = none) : Kept t (t.create id fd type mem) := by
  have hapart : ∀ i s, t.sessions i = some s → s.fd ≠ fd := by
    rintro i s hs rfl
    have howned := ht.wf.owned i s hs
    rw [closed] at howned
    cases howned
  refine ⟨create_sound ht id type mem hapart, ?_, Nat.le_succ _, ?_⟩
  · intro attempt fd' hheld
    apply create_held hheld
    rintro rfl
    have howned := hheld.owned
    rw [closed] at howned
    cases howned
  · intro i u hu hb
    exact ⟨u, create_born hu hb, rfl, rfl⟩

/-! ### Open sessions -/

theorem live_iff {t : Table n} {birth : Nat} :
    t.Live birth ↔ ∃ id s, t.sessions id = some s ∧ s.birth = birth := by
  simp [Live, Option.map_eq_some_iff]

theorem Kept.live {t t' : Table n} {birth : Nat} (h : t.Kept t') (hb : birth < t.births)
    (hlive : t'.Live birth) : t.Live birth := by
  obtain ⟨id, s, hs, rfl⟩ := live_iff.1 hlive
  obtain ⟨s', hs', hb', -⟩ := h.old id s hs hb
  exact live_iff.2 ⟨id, s', hs', hb'⟩

theorem put_live {t : Table n} {birth : Nat} (hlive : t.Live birth) {id : Fin n} {s s' : Session}
    (hs : t.sessions id = some s) (hb : s'.birth = s.birth) : (t.put id s').Live birth := by
  obtain ⟨i, u, hu, hub⟩ := live_iff.1 hlive
  by_cases hi : i = id
  · subst hi
    rw [hs] at hu
    cases hu
    exact live_iff.2 ⟨i, s', by simp, hb.trans hub⟩
  · refine live_iff.2 ⟨i, u, ?_, hub⟩
    rw [sessions_put, if_neg hi]
    exact hu

/-- A new session takes no slot from another one. -/
theorem create_live {t : Table n} {birth : Nat} (hlive : t.Live birth) {id : Fin n}
    (vacant : t.sessions id = none) (fd : Nat) (type : SessionType) (mem : Alloc) :
    (t.create id fd type mem).Live birth := by
  obtain ⟨i, u, hu, hub⟩ := live_iff.1 hlive
  refine live_iff.2 ⟨i, u, ?_, hub⟩
  rw [sessions_create, if_neg]
  · exact hu
  · rintro rfl
    rw [vacant] at hu
    cases hu

theorem create_live_self (t : Table n) (id : Fin n) (fd : Nat) (type : SessionType) (mem : Alloc) :
    (t.create id fd type mem).Live t.births :=
  live_iff.2 ⟨id, .create id fd type t.births mem, by simp, rfl⟩

theorem remove_live {t : Table n} {birth : Nat} (hlive : t.Live birth) {id : Fin n} {fd : Nat}
    (hstays : ∀ s, t.sessions id = some s → s.birth ≠ birth) : (t.remove id fd).Live birth := by
  obtain ⟨i, u, hu, hub⟩ := live_iff.1 hlive
  refine live_iff.2 ⟨i, u, ?_, hub⟩
  rw [sessions_remove, if_neg]
  · exact hu
  · rintro rfl
    exact hstays u hu hub

end Table

namespace Poller

open Effect

theorem step_kept {t : Table n} {w : Bool} {p p' : Poller n} (h : Step (Table.LoopMove w) w p p')
    (hp : t.Kept p.toTable) : t.Kept p'.toTable :=
  step_table (fun _ _ hmove hkept => hkept.trans (Table.loop_kept hmove hkept.sound))
    (fun _ id fd type mem closed hkept =>
      hkept.trans (Table.create_kept hkept.sound id fd type mem closed)) h hp

theorem turn_kept {p p' : Poller n} {t : Turn n} (h : (turn t).run p = .ok () p')
    (hp : p.toTable.Sound) : p.toTable.Kept p'.toTable := by
  have hbegin : ∀ (q : Poller n) es, p.toTable.Kept q.toTable →
      p.toTable.Kept (q.begun es).toTable := by
    intro q es hq
    exact hq.trans (.of_eq hq.sound rfl rfl rfl)
  exact turn_ok (I := fun q => p.toTable.Kept q.toTable) (w := true) hbegin (fun _ _ => step_kept)
    (fun _ _ _ _ _ => rfl) h (.refl hp)

/-! ## How often a socket is closed -/

/-- The step closes the socket of the session `birth`. -/
def Closes (birth : Nat) (p p' : Poller n) : Prop :=
  ∃ id s, p.sessions id = some s ∧ s.birth = birth ∧ p'.toTable = p.toTable.remove id s.fd

/-- Steps from one state to another that close the socket of the session `birth` so often. -/
inductive Closings (birth : Nat) (p : Poller n) : Poller n → Nat → Prop
  | refl : Closings birth p p 0
  | other {q r : Poller n} {k : Nat} (before : Closings birth p q k)
      (step : Step (Table.LoopMove true) true q r) (stays : ¬ Closes birth q r) :
      Closings birth p r k
  | close {q r : Poller n} {k : Nat} (before : Closings birth p q k)
      (step : Step (Table.LoopMove true) true q r) (closes : Closes birth q r) :
      Closings birth p r (k + 1)

/-- A step that does not close the socket of a session leaves it open. -/
theorem step_live {birth : Nat} {p p' : Poller n}
    (h : Step (Table.LoopMove true) true p p') (hstays : ¬ Closes birth p p')
    (hlive : p.Live birth) : p'.Live birth := by
  cases h with
  | create id fd type mem vacant closed => exact Table.create_live hlive vacant fd type mem
  | curId | forget | watch => exact hlive
  | table move =>
    cases move with
    | listen | unlisten | pop => exact hlive
    | move _ _ move =>
      cases move with
      | observe | act | accept => exact hlive
      | change id filled move =>
        obtain ⟨-, hb⟩ := Session.move_identity move
        exact Table.put_live hlive filled hb
      | @remove id s filled =>
        apply Table.remove_live hlive
        intro u hu hub
        rw [filled] at hu
        cases hu
        exact hstays ⟨id, s, filled, hub, rfl⟩

theorem Closings.kept {birth : Nat} {p q : Poller n} {k : Nat} (h : Closings birth p q k)
    (hp : p.toTable.Sound) : p.toTable.Kept q.toTable := by
  induction h with
  | refl => exact .refl hp
  | other _ step _ ih | close _ step _ ih => exact step_kept step ih

/-- Whatever the steps are, the socket of a session that was open before them is closed once if the
session has gone, and else not at all. -/
theorem closings_once {birth : Nat} {p q : Poller n} {k : Nat} (h : Closings birth p q k)
    (hp : p.toTable.Sound) (hb : birth < p.births) :
    k = if p.Live birth ∧ ¬ q.Live birth then 1 else 0 := by
  have hcount : (k = 0 ∧ (p.Live birth → q.Live birth)) ∨
      (k = 1 ∧ p.Live birth ∧ ¬ q.Live birth) := by
    induction h with
    | refl => exact .inl ⟨rfl, id⟩
    | @other q r k before step stays ih =>
      rcases ih with ⟨hk, hlive⟩ | ⟨hk, hlive, hgone⟩
      · exact .inl ⟨hk, fun h => step_live step stays (hlive h)⟩
      · have hkept := before.kept hp
        refine .inr ⟨hk, hlive, fun h => hgone ?_⟩
        exact (step_kept step (.refl hkept.sound)).live (Nat.lt_of_lt_of_le hb hkept.births) h
    | @close q r k before step closes ih =>
      have hkept := before.kept hp
      obtain ⟨id, s, hs, hsb, hr⟩ := closes
      have hlive : q.Live birth := Table.live_iff.2 ⟨id, s, hs, hsb⟩
      rcases ih with ⟨rfl, -⟩ | ⟨-, -, hgone⟩
      · refine .inr ⟨rfl, hkept.live hb hlive, ?_⟩
        intro h
        obtain ⟨i, u, hu, hub⟩ := Table.live_iff.1 h
        rw [hr] at hu
        obtain ⟨hi, hold⟩ := Table.remove_old hu
        exact hi (hkept.sound.single i id u s hold hs (hub.trans hsb.symm))
      · exact absurd hlive hgone
  rcases hcount with ⟨rfl, hlive⟩ | ⟨rfl, hlive, hgone⟩
  · rw [if_neg fun h => h.2 (hlive h.1)]
  · rw [if_pos ⟨hlive, hgone⟩]

/-- A call or a `loopOnce` closes the socket of each session at most once, and exactly where the
session goes. -/
theorem turn_closings {p p' : Poller n} {t : Turn n} (h : (turn t).run p = .ok () p')
    (hp : p.toTable.Sound) {birth : Nat} (hb : birth < p.births) :
    ∃ q, q.sessions = p.sessions ∧
      Closings birth q p' (if p.Live birth ∧ ¬ p'.Live birth then 1 else 0) := by
  have hbegin : ∀ (q : Poller n) es, q.sessions = p.sessions ∧ q.toTable.Sound ∧
      q.births = p.births → (q.begun es).sessions = p.sessions ∧ (q.begun es).toTable.Sound ∧
      (q.begun es).births = p.births := by
    rintro q es ⟨hs, hq, hbirths⟩
    exact ⟨hs, hq.of_eq rfl rfl rfl, hbirths⟩
  obtain ⟨q, m, hrun, hm, hs, hq, hbirths⟩ := turn_loops (w := true) hbegin t
    (fun _ _ _ _ _ => rfl) ⟨rfl, hp, rfl⟩
  rw [hrun] at h
  have hcount : ∃ k, Closings birth q p' k := by
    have hsteps := hm.ok () p' h
    clear h
    induction hsteps with
    | refl => exact ⟨0, .refl⟩
    | @tail r r' _ step ih =>
      obtain ⟨k, hk⟩ := ih
      by_cases hc : Closes birth r r'
      · exact ⟨k + 1, .close hk step hc⟩
      · exact ⟨k, .other hk step hc⟩
  obtain ⟨k, hk⟩ := hcount
  have hlive : q.Live birth ↔ p.Live birth := by
    unfold Table.Live
    rw [hs]
  have honce := closings_once hk hq (by omega)
  simp only [hlive] at honce
  exact ⟨q, hs, honce ▸ hk⟩

end Poller

end ChainSocket
