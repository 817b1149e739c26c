import ChainSocket.Poller.Flush
import ChainSocket.Lib.Triple

/-!
# Which connections the poller hears

The interest list as the calls and the loop keep it, while entries may have been disarmed by the
events that are still to be handled.

* `Heard E`: the interest list is that of the registered sessions, and but for the slots `E` every
  connection in it is asked for reading;
* `run_keeps`: whatever callbacks do, it stays so;
* `handle_heard`: handling an event takes its slot out of `E`.
-/

namespace ChainSocket

open Effect

variable {n : Nat}

/-- What the interest list depends on of a session. -/
def Session.face (s : Session) : Nat × Nat × SessionType × Bool :=
  (s.fd, s.birth, s.type, s.registered)

namespace Session

variable {s s' : Session} {mem : Alloc} {bytes : List UInt8}

theorem push_face (h : s.push mem bytes = .ok s') : s'.face = s.face := by
  unfold push at h
  obtain ⟨b, -, hb⟩ := except_bind_inv h
  cases hb
  rfl

theorem offer_face {r : SendResult} (h : s.offer r = .ok s') : s'.face = s.face := by
  cases r with
  | eagain | error => cases h; rfl
  | accepted k =>
    unfold offer at h
    obtain ⟨b, -, hb⟩ := except_bind_inv h
    cases hb
    rfl

theorem receive_face (h : s.receive mem bytes = .ok s') : s'.face = s.face := by
  unfold receive at h
  obtain ⟨b, -, hb⟩ := except_bind_inv h
  obtain ⟨b', -, hb'⟩ := except_bind_inv hb
  cases hb'
  rfl

theorem consume_face {len : Nat} (h : s.consume len = .ok s') : s'.face = s.face := by
  unfold consume at h
  obtain ⟨b, -, hb⟩ := except_bind_inv h
  cases hb
  rfl

end Session

namespace Poller

/-- The interest list has the registered sessions and no others, and outside of `E` every
connection in it is asked for reading. -/
structure Heard (E : Fin n → Prop) (p : Poller n) : Prop where
  wf : p.toTable.Wf
  owned : ∀ fd i, p.interest fd = some i →
    ∃ s, p.sessions i.ptr = some s ∧ s.fd = fd ∧ s.registered = true
  kept : ∀ id s, p.sessions id = some s → s.registered = true → ∃ i, p.interest s.fd = some i
  armed : ∀ id s i, p.Posted id s → p.interest s.fd = some i → i.read = true ∨ E id

section

variable {E E' : Fin n → Prop} {p p' : Poller n}

theorem init_heard (h : 0 < n) : (init h).Heard E := by
  constructor
  · exact Table.empty_wf
  · intro fd i hi
    cases hi
  · intro id s hs
    cases hs
  · intro id s i hs
    cases hs.1

theorem Heard.mono (h : p.Heard E) (hE : ∀ id, E id → E' id) : p.Heard E' :=
  ⟨h.wf, h.owned, h.kept, fun id s i hs hi => (h.armed id s i hs hi).imp_right (hE id)⟩

/-- A slot is no exception where what it has is armed. -/
theorem Heard.drop (h : p.Heard E) {id : Fin n}
    (hid : ∀ s i, p.Posted id s → p.interest s.fd = some i → i.read = true) :
    p.Heard fun j => E j ∧ j ≠ id := by
  refine ⟨h.wf, h.owned, h.kept, ?_⟩
  intro j s i hs hi
  by_cases hj : j = id
  · subst hj
    exact .inl (hid s i hs hi)
  · exact (h.armed j s i hs hi).imp_right fun hE => ⟨hE, hj⟩

/-- The session of an entry. -/
theorem Heard.session (h : p.Heard E) {id : Fin n} {s : Session} {i : Interest n}
    (hs : p.sessions id = some s) (hi : p.interest s.fd = some i) :
    i.ptr = id ∧ s.registered = true := by
  obtain ⟨u, hu, hfd, hreg⟩ := h.owned s.fd i hi
  have hptr := h.wf.distinct i.ptr id u s hu hs hfd
  subst hptr
  rw [hs] at hu
  cases hu
  exact ⟨rfl, hreg⟩

/-- The history and the buffers do not count. -/
theorem Heard.congr (h : p.Heard E)
    (hs : ∀ id, (p'.sessions id).map Session.face = (p.sessions id).map Session.face)
    (howner : p'.owner = p.owner) (hinterest : p'.interest = p.interest) : p'.Heard E := by
  have hold : ∀ id s', p'.sessions id = some s' → ∃ s, p.sessions id = some s ∧
      s.fd = s'.fd ∧ s.birth = s'.birth ∧ s.type = s'.type ∧ s.registered = s'.registered := by
    intro id s' hs'
    have hface := hs id
    rw [hs', Option.map_some, eq_comm, Option.map_eq_some_iff] at hface
    obtain ⟨s, hs, hface⟩ := hface
    simp only [Session.face, Prod.mk.injEq] at hface
    exact ⟨s, hs, hface⟩
  refine ⟨⟨?_, ?_⟩, ?_, ?_, ?_⟩
  · intro id s' hs'
    obtain ⟨s, hs, hfd, hbirth, -⟩ := hold id s' hs'
    rw [howner, ← hfd, ← hbirth]
    exact h.wf.owned id s hs
  · intro i j s' u' hs' hu' heq
    obtain ⟨s, hs, hfd, -⟩ := hold i s' hs'
    obtain ⟨u, hu, hufd, -⟩ := hold j u' hu'
    exact h.wf.distinct i j s u hs hu (by rw [hfd, hufd, heq])
  · intro fd i hi
    rw [hinterest] at hi
    obtain ⟨s, hsession, hfd, hreg⟩ := h.owned fd i hi
    have hface := hs i.ptr
    rw [hsession, Option.map_some, Option.map_eq_some_iff] at hface
    obtain ⟨s', hs', hface⟩ := hface
    simp only [Session.face, Prod.mk.injEq] at hface
    exact ⟨s', hs', hface.1.trans hfd, hface.2.2.2.trans hreg⟩
  · intro id s' hs' hreg
    obtain ⟨s, hs, hfd, -, -, hsame⟩ := hold id s' hs'
    rw [hinterest, ← hfd]
    exact h.kept id s hs (hsame.trans hreg)
  · rintro id s' i ⟨hs', htype, hreg⟩ hi
    obtain ⟨s, hs, hfd, -, hsame, hreg'⟩ := hold id s' hs'
    rw [hinterest, ← hfd] at hi
    rw [← hsame] at htype
    exact h.armed id s i ⟨hs, htype, hreg'.trans hreg⟩ hi

end

/-- What is true of the interest list stays true. -/
def Keeps {α : Type} (E : Fin n → Prop) (m : PollerM n α) : Prop :=
  Triple (fun _ => True) (Heard E) m fun _ => Heard E

section

variable {E : Fin n → Prop} {p : Poller n} {α β : Type}

theorem Keeps.pure (a : α) : Keeps E (pure a : PollerM n α) := Triple.pure fun _ h => h

theorem Keeps.bind {m : PollerM n α} {k : α → PollerM n β} (hm : Keeps E m)
    (hk : ∀ a, Keeps E (k a)) : Keeps E (m >>= k) := Triple.bind hm hk

theorem Keeps.get {k : Poller n → PollerM n α} (hk : ∀ p, Keeps E (k p)) :
    Keeps E (get >>= k) := by
  apply Triple.get_bind
  intro p hp
  exact (hk p).of_eq hp

theorem slot_heard (id : Fin n) : Triple (fun _ => True) (Heard E) (slot id)
    fun s p => p.Heard E ∧ p.sessions id = some s := by
  apply Triple.of_ok
  intro p s p' hp hrun
  cases hs : p.sessions id with
  | none =>
    rw [slot_none hs] at hrun
    cases hrun
  | some u =>
    rw [slot_run hs] at hrun
    cases hrun
    exact ⟨hp, hs⟩

theorem slot_keeps (id : Fin n) : Keeps E (slot id) :=
  (slot_heard id).mono (fun _ h => h) fun _ _ h => h.1

theorem put_heard (h : p.Heard E) {id : Fin n} {s s' : Session} (hs : p.sessions id = some s)
    (hface : s'.face = s.face) : (p.put id s').Heard E := by
  refine h.congr ?_ rfl rfl
  intro i
  rw [sessions_put]
  split_ifs with hi
  · rw [hi, hs, Option.map_some, Option.map_some, hface]
  · rfl

theorem change_keeps {id : Fin n} {f : Session → Except Fault Session}
    (hf : ∀ s s', f s = .ok s' → s'.face = s.face) : Keeps E (change id f) := by
  apply Triple.of_ok
  intro p a p' hp hrun
  cases hs : p.sessions id with
  | none =>
    have herror : (change id f).run p = .error .slot p :=
      Lens.zoom_error (Table.change_none hs)
    rw [herror] at hrun
    cases hrun
  | some s =>
    cases hfs : f s with
    | error e =>
      rw [change_error hs hfs] at hrun
      cases hrun
    | ok s' =>
      rw [change_run hs hfs] at hrun
      cases hrun
      exact put_heard hp hs (hf s s' hfs)

theorem act_keeps (event : Nat) (id : Fin n) : Keeps E (act event id) := by
  apply Triple.of_ok
  intro p a p' hp hrun
  obtain ⟨t, ht, rfl⟩ := Lens.zoom_inv hrun
  cases ht
  have hsame : ∀ t : Table n, (t.sessions = p.sessions ∧ t.owner = p.owner) →
      Heard E { p with toTable := t } := by
    rintro t ⟨hs, howner⟩
    exact hp.congr (fun i => by rw [hs]) howner rfl
  apply hsame
  dsimp only [table]
  split <;> exact ⟨rfl, rfl⟩

theorem observe_keeps : Keeps E (table.zoom Table.observe : PollerM n Unit) := by
  apply Triple.of_ok
  intro p a p' hp hrun
  obtain ⟨t, ht, rfl⟩ := Lens.zoom_inv hrun
  cases ht
  exact hp.congr (fun _ => rfl) rfl rfl

/-! ## Opening and closing -/

theorem create_heard (h : p.Heard E) {id curId : Fin n} {fd : Nat} (type : SessionType)
    (mem : Alloc) (vacant : p.sessions id = none) (closed : p.owner fd = none) :
    Heard E { p with toTable := p.toTable.create id fd type mem, curId } := by
  have hother : ∀ i s, p.sessions i = some s → i ≠ id := by
    rintro i s hs rfl
    rw [vacant] at hs
    cases hs
  have hold : ∀ i s, (p.toTable.create id fd type mem).sessions i = some s →
      s.registered = true → p.sessions i = some s := by
    intro i s hs hreg
    rcases Table.create_old hs with ⟨-, rfl⟩ | ⟨-, hs⟩
    · cases hreg
    · exact hs
  constructor
  · exact Table.create_wf h.wf id type mem closed
  · intro sock i hi
    obtain ⟨s, hs, hfd, hreg⟩ := h.owned sock i hi
    exact ⟨s, by rw [Table.sessions_create, if_neg (hother _ _ hs), hs], hfd, hreg⟩
  · intro i s hs hreg
    exact h.kept i s (hold i s hs hreg) hreg
  · rintro i s entry ⟨hs, htype, hreg⟩ hi
    exact h.armed i s entry ⟨hold i s hs hreg, htype, hreg⟩ hi

theorem initNewSession_keeps (fd : Nat) (type : SessionType) (mem : Alloc)
    {p : Poller n} (h : p.Heard E) (closed : p.owner fd = none) :
    Triple (fun _ => True) (· = p) (initNewSession fd type mem) fun _ => Heard E := by
  apply Triple.of_ok
  rintro q created p' rfl hrun
  cases hfind : findSlot q.sessions q.curId n with
  | mk curId found =>
    cases found with
    | none =>
      rw [initNewSession_full hfind] at hrun
      cases hrun
      exact h.congr (fun _ => rfl) rfl rfl
    | some id =>
      rw [initNewSession_run hfind] at hrun
      cases hrun
      exact create_heard h type mem (findSlot_vacant n q.curId curId id hfind) closed

theorem closeSession_heard (id : Fin n) (type : CloseType) :
    Triple (fun _ => True) (Heard E) (closeSession id type)
      fun _ p => p.Heard E ∧ p.sessions id = none := by
  apply Triple.modify
  intro p h
  cases hs : p.sessions id with
  | none => exact ⟨h, hs⟩
  | some conn =>
    have hother : ∀ i s, (p.toTable.remove id conn.fd).sessions i = some s →
        p.sessions i = some s ∧ s.fd ≠ conn.fd := by
      intro i s hi
      obtain ⟨hne, hi⟩ := Table.remove_old hi
      exact ⟨hi, fun heq => hne (h.wf.distinct i id s conn hi hs heq)⟩
    have hwf : (p.toTable.remove id conn.fd).Wf := by
      have hmove : Table.Move true none none p.toTable (p.toTable.remove id conn.fd) :=
        .remove id hs
      exact Table.move_wf hmove h.wf
    refine ⟨⟨hwf, ?_, ?_, ?_⟩, ?_⟩
    · intro fd i hi
      dsimp only at hi
      rw [Function.update_apply] at hi
      split_ifs at hi with hfd
      obtain ⟨s, hptr, hsfd, hreg⟩ := h.owned fd i hi
      have hne : i.ptr ≠ id := by
        intro heq
        rw [heq, hs] at hptr
        cases hptr
        exact hfd hsfd.symm
      exact ⟨s, by rw [Table.sessions_remove, if_neg hne, hptr], hsfd, hreg⟩
    · intro i s hi hreg
      obtain ⟨hi, hfd⟩ := hother i s hi
      dsimp only
      rw [Function.update_apply, if_neg hfd]
      exact h.kept i s hi hreg
    · rintro i s entry ⟨hi, htype, hreg⟩ hentry
      obtain ⟨hi, hfd⟩ := hother i s hi
      dsimp only at hentry
      rw [Function.update_apply, if_neg hfd] at hentry
      exact h.armed i s entry ⟨hi, htype, hreg⟩ hentry
    · rw [Table.sessions_remove, if_pos rfl]

theorem closeSession_keeps (id : Fin n) (type : CloseType) : Keeps E (closeSession id type) :=
  (closeSession_heard id type).mono (fun _ h => h) fun _ _ h => h.1

/-! ## Asking for events -/

/-- A session whose entry now asks for reading. -/
theorem watch_heard (h : p.Heard E) {id : Fin n} {s s' : Session} {i : Interest n}
    (hs : p.sessions id = some s) (hfd : s'.fd = s.fd) (hbirth : s'.birth = s.birth)
    (hreg : s'.registered = true) (hptr : i.ptr = id) (hread : i.read = true) :
    Heard E { p.put id s' with interest := Function.update p.interest s.fd (some i) } := by
  have hother : ∀ j u, j ≠ id → p.sessions j = some u → u.fd ≠ s.fd :=
    fun j u hj hu heq => hj (h.wf.distinct j id u s hu hs heq)
  refine ⟨⟨?_, ?_⟩, ?_, ?_, ?_⟩
  · intro j u hu
    obtain ⟨v, hv, hvfd, hvb⟩ := Table.put_old hs hfd hbirth hu
    rw [hvfd, hvb]
    exact h.wf.owned j v hv
  · intro j k u u' hu hu' heq
    obtain ⟨v, hv, hvfd, -⟩ := Table.put_old hs hfd hbirth hu
    obtain ⟨v', hv', hvfd', -⟩ := Table.put_old hs hfd hbirth hu'
    exact h.wf.distinct j k v v' hv hv' (by rw [← hvfd, heq, hvfd'])
  · intro fd entry hentry
    dsimp only at hentry
    rw [Function.update_apply] at hentry
    split_ifs at hentry with hsock
    · cases hentry
      subst hptr
      exact ⟨s', by simp, hfd.trans hsock.symm, hreg⟩
    · obtain ⟨u, hu, hufd, hureg⟩ := h.owned fd entry hentry
      have hne : entry.ptr ≠ id := by
        intro heq
        rw [heq, hs] at hu
        cases hu
        exact hsock hufd.symm
      exact ⟨u, by simp [hne, hu], hufd, hureg⟩
  · intro j u hu hureg
    dsimp only
    rw [Function.update_apply]
    split_ifs with hsock
    · exact ⟨i, rfl⟩
    · dsimp only at hu
      rw [sessions_put] at hu
      split_ifs at hu with hj
      · cases hu
        exact absurd hfd hsock
      · exact h.kept j u hu hureg
  · rintro j u entry ⟨hu, htype, hureg⟩ hentry
    dsimp only at hu hentry
    rw [sessions_put] at hu
    rw [Function.update_apply] at hentry
    split_ifs at hentry with hsock
    · cases hentry
      exact .inl hread
    · split_ifs at hu with hj
      · cases hu
        exact absurd hfd hsock
      · exact h.armed j u entry ⟨hu, htype, hureg⟩ hentry

theorem postRecv_keeps (id : Fin n) : Keeps E (postRecv id) := by
  apply Triple.bind (slot_heard id)
  intro conn
  apply Triple.of_ok
  rintro p a p' ⟨h, hs⟩ hrun
  obtain ⟨_, q, hadd, hchange⟩ := run_bind_inv hrun
  have hregister : ∀ q : Poller n, q.sessions id = some conn →
      (change id fun s => .ok { s with registered := true }).run q =
        .ok () (q.put id { conn with registered := true }) := fun _ hq => change_run hq rfl
  cases hadd
  cases hi : p.interest conn.fd with
  | none =>
    simp only [hi] at hchange
    have hadded := hregister { p with
      interest := Function.update p.interest conn.fd (some ⟨true, false, false, id⟩) } hs
    rw [hadded] at hchange
    cases hchange
    exact watch_heard h hs rfl rfl rfl rfl rfl
  | some i =>
    simp only [hi] at hchange
    rw [hregister p hs] at hchange
    cases hchange
    obtain ⟨-, hreg⟩ := h.session hs hi
    exact put_heard h hs (by simp [Session.face, hreg])

theorem pollMod_heard (h : p.Heard E) {id : Fin n} {conn : Session} {write : Bool}
    (hs : p.sessions id = some conn) :
    Triple (fun _ => True) (· = p) (pollMod conn.fd ⟨true, write, true, id⟩)
      fun _ => Heard fun j => E j ∧ j ≠ id := by
  apply Triple.modify
  rintro q rfl
  cases hi : q.interest conn.fd with
  | none =>
    apply h.drop
    rintro s i ⟨hs', -⟩ hentry
    rw [hs] at hs'
    cases hs'
    rw [hi] at hentry
    cases hentry
  | some i =>
    obtain ⟨-, hreg⟩ := h.session hs hi
    have hput : ∀ j, (q.put id conn).sessions j = q.sessions j := by
      intro j
      rw [sessions_put]
      split_ifs with hj
      · rw [hj, hs]
      · rfl
    have hwatch : Heard E { q.put id conn with
        interest := Function.update q.interest conn.fd (some ⟨true, write, true, id⟩) } :=
      watch_heard h hs rfl rfl hreg rfl rfl
    apply Heard.drop
    · exact hwatch.congr (fun j => congrArg (Option.map Session.face) (hput j).symm) rfl rfl
    · rintro s entry ⟨hs', -⟩ hentry
      rw [hs] at hs'
      cases hs'
      dsimp only at hentry
      rw [Function.update_self] at hentry
      cases hentry
      rfl

/-- The `pollMod` at the end: the session in the slot is armed. -/
theorem rearm_heard (e : PollEvent n) (write : Bool) :
    Triple (fun _ => True) (Heard E) (rearm e write)
      fun _ => Heard fun id => E id ∧ id ≠ e.id := by
  apply Triple.bind (slot_heard e.id)
  intro conn
  have hact : Triple (fun _ => True) (fun p => p.Heard E ∧ p.sessions e.id = some conn)
      (act e.birth e.id) fun _ p => p.Heard E ∧ p.sessions e.id = some conn := by
    apply Triple.of_ok
    rintro p a p' ⟨h, hs⟩ hrun
    refine ⟨(act_keeps e.birth e.id).ok p a p' h hrun, ?_⟩
    obtain ⟨t, ht, rfl⟩ := Lens.zoom_inv hrun
    cases ht
    dsimp only [table]
    rw [hs]
    exact hs
  apply hact.bind
  intro _
  apply Triple.pointwise
  rintro p ⟨h, hs⟩
  exact pollMod_heard h hs

/-! ## Sending and receiving -/

theorem sent_keeps (r : SendResult) {onSend : PollerM n Unit} (honSend : Keeps E onSend) :
    Keeps E (sent r onSend) := by
  cases r with
  | error => exact .pure _
  | eagain => exact .pure _
  | accepted k =>
    unfold sent
    dsimp only
    split_ifs with hk
    · exact .pure _
    · exact honSend.bind fun _ => .pure _

theorem postSend_keeps (id : Fin n) (r : SendResult) {onSend : PollerM n Unit}
    (honSend : Keeps E onSend) : Keeps E (postSend id r onSend) := by
  apply (slot_keeps id).bind
  intro conn
  split_ifs
  · exact .pure _
  · exact (change_keeps fun _ _ hs => Session.offer_face hs).bind fun _ => sent_keeps r honSend

theorem sendTo_keeps (id : Fin n) (mem : Alloc) (buf : List UInt8) (r : SendResult)
    {onSend : PollerM n Unit} (honSend : Keeps E onSend) :
    Keeps E (sendTo id mem buf r onSend) := by
  have hpush : Keeps E (change id (·.push mem buf)) :=
    change_keeps fun _ _ hs => Session.push_face hs
  apply (slot_keeps id).bind
  intro conn
  split_ifs
  · exact hpush
  · apply hpush.bind
    intro _
    exact (postSend_keeps id r honSend).bind fun _ => .pure _

theorem handleReadEvent_keeps (id : Fin n) (mem : Alloc) (r : RecvResult)
    {onRecv : PollerM n Unit} (honRecv : Keeps E onRecv) :
    Keeps E (handleReadEvent id mem r onRecv) := by
  apply (slot_keeps id).bind
  intro conn
  split_ifs
  · exact .pure _
  · split
    · exact .pure _
    · apply (change_keeps fun _ _ hs => Session.receive_face hs).bind
      intro _
      exact honRecv.bind fun _ => .pure _
    · exact .pure _
    · exact .pure _

/-! ## Callbacks -/

theorem hand_keeps (id : Fin n) (buf : List UInt8) : Keeps E (hand id buf) := by
  apply change_keeps
  intro s s' hs
  cases hs
  rfl

theorem call_keeps (c : PollerCall n) (replies : List (SendResult × PollerM n Unit))
    (hreplies : ∀ h ∈ replies, Keeps E h.2) : Keeps E (call c replies) := by
  apply Triple.get_bind
  intro p hp
  cases c with
  | sendTo id mem buf =>
    dsimp only
    split_ifs
    · exact (Keeps.pure _).of_eq hp
    · apply ((hand_keeps id buf).of_eq hp).bind
      intro _
      cases replies with
      | nil => exact sendTo_keeps id mem buf _ (.pure _)
      | cons reply rest => exact sendTo_keeps id mem buf _ (hreplies reply (by simp))
  | postRecv id =>
    dsimp only
    split_ifs
    · exact (Keeps.pure _).of_eq hp
    · exact (postRecv_keeps id).of_eq hp
  | closeSession id type => exact (closeSession_keeps id type).of_eq hp
  | initNewSession fd type mem =>
    dsimp only
    split_ifs with hfd
    · exact (initNewSession_keeps fd type mem hp hfd).bind fun _ => Keeps.pure _
    · exact (Keeps.pure _).of_eq hp
  | consume id len =>
    dsimp only
    split_ifs
    · exact (Keeps.pure _).of_eq hp
    · exact (change_keeps fun _ _ hs => Session.consume_face hs).of_eq hp

theorem run_keeps (script : PollerScript n) : Keeps E (run script) :=
  Reentrant.Script.run_rule observe_keeps (fun _ _ hx hy => hx.bind fun _ => hy) call_keeps script

/-! ## The loop -/

variable {e : PollEvent n}

theorem readBranch_heard : Triple (fun _ => True) (Heard E) (readBranch e)
    fun more p => p.Heard E ∧ (more = false → p.sessions e.id = none) := by
  have hmore : ∀ p : Poller n, p.Heard E →
      p.Heard E ∧ (true = false → p.sessions e.id = none) := fun p hp => ⟨hp, nofun⟩
  unfold readBranch
  split_ifs
  · apply Triple.bind (act_keeps e.birth e.id)
    intro _
    apply Triple.bind (handleReadEvent_keeps e.id e.mem e.recv (run_keeps e.onRecv))
    intro ret
    apply Triple.get_bind
    intro p hp
    split_ifs with hclosed
    · exact .pure fun _ heq => heq ▸ ⟨hp, fun _ => hclosed⟩
    · apply ((closeSession_heard e.id .readError2).of_eq hp).bind
      intro _
      exact .pure fun _ hq => ⟨hq.1, fun _ => hq.2⟩
    · exact .pure fun _ heq => heq ▸ hmore p hp
  · exact .pure hmore

theorem writeBranch_heard : Triple (fun _ => True) (Heard E) (writeBranch e)
    fun write p => p.Heard E ∧ (write = none → p.sessions e.id = none) := by
  have hwrite : ∀ (write : Bool) (p : Poller n), p.Heard E →
      p.Heard E ∧ (some write = none → p.sessions e.id = none) := fun _ p hp => ⟨hp, nofun⟩
  unfold writeBranch
  split_ifs
  · apply Triple.bind (act_keeps e.birth e.id)
    intro _
    apply Triple.bind (postSend_keeps e.id e.send (run_keeps e.onSend))
    intro ret
    apply Triple.get_bind
    intro p hp
    split_ifs with hclosed
    · exact .pure fun _ heq => heq ▸ ⟨hp, fun _ => hclosed⟩
    · apply ((closeSession_keeps e.id .sendError2).of_eq hp).bind
      intro _
      exact .pure (hwrite false)
    · apply ((slot_keeps e.id).of_eq hp).bind
      intro conn
      exact .pure (hwrite _)
  · exact .pure (hwrite false)

/-- A slot that is empty needs no event. -/
theorem Heard.empty (h : p.Heard E) {id : Fin n} (hs : p.sessions id = none) :
    p.Heard fun j => E j ∧ j ≠ id := by
  apply h.drop
  rintro s i ⟨hs', -⟩
  rw [hs] at hs'
  cases hs'

theorem ready_heard : Triple (fun _ => True) (Heard E) (ready e)
    fun _ => Heard fun id => E id ∧ id ≠ e.id := by
  apply readBranch_heard.bind
  intro more
  cases more with
  | false => exact .pure fun _ hp => hp.1.empty (hp.2 rfl)
  | true =>
    apply Triple.bind (writeBranch_heard.pre fun _ hp => hp.1)
    intro write
    cases write with
    | none => exact .pure fun _ hp => hp.1.empty (hp.2 rfl)
    | some write => exact (rearm_heard e write).pre fun _ hp => hp.1

theorem acceptLoop_keeps (sock : Nat) (accepts : List (Incoming n)) :
    Keeps E (acceptLoop e sock accepts) := by
  induction accepts with
  | nil => exact .pure _
  | cons c rest ih =>
    apply Triple.get_bind
    intro p hp
    cases howner : p.owner sock with
    | none => exact (Keeps.pure _).of_eq hp
    | some target =>
      dsimp only
      split_ifs with hsock
      · exact (Keeps.pure _).of_eq hp
      · have hclosed : p.owner c.sock = none := by
          by_contra h
          exact hsock (.inr h)
        have hrecord : Triple (fun _ => True) (· = p)
            (modify fun p => { p with toTable := p.toTable.record e.birth target } : PollerM n Unit)
            fun _ q => q.Heard E ∧ q.owner c.sock = none := by
          apply Triple.modify
          rintro q rfl
          exact ⟨hp.congr (fun _ => rfl) rfl rfl, hclosed⟩
        apply hrecord.bind
        intro _
        apply Triple.bind (R := fun _ => Heard E)
        · apply Triple.pointwise
          intro q hq
          exact initNewSession_keeps c.sock .accept c.mem hq.1 hq.2
        · intro found
          cases found with
          | none => exact ih
          | some aid =>
            apply (act_keeps e.birth e.id).bind
            intro _
            exact (run_keeps c.onAccept).bind fun _ => ih

/-- An event is handled: its slot is no exception any more. -/
theorem handle_heard : Triple (fun _ => True) (Heard E) (handle e)
    fun _ => Heard fun id => E id ∧ id ≠ e.id := by
  apply Triple.get_bind
  intro p hp
  cases hs : p.sessions e.id with
  | none => exact .pure fun _ heq => heq ▸ hp.empty hs
  | some conn =>
    dsimp only
    unfold dispatch
    cases htype : conn.type with
    | none => exact ⟨fun _ _ _ _ hrun => (by cases hrun), fun _ _ _ _ _ => trivial⟩
    | connect | accept => exact ready_heard.of_eq hp
    | listen =>
      have hdrop : p.Heard fun id => E id ∧ id ≠ e.id := by
        apply hp.drop
        rintro s i ⟨hs', hconn, -⟩
        rw [hs] at hs'
        cases hs'
        simp [htype] at hconn
      have hlisten : ∀ listening, Keeps (fun id => E id ∧ id ≠ e.id)
          (modify fun p => { p with listening } : PollerM n Unit) :=
        fun _ => .modify fun _ h => h.congr (fun _ => rfl) rfl rfl
      apply ((hlisten (some (conn.fd, e.birth))).of_eq hdrop).bind
      intro _
      apply (acceptLoop_keeps conn.fd e.accepts).bind
      intro _
      exact hlisten none

theorem handleAll_heard (es : List (PollEvent n)) :
    Triple (fun _ => True) (Heard fun id => id ∈ es.map PollEvent.id) (handleAll es)
      fun _ => Heard fun _ => False := by
  induction es with
  | nil => exact .pure fun _ hp => hp.mono fun _ h => by cases h
  | cons e es ih =>
    apply handle_heard.bind
    intro _
    have hpop : Triple (fun _ => True)
        (Heard fun id => id ∈ (e :: es).map PollEvent.id ∧ id ≠ e.id)
        (modify fun p => { p with waiting := p.waiting.tail } : PollerM n Unit)
        fun _ => Heard fun id => id ∈ es.map PollEvent.id := by
      apply Triple.modify
      intro p hp
      have hrest : Heard (fun id => id ∈ (e :: es).map PollEvent.id ∧ id ≠ e.id)
          { p with waiting := p.waiting.tail } := hp.congr (fun _ => rfl) rfl rfl
      apply hrest.mono
      rintro id ⟨hid, hne⟩
      exact (List.mem_cons.mp hid).resolve_left hne
    exact hpop.bind fun _ => ih

end

end Poller

end ChainSocket
