import ChainSocket.MsgHub.Attempts
import ChainSocket.MsgHub.Tasks
import ChainSocket.Lib.Triple

/-!
# The checks of onTask

* `treated_iff`: the runs in which the lengths of the tasks are told apart;
* `touchesOnly_iff`: the runs in which a task touches no session but the one it points to.
-/

namespace ChainSocket

/-! ## Lengths -/

namespace HandledTask

variable {n : Nat} (address : Nat → Nat)

/-- The session it points to was open, and in its slot. -/
def Addressed (d : HandledTask n) : Prop := d.task.sessPtr ≠ none ∧ d.slot = d.task.sessPtr

/-- A task that is long enough for its struct takes effect once; a shorter one has none, and its
struct is not read. -/
def Treated (d : HandledTask n) : Prop :=
  ∀ c, d.call = some c →
    (d.task.data.size ≤ d.task.len.toInt → d.Addressed → d.calls = [c]) ∧
    (d.task.len.toInt < d.task.data.size → d.calls = [])

/-- A task of negative length whose pointer is that of its slot, or one just long enough whose
session is open. -/
def Misjudged (d : HandledTask n) : Prop :=
  d.call ≠ none ∧ (d.task.len.toInt < 0 ∧ d.Guarded address ∨
    d.task.len.toInt = d.task.data.size ∧ d.Addressed)

theorem Addressed.guarded {d : HandledTask n} (h : d.Addressed) : d.Guarded address :=
  congrArg (Option.map address) h.2

theorem size_lt (data : TaskData) : data.size < 2 ^ 31 := by
  cases data <;> simp [TaskData.size]

theorem size_pos {d : HandledTask n} {c : TaskCall n} (h : d.call = some c) :
    0 < d.task.data.size := by
  unfold call at h
  cases hdata : d.task.data with
  | none =>
    rw [hdata] at h
    cases h
  | sendTo | closeSession | connectTo => simp [TaskData.size]

theorem Follows.treated {d : HandledTask n} (h : d.Follows address) :
    d.Treated ↔ ¬ d.Misjudged address := by
  unfold Follows at h
  cases hcall : d.call with
  | none => exact iff_of_true (fun c hc => by rw [hcall] at hc; cases hc) fun hmis => hmis.1 hcall
  | some c =>
    have hpos := size_pos hcall
    have hexceeds : exceeds d.task.len d.task.data.size ↔ _ := exceeds_iff (size_lt d.task.data)
    by_cases hguard : d.Guarded address
    · rw [if_pos hguard, passed, hcall, Option.toList_some] at h
      constructor
      · rintro htreated ⟨-, hmis⟩
        obtain ⟨hwhole, hshort⟩ := htreated c hcall
        cases hmis with
        | inl hneg =>
          have hnone := hshort (by omega)
          rw [if_pos (hexceeds.mpr (.inl hneg.1)), hnone] at h
          cases h
        | inr heq =>
          have hone := hwhole (by omega) heq.2
          rw [if_neg (fun he => by have := hexceeds.mp he; omega), hone] at h
          cases h
      · intro hmis c' hc'
        cases hcall.symm.trans hc'
        constructor
        · intro hwhole haddressed
          rw [h, if_pos]
          refine hexceeds.mpr (.inr (lt_of_le_of_ne hwhole ?_))
          exact fun heq => hmis ⟨by simp [hcall], .inr ⟨heq.symm, haddressed⟩⟩
        · intro hshort
          rw [h, if_neg]
          intro he
          refine hmis ⟨by simp [hcall], .inl ⟨?_, hguard⟩⟩
          have := hexceeds.mp he
          omega
    · rw [if_neg hguard] at h
      refine iff_of_true ?_ ?_
      · intro c' _
        exact ⟨fun _ haddressed => absurd (haddressed.guarded address) hguard, fun _ => h⟩
      · rintro ⟨-, hmis⟩
        cases hmis with
        | inl hneg => exact hguard hneg.2
        | inr heq => exact hguard (heq.2.guarded address)

end HandledTask

namespace TaskHub

open Effect

variable {n : Nat}

/-- The tasks are handled in order, and each as its length says; as many `onTask` calls as tasks
still wait handle them all, where they return. -/
structure Treats (address : Nat → Nat) (h : TaskHub n) : Prop where
  inOrder : h.handled.map HandledTask.task ++ h.q = h.enqueued
  drained : ∀ (answers : List (TaskAnswer n)) h', h.q.length ≤ answers.length →
    (runAll address (answers.map (.onTask 0))).run h = .ok () h' → h'.q = []
  each : ∀ d ∈ h.handled, d.Treated

/-- **First in, first out, every task that is long enough and whose session is open takes effect
once and in order, and no shorter one has an effect, exactly where no task of negative length passes
the check of its pointer and none is just as long as its struct.** -/
theorem treated_iff (address : Nat → Nat) (m : MsgHub n) {es : List (TaskEvent n)}
    (hfirst : ∀ e ∈ es, e.First) :
    (after address m es).Treats address ↔
      ∀ d ∈ (after address m es).handled, ¬ d.Misjudged address := by
  have hfollows := run_follows address m es
  constructor
  · intro h d hd
    exact ((hfollows d hd).treated address).mp (h.each d hd)
  · intro h
    constructor
    case inOrder => exact run_inOrder address m es hfirst
    case drained => exact fun answers h' => drain_empties address
    case each => exact fun d hd => ((hfollows d hd).treated address).mpr (h d hd)

def mem : Alloc := ⟨true, fun _ => 0⟩

/-- The calls on the hub's thread that open and close a session. -/
def opens : TaskEvent 1 :=
  .calls (.call (.poller (.call (.initNewSession 5 .accept mem) .none .done)) .none .done)

def closes : TaskEvent 1 :=
  .calls (.call (.poller (.call (.closeSession Table.front .normal) .none .done)) .none .done)

def handles : TaskEvent 1 := .onTask 0 ⟨mem, .eagain, .done, ⟨.noSocket, 0, 0, mem⟩, .done⟩

def start : MsgHub 1 := .init Nat.one_pos fun _ => ⟨.once, 0, 0, none⟩

/-- A message of one byte for the session, with the length of its struct. -/
def justLong : List (TaskEvent 1) :=
  [opens, .genTask ⟨some 0, Table.front, 16, .sendTo [1]⟩, handles]

theorem justLong_handled : (after id start justLong).handled =
    [⟨⟨some 0, Table.front, 16, .sendTo [1]⟩, some 0, []⟩] := by
  decide +kernel

theorem justLong_lost : ¬ ∀ (n : Nat) (address : Nat → Nat) (m : MsgHub n)
    (es : List (TaskEvent n)), (∀ e ∈ es, e.First) → (after address m es).Treats address := by
  intro h
  have htreats :=
    (h 1 id start justLong (by simp [justLong, opens, handles, TaskEvent.First])).each
  rw [justLong_handled] at htreats
  have htreated := (htreats _ List.mem_cons_self (.sendTo (some 0) [1]) rfl).1 (by decide)
    ⟨Option.some_ne_none 0, rfl⟩
  cases htreated

/-- A message with a byte more of room, which is sent. -/
def longer : List (TaskEvent 1) :=
  [opens, .genTask ⟨some 0, Table.front, 17, .sendTo [1]⟩, handles]

theorem longer_treated : (after id start longer).Treats id := by
  have hhandled : (after id start longer).handled =
      [⟨⟨some 0, Table.front, 17, .sendTo [1]⟩, some 0, [.sendTo (some 0) [1]]⟩] := by
    decide +kernel
  apply (treated_iff id start (by simp [longer, opens, handles, TaskEvent.First])).mpr
  intro d hd
  rw [hhandled, List.mem_singleton] at hd
  subst hd
  rintro ⟨-, hneg | hjust⟩
  · exact absurd hneg.1 (by decide)
  · exact absurd hjust.1 (by decide)

end TaskHub

/-! ## Sessions -/

/-- The task is for a session. -/
def TaskData.OnSession : TaskData → Prop
  | .sendTo _ | .closeSession _ _ => True
  | .none | .connectTo _ _ _ => False

/-- A task whose pointer passes for that of the session in its slot: that session lies at the
address of the one it points to, or both are NULL and it is to be sent to. -/
inductive ConnectionTask.Mistaken {n : Nat} (address : Nat → Nat) (task : ConnectionTask n)
    (slot : Option Nat) : Prop where
  | reused {birth other : Nat} (pointer : task.sessPtr = some birth) (filled : slot = some other)
      (differs : birth ≠ other) (same : address birth = address other)
      (long : exceeds task.len task.data.size)
  | null {data : List UInt8} (pointer : task.sessPtr = none) (empty : slot = none)
      (sends : task.data = .sendTo data) (long : exceeds task.len task.data.size)

namespace Poller

open Effect

variable {n : Nat} {id : Fin n} {p : Poller n}

/-- Every session but the one at `id` is as it was, and so is what is watched for its socket. -/
structure Beside (id : Fin n) (p p' : Poller n) : Prop where
  sessions : ∀ j, j ≠ id → p'.sessions j = p.sessions j
  interest : ∀ fd, (∀ conn, p.sessions id = some conn → conn.fd ≠ fd) →
    p'.interest fd = p.interest fd

/-- The same, or up to where `callback` has run. -/
def Upto (id : Fin n) (callback : PollerM n Unit) (p p' : Poller n) : Prop :=
  p.Beside id p' ∨ ∃ p₁, p.Beside id p₁ ∧ p' = final (callback.run p₁)

theorem beside_refl (id : Fin n) (p : Poller n) : p.Beside id p := ⟨fun _ _ => rfl, fun _ _ => rfl⟩

theorem change_beside (f : Session → Except Fault Session) :
    Triple (p.Beside id) (p.Beside id) (change id f) fun _ => p.Beside id := by
  apply Triple.zoom
  · intro q _ t hq hrun
    cases hs : q.sessions id with
    | none => cases (Table.change_none hs).symm.trans hrun
    | some s =>
      cases hf : f s with
      | error e => cases (Table.change_error hs hf).symm.trans hrun
      | ok s' =>
        cases (Table.change_run hs hf).symm.trans hrun
        refine ⟨fun j hj => ?_, hq.interest⟩
        have hother : (q.toTable.put id s').sessions j = q.sessions j := by simp [hj]
        exact hother.trans (hq.sessions j hj)
  · intro q e t hq hrun
    cases hs : q.sessions id with
    | none =>
      cases (Table.change_none hs).symm.trans hrun
      exact hq
    | some s =>
      cases hf : f s with
      | error e =>
        cases (Table.change_error hs hf).symm.trans hrun
        exact hq
      | ok s' => cases (Table.change_run hs hf).symm.trans hrun

theorem slot_beside : Triple (p.Beside id) (p.Beside id) (slot id) fun _ => p.Beside id := by
  apply Triple.zoom
  · intro q s t hq hrun
    cases hs : q.sessions id with
    | none => cases (Table.slot_none hs).symm.trans hrun
    | some conn =>
      cases (Table.slot_run hs).symm.trans hrun
      exact hq
  · intro q e t hq hrun
    cases hs : q.sessions id with
    | none =>
      cases (Table.slot_none hs).symm.trans hrun
      exact hq
    | some conn => cases (Table.slot_run hs).symm.trans hrun

theorem closeSession_beside (id : Fin n) (type : CloseType) (p : Poller n) :
    p.Beside id (final ((closeSession id type).run p)) := by
  unfold closeSession
  rw [run_modify]
  dsimp only [final]
  cases hs : p.sessions id with
  | none => exact beside_refl id p
  | some conn =>
    constructor
    · intro j hj
      simp [hj]
    · intro fd hfd
      exact Function.update_of_ne (hfd conn hs).symm _ _

/-- The call is noted and made; only `onSend` can change another session. -/
theorem sendTo_upto (mem : Alloc) (buf : List UInt8) (r : SendResult) (onSend : PollerM n Unit)
    (p : Poller n) : p.Upto id onSend (final ((do
      hand id buf
      sendTo id mem buf r onSend).run p)) := by
  have halone : ∀ (a : Int) q, p.Beside id q → p.Upto id onSend q := fun _ _ hq => .inl hq
  have honSend : Triple (p.Upto id onSend) (p.Beside id) onSend fun _ => p.Upto id onSend := by
    constructor
    · intro q a q' hq hrun
      exact .inr ⟨q, hq, by rw [hrun]; rfl⟩
    · intro q e q' hq hrun
      exact .inr ⟨q, hq, by rw [hrun]; rfl⟩
  have hsent : Triple (p.Upto id onSend) (p.Beside id) (sent r onSend)
      fun _ => p.Upto id onSend := by
    have hreturn : ∀ a : Int, Triple (p.Upto id onSend) (p.Beside id) (pure a : PollerM n Int)
        fun _ => p.Upto id onSend := fun a => .pure (halone a)
    cases r with
    | error | eagain => exact hreturn _
    | accepted k =>
      unfold sent
      dsimp only
      split_ifs
      · exact hreturn _
      · exact honSend.bind fun _ => .pure fun _ hq => hq
  have hpost : Triple (p.Upto id onSend) (p.Beside id) (postSend id r onSend)
      fun _ => p.Upto id onSend := by
    apply (slot_beside.errors (halone 0)).bind
    intro conn
    split_ifs
    · exact .pure (halone 0)
    · exact ((change_beside _).errors (halone 0)).bind fun _ => hsent
  have hboth : Triple (p.Upto id onSend) (p.Beside id) (do
      hand id buf
      sendTo id mem buf r onSend) fun _ => p.Upto id onSend := by
    apply ((change_beside _).errors (halone 0)).bind
    intro _
    apply (slot_beside.errors (halone 0)).bind
    intro conn
    split_ifs
    · exact ((change_beside _).errors (halone 0)).mono (fun _ hq => hq) fun _ => halone 0
    · apply ((change_beside _).errors (halone 0)).bind
      intro _
      exact hpost.bind fun _ => .pure fun _ hq => hq
  exact hboth.final (fun _ _ hq => hq) (beside_refl id p)

end Poller

namespace TaskHub

open Effect

variable {n : Nat} {address : Nat → Nat}

/-- What a task on a session may do to the `Poller`. -/
def Confined (task : ConnectionTask n) (a : TaskAnswer n) (p p' : Poller n) : Prop :=
  match task.data with
  | .sendTo _ => p.Upto task.sessionId (Poller.run a.onSend) p'
  | .closeSession _ _ | .connectTo _ _ _ | .none => p.Beside task.sessionId p'

/-- The hub and its sessions are as before, and no pointer has been followed. -/
structure NoEffect (h h' : TaskHub n) : Prop where
  hub : h'.toMsgHub = h.toMsgHub
  pointers : ∃ d, h'.handled = h.handled ++ [d] ∧ ∀ conn buf, .sendTo conn buf ∉ d.calls

/-- The session in the slot is the one the task points to, and no other is changed; or the task has
no effect. -/
def Touches (address : Nat → Nat) (h : TaskHub n) (pick : Nat) (a : TaskAnswer n)
    (task : ConnectionTask n) : Prop :=
  (task.sessPtr ≠ none ∧ h.occupant task.sessionId = task.sessPtr ∧
    Confined task a h.toPoller (final ((onTask address pick a).run h)).toPoller) ∨
    ∃ h', (onTask address pick a).run h = .ok () h' ∧ NoEffect h h'

/-- `onTask` up to the branches, for a task whose pointer is that of its slot. -/
theorem onTask_guarded {h : TaskHub n} {pick : Nat} {task : ConnectionTask n}
    (hpick : h.q[pick]? = some task)
    (hguard : (h.occupant task.sessionId).map address = task.sessPtr.map address)
    (a : TaskAnswer n) : (onTask address pick a).run h =
      (perform task a).run (h.dequeue pick task) := by
  unfold onTask
  rw [run_bind_ok (run_get h), hpick]
  dsimp only
  rw [run_bind_ok (x := set (h.dequeue pick task)) rfl, if_pos hguard]

theorem dequeue_noEffect (h : TaskHub n) (pick : Nat) (task : ConnectionTask n) :
    NoEffect h (h.dequeue pick task) :=
  ⟨rfl, _, rfl, fun _ _ hc => by cases hc⟩

/-- A task that does not pass the checks has no effect. -/
theorem onTask_refused {h : TaskHub n} {pick : Nat} {task : ConnectionTask n}
    (hpick : h.q[pick]? = some task) (hdata : task.data.OnSession)
    (hrefused : ¬ ((h.occupant task.sessionId).map address = task.sessPtr.map address ∧
      exceeds task.len task.data.size)) (a : TaskAnswer n) :
    (onTask address pick a).run h = .ok () (h.dequeue pick task) := by
  by_cases hguard : (h.occupant task.sessionId).map address = task.sessPtr.map address
  · have hshort : ¬ exceeds task.len task.data.size := fun hlong => hrefused ⟨hguard, hlong⟩
    rw [onTask_guarded hpick hguard]
    unfold perform
    cases hkind : task.data with
    | none | connectTo =>
      rw [hkind] at hdata
      cases hdata
    | sendTo | closeSession =>
      rw [hkind] at hshort
      dsimp only
      rw [if_neg hshort]
      rfl
  · unfold onTask
    rw [run_bind_ok (run_get h), hpick]
    dsimp only
    rw [run_bind_ok (x := set (h.dequeue pick task)) rfl, if_neg hguard]
    rfl

theorem closeSession_run (h : TaskHub n) (id : Fin n) (type : CloseType) :
    ∃ h', (hub.zoom (MsgHub.onPoller (Poller.closeSession id type))).run h = .ok () h' ∧
      h'.handled = h.handled ∧ h'.sessions id = none ∧
      (h.sessions id = none → h'.toMsgHub = h.toMsgHub) := by
  have hrun : ∃ p, (Poller.closeSession id type).run h.toPoller = .ok () p ∧
      p.sessions id = none ∧ (h.sessions id = none → p = h.toPoller) := by
    refine ⟨_, rfl, ?_, ?_⟩
    · cases hs : h.sessions id with
      | none => simp [hs]
      | some conn => simp [hs]
    · intro hs
      simp [hs]
  obtain ⟨p, hp, hnone, hsame⟩ := hrun
  have hzoom : (MsgHub.onPoller (Poller.closeSession id type)).run h.toMsgHub =
      .ok () (({ h.toMsgHub with toPoller := p } : MsgHub n).follow h.toTable) := by
    unfold MsgHub.onPoller
    rw [run_bind_ok (run_get _), run_bind_ok (Lens.zoom_ok hp)]
    rfl
  refine ⟨_, Lens.zoom_ok hzoom, rfl, hnone, fun hs => ?_⟩
  change ({ h.toMsgHub with toPoller := p } : MsgHub n).follow h.toTable = h.toMsgHub
  rw [hsame hs]
  unfold MsgHub.follow
  have hattempts : h.attempts.map (·.follow h.toTable h.toTable) = h.attempts :=
    List.map_id'' (fun t => MsgHub.follow_same fun _ _ hlive => hlive) _
  simp only [hattempts]

/-- A `closeSession` for a task that has passed the checks. -/
theorem onTask_closes {h : TaskHub n} {pick : Nat} {task : ConnectionTask n}
    (hpick : h.q[pick]? = some task)
    (hguard : (h.occupant task.sessionId).map address = task.sessPtr.map address)
    (hlong : exceeds task.len task.data.size) {sessionId reason : Int}
    (hdata : task.data = .closeSession sessionId reason) (a : TaskAnswer n) :
    ∃ h', (onTask address pick a).run h = .ok () h' ∧ h'.sessions task.sessionId = none ∧
      (h.sessions task.sessionId = none → NoEffect h h') := by
  have hdequeued : (h.dequeue pick task).handled =
      h.handled ++ [⟨task, h.occupant task.sessionId, []⟩] := rfl
  obtain ⟨h', hrun, hhandled, hnone, hsame⟩ := closeSession_run { h.dequeue pick task with
    handled := h.handled ++ [⟨task, h.occupant task.sessionId,
      [] ++ [.closeSession task.sessionId reason]⟩] } task.sessionId .normal
  refine ⟨h', ?_, hnone, fun hs => ⟨hsame hs, _, hhandled, ?_⟩⟩
  · rw [onTask_guarded hpick hguard]
    unfold perform
    rw [hdata] at hlong ⊢
    dsimp only
    rw [if_pos hlong, run_bind_ok (made_run hdequeued _)]
    exact hrun
  · intro conn buf hcall
    simp at hcall

/-- A `sendTo` for a task that has passed the checks follows its pointer. -/
theorem onTask_sends {h : TaskHub n} {pick : Nat} {task : ConnectionTask n}
    (hpick : h.q[pick]? = some task)
    (hguard : (h.occupant task.sessionId).map address = task.sessPtr.map address)
    (hlong : exceeds task.len task.data.size) {data : List UInt8} (hdata : task.data = .sendTo data)
    (a : TaskAnswer n) :
    ¬ ∃ h', (onTask address pick a).run h = .ok () h' ∧ NoEffect h h' := by
  rintro ⟨h', hrun, hnone⟩
  obtain ⟨d, rfl, hslot, hfollows, -, -, hhandled⟩ := onTask_handled address hpick a
  rw [hrun] at hhandled
  obtain ⟨d', hlast, hcalls⟩ := hnone.pointers
  cases List.append_cancel_left (hlast.symm.trans hhandled)
  have hmade : d.calls = [.sendTo d.slot data] := by
    have hpassed : d.Guarded address := by rwa [HandledTask.Guarded, hslot]
    rw [hfollows, if_pos hpassed, HandledTask.passed, if_pos hlong, HandledTask.call, hdata]
    rfl
  refine hcalls d.slot data ?_
  rw [hmade]
  exact List.mem_cons_self

theorem onPoller_final {α : Type} (m : PollerM n α) (h : MsgHub n) :
    (final ((MsgHub.onPoller m).run h)).toPoller = final (m.run h.toPoller) := by
  unfold MsgHub.onPoller
  rw [run_bind_ok (run_get h)]
  cases hm : m.run h.toPoller with
  | ok a p =>
    rw [run_bind_ok (Lens.zoom_ok (l := MsgHub.poller) hm)]
    rfl
  | error e p =>
    rw [run_bind_error (Lens.zoom_error (l := MsgHub.poller) hm)]
    rfl

section

variable {h : TaskHub n} {pick : Nat} {task : ConnectionTask n}
  (hpick : h.q[pick]? = some task) (hdata : task.data.OnSession) (a : TaskAnswer n)

include hpick hdata

/-- Whether its pointer is right or not, a task on a session changes no session in another slot. -/
theorem onTask_confined :
    Confined task a h.toPoller (final ((onTask address pick a).run h)).toPoller := by
  obtain ⟨d, rfl, hfollows, -, hhub⟩ := onTask_makes address hpick a
  rw [hhub]
  unfold Confined
  rcases hfollows.calls with hnone | ⟨c, hc, hone⟩
  · rw [hnone]
    cases d.task.data with
    | sendTo => exact .inl (Poller.beside_refl _ _)
    | closeSession | connectTo | none => exact Poller.beside_refl _ _
  · have hmake : [c].forM (make d.task.sessionId a) = make d.task.sessionId a c := by simp
    rw [hone, hmake]
    unfold HandledTask.call at hc
    cases hkind : d.task.data with
    | none | connectTo =>
      rw [hkind] at hdata
      cases hdata
    | sendTo data =>
      rw [hkind] at hc
      cases hc
      cases d.slot with
      | none => exact .inl (Poller.beside_refl _ _)
      | some conn =>
        unfold make
        rw [onPoller_final]
        exact Poller.sendTo_upto a.mem data a.send (Poller.run a.onSend) h.toPoller
    | closeSession =>
      rw [hkind] at hc
      cases hc
      unfold make
      rw [onPoller_final]
      exact Poller.closeSession_beside _ _ h.toPoller

/-- A task mistaken for another's closes the session in its slot, or follows a pointer. -/
theorem touches_not_mistaken (htouches : Touches address h pick a task) :
    ¬ task.Mistaken address (h.occupant task.sessionId) := by
  intro hmistaken
  cases hmistaken with
  | @reused birth other pointer filled differs same long =>
    have hguard : (h.occupant task.sessionId).map address = task.sessPtr.map address := by
      rw [pointer, filled, Option.map_some, Option.map_some, same]
    cases htouches with
    | inl hown => exact differs (Option.some.inj (pointer.symm.trans (hown.2.1.symm.trans filled)))
    | inr hnone =>
      obtain ⟨h', hrun, hnone⟩ := hnone
      cases hkind : task.data with
      | none | connectTo =>
        rw [hkind] at hdata
        cases hdata
      | sendTo => exact onTask_sends hpick hguard long hkind a ⟨h', hrun, hnone⟩
      | closeSession =>
        -- the session in the slot is gone, and so the hub has changed
        obtain ⟨h'', hrun', hclosed, -⟩ := onTask_closes hpick hguard long hkind a
        cases hrun.symm.trans hrun'
        have hsame : h'.sessions task.sessionId = h.sessions task.sessionId := by rw [hnone.hub]
        rw [occupant, ← hsame, hclosed] at filled
        cases filled
  | null pointer empty sends long =>
    have hguard : (h.occupant task.sessionId).map address = task.sessPtr.map address := by
      rw [pointer, empty]
    cases htouches with
    | inl hown => exact hown.1 pointer
    | inr hnone => exact onTask_sends hpick hguard long sends a hnone

/-- Any other task is for the session in its slot, or has no effect. -/
theorem touches_of_not_mistaken
    (hmistaken : ¬ task.Mistaken address (h.occupant task.sessionId)) :
    Touches address h pick a task := by
  by_cases hpassed : (h.occupant task.sessionId).map address = task.sessPtr.map address ∧
      exceeds task.len task.data.size
  · obtain ⟨hguard, hlong⟩ := hpassed
    cases hpointer : task.sessPtr with
    | none =>
      have hempty : h.occupant task.sessionId = none := by
        rw [hpointer] at hguard
        exact Option.map_eq_none_iff.mp hguard
      refine .inr ?_
      cases hkind : task.data with
      | none | connectTo =>
        rw [hkind] at hdata
        cases hdata
      | sendTo => exact absurd (.null hpointer hempty hkind hlong) hmistaken
      | closeSession =>
        obtain ⟨h', hrun, -, hnone⟩ := onTask_closes hpick hguard hlong hkind a
        exact ⟨h', hrun, hnone (Option.map_eq_none_iff.mp hempty)⟩
    | some birth =>
      rw [hpointer, Option.map_some, Option.map_eq_some_iff] at hguard
      obtain ⟨other, hfilled, hsame⟩ := hguard
      by_cases hown : birth = other
      · have hsession : h.occupant task.sessionId = task.sessPtr := by rw [hfilled, hpointer, hown]
        exact .inl ⟨by simp [hpointer], hsession, onTask_confined hpick hdata a⟩
      · exact absurd (.reused hpointer hfilled hown hsame.symm hlong) hmistaken
  · exact .inr ⟨_, onTask_refused hpick hdata hpassed a, dequeue_noEffect h pick task⟩

/-- One `onTask`: it touches no other session exactly where its task is not mistaken for another's. -/
theorem touches_iff :
    Touches address h pick a task ↔ ¬ task.Mistaken address (h.occupant task.sessionId) :=
  ⟨touches_not_mistaken hpick hdata a, touches_of_not_mistaken hpick hdata a⟩

end

/-- No `onTask` of the run for one session touches another. -/
def TouchesOnly (address : Nat → Nat) (m : MsgHub n) (es : List (TaskEvent n)) : Prop :=
  ∀ before pick a rest task h, es = before ++ .onTask pick a :: rest →
    (runAll address before).run (init m) = .ok () h → h.q[pick]? = some task →
    task.data.OnSession → Touches address h pick a task

/-- **A task for a session touches that one session alone, and no pointer of it is followed where it
is gone, exactly in the runs in which no task is dequeued while another session lies at its
pointer's address in its slot, nor a `SEND_TO` with a NULL pointer while its slot is empty.** -/
theorem touchesOnly_iff (address : Nat → Nat) (m : MsgHub n) (es : List (TaskEvent n)) :
    TouchesOnly address m es ↔
      ∀ before pick a rest task h, es = before ++ .onTask pick a :: rest →
        (runAll address before).run (init m) = .ok () h → h.q[pick]? = some task →
        task.data.OnSession → ¬ task.Mistaken address (h.occupant task.sessionId) := by
  constructor
  · intro htouches before pick a rest task h hes hrun hpick hdata
    exact (touches_iff hpick hdata a).mp (htouches before pick a rest task h hes hrun hpick hdata)
  · intro hmistaken before pick a rest task h hes hrun hpick hdata
    exact (touches_iff hpick hdata a).mpr
      (hmistaken before pick a rest task h hes hrun hpick hdata)

/-- A `CLOSE_SESSION` for a session that is closed before it is handled; the next one is put at its
address. -/
def stale : List (TaskEvent 1) :=
  [opens, .genTask ⟨some 0, Table.front, 100, .closeSession 0 0⟩, closes, opens]

theorem stale_run : (runAll (fun _ => 7) stale).run (init start) =
    .ok () (after (fun _ => 7) start stale) :=
  eq_ok_of_returns (by decide +kernel)

theorem stale_closes : ¬ ∀ (n : Nat) (address : Nat → Nat) (m : MsgHub n)
    (es : List (TaskEvent n)), TouchesOnly address m es := by
  intro h
  have hpick : (after (fun _ => 7) start stale).q[0]? =
      some ⟨some 0, Table.front, 100, .closeSession 0 0⟩ := by
    decide +kernel
  have hfilled : (after (fun _ => 7) start stale).occupant Table.front = some 1 := by
    decide +kernel
  have htouches := h 1 (fun _ => 7) start (stale ++ [handles]) stale 0 _ [] _ _ rfl stale_run
    hpick trivial
  exact (touches_iff hpick trivial _).mp htouches
    (.reused rfl hfilled (by decide) rfl (by decide))

end TaskHub

end ChainSocket
