import ChainSocket.MsgHub.Connect
import Mathlib.Data.List.ModifyLast

/-!
# The tasks of MsgHub

`genTask` and `onTask`, over the calls of `MsgHub`. A session pointer is known by the birth of the
session it has been taken of; pointers are compared by the `address` at which `malloc` has put each
session. `enqueued` and `handled` keep what has come in and what `onTask` has made of it.

* `onTask_handled`: what one `onTask` adds to that;
* `onTask_makes`: an `onTask` makes the calls that it notes, and does nothing else;
* `run_follows`: what a run has made of every task it has dequeued;
* `run_inOrder`, `drain_empties`: no task is lost, and none is handled twice.
-/

namespace ChainSocket

/-- `TASK_TYPE`, with the struct that `data` points to. -/
inductive TaskData where
  | none
  | sendTo (data : List UInt8)
  | closeSession (sessionId reason : Int)
  | connectTo (addr : String) (port timeOut : Int)
  deriving DecidableEq

/-- `sizeof` of `SendTask`, `CloseTask` and `ConnectTask`, with pointers of eight bytes. -/
def TaskData.size : TaskData → Nat
  | none => 0
  | sendTo _ => 16
  | closeSession _ _ => 8
  | connectTo _ _ _ => 136

structure ConnectionTask (n : Nat) where
  sessPtr : Option Nat
  sessionId : Fin n
  len : Int32
  data : TaskData
  deriving DecidableEq

/-- `task.len > sizeof(..)`: the `int` is compared as a `size_t`. -/
def exceeds (len : Int32) (size : Nat) : Prop := size < (len.toInt % 2 ^ 64).toNat

instance (len : Int32) (size : Nat) : Decidable (exceeds len size) :=
  inferInstanceAs (Decidable (size < (len.toInt % 2 ^ 64).toNat))

theorem exceeds_iff {len : Int32} {size : Nat} (hsize : size < 2 ^ 31) :
    exceeds len size ↔ len.toInt < 0 ∨ (size : Int) < len.toInt := by
  have hlow := len.le_toInt
  have hhigh := len.toInt_lt
  unfold exceeds
  omega

/-- A call that `onTask` makes for a task; `sendTo` has the session its pointer leads to. -/
inductive TaskCall (n : Nat) where
  | sendTo (conn : Option Nat) (buf : List UInt8)
  | closeSession (connId : Fin n) (reason : Int)
  | connectTo (addr : String) (port timeOut : Int)
  deriving DecidableEq

/-- A task that has been dequeued. -/
structure HandledTask (n : Nat) where
  task : ConnectionTask n
  /-- The session that was in its slot then. -/
  slot : Option Nat
  calls : List (TaskCall n)
  deriving DecidableEq

structure TaskHub (n : Nat) extends MsgHub n where
  q : List (ConnectionTask n)
  enqueued : List (ConnectionTask n)
  handled : List (HandledTask n)

abbrev TaskHubM (n : Nat) := EStateM Fault (TaskHub n)

/-- What the system answers to the call of a task, and what the callbacks do. -/
structure TaskAnswer (n : Nat) where
  mem : Alloc
  send : SendResult
  onSend : PollerScript n
  connect : ConnectAnswer
  callback : MsgHubScript n

namespace TaskHub

open Effect

variable {n : Nat}

def init (h : MsgHub n) : TaskHub n := { h with q := [], enqueued := [], handled := [] }

def hub : Lens (TaskHub n) (MsgHub n) where
  get h := h.toMsgHub
  set m h := { h with toMsgHub := m }
  get_set _ _ := rfl
  set_get _ := rfl
  set_set _ _ _ := rfl

def genTask (task : ConnectionTask n) : TaskHubM n Unit :=
  modify fun h => { h with q := h.q ++ [task], enqueued := h.enqueued ++ [task] }

/-- The session in a slot. -/
def occupant (h : TaskHub n) (id : Fin n) : Option Nat := (h.sessions id).map Session.birth

/-- `try_dequeue` has answered with the element at `pick`. -/
def dequeue (h : TaskHub n) (pick : Nat) (task : ConnectionTask n) : TaskHub n :=
  { h with
    q := h.q.eraseIdx pick
    handled := h.handled ++ [⟨task, h.occupant task.sessionId, []⟩] }

/-- Notes a call for the task that is being handled. -/
def made (c : TaskCall n) : TaskHubM n Unit :=
  modify fun h => { h with
    handled := h.handled.modifyLast fun d => { d with calls := d.calls ++ [c] } }

/-- The branches of `onTask`. `closeSession` does not use its type. -/
def perform (task : ConnectionTask n) (a : TaskAnswer n) : TaskHubM n Unit := do
  match task.data with
  | .sendTo data =>
    if exceeds task.len task.data.size then do
      let h ← get
      made (.sendTo (h.occupant task.sessionId) data)
      if h.sessions task.sessionId = none then throw .null
      else
        hub.zoom (MsgHub.onPoller do
          Poller.hand task.sessionId data
          Poller.sendTo task.sessionId a.mem data a.send (Poller.run a.onSend))
    else return
  | .closeSession _ reason =>
    if exceeds task.len task.data.size then do
      made (.closeSession task.sessionId reason)
      hub.zoom (MsgHub.onPoller (Poller.closeSession task.sessionId .normal))
    else return
  | .connectTo addr port timeOut =>
    if exceeds task.len task.data.size then do
      made (.connectTo addr port timeOut)
      hub.zoom (MsgHub.call (.connectTo addr port timeOut) [(a.connect, MsgHub.run a.callback)])
    else return
  | .none => throw .abort

variable (address : Nat → Nat)

def onTask (pick : Nat) (a : TaskAnswer n) : TaskHubM n Unit := do
  let h ← get
  match h.q[pick]? with
  | none => return
  | some task => do
    set (h.dequeue pick task)
    if (h.occupant task.sessionId).map address = task.sessPtr.map address then perform task a
    else return

end TaskHub

/-- What happens on a `MsgHub` with tasks: a producer's `genTask`, an `onTask`, or calls of other
users on its thread. -/
inductive TaskEvent (n : Nat) where
  | genTask (task : ConnectionTask n)
  | onTask (pick : Nat) (answer : TaskAnswer n)
  | calls (script : MsgHubScript n)

/-- The queue is first in, first out. -/
def TaskEvent.First {n : Nat} : TaskEvent n → Prop
  | .onTask pick _ => pick = 0
  | .genTask _ | .calls _ => True

namespace TaskHub

open Effect

variable {n : Nat} (address : Nat → Nat)

def onEvent : TaskEvent n → TaskHubM n Unit
  | .genTask task => genTask task
  | .onTask pick answer => onTask address pick answer
  | .calls script => hub.zoom (MsgHub.run script)

def runAll : List (TaskEvent n) → TaskHubM n Unit
  | [] => return
  | e :: es => do
    onEvent address e
    runAll es

end TaskHub

/-! ## What is made of a task -/

namespace HandledTask

variable {n : Nat} (address : Nat → Nat)

/-- The slot holds a session at the address of the task's pointer, or both are NULL. -/
def Guarded (d : HandledTask n) : Prop := d.slot.map address = d.task.sessPtr.map address

instance (d : HandledTask n) : Decidable (d.Guarded address) :=
  inferInstanceAs (Decidable (d.slot.map address = d.task.sessPtr.map address))

/-- The call a task asks for. -/
def call (d : HandledTask n) : Option (TaskCall n) :=
  match d.task.data with
  | .none => none
  | .sendTo data => some (.sendTo d.slot data)
  | .closeSession _ reason => some (.closeSession d.task.sessionId reason)
  | .connectTo addr port timeOut => some (.connectTo addr port timeOut)

/-- The calls made for a task that has passed the check of its pointer. -/
def passed (d : HandledTask n) : List (TaskCall n) :=
  if exceeds d.task.len d.task.data.size then d.call.toList else []

def Follows (d : HandledTask n) : Prop := d.calls = if d.Guarded address then d.passed else []

theorem Follows.calls {d : HandledTask n} (h : d.Follows address) :
    d.calls = [] ∨ ∃ c, d.call = some c ∧ d.calls = [c] := by
  unfold Follows passed at h
  split_ifs at h
  · cases hc : d.call with
    | none => exact .inl (by rw [h, hc]; rfl)
    | some c => exact .inr ⟨c, rfl, by rw [h, hc]; rfl⟩
  · exact .inl h
  · exact .inl h

end HandledTask

namespace TaskHub

open Effect

variable {n : Nat}

theorem zoom_final (m : MsgHubM n Unit) (h : TaskHub n) :
    (final ((hub.zoom m).run h)).q = h.q ∧ (final ((hub.zoom m).run h)).enqueued = h.enqueued ∧
      (final ((hub.zoom m).run h)).handled = h.handled := by
  cases hm : m.run (hub.get h) with
  | ok a t =>
    rw [Lens.zoom_ok hm]
    exact ⟨rfl, rfl, rfl⟩
  | error e t =>
    rw [Lens.zoom_error hm]
    exact ⟨rfl, rfl, rfl⟩

theorem made_run {h : TaskHub n} {pre : List (HandledTask n)} {d : HandledTask n}
    (hd : h.handled = pre ++ [d]) (c : TaskCall n) : (made c).run h =
      .ok () { h with handled := pre ++ [{ d with calls := d.calls ++ [c] }] } := by
  unfold made
  rw [run_modify, hd, List.modifyLast_concat]

/-- A branch that notes its call and then makes it. -/
theorem branch_final {h : TaskHub n} {pre : List (HandledTask n)} {d : HandledTask n}
    (hd : h.handled = pre ++ [d]) (c : TaskCall n) {m : TaskHubM n Unit}
    (hm : ∀ h : TaskHub n, (final (m.run h)).q = h.q ∧ (final (m.run h)).enqueued = h.enqueued ∧
      (final (m.run h)).handled = h.handled) :
    (final ((do made c; m : TaskHubM n Unit).run h)).q = h.q ∧
      (final ((do made c; m : TaskHubM n Unit).run h)).enqueued = h.enqueued ∧
      (final ((do made c; m : TaskHubM n Unit).run h)).handled =
        pre ++ [{ d with calls := d.calls ++ [c] }] := by
  rw [run_bind_ok (made_run hd c)]
  exact hm _

theorem perform_final {h : TaskHub n} {pre : List (HandledTask n)} {d : HandledTask n}
    (hd : h.handled = pre ++ [d]) (hnone : d.calls = []) (hslot : d.slot = h.occupant d.task.sessionId)
    (a : TaskAnswer n) :
    (final ((perform d.task a).run h)).q = h.q ∧ (final ((perform d.task a).run h)).enqueued = h.enqueued ∧
      (final ((perform d.task a).run h)).handled = pre ++ [{ d with calls := d.passed }] := by
  have hsame : pre ++ [{ d with calls := [] }] = h.handled := by rw [hd, ← hnone]
  unfold perform HandledTask.passed HandledTask.call
  cases hdata : d.task.data with
  | none =>
    simp only [Option.toList_none, ite_self]
    exact ⟨rfl, rfl, hsame.symm⟩
  | sendTo data =>
    dsimp only
    split_ifs with hlen
    · rw [run_bind_ok (run_get h), ← hslot]
      have hcalls : pre ++ [{ d with calls := (some (TaskCall.sendTo d.slot data)).toList }] =
          pre ++ [{ d with calls := d.calls ++ [.sendTo d.slot data] }] := by rw [hnone]; rfl
      rw [hcalls]
      refine branch_final hd (.sendTo d.slot data) fun h' => ?_
      split_ifs
      · exact ⟨rfl, rfl, rfl⟩
      · exact zoom_final _ h'
    · exact ⟨rfl, rfl, hsame.symm⟩
  | closeSession sessionId reason =>
    dsimp only
    split_ifs with hlen
    · have hbranch := branch_final hd (.closeSession d.task.sessionId reason) (zoom_final
        (MsgHub.onPoller (Poller.closeSession d.task.sessionId .normal)))
      rw [hnone] at hbranch
      exact hbranch
    · exact ⟨rfl, rfl, hsame.symm⟩
  | connectTo addr port timeOut =>
    dsimp only
    split_ifs with hlen
    · have hbranch := branch_final hd (.connectTo addr port timeOut) (zoom_final
        (MsgHub.call (.connectTo addr port timeOut) [(a.connect, MsgHub.run a.callback)]))
      rw [hnone] at hbranch
      exact hbranch
    · exact ⟨rfl, rfl, hsame.symm⟩

/-- What an `onTask` that dequeues a task adds to the history, wherever its run ends. -/
theorem onTask_handled (address : Nat → Nat) {h : TaskHub n} {pick : Nat}
    {task : ConnectionTask n} (hpick : h.q[pick]? = some task) (a : TaskAnswer n) :
    ∃ d : HandledTask n, d.task = task ∧
      d.slot = h.occupant task.sessionId ∧ d.Follows address ∧
      (final ((onTask address pick a).run h)).q = h.q.eraseIdx pick ∧
      (final ((onTask address pick a).run h)).enqueued = h.enqueued ∧
      (final ((onTask address pick a).run h)).handled = h.handled ++ [d] := by
  unfold onTask
  rw [run_bind_ok (run_get h), hpick]
  dsimp only
  rw [run_bind_ok (x := set (h.dequeue pick task)) rfl]
  by_cases hguard : (h.occupant task.sessionId).map address = task.sessPtr.map address
  · rw [if_pos hguard]
    have hdequeued : (h.dequeue pick task).handled =
        h.handled ++ [⟨task, h.occupant task.sessionId, []⟩] := rfl
    obtain ⟨hq, hen, hhandled⟩ := perform_final hdequeued rfl rfl a
    refine ⟨_, rfl, rfl, ?_, hq, hen, hhandled⟩
    exact (if_pos hguard).symm
  · rw [if_neg hguard]
    refine ⟨⟨task, h.occupant task.sessionId, []⟩, rfl, rfl, ?_, rfl, rfl, rfl⟩
    exact (if_neg hguard).symm

/-! ## The calls that are noted -/

/-- Makes a call for a task on `id`. -/
def make (id : Fin n) (a : TaskAnswer n) : TaskCall n → MsgHubM n Unit
  | .sendTo none _ => throw .null
  | .sendTo (some _) buf =>
    MsgHub.onPoller do
      Poller.hand id buf
      Poller.sendTo id a.mem buf a.send (Poller.run a.onSend)
  | .closeSession connId _ => MsgHub.onPoller (Poller.closeSession connId .normal)
  | .connectTo addr port timeOut =>
    MsgHub.call (.connectTo addr port timeOut) [(a.connect, MsgHub.run a.callback)]

theorem zoom_hub (m : MsgHubM n Unit) (h : TaskHub n) :
    (final ((hub.zoom m).run h)).toMsgHub = final (m.run h.toMsgHub) := by
  cases hm : m.run (hub.get h) with
  | ok a t =>
    rw [Lens.zoom_ok hm, show m.run h.toMsgHub = .ok a t from hm]
    rfl
  | error e t =>
    rw [Lens.zoom_error hm, show m.run h.toMsgHub = .error e t from hm]
    rfl

theorem perform_makes {h : TaskHub n} {d : HandledTask n}
    (hslot : d.slot = h.occupant d.task.sessionId) (a : TaskAnswer n) :
    (final ((perform d.task a).run h)).toMsgHub =
      final ((d.passed.forM (make d.task.sessionId a)).run h.toMsgHub) := by
  have hone : ∀ c : TaskCall n, (some c).toList.forM (make d.task.sessionId a) =
      make d.task.sessionId a c := by
    intro c
    simp
  unfold perform HandledTask.passed HandledTask.call
  cases d.task.data with
  | none =>
    simp only [Option.toList_none, ite_self]
    rfl
  | sendTo data =>
    dsimp only
    split_ifs with hlong
    · rw [run_bind_ok (run_get h), run_bind_ok (x := made _) (run_modify _ h), hone, hslot, occupant]
      cases h.sessions d.task.sessionId with
      | none => rfl
      | some conn => exact zoom_hub _ _
    · rfl
  | closeSession | connectTo =>
    dsimp only
    split_ifs with hlong
    · rw [run_bind_ok (x := made _) (run_modify _ h), hone]
      exact zoom_hub _ _
    · rfl

/-- The hub after an `onTask` is the hub after the calls that are noted for its task. -/
theorem onTask_makes (address : Nat → Nat) {h : TaskHub n} {pick : Nat} {task : ConnectionTask n}
    (hpick : h.q[pick]? = some task) (a : TaskAnswer n) :
    ∃ d : HandledTask n, d.task = task ∧ d.Follows address ∧
      (final ((onTask address pick a).run h)).handled = h.handled ++ [d] ∧
      (final ((onTask address pick a).run h)).toMsgHub =
        final ((d.calls.forM (make task.sessionId a)).run h.toMsgHub) := by
  obtain ⟨d, rfl, hslot, hfollows, -, -, hhandled⟩ := onTask_handled address hpick a
  refine ⟨d, rfl, hfollows, hhandled, ?_⟩
  unfold onTask
  rw [run_bind_ok (run_get h), hpick]
  dsimp only
  rw [run_bind_ok (x := set (h.dequeue pick d.task)) rfl, ← hslot, hfollows]
  by_cases hguard : d.Guarded address
  · rw [if_pos hguard, if_pos (by exact hguard)]
    exact perform_makes (h := h.dequeue pick d.task) hslot a
  · rw [if_neg hguard, if_neg (by exact hguard)]
    rfl

/-- What one event adds to the history, wherever its run ends. -/
inductive Adds (address : Nat → Nat) (e : TaskEvent n) (h h' : TaskHub n) : Prop where
  | none (q : h'.q = h.q) (enqueued : h'.enqueued = h.enqueued) (handled : h'.handled = h.handled)
  | enqueued (task : ConnectionTask n) (q : h'.q = h.q ++ [task])
      (enqueued : h'.enqueued = h.enqueued ++ [task]) (handled : h'.handled = h.handled)
  | dequeued {pick : Nat} {a : TaskAnswer n} (event : e = .onTask pick a) (d : HandledTask n)
      (picked : h.q[pick]? = some d.task) (slot : d.slot = h.occupant d.task.sessionId)
      (follows : d.Follows address) (q : h'.q = h.q.eraseIdx pick)
      (enqueued : h'.enqueued = h.enqueued) (handled : h'.handled = h.handled ++ [d])

theorem onTask_none (address : Nat → Nat) {h : TaskHub n} {pick : Nat} (hpick : h.q[pick]? = none)
    (a : TaskAnswer n) : (onTask address pick a).run h = .ok () h := by
  unfold onTask
  rw [run_bind_ok (run_get h), hpick]
  rfl

theorem onEvent_adds (address : Nat → Nat) (e : TaskEvent n) (h : TaskHub n) :
    Adds address e h (final ((onEvent address e).run h)) := by
  cases e with
  | genTask task => exact .enqueued task rfl rfl rfl
  | calls script =>
    obtain ⟨hq, hen, hhandled⟩ := zoom_final (MsgHub.run script) h
    exact .none hq hen hhandled
  | onTask pick a =>
    cases hpick : h.q[pick]? with
    | none =>
      change Adds address _ h (final ((onTask address pick a).run h))
      rw [onTask_none address hpick a]
      exact .none rfl rfl rfl
    | some task =>
      obtain ⟨d, rfl, hslot, hfollows, hq, hen, hhandled⟩ := onTask_handled address hpick a
      exact .dequeued rfl d hpick hslot hfollows hq hen hhandled

/-! ## Runs -/

/-- What every event of a run keeps, the run keeps, wherever it ends. -/
theorem run_keeps (address : Nat → Nat) {J : TaskHub n → Prop} {es : List (TaskEvent n)}
    (hstep : ∀ e ∈ es, ∀ h h', Adds address e h h' → J h → J h') :
    ∀ {h : TaskHub n}, J h → J (final ((runAll address es).run h)) := by
  induction es with
  | nil => exact fun hJ => hJ
  | cons e es ih =>
    intro h hJ
    have hadds := hstep e List.mem_cons_self h _ (onEvent_adds address e h) hJ
    unfold runAll
    cases hrun : (onEvent address e).run h with
    | error fault h₁ =>
      rw [hrun] at hadds
      rw [run_bind_error hrun]
      exact hadds
    | ok _ h₁ =>
      rw [hrun] at hadds
      rw [run_bind_ok hrun]
      exact ih (fun e he => hstep e (List.mem_cons_of_mem _ he)) hadds

variable (address : Nat → Nat) (m : MsgHub n) (es : List (TaskEvent n))

/-- Where a run from a `MsgHub` with an empty queue ends. -/
def after : TaskHub n := final ((runAll address es).run (init m))

theorem run_follows : ∀ d ∈ (after address m es).handled, d.Follows address := by
  refine run_keeps address (J := fun h => ∀ d ∈ h.handled, d.Follows address) ?_ ?_
  · intro e _ h h' hadds hJ
    cases hadds with
    | none _ _ handled | enqueued _ _ _ handled => rwa [handled]
    | dequeued _ d _ _ follows _ _ handled =>
      rw [handled]
      intro d' hd'
      cases List.mem_append.mp hd' with
      | inl hold => exact hJ d' hold
      | inr hnew => rwa [List.mem_singleton.mp hnew]
  · intro d hd
    cases hd

/-- First in, first out: the tasks are handled in the order in which they were enqueued. -/
theorem run_inOrder (hfirst : ∀ e ∈ es, e.First) :
    ((after address m es).handled.map HandledTask.task) ++ (after address m es).q =
      (after address m es).enqueued := by
  refine run_keeps address
    (J := fun h => h.handled.map HandledTask.task ++ h.q = h.enqueued) ?_ rfl
  intro e he h h' hadds hJ
  cases hadds with
  | none q enqueued handled => rwa [q, enqueued, handled]
  | enqueued task q enqueued handled =>
    rw [q, enqueued, handled, ← List.append_assoc, hJ]
  | @dequeued pick a event d picked _ _ q enqueued handled =>
    have hzero : pick = 0 := by
      have hpick := hfirst e he
      rwa [event] at hpick
    subst hzero
    cases hq : h.q with
    | nil =>
      rw [hq] at picked
      cases picked
    | cons task rest =>
      rw [hq] at picked hJ
      cases picked
      rw [q, enqueued, handled, hq, ← hJ]
      simp

/-- As many `onTask` calls as tasks wait empty the queue, where they return. -/
theorem drain_empties {answers : List (TaskAnswer n)} : ∀ {h h' : TaskHub n},
    h.q.length ≤ answers.length →
    (runAll address (answers.map (.onTask 0))).run h = .ok () h' → h'.q = [] := by
  induction answers with
  | nil =>
    intro h h' hlen hrun
    cases hrun
    exact List.length_eq_zero_iff.mp (Nat.le_zero.mp hlen)
  | cons a answers ih =>
    intro h h' hlen hrun
    obtain ⟨_, h₁, hstep, hrest⟩ := run_bind_inv hrun
    change (onTask address 0 a).run h = .ok () h₁ at hstep
    refine ih ?_ hrest
    cases hq : h.q with
    | nil =>
      rw [onTask_none address (by rw [hq]; rfl) a] at hstep
      cases hstep
      rw [hq]
      exact Nat.zero_le _
    | cons task rest =>
      have hpick : h.q[0]? = some task := by rw [hq]; rfl
      obtain ⟨d, -, -, -, hrestq, -⟩ := onTask_handled address hpick a
      rw [hstep, hq] at hrestq
      have htail : h₁.q = rest := hrestq
      rw [hq] at hlen
      rw [htail]
      exact Nat.le_of_succ_le_succ hlen

end TaskHub

end ChainSocket
