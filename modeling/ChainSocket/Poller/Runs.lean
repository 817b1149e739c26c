import ChainSocket.Poller.Steps

/-!
# Runs of Poller.cpp

The process makes calls of its own, and goes through `loopOnce` again and again.

* `turn_ok`, `turn_final`: what every step keeps, every turn keeps;
* `turn_streams`: no byte that is pushed is lost, doubled or moved;
* `loopOnce_matched`: where no session is created in a slot an event waits for, every event is for
  the session it is handled on.
-/

namespace ChainSocket.Poller

open Effect Relation

variable {n : Nat}

inductive Turn (n : Nat) where
  | user (script : PollerScript n)
  | batch (es : List (PollEvent n))

def turn : Turn n → PollerM n Unit
  | .user script => run script
  | .batch es => loopOnce es

/-- The states between the turns of a process, where the backend answers as `reports` says. -/
inductive Reachable (reports : Poller n → Turn n → Prop) : Poller n → Prop
  | init (h : 0 < n) : Reachable reports (init h)
  | turn {p p' : Poller n} {t : Turn n} (before : Reachable reports p) (reported : reports p t)
      (returned : (turn t).run p = .ok () p') : Reachable reports p'

/-- The table as a batch finds it. -/
def begun (p : Poller n) (es : List (PollEvent n)) : Poller n :=
  { p with toTable := p.toTable.begin (es.map PollEvent.waiting) }

section

variable {w : Bool} {p : Poller n} {I : Poller n → Prop}

theorem loopOnce_run (es : List (PollEvent n)) :
    (loopOnce es).run p = (handleAll es).run (p.begun es) :=
  run_bind_ok (run_modify _ p)

theorem run_loops (script : PollerScript n) : Loops w p (run script) := by
  have hstep : ∀ v, ∀ t t' : Table n, Table.Move v none none t t' → Table.LoopMove v t t' := by
    intro v t t' move
    refine .move ?_ ?_ move
    · intro e he
      cases he
    · intro e fd he
      cases he
  exact Moves.mono (fun _ _ h => h.mono (hstep w) id) (fun _ _ h => h.mono (hstep true) id)
    (run_goes script p)

variable (hbegin : ∀ p es, I p → I (p.begun es))

include hbegin

/-- A turn whose events report no more than `w` is a sequence of steps, from the table as it is or
as the batch finds it. -/
theorem turn_loops (t : Turn n) (hw : ∀ es, t = .batch es → ∀ e ∈ es, e.write = true → w = true)
    (hI : I p) : ∃ q m, (turn t).run p = EStateM.run m q ∧ Loops w q m ∧ I q := by
  cases t with
  | user script => exact ⟨p, run script, rfl, run_loops script, hI⟩
  | batch es =>
    exact ⟨p.begun es, handleAll es, loopOnce_run es, handleAll_loops es _ (hw es rfl) rfl,
      hbegin p es hI⟩

theorem turn_ok (hstep : ∀ p p', Step (Table.LoopMove w) w p p' → I p → I p') {t : Turn n}
    (hw : ∀ es, t = .batch es → ∀ e ∈ es, e.write = true → w = true) {p' : Poller n}
    (hrun : (turn t).run p = .ok () p') (hI : I p) : I p' := by
  obtain ⟨q, m, heq, hm, hq⟩ := turn_loops hbegin t hw hI
  rw [heq] at hrun
  exact hm.keeps hstep hrun hq

/-- The same wherever the turn ends. -/
theorem turn_final (hstep : ∀ p p', Step (Table.LoopMove true) true p p' → I p → I p')
    (t : Turn n) (hI : I p) : I (final ((turn t).run p)) := by
  obtain ⟨q, m, heq, hm, hq⟩ := turn_loops hbegin (w := true) t (fun _ _ _ _ _ => rfl) hI
  rw [heq]
  exact hm.final_keeps hstep hq

end

/-- What every step keeps of the table alone. -/
theorem step_table {J : Table n → Prop} {w : Bool}
    (hJ : ∀ t t', Table.LoopMove w t t' → J t → J t')
    (hcreate : ∀ t id fd type mem, t.owner fd = none → J t → J (t.create id fd type mem))
    {p p' : Poller n} (h : Step (Table.LoopMove w) w p p') (hp : J p.toTable) :
    J p'.toTable := by
  cases h with
  | table move => exact hJ _ _ move hp
  | create id fd type mem vacant closed => exact hcreate _ id fd type mem closed hp
  | curId | forget | watch => exact hp

/-! ## Outgoing streams -/

theorem turn_streams {p : Poller n} (hp : p.toTable.Streams) (t : Turn n) :
    (final ((turn t).run p)).toTable.Streams :=
  turn_final (I := fun p => p.toTable.Streams) (fun _ _ h => ⟨h.now, h.trail⟩)
    (fun _ _ => step_table (fun _ _ => Table.loop_streams)
      fun _ id fd type mem _ hs => Table.create_streams hs id fd type mem) t hp

theorem reachable_streams {reports : Poller n → Turn n → Prop} {p : Poller n}
    (h : Reachable reports p) : p.toTable.Streams := by
  induction h with
  | init => exact Table.empty_streams
  | @turn p p' t _ _ returned ih =>
    have hfinal := turn_streams ih t
    rwa [returned] at hfinal

theorem step_wf {w : Bool} {p p' : Poller n} (h : Step (Table.LoopMove w) w p p')
    (hp : p.toTable.Wf) : p'.toTable.Wf :=
  step_table (fun _ _ => Table.loop_wf)
    (fun _ id _ type mem closed hwf => Table.create_wf hwf id type mem closed) h hp

theorem reachable_wf {reports : Poller n → Turn n → Prop} {p : Poller n}
    (h : Reachable reports p) : p.toTable.Wf := by
  induction h with
  | init => exact Table.empty_wf
  | @turn p p' t _ _ returned ih =>
    exact turn_ok (I := fun p => p.toTable.Wf) (w := true) (fun _ _ h => ⟨h.owned, h.distinct⟩)
      (fun _ _ => step_wf) (fun _ _ _ _ _ => rfl) returned ih

/-! ## Events and the sessions they are for -/

/-- Every session has been created where no event waited for its slot. -/
def Undisturbed (p : Poller n) : Prop := ∀ o ∈ p.opened, o.Fresh

structure Matched (p : Poller n) : Prop where
  wf : p.toTable.Wf
  table : p.Undisturbed → p.toTable.Matched

theorem step_matched {w : Bool} {p p' : Poller n} (h : Step (Table.LoopMove w) w p p')
    (hp : p.Matched) : p'.Matched := by
  refine ⟨step_wf h hp.wf, fun hu => ?_⟩
  cases h with
  | table move =>
    refine Table.loop_matched move hp.wf (hp.table ?_)
    rw [Undisturbed, ← move.opened]
    exact hu
  | create id fd type mem vacant closed =>
    have hm := hp.table fun o ho => hu o (List.mem_append_left _ ho)
    exact Table.create_matched hm id fd type mem (hu _ (by simp [Table.create]))
  | curId | forget | watch => exact hp.table hu

theorem loopOnce_matched {p : Poller n} {es : List (PollEvent n)} (hwf : p.toTable.Wf)
    (hes : p.toTable.ForOpen (es.map PollEvent.waiting)) :
    (final ((loopOnce es).run p)).Matched := by
  have hloops : Loops true (p.begun es) (handleAll es) :=
    handleAll_loops es _ (fun _ _ _ => rfl) rfl
  have hbegun : (p.begun es).Matched :=
    ⟨⟨hwf.owned, hwf.distinct⟩, fun _ => Table.begin_matched hes⟩
  rw [loopOnce_run]
  exact hloops.final_keeps (fun _ _ h => step_matched h) hbegun

end ChainSocket.Poller
