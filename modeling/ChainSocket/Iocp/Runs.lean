import ChainSocket.Iocp.Steps

/-!
# Runs of IOCPPoller.cpp

The process makes calls of its own, and goes through `loopOnce` again and again.

* `turn_streams`: no byte that is pushed is lost, doubled or moved;
* `loopOnce_matched`: where no session is created in a slot a completion waits for, and connections
  are accepted in slot 0 alone, every completion is for the session it is handled on.
-/

namespace ChainSocket.Iocp

open Effect Relation

variable {n : Nat}

inductive Turn (n : Nat) where
  | user (script : IocpScript n)
  | batch (es : List (Completion n))

def turn : Turn n → IocpM n Unit
  | .user script => run script
  | .batch es => loopOnce es

/-- The states between the turns of a process. -/
inductive Reachable : Iocp n → Prop
  | init : Reachable init
  | turn {p p' : Iocp n} {t : Turn n} (before : Reachable p)
      (returned : (turn t).run p = .ok () p') : Reachable p'

/-- The table as a batch finds it. -/
def begun (p : Iocp n) (es : List (Completion n)) : Iocp n :=
  { p with toTable := p.toTable.begin (es.map Completion.waiting), accepts := [] }

theorem loopOnce_run {p : Iocp n} (es : List (Completion n)) :
    (loopOnce es).run p = (handleAll es).run (p.begun es) :=
  run_bind_ok (run_modify _ p)

theorem loopOnce_keeps {p : Iocp n} {es : List (Completion n)} {G : Iocp n → Prop}
    (hstep : ∀ q q', LoopStep q q' → G q → G q') (hG : G (p.begun es)) :
    G (final ((loopOnce es).run p)) := by
  have hloops : Loops (p.begun es) (handleAll es) := handleAll_loops es _ rfl
  rw [loopOnce_run]
  exact hloops.final_keeps hstep hG

/-! ## Outgoing streams -/

theorem step_streams {cur : Option (Waiting n)} {p p' : Iocp n} (h : Step cur p p')
    (hp : p.toTable.Streams) : p'.toTable.Streams := by
  cases h with
  | table move => exact Table.move_streams move hp
  | create id fd type mem => exact Table.create_streams hp id fd type mem
  | beside => exact hp

theorem loop_streams {p p' : Iocp n} (h : LoopStep p p') (hp : p.toTable.Streams) :
    p'.toTable.Streams := by
  cases h with
  | during _ h =>
    cases h with
    | step h => exact step_streams h hp
    | count | take => exact hp
    | first => exact ⟨hp.now, hp.trail⟩
  | pop => exact ⟨hp.now, hp.trail⟩

theorem turn_streams {p : Iocp n} (hp : p.toTable.Streams) (t : Turn n) :
    (final ((turn t).run p)).toTable.Streams := by
  cases t with
  | user script =>
    have hgoes : Goes none p (run script) := run_goes script p
    exact hgoes.final_keeps (fun _ _ h => step_streams h) hp
  | batch es =>
    have hbegun : (p.begun es).toTable.Streams := ⟨hp.now, hp.trail⟩
    exact loopOnce_keeps (fun _ _ => loop_streams) hbegun

theorem reachable_streams {p : Iocp n} (h : Reachable p) : p.toTable.Streams := by
  induction h with
  | init => exact Table.empty_streams
  | @turn p p' t _ returned ih =>
    have hfinal := turn_streams ih t
    rwa [returned] at hfinal

/-! ## Completions and the sessions they are for -/

/-- Every session has been created where no completion waited for its slot, and connections have
been accepted on the session in slot 0. -/
structure Undisturbed (p : Iocp n) : Prop where
  fresh : ∀ o ∈ p.opened, o.Fresh
  first : ∀ id ∈ p.accepts, id.val = 0

/-- The listening socket plays no part. -/
structure Matched (p : Iocp n) : Prop where
  table : p.Undisturbed → p.toTable.Matched
  listening : p.listening = none

theorem step_records {cur : Option (Waiting n)} {p p' : Iocp n} (h : Step cur p p')
    (hp : p'.Undisturbed) : p.Undisturbed := by
  cases h with
  | table move =>
    refine ⟨?_, hp.first⟩
    rw [← move.frame.2.2]
    exact hp.fresh
  | create => exact ⟨fun o ho => hp.fresh o (List.mem_append_left _ ho), hp.first⟩
  | beside => exact ⟨hp.fresh, hp.first⟩

theorem step_matched {e : Waiting n} {p p' : Iocp n} (he : e ∈ p.waiting)
    (h : Step (some e) p p') (hp : p.Matched) : p'.Matched := by
  have hback := step_records h
  cases h with
  | table move =>
    refine ⟨fun hu => ?_, move.frame.2.1.trans hp.listening⟩
    refine Table.move_matched move ?_ ?_ (hp.table (hback hu))
    · intro e' he'
      cases he'
      exact he
    · intro e' fd _ hfd
      cases hfd
  | create id fd type mem =>
    refine ⟨fun hu => ?_, hp.listening⟩
    apply Table.create_matched (hp.table (hback hu)) id fd type mem
    exact hu.fresh _ (by simp [Table.create])
  | beside => exact ⟨fun hu => hp.table (hback hu), hp.listening⟩

theorem loop_matched {p p' : Iocp n} (h : LoopStep p p') (hp : p.Matched) : p'.Matched := by
  cases h with
  | @during e _ _ waiting h =>
    cases h with
    | step h => exact step_matched waiting h hp
    | count => exact ⟨fun hu => hp.table ⟨hu.fresh, hu.first⟩, hp.listening⟩
    | take =>
      refine ⟨fun hu => hp.table ⟨hu.fresh, ?_⟩, hp.listening⟩
      intro id hid
      exact hu.first id (List.mem_append_left _ hid)
    | first taken filled =>
      refine ⟨fun hu => ?_, hp.listening⟩
      have hm := hp.table ⟨hu.fresh, hu.first⟩
      have hid : ⟨0, e.id.pos⟩ = e.id := Fin.ext (hu.first e.id taken).symm
      rw [hid] at filled
      exact Table.record_matched hm (hm.waiting e waiting _ filled).symm
  | pop =>
    refine ⟨fun hu => ?_, hp.listening⟩
    have hm := hp.table ⟨hu.fresh, hu.first⟩
    refine ⟨?_, hm.listening, hm.acts⟩
    intro e he
    exact hm.waiting e (List.mem_of_mem_tail he)

theorem loopOnce_matched {p : Iocp n} {es : List (Completion n)}
    (hes : p.toTable.ForOpen (es.map Completion.waiting)) :
    (final ((loopOnce es).run p)).Matched := by
  have hbegun : (p.begun es).Matched := ⟨fun _ => Table.begin_matched hes, rfl⟩
  exact loopOnce_keeps (fun _ _ => loop_matched) hbegun

end ChainSocket.Iocp
