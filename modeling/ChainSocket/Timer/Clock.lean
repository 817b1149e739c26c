import ChainSocket.Lib.Refine
import ChainSocket.Timer.Pass

/-!
# The timers without their heap

What `TimerManager` is for: a set of timers each of which goes off on its own. `Detects` is what a
pass may do to them, `Alone` what a run is for one of them.

* `run_clock`: every run of the manager is a run of such timers;
* `run_alone`: what one of them does in it depends on no other, but for what their callbacks do
  to it.
-/

namespace ChainSocket

/-- One timer: `expires` is when it goes off. -/
@[ext] structure Alarm where
  timerType : TimerType
  interval : Nat
  expires : Option Nat
  deriving DecidableEq

namespace Alarm

def stop (a : Alarm) : Alarm := { a with expires := none }

/-- The timer goes off. -/
def fire (a : Alarm) (now : Nat) : Alarm :=
  match a.timerType with
  | .circle => { a with expires := some (wrap64 (a.interval + now)) }
  | .once => a.stop

def due (a : Alarm) (now : Nat) : Bool := a.expires.any fun x => decide (x ≤ now)

theorem due_iff {a : Alarm} {now : Nat} :
    a.due now = true ↔ ∃ x, a.expires = some x ∧ x ≤ now := by
  unfold due
  cases a.expires <;> simp

/-- A call on the timer. -/
def call {τ : Type} (a : Alarm) : TimerOp τ → Alarm
  | .start _ interval timeType clock => ⟨timeType, interval, some (wrap64 (interval + clock))⟩
  | .stop _ => a.stop

end Alarm

variable {τ : Type} [DecidableEq τ]

def TimerOp.set (c : τ → Alarm) (o : TimerOp τ) : τ → Alarm :=
  Function.update c o.timer ((c o.timer).call o)

/-- A pass that reads `now` lets timers go off, the earliest first, until none is due. -/
inductive Detects (now : Nat) : List (List (TimerOp τ)) → (τ → Alarm) → List τ → (τ → Alarm) → Prop
  | idle {callbacks : List (List (TimerOp τ))} {c : τ → Alarm}
      (late : ∀ t, (c t).due now = false) : Detects now callbacks c [] c
  | fire {calls : List (TimerOp τ)} {rest : List (List (TimerOp τ))} {c c' : τ → Alarm} {t : τ}
      {fired : List τ} (due : (c t).due now = true)
      (first : ∀ x u y, (c t).expires = some x → (c u).expires = some y → x ≤ y)
      (next : Detects now rest (calls.foldl TimerOp.set (Function.update c t ((c t).fire now)))
        fired c') : Detects now (calls :: rest) c (t :: fired) c'

/-- How long to wait until the next timer goes off; 10 where there is none. -/
def Answers (c : τ → Alarm) (now : Nat) (wait : Int) : Prop :=
  (∀ t, (c t).expires = none) ∧ wait = 10 ∨
    ∃ t x, (c t).expires = some x ∧ (∀ u y, (c u).expires = some y → x ≤ y) ∧
      wait = toInt (x - now)

/-- What a call may do to timers on their own. -/
def ClockStep (call : TimerCall τ) (c : τ → Alarm) (answer : Option (List τ × Int))
    (c' : τ → Alarm) : Prop :=
  match call with
  | .op o => answer = none ∧ c' = o.set c
  | .detect now callbacks => ∃ fired wait, answer = some (fired, wait) ∧
      Detects now callbacks c fired c' ∧ Answers c' now wait

/-! ## One timer of many -/

/-- What a timer's own callback does to it, in a pass that has fired it. -/
def ownCalls (t : τ) (callbacks : List (List (TimerOp τ))) (fired : List τ) : List (TimerOp τ) :=
  (callbacks[fired.idxOf t]?.getD []).filter fun o => decide (o.timer = t)

/-- A pass over one timer. -/
def Alarm.pass (a : Alarm) (now : Nat) (own : List (TimerOp τ)) : Alarm :=
  if a.due now then own.foldl Alarm.call (a.fire now) else a

omit [DecidableEq τ] in
/-- A timer that went off is late again. -/
theorem Alarm.fire_late {a : Alarm} {now : Nat}
    (h : a.timerType = .circle → 1 ≤ a.interval ∧ a.interval + now < 2 ^ 64) :
    (a.fire now).due now = false := by
  unfold fire
  cases hk : a.timerType with
  | once => rfl
  | circle =>
    obtain ⟨hpos, hsum⟩ := h hk
    simp only [due, Option.any_some, decide_eq_false_iff_not, wrap64, Nat.mod_eq_of_lt hsum]
    omega

omit [DecidableEq τ] in
theorem Alarm.calls_late {own : List (TimerOp τ)} {a : Alarm} {now : Nat}
    (h : ∀ o ∈ own, o.Ahead now) (ha : a.due now = false) :
    (own.foldl Alarm.call a).due now = false := by
  induction own generalizing a with
  | nil => exact ha
  | cons o rest ih =>
    apply ih (fun p hp => h p (List.mem_cons_of_mem o hp))
    have ho := h o List.mem_cons_self
    cases o with
    | start t interval timeType clock =>
      obtain ⟨hpos, hclock, hsum⟩ := ho
      simp only [call, due, Option.any_some, decide_eq_false_iff_not, wrap64,
        Nat.mod_eq_of_lt hsum]
      omega
    | stop t => rfl

/-- Calls do to a timer what those on it do. -/
theorem foldl_set (c : τ → Alarm) (calls : List (TimerOp τ)) (t : τ) :
    calls.foldl TimerOp.set c t =
      (calls.filter fun o => decide (o.timer = t)).foldl Alarm.call (c t) := by
  induction calls generalizing c with
  | nil => rfl
  | cons o rest ih =>
    rw [List.foldl_cons, ih, List.filter_cons, TimerOp.set]
    by_cases ho : o.timer = t
    · subst ho
      simp
    · simp [ho, Function.update_of_ne (Ne.symm ho)]

theorem filter_untouched {calls : List (TimerOp τ)} {t : τ} (h : t ∉ touched calls) :
    (calls.filter fun o => decide (o.timer = t)) = [] := by
  rw [List.filter_eq_nil_iff]
  intro o ho
  rw [decide_eq_true_eq]
  rintro rfl
  exact h (List.mem_map_of_mem ho)

/-- In a pass, no other timer's callback touches the timer, and its own puts it off. -/
structure OwnOnly (t : τ) (now : Nat) (callbacks : List (List (TimerOp τ))) (fired : List τ) :
    Prop where
  others : ∀ (k : Nat) (u : τ) (calls : List (TimerOp τ)), fired[k]? = some u →
    callbacks[k]? = some calls → u ≠ t → t ∉ touched calls
  own : ∀ (k : Nat) (calls : List (TimerOp τ)), fired[k]? = some t →
    callbacks[k]? = some calls → ∀ o ∈ calls, o.timer = t → o.Ahead now

/-- A timer that is due is no circle of 0, and its next time is of 64 bits. -/
def Alarm.PutOff (a : Alarm) (now : Nat) : Prop :=
  a.due now = true → a.timerType = .circle → 1 ≤ a.interval ∧ a.interval + now < 2 ^ 64

omit [DecidableEq τ] in
theorem OwnOnly.tail {t u : τ} {now : Nat} {calls : List (TimerOp τ)}
    {rest : List (List (TimerOp τ))} {fired : List τ}
    (h : OwnOnly t now (calls :: rest) (u :: fired)) : OwnOnly t now rest fired := by
  constructor
  · intro k v later hv hlater
    exact h.others (k + 1) v later (by simpa using hv) (by simpa using hlater)
  · intro k later hk hlater
    exact h.own (k + 1) later (by simpa using hk) (by simpa using hlater)

/-- In such a pass the timer goes off once where it is due, and nothing else happens to it than
that and what its own callback says. -/
theorem Detects.alone {now : Nat} {callbacks : List (List (TimerOp τ))} {c c' : τ → Alarm}
    {fired : List τ} (h : Detects now callbacks c fired c') {t : τ}
    (hown : OwnOnly t now callbacks fired) (hoff : (c t).PutOff now) :
    fired.count t = (if (c t).due now then 1 else 0) ∧
      c' t = (c t).pass now (ownCalls t callbacks fired) := by
  induction h with
  | idle late => simp [late t, Alarm.pass]
  | @fire calls rest c c' u fired due first next ih =>
    rw [foldl_set] at ih
    by_cases hu : u = t
    · subst hu
      rw [Function.update_self] at ih
      have hcalls : ∀ o ∈ calls.filter (fun o => decide (o.timer = u)), o.Ahead now := by
        intro o ho
        obtain ⟨ho, htimer⟩ := List.mem_filter.mp ho
        exact hown.own 0 calls rfl rfl o ho (of_decide_eq_true htimer)
      have hlate := Alarm.calls_late hcalls (Alarm.fire_late (hoff due))
      obtain ⟨hcount, hlast⟩ := ih hown.tail fun hdue => by rw [hlate] at hdue; cases hdue
      constructor
      · rw [List.count_cons_self, hcount, hlate, due]
        rfl
      · rw [hlast, Alarm.pass, hlate, Alarm.pass, due]
        simp [ownCalls]
    · have huntouched : t ∉ touched calls := hown.others 0 u calls rfl rfl hu
      rw [filter_untouched huntouched, Function.update_of_ne (Ne.symm hu), List.foldl_nil] at ih
      obtain ⟨hcount, hlast⟩ := ih hown.tail hoff
      constructor
      · rw [List.count_cons_of_ne hu, hcount]
      · rw [hlast, ownCalls, ownCalls, List.idxOf_cons_ne _ hu, List.getElem?_cons_succ]

/-- What a call does to the timer `t`. -/
def AlarmStep (t : τ) (call : TimerCall τ) (a : Alarm) (answer : Option (List τ × Int))
    (a' : Alarm) : Prop :=
  match call with
  | .op o => answer = none ∧ a' = if o.timer = t then a.call o else a
  | .detect now callbacks => ∃ fired wait, answer = some (fired, wait) ∧
      fired.count t = (if a.due now then 1 else 0) ∧ a' = a.pass now (ownCalls t callbacks fired)

namespace TimerManager

/-- Each timer of a manager. -/
def alarms (m : TimerManager τ) (t : τ) : Alarm :=
  ⟨(m.timers t).timerType, (m.timers t).interval,
    (m.heap.find? fun e => decide (e.timer = t)).map HeapEntry.time⟩

section

variable {m m' : TimerManager τ} {t u : τ} {x y now : Nat}

theorem alarms_expires (g : Good m) : (m.alarms t).expires = some x ↔ Armed m t x := by
  have hfound : ∀ y, (m.alarms t).expires = some y → Armed m t y := by
    intro y hy
    obtain ⟨e, he, rfl⟩ := Option.map_eq_some_iff.mp hy
    have htimer := List.find?_some he
    rw [decide_eq_true_eq] at htimer
    subst htimer
    exact List.mem_of_find?_eq_some he
  constructor
  · exact hfound x
  · intro harmed
    cases hexp : (m.alarms t).expires with
    | none =>
      unfold alarms at hexp
      rw [Option.map_eq_none_iff, List.find?_eq_none] at hexp
      exact absurd (decide_eq_true rfl) (hexp _ harmed)
    | some y => rw [g.armed_unique (hfound y hexp) harmed]

/-- A timer is what its type and interval are, and when it is armed for. -/
theorem alarms_eq (g : Good m) {a : Alarm} (htype : (m.timers t).timerType = a.timerType)
    (hinterval : (m.timers t).interval = a.interval)
    (hexpires : ∀ x, Armed m t x ↔ a.expires = some x) : m.alarms t = a := by
  apply Alarm.ext
  · exact htype
  · exact hinterval
  · apply Option.ext
    intro x
    exact (alarms_expires g).trans (hexpires x)

/-- Another timer is what it was. -/
theorem alarms_other (g : Good m) (g' : Good m')
    (htype : (m'.timers u).timerType = (m.timers u).timerType)
    (hinterval : (m'.timers u).interval = (m.timers u).interval)
    (harmed : ∀ x, Armed m' u x ↔ Armed m u x) : m'.alarms u = m.alarms u := by
  apply alarms_eq g' htype hinterval
  intro x
  rw [harmed, ← alarms_expires g]

/-- A call does to its timer what it does, and to no other. -/
theorem alarms_apply (g : Good m) (o : TimerOp τ) : (o.apply m).alarms = o.set m.alarms := by
  funext u
  cases o with
  | start t interval timeType clock =>
    obtain ⟨g', hcore, hothers, harmed⟩ := start_good g t interval timeType clock
    by_cases hu : u = t
    · subst hu
      simp only [core, Prod.mk.injEq] at hcore
      rw [TimerOp.set, TimerOp.timer, Function.update_self]
      apply alarms_eq g' hcore.1 hcore.2.1
      intro x
      simp [Alarm.call, harmed, eq_comm]
    · have hsame := hothers u hu
      simp only [core, Prod.mk.injEq] at hsame
      rw [TimerOp.set, TimerOp.timer, Function.update_of_ne hu]
      apply alarms_other g g' hsame.1 hsame.2.1
      intro x
      simp [harmed, hu]
  | stop t =>
    obtain ⟨g', -, hcore, harmed⟩ := stop_good g t
    obtain ⟨htype, hinterval⟩ := core_type hcore u
    by_cases hu : u = t
    · subst hu
      rw [TimerOp.set, TimerOp.timer, Function.update_self]
      apply alarms_eq g' htype hinterval
      intro x
      simp [harmed, Alarm.call, Alarm.stop]
    · rw [TimerOp.set, TimerOp.timer, Function.update_of_ne hu]
      apply alarms_other g g' htype hinterval
      intro x
      simp [harmed, hu]

theorem alarms_calls (g : Good m) (calls : List (TimerOp τ)) :
    (calls.foldl TimerOp.apply m).alarms = calls.foldl TimerOp.set m.alarms := by
  induction calls generalizing m with
  | nil => rfl
  | cons o rest ih => rw [List.foldl_cons, List.foldl_cons, ih (apply_good g o), alarms_apply g o]

theorem alarms_fire (g : Good m) (h : Armed m t y) :
    (m.fire t now).alarms = Function.update m.alarms t ((m.alarms t).fire now) := by
  obtain ⟨g', hsame, harmed⟩ := fire_good g h now
  funext u
  obtain ⟨htype, hinterval⟩ := hsame u
  by_cases hu : u = t
  · subst hu
    rw [Function.update_self]
    unfold Alarm.fire
    cases hk : (m.alarms u).timerType with
    | once =>
      apply alarms_eq g' htype hinterval
      have honce : (m.timers u).timerType = .once := hk
      intro x
      simp [harmed, honce, Alarm.stop]
    | circle =>
      have hcircle : (m.timers u).timerType = .circle := hk
      apply alarms_eq g' (htype.trans hcircle) hinterval
      intro x
      simp only [harmed, hcircle, ne_eq, not_true_eq_false, false_and, true_and, false_or,
        Option.some.injEq]
      exact eq_comm
  · rw [Function.update_of_ne hu]
    apply alarms_other g g' htype hinterval
    intro x
    simp [harmed, hu]

/-! ## One pass -/

omit [DecidableEq τ] in
theorem Good.root_first (g : Good m) {e : HeapEntry τ} {tail : List (HeapEntry τ)}
    (hheap : m.heap = e :: tail) (h : Armed m u y) : e.time ≤ y :=
  Sift.root_least g.ordered (by rw [hheap]; rfl) _ h

/-- With nothing due, a pass says how long to wait. -/
theorem detectTimers_rests (g : Good m) (hlate : ∀ t x, Armed m t x → now < x)
    (callbacks : List (List (TimerOp τ))) : ∃ wait,
      m.detectTimers now callbacks = ⟨m, [], [m], some wait⟩ ∧ Answers m.alarms now wait := by
  unfold detectTimers
  split
  · rename_i hheap
    refine ⟨10, rfl, .inl ⟨fun t => ?_, rfl⟩⟩
    simp [alarms, hheap]
  · rename_i e tail hheap
    have harmed := root_armed hheap
    rw [if_neg (Nat.not_le.mpr (hlate _ _ harmed))]
    refine ⟨_, rfl, .inr ⟨e.timer, e.time, (alarms_expires g).mpr harmed, ?_, rfl⟩⟩
    intro u y hy
    exact g.root_first hheap ((alarms_expires g).mp hy)

theorem rests_detects (g : Good m) (hlate : ∀ t x, Armed m t x → now < x)
    {callbacks : List (List (TimerOp τ))} {wait : Int}
    (hwait : (m.detectTimers now callbacks).wait = some wait) :
    Detects now callbacks m.alarms (m.detectTimers now callbacks).fired
      (m.detectTimers now callbacks).manager.alarms ∧
      Answers (m.detectTimers now callbacks).manager.alarms now wait := by
  obtain ⟨w, hpass, hanswers⟩ := detectTimers_rests g hlate callbacks
  rw [hpass] at hwait ⊢
  cases hwait
  refine ⟨.idle fun t => ?_, hanswers⟩
  rw [← Bool.not_eq_true, Alarm.due_iff]
  rintro ⟨x, hx, hle⟩
  have := hlate t x ((alarms_expires g).mp hx)
  omega

theorem detectTimers_spent {e : HeapEntry τ} {tail : List (HeapEntry τ)}
    (hheap : m.heap = e :: tail) (hdue : e.time ≤ now) :
    m.detectTimers now [] = ⟨m, [], [m], none⟩ := by
  unfold detectTimers
  rw [hheap]
  exact if_pos hdue

theorem detectTimers_fire {e : HeapEntry τ} {tail : List (HeapEntry τ)}
    (hheap : m.heap = e :: tail) (hdue : e.time ≤ now) (calls : List (TimerOp τ))
    (rest : List (List (TimerOp τ))) :
    m.detectTimers now (calls :: rest) =
      { (firing m e.timer now calls).detectTimers now rest with
        fired := e.timer :: ((firing m e.timer now calls).detectTimers now rest).fired
        points := List.scanl TimerOp.apply (m.fire e.timer now) calls ++
          ((firing m e.timer now calls).detectTimers now rest).points } := by
  rw [detectTimers, hheap]
  exact if_pos hdue

theorem firing_alarms (g : Good m) (h : Armed m t y) (calls : List (TimerOp τ)) :
    (firing m t now calls).alarms =
      calls.foldl TimerOp.set (Function.update m.alarms t ((m.alarms t).fire now)) := by
  rw [firing, alarms_calls (fire_good g h now).1, alarms_fire g h]

omit [DecidableEq τ] in
/-- Where a timer is due, the root is. -/
theorem Good.root_due (g : Good m) (h : ¬ ∀ t x, Armed m t x → now < x) :
    ∃ e tail, m.heap = e :: tail ∧ e.time ≤ now := by
  obtain ⟨u, y, hu, hy⟩ : ∃ u y, Armed m u y ∧ y ≤ now := by simpa using h
  cases hheap : m.heap with
  | nil => simp [Armed, hheap] at hu
  | cons e tail => exact ⟨e, tail, rfl, (g.root_first hheap hu).trans hy⟩

/-- A pass that returns has let the timers go off as timers on their own may. -/
theorem detectTimers_detects (g : Good m) {callbacks : List (List (TimerOp τ))} {wait : Int}
    (hwait : (m.detectTimers now callbacks).wait = some wait) :
    Detects now callbacks m.alarms (m.detectTimers now callbacks).fired
      (m.detectTimers now callbacks).manager.alarms ∧
      Answers (m.detectTimers now callbacks).manager.alarms now wait := by
  induction callbacks generalizing m with
  | nil =>
    by_cases hlate : ∀ t x, Armed m t x → now < x
    · exact rests_detects g hlate hwait
    · obtain ⟨e, tail, hheap, hdue⟩ := g.root_due hlate
      rw [detectTimers_spent hheap hdue] at hwait
      cases hwait
  | cons calls rest ih =>
    by_cases hlate : ∀ t x, Armed m t x → now < x
    · exact rests_detects g hlate hwait
    · obtain ⟨e, tail, hheap, hdue⟩ := g.root_due hlate
      have harmed := root_armed hheap
      rw [detectTimers_fire hheap hdue] at hwait ⊢
      obtain ⟨hnext, hanswers⟩ := ih (firing_good g harmed) hwait
      rw [firing_alarms g harmed] at hnext
      refine ⟨.fire ?_ ?_ hnext, hanswers⟩
      · exact Alarm.due_iff.mpr ⟨e.time, (alarms_expires g).mpr harmed, hdue⟩
      · intro x u y hx hy
        rw [(alarms_expires g).mpr harmed, Option.some.injEq] at hx
        subst hx
        exact g.root_first hheap ((alarms_expires g).mp hy)

end

/-! ## Runs -/

open Refine

/-- A call, and what it answers: the timers that a pass has fired, and its `int`. A pass that is
given too few callbacks has not returned. -/
def exec (call : TimerCall τ) (m : TimerManager τ) :
    Except Unit (Option (List τ × Int) × TimerManager τ) :=
  match call with
  | .op o => .ok (none, o.apply m)
  | .detect now callbacks =>
    match (m.detectTimers now callbacks).wait with
    | none => .error ()
    | some wait => .ok (some ((m.detectTimers now callbacks).fired, wait),
        (m.detectTimers now callbacks).manager)

def PassReturns (call : TimerCall τ) (m : TimerManager τ) : Prop :=
  match call with
  | .op _ => True
  | .detect now callbacks => (m.detectTimers now callbacks).wait ≠ none

/-- The passes return, and in them only its own callback touches the timer `t`. -/
def LeavesAlone (t : τ) (call : TimerCall τ) (m : TimerManager τ) : Prop :=
  match call with
  | .op _ => True
  | .detect now callbacks => (m.detectTimers now callbacks).wait ≠ none ∧
      OwnOnly t now callbacks (m.detectTimers now callbacks).fired ∧ (m.alarms t).PutOff now

section

variable {m : TimerManager τ}

theorem exec_detect {now : Nat} {callbacks : List (List (TimerOp τ))}
    (h : (m.detectTimers now callbacks).wait ≠ none) : ∃ wait,
      (m.detectTimers now callbacks).wait = some wait ∧
      exec (.detect now callbacks) m = .ok (some ((m.detectTimers now callbacks).fired, wait),
        (m.detectTimers now callbacks).manager) := by
  obtain ⟨wait, hwait⟩ := Option.ne_none_iff_exists'.mp h
  refine ⟨wait, hwait, ?_⟩
  simp only [exec, hwait]

theorem clock_simulates : Simulates exec PassReturns ClockStep fun (m : TimerManager τ) c =>
    Good m ∧ m.alarms = c := by
  rintro call m _ ⟨g, rfl⟩ hpre
  cases call with
  | op o => exact ⟨none, o.apply m, _, rfl, ⟨rfl, alarms_apply g o⟩, apply_good g o, rfl⟩
  | detect now callbacks =>
    obtain ⟨wait, hwait, hexec⟩ := exec_detect hpre
    obtain ⟨hdetects, hanswers⟩ := detectTimers_detects g hwait
    exact ⟨_, _, _, hexec, ⟨_, wait, rfl, hdetects, hanswers⟩,
      (detectTimers_good g now callbacks).2, rfl⟩

theorem alarm_simulates (t : τ) : Simulates exec (LeavesAlone t) (AlarmStep t)
    fun (m : TimerManager τ) a => Good m ∧ m.alarms t = a := by
  rintro call m _ ⟨g, rfl⟩ hpre
  cases call with
  | op o =>
    have hset : (o.apply m).alarms t = if o.timer = t then (m.alarms t).call o else m.alarms t := by
      rw [alarms_apply g o, TimerOp.set, Function.update_apply]
      split_ifs with ho ho' ho'
      · rw [ho]
      · exact absurd ho.symm ho'
      · exact absurd ho'.symm ho
      · rfl
    exact ⟨none, o.apply m, _, rfl, ⟨rfl, hset⟩, apply_good g o, rfl⟩
  | detect now callbacks =>
    obtain ⟨hreturns, hown, hoff⟩ := hpre
    obtain ⟨wait, hwait, hexec⟩ := exec_detect hreturns
    obtain ⟨hcount, hlast⟩ := (detectTimers_detects g hwait).1.alone hown hoff
    have hgood := (detectTimers_good g now callbacks).2
    exact ⟨_, _, _, hexec, ⟨_, wait, rfl, hcount, hlast⟩, hgood, rfl⟩

/-- Every run of the manager whose passes return is a run of timers on their own. -/
theorem run_clock (h : Reachable m) {calls : List (TimerCall τ)}
    (returns : Allowed exec PassReturns m calls) : ∃ answers m',
      run exec m calls = .ok (answers, m') ∧ Follows ClockStep m.alarms calls answers m'.alarms := by
  obtain ⟨answers, m', c, hrun, hfollows, -, rfl⟩ :=
    run_follows clock_simulates ⟨h.good, rfl⟩ returns
  exact ⟨answers, m', hrun, hfollows⟩

/-- Seen from one timer that no other's callback touches, every run is a run of that timer alone:
in each pass it is fired once where it is due, and not where it is not, whatever other timers
there are and whatever their callbacks do to them. -/
theorem run_alone (h : Reachable m) (t : τ) {calls : List (TimerCall τ)}
    (alone : Allowed exec (LeavesAlone t) m calls) : ∃ answers m',
      run exec m calls = .ok (answers, m') ∧
        Follows (AlarmStep t) (m.alarms t) calls answers (m'.alarms t) := by
  obtain ⟨answers, m', a, hrun, hfollows, -, rfl⟩ :=
    run_follows (alarm_simulates t) ⟨h.good, rfl⟩ alone
  exact ⟨answers, m', hrun, hfollows⟩

end

/-! ## A circle and another timer -/

/-- A circle started at 1 for every 3. -/
def circling : TimerManager Bool := (fresh fun _ => ⟨.once, 0, 0, none⟩).start true 3 .circle 1

theorem circling_armed {t : Bool} {x : Nat} : Armed circling t x ↔ t = true ∧ x = 4 := by
  have hstart := (start_good (fresh_good fun _ : Bool => ⟨.once, 0, 0, none⟩) true 3 .circle 1).2.2.2
  rw [circling, hstart]
  simp [Armed, fresh, wrap64]

theorem circling_good : Good circling := (start_good (fresh_good _) true 3 .circle 1).1

theorem circling_fires : Fires circling 5 [[.stop false]] (circling.detectTimers 5 [[.stop false]]) := by
  have hinterval : (circling.timers true).interval = 3 :=
    congrArg (·.2.1) (start_good (fresh_good _) true 3 .circle 1).2.1
  apply pass_fires circling_good
  · intro t x ha _ _
    obtain ⟨rfl, -⟩ := circling_armed.mp ha
    rw [hinterval]
    decide
  · simp [TimerOp.Ahead]
  · have honce : (dueEntries circling 5).Nodup := dueEntries_nodup circling_good 5
    have hall : ∀ e ∈ dueEntries circling 5, e = ⟨4, true⟩ := by
      intro e he
      obtain ⟨ht, hx⟩ := circling_armed.mp (mem_dueEntries.mp he).1
      rw [← ht, ← hx]
    exact (List.nodup_replicate.mp ((List.eq_replicate_of_mem hall) ▸ honce))

theorem circling_returns : (circling.detectTimers 5 [[.stop false]]).wait ≠ none :=
  circling_fires.returned

/-- A pass at 5 fires the circle, and its callback stops the other timer. -/
theorem run_clock_circling : ∃ answers m',
    run exec circling [.detect 5 [[.stop false]]] = .ok (answers, m') ∧
      Follows ClockStep circling.alarms [.detect 5 [[.stop false]]] answers m'.alarms :=
  run_clock (.op (.start true 3 .circle 1) (.fresh _)) ⟨circling_returns, fun _ _ _ => trivial⟩

theorem run_alone_circling : ∃ answers m',
    run exec circling [.detect 5 [[.stop false]]] = .ok (answers, m') ∧
      Follows (AlarmStep true) (circling.alarms true) [.detect 5 [[.stop false]]] answers
        (m'.alarms true) := by
  have hown : OwnOnly true 5 [[.stop false]] (circling.detectTimers 5 [[.stop false]]).fired := by
    constructor
    · intro k u calls hu _ hne
      obtain ⟨x, ha, -⟩ := (circling_fires.due k u hu).1
      exact absurd (circling_armed.mp ha).1 hne
    · intro k calls _ hcalls o ho htimer
      obtain rfl := List.mem_singleton.mp (List.mem_of_getElem? hcalls)
      obtain rfl := List.mem_singleton.mp ho
      cases htimer
  have hoff : (circling.alarms true).PutOff 5 := by
    intro _ _
    have hinterval : (circling.alarms true).interval = 3 :=
      congrArg (·.2.1) (start_good (fresh_good _) true 3 .circle 1).2.1
    rw [hinterval]
    decide
  exact run_alone (.op (.start true 3 .circle 1) (.fresh _)) true
    ⟨⟨circling_returns, hown, hoff⟩, fun _ _ _ => trivial⟩

end TimerManager

end ChainSocket
