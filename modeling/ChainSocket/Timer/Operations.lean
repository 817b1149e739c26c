import ChainSocket.Timer.Heap
import Mathlib.Data.List.Nodup

/-!
# What each timer operation does

* `stop_good`, `start_good`, `fire_good`: the effect of each operation on the armed timers, and
  that it keeps the heap good;
* `visited_good`: every state between two heap operations of any run of calls is good, callbacks
  included;
* `heap_invariant`: the same, spelled out position by position.
-/

namespace ChainSocket

namespace TimerManager

variable {τ : Type} [DecidableEq τ]

omit [DecidableEq τ] in
theorem Good.armed_index {m : TimerManager τ} (g : Good m) {t : τ} {x : Nat} (h : Armed m t x) :
    ∃ i, m.heap[i]? = some ⟨x, t⟩ ∧ (m.timers t).heapIndex = some i ∧ x = (m.core t).2.2 := by
  obtain ⟨i, hi⟩ := List.mem_iff_getElem?.mp h
  exact ⟨i, hi, (g.linked.indexed i _ hi).2⟩

omit [DecidableEq τ] in
theorem Good.not_armed {m : TimerManager τ} (g : Good m) {t : τ}
    (ht : (m.timers t).heapIndex = none) (x : Nat) : ¬ Armed m t x := by
  intro h
  obtain ⟨i, _, hi, _⟩ := g.armed_index h
  rw [ht] at hi; cases hi

theorem stop_good {m : TimerManager τ} (g : Good m) (t : τ) :
    Good (m.stop t) ∧ ((m.stop t).timers t).heapIndex = none ∧ (m.stop t).core = m.core ∧
      ∀ u x, Armed (m.stop t) u x ↔ u ≠ t ∧ Armed m u x := by
  unfold stop
  cases ht : (m.timers t).heapIndex with
  | none =>
    simp only [ne_eq, not_true_eq_false, ↓reduceIte]
    refine ⟨g, ht, trivial, fun u x => ⟨fun h => ⟨?_, h⟩, And.right⟩⟩
    rintro rfl; exact g.not_armed ht x h
  | some i =>
    obtain ⟨a, hc, e, rfl, hp⟩ := removeTimer_apart g ht
    simp only [ne_eq, reduceCtorEq, not_false_eq_true, ↓reduceIte]
    refine ⟨a.forget, by simp [setIndex_index], by rw [setIndex_core, hc], fun u x => ?_⟩
    simp only [Armed, setIndex_heap, ← hp.mem_iff, List.mem_cons]
    constructor
    · intro h
      obtain ⟨j, hj⟩ := List.mem_iff_getElem?.mp h
      exact ⟨(a.linked.indexed j _ hj).1, Or.inr h⟩
    · rintro ⟨hu, rfl | h⟩
      · exact absurd rfl hu
      · exact h

theorem modify_core_other (m : TimerManager τ) {t u : τ} (f : Timer → Timer) (h : u ≠ t) :
    (m.modify t f).core u = m.core u := by
  simp only [core, modify_other m f h]

theorem start_good {m : TimerManager τ} (g : Good m) (t : τ) (interval : Nat) (ty : TimerType)
    (clock : Nat) :
    Good (m.start t interval ty clock) ∧
      (m.start t interval ty clock).core t = (ty, interval, wrap64 (interval + clock)) ∧
      (∀ u, u ≠ t → (m.start t interval ty clock).core u = m.core u) ∧
      ∀ u x, Armed (m.start t interval ty clock) u x ↔
        u = t ∧ x = wrap64 (interval + clock) ∨ u ≠ t ∧ Armed m u x := by
  obtain ⟨gs, hnone, hcore, harmed⟩ := stop_good g t
  have a := (gs.apart hnone).modify fun x =>
    { x with interval, timerType := ty, expires := wrap64 (interval + clock) }
  obtain ⟨ga, hac, hp⟩ := addTimer_good a
  refine ⟨ga, ?_, ?_, ?_⟩
  · unfold start; rw [hac]; simp [core]
  · intro u hu
    unfold start; rw [hac, modify_core_other _ _ hu, hcore]
  · intro u x
    have hx : (((m.stop t).modify t fun x =>
        { x with interval, timerType := ty, expires := wrap64 (interval + clock) }).core t).2.2 =
        wrap64 (interval + clock) := by simp [core]
    unfold start Armed
    rw [hp.mem_iff, hx, List.mem_cons, modify_heap]
    have := harmed u x
    simp only [Armed] at this
    rw [this, HeapEntry.mk.injEq, and_comm (a := x = _)]

/-- The head of the loop of `DetectTimers`: `RemoveTimer`, then `OnTimer` up to the callback. -/
def fire (m : TimerManager τ) (t : τ) (now : Nat) : TimerManager τ :=
  (m.removeTimer t).onTimer t now

omit [DecidableEq τ] in
theorem core_type {m n : TimerManager τ} (h : m.core = n.core) (t : τ) :
    (m.timers t).timerType = (n.timers t).timerType ∧
      (m.timers t).interval = (n.timers t).interval := by
  have := congrFun h t
  simp only [core, Prod.mk.injEq] at this
  exact ⟨this.1, this.2.1⟩

theorem fire_good {m : TimerManager τ} (g : Good m) {t : τ} {y : Nat} (h : Armed m t y)
    (now : Nat) :
    Good (m.fire t now) ∧
      (∀ u, ((m.fire t now).timers u).timerType = (m.timers u).timerType ∧
        ((m.fire t now).timers u).interval = (m.timers u).interval) ∧
      ∀ u x, Armed (m.fire t now) u x ↔ u ≠ t ∧ Armed m u x ∨
        u = t ∧ (m.timers t).timerType = .circle ∧ x = wrap64 ((m.timers t).interval + now) := by
  obtain ⟨i, hi, ht, rfl⟩ := g.armed_index h
  obtain ⟨a, hc, e, rfl, hp⟩ := removeTimer_apart g ht
  have hty := core_type hc
  have rest : ∀ u x, ⟨x, u⟩ ∈ (m.removeTimer e.timer).heap ↔ u ≠ e.timer ∧ Armed m u x := by
    intro u x
    simp only [Armed, ← hp.mem_iff, List.mem_cons]
    constructor
    · intro hm
      obtain ⟨j, hj⟩ := List.mem_iff_getElem?.mp hm
      exact ⟨(a.linked.indexed j _ hj).1, Or.inr hm⟩
    · rintro ⟨hu, rfl | hm⟩
      · exact absurd rfl hu
      · exact hm
  unfold fire onTimer
  rw [(hty e.timer).1]
  cases hk : (m.timers e.timer).timerType with
  | once =>
    refine ⟨a.forget, fun u => ?_, fun u x => ?_⟩
    · have := core_type (setIndex_core (m.removeTimer e.timer) e.timer none) u
      rw [this.1, this.2]; exact hty u
    · simp only [Armed, setIndex_heap, reduceCtorEq, false_and, and_false, or_false]
      exact rest u x
  | circle =>
    have am := a.modify fun x => { x with expires := wrap64 (x.interval + now) }
    obtain ⟨ga, hac, hpa⟩ := addTimer_good am
    refine ⟨ga, fun u => ?_, fun u x => ?_⟩
    · have := core_type hac u
      rw [this.1, this.2]
      by_cases hu : u = e.timer
      · subst hu; simp only [modify_self]; exact hty _
      · rw [modify_other _ _ hu]; exact hty u
    · simp only [Armed, hpa.mem_iff, List.mem_cons, modify_heap, rest, HeapEntry.mk.injEq, core,
        modify_self, (hty e.timer).2, true_and]
      rw [or_comm, and_comm (a := x = _)]

/-! ## Every run -/

omit [DecidableEq τ] in
theorem fresh_good (timers : τ → Timer) : Good (fresh timers) :=
  ⟨by intro i a p _ ha; simp [fresh] at ha, by intro i e he; simp [fresh] at he,
    by intro t i _ hi; simp [fresh] at hi⟩

theorem apply_good {m : TimerManager τ} (g : Good m) (o : TimerOp τ) : Good (o.apply m) := by
  cases o with
  | start t interval ty clock => exact (start_good g t interval ty clock).1
  | stop t => exact (stop_good g t).1

theorem scanl_good {m : TimerManager τ} (g : Good m) (calls : List (TimerOp τ)) :
    (∀ p ∈ List.scanl TimerOp.apply m calls, Good p) ∧ Good (calls.foldl TimerOp.apply m) := by
  induction calls generalizing m with
  | nil => exact ⟨by simpa using g, g⟩
  | cons o rest ih =>
    have hr := ih (apply_good g o)
    refine ⟨?_, hr.2⟩
    intro p hp
    rw [List.scanl_cons] at hp
    rcases List.mem_cons.mp hp with rfl | hp
    · exact g
    · exact hr.1 p hp

omit [DecidableEq τ] in
/-- The loop takes out the root, which is armed. -/
theorem root_armed {m : TimerManager τ} {e : HeapEntry τ} {tail : List (HeapEntry τ)}
    (h : m.heap = e :: tail) : Armed m e.timer e.time := by
  unfold Armed; rw [h]; exact List.mem_cons_self

theorem detectTimers_good {m : TimerManager τ} (g : Good m) (now : Nat)
    (callbacks : List (List (TimerOp τ))) :
    (∀ p ∈ (m.detectTimers now callbacks).points, Good p) ∧
      Good (m.detectTimers now callbacks).manager := by
  induction callbacks generalizing m with
  | nil =>
    unfold detectTimers
    split
    · exact ⟨by simpa using g, g⟩
    · split <;> exact ⟨by simpa using g, g⟩
  | cons calls rest ih =>
    unfold detectTimers
    split
    · exact ⟨by simpa using g, g⟩
    · rename_i e tail hheap
      split
      · have gf := (fire_good g (root_armed hheap) now).1
        have hcalls := scanl_good gf calls
        have hrest := ih hcalls.2
        refine ⟨?_, hrest.2⟩
        intro p hp
        rcases List.mem_append.mp hp with hp | hp
        · exact hcalls.1 p hp
        · exact hrest.1 p hp
      · exact ⟨by simpa using g, g⟩

theorem visited_good {m : TimerManager τ} (g : Good m) (calls : List (TimerCall τ)) :
    ∀ p ∈ visited calls m, Good p := by
  induction calls generalizing m with
  | nil => simpa [visited] using g
  | cons c rest ih =>
    intro p hp
    cases c with
    | op o =>
      rcases List.mem_cons.mp hp with rfl | hp
      · exact g
      · exact ih (apply_good g o) p hp
    | detect now callbacks =>
      have hd := detectTimers_good g now callbacks
      simp only [visited, List.mem_cons, List.mem_append] at hp
      rcases hp with rfl | hp | hp
      · exact g
      · exact hd.1 p hp
      · split at hp
        · exact ih hd.2 p hp
        · cases hp

/-- The heap and the timers as the source's members describe them. -/
structure HeapInvariant (m : TimerManager τ) : Prop where
  ordered : ∀ i a p, 0 < i → m.heap[i]? = some a → m.heap[(i - 1) / 2]? = some p → p.time ≤ a.time
  indexed : ∀ i e, m.heap[i]? = some e →
    (m.timers e.timer).heapIndex = some i ∧ e.time = (m.timers e.timer).expires
  once : (m.heap.map HeapEntry.timer).Nodup
  armed : ∀ t, (m.timers t).heapIndex ≠ none ↔ t ∈ m.heap.map HeapEntry.timer

omit [DecidableEq τ] in
theorem Good.invariant {m : TimerManager τ} (g : Good m) : HeapInvariant m where
  ordered := g.ordered
  indexed := fun i e he => (g.linked.indexed i e he).2
  once := by
    rw [List.nodup_iff_getElem?_ne_getElem?]
    intro i j hij hj
    rw [List.length_map] at hj
    obtain ⟨a, ha⟩ := Sift.entry (l := m.heap) (i := i) (by omega)
    obtain ⟨b, hb⟩ := Sift.entry hj
    simp only [List.getElem?_map, ha, hb, Option.map_some, ne_eq, Option.some.injEq]
    exact fun q => Nat.ne_of_lt hij (g.linked.index_unique ha hb q)
  armed := by
    intro t
    constructor
    · intro h
      obtain ⟨i, hi⟩ := Option.ne_none_iff_exists'.mp h
      obtain ⟨e, he, rfl⟩ := g.linked.held t i id hi
      exact List.mem_map.mpr ⟨e, List.mem_of_getElem? he, rfl⟩
    · intro h
      obtain ⟨e, he, rfl⟩ := List.mem_map.mp h
      obtain ⟨i, hi⟩ := List.mem_iff_getElem?.mp he
      rw [(g.linked.indexed i e hi).2.1]
      exact Option.some_ne_none i

/-- Whatever the timers are asked, from outside or from their own callbacks, the heap invariant
holds whenever no heap operation is in progress. -/
theorem heap_invariant (timers : τ → Timer) (calls : List (TimerCall τ)) :
    ∀ m ∈ visited calls (fresh timers), HeapInvariant m :=
  fun m hm => (visited_good (fresh_good timers) calls m hm).invariant

/-- Four timers, one of them stopped in the middle of the heap, and callbacks that start and stop
others. -/
def busyCalls : List (TimerCall Nat) :=
  [.op (.start 0 10 .once 0), .op (.start 1 20 .once 0), .op (.start 2 30 .once 0),
    .op (.start 3 15 .circle 0), .op (.stop 3), .detect 16 [[.start 3 5 .circle 16, .stop 2]],
    .detect 22 [[], [.start 0 1 .once 22]]]

theorem busyCalls_visited : visited busyCalls (fresh fun _ => ⟨.once, 0, 0, none⟩) ≠ [] := by
  simp [visited, busyCalls]

theorem heap_invariant_busy : ∃ m ∈ visited busyCalls (fresh fun _ => ⟨.once, 0, 0, none⟩),
    m.heap = [⟨23, 0⟩, ⟨27, 3⟩] ∧ HeapInvariant m := by
  refine ⟨_, List.getLast_mem busyCalls_visited, by decide +kernel, ?_⟩
  exact heap_invariant (fun _ => ⟨.once, 0, 0, none⟩) busyCalls _
    (List.getLast_mem busyCalls_visited)

end TimerManager

end ChainSocket
