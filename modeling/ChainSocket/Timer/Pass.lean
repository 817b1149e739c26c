import ChainSocket.Timer.Operations

/-!
# What one pass of DetectTimers fires

`Fires` describes a whole pass by the timers armed when it began and by what each callback
touched. `pass_fires` proves it firing by firing: a firing takes its own timer and those its
callback touches out of the due ones (`firing_due`), and adds none, so the due timers run out.
-/

namespace ChainSocket

namespace TimerManager

variable {τ : Type} [DecidableEq τ]

/-- The managers a program can hold between two calls. -/
inductive Reachable : TimerManager τ → Prop where
  | fresh (timers : τ → Timer) : Reachable (fresh timers)
  | op {m : TimerManager τ} (o : TimerOp τ) : Reachable m → Reachable (o.apply m)
  | detect {m : TimerManager τ} (now : Nat) (callbacks : List (List (TimerOp τ))) :
      Reachable m → (m.detectTimers now callbacks).wait.isSome →
      Reachable (m.detectTimers now callbacks).manager

theorem Reachable.good {m : TimerManager τ} (h : Reachable m) : Good m := by
  induction h with
  | fresh timers => exact fresh_good timers
  | op o _ ih => exact apply_good ih o
  | detect now callbacks _ _ ih => exact (detectTimers_good ih now callbacks).2

omit [DecidableEq τ] in
theorem Good.armed_unique {m : TimerManager τ} (g : Good m) {t : τ} {x y : Nat}
    (hx : Armed m t x) (hy : Armed m t y) : x = y := by
  obtain ⟨_, _, _, ex⟩ := g.armed_index hx
  obtain ⟨_, _, _, ey⟩ := g.armed_index hy
  rw [ex, ey]

end TimerManager

open TimerManager

variable {τ : Type} [DecidableEq τ]

/-- A `Start` made during a pass that read `now`: a positive interval, a clock that did not go
back, and a sum of 64 bits. -/
def TimerOp.Ahead (now : Nat) : TimerOp τ → Prop
  | .start _ interval _ clock => 1 ≤ interval ∧ now ≤ clock ∧ interval + clock < 2 ^ 64
  | .stop _ => True

/-- The timers a callback stopped or restarted. -/
def touched (calls : List (TimerOp τ)) : List τ := calls.map TimerOp.timer

/-- A firing of any timer that is due puts it off: its interval is positive and the sum is of 64
bits. -/
def CirclesAhead (m : TimerManager τ) (now : Nat) : Prop :=
  ∀ t x, Armed m t x → x ≤ now → (m.timers t).timerType = .circle →
    1 ≤ (m.timers t).interval ∧ (m.timers t).interval + now < 2 ^ 64

theorem ahead_armed {m : TimerManager τ} (g : Good m) {now : Nat} {o : TimerOp τ}
    (ho : o.Ahead now) (u : τ) (x : Nat) :
    (x ≤ now → (Armed (o.apply m) u x ↔ Armed m u x ∧ u ≠ o.timer)) ∧
      (u ≠ o.timer → (Armed (o.apply m) u x ↔ Armed m u x) ∧
        (o.apply m).core u = m.core u) := by
  cases o with
  | start t interval ty clock =>
    obtain ⟨hi, hc, hs⟩ := ho
    obtain ⟨_, _, hcore, ha⟩ := start_good g t interval ty clock
    have hx : wrap64 (interval + clock) = interval + clock := Nat.mod_eq_of_lt hs
    simp only [TimerOp.apply, TimerOp.timer, ha, hx]
    refine ⟨fun hle => ⟨?_, fun h => Or.inr ⟨h.2, h.1⟩⟩, fun hu => ⟨?_, hcore u hu⟩⟩
    · rintro (⟨_, rfl⟩ | h)
      · omega
      · exact ⟨h.2, h.1⟩
    · simp [hu]
  | stop t =>
    obtain ⟨_, _, hcore, ha⟩ := stop_good g t
    simp only [TimerOp.apply, TimerOp.timer, ha, hcore]
    exact ⟨fun _ => and_comm, fun hu => ⟨by simp [hu], trivial⟩⟩

/-- What a whole callback does: it takes the timers it touches out of the due ones, and leaves
every other timer as it was. -/
theorem calls_armed {m : TimerManager τ} (g : Good m) {now : Nat} {calls : List (TimerOp τ)}
    (hcalls : ∀ o ∈ calls, o.Ahead now) (u : τ) (x : Nat) :
    (x ≤ now → (Armed (calls.foldl TimerOp.apply m) u x ↔ Armed m u x ∧ u ∉ touched calls)) ∧
      (u ∉ touched calls → (Armed (calls.foldl TimerOp.apply m) u x ↔ Armed m u x) ∧
        (calls.foldl TimerOp.apply m).core u = m.core u) := by
  induction calls generalizing m with
  | nil => simp [touched]
  | cons o rest ih =>
    have ho := ahead_armed g (hcalls o List.mem_cons_self) u x
    have hr := ih (apply_good g o) fun p hp => hcalls p (List.mem_cons_of_mem o hp)
    simp only [List.foldl_cons, touched, List.map_cons, List.mem_cons, not_or] at hr ⊢
    refine ⟨fun hx => ?_, fun hu => ?_⟩
    · rw [hr.1 hx, ho.1 hx, and_assoc]
    · rw [(hr.2 hu.2).1, (ho.2 hu.1).1, (hr.2 hu.2).2, (ho.2 hu.1).2]
      exact ⟨Iff.rfl, rfl⟩

/-- The state after one firing of the loop and its callback. -/
def firing (m : TimerManager τ) (t : τ) (now : Nat) (calls : List (TimerOp τ)) :
    TimerManager τ := calls.foldl TimerOp.apply (m.fire t now)

section Firing
variable {m : TimerManager τ} {t : τ} {y now : Nat} {calls : List (TimerOp τ)}

theorem firing_good (g : Good m) (h : Armed m t y) : Good (firing m t now calls) :=
  (scanl_good (fire_good g h now).1 calls).2

/-- The due timers after a firing: those before it, less the fired one and the touched ones. -/
theorem firing_due (g : Good m) (h : Armed m t y) (hy : y ≤ now) (hc : CirclesAhead m now)
    (hcalls : ∀ o ∈ calls, o.Ahead now) {u : τ} {x : Nat} (hx : x ≤ now) :
    Armed (firing m t now calls) u x ↔ Armed m u x ∧ u ≠ t ∧ u ∉ touched calls := by
  obtain ⟨gf, _, ha⟩ := fire_good g h now
  rw [firing, (calls_armed gf hcalls u x).1 hx, ha]
  constructor
  · rintro ⟨h' | ⟨rfl, hk, rfl⟩, ht⟩
    · exact ⟨h'.2, h'.1, ht⟩
    · obtain ⟨hi, hs⟩ := hc u y h hy hk
      rw [wrap64, Nat.mod_eq_of_lt hs] at hx
      omega
  · rintro ⟨h1, h2, h3⟩
    exact ⟨Or.inl ⟨h2, h1⟩, h3⟩

theorem firing_type (g : Good m) (h : Armed m t y) (hcalls : ∀ o ∈ calls, o.Ahead now) {u : τ}
    (hu : u ∉ touched calls) :
    ((firing m t now calls).timers u).timerType = (m.timers u).timerType ∧
      ((firing m t now calls).timers u).interval = (m.timers u).interval := by
  obtain ⟨gf, hty, _⟩ := fire_good g h now
  have := ((calls_armed gf hcalls u 0).2 hu).2
  simp only [core, Prod.mk.injEq] at this
  exact ⟨this.1.trans (hty u).1, this.2.1.trans (hty u).2⟩

/-- A timer that is not due, nor touched, stays armed over a firing. -/
theorem firing_keeps (g : Good m) (h : Armed m t y) (hy : y ≤ now)
    (hcalls : ∀ o ∈ calls, o.Ahead now) {u : τ} {x : Nat} (hu : Armed m u x) (hx : now < x)
    (ht : u ∉ touched calls) : Armed (firing m t now calls) u x := by
  obtain ⟨gf, _, ha⟩ := fire_good g h now
  rw [firing, ((calls_armed gf hcalls u x).2 ht).1, ha]
  refine Or.inl ⟨?_, hu⟩
  rintro rfl
  have := g.armed_unique hu h
  omega

/-- The fired timer itself, when it is a circle and its own callback leaves it alone. -/
theorem firing_rearms (g : Good m) (h : Armed m t y) (hy : y ≤ now) (hc : CirclesAhead m now)
    (hcalls : ∀ o ∈ calls, o.Ahead now) (hk : (m.timers t).timerType = .circle)
    (ht : t ∉ touched calls) :
    Armed (firing m t now calls) t ((m.timers t).interval + now) := by
  obtain ⟨gf, _, ha⟩ := fire_good g h now
  rw [firing, ((calls_armed gf hcalls t _).2 ht).1, ha]
  exact Or.inr ⟨rfl, hk, (Nat.mod_eq_of_lt (hc t y h hy hk).2).symm⟩

theorem firing_ahead (g : Good m) (h : Armed m t y) (hy : y ≤ now) (hc : CirclesAhead m now)
    (hcalls : ∀ o ∈ calls, o.Ahead now) : CirclesAhead (firing m t now calls) now := by
  intro u x hu hx hk
  obtain ⟨hu', _, ht⟩ := (firing_due g h hy hc hcalls hx).mp hu
  obtain ⟨ety, ein⟩ := firing_type g h hcalls ht
  rw [ein]
  exact hc u x hu' hx (ety ▸ hk)

end Firing

/-- The due entries of the heap. -/
def dueEntries (m : TimerManager τ) (now : Nat) : List (HeapEntry τ) :=
  m.heap.filter fun e => e.time ≤ now

omit [DecidableEq τ] in
theorem mem_dueEntries {m : TimerManager τ} {now : Nat} {e : HeapEntry τ} :
    e ∈ dueEntries m now ↔ Armed m e.timer e.time ∧ e.time ≤ now := by
  simp [dueEntries, Armed]

omit [DecidableEq τ] in
theorem dueEntries_nodup {m : TimerManager τ} (g : Good m) (now : Nat) :
    (dueEntries m now).Nodup :=
  (List.Nodup.of_map _ g.invariant.once).filter _

omit [DecidableEq τ] in
/-- Fewer timers are due where one that was due no longer is, and no other has become so. -/
theorem dueEntries_fewer {m m' : TimerManager τ} {e : HeapEntry τ} {now : Nat} (g' : Good m')
    (h : Armed m e.timer e.time) (hy : e.time ≤ now)
    (hdue : ∀ u x, x ≤ now → Armed m' u x → Armed m u x ∧ u ≠ e.timer) :
    (dueEntries m' now).length < (dueEntries m now).length := by
  have hnot : e ∉ dueEntries m' now := by
    intro hm
    obtain ⟨ha, _⟩ := mem_dueEntries.mp hm
    exact (hdue _ _ hy ha).2 rfl
  have hsub : e :: dueEntries m' now ⊆ dueEntries m now := by
    intro a ha
    rcases List.mem_cons.mp ha with rfl | ha
    · exact mem_dueEntries.mpr ⟨h, hy⟩
    · obtain ⟨ha, hle⟩ := mem_dueEntries.mp ha
      exact mem_dueEntries.mpr ⟨(hdue _ _ hle ha).1, hle⟩
  exact (List.subperm_of_subset ((dueEntries_nodup g' now).cons hnot) hsub).length_le

/-- A firing leaves fewer timers due. -/
theorem firing_fewer {m : TimerManager τ} {e : HeapEntry τ} {now : Nat}
    {calls : List (TimerOp τ)} (g : Good m) (h : Armed m e.timer e.time) (hy : e.time ≤ now)
    (hc : CirclesAhead m now) (hcalls : ∀ o ∈ calls, o.Ahead now) :
    (dueEntries (firing m e.timer now calls) now).length < (dueEntries m now).length := by
  apply dueEntries_fewer (firing_good g h) h hy
  intro u x hx hu
  obtain ⟨hu', hne, _⟩ := (firing_due g h hy hc hcalls hx).mp hu
  exact ⟨hu', hne⟩

/-- `t` was touched by one of the first `n` callbacks of the pass. -/
def TouchedBefore (callbacks : List (List (TimerOp τ))) (n : Nat) (t : τ) : Prop :=
  ∃ j < n, ∃ calls, callbacks[j]? = some calls ∧ t ∈ touched calls

omit [DecidableEq τ] in
theorem touchedBefore_succ {calls : List (TimerOp τ)} {rest : List (List (TimerOp τ))} {n : Nat}
    {t : τ} : TouchedBefore (calls :: rest) (n + 1) t ↔ t ∈ touched calls ∨
      TouchedBefore rest n t := by
  constructor
  · rintro ⟨j, hj, c, hc, ht⟩
    cases j with
    | zero => exact Or.inl (by rw [List.getElem?_cons_zero] at hc; exact Option.some.inj hc ▸ ht)
    | succ j => exact Or.inr ⟨j, by omega, c, by simpa using hc, ht⟩
  · rintro (ht | ⟨j, hj, c, hc, ht⟩)
    · exact ⟨0, by omega, calls, rfl, ht⟩
    · exact ⟨j + 1, by omega, c, by simpa using hc, ht⟩

/-- What a pass over `m` that read `now` fired, and what it left. -/
structure Fires (m : TimerManager τ) (now : Nat) (callbacks : List (List (TimerOp τ)))
    (p : Pass τ) : Prop where
  returned : p.wait ≠ none
  due : ∀ k t, p.fired[k]? = some t →
    (∃ x, Armed m t x ∧ x ≤ now) ∧ ¬ TouchedBefore callbacks k t
  all : ∀ t x, Armed m t x → x ≤ now → t ∈ p.fired ∨ TouchedBefore callbacks p.fired.length t
  once : p.fired.Nodup
  order : p.fired.Pairwise fun a b => ∀ x y, Armed m a x → Armed m b y → x ≤ y
  after : ∀ t x, Armed p.manager t x → now < x
  kept : ∀ t x, Armed m t x → now < x → ¬ TouchedBefore callbacks p.fired.length t →
    Armed p.manager t x
  rearmed : ∀ t ∈ p.fired, (m.timers t).timerType = .circle →
    ¬ TouchedBefore callbacks p.fired.length t →
    Armed p.manager t ((m.timers t).interval + now)

omit [DecidableEq τ] in
/-- A pass over a heap with nothing due. -/
theorem idle_fires {m : TimerManager τ} {now : Nat} {callbacks : List (List (TimerOp τ))}
    {points : List (TimerManager τ)} {wait : Int} (h : ∀ t x, Armed m t x → now < x) :
    Fires m now callbacks ⟨m, [], points, some wait⟩ where
  returned := Option.some_ne_none wait
  due := by intro k t hk; cases hk
  all := by intro t x ha hx; have := h t x ha; omega
  once := List.nodup_nil
  order := List.Pairwise.nil
  after := h
  kept := fun _ _ ha _ _ => ha
  rearmed := by intro t ht; cases ht

/-- What a pass over a firing's outcome fires was due before that firing, which left it alone. -/
theorem Fires.fired_before {m : TimerManager τ} {t : τ} {y now : Nat} {calls : List (TimerOp τ)}
    {rest : List (List (TimerOp τ))} {p : Pass τ} (g : Good m) (h : Armed m t y) (hy : y ≤ now)
    (hc : CirclesAhead m now) (hcalls : ∀ o ∈ calls, o.Ahead now)
    (f : Fires (firing m t now calls) now rest p) {u : τ} (hu : u ∈ p.fired) :
    ∃ x, Armed (firing m t now calls) u x ∧ x ≤ now ∧
      Armed m u x ∧ u ≠ t ∧ u ∉ touched calls := by
  obtain ⟨k, hk⟩ := List.mem_iff_getElem?.mp hu
  obtain ⟨x, ha, hx⟩ := (f.due k u hk).1
  exact ⟨x, ha, hx, (firing_due g h hy hc hcalls hx).mp ha⟩

/-- The root comes first, and the rest of the pass keeps the order it had in its own heap. -/
theorem Fires.cons_order {m : TimerManager τ} {e : HeapEntry τ} {tail : List (HeapEntry τ)}
    {now : Nat} {calls : List (TimerOp τ)} {rest : List (List (TimerOp τ))} {p : Pass τ}
    (g : Good m) (hheap : m.heap = e :: tail) (hy : e.time ≤ now) (hc : CirclesAhead m now)
    (hcalls : ∀ o ∈ calls, o.Ahead now) (f : Fires (firing m e.timer now calls) now rest p) :
    (e.timer :: p.fired).Pairwise fun a b => ∀ x y, Armed m a x → Armed m b y → x ≤ y := by
  have h := root_armed hheap
  refine List.pairwise_cons.mpr ⟨fun b _ x y hx hb => ?_, ?_⟩
  · have := g.armed_unique hx h
    subst x
    exact Sift.root_least g.ordered (by rw [hheap]; rfl) _ hb
  · apply f.order.imp_of_mem
    intro a b ha hb hab x y hx hy'
    obtain ⟨x', hx', -, hxm, -⟩ := f.fired_before g h hy hc hcalls ha
    obtain ⟨y', hy'', -, hym, -⟩ := f.fired_before g h hy hc hcalls hb
    obtain rfl := g.armed_unique hxm hx
    obtain rfl := g.armed_unique hym hy'
    exact hab _ _ hx' hy''

/-- A firing followed by a pass over what it leaves. -/
theorem Fires.cons {m : TimerManager τ} {e : HeapEntry τ} {tail : List (HeapEntry τ)} {now : Nat}
    {calls : List (TimerOp τ)} {rest : List (List (TimerOp τ))} {p : Pass τ}
    {points : List (TimerManager τ)} (g : Good m) (hheap : m.heap = e :: tail)
    (hy : e.time ≤ now) (hc : CirclesAhead m now) (hcalls : ∀ o ∈ calls, o.Ahead now)
    (f : Fires (firing m e.timer now calls) now rest p) :
    Fires m now (calls :: rest) { p with fired := e.timer :: p.fired, points } := by
  have h := root_armed hheap
  constructor
  · exact f.returned
  · intro k t hk
    cases k with
    | zero =>
      obtain rfl : e.timer = t := by simpa using hk
      exact ⟨⟨e.time, h, hy⟩, by rintro ⟨j, hj, _⟩; omega⟩
    | succ k =>
      obtain ⟨⟨x, ha, hx⟩, hb⟩ := f.due k t (by simpa using hk)
      obtain ⟨ha', _, ht⟩ := (firing_due g h hy hc hcalls hx).mp ha
      refine ⟨⟨x, ha', hx⟩, ?_⟩
      rw [touchedBefore_succ]
      exact not_or.mpr ⟨ht, hb⟩
  · intro t x ha hx
    simp only [List.length_cons, touchedBefore_succ, List.mem_cons]
    by_cases hte : t = e.timer
    · exact Or.inl (Or.inl hte)
    · by_cases htc : t ∈ touched calls
      · exact Or.inr (Or.inl htc)
      · have := f.all t x ((firing_due g h hy hc hcalls hx).mpr ⟨ha, hte, htc⟩) hx
        exact this.imp Or.inr Or.inr
  · refine List.nodup_cons.mpr ⟨fun hm => ?_, f.once⟩
    obtain ⟨x, -, -, -, hne, -⟩ := f.fired_before g h hy hc hcalls hm
    exact hne rfl
  · exact f.cons_order g hheap hy hc hcalls
  · exact f.after
  · intro t x ha hx ht
    simp only [List.length_cons, touchedBefore_succ, not_or] at ht
    exact f.kept t x (firing_keeps g h hy hcalls ha hx ht.1) hx ht.2
  · intro t ht hk hn
    simp only [List.length_cons, touchedBefore_succ, not_or] at hn
    rcases List.mem_cons.mp ht with rfl | ht
    · have hlt : now < (m.timers e.timer).interval + now := by
        have := (hc _ _ h hy hk).1; omega
      exact f.kept _ _ (firing_rearms g h hy hc hcalls hk hn.1) hlt hn.2
    · obtain ⟨ety, ein⟩ := firing_type g h hcalls hn.1
      rw [← ein]
      exact f.rearmed t ht (ety ▸ hk) hn.2

theorem pass_fires {m : TimerManager τ} (g : Good m) {now : Nat}
    {callbacks : List (List (TimerOp τ))} (hc : CirclesAhead m now)
    (hcalls : ∀ calls ∈ callbacks, ∀ o ∈ calls, o.Ahead now)
    (hlen : (dueEntries m now).length ≤ callbacks.length) :
    Fires m now callbacks (m.detectTimers now callbacks) := by
  induction callbacks generalizing m with
  | nil =>
    have none_due : ∀ t x, Armed m t x → now < x := by
      intro t x ha
      by_contra hx
      have hm : ⟨x, t⟩ ∈ dueEntries m now := mem_dueEntries.mpr ⟨ha, Nat.not_lt.mp hx⟩
      have := List.length_pos_of_mem hm
      simp only [List.length_nil] at hlen
      omega
    unfold detectTimers
    split
    · exact idle_fires none_due
    · rename_i e tail hheap
      have := none_due _ _ (root_armed hheap)
      rw [if_neg (by omega)]
      exact idle_fires none_due
  | cons calls rest ih =>
    unfold detectTimers
    split
    · rename_i hheap
      exact idle_fires (by intro t x ha; simp [Armed, hheap] at ha)
    · rename_i e tail hheap
      have h := root_armed hheap
      split
      · rename_i hy
        have hcalls0 := hcalls calls List.mem_cons_self
        have hfew := firing_fewer (e := e) g h hy hc hcalls0
        simp only [List.length_cons] at hlen
        exact Fires.cons g hheap hy hc hcalls0
          (ih (firing_good g h) (firing_ahead g h hy hc hcalls0)
            (fun c hc' => hcalls c (List.mem_cons_of_mem _ hc')) (by omega))
      · apply idle_fires
        intro t x ha
        have hle : e.time ≤ x := Sift.root_least g.ordered (by rw [hheap]; rfl) _ ha
        omega

/-- One pass fires exactly the due timers that no earlier callback touched, once each and in
order; it returns with nothing due, and each circle it fired and nobody touched is put off by its
interval. The callbacks need only be as many as the timers in the heap. -/
theorem detectTimers_fires {m : TimerManager τ} (h : Reachable m) (now : Nat)
    (callbacks : List (List (TimerOp τ))) (hc : CirclesAhead m now)
    (hcalls : ∀ calls ∈ callbacks, ∀ o ∈ calls, o.Ahead now)
    (hlen : m.heap.length ≤ callbacks.length) :
    Fires m now callbacks (m.detectTimers now callbacks) :=
  pass_fires h.good hc hcalls ((List.length_filter_le _ _).trans hlen)

/-- A circle started at 1 for every 3, found due at 5, whose callback stops another timer. -/
theorem detectTimers_fires_circle :
    Fires ((fresh fun _ : Bool => ⟨.once, 0, 0, none⟩).start true 3 .circle 1) 5 [[.stop false]]
      (((fresh fun _ : Bool => ⟨.once, 0, 0, none⟩).start true 3 .circle 1).detectTimers 5
        [[.stop false]]) := by
  have hr : Reachable ((fresh fun _ : Bool => ⟨.once, 0, 0, none⟩).start true 3 .circle 1) :=
    .op (.start true 3 .circle 1) (.fresh _)
  have hheap : ((fresh fun _ : Bool => ⟨.once, 0, 0, none⟩).start true 3 .circle 1).heap =
      [⟨4, true⟩] := by
    simp [start, stop, fresh, addTimer, upHeap, TimerManager.modify, setIndex, wrap64]
  refine detectTimers_fires hr 5 [[.stop false]] ?_ ?_ ?_
  · intro t x ha _ _
    obtain rfl : t = true := by simp [Armed, hheap] at ha; exact ha.2
    have hin : (((fresh fun _ : Bool => ⟨.once, 0, 0, none⟩).start true 3 .circle 1).timers
        true).interval = 3 := congrArg (·.2.1) (start_good (fresh_good _) true 3 .circle 1).2.1
    rw [hin]; decide
  · simp [TimerOp.Ahead]
  · rw [hheap]; decide

end ChainSocket
