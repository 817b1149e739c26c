import ChainSocket.Timer.Pass

/-!
# A pass whose callbacks leave the manager alone

`DetectTimers` where no callback starts or stops a timer: when it returns, and with what.

* `alone_pass`: what a pass over timers of which none spins fires, leaves and answers;
* `spins_forever`: a circle that is put off to no later than now is fired without an end;
* `returns_iff`, `waits_first_iff`: the managers from which the pass returns, and those for which it
  also answers the time to the next timer.
-/

namespace ChainSocket

open TimerManager

variable {τ : Type} [DecidableEq τ]

namespace TimerManager

/-- A pass of at most `firings` firings. -/
def detectAlone (m : TimerManager τ) (now firings : Nat) : Pass τ :=
  m.detectTimers now (List.replicate firings [])

/-- A due circle that is due again as soon as it has been put off. -/
def Spins (m : TimerManager τ) (now : Nat) (t : τ) : Prop :=
  (m.timers t).timerType = .circle ∧ (∃ y, Armed m t y ∧ y ≤ now) ∧
    wrap64 ((m.timers t).interval + now) ≤ now

/-- What a pass leaves armed: the timers that were not due, and the circles that were, put off. -/
def Remains (m : TimerManager τ) (now : Nat) (t : τ) (x : Nat) : Prop :=
  Armed m t x ∧ now < x ∨ (m.timers t).timerType = .circle ∧ (∃ y, Armed m t y ∧ y ≤ now) ∧
    x = wrap64 ((m.timers t).interval + now)

/-- As long as the sum is one of 64 bits, it is the interval of 0 that does not put off. -/
theorem put_off {interval now : Nat} (h : interval + now < 2 ^ 64) :
    wrap64 (interval + now) ≤ now ↔ interval = 0 := by
  rw [wrap64, Nat.mod_eq_of_lt h]
  omega

/-! ## One firing -/

section Firing
variable {m : TimerManager τ} {t : τ} {y now : Nat}

theorem fire_due (g : Good m) (h : Armed m t y) (hy : y ≤ now) (hn : ¬ Spins m now t) {u : τ}
    {x : Nat} (hx : x ≤ now) : Armed (m.fire t now) u x ↔ Armed m u x ∧ u ≠ t := by
  obtain ⟨_, _, ha⟩ := fire_good g h now
  rw [ha]
  constructor
  · rintro (⟨hne, hu⟩ | ⟨rfl, hk, rfl⟩)
    · exact ⟨hu, hne⟩
    · exact absurd ⟨hk, ⟨y, h, hy⟩, hx⟩ hn
  · rintro ⟨hu, hne⟩
    exact .inl ⟨hne, hu⟩

theorem fire_spins (g : Good m) (h : Armed m t y) (hy : y ≤ now) (hn : ∀ u, ¬ Spins m now u)
    (u : τ) : ¬ Spins (m.fire t now) now u := by
  obtain ⟨_, hcore, _⟩ := fire_good g h now
  rintro ⟨hk, ⟨x, hu, hx⟩, hover⟩
  rw [(hcore u).1] at hk
  rw [(hcore u).2] at hover
  exact hn u ⟨hk, ⟨x, ((fire_due g h hy (hn t) hx).mp hu).1, hx⟩, hover⟩

theorem fire_remains (g : Good m) (h : Armed m t y) (hy : y ≤ now) (hn : ¬ Spins m now t) (u : τ)
    (x : Nat) : Remains (m.fire t now) now u x ↔ Remains m now u x := by
  obtain ⟨_, hcore, ha⟩ := fire_good g h now
  have hdue : (∃ z, Armed (m.fire t now) u z ∧ z ≤ now) ↔
      (∃ z, Armed m u z ∧ z ≤ now) ∧ u ≠ t := by
    constructor
    · rintro ⟨z, hz, hle⟩
      obtain ⟨hz, hne⟩ := (fire_due g h hy hn hle).mp hz
      exact ⟨⟨z, hz, hle⟩, hne⟩
    · rintro ⟨⟨z, hz, hle⟩, hne⟩
      exact ⟨z, (fire_due g h hy hn hle).mpr ⟨hz, hne⟩, hle⟩
  unfold Remains
  rw [hdue, (hcore u).1, (hcore u).2, ha]
  by_cases hut : u = t
  · subst hut
    constructor
    · rintro (⟨⟨hne, _⟩ | ⟨_, hk, rfl⟩, _⟩ | ⟨_, ⟨_, hne⟩, _⟩)
      · exact absurd rfl hne
      · exact .inr ⟨hk, ⟨y, h, hy⟩, rfl⟩
      · exact absurd rfl hne
    · rintro (⟨hu, hx⟩ | ⟨hk, hd, rfl⟩)
      · have := g.armed_unique hu h
        omega
      · exact .inl ⟨.inr ⟨rfl, hk, rfl⟩, Nat.lt_of_not_le fun hover => hn ⟨hk, hd, hover⟩⟩
  · simp [hut]

/-- A timer that spins does so after the firing of any timer, its own too. -/
theorem spins_fire (g : Good m) (h : Armed m t y) {u : τ} (hs : Spins m now u) :
    Spins (m.fire t now) now u := by
  obtain ⟨_, hcore, ha⟩ := fire_good g h now
  obtain ⟨hk, ⟨x, hu, hx⟩, hover⟩ := hs
  unfold Spins
  rw [(hcore u).1, (hcore u).2]
  refine ⟨hk, ?_, hover⟩
  by_cases hut : u = t
  · subst hut
    exact ⟨_, (ha u _).mpr (.inr ⟨rfl, hk, rfl⟩), hover⟩
  · exact ⟨x, (ha u x).mpr (.inl ⟨hut, hu⟩), hx⟩

end Firing

/-! ## A pass -/

theorem spins_forever {m : TimerManager τ} (g : Good m) {now : Nat} {t : τ} (hs : Spins m now t)
    (firings : Nat) : (m.detectAlone now firings).wait = none := by
  -- the root is due, since a timer that spins is
  have hroot : ∀ m : TimerManager τ, Good m → Spins m now t →
      ∃ e tail, m.heap = e :: tail ∧ e.time ≤ now := by
    intro m g hs
    obtain ⟨-, ⟨x, hx, hle⟩, -⟩ := hs
    cases hheap : m.heap with
    | nil => simp [Armed, hheap] at hx
    | cons e tail =>
      have hleast : e.time ≤ x := Sift.root_least g.ordered (by rw [hheap]; rfl) _ hx
      exact ⟨e, tail, rfl, by omega⟩
  induction firings generalizing m with
  | zero =>
    obtain ⟨e, tail, hheap, hdue⟩ := hroot m g hs
    simp [detectAlone, detectTimers, hheap, hdue]
  | succ firings ih =>
    obtain ⟨e, tail, hheap, hdue⟩ := hroot m g hs
    have h := root_armed hheap
    have hrest := ih (fire_good g h now).1 (spins_fire g h hs)
    rw [detectAlone, List.replicate_succ, detectTimers, hheap]
    dsimp only
    rw [if_pos hdue]
    exact hrest

/-- What a pass that returns has fired and left, and the `int` it answers. -/
structure Ends (m : TimerManager τ) (now : Nat) (p : Pass τ) : Prop where
  once : p.fired.Nodup
  due : ∀ t, t ∈ p.fired ↔ ∃ x, Armed m t x ∧ x ≤ now
  remains : ∀ t x, Armed p.manager t x ↔ Remains m now t x
  empty : p.manager.heap = [] → p.wait = some 10
  least : ∀ e tail, p.manager.heap = e :: tail → now < e.time ∧
    p.wait = some (toInt (e.time - now)) ∧ ∀ t x, Remains m now t x → e.time ≤ x

omit [DecidableEq τ] in
theorem Ends.wait {m : TimerManager τ} {now : Nat} {p : Pass τ} (h : Ends m now p) :
    p.wait ≠ none := by
  cases hheap : p.manager.heap with
  | nil => simp [h.empty hheap]
  | cons e tail => simp [(h.least e tail hheap).2.1]

omit [DecidableEq τ] in
/-- Nothing is due. -/
theorem remains_idle {m : TimerManager τ} {now : Nat} (h : ∀ t x, Armed m t x → now < x) (t : τ)
    (x : Nat) : Armed m t x ↔ Remains m now t x := by
  constructor
  · intro ha
    exact .inl ⟨ha, h t x ha⟩
  · rintro (⟨ha, _⟩ | ⟨_, ⟨y, ha, hy⟩, _⟩)
    · exact ha
    · have := h t y ha
      omega

omit [DecidableEq τ] in
theorem idle_ends {m : TimerManager τ} (g : Good m) {now : Nat} {points : List (TimerManager τ)}
    {wait : Option Int} (h : ∀ t x, Armed m t x → now < x) (hempty : m.heap = [] → wait = some 10)
    (hleast : ∀ e tail, m.heap = e :: tail → wait = some (toInt (e.time - now))) :
    Ends m now ⟨m, [], points, wait⟩ where
  once := List.nodup_nil
  due := by
    intro t
    constructor
    · intro ht
      cases ht
    · rintro ⟨x, ha, hx⟩
      have := h t x ha
      omega
  remains := remains_idle h
  empty := hempty
  least := by
    intro e tail hheap
    refine ⟨h _ _ (root_armed hheap), hleast e tail hheap, fun t x hx => ?_⟩
    exact Sift.root_least g.ordered (show m.heap[0]? = some e by rw [hheap]; rfl) _
      ((remains_idle h t x).mpr hx)

/-- A firing, and a pass over what it leaves. -/
theorem Ends.fire {m : TimerManager τ} (g : Good m) {now : Nat} {t : τ} {y : Nat}
    (h : Armed m t y) (hy : y ≤ now) (hn : ¬ Spins m now t) {p : Pass τ}
    {points : List (TimerManager τ)} (f : Ends (m.fire t now) now p) :
    Ends m now { p with fired := t :: p.fired, points } := by
  have hlater : ∀ u, u ∈ p.fired ↔ (∃ x, Armed m u x ∧ x ≤ now) ∧ u ≠ t := by
    intro u
    rw [f.due]
    constructor
    · rintro ⟨x, hu, hx⟩
      obtain ⟨hu, hne⟩ := (fire_due g h hy hn hx).mp hu
      exact ⟨⟨x, hu, hx⟩, hne⟩
    · rintro ⟨⟨x, hu, hx⟩, hne⟩
      exact ⟨x, (fire_due g h hy hn hx).mpr ⟨hu, hne⟩, hx⟩
  constructor
  · exact List.nodup_cons.mpr ⟨fun hm => ((hlater t).mp hm).2 rfl, f.once⟩
  · intro u
    rw [List.mem_cons, hlater]
    by_cases hut : u = t
    · subst hut
      simp only [true_or, true_iff]
      exact ⟨y, h, hy⟩
    · simp [hut]
  · intro u x
    rw [f.remains, fire_remains g h hy hn]
  · exact f.empty
  · intro e tail hheap
    obtain ⟨hlate, hwait, hleast⟩ := f.least e tail hheap
    exact ⟨hlate, hwait, fun u x hx => hleast u x ((fire_remains g h hy hn u x).mpr hx)⟩

omit [DecidableEq τ] in
/-- The root is not due. -/
theorem root_idle {m : TimerManager τ} (g : Good m) {now : Nat} {e : HeapEntry τ}
    {tail : List (HeapEntry τ)} (hheap : m.heap = e :: tail) (h : ¬ e.time ≤ now) (t : τ) (x : Nat)
    (ha : Armed m t x) : now < x := by
  have hle : e.time ≤ x := Sift.root_least g.ordered (by rw [hheap]; rfl) _ ha
  omega

theorem alone_ends {m : TimerManager τ} (g : Good m) {now firings : Nat}
    (hn : ∀ t, ¬ Spins m now t) (hwait : (m.detectAlone now firings).wait ≠ none) :
    Ends m now (m.detectAlone now firings) := by
  induction firings generalizing m with
  | zero =>
    unfold detectAlone detectTimers at hwait ⊢
    split
    · rename_i hheap
      exact idle_ends g (by simp [Armed, hheap]) (fun _ => rfl) (by simp [hheap])
    · rename_i e tail hheap
      by_cases hdue : e.time ≤ now
      · simp [hheap, hdue] at hwait
      · rw [if_neg hdue]
        exact idle_ends g (root_idle g hheap hdue) (by simp [hheap]) (by simp [hheap])
  | succ firings ih =>
    rw [detectAlone, List.replicate_succ] at hwait ⊢
    unfold detectTimers at hwait ⊢
    split
    · rename_i hheap
      exact idle_ends g (by simp [Armed, hheap]) (fun _ => rfl) (by simp [hheap])
    · rename_i e tail hheap
      by_cases hdue : e.time ≤ now
      · have h := root_armed hheap
        simp only [hheap, if_pos hdue] at hwait
        rw [if_pos hdue]
        exact Ends.fire g h hdue (hn _)
          (ih (fire_good g h now).1 (fire_spins g h hdue hn) hwait)
      · rw [if_neg hdue]
        exact idle_ends g (root_idle g hheap hdue) (by simp [hheap]) (by simp [hheap])

/-- Firings as many as the due timers are enough, when none of them spins. -/
theorem alone_returns {m : TimerManager τ} (g : Good m) {now firings : Nat}
    (hn : ∀ t, ¬ Spins m now t) (hlen : (dueEntries m now).length ≤ firings) :
    (m.detectAlone now firings).wait ≠ none := by
  induction firings generalizing m with
  | zero =>
    unfold detectAlone detectTimers
    split
    · simp
    · rename_i e tail hheap
      have hidle : ¬ e.time ≤ now := by
        intro hdue
        have := List.length_pos_of_mem (mem_dueEntries.mpr ⟨root_armed hheap, hdue⟩)
        omega
      simp [hidle]
  | succ firings ih =>
    rw [detectAlone, List.replicate_succ]
    unfold detectTimers
    split
    · simp
    · rename_i e tail hheap
      by_cases hdue : e.time ≤ now
      · have h := root_armed hheap
        have gf := (fire_good g h now).1
        have hfew := dueEntries_fewer (e := e) gf h hdue fun u x hx =>
          (fire_due g h hdue (hn _) hx).mp
        rw [if_pos hdue]
        exact ih gf (fire_spins g h hdue hn) (Nat.le_of_lt_succ (hfew.trans_le hlen))
      · simp [hdue]

theorem alone_pass {m : TimerManager τ} (g : Good m) {now : Nat} (hn : ∀ t, ¬ Spins m now t) :
    ∃ firings, Ends m now (m.detectAlone now firings) :=
  ⟨_, alone_ends g hn (alone_returns g hn (Nat.le_refl _))⟩

/-- The pass returns, with no timer fired more than once. -/
def Returns (m : TimerManager τ) (now : Nat) : Prop :=
  ∃ firings, (m.detectAlone now firings).wait ≠ none ∧ (m.detectAlone now firings).fired.Nodup

/-- **A pass whose callbacks leave the manager alone returns, and fires each timer at most once,
exactly where no due circle is put off to no later than now.** -/
theorem returns_iff {m : TimerManager τ} (h : Reachable m) (now : Nat) :
    Returns m now ↔ ∀ t, ¬ Spins m now t := by
  constructor
  · rintro ⟨firings, hwait, -⟩ t hs
    exact hwait (spins_forever h.good hs firings)
  · intro hn
    obtain ⟨firings, hends⟩ := alone_pass h.good hn
    exact ⟨firings, hends.wait, hends.once⟩

/-- A circle of 3, beside a timer that goes off once. -/
theorem mixed_steady (interval : Nat) : ∀ t, ¬ Spins (((fresh fun _ : Bool => ⟨.once, 0, 0,
    none⟩).start true 3 .circle 1).start false interval .once 1) 5 t := by
  rintro t ⟨hk, -, hlate⟩
  obtain ⟨g, hcore, -⟩ := start_good (fresh_good fun _ : Bool => ⟨.once, 0, 0, none⟩) true 3
    .circle 1
  obtain ⟨-, hself, hother, -⟩ := start_good g false interval .once 1
  cases t with
  | false => exact absurd (congrArg (·.1) hself) (by simp [core, hk])
  | true =>
    have hinterval := congrArg (·.2.1) ((hother true (by decide)).trans hcore)
    simp only [core] at hinterval
    rw [hinterval, put_off (by decide)] at hlate
    exact absurd hlate (by decide)

/-- A circle of 3 and a timer of 0 that goes off once. -/
theorem returns_mixed : Returns (((fresh fun _ : Bool => ⟨.once, 0, 0, none⟩).start true 3 .circle
    1).start false 0 .once 1) 5 := by
  have hr : Reachable (((fresh fun _ : Bool => ⟨.once, 0, 0, none⟩).start true 3 .circle 1).start
      false 0 .once 1) := .op (.start false 0 .once 1) (.op (.start true 3 .circle 1) (.fresh _))
  exact (returns_iff hr 5).mpr (mixed_steady 0)

/-- A circle of interval 0, at the time it is started. -/
theorem zero_circle_forever : ¬ ∀ (m : TimerManager Unit) (now : Nat), Reachable m →
    Returns m now := by
  intro h
  obtain ⟨g, hcore, -, harmed⟩ := start_good (fresh_good fun _ : Unit => ⟨.once, 0, 0, none⟩) () 0
    .circle 1
  obtain ⟨firings, hwait, -⟩ := h _ 1 (.op (.start () 0 .circle 1) (.fresh _))
  simp only [core, Prod.mk.injEq] at hcore
  have hs : Spins ((fresh fun _ : Unit => ⟨.once, 0, 0, none⟩).start () 0 .circle 1) 1 () := by
    refine ⟨hcore.1, ⟨1, (harmed _ _).mpr (.inl ⟨rfl, by decide⟩), Nat.le_refl _⟩, ?_⟩
    rw [hcore.2.1, put_off (by decide)]
  exact hwait (spins_forever g hs firings)

/-! ## The wait -/

theorem toInt_eq_iff (n : Nat) : toInt n = n ↔ n < 2 ^ 31 := by
  unfold toInt
  constructor
  · intro h
    have hlt := Int.bmod_lt (x := (n : Int)) (m := 2 ^ 32) (by decide)
    omega
  · intro h
    exact Int.bmod_eq_of_le (by omega) (by omega)

/-- The pass returns, and where timers are left, with the time to the first of them. -/
def Waits (m : TimerManager τ) (now : Nat) : Prop :=
  ∃ firings wait, (m.detectAlone now firings).wait = some wait ∧
    ((m.detectAlone now firings).manager.heap ≠ [] →
      ∃ t x, Armed (m.detectAlone now firings).manager t x ∧
        (∀ u y, Armed (m.detectAlone now firings).manager u y → x ≤ y) ∧
        wait = (x : Int) - now ∧ 0 < wait)

/-- Some timer that a pass leaves goes off within less than 2^31 milliseconds. -/
def Soon (m : TimerManager τ) (now : Nat) : Prop := ∃ t x, Remains m now t x ∧ x - now < 2 ^ 31

theorem waits_soon {m : TimerManager τ} (g : Good m) {now : Nat} (h : Waits m now) :
    (∀ t, ¬ Spins m now t) ∧ ((∃ t x, Remains m now t x) → Soon m now) := by
  obtain ⟨firings, wait, hwait, hleft⟩ := h
  have hn : ∀ t, ¬ Spins m now t := by
    intro t hs
    rw [spins_forever g hs] at hwait
    cases hwait
  have hends : Ends m now (m.detectAlone now firings) := alone_ends g hn (by simp [hwait])
  refine ⟨hn, ?_⟩
  rintro ⟨t, x, hx⟩
  cases hheap : (m.detectAlone now firings).manager.heap with
  | nil =>
    have ha := (hends.remains t x).mpr hx
    simp [Armed, hheap] at ha
  | cons e tail =>
    obtain ⟨t', x', hx', hfirst, hwait', -⟩ := hleft (by simp [hheap])
    obtain ⟨hlate, hanswer, hleast⟩ := hends.least e tail hheap
    have hroot := root_armed hheap
    have hle := hfirst _ _ hroot
    have hge := hleast t' x' ((hends.remains _ _).mp hx')
    rw [hwait, Option.some.injEq] at hanswer
    have hexact : toInt (e.time - now) = (e.time - now : Nat) := by omega
    exact ⟨e.timer, e.time, (hends.remains _ _).mp hroot, (toInt_eq_iff _).mp hexact⟩

theorem soon_waits {m : TimerManager τ} (g : Good m) {now : Nat} (hn : ∀ t, ¬ Spins m now t)
    (hnear : (∃ t x, Remains m now t x) → Soon m now) : Waits m now := by
  obtain ⟨firings, hends⟩ := alone_pass g hn
  cases hheap : (m.detectAlone now firings).manager.heap with
  | nil => exact ⟨firings, 10, hends.empty hheap, fun hleft => absurd hheap hleft⟩
  | cons e tail =>
    obtain ⟨hlate, hanswer, hleast⟩ := hends.least e tail hheap
    have hroot := root_armed hheap
    obtain ⟨t, x, hx, hsoon⟩ := hnear ⟨_, _, (hends.remains _ _).mp hroot⟩
    have hle := hleast t x hx
    have hexact := (toInt_eq_iff (e.time - now)).mpr (by omega)
    refine ⟨firings, _, hanswer, fun _ => ⟨e.timer, e.time, hroot, fun u y hu => ?_, ?_⟩⟩
    · exact hleast u y ((hends.remains u y).mp hu)
    · omega

/-- **The `int` that a pass answers is the time to the first timer left, and positive, exactly
where none spins and, unless none is left, one is left that goes off within less than 2^31
milliseconds.** -/
theorem waits_first_iff {m : TimerManager τ} (h : Reachable m) (now : Nat) :
    Waits m now ↔ (∀ t, ¬ Spins m now t) ∧ ((∃ t x, Remains m now t x) → Soon m now) := by
  constructor
  · exact waits_soon h.good
  · rintro ⟨hn, hnear⟩
    exact soon_waits h.good hn hnear

/-- A circle of 3 that is due, and a timer that goes off once in 7. -/
theorem waits_mixed : Waits (((fresh fun _ : Bool => ⟨.once, 0, 0, none⟩).start true 3 .circle
    1).start false 7 .once 1) 5 := by
  have hr : Reachable (((fresh fun _ : Bool => ⟨.once, 0, 0, none⟩).start true 3 .circle 1).start
      false 7 .once 1) := .op (.start false 7 .once 1) (.op (.start true 3 .circle 1) (.fresh _))
  obtain ⟨g, -⟩ := start_good (fresh_good fun _ : Bool => ⟨.once, 0, 0, none⟩) true 3 .circle 1
  obtain ⟨-, -, -, harmed⟩ := start_good g false 7 .once 1
  apply (waits_first_iff hr 5).mpr
  refine ⟨mixed_steady 7, fun _ => ?_⟩
  exact ⟨false, 8, .inl ⟨(harmed false 8).mpr (.inl ⟨rfl, by decide⟩), by decide⟩, by decide⟩

/-- A timer that goes off once in 3000000000 milliseconds, at the time it is started: the answer is
negative. -/
theorem long_interval_negative : ¬ ∀ (m : TimerManager Unit) (now : Nat), Reachable m →
    (∀ t, 1 ≤ (m.timers t).interval) → Waits m now := by
  intro h
  obtain ⟨g, hcore, -, harmed⟩ := start_good (fresh_good fun _ : Unit => ⟨.once, 0, 0, none⟩) ()
    3000000000 .once 1
  simp only [core, Prod.mk.injEq] at hcore
  have hwaits := h ((fresh fun _ : Unit => ⟨.once, 0, 0, none⟩).start () 3000000000 .once 1) 1
    (.op (.start () 3000000000 .once 1) (.fresh _)) (fun _ => by rw [hcore.2.1]; decide)
  have hlate : wrap64 (3000000000 + 1) = 3000000001 := by decide
  have hremains : ∀ x, Remains ((fresh fun _ : Unit => ⟨.once, 0, 0, none⟩).start ()
      3000000000 .once 1) 1 () x ↔ x = 3000000001 := by
    intro x
    simp only [Remains, hcore.1, harmed, hlate]
    constructor
    · rintro (⟨⟨-, rfl⟩ | ⟨hne, -⟩, -⟩ | ⟨hk, -⟩)
      · rfl
      · exact absurd rfl hne
      · cases hk
    · rintro rfl
      exact .inl ⟨.inl ⟨trivial, rfl⟩, by decide⟩
  obtain ⟨t, x, hx, hsoon⟩ := (waits_soon g hwaits).2 ⟨(), _, (hremains _).mpr rfl⟩
  rw [(hremains x).mp hx] at hsoon
  exact absurd hsoon (by decide)

end TimerManager

end ChainSocket
