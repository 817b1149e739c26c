import ChainSocket.Lib.Effect

/-!
# Pre- and postconditions

Rules for `EStateM` programs: what holds where a run returns, and where it fails (`Triple`); and
when a program is another one that keeps a record beside its state (`Erases`).
-/

namespace Effect

variable {ε σ τ α β : Type}

/-- From a state in `P`, a run of `m` returns in `Q` or fails in `E`. -/
structure Triple (E P : σ → Prop) (m : EStateM ε σ α) (Q : α → σ → Prop) : Prop where
  ok : ∀ s a s', P s → m.run s = .ok a s' → Q a s'
  error : ∀ s e s', P s → m.run s = .error e s' → E s'

namespace Triple

variable {E P P' : σ → Prop} {Q Q' : α → σ → Prop} {m : EStateM ε σ α}

protected theorem pure {a : α} (h : ∀ s, P s → Q a s) : Triple E P (pure a : EStateM ε σ α) Q := by
  constructor
  · intro s b s' hP hrun
    cases hrun
    exact h s hP
  · intro s e s' _ hrun
    cases hrun

theorem modify {f : σ → σ} {Q : PUnit → σ → Prop} (h : ∀ s, P s → Q ⟨⟩ (f s)) :
    Triple E P (modify f : EStateM ε σ PUnit) Q := by
  constructor
  · intro s b s' hP hrun
    cases hrun
    exact h s hP
  · intro s e s' _ hrun
    cases hrun

/-- Where failures do not count. -/
theorem of_ok (h : ∀ s a s', P s → m.run s = .ok a s' → Q a s') :
    Triple (fun _ => True) P m Q :=
  ⟨h, fun _ _ _ _ _ => trivial⟩

theorem mono (h : Triple E P m Q) (hP : ∀ s, P' s → P s) (hQ : ∀ a s, Q a s → Q' a s) :
    Triple E P' m Q' :=
  ⟨fun s a s' hs hrun => hQ a s' (h.ok s a s' (hP s hs) hrun),
    fun s e s' hs hrun => h.error s e s' (hP s hs) hrun⟩

/-- To more failures. -/
theorem errors {E' : σ → Prop} (h : Triple E P m Q) (hE : ∀ s, E s → E' s) : Triple E' P m Q :=
  ⟨h.ok, fun s e s' hs hrun => hE s' (h.error s e s' hs hrun)⟩

/-- From fewer states. -/
theorem pre (h : Triple E P m Q) (hP : ∀ s, P' s → P s) : Triple E P' m Q :=
  h.mono hP fun _ _ hq => hq

/-- From one state. -/
theorem of_eq (h : Triple E P m Q) {s : σ} (hs : P s) : Triple E (· = s) m Q :=
  h.pre fun _ heq => heq ▸ hs

theorem pointwise (h : ∀ s, P s → Triple E (· = s) m Q) : Triple E P m Q :=
  ⟨fun s a s' hs hrun => (h s hs).ok s a s' rfl hrun,
    fun s e s' hs hrun => (h s hs).error s e s' rfl hrun⟩

theorem bind {R : α → σ → Prop} {k : α → EStateM ε σ β} {Q : β → σ → Prop}
    (hm : Triple E P m R) (hk : ∀ a, Triple E (R a) (k a) Q) : Triple E P (m >>= k) Q := by
  constructor
  · intro s b s' hP hrun
    obtain ⟨a, s₁, hfirst, hrest⟩ := run_bind_inv hrun
    exact (hk a).ok s₁ b s' (hm.ok s a s₁ hP hfirst) hrest
  · intro s e s' hP hrun
    cases hfirst : m.run s with
    | ok a s₁ =>
      rw [run_bind_ok hfirst] at hrun
      exact (hk a).error s₁ e s' (hm.ok s a s₁ hP hfirst) hrun
    | error e₁ s₁ =>
      rw [run_bind_error hfirst] at hrun
      cases hrun
      exact hm.error s e _ hP hfirst

/-- What is read is the state itself. -/
theorem get_bind {k : σ → EStateM ε σ α} (h : ∀ s, P s → Triple E (· = s) (k s) Q) :
    Triple E P (get >>= k) Q := by
  constructor
  · intro s a s' hP hrun
    exact (h s hP).ok s a s' rfl hrun
  · intro s e s' hP hrun
    exact (h s hP).error s e s' rfl hrun

/-- A program on a part of the state, run by run. -/
theorem zoom {l : Lens σ τ} {m : EStateM ε τ α}
    (hok : ∀ s a t, P s → m.run (l.get s) = .ok a t → Q a (l.set t s))
    (herror : ∀ s e t, P s → m.run (l.get s) = .error e t → E (l.set t s)) :
    Triple E P (l.zoom m) Q := by
  constructor
  · intro s a s' hP hrun
    obtain ⟨t, ht, rfl⟩ := Lens.zoom_inv hrun
    exact hok s a t hP ht
  · intro s e s' hP hrun
    cases hm : m.run (l.get s) with
    | ok a t =>
      rw [Lens.zoom_ok hm] at hrun
      cases hrun
    | error e₁ t =>
      rw [Lens.zoom_error hm] at hrun
      cases hrun
      exact herror s e t hP hm

/-- What is about the part alone. -/
theorem zoom_part {l : Lens σ τ} {E P : τ → Prop} {m : EStateM ε τ α} {Q : α → τ → Prop}
    (h : Triple E P m Q) :
    Triple (fun s => E (l.get s)) (fun s => P (l.get s)) (l.zoom m) fun a s => Q a (l.get s) := by
  apply Triple.zoom
  · intro s a t hs hrun
    rw [l.get_set]
    exact h.ok _ a t hs hrun
  · intro s e t hs hrun
    rw [l.get_set]
    exact h.error _ e t hs hrun

/-- What the rest of the state has stays, beside a program on a part of it. -/
theorem frame {l : Lens σ τ} {E P : τ → Prop} {m : EStateM ε τ α} {Q : α → τ → Prop}
    {F : σ → Prop} (h : Triple E P m Q) (hF : ∀ s t, F s → F (l.set t s)) :
    Triple (fun s => E (l.get s) ∧ F s) (fun s => P (l.get s) ∧ F s) (l.zoom m)
      fun a s => Q a (l.get s) ∧ F s := by
  apply Triple.zoom
  · intro s a t hs hrun
    rw [l.get_set]
    exact ⟨h.ok _ a t hs.1 hrun, hF s t hs.2⟩
  · intro s e t hs hrun
    rw [l.get_set]
    exact ⟨h.error _ e t hs.1 hrun, hF s t hs.2⟩

/-- What holds wherever a run ends. -/
theorem final (h : Triple E P m Q) (hQ : ∀ a s, Q a s → E s) {s : σ} (hP : P s) :
    E (final (m.run s)) := by
  cases hrun : m.run s with
  | ok a s' => exact hQ a s' (h.ok s a s' hP hrun)
  | error e s' => exact h.error s e s' hP hrun

end Triple

/-! ## A record beside the state -/

/-- What is left of a result without the record. -/
def erase (l : Lens σ τ) : EStateM.Result ε σ α → EStateM.Result ε τ α
  | .ok a s => .ok a (l.get s)
  | .error e s => .error e (l.get s)

/-- `m'` does what `m` does, and keeps a record. -/
def Erases (l : Lens σ τ) (m' : EStateM ε σ α) (m : EStateM ε τ α) : Prop :=
  ∀ s, erase l (m'.run s) = m.run (l.get s)

namespace Erases

variable {l : Lens σ τ} {m' : EStateM ε σ α} {m : EStateM ε τ α}

theorem zoom (m : EStateM ε τ α) : Erases l (l.zoom m) m := by
  intro s
  cases hm : m.run (l.get s) with
  | ok a t =>
    rw [Lens.zoom_ok hm]
    exact congrArg (EStateM.Result.ok a) (l.get_set t s)
  | error e t =>
    rw [Lens.zoom_error hm]
    exact congrArg (EStateM.Result.error e) (l.get_set t s)

protected theorem pure (a : α) : Erases l (pure a : EStateM ε σ α) (pure a) := fun _ => rfl

theorem bind {k' : α → EStateM ε σ β} {k : α → EStateM ε τ β} (hm : Erases l m' m)
    (hk : ∀ a, Erases l (k' a) (k a)) : Erases l (m' >>= k') (m >>= k) := by
  intro s
  have hfirst := hm s
  cases hrun : m'.run s with
  | ok a s₁ =>
    rw [hrun] at hfirst
    rw [run_bind_ok hrun, run_bind_ok hfirst.symm]
    exact hk a s₁
  | error e s₁ =>
    rw [hrun] at hfirst
    rw [run_bind_error hrun, run_bind_error hfirst.symm]
    rfl

/-- A step of the record alone goes before. -/
theorem silent_bind {r : EStateM ε σ PUnit} (hr : Erases l r (pure ⟨⟩ : EStateM ε τ PUnit))
    {k' : EStateM ε σ α} (hk : Erases l k' m) : Erases l (do r; k') m :=
  bind hr fun _ => hk

/-- A step of the record alone comes behind. -/
theorem bind_silent {m' : EStateM ε σ PUnit} {m : EStateM ε τ PUnit} (hm : Erases l m' m)
    {r : EStateM ε σ PUnit} (hr : Erases l r (pure ⟨⟩ : EStateM ε τ PUnit)) :
    Erases l (do m'; r) m := by
  intro s
  have hboth := bind hm (fun _ => hr) s
  rw [hboth]
  cases hrun : m.run (l.get s) with
  | ok a t => exact run_bind_ok hrun
  | error e t => exact run_bind_error hrun

theorem get_bind {k' : σ → EStateM ε σ α} {k : τ → EStateM ε τ α}
    (hk : ∀ s, Erases l (k' s) (k (l.get s))) : Erases l (get >>= k') (get >>= k) :=
  fun s => hk s s

protected theorem ite {c : Prop} [Decidable c] {x' y' : EStateM ε σ α} {x y : EStateM ε τ α}
    (hx : Erases l x' x) (hy : Erases l y' y) :
    Erases l (if c then x' else y') (if c then x else y) := by
  split
  · exact hx
  · exact hy

end Erases

end Effect
