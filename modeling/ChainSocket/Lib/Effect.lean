import Mathlib.Logic.Relation

/-!
# Programs with a state that is kept when they fail

Rules for `EStateM`: how the run of a sequence follows from the runs of its parts, for programs
on a part of the state (`Lens.zoom`), and for the steps a run can be broken into (`Moves`).
-/

namespace Effect

variable {ε σ α β : Type}

theorem run_get (s : σ) : (get : EStateM ε σ σ).run s = .ok s s := rfl

theorem run_modify (f : σ → σ) (s : σ) :
    (modify f : EStateM ε σ PUnit).run s = .ok ⟨⟩ (f s) := rfl

theorem run_bind_ok {x : EStateM ε σ α} {f : α → EStateM ε σ β} {s s' : σ} {a : α}
    (h : x.run s = .ok a s') : (x >>= f).run s = (f a).run s' := by
  change EStateM.bind x f s = _
  unfold EStateM.run at h
  simp only [EStateM.bind, h, EStateM.run]

theorem run_bind_error {x : EStateM ε σ α} {f : α → EStateM ε σ β} {s s' : σ} {e : ε}
    (h : x.run s = .error e s') : (x >>= f).run s = .error e s' := by
  change EStateM.bind x f s = _
  unfold EStateM.run at h
  simp only [EStateM.bind, h]

/-- A sequence that returns has passed through a state between its parts. -/
theorem run_bind_inv {x : EStateM ε σ α} {f : α → EStateM ε σ β} {s s' : σ} {b : β}
    (h : (x >>= f).run s = .ok b s') :
    ∃ a s₁, x.run s = .ok a s₁ ∧ (f a).run s₁ = .ok b s' := by
  cases hx : x.run s with
  | ok a s₁ => exact ⟨a, s₁, rfl, by rwa [run_bind_ok hx] at h⟩
  | error e s₁ => rw [run_bind_error hx] at h; cases h

theorem except_bind_ne {e : ε} {x : Except ε α} {f : α → Except ε β} (hx : x ≠ .error e)
    (hf : ∀ a, f a ≠ .error e) : (x >>= f) ≠ .error e := by
  cases x with
  | error e' => exact fun h => hx (by cases h; rfl)
  | ok a => exact hf a

theorem except_bind_inv {x : Except ε α} {f : α → Except ε β} {b : β}
    (h : (x >>= f) = .ok b) : ∃ a, x = .ok a ∧ f a = .ok b := by
  cases x with
  | error e => cases h
  | ok a => exact ⟨a, rfl, h⟩

/-- Where a run ends, and whether it returns. -/
def final : EStateM.Result ε σ α → σ
  | .ok _ s => s
  | .error _ s => s

def returns : EStateM.Result ε σ α → Bool
  | .ok _ _ => true
  | .error _ _ => false

def answer? : EStateM.Result ε σ α → Option α
  | .ok a _ => some a
  | .error _ _ => none

def fault : EStateM.Result ε σ α → Option ε
  | .ok _ _ => none
  | .error e _ => some e

theorem eq_error_of_fault {r : EStateM.Result ε σ α} {e : ε} (h : fault r = some e) :
    r = .error e (final r) := by
  cases r with
  | ok _ _ => cases h
  | error _ _ => cases h; rfl

theorem eq_ok_of_returns {r : EStateM.Result ε σ PUnit} (h : returns r = true) :
    r = .ok ⟨⟩ (final r) := by
  cases r with
  | ok _ _ => rfl
  | error _ _ => cases h

/-! ## Runs as sequences of steps -/

open Relation (ReflTransGen)

/-- Steps of `r` lead from `s` to where `m` returns, and steps of `f` to where it fails. -/
structure Moves (r f : σ → σ → Prop) (s : σ) (m : EStateM ε σ α) : Prop where
  ok : ∀ a s', m.run s = .ok a s' → ReflTransGen r s s'
  error : ∀ e s', m.run s = .error e s' → ReflTransGen f s s'

namespace Moves

variable {r f : σ → σ → Prop} {s : σ}

theorem of_ok {m : EStateM ε σ α} {a : α} {s' : σ} (h : m.run s = .ok a s')
    (hr : ReflTransGen r s s') : Moves r f s m := by
  constructor
  · intro b t hb
    rw [h] at hb
    cases hb
    exact hr
  · intro e t he
    rw [h] at he
    cases he

theorem of_error {m : EStateM ε σ α} {e : ε} {s' : σ} (h : m.run s = .error e s')
    (hf : ReflTransGen f s s') : Moves r f s m := by
  constructor
  · intro b t hb
    rw [h] at hb
    cases hb
  · intro e' t he
    rw [h] at he
    cases he
    exact hf

theorem pure (a : α) : Moves r f s (pure a : EStateM ε σ α) := of_ok rfl .refl

theorem get : Moves r f s (get : EStateM ε σ σ) := of_ok (run_get s) .refl

theorem throw (e : ε) : Moves r f s (throw e : EStateM ε σ α) := of_error rfl .refl

theorem modify {g : σ → σ} (h : ReflTransGen r s (g s)) :
    Moves r f s (modify g : EStateM ε σ PUnit) := of_ok (run_modify g s) h

theorem after {m m' : EStateM ε σ α} {s' : σ} (h : m.run s = m'.run s')
    (hr : ReflTransGen r s s') (hf : ReflTransGen f s s') (hm : Moves r f s' m') :
    Moves r f s m := by
  constructor
  · intro a t ha
    exact hr.trans (hm.ok a t (by rw [← h, ha]))
  · intro e t he
    exact hf.trans (hm.error e t (by rw [← h, he]))

theorem of_run {m m' : EStateM ε σ α} (h : m.run s = m'.run s) (hm : Moves r f s m') :
    Moves r f s m := after h .refl .refl hm

theorem bind {m : EStateM ε σ α} {k : α → EStateM ε σ β} (hrf : ∀ s s', r s s' → f s s')
    (hm : Moves r f s m) (hk : ∀ a s', m.run s = .ok a s' → Moves r f s' (k a)) :
    Moves r f s (m >>= k) := by
  cases h : m.run s with
  | error e s₁ => exact of_error (run_bind_error h) (hm.error e s₁ h)
  | ok a s₁ =>
    have hstep := hm.ok a s₁ h
    constructor
    · intro b s' hb
      rw [run_bind_ok h] at hb
      exact hstep.trans ((hk a s₁ h).ok b s' hb)
    · intro e s' he
      rw [run_bind_ok h] at he
      exact (ReflTransGen.mono hrf s s₁ hstep).trans ((hk a s₁ h).error e s' he)

/-- Steps made where `G` holds, and keeping it, are steps of `q`. -/
theorem steps_guard {q : σ → σ → Prop} {G : σ → Prop}
    (hstep : ∀ s s', r s s' → G s → q s s' ∧ G s') {s' : σ} (h : ReflTransGen r s s')
    (hG : G s) : ReflTransGen q s s' ∧ G s' := by
  induction h with
  | refl => exact ⟨.refl, hG⟩
  | tail _ hlast ih =>
    obtain ⟨hq, hG'⟩ := hstep _ _ hlast ih.2
    exact ⟨ih.1.tail hq, hG'⟩

theorem guard {q g : σ → σ → Prop} {G : σ → Prop}
    (hr : ∀ s s', r s s' → G s → q s s' ∧ G s') (hf : ∀ s s', f s s' → G s → g s s' ∧ G s')
    {m : EStateM ε σ α} (h : Moves r f s m) (hG : G s) : Moves q g s m := by
  constructor
  · intro a s' ha
    exact (steps_guard hr (h.ok a s' ha) hG).1
  · intro e s' he
    exact (steps_guard hf (h.error e s' he) hG).1

theorem mono {q g : σ → σ → Prop} (hr : ∀ s s', r s s' → q s s') (hf : ∀ s s', f s s' → g s s')
    {m : EStateM ε σ α} (h : Moves r f s m) : Moves q g s m := by
  constructor
  · intro a s' ha
    exact ReflTransGen.mono hr s s' (h.ok a s' ha)
  · intro e s' he
    exact ReflTransGen.mono hf s s' (h.error e s' he)

/-- What every step keeps, a run that returns keeps. -/
theorem keeps {G : σ → Prop} (hr : ∀ s s', r s s' → G s → G s') {m : EStateM ε σ α}
    (h : Moves r f s m) {a : α} {s' : σ} (ha : m.run s = .ok a s') (hG : G s) : G s' :=
  (steps_guard (fun s s' hs hG => ⟨hs, hr s s' hs hG⟩) (h.ok a s' ha) hG).2

theorem final {m : EStateM ε σ α} (h : Moves r r s m) : ReflTransGen r s (final (m.run s)) := by
  cases hm : m.run s with
  | ok a s' => exact h.ok a s' hm
  | error e s' => exact h.error e s' hm

/-- What every step keeps holds wherever the run ends. -/
theorem final_keeps {G : σ → Prop} (hr : ∀ s s', r s s' → G s → G s') {m : EStateM ε σ α}
    (h : Moves r r s m) (hG : G s) : G (Effect.final (m.run s)) :=
  (steps_guard (fun s s' hs hG => ⟨hs, hr s s' hs hG⟩) h.final hG).2

end Moves

/-! ## Failures that do not happen -/

/-- The run of `m` from `s` does not fail with `e`. -/
def Avoids (e : ε) (s : σ) (m : EStateM ε σ α) : Prop := ∀ s', m.run s ≠ .error e s'

namespace Avoids

variable {e : ε} {s : σ}

theorem of_ok {m : EStateM ε σ α} {a : α} {s' : σ} (h : m.run s = .ok a s') : Avoids e s m := by
  intro t ht
  rw [h] at ht
  cases ht

theorem of_error {m : EStateM ε σ α} {e' : ε} {s' : σ} (h : m.run s = .error e' s')
    (hne : e' ≠ e) : Avoids e s m := by
  intro t ht
  rw [h] at ht
  cases ht
  exact hne rfl

theorem pure (a : α) : Avoids e s (pure a : EStateM ε σ α) := of_ok rfl

theorem after {m m' : EStateM ε σ α} {s' : σ} (h : m.run s = m'.run s') (hm : Avoids e s' m') :
    Avoids e s m := by
  intro t ht
  exact hm t (by rw [← h, ht])

theorem bind {m : EStateM ε σ α} {k : α → EStateM ε σ β} (hm : Avoids e s m)
    (hk : ∀ a s', m.run s = .ok a s' → Avoids e s' (k a)) : Avoids e s (m >>= k) := by
  cases h : m.run s with
  | ok a s₁ => exact after (run_bind_ok h) (hk a s₁ h)
  | error e' s₁ =>
    apply of_error (run_bind_error h)
    intro heq
    subst heq
    exact hm s₁ h

end Avoids

/-! ## Programs on a part of the state -/

/-- A part `τ` of the state `σ`. -/
structure Lens (σ τ : Type) where
  get : σ → τ
  set : τ → σ → σ
  get_set : ∀ t s, get (set t s) = t
  set_get : ∀ s, set (get s) s = s
  set_set : ∀ t t' s, set t' (set t s) = set t' s

namespace Lens

variable {τ : Type}

/-- `m` run on the part, the rest of the state left as it is. -/
def zoom (l : Lens σ τ) (m : EStateM ε τ α) : EStateM ε σ α := fun s =>
  match m.run (l.get s) with
  | .ok a t => .ok a (l.set t s)
  | .error e t => .error e (l.set t s)

variable {l : Lens σ τ} {m : EStateM ε τ α} {s : σ}

theorem zoom_ok {a : α} {t : τ} (h : m.run (l.get s) = .ok a t) :
    (l.zoom m).run s = .ok a (l.set t s) := by
  change l.zoom m s = _
  simp only [zoom, h]

theorem zoom_error {e : ε} {t : τ} (h : m.run (l.get s) = .error e t) :
    (l.zoom m).run s = .error e (l.set t s) := by
  change l.zoom m s = _
  simp only [zoom, h]

theorem zoom_inv {a : α} {s' : σ} (h : (l.zoom m).run s = .ok a s') :
    ∃ t, m.run (l.get s) = .ok a t ∧ s' = l.set t s := by
  cases hm : m.run (l.get s) with
  | ok b t =>
    rw [zoom_ok hm] at h
    cases h
    exact ⟨t, rfl, rfl⟩
  | error e t =>
    rw [zoom_error hm] at h
    cases h

theorem set_steps {r : τ → τ → Prop} {q : σ → σ → Prop}
    (hrq : ∀ s t, r (l.get s) t → q s (l.set t s)) {t : τ}
    (h : ReflTransGen r (l.get s) t) : ReflTransGen q s (l.set t s) := by
  induction h with
  | refl => rw [l.set_get]
  | @tail t t' _ hstep ih =>
    have := hrq (l.set t s) t' (by rwa [l.get_set])
    rw [l.set_set] at this
    exact ih.tail this

/-- Steps of the part are steps of the whole. -/
theorem zoom_moves {r f : τ → τ → Prop} {q g : σ → σ → Prop}
    (hrq : ∀ s t, r (l.get s) t → q s (l.set t s))
    (hfg : ∀ s t, f (l.get s) t → g s (l.set t s)) (h : Moves r f (l.get s) m) :
    Moves q g s (l.zoom m) := by
  cases hm : m.run (l.get s) with
  | ok a t => exact .of_ok (zoom_ok hm) (set_steps hrq (h.ok a t hm))
  | error e t => exact .of_error (zoom_error hm) (set_steps hfg (h.error e t hm))

end Lens

end Effect
