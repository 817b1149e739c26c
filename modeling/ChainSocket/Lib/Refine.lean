/-!
# Refinement along runs of operations

`exec` is a machine whose operations answer or fail, `spec` says what an operation may do to an
abstract state and answer, and `pre` where an operation may be called. A machine that simulates
`spec` step by step runs to the end of every run that is allowed, and follows `spec` on it.
-/

namespace Refine

variable {ω ρ σ α ε : Type}

def run (exec : ω → σ → Except ε (ρ × σ)) : σ → List ω → Except ε (List ρ × σ)
  | s, [] => .ok ([], s)
  | s, op :: ops =>
    match exec op s with
    | .error e => .error e
    | .ok (r, s') =>
      match run exec s' ops with
      | .error e => .error e
      | .ok (rs, s'') => .ok (r :: rs, s'')

/-- Every operation is called where it may be. -/
def Allowed (exec : ω → σ → Except ε (ρ × σ)) (pre : ω → σ → Prop) : σ → List ω → Prop
  | _, [] => True
  | s, op :: ops => pre op s ∧ ∀ r s', exec op s = .ok (r, s') → Allowed exec pre s' ops

/-- The answers and the last state are ones that `spec` allows. -/
inductive Follows (spec : ω → α → ρ → α → Prop) : α → List ω → List ρ → α → Prop
  | nil (a : α) : Follows spec a [] [] a
  | cons {op : ω} {r : ρ} {ops : List ω} {rs : List ρ} {a a' a'' : α} (step : spec op a r a')
      (rest : Follows spec a' ops rs a'') : Follows spec a (op :: ops) (r :: rs) a''

/-- From states that `R` couples, every allowed operation succeeds, as `spec` says, and keeps
them coupled. -/
def Simulates (exec : ω → σ → Except ε (ρ × σ)) (pre : ω → σ → Prop)
    (spec : ω → α → ρ → α → Prop) (R : σ → α → Prop) : Prop :=
  ∀ op s a, R s a → pre op s → ∃ r s' a', exec op s = .ok (r, s') ∧ spec op a r a' ∧ R s' a'

variable {exec : ω → σ → Except ε (ρ × σ)} {pre : ω → σ → Prop} {spec : ω → α → ρ → α → Prop}
  {R : σ → α → Prop}

theorem run_cons {op : ω} {ops : List ω} {s s' s'' : σ} {r : ρ} {rs : List ρ}
    (h : exec op s = .ok (r, s')) (hs : run exec s' ops = .ok (rs, s'')) :
    run exec s (op :: ops) = .ok (r :: rs, s'') := by
  simp only [run, h, hs]

theorem run_cons_inv {op : ω} {ops : List ω} {s s'' : σ} {rs : List ρ}
    (h : run exec s (op :: ops) = .ok (rs, s'')) :
    ∃ r s' rest, exec op s = .ok (r, s') ∧ run exec s' ops = .ok (rest, s'') := by
  rw [run] at h
  split at h
  · cases h
  · rename_i r s' hop
    split at h
    · cases h
    · rename_i rest s₂ hrest
      cases h
      exact ⟨r, s', rest, hop, hrest⟩

theorem run_follows (hsim : Simulates exec pre spec R) {ops : List ω} {s : σ} {a : α}
    (hR : R s a) (h : Allowed exec pre s ops) :
    ∃ rs s' a', run exec s ops = .ok (rs, s') ∧ Follows spec a ops rs a' ∧ R s' a' := by
  induction ops generalizing s a with
  | nil => exact ⟨[], s, a, rfl, .nil a, hR⟩
  | cons op ops ih =>
    obtain ⟨hpre, hrest⟩ := h
    obtain ⟨r, s₁, a₁, hop, hspec, hR₁⟩ := hsim op s a hR hpre
    obtain ⟨rs, s', a', hrun, hfollows, hR'⟩ := ih hR₁ (hrest r s₁ hop)
    exact ⟨r :: rs, s', a', run_cons hop hrun, .cons hspec hfollows, hR'⟩

/-- Where operations may be called anywhere, every run is allowed. -/
theorem allowed_of_forall (h : ∀ op s, pre op s) (s : σ) (ops : List ω) :
    Allowed exec pre s ops := by
  induction ops generalizing s with
  | nil => trivial
  | cons op ops ih => exact ⟨h op s, fun _ s' _ => ih s'⟩

/-- A run that is allowed is allowed up to any point, and from there on. -/
theorem allowed_append {ops more : List ω} {s : σ} (h : Allowed exec pre s (ops ++ more)) :
    Allowed exec pre s ops ∧
      ∀ rs s', run exec s ops = .ok (rs, s') → Allowed exec pre s' more := by
  induction ops generalizing s with
  | nil =>
    refine ⟨trivial, ?_⟩
    intro rs s' hrun
    cases hrun
    exact h
  | cons op ops ih =>
    obtain ⟨hpre, hrest⟩ := h
    refine ⟨⟨hpre, fun r s' hop => (ih (hrest r s' hop)).1⟩, ?_⟩
    intro rs s' hrun
    obtain ⟨r, s₁, rest, hop, htail⟩ := run_cons_inv hrun
    exact (ih (hrest r s₁ hop)).2 rest s' htail

/-- Two properties of steps that agree along the states of a run are those of the same runs. -/
theorem allowed_iff {Q : σ → Prop} {p q : ω → σ → Prop}
    (hstep : ∀ op s, Q s → pre op s → (p op s ↔ q op s))
    (hkeep : ∀ op s r s', Q s → pre op s → p op s → exec op s = .ok (r, s') → Q s')
    {ops : List ω} {s : σ} (hQ : Q s) (h : Allowed exec pre s ops) :
    Allowed exec p s ops ↔ Allowed exec q s ops := by
  induction ops generalizing s with
  | nil => exact Iff.rfl
  | cons op ops ih =>
    obtain ⟨hpre, hrest⟩ := h
    have hone := hstep op s hQ hpre
    constructor
    · intro hp
      refine ⟨hone.mp hp.1, fun r s' hop => ?_⟩
      exact (ih (hkeep op s r s' hQ hpre hp.1 hop) (hrest r s' hop)).mp (hp.2 r s' hop)
    · intro hq
      have hp := hone.mpr hq.1
      refine ⟨hp, fun r s' hop => ?_⟩
      exact (ih (hkeep op s r s' hQ hpre hp hop) (hrest r s' hop)).mpr (hq.2 r s' hop)

/-- What no operation makes smaller, no run makes smaller. -/
theorem run_le {measure : σ → Nat}
    (hstep : ∀ op s r s', exec op s = .ok (r, s') → measure s ≤ measure s') {ops : List ω}
    {s s' : σ} {rs : List ρ} (h : run exec s ops = .ok (rs, s')) : measure s ≤ measure s' := by
  induction ops generalizing s rs with
  | nil =>
    cases h
    exact Nat.le_refl _
  | cons op ops ih =>
    obtain ⟨r, s₁, rest, hop, htail⟩ := run_cons_inv h
    exact Nat.le_trans (hstep op s r s₁ hop) (ih htail)

end Refine
