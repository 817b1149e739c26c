/-!
# Runs without an end

A run of a machine from one of its first states, with the operation made at every step. A run with
an end is the beginning of one of these wherever some operation can always be made.
-/

structure Run {σ ω : Type} (first : σ → Prop) (step : ω → σ → σ → Prop) where
  state : Nat → σ
  op : Nat → ω
  init : first (state 0)
  step : ∀ t, step (op t) (state t) (state (t + 1))

namespace Run

variable {σ ω : Type} {first : σ → Prop} {step : ω → σ → σ → Prop}

/-- What holds at first and is kept by every step holds throughout. -/
theorem invariant {P : σ → Prop} (run : Run first step) (hfirst : ∀ s, first s → P s)
    (hstep : ∀ op s s', step op s s' → P s → P s') (t : Nat) : P (run.state t) := by
  induction t with
  | zero => exact hfirst _ run.init
  | succ t ih => exact hstep _ _ _ (run.step t) ih

end Run
