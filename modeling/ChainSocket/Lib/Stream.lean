import Mathlib.Data.List.Basic

/-!
# Streams taken in chunks

A step takes in one chunk. When every step keeps the state a function of all the bytes so far, up
to what is observed, then it does not matter how a stream is cut.
-/

namespace Stream

variable {σ α β : Type}

/-- A run over chunks, one step for each. -/
inductive Runs (step : σ → List α → σ → Prop) : σ → List (List α) → σ → Prop where
  | nil (s : σ) : Runs step s [] s
  | cons {s s' s'' : σ} {c : List α} {cs : List (List α)} (h : step s c s')
      (t : Runs step s' cs s'') : Runs step s (c :: cs) s''

/-- `Tracks w s`: the bytes `w`, in whatever chunks, have led to `s`. -/
structure Tracked (step : σ → List α → σ → Prop) (Tracks : List α → σ → Prop) : Prop where
  step : ∀ {w c : List α} {s s' : σ}, Tracks w s → step s c s' → Tracks (w ++ c) s'

variable {step : σ → List α → σ → Prop} {Tracks : List α → σ → Prop}

theorem Tracked.runs (h : Tracked step Tracks) {w : List α} {s s' : σ} {cs : List (List α)}
    (r : Runs step s cs s') (hs : Tracks w s) : Tracks (w ++ cs.flatten) s' := by
  induction r generalizing w with
  | nil s => simpa using hs
  | cons hstep _ ih =>
    have := ih (h.step hs hstep)
    rwa [List.flatten_cons, ← List.append_assoc]

/-- Two cuts of one stream lead to the same observation. -/
theorem Tracked.chunking (h : Tracked step Tracks) {view : σ → β}
    (det : ∀ {w : List α} {s s' : σ}, Tracks w s → Tracks w s' → view s = view s') {s₀ s s' : σ}
    (h₀ : Tracks [] s₀) {cs cs' : List (List α)} (hcut : cs.flatten = cs'.flatten)
    (r : Runs step s₀ cs s) (r' : Runs step s₀ cs' s') : view s = view s' := by
  have hs := h.runs r h₀
  have hs' := h.runs r' h₀
  rw [hcut] at hs
  exact det hs hs'

end Stream
