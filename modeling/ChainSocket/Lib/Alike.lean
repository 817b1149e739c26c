import ChainSocket.Lib.Triple

/-!
# Two programs on two states

A program on states that stand for other states, beside the program on those: from related states
both return related values in related states, or both fail alike (`Mirrors`). `steps_alike` carries
this from one step of a program to its runs.
-/

namespace Effect

variable {ε σ τ α β γ δ : Type}

/-- Both have returned, and `Q` relates what they have returned; or both have failed with the same
fault. Then nothing is said of their states, the calls made before the failure among them. -/
inductive Alike (Q : α → β → σ → τ → Prop) :
    EStateM.Result ε σ α → EStateM.Result ε τ β → Prop
  | ok {a : α} {b : β} {s : σ} {t : τ} (related : Q a b s t) : Alike Q (.ok a s) (.ok b t)
  | error {e : ε} {s : σ} {t : τ} : Alike Q (.error e s) (.error e t)

/-- From states that `P` relates, the two programs run alike. -/
def Mirrors (P : σ → τ → Prop) (m : EStateM ε σ α) (m' : EStateM ε τ β)
    (Q : α → β → σ → τ → Prop) : Prop :=
  ∀ s t, P s t → Alike Q (m.run s) (m'.run t)

/-- Related by `R`, with the same value. -/
def Same (R : σ → τ → Prop) (a b : α) (s : σ) (t : τ) : Prop := a = b ∧ R s t

namespace Mirrors

variable {P P' : σ → τ → Prop} {Q Q' : α → β → σ → τ → Prop} {m : EStateM ε σ α}
  {m' : EStateM ε τ β}

protected theorem pure {a : α} {b : β} (h : ∀ s t, P s t → Q a b s t) :
    Mirrors P (pure a : EStateM ε σ α) (pure b : EStateM ε τ β) Q :=
  fun s t hst => .ok (h s t hst)

theorem throw (e : ε) :
    Mirrors P (throw e : EStateM ε σ α) (throw e : EStateM ε τ β) Q :=
  fun _ _ _ => .error

theorem modify {f : σ → σ} {g : τ → τ} {Q : PUnit → PUnit → σ → τ → Prop}
    (h : ∀ s t, P s t → Q ⟨⟩ ⟨⟩ (f s) (g t)) :
    Mirrors P (modify f : EStateM ε σ PUnit) (modify g : EStateM ε τ PUnit) Q :=
  fun s t hst => .ok (h s t hst)

theorem mono (h : Mirrors P m m' Q) (hP : ∀ s t, P' s t → P s t)
    (hQ : ∀ a b s t, Q a b s t → Q' a b s t) : Mirrors P' m m' Q' := by
  intro s t hst
  have hrun := h s t (hP s t hst)
  generalize m.run s = r at hrun ⊢
  generalize m'.run t = r' at hrun ⊢
  cases hrun with
  | ok related => exact .ok (hQ _ _ _ _ related)
  | error => exact .error

theorem pre (h : Mirrors P m m' Q) (hP : ∀ s t, P' s t → P s t) : Mirrors P' m m' Q :=
  h.mono hP fun _ _ _ _ hq => hq

theorem bind {R : α → β → σ → τ → Prop} {k : α → EStateM ε σ γ} {k' : β → EStateM ε τ δ}
    {Q : γ → δ → σ → τ → Prop} (hm : Mirrors P m m' R)
    (hk : ∀ a b, Mirrors (R a b) (k a) (k' b) Q) : Mirrors P (m >>= k) (m' >>= k') Q := by
  intro s t hst
  have hfirst := hm s t hst
  cases hrun : m.run s with
  | ok a s₁ =>
    cases hrun' : m'.run t with
    | ok b t₁ =>
      rw [hrun, hrun'] at hfirst
      rw [run_bind_ok hrun, run_bind_ok hrun']
      cases hfirst with
      | ok related => exact hk a b s₁ t₁ related
    | error e t₁ =>
      rw [hrun, hrun'] at hfirst
      cases hfirst
  | error e s₁ =>
    cases hrun' : m'.run t with
    | ok b t₁ =>
      rw [hrun, hrun'] at hfirst
      cases hfirst
    | error e' t₁ =>
      rw [hrun, hrun'] at hfirst
      rw [run_bind_error hrun, run_bind_error hrun']
      cases hfirst
      exact .error

/-- Both go on with the same value. -/
theorem bind_same {R : σ → τ → Prop} {m' : EStateM ε τ α} {k : α → EStateM ε σ γ}
    {k' : α → EStateM ε τ δ} {Q : γ → δ → σ → τ → Prop} (hm : Mirrors P m m' (Same R))
    (hk : ∀ a, Mirrors R (k a) (k' a) Q) : Mirrors P (m >>= k) (m' >>= k') Q := by
  apply hm.bind
  rintro a b s t ⟨rfl, hR⟩
  exact hk a s t hR

/-- What is read are the states themselves. -/
theorem get_bind {k : σ → EStateM ε σ α} {k' : τ → EStateM ε τ β}
    (h : ∀ s t, P s t → Mirrors (fun s' t' => s' = s ∧ t' = t) (k s) (k' t) Q) :
    Mirrors P (get >>= k) (get >>= k') Q :=
  fun s t hst => h s t hst s t ⟨rfl, rfl⟩

/-- Where the programs are those of two related states. -/
theorem pointwise (h : ∀ s t, P s t → Mirrors (fun s' t' => s' = s ∧ t' = t) m m' Q) :
    Mirrors P m m' Q :=
  fun s t hst => h s t hst s t ⟨rfl, rfl⟩

end Mirrors

/-! ## Runs of steps -/

section Steps

variable {ω : Type}

def steps (step : ω → EStateM ε σ Unit) : List ω → EStateM ε σ Unit
  | [] => return ()
  | e :: es => do
    step e
    steps step es

/-- Every step finds a state that `pre` admits it in. -/
def Admits (step : ω → EStateM ε σ Unit) (pre : ω → σ → Prop) : σ → List ω → Prop
  | _, [] => True
  | s, e :: es => pre e s ∧ ∀ s', (step e).run s = .ok () s' → Admits step pre s' es

/-- Each step of the one is a step of the other with some `d` that it leaves open. -/
theorem steps_alike {R : σ → τ → Prop} {step : ω → EStateM ε σ Unit}
    {step' : ω × δ → EStateM ε τ Unit} {pre : ω → σ → Prop}
    (h : ∀ e s t, R s t → pre e s →
      ∃ d, Alike (Same R) ((step e).run s) ((step' (e, d)).run t))
    {es : List ω} {s : σ} {t : τ} (hst : R s t) (hadmits : Admits step pre s es) :
    ∃ ds : List δ, ds.length = es.length ∧
      Alike (Same R) ((steps step es).run s) ((steps step' (es.zip ds)).run t) := by
  induction es generalizing s t with
  | nil => exact ⟨[], rfl, .ok ⟨rfl, hst⟩⟩
  | cons e es ih =>
    obtain ⟨hpre, hrest⟩ := hadmits
    obtain ⟨d, hstep⟩ := h e s t hst hpre
    cases hrun : (step e).run s with
    | ok a s₁ =>
      cases hrun' : (step' (e, d)).run t with
      | ok b t₁ =>
        rw [hrun, hrun'] at hstep
        cases hstep with
        | ok related =>
          obtain ⟨ds, hlen, halike⟩ := ih related.2 (hrest s₁ hrun)
          refine ⟨d :: ds, by simp [hlen], ?_⟩
          simp only [steps, List.zip_cons_cons]
          rw [run_bind_ok hrun, run_bind_ok hrun']
          exact halike
      | error e' t₁ =>
        rw [hrun, hrun'] at hstep
        cases hstep
    | error e₁ s₁ =>
      refine ⟨List.replicate (es.length + 1) d, by simp, ?_⟩
      cases hrun' : (step' (e, d)).run t with
      | ok b t₁ =>
        rw [hrun, hrun'] at hstep
        cases hstep
      | error e' t₁ =>
        rw [hrun, hrun'] at hstep
        simp only [steps, List.replicate_succ, List.zip_cons_cons]
        rw [run_bind_error hrun, run_bind_error hrun']
        cases hstep
        exact .error

/-- What every step keeps, a run of steps keeps. -/
theorem Triple.steps {E I : σ → Prop} {step : ω → EStateM ε σ Unit}
    (h : ∀ e, Triple E I (step e) fun _ => I) (es : List ω) :
    Triple E I (steps step es) fun _ => I := by
  induction es with
  | nil => exact Triple.pure fun _ hI => hI
  | cons e es ih => exact (h e).bind fun _ => ih

end Steps

end Effect
