import Mathlib.Data.List.Forall2

/-!
# Programs that are called back

A caller's behaviour under an interface that calls it back is a `Script`: its calls in order, and
for each of them what the outside answers, every answer with what the caller does when it is
called back for it. Calls made from a callback are again a script, to any depth.
-/

namespace Reentrant

variable {Call Answer : Type}

mutual

inductive Script (Call Answer : Type) where
  | done
  | call (c : Call) (replies : Replies Call Answer) (next : Script Call Answer)

inductive Replies (Call Answer : Type) where
  | none
  | reply (a : Answer) (callback : Script Call Answer) (rest : Replies Call Answer)

end

variable {m : Type → Type} [Monad m]

mutual

/-- `observe` runs at the entry, at the exit, and between the calls. -/
def Script.run (api : Call → List (Answer × m Unit) → m Unit) (observe : m Unit) :
    Script Call Answer → m Unit
  | .done => observe
  | .call c replies next => do
    observe
    api c (replies.handlers api observe)
    next.run api observe

def Replies.handlers (api : Call → List (Answer × m Unit) → m Unit) (observe : m Unit) :
    Replies Call Answer → List (Answer × m Unit)
  | .none => []
  | .reply a callback rest => (a, callback.run api observe) :: rest.handlers api observe

end

section

variable {api : Call → List (Answer × m Unit) → m Unit} {observe : m Unit} {P : m Unit → Prop}

mutual

/-- What every call has when its callbacks have it, every script has. -/
theorem Script.run_rule (hobserve : P observe)
    (hseq : ∀ x y : m Unit, P x → P y → P (do x; y))
    (hapi : ∀ c hs, (∀ h ∈ hs, P h.2) → P (api c hs)) :
    ∀ script : Script Call Answer, P (script.run api observe)
  | .done => by
    rw [Script.run]
    exact hobserve
  | .call c replies next => by
    rw [Script.run]
    have hcall := hapi c _ (Replies.handlers_rule hobserve hseq hapi replies)
    exact hseq _ _ hobserve (hseq _ _ hcall (Script.run_rule hobserve hseq hapi next))

theorem Replies.handlers_rule (hobserve : P observe)
    (hseq : ∀ x y : m Unit, P x → P y → P (do x; y))
    (hapi : ∀ c hs, (∀ h ∈ hs, P h.2) → P (api c hs)) :
    ∀ replies : Replies Call Answer, ∀ h ∈ replies.handlers api observe, P h.2
  | .none => by
    rw [Replies.handlers]
    intro h hh
    cases hh
  | .reply a callback rest => by
    rw [Replies.handlers]
    intro h hh
    cases hh with
    | head => exact Script.run_rule hobserve hseq hapi callback
    | tail _ hh => exact Replies.handlers_rule hobserve hseq hapi rest h hh

end

end

/-! ## Two interfaces -/

section

variable {m' : Type → Type} [Monad m'] {api : Call → List (Answer × m Unit) → m Unit}
  {api' : Call → List (Answer × m' Unit) → m' Unit} {observe : m Unit} {observe' : m' Unit}
  {R : m' Unit → m Unit → Prop}

mutual

/-- Under interfaces whose calls are related when their callbacks are, the runs of a script are
related. -/
theorem Script.run_related (hobserve : R observe' observe)
    (hseq : ∀ x' y' x y, R x' x → R y' y → R (do x'; y') (do x; y))
    (hapi : ∀ c hs' hs, List.Forall₂ (fun h' h => h'.1 = h.1 ∧ R h'.2 h.2) hs' hs →
      R (api' c hs') (api c hs)) :
    ∀ script : Script Call Answer, R (script.run api' observe') (script.run api observe)
  | .done => by
    rw [Script.run, Script.run]
    exact hobserve
  | .call c replies next => by
    rw [Script.run, Script.run]
    have hcall := hapi c _ _ (Replies.handlers_related hobserve hseq hapi replies)
    have hnext := Script.run_related hobserve hseq hapi next
    exact hseq _ _ _ _ hobserve (hseq _ _ _ _ hcall hnext)

theorem Replies.handlers_related (hobserve : R observe' observe)
    (hseq : ∀ x' y' x y, R x' x → R y' y → R (do x'; y') (do x; y))
    (hapi : ∀ c hs' hs, List.Forall₂ (fun h' h => h'.1 = h.1 ∧ R h'.2 h.2) hs' hs →
      R (api' c hs') (api c hs)) :
    ∀ replies : Replies Call Answer, List.Forall₂ (fun h' h => h'.1 = h.1 ∧ R h'.2 h.2)
      (replies.handlers api' observe') (replies.handlers api observe)
  | .none => by
    rw [Replies.handlers, Replies.handlers]
    exact .nil
  | .reply a callback rest => by
    rw [Replies.handlers, Replies.handlers]
    exact .cons ⟨rfl, Script.run_related hobserve hseq hapi callback⟩
      (Replies.handlers_related hobserve hseq hapi rest)

end

end

/-! ## The answers in their order -/

mutual

/-- Every answer that a script names, with the call it is for, in the order of the script. -/
def Script.exchanges : Script Call Answer → List (Call × Answer)
  | .done => []
  | .call c replies next => replies.exchanges c ++ next.exchanges

def Replies.exchanges (c : Call) : Replies Call Answer → List (Call × Answer)
  | .none => []
  | .reply a callback rest => (c, a) :: (callback.exchanges ++ rest.exchanges c)

end

/-- The answers to one call, with callbacks that have `P` of what they are answered themselves. -/
inductive Answered (P : List (Call × Answer) → m Unit → Prop) (c : Call) :
    List (Answer × m Unit) → List (Call × Answer) → Prop
  | nil : Answered P c [] []
  | cons {a : Answer} {callback : m Unit} {rest : List (Answer × m Unit)}
      {xs ys : List (Call × Answer)} (first : P xs callback) (others : Answered P c rest ys) :
      Answered P c ((a, callback) :: rest) ((c, a) :: (xs ++ ys))

section

variable {api : Call → List (Answer × m Unit) → m Unit} {observe : m Unit}
  {P : List (Call × Answer) → m Unit → Prop}

mutual

/-- As `Script.run_rule`, for what depends on the answers. -/
theorem Script.run_answered (hobserve : P [] observe)
    (hseq : ∀ xs ys x y, P xs x → P ys y → P (xs ++ ys) (do x; y))
    (hapi : ∀ c hs xs, Answered P c hs xs → P xs (api c hs)) :
    ∀ script : Script Call Answer, P script.exchanges (script.run api observe)
  | .done => by
    rw [Script.run, Script.exchanges]
    exact hobserve
  | .call c replies next => by
    rw [Script.run, Script.exchanges]
    have hcall := hapi c _ _ (Replies.handlers_answered hobserve hseq hapi c replies)
    exact hseq [] _ _ _ hobserve
      (hseq _ _ _ _ hcall (Script.run_answered hobserve hseq hapi next))

theorem Replies.handlers_answered (hobserve : P [] observe)
    (hseq : ∀ xs ys x y, P xs x → P ys y → P (xs ++ ys) (do x; y))
    (hapi : ∀ c hs xs, Answered P c hs xs → P xs (api c hs)) (c : Call) :
    ∀ replies : Replies Call Answer,
      Answered P c (replies.handlers api observe) (replies.exchanges c)
  | .none => by
    rw [Replies.handlers, Replies.exchanges]
    exact .nil
  | .reply a callback rest => by
    rw [Replies.handlers, Replies.exchanges]
    exact .cons (Script.run_answered hobserve hseq hapi callback)
      (Replies.handlers_answered hobserve hseq hapi c rest)

end

end

end Reentrant
