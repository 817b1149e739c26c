import Mathlib.Data.List.Basic

/-!
# Logs

Logs whose entries depend on what has been logged before them.
-/

namespace Log

variable {α : Type} {ok : List α → α → Prop} {log : List α}

/-- Every entry is in order behind what comes before it. -/
def InOrder (ok : List α → α → Prop) (log : List α) : Prop :=
  ∀ before e after, log = before ++ e :: after → ok before e

theorem InOrder.nil : InOrder ok [] := by
  intro before e after h
  cases before <;> cases h

theorem InOrder.concat {e : α} (h : InOrder ok log) (he : ok log e) :
    InOrder ok (log ++ [e]) := by
  intro before d after heq
  rcases List.eq_nil_or_concat after with rfl | ⟨rest, d', rfl⟩
  · obtain ⟨rfl, hd⟩ := List.append_inj' heq rfl
    cases hd
    exact he
  · have hsplit : log ++ [e] = (before ++ d :: rest) ++ [d'] := by simpa using heq
    obtain ⟨hlog, -⟩ := List.append_inj' hsplit rfl
    exact h before d rest hlog

theorem InOrder.last {e : α} (h : InOrder ok (log ++ [e])) : ok log e := h log e [] rfl

theorem InOrder.of_prefix {rest : List α} (h : InOrder ok rest) (hlog : log <+: rest) :
    InOrder ok log := by
  obtain ⟨tail, rfl⟩ := hlog
  intro before e after heq
  exact h before e (after ++ tail) (by rw [heq, List.append_assoc]; rfl)

/-- Where later entries leave earlier ones in order, an entry can be judged by the whole log. -/
theorem InOrder.mem (h : InOrder ok log)
    (hmono : ∀ before after e, ok before e → ok (before ++ after) e) {e : α} (he : e ∈ log) :
    ok log e := by
  obtain ⟨before, after, rfl⟩ := List.append_of_mem he
  exact hmono before (e :: after) e (h before e after rfl)

end Log
