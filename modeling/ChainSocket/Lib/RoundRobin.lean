import ChainSocket.Lib.Run
import Mathlib.Order.SetNotation
import Mathlib.Data.Set.Insert
import Mathlib.Data.Nat.ModEq

/-!
# Round-robin allocation

Ids below `n` are given out by a cursor that goes round: the first free id from the cursor on is
taken, and the cursor put behind it. So an id that is given back is not given out again before
every other id has been in use.
-/

namespace RoundRobin

variable {n : Nat}

/-- The id `m` places behind `c`. -/
def rotate (c : Fin n) (m : Nat) : Fin n := ⟨(c + m) % n, Nat.mod_lt _ c.pos⟩

@[simp] theorem rotate_zero (c : Fin n) : rotate c 0 = c := by
  apply Fin.ext
  exact Nat.mod_eq_of_lt c.isLt

theorem rotate_rotate (c : Fin n) (k m : Nat) : rotate (rotate c k) m = rotate c (k + m) := by
  apply Fin.ext
  change ((c + k) % n + m) % n = (c + (k + m)) % n
  rw [Nat.mod_add_mod, Nat.add_assoc]

@[simp] theorem rotate_all (c : Fin n) : rotate c n = c := by
  apply Fin.ext
  change (c + n) % n = c
  rw [Nat.add_mod_right, Nat.mod_eq_of_lt c.isLt]

/-- Every id is less than one round away. -/
theorem exists_rotate (c i : Fin n) : ∃ m < n, rotate c m = i := by
  refine ⟨(i + (n - c)) % n, Nat.mod_lt _ c.pos, ?_⟩
  apply Fin.ext
  change (c + (i + (n - c)) % n) % n = i
  rw [Nat.add_mod_mod]
  have hsum : (c : Nat) + (i + (n - c)) = i + n := by omega
  rw [hsum, Nat.add_mod_right, Nat.mod_eq_of_lt i.isLt]

/-- The cursor is back only after a whole round. -/
theorem rotate_eq_self {c : Fin n} {m : Nat} (h : rotate c m = c) : n ∣ m := by
  have hval : (c + m) % n = c % n := by
    rw [Nat.mod_eq_of_lt c.isLt]
    exact congrArg Fin.val h
  have hmod : c + m ≡ c + 0 [MOD n] := hval
  exact (Nat.modEq_zero_iff_dvd).1 hmod.add_left_cancel'

/-- Which id is next to be tried, and which are in use. -/
structure State (n : Nat) where
  next : Fin n
  taken : Set (Fin n)

inductive Op (n : Nat) where
  | take (id : Fin n)
  | fail
  | release (id : Fin n)

inductive Step : Op n → State n → State n → Prop
  | take {s : State n} (m : Nat) (passed : ∀ j < m, rotate s.next j ∈ s.taken)
      (free : rotate s.next m ∉ s.taken) :
      Step (.take (rotate s.next m)) s
        ⟨rotate s.next (m + 1), insert (rotate s.next m) s.taken⟩
  | fail {s : State n} (all : ∀ id, id ∈ s.taken) : Step .fail s s
  | release {s : State n} (id : Fin n) : Step (.release id) s ⟨s.next, s.taken \ {id}⟩

/-- The cursor reaches an id that is taken over ids that are in use. -/
theorem Step.place {s s' : State n} {id : Fin n} (h : Step (.take id) s s') :
    ∃ m, (∀ j < m, rotate s.next j ∈ s.taken) ∧ rotate s.next m = id := by
  cases h with
  | take m passed free => exact ⟨m, passed, rfl⟩

/-! ## Reuse -/

/-- Since the step `i`, that took `id`, the cursor has gone `d` places on from behind it, over ids
that have been in use since. -/
structure Passed {first : State n → Prop} (run : Run first Step) (i : Nat) (id : Fin n)
    (k d : Nat) : Prop where
  next : (run.state k).next = rotate id (1 + d)
  used : ∀ o < d, ∃ k', i < k' ∧ k' ≤ k ∧ rotate id (1 + o) ∈ (run.state k').taken

theorem Passed.later {first : State n → Prop} {run : Run first Step} {i k d o : Nat} {id : Fin n}
    (h : Passed run i id k d) (ho : o < d) :
    ∃ k', i < k' ∧ k' ≤ k + 1 ∧ rotate id (1 + o) ∈ (run.state k').taken := by
  obtain ⟨k', hlo, hhi, hin⟩ := h.used o ho
  exact ⟨k', hlo, Nat.le_succ_of_le hhi, hin⟩

variable {first : State n → Prop} {run : Run first Step} {i k d : Nat} {id : Fin n}

theorem passed_step (hk : i < k) (h : Passed run i id k d) :
    ∃ d', Passed run i id (k + 1) d' := by
  have hstep := run.step k
  generalize hs : run.state (k + 1) = s' at hstep
  cases hop : run.op k with
  | fail =>
    rw [hop] at hstep
    cases hstep with
    | fail all =>
      refine ⟨d, ?_, fun o ho => h.later ho⟩
      rw [hs]
      exact h.next
  | release =>
    rw [hop] at hstep
    cases hstep with
    | release =>
      refine ⟨d, ?_, fun o ho => h.later ho⟩
      rw [hs]
      exact h.next
  | take =>
    rw [hop] at hstep
    cases hstep with
    | take m passed free =>
      have hplace : ∀ q, rotate (run.state k).next q = rotate id (1 + (d + q)) := by
        intro q
        rw [h.next, rotate_rotate, Nat.add_assoc]
      refine ⟨d + (m + 1), ?_, ?_⟩
      · rw [hs]
        exact hplace (m + 1)
      · intro o ho
        by_cases hold : o < d
        · exact h.later hold
        · obtain ⟨q, rfl⟩ := Nat.exists_eq_add_of_le (Nat.le_of_not_lt hold)
          rw [← hplace]
          -- an id that is skipped is in use before the step, the one that is taken after it
          by_cases hskip : q < m
          · exact ⟨k, hk, Nat.le_succ k, passed q hskip⟩
          · obtain rfl : q = m := by omega
            refine ⟨k + 1, by omega, Nat.le_refl _, ?_⟩
            rw [hs]
            exact Set.mem_insert _ _

theorem passed_from (hi : run.op i = .take id) (hk : i < k) : ∃ d, Passed run i id k d := by
  induction hk with
  | refl =>
    have hstep := run.step i
    rw [hi] at hstep
    refine ⟨0, ?_, fun o ho => absurd ho (Nat.not_lt_zero o)⟩
    generalize run.state (i + 1) = s' at hstep
    generalize run.state i = s at hstep
    cases hstep with
    | take m => exact (rotate_rotate ..).symm
  | step hk ih =>
    obtain ⟨d, hd⟩ := ih
    exact passed_step hk hd

/-- Between two moments at which an id is taken, every other id is in use at some time. -/
theorem in_use_between {j : Nat} {other : Fin n} (hij : i < j) (hi : run.op i = .take id)
    (hj : run.op j = .take id) (hne : other ≠ id) :
    ∃ k, i < k ∧ k ≤ j ∧ other ∈ (run.state k).taken := by
  obtain ⟨d, hd⟩ := passed_from hi hij
  have hstep := run.step j
  rw [hj] at hstep
  generalize run.state (j + 1) = s' at hstep
  obtain ⟨o, ho, rfl⟩ := exists_rotate id other
  have hpos : 0 < o := by
    rw [Nat.pos_iff_ne_zero]
    rintro rfl
    exact hne (rotate_zero id)
  obtain ⟨q, rfl⟩ := Nat.exists_eq_add_of_lt hpos
  rw [Nat.zero_add, Nat.add_comm] at ho ⊢
  by_cases hold : q < d
  · exact hd.used q hold
  · obtain ⟨r, rfl⟩ := Nat.exists_eq_add_of_le (Nat.le_of_not_lt hold)
    obtain ⟨m, passed, hid⟩ := hstep.place
    rw [hd.next, rotate_rotate] at hid
    have hround : n ≤ 1 + d + m := Nat.le_of_dvd (by omega) (rotate_eq_self hid)
    have hskip := passed r (by omega)
    rw [hd.next, rotate_rotate] at hskip
    exact ⟨j, hij, Nat.le_refl j, by rwa [Nat.add_assoc] at hskip⟩

end RoundRobin
