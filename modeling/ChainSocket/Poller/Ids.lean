import ChainSocket.Poller.Steps
import ChainSocket.Lib.RoundRobin

/-!
# The ids Poller.cpp gives to sessions

Runs of `initNewSession` and `closeSession` on the table.

* `findSlot_spec`: the search stops at the first empty slot from `curId` on;
* `exec_takes`: with `curId` and the slots in use, `Poller` allocates round robin;
* `session_table`: what holds of the table and of the ids on every run.
-/

namespace ChainSocket.Poller

open Effect RoundRobin

variable {n : Nat}

/-! ## The search -/

theorem findSlot_spec (sessions : Fin n → Option Session) (c : Fin n) (k : Nat) :
    (∃ m < k, (∀ j < m, sessions (rotate c j) ≠ none) ∧ sessions (rotate c m) = none ∧
      findSlot sessions c k = (rotate c (m + 1), some (rotate c m))) ∨
    ((∀ j < k, sessions (rotate c j) ≠ none) ∧ findSlot sessions c k = (rotate c k, none)) := by
  induction k generalizing c with
  | zero =>
    refine .inr ⟨fun j hj => absurd hj (Nat.not_lt_zero j), ?_⟩
    rw [rotate_zero]
    rfl
  | succ k ih =>
    have hnext : (⟨(c + 1) % n, Nat.mod_lt _ c.pos⟩ : Fin n) = rotate c 1 := rfl
    have hrotate : ∀ j, rotate (rotate c 1) j = rotate c (j + 1) := by
      intro j
      rw [rotate_rotate, Nat.add_comm]
    unfold findSlot
    dsimp only
    rw [hnext]
    cases hs : sessions c with
    | none =>
      refine .inl ⟨0, by omega, fun j hj => absurd hj (Nat.not_lt_zero j), ?_, ?_⟩
      · rwa [rotate_zero]
      · rw [rotate_zero]
    | some s =>
      have hskip : ∀ m, (∀ j < m, sessions (rotate (rotate c 1) j) ≠ none) →
          ∀ j < m + 1, sessions (rotate c j) ≠ none := by
        intro m hpassed j hj
        cases j with
        | zero => simp [hs]
        | succ j =>
          rw [← hrotate]
          exact hpassed j (by omega)
      rcases ih (rotate c 1) with ⟨m, hm, hpassed, hfree, hfind⟩ | ⟨hpassed, hfind⟩
      · refine .inl ⟨m + 1, by omega, hskip m hpassed, ?_, ?_⟩
        · rwa [← hrotate]
        · dsimp only
          rw [hfind, hrotate, hrotate]
      · refine .inr ⟨hskip k hpassed, ?_⟩
        dsimp only
        rw [hfind, hrotate]

/-! ## The calls -/

/-- The calls that open and close sessions. -/
inductive TableCall (n : Nat) where
  | initNewSession (fd : Nat) (type : SessionType) (mem : Alloc)
  | closeSession (id : Fin n) (type : CloseType)

/-- The id of the session a call answers with. -/
def exec : TableCall n → PollerM n (Option (Fin n))
  | .initNewSession fd type mem => initNewSession fd type mem
  | .closeSession id type => do
    closeSession id type
    return none

/-- `initNewSession` takes the first empty slot from `curId` on; it fails where there is none. -/
theorem initNewSession_cases (p : Poller n) (fd : Nat) (type : SessionType) (mem : Alloc) :
    (∃ m, (∀ j < m, p.sessions (rotate p.curId j) ≠ none) ∧
      p.sessions (rotate p.curId m) = none ∧
      (initNewSession fd type mem).run p = .ok (some (rotate p.curId m))
        { p with
          toTable := p.toTable.create (rotate p.curId m) fd type mem
          curId := rotate p.curId (m + 1) }) ∨
    ((∀ id, p.sessions id ≠ none) ∧ (initNewSession fd type mem).run p = .ok none p) := by
  rcases findSlot_spec p.sessions p.curId n with ⟨m, -, hpassed, hfree, hfind⟩ | ⟨hall, hfind⟩
  · refine .inl ⟨m, hpassed, hfree, ?_⟩
    change initNewSession fd type mem p = _
    simp only [initNewSession, hfind]
  · refine .inr ⟨?_, ?_⟩
    · intro id
      obtain ⟨j, hj, rfl⟩ := exists_rotate p.curId id
      exact hall j hj
    · change initNewSession fd type mem p = _
      simp only [initNewSession, hfind, rotate_all]

theorem closeSession_sessions {p p' : Poller n} {id : Fin n} {type : CloseType}
    (h : (closeSession id type).run p = .ok () p') :
    p'.sessions = Function.update p.sessions id none ∧ p'.births = p.births ∧
      p'.curId = p.curId := by
  change EStateM.Result.ok _ _ = _ at h
  injection h with _ hp
  subst hp
  dsimp only
  cases hs : p.sessions id with
  | none =>
    have hself : Function.update p.sessions id none = p.sessions :=
      Function.update_eq_self_iff.2 hs.symm
    exact ⟨hself.symm, rfl, rfl⟩
  | some conn => exact ⟨rfl, rfl, rfl⟩

/-- A call, and the id it has answered. -/
def CallStep (op : TableCall n × Option (Fin n)) (p p' : Poller n) : Prop :=
  (exec op.1).run p = .ok op.2 p'

abbrev TableRun (n : Nat) := Run (fun p : Poller n => ∃ h, p = init h) CallStep

/-- Every call returns. -/
theorem exec_returns (call : TableCall n) (p : Poller n) :
    (exec call).run p = .ok ((answer? ((exec call).run p)).join) (final ((exec call).run p)) := by
  cases call with
  | initNewSession fd type mem =>
    change (initNewSession fd type mem).run p = _
    rcases initNewSession_cases p fd type mem with ⟨m, -, -, hrun⟩ | ⟨-, hrun⟩
    · simp only [exec, hrun, answer?, final, Option.join_some]
    · simp only [exec, hrun, answer?, final, Option.join_some]
  | closeSession id type => rfl

def afterCalls (h : 0 < n) (calls : Nat → TableCall n) : Nat → Poller n
  | 0 => init h
  | t + 1 => final ((exec (calls t)).run (afterCalls h calls t))

/-- Whatever the calls are, there is a run of them. -/
def TableRun.of (h : 0 < n) (calls : Nat → TableCall n) : TableRun n where
  state := afterCalls h calls
  op t := (calls t, (answer? ((exec (calls t)).run (afterCalls h calls t))).join)
  init := ⟨h, rfl⟩
  step t := exec_returns (calls t) (afterCalls h calls t)

/-! ## Round robin -/

/-- What is left of the state for the allocation of ids. -/
def ids (p : Poller n) : RoundRobin.State n := ⟨p.curId, {id | p.sessions id ≠ none}⟩

def idOp : TableCall n × Option (Fin n) → RoundRobin.Op n
  | (.initNewSession _ _ _, some id) => .take id
  | (.initNewSession _ _ _, none) => .fail
  | (.closeSession id _, _) => .release id

theorem exec_takes {op : TableCall n × Option (Fin n)} {p p' : Poller n}
    (h : CallStep op p p') : RoundRobin.Step (idOp op) p.ids p'.ids := by
  obtain ⟨call, answer⟩ := op
  cases call with
  | initNewSession fd type mem =>
    change (initNewSession fd type mem).run p = .ok answer p' at h
    rcases initNewSession_cases p fd type mem with ⟨m, hpassed, hfree, hrun⟩ | ⟨hall, hrun⟩
    · rw [hrun] at h
      cases h
      have hids : (ids { p with
          toTable := p.toTable.create (rotate p.curId m) fd type mem
          curId := rotate p.curId (m + 1) }) =
          ⟨rotate p.curId (m + 1), insert (rotate p.curId m) p.ids.taken⟩ := by
        unfold ids
        congr 1
        ext i
        simp only [Set.mem_ofPred_eq, Table.sessions_create, Set.mem_insert_iff]
        split_ifs with hi <;> simp [hi]
      rw [hids]
      exact .take (s := p.ids) m hpassed (fun hin => hin hfree)
    · rw [hrun] at h
      cases h
      exact .fail hall
  | closeSession id type =>
    obtain ⟨_, p₁, hclose, hret⟩ := run_bind_inv h
    cases hret
    obtain ⟨hsessions, -, hcur⟩ := closeSession_sessions hclose
    have hids : p'.ids = ⟨p.ids.next, p.ids.taken \ {id}⟩ := by
      unfold ids
      rw [hcur, hsessions]
      congr 1
      ext i
      simp only [Function.update_apply, Set.mem_ofPred_eq, Set.mem_sdiff, Set.mem_singleton_iff]
      split_ifs with hi <;> simp [hi]
    rw [hids]
    exact .release id

/-- A run of the calls, as a run of the allocation. -/
def TableRun.allocation (run : TableRun n) :
    Run (fun s : RoundRobin.State n => s.taken = ∅) RoundRobin.Step where
  state t := (run.state t).ids
  op t := idOp (run.op t)
  init := by
    obtain ⟨h, hp⟩ := run.init
    rw [hp]
    exact Set.eq_empty_of_forall_notMem fun id hid => hid rfl
  step t := exec_takes (run.step t)

/-! ## The table -/

/-- Every session has the id of its slot and a birth of its own. -/
structure Ids (p : Poller n) : Prop where
  sessionId : ∀ id s, p.sessions id = some s → s.sessionId = id
  born : ∀ id s, p.sessions id = some s → s.birth < p.births
  distinct : ∀ i j s s', p.sessions i = some s → p.sessions j = some s' → s.birth = s'.birth →
    i = j

theorem init_ids (h : 0 < n) : (init h).Ids := by
  constructor
  · intro id s hs
    cases hs
  · intro id s hs
    cases hs
  · intro i j s s' hs
    cases hs

theorem create_ids {p p' : Poller n} {id : Fin n} {fd : Nat} {type : SessionType} {mem : Alloc}
    (hp : p.Ids) (ht : p'.toTable = p.toTable.create id fd type mem) : p'.Ids := by
  have hbirths : p'.births = p.births + 1 := by rw [ht]; rfl
  have hold : ∀ i u, p'.sessions i = some u →
      (i = id ∧ u = .create id fd type p.births mem) ∨ (i ≠ id ∧ p.sessions i = some u) := by
    intro i u hu
    rw [ht] at hu
    exact Table.create_old hu
  constructor
  · intro i u hu
    rcases hold i u hu with ⟨rfl, rfl⟩ | ⟨-, hs⟩
    · rfl
    · exact hp.sessionId i u hs
  · intro i u hu
    rw [hbirths]
    rcases hold i u hu with ⟨-, rfl⟩ | ⟨-, hs⟩
    · exact Nat.lt_succ_self _
    · exact Nat.lt_succ_of_lt (hp.born i u hs)
  · intro i j u u' hu hu' heq
    rcases hold i u hu with ⟨rfl, rfl⟩ | ⟨-, hs⟩ <;>
      rcases hold j u' hu' with ⟨rfl, rfl⟩ | ⟨-, hs'⟩
    · rfl
    · exact absurd heq.symm (Nat.ne_of_lt (hp.born j u' hs'))
    · exact absurd heq (Nat.ne_of_lt (hp.born i u hs))
    · exact hp.distinct i j u u' hs hs' heq

theorem call_ids {op : TableCall n × Option (Fin n)} {p p' : Poller n} (h : CallStep op p p')
    (hp : p.Ids) : p'.Ids := by
  obtain ⟨call, answer⟩ := op
  cases call with
  | initNewSession fd type mem =>
    change (initNewSession fd type mem).run p = .ok answer p' at h
    rcases initNewSession_cases p fd type mem with ⟨m, -, -, hrun⟩ | ⟨-, hrun⟩ <;>
      rw [hrun] at h <;> cases h
    · exact create_ids hp rfl
    · exact hp
  | closeSession id type =>
    obtain ⟨_, p₁, hclose, hret⟩ := run_bind_inv h
    cases hret
    obtain ⟨hsessions, hbirths, -⟩ := closeSession_sessions hclose
    have hold : ∀ i u, p'.sessions i = some u → p.sessions i = some u := by
      intro i u hu
      rw [hsessions, Function.update_apply] at hu
      split_ifs at hu
      exact hu
    constructor
    · intro i u hu
      exact hp.sessionId i u (hold i u hu)
    · intro i u hu
      rw [hbirths]
      exact hp.born i u (hold i u hu)
    · intro i j u u' hu hu'
      exact hp.distinct i j u u' (hold i u hu) (hold j u' hu')

theorem TableRun.ids (run : TableRun n) (t : Nat) : (run.state t).Ids := by
  refine run.invariant ?_ (fun _ _ _ => call_ids) t
  rintro p ⟨h, rfl⟩
  exact init_ids h

/-- `initNewSession` answers with no session exactly where every slot is taken, and then changes
nothing; else it fills one empty slot. -/
theorem initNewSession_slots {p p' : Poller n} {fd : Nat} {type : SessionType} {mem : Alloc}
    {answer : Option (Fin n)} (h : (initNewSession fd type mem).run p = .ok answer p') :
    (answer = none ↔ ∀ id, p.sessions id ≠ none) ∧
    (answer = none → p'.sessions = p.sessions ∧ p'.curId = p.curId) ∧
    ∀ id, answer = some id → p.sessions id = none ∧ p'.sessions =
      Function.update p.sessions id (some (.create id fd type p.births mem)) := by
  rcases initNewSession_cases p fd type mem with ⟨m, -, hfree, hrun⟩ | ⟨hall, hrun⟩ <;>
    rw [hrun] at h
  · injection h with hanswer hp
    subst hanswer hp
    refine ⟨⟨fun hnone => ?_, fun hall => absurd hfree (hall _)⟩, fun hnone => ?_, ?_⟩
    · cases hnone
    · cases hnone
    · intro id hid
      cases hid
      exact ⟨hfree, rfl⟩
  · injection h with hanswer hp
    subst hanswer hp
    refine ⟨⟨fun _ => hall, fun _ => rfl⟩, fun _ => ⟨rfl, rfl⟩, ?_⟩
    intro id hid
    cases hid

/-- On every run of calls from the empty table. -/
theorem session_table (run : TableRun n) :
    (∀ t, ((run.state t).curId : Nat) < n) ∧
    (∀ t id s, (run.state t).sessions id = some s → s.sessionId = id) ∧
    (∀ t i j s s', (run.state t).sessions i = some s → (run.state t).sessions j = some s' →
      i ≠ j → s.birth ≠ s'.birth) ∧
    (∀ t fd type mem answer, run.op t = (.initNewSession fd type mem, answer) →
      (answer = none ↔ ∀ id, (run.state t).sessions id ≠ none) ∧
      (answer = none → (run.state (t + 1)).sessions = (run.state t).sessions ∧
        (run.state (t + 1)).curId = (run.state t).curId) ∧
      ∀ id, answer = some id → (run.state t).sessions id = none ∧
        (run.state (t + 1)).sessions = Function.update (run.state t).sessions id
          (some (.create id fd type (run.state t).births mem))) ∧
    (∀ t id type answer, run.op t = (.closeSession id type, answer) →
      (run.state (t + 1)).sessions = Function.update (run.state t).sessions id none) ∧
    ∀ i j fd type mem fd' type' mem' id other, i < j →
      run.op i = (.initNewSession fd type mem, some id) →
      run.op j = (.initNewSession fd' type' mem', some id) → other ≠ id →
      ∃ k, i < k ∧ k ≤ j ∧ (run.state k).sessions other ≠ none := by
  refine ⟨fun t => (run.state t).curId.isLt, fun t => (run.ids t).sessionId, ?_, ?_, ?_, ?_⟩
  · intro t i j s s' hs hs' hne heq
    exact hne ((run.ids t).distinct i j s s' hs hs' heq)
  · intro t fd type mem answer hop
    have hstep := run.step t
    rw [hop] at hstep
    exact initNewSession_slots hstep
  · intro t id type answer hop
    have hstep := run.step t
    rw [hop] at hstep
    obtain ⟨_, p₁, hclose, hret⟩ := run_bind_inv hstep
    cases hret
    exact (closeSession_sessions hclose).1
  · intro i j fd type mem fd' type' mem' id other hij hi hj hne
    have htake : ∀ t fd type mem, run.op t = (.initNewSession fd type mem, some id) →
        run.allocation.op t = .take id := by
      intro t fd type mem hop
      change idOp (run.op t) = _
      rw [hop]
      rfl
    exact in_use_between hij (htake i _ _ _ hi) (htake j _ _ _ hj) hne

/-- Both slots are filled, and the first one again once it is empty. -/
def refill : Nat → TableCall 2
  | 2 => .closeSession ⟨0, Nat.two_pos⟩ .readError2
  | _ => .initNewSession 5 .accept ⟨true, fun _ => 0⟩

theorem session_table_refill : ∃ k, 0 < k ∧ k ≤ 3 ∧
    ((TableRun.of Nat.two_pos refill).state k).sessions 1 ≠ none := by
  obtain ⟨-, -, -, -, -, hreuse⟩ := session_table (TableRun.of Nat.two_pos refill)
  have hop : ∀ t, t = 0 ∨ t = 3 → (TableRun.of Nat.two_pos refill).op t =
      (.initNewSession 5 .accept ⟨true, fun _ => 0⟩, some 0) := by
    rintro t (rfl | rfl)
    · exact Prod.ext rfl (by decide)
    · exact Prod.ext rfl (by decide)
  exact hreuse 0 3 _ _ _ _ _ _ 0 1 (by decide) (hop 0 (.inl rfl)) (hop 3 (.inr rfl)) (by decide)

end ChainSocket.Poller
