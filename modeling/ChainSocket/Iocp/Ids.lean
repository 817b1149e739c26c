import ChainSocket.Iocp.Steps
import ChainSocket.Lib.RoundRobin

/-!
# The ids IOCPPoller.cpp gives to sessions

Runs of `initNewSession` and `closeSession` on the table.

* `idGen_eq_none_iff`: `IdGen` tries every slot but the one `curId` is at;
* `allocates_iff`: so `initNewSession` finds an empty slot exactly where there is one beside that.
-/

namespace ChainSocket.Iocp

open Effect RoundRobin

variable {n : Nat}

/-- The slots `IdGen` tries: all but that of `curId`, which for -1 is the last one. -/
def Tried (p : Iocp n) (id : Fin n) : Prop :=
  match p.curId with
  | none => (id : Nat) + 1 ≠ n
  | some c => id ≠ c

theorem rotate_ne {c id : Fin n} : id ≠ c ↔ ∃ i, 1 ≤ i ∧ i < n ∧ rotate c i = id := by
  constructor
  · intro hne
    obtain ⟨i, hi, hid⟩ := exists_rotate c id
    refine ⟨i, Nat.pos_of_ne_zero ?_, hi, hid⟩
    rintro rfl
    rw [rotate_zero] at hid
    exact hne hid.symm
  · rintro ⟨i, hpos, hi, rfl⟩ heq
    exact absurd (Nat.le_of_dvd hpos (rotate_eq_self heq)) (by omega)

/-- From -1 the ids come in the order they have behind the last one. -/
theorem nextId_none (h : 0 < n) {i : Nat} (hi : 1 ≤ i) :
    nextId h none i = rotate ⟨n - 1, Nat.sub_lt h Nat.one_pos⟩ i := by
  apply Fin.ext
  change (i - 1) % n = (n - 1 + i) % n
  have hsum : n - 1 + i = i - 1 + n := by omega
  rw [hsum, Nat.add_mod_right]

theorem tried_iff (h : 0 < n) {p : Iocp n} {id : Fin n} :
    p.Tried id ↔ ∃ i, 1 ≤ i ∧ i < n ∧ nextId h p.curId i = id := by
  unfold Tried
  cases p.curId with
  | some c => exact rotate_ne
  | none =>
    have hlast : (id : Nat) + 1 ≠ n ↔ id ≠ ⟨n - 1, Nat.sub_lt h Nat.one_pos⟩ := by
      rw [Ne, Ne, Fin.ext_iff]
      dsimp only
      omega
    dsimp only
    rw [hlast, rotate_ne]
    constructor
    · rintro ⟨i, hpos, hi, hid⟩
      exact ⟨i, hpos, hi, by rw [nextId_none h hpos, hid]⟩
    · rintro ⟨i, hpos, hi, hid⟩
      exact ⟨i, hpos, hi, by rw [← nextId_none h hpos, hid]⟩

theorem idGen_eq_none_iff (h : 0 < n) {p : Iocp n} :
    p.idGen = none ↔ ∀ id, p.Tried id → p.sessions id ≠ none := by
  unfold idGen
  rw [dif_pos h]
  simp only [List.find?_eq_none, List.mem_map, List.mem_range'_1, Option.isNone_iff_eq_none]
  constructor
  · intro hall id htried
    obtain ⟨i, hpos, hi, hid⟩ := (tried_iff h).1 htried
    exact hall id ⟨i, ⟨hpos, by omega⟩, hid⟩
  · rintro hall id ⟨i, ⟨hpos, hi⟩, hid⟩
    exact hall id ((tried_iff h).2 ⟨i, hpos, by omega, hid⟩)

/-! ## Runs -/

/-- The calls that open and close sessions. -/
inductive TableCall (n : Nat) where
  | initNewSession (fd : Nat) (type : SessionType) (creation : Creation)
  | closeSession (id : Fin n) (type : CloseType)

def exec : TableCall n → IocpM n Unit
  | .initNewSession fd type creation => do
    let _ ← initNewSession fd type creation
    return
  | .closeSession id type => closeSession id type

/-- A run goes on with `curId` -1 where the session is stored in front of the table. -/
def CallStep (call : TableCall n) (p p' : Iocp n) : Prop := p' = final ((exec call).run p)

abbrev TableRun (n : Nat) := Run (fun p : Iocp n => 0 < n ∧ p = init) CallStep

def afterCalls (calls : Nat → TableCall n) : Nat → Iocp n
  | 0 => init
  | t + 1 => final ((exec (calls t)).run (afterCalls calls t))

def TableRun.of (h : 0 < n) (calls : Nat → TableCall n) : TableRun n where
  state := afterCalls calls
  op := calls
  init := ⟨h, rfl⟩
  step _ := rfl

/-- A session in an empty slot wherever there is one, and else none and an unchanged table. -/
def Allocates (p : Iocp n) (fd : Nat) (type : SessionType) (creation : Creation) : Prop :=
  ((∃ id, p.sessions id = none) → ∃ id p',
    (initNewSession fd type creation).run p = .ok (some id) p' ∧ p.sessions id = none ∧
      p'.sessions =
        Function.update p.sessions id (some (.create id fd type p.births creation.mem))) ∧
  ((∀ id, p.sessions id ≠ none) → ∃ p',
    (initNewSession fd type creation).run p = .ok none p' ∧ p'.sessions = p.sessions)

variable {fd : Nat} {type : SessionType} {creation : Creation}

theorem allocates_iff (h : 0 < n) (p : Iocp n) :
    p.Allocates fd type creation ↔
      creation.port = true ∧ ∃ id, p.Tried id ∧ p.sessions id = none := by
  cases hgen : p.idGen with
  | none =>
    have hall := (idGen_eq_none_iff h).1 hgen
    constructor
    · rintro ⟨hroom, hfull⟩
      exfalso
      by_cases hempty : ∃ id, p.sessions id = none
      · obtain ⟨id, p', hrun, -⟩ := hroom hempty
        rw [initNewSession_none hgen] at hrun
        cases hrun
      · obtain ⟨p', hrun, -⟩ := hfull (fun id hid => hempty ⟨id, hid⟩)
        rw [initNewSession_none hgen] at hrun
        cases hrun
    · rintro ⟨-, id, htried, hid⟩
      exact absurd hid (hall id htried)
  | some id =>
    have hvacant := idGen_vacant hgen
    have htried : ∃ id, p.Tried id ∧ p.sessions id = none := by
      by_contra hnone
      have : p.idGen = none := (idGen_eq_none_iff h).2 fun i hi hs => hnone ⟨i, hi, hs⟩
      rw [hgen] at this
      cases this
    cases hport : creation.port with
    | true =>
      refine ⟨fun _ => ⟨rfl, htried⟩, fun _ => ⟨fun _ => ?_, fun hall => ?_⟩⟩
      · exact ⟨id, _, initNewSession_port hgen hport, hvacant, rfl⟩
      · exact absurd hvacant (hall id)
    | false =>
      constructor
      · rintro ⟨hroom, -⟩
        obtain ⟨id', p', hrun, -⟩ := hroom ⟨id, hvacant⟩
        rw [initNewSession_noPort hgen hport] at hrun
        cases hrun
      · rintro ⟨hport', -⟩
        cases hport'

/-- At every point of every run, a call of `initNewSession` does what its callers test for exactly
where the completion port takes the socket and a slot beside that of `curId` is empty. -/
theorem run_allocates_iff (run : TableRun n) (t fd : Nat) (type : SessionType)
    (creation : Creation) : (run.state t).Allocates fd type creation ↔
      creation.port = true ∧
        ∃ id, (run.state t).Tried id ∧ (run.state t).sessions id = none :=
  allocates_iff run.init.1 (run.state t)

/-- Two sessions are opened, the second one closed, and a third one opened. -/
def reopen : Nat → TableCall 2
  | 2 => .closeSession 1 .readError2
  | _ => .initNewSession 5 .accept ⟨⟨true, fun _ => 0⟩, true⟩

/-- Slot 1 is empty, and the session is stored in front of the table. -/
theorem reopen_fails : ¬ ∀ (n : Nat) (run : TableRun n) (t fd : Nat) (type : SessionType)
    (creation : Creation), run.op t = .initNewSession fd type creation →
      (run.state t).Allocates fd type creation := by
  intro h
  have hempty : ((TableRun.of Nat.two_pos reopen).state 3).sessions 1 = none :=
    Option.isNone_iff_eq_none.1 (by decide +kernel)
  have hgen : ((TableRun.of Nat.two_pos reopen).state 3).idGen = none := by decide +kernel
  obtain ⟨id, p', hrun, -⟩ :=
    (h 2 (TableRun.of Nat.two_pos reopen) 3 5 .accept ⟨⟨true, fun _ => 0⟩, true⟩ rfl).1
      ⟨1, hempty⟩
  rw [initNewSession_none hgen] at hrun
  cases hrun

end ChainSocket.Iocp
