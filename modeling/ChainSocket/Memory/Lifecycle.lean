import ChainSocket.Memory.Calls

/-!
# The life cycle of sessions

Runs of the calls that make, use and close sessions.

* `PollerMemory.reset_unstored`: `Poller.cpp` frees what it has not stored;
* `IocpMemory.step_kept`: `IOCPPoller.cpp` frees only what it has stored, and no session's own
  memory;
* `lifecycle_balanced_iff`: so the life cycle is balanced only where there is none.
-/

namespace ChainSocket

open Effect Memory

/-! ## Poller.cpp -/

namespace PollerMemory

open Ledgered

variable {n : Nat}

/-- The first thing done with the memory of a session is to call what has been left there, or to
free it. -/
theorem reset_unstored {h : Heap} {mem : Alloc} {garbage : Pointer → Option Nat}
    (hlog : h.log = []) (owner : Nat) :
    ¬ Log.InOrder Entry.Stored ((h.create owner garbage).reset owner mem).log := by
  intro horder
  have hnew : (h.create owner garbage).log =
      [.malloc owner h.next, .store owner .self (some h.next)] := by
    unfold Heap.create
    rw [Heap.log_xmalloc]
    simp [hlog]
  have hmoves := (Heap.destroy_rest (h.create owner garbage) owner).trans
    (Heap.init_writes _ owner mem).moves
  have hfirst := horder.of_prefix (Heap.Moves.grows hmoves)
  unfold Heap.destroyUserData at hfirst
  split_ifs at hfirst
  · have hcalled : (Entry.destroy owner _ _).Stored (h.create owner garbage).log :=
      Log.InOrder.last (hfirst.of_prefix (List.prefix_append ..))
    simp [Entry.Stored, hnew] at hcalled
  · have hfreed : (Entry.free owner .readBuffer _).Stored (h.create owner garbage).log :=
      Log.InOrder.last hfirst
    simp [Entry.Stored, hnew] at hfreed

theorem exec_grows (c : LifeCall n Alloc) (p : Ledgered (Poller n)) :
    p.heap.log <+: (final ((exec c).run p)).heap.log := by
  cases c with
  | use id u => exact use_grows Poller.table p id u
  | closeSession id type =>
    change _ <+: (final ((closeSession id type).run p)).heap.log
    cases hs : p.core.sessions id with
    | none => simp [closeSession_none hs, final]
    | some conn => simp [closeSession_some hs, final, Heap.xfree, Heap.record]
  | initNewSession fd type mem garbage =>
    change _ <+: (final ((initNewSession fd type mem garbage).run p)).heap.log
    rcases Poller.initNewSession_cases p.core fd type mem with ⟨m, -, -, hrun⟩ | ⟨-, hrun⟩
    · rw [initNewSession_run hrun]
      exact (Heap.create_grows ..).trans (Heap.Moves.grows (Heap.reset_moves ..))
    · rw [initNewSession_run hrun]
      exact List.prefix_rfl

theorem runAll_grows (cs : List (LifeCall n Alloc)) (p : Ledgered (Poller n)) :
    p.heap.log <+: (final ((runAll exec cs).run p)).heap.log :=
  runAll_keeps (P := fun q => p.heap.log <+: q.heap.log) (fun c q hq => hq.trans (exec_grows c q))
    cs List.prefix_rfl

/-- On a table without sessions. -/
theorem runAll_balanced_iff {p : Ledgered (Poller n)} (hnone : ∀ id, p.core.sessions id = none)
    (hlog : p.heap.log = []) (cs : List (LifeCall n Alloc)) :
    Balanced (final ((runAll exec cs).run p)).heap.log ↔ ∀ c ∈ cs, ¬ c.Creates := by
  induction cs with
  | nil =>
    have hempty : Balanced p.heap.log := by
      rw [hlog]
      exact ⟨nofun, .nil, nofun⟩
    exact iff_of_true hempty nofun
  | cons c cs ih =>
    have hskip (hrun : (exec c).run p = .ok () p) (hc : ¬ c.Creates) :
        Balanced (final ((runAll exec (c :: cs)).run p)).heap.log ↔ ∀ d ∈ c :: cs, ¬ d.Creates := by
      rw [runAll_cons_ok cs hrun, ih]
      simp [hc]
    cases c with
    | use id u => exact hskip (use_none Poller.table (hnone id) u) nofun
    | closeSession id type => exact hskip (closeSession_none (hnone id)) nofun
    | initNewSession fd type mem garbage =>
      refine iff_of_false ?_ fun hall => hall _ List.mem_cons_self trivial
      intro hbalanced
      rcases Poller.initNewSession_cases p.core fd type mem with ⟨m, -, -, hrun⟩ | ⟨hfull, -⟩
      · obtain ⟨p', hexec, hheap⟩ : ∃ p', (exec (.initNewSession fd type mem garbage)).run p =
            .ok () p' ∧ p'.heap = (p.heap.create p.core.births garbage).reset p.core.births mem :=
          ⟨_, initNewSession_run hrun, rfl⟩
        have hgrows := runAll_grows cs p'
        rw [runAll_cons_ok cs hexec] at hbalanced
        rw [hheap] at hgrows
        exact reset_unstored hlog _ (hbalanced.stored.of_prefix hgrows)
      · exact hfull p.core.curId (hnone _)

end PollerMemory

/-! ## IOCPPoller.cpp -/

namespace IocpMemory

open Ledgered

variable {n : Nat}

/-- The books are kept, and every session that is open, or has been closed, is in them. -/
structure Kept (p : Ledgered (Iocp n)) : Prop where
  books : p.heap.Books
  closed : ∀ owner, .closed owner ∈ p.heap.log → p.heap.Created owner
  held : ∀ id conn, p.core.sessions id = some conn → p.heap.Held conn.birth
  born : ∀ id conn, p.core.sessions id = some conn → conn.birth < p.core.births

theorem start_kept : Kept (start (Iocp.init : Iocp n)) :=
  ⟨Heap.empty_books, nofun, nofun, nofun⟩

namespace Kept

variable {p : Ledgered (Iocp n)} (hp : Kept p)

include hp

theorem use {id : Fin n} {conn s' : Session} {h' : Heap} (filled : p.core.sessions id = some conn)
    (birth : s'.birth = conn.birth) (moves : Heap.Moves conn.birth p.heap h') :
    Kept ⟨{ p.core with toTable := p.core.toTable.put id s' }, h'⟩ := by
  have hold : ∀ i u, (p.core.toTable.put id s').sessions i = some u →
      ∃ v, p.core.sessions i = some v ∧ u.birth = v.birth := by
    intro i u hu
    rw [Table.sessions_put] at hu
    split_ifs at hu with hi
    · cases hu
      exact ⟨conn, hi ▸ filled, birth⟩
    · exact ⟨u, hu, rfl⟩
  constructor
  · exact moves.books (hp.held id conn filled).known hp.books
  · intro owner hclosed
    exact (hp.closed owner (moves.closed_iff.1 hclosed)).grows moves.grows
  · intro i u hu
    obtain ⟨v, hv, hbirth⟩ := hold i u hu
    exact hbirth ▸ (hp.held i v hv).moves moves
  · intro i u hu
    obtain ⟨v, hv, hbirth⟩ := hold i u hu
    exact hbirth ▸ hp.born i v hv

theorem close {id : Fin n} {conn : Session} (filled : p.core.sessions id = some conn) :
    Kept ⟨{ p.core with toTable := p.core.toTable.remove id conn.fd },
      (((p.heap.iocpDestroy conn.birth).clear conn.birth).iocpDestroy conn.birth).record
        (.closed conn.birth)⟩ := by
  have hmoves := Heap.close_moves p.heap conn.birth
  have hheld := hp.held id conn filled
  constructor
  · exact (Heap.Moves.books hmoves hheld.known hp.books).close conn.birth
  · intro owner hclosed
    rcases List.mem_append.1 hclosed with hold | hnew
    · have hbefore := hp.closed owner ((Heap.Moves.closed_iff hmoves).1 hold)
      exact (hbefore.grows (Heap.Moves.grows hmoves)).grows (List.prefix_append ..)
    · cases List.mem_singleton.1 hnew
      exact ((hheld.moves hmoves).record _).created
  · intro i u hu
    exact ((hp.held i u (Table.remove_old hu).2).moves hmoves).record _
  · intro i u hu
    exact hp.born i u (Table.remove_old hu).2

/-- A session is made; where it finds no slot, it is stored in front of the table. -/
theorem create {q : Iocp n} {fd : Nat} {type : SessionType} {mem : Alloc}
    (table : q.toTable = p.core.toTable ∨ ∃ id, q.toTable = p.core.toTable.create id fd type mem)
    (garbage : Pointer → Option Nat) :
    Kept ⟨q, (p.heap.create p.core.births garbage).iocpInit p.core.births mem⟩ := by
  have hwrites := Heap.iocpInit_writes (p.heap.create p.core.births garbage) p.core.births mem
  have hgrows := (Heap.create_grows p.heap p.core.births garbage).trans
    (Heap.Moves.grows hwrites.moves)
  have hold : ∀ i u, p.core.sessions i = some u →
      ((p.heap.create p.core.births garbage).iocpInit p.core.births mem).Held u.birth := by
    intro i u hu
    exact ((hp.held i u hu).create (hp.born i u hu).ne garbage).moves hwrites.moves
  constructor
  · exact hwrites.books (hp.books.create p.core.births garbage)
  · intro owner hclosed
    have hbefore := Heap.create_closed_iff.1 ((Heap.Moves.closed_iff hwrites.moves).1 hclosed)
    exact (hp.closed owner hbefore).grows hgrows
  · intro i u hu
    rcases table with hq | ⟨id, hq⟩
    · exact hold i u (by rwa [hq] at hu)
    · rw [hq] at hu
      rcases Table.create_old hu with ⟨-, rfl⟩ | ⟨-, hu⟩
      · exact Heap.iocpInit_held ..
      · exact hold i u hu
  · intro i u hu
    rcases table with hq | ⟨id, hq⟩
    · simp only [hq] at hu ⊢
      exact hp.born i u hu
    · simp only [hq] at hu ⊢
      rcases Table.create_old hu with ⟨-, rfl⟩ | ⟨-, hu⟩
      · exact Nat.lt_succ_self _
      · exact (hp.born i u hu).trans (Nat.lt_succ_self _)

end Kept

theorem step_kept {p p' : Ledgered (Iocp n)} {c : LifeCall n Creation} (h : Step p c p')
    (hp : Kept p) : Kept p' := by
  cases h with
  | skip => exact hp
  | use filled birth moves _ => exact hp.use filled birth moves
  | close filled => exact hp.close filled
  | create table => exact hp.create table _

theorem kept_balanced_iff {p : Ledgered (Iocp n)} (hp : Kept p) :
    Balanced p.heap.log ↔ ∀ owner, .closed owner ∉ p.heap.log :=
  ⟨fun hbalanced owner hclosed => hp.books.unbalanced (hp.closed owner hclosed) hclosed hbalanced,
    hp.books.balanced⟩

theorem step_closed_iff {p p' : Ledgered (Iocp n)} {c : LifeCall n Creation} (h : Step p c p') :
    (∀ owner, .closed owner ∉ p'.heap.log) ↔
      Spares c p ∧ ∀ owner, .closed owner ∉ p.heap.log := by
  cases h with
  | skip spares => simp [spares]
  | @create fd type creation garbage =>
    have hmoves := (Heap.iocpInit_writes (p.heap.create p.core.births garbage) p.core.births
      creation.mem).moves
    simp only [Heap.Moves.closed_iff hmoves, Heap.create_closed_iff, Spares, true_and]
  | use _ _ moves _ => simp only [moves.closed_iff, Spares, true_and]
  | @close id type conn filled =>
    refine iff_of_false (fun h => h conn.birth (by simp [Heap.record])) ?_
    rintro ⟨hspares, -⟩
    exact absurd (filled.symm.trans hspares) (Option.some_ne_none conn)

/-- No call of the run closes a session. -/
def SparesAll : List (LifeCall n Creation) → Ledgered (Iocp n) → Prop
  | [], _ => True
  | c :: cs, p => Spares c p ∧ ∀ p', (exec c).run p = .ok () p' → SparesAll cs p'

theorem runAll_balanced_iff {p : Ledgered (Iocp n)} (hp : Kept p)
    (cs : List (LifeCall n Creation)) : Balanced (final ((runAll exec cs).run p)).heap.log ↔
      SparesAll cs p ∧ ∀ owner, .closed owner ∉ p.heap.log := by
  induction cs generalizing p with
  | nil => exact (kept_balanced_iff hp).trans (true_and _).symm.to_iff
  | cons c cs ih =>
    have hstep := exec_step c p
    have hkept := step_kept hstep hp
    have hclosed := step_closed_iff hstep
    unfold SparesAll
    cases hrun : (exec c).run p with
    | ok a p' =>
      rw [hrun] at hkept hclosed
      rw [runAll_cons_ok cs hrun, ih (p := p') hkept]
      change _ ∧ (∀ owner, .closed owner ∉ p'.heap.log) ↔ _
      change (∀ owner, .closed owner ∉ p'.heap.log) ↔ _ at hclosed
      rw [hclosed]
      constructor
      · rintro ⟨hrest, hspares, hopen⟩
        refine ⟨⟨hspares, ?_⟩, hopen⟩
        intro q hq
        cases hq
        exact hrest
      · rintro ⟨⟨hspares, hrest⟩, hopen⟩
        exact ⟨hrest p' rfl, hspares, hopen⟩
    | error e p' =>
      rw [hrun] at hkept hclosed
      rw [runAll_cons_error cs hrun]
      refine (kept_balanced_iff hkept).trans (hclosed.trans ?_)
      simp

end IocpMemory

/-! ## Both pollers -/

/-- On every run, the life cycle of the sessions of `Poller.cpp` is balanced exactly where none is
made, and that of the sessions of `IOCPPoller.cpp` exactly where none is closed. -/
theorem lifecycle_balanced_iff {n m : Nat} (cs : List (LifeCall (n + 1) Alloc))
    (ds : List (LifeCall m Creation)) :
    (Balanced (final ((Ledgered.runAll PollerMemory.exec cs).run
        (.start (Poller.init (Nat.succ_pos n))))).heap.log ↔ ∀ c ∈ cs, ¬ c.Creates) ∧
      (Balanced (final ((Ledgered.runAll IocpMemory.exec ds).run (.start Iocp.init))).heap.log ↔
        IocpMemory.SparesAll ds (.start Iocp.init)) := by
  constructor
  · exact PollerMemory.runAll_balanced_iff (fun _ => rfl) rfl cs
  · apply (IocpMemory.runAll_balanced_iff IocpMemory.start_kept ds).trans
    exact and_iff_left nofun

def freshMem : Alloc := ⟨true, fun _ => 0⟩

/-- The memory of the session holds an address where `readBuffer.buff` will be. -/
def leftover : Pointer → Option Nat
  | .readBuffer => some 9
  | _ => none

def acceptRun : List (LifeCall 1 Alloc) := [.initNewSession 5 .accept freshMem leftover]

/-- A connection is accepted, and closed. -/
def acceptCloseRun : List (LifeCall 2 Creation) :=
  [.initNewSession 5 .accept ⟨freshMem, true⟩ leftover, .closeSession ⟨0, Nat.two_pos⟩ .readError2]

/-- `Poller.cpp` frees the address that was there; `IOCPPoller.cpp` never frees the session. -/
theorem lifecycle_unbalanced :
    (¬ ∀ (n : Nat) (cs : List (LifeCall (n + 1) Alloc)),
      Balanced (final ((Ledgered.runAll PollerMemory.exec cs).run
        (.start (Poller.init (Nat.succ_pos n))))).heap.log) ∧
    ¬ ∀ (m : Nat) (ds : List (LifeCall m Creation)),
      Balanced (final ((Ledgered.runAll IocpMemory.exec ds).run (.start Iocp.init))).heap.log := by
  constructor
  · intro h
    have hstored := (h 0 acceptRun).stored
    have hfreed := hstored
      [.malloc 0 0, .store 0 .self (some 0)] (.free 0 .readBuffer (some 9))
      (List.drop 3 (final ((Ledgered.runAll PollerMemory.exec acceptRun).run
        (.start (Poller.init (Nat.succ_pos 0))))).heap.log) (by decide +kernel)
    simp [Entry.Stored] at hfreed
  · intro h
    have hone := (h 2 acceptCloseRun).freed 0 0 (by decide +kernel) (by decide +kernel)
    have hnone : (final ((Ledgered.runAll IocpMemory.exec acceptCloseRun).run
        (.start Iocp.init))).heap.log.countP (Entry.frees 0) = 0 := by
      decide +kernel
    omega

end ChainSocket
