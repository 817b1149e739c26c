import ChainSocket.Memory.Calls

/-!
# The ledger and the buffers

The ledger keeps its own pointers. On every run of either poller they are NULL exactly where the
`MessageBuffer`s of the sessions have no block.
-/

namespace ChainSocket

open Effect Memory Ledgered

variable {n : Nat} {t : Table n} {h h' : Heap} {id : Fin n}

/-- Every session has a birth of its own, and the ledger has its buffers. -/
structure Backed (t : Table n) (h : Heap) : Prop where
  born : ∀ id s, t.sessions id = some s → s.birth < t.births
  distinct : ∀ i j s s', t.sessions i = some s → t.sessions j = some s' → s.birth = s'.birth →
    i = j
  backs : ∀ id s, t.sessions id = some s → Backs h s

namespace Backed

theorem empty (h : Heap) : Backed (Table.empty : Table n) h := by
  constructor
  · intro id s hs
    cases hs
  · intro i j s s' hs
    cases hs
  · intro id s hs
    cases hs

theorem backs_frame {s : Session} (hs : Backs h s) (hframe : h'.objects s.birth = h.objects s.birth) :
    Backs h' s := by
  intro side
  rw [hframe]
  exact hs side

/-- Nothing has been done to the sessions of the table. -/
theorem frame (hb : Backed t h) (hframe : ∀ o < t.births, h'.objects o = h.objects o) :
    Backed t h' :=
  ⟨hb.born, hb.distinct, fun id s hs => backs_frame (hb.backs id s hs) (hframe _ (hb.born id s hs))⟩

theorem create (hb : Backed t h) (id : Fin n) (fd : Nat) (type : SessionType) {mem : Alloc}
    (hframe : ∀ o < t.births, h'.objects o = h.objects o)
    (hnew : ∀ side : Side, (h'.objects t.births side.pointer).isSome = mem.ok) :
    Backed (t.create id fd type mem) h' := by
  have hbuffers : Backs h' (.create id fd type t.births mem) := by
    intro side
    have hmalloc : (mem.malloc bufferSize).isSome = mem.ok := by
      unfold Alloc.malloc
      cases mem.ok <;> rfl
    cases side <;> exact (hnew _).trans hmalloc.symm
  constructor
  · intro i u hu
    rcases Table.create_old hu with ⟨-, rfl⟩ | ⟨-, hold⟩
    · exact Nat.lt_succ_self _
    · exact (hb.born i u hold).trans (Nat.lt_succ_self _)
  · intro i j u u' hu hu' heq
    rcases Table.create_old hu with ⟨hi, rfl⟩ | ⟨-, hold⟩ <;>
      rcases Table.create_old hu' with ⟨hj, rfl⟩ | ⟨-, hold'⟩
    · exact hi.trans hj.symm
    · exact absurd heq.symm (hb.born j u' hold').ne
    · exact absurd heq (hb.born i u hold).ne
    · exact hb.distinct i j u u' hold hold' heq
  · intro i u hu
    rcases Table.create_old hu with ⟨-, rfl⟩ | ⟨-, hold⟩
    · exact hbuffers
    · exact backs_frame (hb.backs i u hold) (hframe _ (hb.born i u hold))

theorem put (hb : Backed t h) {s s' : Session} (filled : t.sessions id = some s)
    (birth : s'.birth = s.birth) (hframe : ∀ o ≠ s.birth, h'.objects o = h.objects o)
    (hs : Backs h' s') : Backed (t.put id s') h' := by
  have hold : ∀ i u, (t.put id s').sessions i = some u →
      ∃ v, t.sessions i = some v ∧ u.birth = v.birth ∧ Backs h' u := by
    intro i u hu
    rw [Table.sessions_put] at hu
    split_ifs at hu with hi
    · cases hu
      exact ⟨s, hi ▸ filled, birth, hs⟩
    · have hne : u.birth ≠ s.birth := fun heq => hi (hb.distinct i id u s hu filled heq)
      exact ⟨u, hu, rfl, backs_frame (hb.backs i u hu) (hframe _ hne)⟩
  constructor
  · intro i u hu
    obtain ⟨v, hv, hbirth, -⟩ := hold i u hu
    exact hbirth ▸ hb.born i v hv
  · intro i j u u' hu hu' heq
    obtain ⟨v, hv, hbirth, -⟩ := hold i u hu
    obtain ⟨v', hv', hbirth', -⟩ := hold j u' hu'
    exact hb.distinct i j v v' hv hv' (hbirth.symm.trans (heq.trans hbirth'))
  · intro i u hu
    obtain ⟨-, -, -, hbacks⟩ := hold i u hu
    exact hbacks

theorem remove (hb : Backed t h) {s : Session} (filled : t.sessions id = some s) (fd : Nat)
    (hframe : ∀ o ≠ s.birth, h'.objects o = h.objects o) : Backed (t.remove id fd) h' := by
  constructor
  · intro i u hu
    exact hb.born i u (Table.remove_old hu).2
  · intro i j u u' hu hu'
    exact hb.distinct i j u u' (Table.remove_old hu).2 (Table.remove_old hu').2
  · intro i u hu
    obtain ⟨hi, hold⟩ := Table.remove_old hu
    have hne : u.birth ≠ s.birth := fun heq => hi (hb.distinct i id u s hold filled heq)
    exact backs_frame (hb.backs i u hold) (hframe _ hne)

end Backed

/-! ## The calls -/

theorem Side.pointer_buffer (side : Side) :
    side.pointer = .readBuffer ∨ side.pointer = .writeBuffer := by
  cases side
  · exact .inl rfl
  · exact .inr rfl

theorem PollerMemory.exec_backed (c : LifeCall n Alloc) (p : Ledgered (Poller n))
    (hb : Backed p.core.toTable p.heap) :
    Backed (final ((exec c).run p)).core.toTable (final ((exec c).run p)).heap := by
  cases c with
  | use id u =>
    change Backed (final ((Ledgered.use Poller.table id u).run p)).core.toTable
      (final ((Ledgered.use Poller.table id u).run p)).heap
    cases hs : p.core.sessions id with
    | none =>
      rw [use_none Poller.table hs]
      exact hb
    | some conn =>
      rcases use_cases Poller.table hs u with
        ⟨e, hrun⟩ | ⟨s', h', hbirth, hmoves, hbacks, hrun⟩
      · rw [hrun]
        exact hb
      · rw [hrun]
        exact hb.put hs hbirth (fun o hne => Heap.Moves.frame hmoves hne)
          (hbacks (hb.backs id conn hs))
  | closeSession id type =>
    change Backed (final ((closeSession id type).run p)).core.toTable
      (final ((closeSession id type).run p)).heap
    cases hs : p.core.sessions id with
    | none =>
      rw [closeSession_none hs]
      exact hb
    | some conn =>
      have htable : (final ((Poller.closeSession id type).run p.core)).toTable =
          p.core.toTable.remove id conn.fd := by
        simp [Poller.closeSession, final, hs]
      rw [closeSession_some hs]
      change Backed (final ((Poller.closeSession id type).run p.core)).toTable _
      rw [htable]
      exact hb.remove hs conn.fd fun _ _ => rfl
  | initNewSession fd type mem garbage =>
    change Backed (final ((initNewSession fd type mem garbage).run p)).core.toTable
      (final ((initNewSession fd type mem garbage).run p)).heap
    rcases Poller.initNewSession_cases p.core fd type mem with ⟨m, -, -, hrun⟩ | ⟨-, hrun⟩
    · rw [initNewSession_run hrun]
      refine hb.create _ fd type ?_ ?_
      · intro o ho
        exact (Heap.Moves.frame (Heap.reset_moves ..) ho.ne).trans (Heap.create_frame ho.ne garbage)
      · intro side
        exact Heap.isSome_init _ _ mem side.pointer_buffer
    · rw [initNewSession_run hrun]
      exact hb

theorem IocpMemory.exec_backed (c : LifeCall n Creation) (p : Ledgered (Iocp n))
    (hb : Backed p.core.toTable p.heap) :
    Backed (final ((exec c).run p)).core.toTable (final ((exec c).run p)).heap := by
  generalize hp' : final ((exec c).run p) = p'
  have hstep := exec_step c p
  rw [hp'] at hstep
  cases hstep with
  | skip => exact hb
  | @use id u conn s' h' filled birth moves backs =>
    exact hb.put filled birth (fun o hne => moves.frame hne) (backs (hb.backs id conn filled))
  | @close id type conn filled =>
    apply hb.remove filled conn.fd
    intro o hne
    rw [Heap.objects_record]
    exact Heap.Moves.frame (Heap.close_moves p.heap conn.birth) hne
  | @create fd type creation garbage q table =>
    have hframe : ∀ o < p.core.births, ((p.heap.create p.core.births garbage).iocpInit
        p.core.births creation.mem).objects o = p.heap.objects o := by
      intro o ho
      exact (Heap.Moves.frame (Heap.iocpInit_writes ..).moves ho.ne).trans
        (Heap.create_frame ho.ne garbage)
    rcases table with hq | ⟨id, hq⟩
    · change Backed q.toTable _
      rw [hq]
      exact hb.frame hframe
    · change Backed q.toTable _
      rw [hq]
      apply hb.create id fd type hframe
      intro side
      have hinit := Heap.isSome_init (p.heap.create p.core.births garbage) p.core.births
        creation.mem side.pointer_buffer
      cases side <;> simpa [Heap.iocpInit, Side.pointer] using hinit

/-! ## Runs -/

/-- On every run of either poller, an open session's buffer has a block exactly where the ledger
has one for it. -/
theorem pointers_backed {m : Nat} (cs : List (LifeCall (n + 1) Alloc))
    (ds : List (LifeCall m Creation)) :
    (∀ id s, (final ((runAll PollerMemory.exec cs).run
        (.start (Poller.init (Nat.succ_pos n))))).core.sessions id = some s →
      Backs (final ((runAll PollerMemory.exec cs).run
        (.start (Poller.init (Nat.succ_pos n))))).heap s) ∧
    ∀ id s, (final ((runAll IocpMemory.exec ds).run (.start Iocp.init))).core.sessions id = some s →
      Backs (final ((runAll IocpMemory.exec ds).run (.start Iocp.init))).heap s := by
  have hpoller := runAll_keeps
    (P := fun p : Ledgered (Poller (n + 1)) => Backed p.core.toTable p.heap)
    (p := .start (Poller.init (Nat.succ_pos n))) PollerMemory.exec_backed cs (Backed.empty _)
  have hiocp := runAll_keeps (P := fun p : Ledgered (Iocp m) => Backed p.core.toTable p.heap)
    (p := .start Iocp.init) IocpMemory.exec_backed ds (Backed.empty _)
  exact ⟨hpoller.backs, hiocp.backs⟩

end ChainSocket
