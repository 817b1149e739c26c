import ChainSocket.Iocp.Steps
import Mathlib.Algebra.GroupWithZero.Nat

/-!
# What do_recv reports

`do_recv` stores everything that has come in, and tells `onRecv` about it only where the reads end
with `EAGAIN`. Where they end with the end of the stream, or with an error, the session is closed
first.
-/

namespace ChainSocket.Iocp

open Effect Relation

variable {n : Nat}

theorem step_counts {cur : Option (Waiting n)} {p p' : Iocp n} (h : Step cur p p') :
    p'.received = p.received ∧ p'.reported = p.reported := by
  cases h with
  | table | create | beside => exact ⟨rfl, rfl⟩

theorem goes_counts {α : Type} {cur : Option (Waiting n)} {p p' : Iocp n} {m : IocpM n α} {a : α}
    (h : Goes cur p m) (hrun : m.run p = .ok a p') :
    p'.received = p.received ∧ p'.reported = p.reported :=
  Moves.keeps (G := fun q => q.received = p.received ∧ q.reported = p.reported)
    (fun _ _ hs hq => ⟨(step_counts hs).1.trans hq.1, (step_counts hs).2.trans hq.2⟩) h hrun
    ⟨rfl, rfl⟩

/-- The bytes of all the reads. -/
def total (reads : List Chunk) : Nat := (reads.map fun c => c.bytes.length).sum

theorem total_eq_zero {reads : List Chunk} : total reads = 0 ↔ reads = [] := by
  cases reads with
  | nil => simp [total]
  | cons c rest =>
    have hpos : 0 < c.bytes.length := List.length_pos_iff.2 c.some
    simp only [total, List.map_cons, List.sum_cons, reduceCtorEq, iff_false]
    omega

theorem drain_counts {id : Fin n} {reads : List Chunk} {p p' : Iocp n} {readNum : Nat}
    (h : (drain id reads).run p = .ok readNum p') :
    readNum = total reads ∧ p'.received = p.received + total reads ∧
      p'.reported = p.reported := by
  induction reads generalizing p p' readNum with
  | nil =>
    cases h
    exact ⟨rfl, rfl, rfl⟩
  | cons c rest ih =>
    obtain ⟨_, p₁, hreceive, h⟩ := run_bind_inv h
    rw [run_bind_ok (run_modify _ p₁)] at h
    obtain ⟨k, p₂, hrest, h⟩ := run_bind_inv h
    cases h
    have hgoes : Goes none p (change id (·.receive c.mem c.bytes)) :=
      change_goes fun _ _ _ hs => Session.receive_move hs
    obtain ⟨hreceived, hreported⟩ := goes_counts hgoes hreceive
    obtain ⟨hk, hrec, hrep⟩ := ih hrest
    simp only [hreceived] at hrec
    refine ⟨?_, ?_, hrep.trans hreported⟩
    · simp [total, hk]
    · simp only [total, List.map_cons, List.sum_cons] at hrec ⊢
      omega

theorem report_counts {script : IocpScript n} {readNum : Nat} {p p' : Iocp n}
    (h : (report readNum (run script)).run p = .ok () p') :
    p'.received = p.received ∧ p'.reported = p.reported + readNum := by
  unfold report at h
  rw [run_bind_ok (run_modify _ p)] at h
  have hgoes : ∀ q, Goes none q (run script) := run_goes script
  exact goes_counts (hgoes _) h

/-- What one `do_recv` stores and what it reports. -/
theorem do_recv_counts {id : Fin n} {mem : Alloc} {reads : List Chunk} {drained : DrainEnd}
    {onRecv : IocpScript n} {p p' : Iocp n}
    (h : (do_recv id mem reads drained (run onRecv)).run p = .ok () p') :
    p'.received = p.received + total reads ∧
      p'.reported = p.reported + if drained = .eagain then total reads else 0 := by
  obtain ⟨conn, p₁, hslot, h⟩ := run_bind_inv h
  obtain ⟨_, p₂, hgrow, h⟩ := run_bind_inv h
  obtain ⟨readNum, p₃, hdrain, h⟩ := run_bind_inv h
  have hslots : Goes none p (slot id) := slot_goes id
  have hgrows : Goes none p₁ (change id (·.grow mem)) :=
    change_goes fun _ _ _ hs => Session.grow_move hs
  obtain ⟨hrec₁, hrep₁⟩ := goes_counts hslots hslot
  obtain ⟨hrec₂, hrep₂⟩ := goes_counts hgrows hgrow
  obtain ⟨hnum, hrec₃, hrep₃⟩ := drain_counts hdrain
  -- what is left keeps the counters, but for the report
  have hrest : p'.received = p₃.received ∧
      p'.reported = p₃.reported + if drained = .eagain then total reads else 0 := by
    have hclose : ∀ type, Goes none p₃ (closeSession id type) := fun type =>
      closeSession_goes id type
    cases drained with
    | zero => simpa using goes_counts (hclose _) h
    | error => simpa using goes_counts (hclose _) h
    | eagain =>
      have hpost : ∀ q, Goes none q (postRecv id conn.birth) := fun q => postRecv_goes id _
      dsimp only at h
      rw [if_pos rfl]
      split_ifs at h with hpos
      · obtain ⟨_, p₄, hreport, h⟩ := run_bind_inv h
        obtain ⟨hrec₄, hrep₄⟩ := report_counts hreport
        rw [run_bind_ok (run_get p₄)] at h
        split_ifs at h
        · cases h
          exact ⟨hrec₄, by rw [hrep₄, hnum]⟩
        · obtain ⟨hrec₅, hrep₅⟩ := goes_counts (hpost _) h
          exact ⟨hrec₅.trans hrec₄, by rw [hrep₅, hrep₄, hnum]⟩
      · obtain ⟨hrec₄, hrep₄⟩ := goes_counts (hpost _) h
        refine ⟨hrec₄, ?_⟩
        rw [hrep₄]
        omega
  omega

/-- All that `do_recv` stores is reported exactly when its reads end with `EAGAIN`, or when there
is nothing to report. -/
theorem do_recv_reports_iff {id : Fin n} {mem : Alloc} {reads : List Chunk} {drained : DrainEnd}
    {onRecv : IocpScript n} {p p' : Iocp n}
    (h : (do_recv id mem reads drained (run onRecv)).run p = .ok () p') :
    p'.reported - p.reported = p'.received - p.received ↔ drained = .eagain ∨ reads = [] := by
  obtain ⟨hrec, hrep⟩ := do_recv_counts h
  rw [← total_eq_zero, hrec, hrep]
  split_ifs with hend
  · simp [hend]
  · simp only [hend, false_or]
    omega

/-! ## A last message that is not reported -/

def openScript : IocpScript 2 :=
  .call (.initNewSession 5 .accept ⟨⟨true, fun _ => 0⟩, true⟩) .none .done

/-- One session is open, in slot 0. -/
def oneOpen : Iocp 2 := final ((run openScript).run init)

def lastByte : Chunk := ⟨[7], by decide, ⟨true, fun _ => 0⟩⟩

/-- A `recv` stores a byte, and the one behind it answers as `drained` says. -/
def recvLast (drained : DrainEnd) : EStateM.Result Fault (Iocp 2) Unit :=
  (do_recv Table.front ⟨true, fun _ => 0⟩ [lastByte] drained (run .done)).run oneOpen

theorem last_byte_unreported : ¬ ∀ (n : Nat) (id : Fin n) (mem : Alloc) (reads : List Chunk)
    (drained : DrainEnd) (onRecv : IocpScript n) (p p' : Iocp n),
    (do_recv id mem reads drained (run onRecv)).run p = .ok () p' →
      p'.reported - p.reported = p'.received - p.received := by
  intro h
  have hrun : recvLast .zero = .ok () (final (recvLast .zero)) :=
    eq_ok_of_returns (by decide +kernel)
  have heq := h 2 Table.front _ [lastByte] .zero .done oneOpen _ hrun
  revert heq
  decide +kernel

theorem do_recv_reports_iff_last :
    (final (recvLast .eagain)).reported - oneOpen.reported =
      (final (recvLast .eagain)).received - oneOpen.received ↔
        DrainEnd.eagain = .eagain ∨ [lastByte] = [] :=
  have hrun : recvLast .eagain = .ok () (final (recvLast .eagain)) :=
    eq_ok_of_returns (by decide +kernel)
  do_recv_reports_iff hrun

end ChainSocket.Iocp
