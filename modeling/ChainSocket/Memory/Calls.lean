import ChainSocket.Memory.Ledger
import ChainSocket.Buffer.Refine
import ChainSocket.Iocp.Steps
import ChainSocket.Poller.Ids
import ChainSocket.Lib.Triple

/-!
# The calls that make, use and close sessions

`initNewSession` and `closeSession` of both pollers, and what users do with a session, with the
ledger of what is allocated and freed.

* `initNewSession_erases`, `closeSession_erases`: without the ledger, they are those of the
  `Poller`;
* `Ledgered.use_cases`, `IocpMemory.exec_step`: what a call does to the sessions and to the ledger.
-/

namespace ChainSocket

open Effect Memory

/-- A `Poller` and the ledger of its sessions. -/
structure Ledgered (σ : Type) where
  core : σ
  heap : Heap

abbrev LedgeredM (σ : Type) := EStateM Fault (Ledgered σ)

/-- The buffers of a session. -/
inductive Side where
  | readBuffer | writeBuffer
  deriving DecidableEq

/-- What users do with a session. -/
inductive SessionUse where
  | userData (ptr : Option Nat)
  | onUserDataDestory (callback : Option Nat)
  | buffer (side : Side) (op : MessageBuffer.Op)

/-- `answers` is what the system answers when a session is made, and `garbage` what is in its
memory. -/
inductive LifeCall (n : Nat) (Answers : Type) where
  | initNewSession (fd : Nat) (type : SessionType) (answers : Answers)
      (garbage : Pointer → Option Nat)
  | use (id : Fin n) (use : SessionUse)
  | closeSession (id : Fin n) (type : CloseType)

def LifeCall.Creates {n : Nat} {Answers : Type} : LifeCall n Answers → Prop
  | .initNewSession .. => True
  | .use .. | .closeSession .. => False

namespace MessageBuffer

/-- Whether `realloc` is called, and its answer. -/
def reallocs : Op → MessageBuffer → Option Alloc
  | .pushBack mem bytes, b =>
    if b.capacity ≤ b.size + bytes.length + bufferSize * 2 then some mem else none
  | .alloc mem, b => if b.size + bufferSize * 2 ≤ b.capacity then none else some mem
  | .allocSize mem size, b =>
    if b.size + size + bufferSize * 2 ≤ b.capacity then none else some mem
  | .erase _, _ => none
  | .receive mem bytes, b =>
    if b.size + bytes.length + bufferSize * 2 ≤ b.capacity then none else some mem

theorem isSome_realloc (mem : Alloc) (old : Option (List UInt8)) (n : Nat) :
    (mem.realloc old n).isSome = mem.ok := by
  unfold Alloc.realloc
  cases mem.ok <;> rfl

theorem write_isSome {b b' : MessageBuffer} {bytes : List UInt8} (h : b.write bytes = .ok b') :
    b'.buff.isSome = b.buff.isSome := by
  unfold write at h
  cases hb : b.buff with
  | none =>
    rw [hb] at h
    cases h
  | some block =>
    simp only [hb] at h
    split_ifs at h
    cases h
    rfl

theorem alloc_isSome {b b' : MessageBuffer} {mem : Alloc} (h : b.alloc mem = .ok b') :
    b'.buff.isSome = ((reallocs (.alloc mem) b).map Alloc.ok).getD b.buff.isSome := by
  unfold alloc at h
  split_ifs at h with hroom hcap
  · cases h
    simp [reallocs, hroom]
  · split at h
    · cases h
    · cases h
      simp [reallocs, hroom, isSome_realloc]

/-- After an operation there is a block where `realloc` has answered with one, or else where there
was one. -/
theorem exec_isSome {op : Op} {b b' : MessageBuffer} {offset : Offset}
    (h : exec op b = .ok (offset, b')) :
    b'.buff.isSome = ((reallocs op b).map Alloc.ok).getD b.buff.isSome := by
  cases op with
  | pushBack mem bytes =>
    obtain ⟨c, hc, heq⟩ := except_bind_inv h
    cases heq
    unfold pushBack at hc
    dsimp only at hc
    split_ifs at hc with hover hfull hcap
    · split at hc
      · cases hc
      · rename_i block hblock
        have hok := isSome_realloc mem b.buff (roundUp (b.size + bytes.length))
        simpa [reallocs, hfull, hblock, ← hok] using write_isSome hc
    · simpa [reallocs, hfull] using write_isSome hc
  | alloc mem =>
    obtain ⟨c, hc, heq⟩ := except_bind_inv h
    cases heq
    exact alloc_isSome hc
  | allocSize mem size =>
    obtain ⟨⟨offset', c⟩, hc, heq⟩ := except_bind_inv h
    cases heq
    unfold allocSize at hc
    dsimp only at hc
    split_ifs at hc with hover hroom hcap
    · cases hc
      simp [reallocs, hroom]
    · split at hc
      · cases hc
      · rename_i block hblock
        cases hc
        have hok := isSome_realloc mem b.buff (roundUp (b.size + size))
        simp [reallocs, hroom, hblock, ← hok]
  | erase len =>
    obtain ⟨c, hc, heq⟩ := except_bind_inv h
    cases heq
    unfold erase at hc
    cases hb : b.buff <;> simp only [hb] at hc <;> split_ifs at hc <;> cases hc <;>
      simp [reallocs, hb]
  | receive mem bytes =>
    obtain ⟨c, hc, hrest⟩ := except_bind_inv h
    obtain ⟨d, hd, heq⟩ := except_bind_inv hrest
    cases heq
    have hsome := alloc_isSome hd
    simpa [reallocs, write_size hc, write_capacity hc, write_isSome hc] using hsome

end MessageBuffer

namespace Side

def get (s : Session) : Side → MessageBuffer
  | .readBuffer => s.readBuffer
  | .writeBuffer => s.writeBuffer

def set (b : MessageBuffer) (s : Session) : Side → Session
  | .readBuffer => { s with readBuffer := b }
  | .writeBuffer => { s with writeBuffer := b }

def pointer : Side → Pointer
  | .readBuffer => .readBuffer
  | .writeBuffer => .writeBuffer

theorem pointer_block (side : Side) : side.pointer.block = true := by cases side <;> rfl

theorem pointer_ne (side : Side) :
    side.pointer ≠ .userData ∧ side.pointer ≠ .onUserDataDestory := by
  cases side <;> exact ⟨nofun, nofun⟩

theorem pointer_inj {side other : Side} (h : side.pointer = other.pointer) : side = other := by
  cases side <;> cases other <;> trivial

def exec (side : Side) (op : MessageBuffer.Op) (s : Session) : Except Fault Session := do
  let (_, b) ← MessageBuffer.exec op (side.get s)
  return side.set b s

end Side

namespace Ledgered

variable {σ : Type} {n : Nat}

def start (s : σ) : Ledgered σ := ⟨s, .empty⟩

def poller : Lens (Ledgered σ) σ where
  get p := p.core
  set s p := { p with core := s }
  get_set _ _ := rfl
  set_get _ := rfl
  set_set _ _ _ := rfl

def book (f : Heap → Heap) : LedgeredM σ Unit := modify fun p => { p with heap := f p.heap }

def use (table : Lens σ (Table n)) (id : Fin n) (u : SessionUse) : LedgeredM σ Unit := do
  let p ← get
  match (table.get p.core).sessions id with
  | none => return
  | some conn =>
    match u with
    | .userData ptr => book (·.store conn.birth .userData ptr)
    | .onUserDataDestory callback => book (·.store conn.birth .onUserDataDestory callback)
    | .buffer side op => do
      poller.zoom (table.zoom (Table.change id (side.exec op)))
      match MessageBuffer.reallocs op (side.get conn) with
      | none => return
      | some mem => book (·.realloc conn.birth side.pointer mem)

/-- Calls, one after another. -/
def runAll {Call : Type} (exec : Call → LedgeredM σ Unit) : List Call → LedgeredM σ Unit
  | [] => return
  | c :: cs => do
    exec c
    runAll exec cs

section

variable {Call : Type} {exec : Call → LedgeredM σ Unit} {p p' : Ledgered σ} {c : Call}

theorem runAll_cons_ok (cs : List Call) (h : (exec c).run p = .ok () p') :
    (runAll exec (c :: cs)).run p = (runAll exec cs).run p' := run_bind_ok h

theorem runAll_cons_error (cs : List Call) {e : Fault} (h : (exec c).run p = .error e p') :
    (runAll exec (c :: cs)).run p = .error e p' := run_bind_error h

/-- What every call keeps, wherever it ends, a run keeps. -/
theorem runAll_keeps {P : Ledgered σ → Prop} (hexec : ∀ c p, P p → P (final ((exec c).run p)))
    (cs : List Call) (hp : P p) : P (final ((runAll exec cs).run p)) := by
  induction cs generalizing p with
  | nil => exact hp
  | cons c cs ih =>
    have hfirst := hexec c p hp
    cases hrun : (exec c).run p with
    | ok _ p' =>
      rw [hrun] at hfirst
      rw [runAll_cons_ok cs hrun]
      exact ih hfirst
    | error e p' =>
      rw [hrun] at hfirst
      rw [runAll_cons_error cs hrun]
      exact hfirst

end

theorem book_run (f : Heap → Heap) (p : Ledgered σ) :
    (book f).run p = .ok () { p with heap := f p.heap } := rfl

/-- The ledger apart, a booking does nothing. -/
theorem book_erases (f : Heap → Heap) : Erases poller (book f : LedgeredM σ Unit) (pure ()) :=
  fun _ => rfl

/-- The pointers of the ledger are NULL exactly where the buffers have no block. -/
def Backs (h : Heap) (s : Session) : Prop :=
  ∀ side : Side, (h.objects s.birth side.pointer).isSome = (side.get s).buff.isSome

/-! ## What a use does -/

/-- The session has another block in this buffer exactly where `realloc` has been called. -/
theorem exec_side {side : Side} {op : MessageBuffer.Op} {s s' : Session}
    (h : side.exec op s = .ok s') : s'.birth = s.birth ∧
      (side.get s').buff.isSome = ((MessageBuffer.reallocs op (side.get s)).map Alloc.ok).getD
        (side.get s).buff.isSome ∧
      ∀ other ≠ side, other.get s' = other.get s := by
  obtain ⟨⟨offset, b⟩, hb, hs'⟩ := except_bind_inv h
  cases hs'
  have hsome := MessageBuffer.exec_isSome hb
  cases side with
  | readBuffer => exact ⟨rfl, hsome, fun other hne => by cases other <;> trivial⟩
  | writeBuffer => exact ⟨rfl, hsome, fun other hne => by cases other <;> trivial⟩

section

variable (table : Lens σ (Table n)) {p : Ledgered σ} {id : Fin n} {conn : Session}
  (hs : (table.get p.core).sessions id = some conn)

include hs

theorem buffer_cases (side : Side) (op : MessageBuffer.Op) :
    (∃ e, (poller.zoom (table.zoom (Table.change id (side.exec op)))).run p = .error e p) ∨
    ∃ s', side.exec op conn = .ok s' ∧
      (poller.zoom (table.zoom (Table.change id (side.exec op)))).run p =
        .ok () { p with core := table.set ((table.get p.core).put id s') p.core } := by
  cases hf : side.exec op conn with
  | error e =>
    have hrun := Lens.zoom_error (l := poller) (Lens.zoom_error (l := table)
      (Table.change_error hs hf))
    rw [table.set_get] at hrun
    exact .inl ⟨e, hrun⟩
  | ok s' =>
    have hrun := Lens.zoom_ok (l := poller) (Lens.zoom_ok (l := table) (Table.change_run hs hf))
    exact .inr ⟨s', rfl, hrun⟩

/-- A use of an open session changes its buffers and moves its ledger; where it fails, it leaves
both. -/
theorem use_cases (u : SessionUse) :
    (∃ e, (use table id u).run p = .error e p) ∨
    ∃ s' h', s'.birth = conn.birth ∧ Heap.Moves conn.birth p.heap h' ∧
      (Backs p.heap conn → Backs h' s') ∧ (use table id u).run p =
        .ok () ⟨table.set ((table.get p.core).put id s') p.core, h'⟩ := by
  have hput : table.set ((table.get p.core).put id conn) p.core = p.core := by
    have hself : (table.get p.core).put id conn = table.get p.core := by
      simp [Table.put, ← hs]
    rw [hself, table.set_get]
  unfold use
  rw [run_bind_ok (run_get p)]
  simp only [hs]
  cases u with
  | userData ptr =>
    refine .inr ⟨conn, _, rfl, .single (.write (.userData ptr)), ?_, by rw [hput]; rfl⟩
    intro hb side
    simpa [side.pointer_ne] using hb side
  | onUserDataDestory callback =>
    refine .inr ⟨conn, _, rfl, .single (.write (.onUserDataDestory callback)), ?_,
      by rw [hput]; rfl⟩
    intro hb side
    simpa [side.pointer_ne] using hb side
  | buffer side op =>
    rcases buffer_cases table hs side op with ⟨e, he⟩ | ⟨s', hexec, hrun⟩
    · exact .inl ⟨e, run_bind_error he⟩
    · right
      obtain ⟨hbirth, hsome, hother⟩ := exec_side hexec
      dsimp only
      rw [run_bind_ok hrun]
      cases hreallocs : MessageBuffer.reallocs op (side.get conn) with
      | none =>
        refine ⟨s', _, hbirth, .refl, ?_, rfl⟩
        intro hb other
        by_cases hside : other = side
        · subst hside
          simpa [hbirth, hsome, hreallocs] using hb other
        · simpa [hbirth, hother other hside] using hb other
      | some mem =>
        refine ⟨s', _, hbirth, Heap.realloc_moves _ _ mem _ side.pointer_block, ?_, rfl⟩
        intro hb other
        by_cases hside : other = side
        · subst hside
          simp [hbirth, hsome, hreallocs, Heap.isSome_realloc]
        · have hne : other.pointer ≠ side.pointer := fun h => hside (Side.pointer_inj h)
          simpa [hbirth, hother other hside, Heap.objects_realloc_ne hne] using hb other

end

theorem use_none (table : Lens σ (Table n)) {p : Ledgered σ} {id : Fin n}
    (hs : (table.get p.core).sessions id = none) (u : SessionUse) :
    (use table id u).run p = .ok () p := by
  unfold use
  rw [run_bind_ok (run_get p)]
  simp only [hs]
  rfl

/-- Of the ledger alone: a use moves it, if it does anything. -/
theorem use_grows (table : Lens σ (Table n)) (p : Ledgered σ) (id : Fin n) (u : SessionUse) :
    p.heap.log <+: (final ((use table id u).run p)).heap.log := by
  cases hs : (table.get p.core).sessions id with
  | none => simp [use_none table hs, final]
  | some conn =>
    rcases use_cases table hs u with ⟨e, hrun⟩ | ⟨s', h', -, hmoves, -, hrun⟩
    · simp [hrun, final]
    · rw [hrun]
      exact Heap.Moves.grows hmoves

end Ledgered

/-! ## Poller.cpp -/

namespace PollerMemory

open Ledgered

variable {n : Nat}

/-- The memory of the session is `reset` as it comes. -/
def initNewSession (fd : Nat) (type : SessionType) (mem : Alloc) (garbage : Pointer → Option Nat) :
    LedgeredM (Poller n) Unit := do
  let p ← get
  match ← poller.zoom (Poller.initNewSession fd type mem) with
  | none => return
  | some _ => book fun h => (h.create p.core.births garbage).reset p.core.births mem

/-- `xfree(connp)`. -/
def closeSession (id : Fin n) (type : CloseType) : LedgeredM (Poller n) Unit := do
  let p ← get
  match p.core.sessions id with
  | none => return
  | some conn => do
    poller.zoom (Poller.closeSession id type)
    book fun h => (h.xfree conn.birth .self).record (.closed conn.birth)

def exec : LifeCall n Alloc → LedgeredM (Poller n) Unit
  | .initNewSession fd type mem garbage => initNewSession fd type mem garbage
  | .use id u => use Poller.table id u
  | .closeSession id type => closeSession id type

section

variable {fd : Nat} {type : SessionType} {mem : Alloc} {garbage : Pointer → Option Nat}
  {close : CloseType}

theorem initNewSession_erases : Erases poller (initNewSession fd type mem garbage)
    (do
      let _ ← Poller.initNewSession (n := n) fd type mem
      return) := by
  intro p
  refine Erases.bind (.zoom _) ?_ p
  intro r
  cases r with
  | none => exact .pure ()
  | some _ => exact book_erases _

theorem closeSession_none {p : Ledgered (Poller n)} {id : Fin n}
    (hs : p.core.sessions id = none) : (closeSession id close).run p = .ok () p := by
  unfold closeSession
  rw [run_bind_ok (run_get p)]
  simp only [hs]
  rfl

theorem closeSession_some {p : Ledgered (Poller n)} {id : Fin n} {conn : Session}
    (hs : p.core.sessions id = some conn) : (closeSession id close).run p =
      .ok () ⟨final ((Poller.closeSession id close).run p.core),
        (p.heap.xfree conn.birth .self).record (.closed conn.birth)⟩ := by
  unfold closeSession
  rw [run_bind_ok (run_get p)]
  simp only [hs]
  rfl

theorem closeSession_erases (id : Fin n) :
    Erases poller (closeSession id close) (Poller.closeSession id close) := by
  intro p
  cases hs : p.core.sessions id with
  | none =>
    rw [closeSession_none hs]
    change EStateM.Result.ok () p.core = .ok () _
    simp only [poller, hs]
  | some conn =>
    rw [closeSession_some hs]
    rfl

theorem initNewSession_run {p : Ledgered (Poller n)} {r : Option (Fin n)} {q : Poller n}
    (h : (Poller.initNewSession fd type mem).run p.core = .ok r q) :
    (initNewSession fd type mem garbage).run p = .ok () ⟨q,
      if r.isSome then (p.heap.create p.core.births garbage).reset p.core.births mem
      else p.heap⟩ := by
  unfold initNewSession
  rw [run_bind_ok (run_get p), run_bind_ok (Lens.zoom_ok (l := poller) h)]
  cases r <;> rfl

end

end PollerMemory

/-! ## IOCPPoller.cpp -/

namespace IocpMemory

open Ledgered

variable {n : Nat}

def initNewSession (fd : Nat) (type : SessionType) (creation : Creation)
    (garbage : Pointer → Option Nat) : LedgeredM (Iocp n) Unit := do
  let p ← get
  book fun h => (h.create p.core.births garbage).iocpInit p.core.births creation.mem
  let _ ← poller.zoom (Iocp.initNewSession fd type creation)
  return

/-- `data.destroy()`, the `memset`, and `sessions[connId]->destroy()`. -/
def closeSession (id : Fin n) (type : CloseType) : LedgeredM (Iocp n) Unit := do
  let p ← get
  match p.core.sessions id with
  | none => return
  | some conn => do
    book fun h => ((h.iocpDestroy conn.birth).clear conn.birth).iocpDestroy conn.birth
    poller.zoom (Iocp.closeSession id type)
    book (·.record (.closed conn.birth))

def exec : LifeCall n Creation → LedgeredM (Iocp n) Unit
  | .initNewSession fd type creation garbage => initNewSession fd type creation garbage
  | .use id u => use Iocp.table id u
  | .closeSession id type => closeSession id type

/-! ## What a call does -/

/-- No session is closed by the call. -/
def Spares : LifeCall n Creation → Ledgered (Iocp n) → Prop
  | .closeSession id _, p => p.core.sessions id = none
  | .initNewSession .., _ | .use .., _ => True

/-- The call `c`, wherever it ends. -/
inductive Step (p : Ledgered (Iocp n)) : LifeCall n Creation → Ledgered (Iocp n) → Prop
  | skip {c : LifeCall n Creation} (spares : Spares c p) : Step p c p
  | create {fd : Nat} {type : SessionType} {creation : Creation} {garbage : Pointer → Option Nat}
      {q : Iocp n} (table : q.toTable = p.core.toTable ∨
        ∃ id, q.toTable = p.core.toTable.create id fd type creation.mem) :
      Step p (.initNewSession fd type creation garbage)
        ⟨q, (p.heap.create p.core.births garbage).iocpInit p.core.births creation.mem⟩
  | use {id : Fin n} {u : SessionUse} {conn s' : Session} {h' : Heap}
      (filled : p.core.sessions id = some conn) (birth : s'.birth = conn.birth)
      (moves : Heap.Moves conn.birth p.heap h') (backs : Backs p.heap conn → Backs h' s') :
      Step p (.use id u) ⟨{ p.core with toTable := p.core.toTable.put id s' }, h'⟩
  | close {id : Fin n} {type : CloseType} {conn : Session}
      (filled : p.core.sessions id = some conn) :
      Step p (.closeSession id type) ⟨{ p.core with toTable := p.core.toTable.remove id conn.fd },
        (((p.heap.iocpDestroy conn.birth).clear conn.birth).iocpDestroy conn.birth).record
          (.closed conn.birth)⟩

theorem closeSession_none {p : Ledgered (Iocp n)} {id : Fin n} {type : CloseType}
    (hs : p.core.sessions id = none) : (closeSession id type).run p = .ok () p := by
  unfold closeSession
  rw [run_bind_ok (run_get p)]
  simp only [hs]
  rfl

theorem closeSession_some {p : Ledgered (Iocp n)} {id : Fin n} {type : CloseType} {conn : Session}
    (hs : p.core.sessions id = some conn) : (closeSession id type).run p =
      .ok () ⟨{ p.core with toTable := p.core.toTable.remove id conn.fd },
        (((p.heap.iocpDestroy conn.birth).clear conn.birth).iocpDestroy conn.birth).record
          (.closed conn.birth)⟩ := by
  have hclose : (Iocp.closeSession id type).run p.core =
      .ok () { p.core with toTable := p.core.toTable.remove id conn.fd } := by
    change EStateM.Result.ok () _ = _
    simp only [hs]
  unfold closeSession
  rw [run_bind_ok (run_get p)]
  simp only [hs]
  rw [run_bind_ok (book_run ..), run_bind_ok (Lens.zoom_ok hclose)]
  rfl

theorem initNewSession_erases (fd : Nat) (type : SessionType) (creation : Creation)
    (garbage : Pointer → Option Nat) : Erases poller (initNewSession fd type creation garbage)
    (do
      let _ ← Iocp.initNewSession (n := n) fd type creation
      return) := by
  intro p
  have hbook : Erases poller (book fun h =>
      (h.create p.core.births garbage).iocpInit p.core.births creation.mem)
      (pure () : IocpM n Unit) := book_erases _
  exact Erases.silent_bind hbook (.bind (.zoom _) fun _ => .pure ()) p

theorem closeSession_erases (id : Fin n) (type : CloseType) :
    Erases poller (closeSession id type) (Iocp.closeSession id type) := by
  intro p
  cases hs : p.core.sessions id with
  | none =>
    rw [closeSession_none hs]
    change EStateM.Result.ok () p.core = .ok () _
    simp only [poller, hs]
  | some conn =>
    rw [closeSession_some hs]
    change EStateM.Result.ok () _ = .ok () _
    simp only [poller, hs]

/-- Where it finds no slot, the session is stored in front of the table. -/
theorem initNewSession_table (q : Iocp n) (fd : Nat) (type : SessionType) (creation : Creation) :
    (final ((Iocp.initNewSession fd type creation).run q)).toTable = q.toTable ∨
      ∃ id, (final ((Iocp.initNewSession fd type creation).run q)).toTable =
        q.toTable.create id fd type creation.mem := by
  cases hgen : q.idGen with
  | none =>
    rw [Iocp.initNewSession_none hgen]
    exact .inl rfl
  | some id =>
    cases hport : creation.port with
    | true =>
      rw [Iocp.initNewSession_port hgen hport]
      exact .inr ⟨id, rfl⟩
    | false =>
      rw [Iocp.initNewSession_noPort hgen hport]
      exact .inr ⟨id, rfl⟩

theorem exec_step (c : LifeCall n Creation) (p : Ledgered (Iocp n)) :
    Step p c (final ((exec c).run p)) := by
  cases c with
  | use id u =>
    cases hs : p.core.sessions id with
    | none =>
      have hrun : (exec (.use id u)).run p = .ok () p := use_none Iocp.table hs u
      rw [hrun]
      exact .skip trivial
    | some conn =>
      rcases use_cases Iocp.table hs u with ⟨e, hrun⟩ | ⟨s', h', hbirth, hmoves, hbacks, hrun⟩
      · rw [exec, hrun]
        exact .skip trivial
      · rw [exec, hrun]
        exact .use hs hbirth hmoves hbacks
  | closeSession id type =>
    cases hs : p.core.sessions id with
    | none =>
      rw [exec, closeSession_none hs]
      exact .skip hs
    | some conn =>
      rw [exec, closeSession_some hs]
      exact .close hs
  | initNewSession fd type creation garbage =>
    have hbook := book_run
      (fun h => (h.create p.core.births garbage).iocpInit p.core.births creation.mem) p
    have htable := initNewSession_table p.core fd type creation
    unfold exec initNewSession
    rw [run_bind_ok (run_get p), run_bind_ok hbook]
    cases hrun : (Iocp.initNewSession fd type creation).run p.core with
    | ok r q =>
      rw [run_bind_ok (Lens.zoom_ok hrun)]
      exact .create (by rwa [hrun] at htable)
    | error e q =>
      rw [run_bind_error (Lens.zoom_error hrun)]
      exact .create (by rwa [hrun] at htable)

end IocpMemory

end ChainSocket
