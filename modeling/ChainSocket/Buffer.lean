import ChainSocket.NetStruct
import Mathlib.Data.List.Basic
import Mathlib.Algebra.Group.Nat.Defs

/-!
# Buffer.cpp

`MessageBuffer`: `buff` is the block `malloc` gave, or `none` for NULL. `size` and `capacity` are
`int`s that are never negative; where their sums would leave `int`, the operation faults. What the
memory functions answer is given with each call.

* `Wf`: the block has `capacity` bytes, `size` of them in use;
* `pushBack_ok`, `erase_ok`, `write_ok`, `alloc_ok`: what each operation does to the bytes in use.
-/

namespace ChainSocket

def bufferSize : Nat := 1024
def bufferMaxSize : Nat := 100 * 1024 * 1024
def intMax : Nat := 2 ^ 31 - 1

/-- The answer to a `malloc` or `realloc`: whether there is a block, and what its new bytes
hold. -/
structure Alloc where
  ok : Bool
  fresh : Nat → UInt8

namespace Alloc

def malloc (mem : Alloc) (n : Nat) : Option (List UInt8) :=
  if mem.ok then some ((List.range n).map mem.fresh) else none

/-- The bytes of the old block are kept as far as there is room. -/
def realloc (mem : Alloc) (block : Option (List UInt8)) (n : Nat) : Option (List UInt8) :=
  if mem.ok then
    some ((block.getD []).take n ++ (List.range' (block.getD []).length
      (n - (block.getD []).length)).map mem.fresh)
  else none

end Alloc

structure MessageBuffer where
  size : Nat
  buff : Option (List UInt8)
  capacity : Nat
  maxSize : Nat

namespace MessageBuffer

/-- The bytes in use. -/
def data (b : MessageBuffer) : List UInt8 := (b.buff.getD []).take b.size

def init (mem : Alloc) : MessageBuffer := ⟨0, mem.malloc bufferSize, bufferSize, bufferMaxSize⟩

/-- The capacity the three growing operations ask for. -/
def roundUp (size : Nat) : Nat := (size / bufferSize + 3) * bufferSize

/-- The bytes copied, or received, to `buff + size`, and the new `size`. -/
def write (b : MessageBuffer) (bytes : List UInt8) : Except Fault MessageBuffer :=
  match b.buff with
  | none => .error .null
  | some block =>
    if block.length < b.size + bytes.length then .error .outOfBounds
    else .ok { b with
      buff := some (block.take b.size ++ bytes ++ block.drop (b.size + bytes.length))
      size := b.size + bytes.length }

def pushBack (b : MessageBuffer) (mem : Alloc) (bytes : List UInt8) : Except Fault MessageBuffer :=
  let newSize := b.size + bytes.length
  if intMax < newSize then .error .overflow
  else if b.capacity ≤ newSize + bufferSize * 2 then
    if intMax < roundUp newSize then .error .overflow
    else
      match mem.realloc b.buff (roundUp newSize) with
      | none => .error .abort
      | some block =>
        ({ b with capacity := roundUp newSize, buff := some block } : MessageBuffer).write bytes
  else b.write bytes

/-- `alloc()`: it is the old block that is compared with NULL. -/
def alloc (b : MessageBuffer) (mem : Alloc) : Except Fault MessageBuffer :=
  if b.size + bufferSize * 2 ≤ b.capacity then .ok b
  else if intMax < roundUp b.size then .error .overflow
  else
    match b.buff with
    | none => .error .abort
    | some _ =>
      .ok { b with capacity := roundUp b.size, buff := mem.realloc b.buff (roundUp b.size) }

/-- `alloc(size)`, and the offset in `buff` that it answers. -/
def allocSize (b : MessageBuffer) (mem : Alloc) (size : Nat) :
    Except Fault (Nat × MessageBuffer) :=
  let newSize := b.size + size
  if intMax < newSize then .error .overflow
  else if newSize + bufferSize * 2 ≤ b.capacity then
    .ok (newSize - size, { b with size := newSize })
  else if intMax < roundUp newSize then .error .overflow
  else
    match mem.realloc b.buff (roundUp newSize) with
    | none => .error .abort
    | some block =>
      .ok (newSize - size, { b with
        size := newSize
        capacity := roundUp newSize
        buff := some block })

/-- `erase`, of no more than there is: beyond that the source makes `size` negative. -/
def erase (b : MessageBuffer) (len : Nat) : Except Fault MessageBuffer :=
  if b.size < len then .error .overflow
  else if len = 0 then .ok b
  else
    match b.buff with
    | none => if len < b.size then .error .null else .ok { b with size := b.size - len }
    | some block =>
      .ok { b with
        buff := some ((block.drop len).take (b.size - len) ++ block.drop (b.size - len))
        size := b.size - len }

/-! ## The bytes in use -/

/-- A block of `capacity` bytes, `size` of them in use, or none yet. -/
structure Wf (b : MessageBuffer) : Prop where
  null : b.buff = none → b.size = 0 ∧ b.capacity ≤ bufferSize * 2
  block : ∀ block, b.buff = some block → block.length = b.capacity ∧ b.size ≤ b.capacity

theorem Wf.of_block {b : MessageBuffer} {block : List UInt8} (hb : b.buff = some block)
    (hl : block.length = b.capacity) (hs : b.size ≤ b.capacity) : b.Wf := by
  constructor
  · intro h
    rw [hb] at h
    cases h
  · intro block' h
    rw [hb] at h
    cases h
    exact ⟨hl, hs⟩

theorem Wf.data_length {b : MessageBuffer} (h : b.Wf) : b.data.length = b.size := by
  cases hb : b.buff with
  | none => simp [data, hb, (h.null hb).1]
  | some block =>
    obtain ⟨hl, hs⟩ := h.block block hb
    simp [data, hb]; omega

theorem length_malloc {mem : Alloc} {n : Nat} {block : List UInt8}
    (h : mem.malloc n = some block) : block.length = n := by
  unfold Alloc.malloc at h
  split at h
  · cases h; simp
  · cases h

theorem length_realloc {mem : Alloc} {old : Option (List UInt8)} {n : Nat} {block : List UInt8}
    (h : mem.realloc old n = some block) : block.length = n := by
  unfold Alloc.realloc at h
  split at h
  · cases h; simp; omega
  · cases h

theorem take_realloc {mem : Alloc} {old : Option (List UInt8)} {n k : Nat} {block : List UInt8}
    (h : mem.realloc old n = some block) (hk : k ≤ n) (ho : k ≤ (old.getD []).length) :
    block.take k = (old.getD []).take k := by
  unfold Alloc.realloc at h
  split at h
  · cases h
    rw [List.take_append_of_le_length (by simp; omega), List.take_take]
    congr 1; omega
  · cases h

theorem roundUp_gt (n : Nat) : n + bufferSize * 2 < roundUp n := by
  unfold roundUp bufferSize; omega

theorem write_ok {b b' : MessageBuffer} {bytes : List UInt8} (hw : b.Wf)
    (h : b.write bytes = .ok b') :
    b'.Wf ∧ b'.data = b.data ++ bytes ∧ b'.size = b.size + bytes.length ∧
      b'.capacity = b.capacity ∧ b'.maxSize = b.maxSize := by
  unfold write at h
  cases hb : b.buff with
  | none => rw [hb] at h; cases h
  | some block =>
    obtain ⟨hl, hs⟩ := hw.block block hb
    rw [hb] at h
    dsimp only at h
    split_ifs at h with hroom
    cases h
    have htake : (block.take b.size).length = b.size := by simp; omega
    refine ⟨.of_block rfl ?_ ?_, ?_, rfl, rfl, rfl⟩
    · simp; omega
    · dsimp only; omega
    · simp only [data, hb, Option.getD_some]
      exact List.take_left' (by simp; omega)

theorem write_size {b b' : MessageBuffer} {bytes : List UInt8} (h : b.write bytes = .ok b') :
    b'.size = b.size + bytes.length := by
  unfold write at h
  cases hb : b.buff with
  | none => rw [hb] at h; cases h
  | some block =>
    rw [hb] at h
    dsimp only at h
    split_ifs at h
    cases h
    rfl

theorem pushBack_size {b b' : MessageBuffer} {mem : Alloc} {bytes : List UInt8}
    (h : b.pushBack mem bytes = .ok b') : b'.size = b.size + bytes.length := by
  unfold pushBack at h
  dsimp only at h
  split_ifs at h
  · split at h
    · cases h
    · rw [write_size h]
  · exact write_size h

theorem init_wf (mem : Alloc) : (init mem).Wf := by
  constructor
  · intro _
    exact ⟨rfl, show bufferSize ≤ bufferSize * 2 by decide⟩
  · intro block h
    exact ⟨length_malloc h, Nat.zero_le _⟩

@[simp] theorem init_data (mem : Alloc) : (init mem).data = [] := by simp [data, init]

@[simp] theorem init_size (mem : Alloc) : (init mem).size = 0 := rfl

/-- Growing keeps the bytes in use. -/
theorem grow_ok {b : MessageBuffer} {mem : Alloc} {n : Nat} {block : List UInt8} (hw : b.Wf)
    (h : mem.realloc b.buff n = some block) (hn : b.size ≤ n) :
    let grown : MessageBuffer := { b with capacity := n, buff := some block }
    grown.Wf ∧ grown.data = b.data := by
  have hsize : b.size ≤ (b.buff.getD []).length := by
    cases hb : b.buff with
    | none => rw [(hw.null hb).1]; exact Nat.zero_le _
    | some old => rw [Option.getD_some, (hw.block old hb).1]; exact (hw.block old hb).2
  refine ⟨.of_block rfl (length_realloc h) hn, ?_⟩
  simp only [data, Option.getD_some, take_realloc h hn hsize]

theorem pushBack_ok {b b' : MessageBuffer} {mem : Alloc} {bytes : List UInt8} (hw : b.Wf)
    (h : b.pushBack mem bytes = .ok b') :
    b'.Wf ∧ b'.data = b.data ++ bytes ∧ b'.size = b.size + bytes.length ∧
      b'.maxSize = b.maxSize := by
  unfold pushBack at h
  dsimp only at h
  split_ifs at h with hmax hgrow hcap
  · split at h
    · cases h
    · rename_i block hrealloc
      have hgt := roundUp_gt (b.size + bytes.length)
      obtain ⟨hwf, hdata⟩ := grow_ok hw hrealloc (by omega)
      obtain ⟨hw', hd, hsz, -, hm⟩ := write_ok hwf h
      exact ⟨hw', by rw [hd, hdata], hsz, hm⟩
  · obtain ⟨hw', hd, hsz, -, hm⟩ := write_ok hw h
    exact ⟨hw', hd, hsz, hm⟩

theorem alloc_ok {b b' : MessageBuffer} {mem : Alloc} (hw : b.Wf) (hmem : mem.ok = true)
    (h : b.alloc mem = .ok b') :
    b'.Wf ∧ b'.data = b.data ∧ b'.size = b.size ∧ b'.maxSize = b.maxSize := by
  unfold alloc at h
  split_ifs at h with hroom hcap
  · cases h; exact ⟨hw, rfl, rfl, rfl⟩
  · split at h
    · cases h
    · cases h
      obtain ⟨block, hrealloc⟩ : ∃ block, mem.realloc b.buff (roundUp b.size) = some block := by
        simp [Alloc.realloc, hmem]
      have hgt := roundUp_gt b.size
      obtain ⟨hwf, hdata⟩ := grow_ok hw hrealloc (by omega)
      rw [hrealloc]
      exact ⟨hwf, hdata, rfl, rfl⟩

theorem erase_ok {b : MessageBuffer} {len : Nat} (hw : b.Wf) (hlen : len ≤ b.size) :
    ∃ b', b.erase len = .ok b' ∧ b'.Wf ∧ b'.data = b.data.drop len ∧ b'.size = b.size - len ∧
      b'.capacity = b.capacity ∧ b'.maxSize = b.maxSize := by
  unfold erase
  rw [if_neg (by omega)]
  by_cases h0 : len = 0
  · rw [if_pos h0, h0]
    exact ⟨b, rfl, hw, rfl, rfl, rfl, rfl⟩
  · rw [if_neg h0]
    cases hb : b.buff with
    | none => have := (hw.null hb).1; omega
    | some block =>
      obtain ⟨hl, hs⟩ := hw.block block hb
      refine ⟨_, rfl, .of_block rfl ?_ ?_, ?_, rfl, rfl, rfl⟩
      · simp; omega
      · dsimp only; omega
      · simp only [data, hb, Option.getD_some]
        rw [List.take_left' (by simp; omega), List.drop_take]

/-! ## Room behind the bytes in use -/

/-- There is room for `BUFFER_SIZE` bytes more. -/
def Roomy (b : MessageBuffer) : Prop := b.size + bufferSize ≤ b.capacity

theorem init_roomy (mem : Alloc) : (init mem).Roomy := by
  change 0 + bufferSize ≤ bufferSize
  omega

/-- `alloc` makes room, however little there was. -/
theorem alloc_roomy {b b' : MessageBuffer} {mem : Alloc} (h : b.alloc mem = .ok b') :
    b'.Roomy := by
  unfold alloc at h
  split_ifs at h with hroom hcap
  · cases h
    unfold Roomy
    omega
  · split at h
    · cases h
    · cases h
      have hgt := roundUp_gt b.size
      change b.size + bufferSize ≤ roundUp b.size
      omega

theorem erase_roomy {b b' : MessageBuffer} {len : Nat} (h : b.erase len = .ok b')
    (hb : b.Roomy) : b'.Roomy := by
  unfold erase at h
  unfold Roomy at hb ⊢
  cases hbuff : b.buff with
  | none =>
    rw [hbuff] at h
    dsimp only at h
    split_ifs at h <;> cases h
    · exact hb
    · dsimp only
      omega
  | some block =>
    rw [hbuff] at h
    dsimp only at h
    split_ifs at h <;> cases h
    · exact hb
    · dsimp only
      omega

/-! ## What the operations can fail with -/

theorem write_fault {b : MessageBuffer} {bytes : List UInt8} : b.write bytes ≠ .error .slot := by
  unfold write
  cases b.buff with
  | none => simp
  | some block => dsimp only; split_ifs <;> simp

theorem pushBack_fault {b : MessageBuffer} {mem : Alloc} {bytes : List UInt8} :
    b.pushBack mem bytes ≠ .error .slot := by
  unfold pushBack
  dsimp only
  split_ifs
  · simp
  · simp
  · split
    · simp
    · exact write_fault
  · exact write_fault

theorem alloc_fault {b : MessageBuffer} {mem : Alloc} : b.alloc mem ≠ .error .slot := by
  unfold alloc
  split_ifs
  · simp
  · simp
  · split <;> simp

theorem erase_fault {b : MessageBuffer} {len : Nat} : b.erase len ≠ .error .slot := by
  unfold erase
  cases b.buff with
  | none => dsimp only; split_ifs <;> simp
  | some block => dsimp only; split_ifs <;> simp

end MessageBuffer

end ChainSocket
