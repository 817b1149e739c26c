import ChainSocket.Buffer
import ChainSocket.Lib.Effect
import ChainSocket.Lib.Refine

/-!
# A MessageBuffer is a list of bytes

The operations of `MessageBuffer`, called one after another, against a list of bytes.

* `exec_simulates`: every operation that fits does to the bytes in use what it does to the list;
* `exec_capacity`: no operation gives memory back.
-/

namespace ChainSocket.MessageBuffer

/-- The operations, and what users do with the room behind the bytes in use. -/
inductive Op where
  | pushBack (mem : Alloc) (bytes : List UInt8)
  | alloc (mem : Alloc)
  | allocSize (mem : Alloc) (size : Nat)
  | erase (len : Nat)
  /-- `recv` to `buff + size`, the new `size`, and `alloc()`. -/
  | receive (mem : Alloc) (bytes : List UInt8)

/-- The offset that `alloc(size)` answers. -/
abbrev Offset := Option Nat

def exec : Op → MessageBuffer → Except Fault (Offset × MessageBuffer)
  | .pushBack mem bytes, b => do
    let b ← b.pushBack mem bytes
    return (none, b)
  | .alloc mem, b => do
    let b ← b.alloc mem
    return (none, b)
  | .allocSize mem size, b => do
    let (offset, b) ← b.allocSize mem size
    return (some offset, b)
  | .erase len, b => do
    let b ← b.erase len
    return (none, b)
  | .receive mem bytes, b => do
    let b ← b.write bytes
    let b ← b.alloc mem
    return (none, b)

/-- `realloc` succeeds, the sums that are computed are `int`s, no more is erased than there is,
and no more received than there is room for. -/
def Fits : Op → MessageBuffer → Prop
  | .pushBack mem bytes, b => mem.ok = true ∧ b.size + bytes.length ≤ intMax ∧
      (b.capacity ≤ b.size + bytes.length + bufferSize * 2 →
        roundUp (b.size + bytes.length) ≤ intMax)
  | .alloc mem, b => mem.ok = true ∧
      (b.capacity < b.size + bufferSize * 2 → roundUp b.size ≤ intMax)
  | .allocSize mem size, b => mem.ok = true ∧ b.size + size ≤ intMax ∧
      (b.capacity < b.size + size + bufferSize * 2 → roundUp (b.size + size) ≤ intMax)
  | .erase len, b => len ≤ b.size
  | .receive mem bytes, b => mem.ok = true ∧ b.size + bytes.length ≤ b.capacity ∧
      (b.capacity < b.size + bytes.length + bufferSize * 2 →
        roundUp (b.size + bytes.length) ≤ intMax)

/-- What the operations do to a list of bytes. -/
inductive Spec : Op → List UInt8 → Offset → List UInt8 → Prop
  | pushBack (mem : Alloc) (bytes l : List UInt8) : Spec (.pushBack mem bytes) l none (l ++ bytes)
  | alloc (mem : Alloc) (l : List UInt8) : Spec (.alloc mem) l none l
  | allocSize (mem : Alloc) {size : Nat} (l added : List UInt8) (length : added.length = size) :
      Spec (.allocSize mem size) l (some l.length) (l ++ added)
  | erase (len : Nat) (l : List UInt8) : Spec (.erase len) l none (l.drop len)
  | receive (mem : Alloc) (bytes l : List UInt8) : Spec (.receive mem bytes) l none (l ++ bytes)

/-- The bytes in use are the list, in a block of `capacity` bytes with room behind them. -/
structure Holds (b : MessageBuffer) (l : List UInt8) : Prop where
  wf : b.Wf
  block : b.buff ≠ none
  data : b.data = l
  roomy : b.Roomy

theorem init_holds {mem : Alloc} (hmem : mem.ok = true) : (init mem).Holds [] := by
  refine ⟨init_wf mem, ?_, init_data mem, init_roomy mem⟩
  simp [init, Alloc.malloc, hmem]

theorem Holds.length {b : MessageBuffer} {l : List UInt8} (h : b.Holds l) : l.length = b.size := by
  rw [← h.data, h.wf.data_length]

/-! ## The operations that fit -/

theorem realloc_some {mem : Alloc} (hmem : mem.ok = true) (old : Option (List UInt8)) (n : Nat) :
    ∃ block, mem.realloc old n = some block := by
  simp [Alloc.realloc, hmem]

/-- Bytes for which there is room are written. -/
theorem write_fits {b : MessageBuffer} (bytes : List UInt8) (hw : b.Wf) (hb : b.buff ≠ none)
    (hroom : b.size + bytes.length ≤ b.capacity) : ∃ b', b.write bytes = .ok b' ∧
      b'.buff ≠ none := by
  unfold write
  cases hbuff : b.buff with
  | none => exact absurd hbuff hb
  | some block =>
    have hl := (hw.block block hbuff).1
    dsimp only
    rw [if_neg (by omega)]
    exact ⟨_, rfl, by simp⟩

theorem pushBack_fits {mem : Alloc} {bytes : List UInt8} {b : MessageBuffer} {l : List UInt8}
    (h : b.Holds l) (hf : Fits (.pushBack mem bytes) b) :
    ∃ b', b.pushBack mem bytes = .ok b' ∧ b'.Holds (l ++ bytes) := by
  obtain ⟨hmem, hsum, hgrow⟩ := hf
  have hrun : ∃ b', b.pushBack mem bytes = .ok b' ∧ b'.buff ≠ none ∧ b'.Roomy := by
    unfold pushBack
    dsimp only
    rw [if_neg (by omega)]
    split_ifs with hsmall hcap
    · have := hgrow hsmall
      omega
    · obtain ⟨block, hblock⟩ := realloc_some hmem b.buff (roundUp (b.size + bytes.length))
      have hgt := roundUp_gt (b.size + bytes.length)
      obtain ⟨hw, -⟩ := grow_ok h.wf hblock (by omega)
      obtain ⟨b', hb', hbuff⟩ := write_fits bytes hw (by simp) (by dsimp only; omega)
      obtain ⟨-, -, hsize, hcapacity, -⟩ := write_ok hw hb'
      rw [hblock]
      refine ⟨b', hb', hbuff, ?_⟩
      unfold Roomy
      rw [hsize, hcapacity]
      dsimp only
      omega
    · obtain ⟨b', hb', hbuff⟩ := write_fits bytes h.wf h.block (by omega)
      obtain ⟨-, -, hsize, hcapacity, -⟩ := write_ok h.wf hb'
      refine ⟨b', hb', hbuff, ?_⟩
      unfold Roomy
      omega
  obtain ⟨b', hb', hbuff, hroomy⟩ := hrun
  obtain ⟨hw, hdata, -⟩ := pushBack_ok h.wf hb'
  exact ⟨b', hb', hw, hbuff, by rw [hdata, h.data], hroomy⟩

/-- `alloc()` succeeds with a block, whatever room there was. -/
theorem alloc_fits {mem : Alloc} {b : MessageBuffer} (hb : b.buff ≠ none)
    (hf : Fits (.alloc mem) b) : ∃ b', b.alloc mem = .ok b' ∧ b'.buff ≠ none := by
  obtain ⟨hmem, hgrow⟩ := hf
  unfold alloc
  split_ifs with hroom hcap
  · exact ⟨b, rfl, hb⟩
  · have := hgrow (by omega)
    omega
  · cases hbuff : b.buff with
    | none => exact absurd hbuff hb
    | some block =>
      obtain ⟨block', hblock⟩ := realloc_some hmem (some block) (roundUp b.size)
      exact ⟨_, rfl, by simp [hblock]⟩

theorem alloc_holds {mem : Alloc} {b b' : MessageBuffer} {l : List UInt8} (hw : b.Wf)
    (hdata : b.data = l) (hmem : mem.ok = true) (h : b.alloc mem = .ok b')
    (hb : b'.buff ≠ none) : b'.Holds l := by
  obtain ⟨hw', hdata', -⟩ := alloc_ok hw hmem h
  exact ⟨hw', hb, by rw [hdata', hdata], alloc_roomy h⟩

theorem allocSize_fits {mem : Alloc} {size : Nat} {b : MessageBuffer} {l : List UInt8}
    (h : b.Holds l) (hf : Fits (.allocSize mem size) b) :
    ∃ b' added, b.allocSize mem size = .ok (l.length, b') ∧ added.length = size ∧
      b'.Holds (l ++ added) := by
  obtain ⟨hmem, hsum, hgrow⟩ := hf
  -- in a block that starts with the old bytes, the added part lies right behind them
  have hadded : ∀ b' : MessageBuffer, ∀ block, b'.buff = some block →
      block.length = b'.capacity → b'.size = b.size + size → b'.size + bufferSize ≤ b'.capacity →
      block.take b.size = l → ∃ added, added.length = size ∧ b'.Holds (l ++ added) := by
    intro b' block hbuff hlen hsize hroom hold
    refine ⟨(block.drop b.size).take size, ?_, .of_block hbuff hlen (by omega), ?_, ?_, hroom⟩
    · simp
      omega
    · simp [hbuff]
    · simp only [data, hbuff, Option.getD_some, hsize, List.take_add, hold]
  have hstart : b.size + size - size = l.length := by
    rw [h.length]
    omega
  unfold allocSize
  dsimp only
  rw [if_neg (by omega)]
  split_ifs with hroom hcap
  · obtain ⟨block, hbuff⟩ : ∃ block, b.buff = some block := Option.ne_none_iff_exists'.1 h.block
    have hold : block.take b.size = l := by rw [← h.data, data, hbuff, Option.getD_some]
    obtain ⟨added, hsize, hholds⟩ := hadded { b with size := b.size + size } block hbuff
      (h.wf.block block hbuff).1 rfl (by dsimp only; omega) hold
    exact ⟨_, added, by rw [hstart], hsize, hholds⟩
  · have := hgrow (by omega)
    omega
  · obtain ⟨block, hblock⟩ := realloc_some hmem b.buff (roundUp (b.size + size))
    have hgt := roundUp_gt (b.size + size)
    have hlen := length_realloc hblock
    have hold : block.take b.size = l := by
      rw [← h.data]
      exact (grow_ok h.wf hblock (by omega)).2
    rw [hblock]
    obtain ⟨added, hsize, hholds⟩ := hadded
      { b with size := b.size + size, capacity := roundUp (b.size + size), buff := some block }
      block rfl hlen rfl (by dsimp only; omega) hold
    exact ⟨_, added, by rw [hstart], hsize, hholds⟩

theorem erase_block {b b' : MessageBuffer} {len : Nat} (h : b.erase len = .ok b')
    (hb : b.buff ≠ none) : b'.buff ≠ none := by
  unfold erase at h
  obtain ⟨block, hbuff⟩ := Option.ne_none_iff_exists'.1 hb
  rw [hbuff] at h
  dsimp only at h
  split_ifs at h <;> cases h
  · exact hb
  · simp

theorem erase_fits {len : Nat} {b : MessageBuffer} {l : List UInt8} (h : b.Holds l)
    (hf : Fits (.erase len) b) : ∃ b', b.erase len = .ok b' ∧ b'.Holds (l.drop len) := by
  obtain ⟨b', hb', hw, hdata, -⟩ := erase_ok h.wf hf
  exact ⟨b', hb', hw, erase_block hb' h.block, by rw [hdata, h.data], erase_roomy hb' h.roomy⟩

theorem receive_fits {mem : Alloc} {bytes : List UInt8} {b : MessageBuffer} {l : List UInt8}
    (h : b.Holds l) (hf : Fits (.receive mem bytes) b) :
    ∃ b₁ b', b.write bytes = .ok b₁ ∧ b₁.alloc mem = .ok b' ∧ b'.Holds (l ++ bytes) := by
  obtain ⟨hmem, hroom, hgrow⟩ := hf
  obtain ⟨b₁, hb₁, hbuff⟩ := write_fits _ h.wf h.block hroom
  obtain ⟨hw, hdata, hsize, hcapacity, -⟩ := write_ok h.wf hb₁
  have hfits : Fits (.alloc mem) b₁ := by
    refine ⟨hmem, ?_⟩
    rw [hsize, hcapacity]
    exact hgrow
  obtain ⟨b', hb', hbuff'⟩ := alloc_fits hbuff hfits
  exact ⟨b₁, b', hb₁, hb', alloc_holds hw (by rw [hdata, h.data]) hmem hb' hbuff'⟩

theorem exec_simulates : Refine.Simulates exec Fits Spec Holds := by
  intro op b l h hf
  cases op with
  | pushBack mem bytes =>
    obtain ⟨b', hb', hholds⟩ := pushBack_fits h hf
    exact ⟨none, b', _, by simp only [exec, hb']; rfl, .pushBack mem bytes l, hholds⟩
  | alloc mem =>
    obtain ⟨b', hb', hbuff⟩ := alloc_fits h.block hf
    exact ⟨none, b', l, by simp only [exec, hb']; rfl, .alloc mem l,
      alloc_holds h.wf h.data hf.1 hb' hbuff⟩
  | allocSize mem size =>
    obtain ⟨b', added, hb', hsize, hholds⟩ := allocSize_fits h hf
    exact ⟨some l.length, b', _, by simp only [exec, hb']; rfl, .allocSize mem l added hsize,
      hholds⟩
  | erase len =>
    obtain ⟨b', hb', hholds⟩ := erase_fits h hf
    exact ⟨none, b', _, by simp only [exec, hb']; rfl, .erase len l, hholds⟩
  | receive mem bytes =>
    obtain ⟨b₁, b', hb₁, hb', hholds⟩ := receive_fits h hf
    refine ⟨none, b', _, ?_, .receive mem bytes l, hholds⟩
    simp only [exec, hb₁]
    change (b₁.alloc mem >>= _) = _
    rw [hb']
    rfl

/-! ## The capacity -/

theorem write_capacity {b b' : MessageBuffer} {bytes : List UInt8} (h : b.write bytes = .ok b') :
    b'.capacity = b.capacity := by
  unfold write at h
  cases hb : b.buff with
  | none => rw [hb] at h; cases h
  | some block =>
    rw [hb] at h
    dsimp only at h
    split_ifs at h
    cases h
    rfl

theorem alloc_capacity {b b' : MessageBuffer} {mem : Alloc} (h : b.alloc mem = .ok b') :
    b.capacity ≤ b'.capacity := by
  unfold alloc at h
  split_ifs at h with hroom hcap
  · cases h
    exact Nat.le_refl _
  · have hgt := roundUp_gt b.size
    split at h <;> cases h
    dsimp only
    omega

theorem pushBack_capacity {b b' : MessageBuffer} {mem : Alloc} {bytes : List UInt8}
    (h : b.pushBack mem bytes = .ok b') : b.capacity ≤ b'.capacity := by
  unfold pushBack at h
  dsimp only at h
  split_ifs at h with hmax hgrow hcap
  · have hgt := roundUp_gt (b.size + bytes.length)
    split at h
    · cases h
    · rw [write_capacity h]
      dsimp only
      omega
  · exact Nat.le_of_eq (write_capacity h).symm

theorem allocSize_capacity {b b' : MessageBuffer} {mem : Alloc} {size offset : Nat}
    (h : b.allocSize mem size = .ok (offset, b')) : b.capacity ≤ b'.capacity := by
  unfold allocSize at h
  dsimp only at h
  split_ifs at h with hmax hroom hcap
  · cases h
    exact Nat.le_refl _
  · have hgt := roundUp_gt (b.size + size)
    split at h <;> cases h
    dsimp only
    omega

theorem erase_capacity {b b' : MessageBuffer} {len : Nat} (h : b.erase len = .ok b') :
    b'.capacity = b.capacity := by
  unfold erase at h
  cases hb : b.buff with
  | none =>
    rw [hb] at h
    dsimp only at h
    split_ifs at h <;> cases h <;> rfl
  | some block =>
    rw [hb] at h
    dsimp only at h
    split_ifs at h <;> cases h <;> rfl

theorem exec_capacity (op : Op) (b : MessageBuffer) (offset : Offset) (b' : MessageBuffer)
    (h : exec op b = .ok (offset, b')) : b.capacity ≤ b'.capacity := by
  cases op with
  | pushBack mem bytes =>
    obtain ⟨b₁, hb₁, hret⟩ := Effect.except_bind_inv h
    cases hret
    exact pushBack_capacity hb₁
  | alloc mem =>
    obtain ⟨b₁, hb₁, hret⟩ := Effect.except_bind_inv h
    cases hret
    exact alloc_capacity hb₁
  | allocSize mem size =>
    obtain ⟨⟨_, b₁⟩, hb₁, hret⟩ := Effect.except_bind_inv h
    cases hret
    exact allocSize_capacity hb₁
  | erase len =>
    obtain ⟨b₁, hb₁, hret⟩ := Effect.except_bind_inv h
    cases hret
    exact Nat.le_of_eq (erase_capacity hb₁).symm
  | receive mem bytes =>
    obtain ⟨b₁, hb₁, hrest⟩ := Effect.except_bind_inv h
    obtain ⟨b₂, hb₂, hret⟩ := Effect.except_bind_inv hrest
    cases hret
    rw [← write_capacity hb₁]
    exact alloc_capacity hb₂

end ChainSocket.MessageBuffer
