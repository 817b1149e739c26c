import ChainSocket.Buffer.Refine

/-!
# The block behind a buffer

Which runs of the operations keep a block of `capacity` bytes behind a buffer, whatever `realloc`
answers.

* `alloc_storage`, `pushBack_storage`, ...: one operation on a buffer with its block;
* `storage_iff`: a run.
-/

namespace ChainSocket.MessageBuffer

/-- `buff` points to `capacity` bytes, among them the `size` in use. -/
def Stored (b : MessageBuffer) : Prop :=
  ∃ block, b.buff = some block ∧ block.length = b.capacity ∧ b.size ≤ b.capacity

/-- The operations, and `init` where it is called again. -/
inductive Call where
  | init (mem : Alloc)
  | op (op : Op)

def perform : Call → MessageBuffer → Except Fault (Offset × MessageBuffer)
  | .init mem, _ => .ok (none, init mem)
  | .op op, b => exec op b

/-- How the functions are called: `init` gets its block, no more is erased than there is, and no
more received than `recv` was offered. -/
def Proper : Call → MessageBuffer → Prop
  | .init mem, _ => mem.ok = true
  | .op (.erase len), b => len ≤ b.size
  | .op (.receive _ bytes), b => b.size + bytes.length ≤ b.capacity
  | _, _ => True

/-- What a call does to the bytes in use. -/
def Does : Call → List UInt8 → Offset → List UInt8 → Prop
  | .init _, _, offset, l' => offset = none ∧ l' = []
  | .op op, l, offset, l' => Spec op l offset l'

/-- The process aborts, or there is a block after the call, with the bytes that the call leaves. -/
def StoresAfter (call : Call) (b : MessageBuffer) : Prop :=
  match perform call b with
  | .ok (offset, b') => b'.Stored ∧ Does call b.data offset b'.data
  | .error fault => fault = .abort

/-- The sums are `int`s, and where it is `alloc()` that has to grow, `realloc` gives a block. -/
def Granted : Call → MessageBuffer → Prop
  | .init _, _ => True
  | .op (.pushBack _ bytes), b => b.size + bytes.length ≤ intMax ∧
      (b.capacity ≤ b.size + bytes.length + bufferSize * 2 →
        roundUp (b.size + bytes.length) ≤ intMax)
  | .op (.alloc mem), b => b.capacity < b.size + bufferSize * 2 →
      mem.ok = true ∧ roundUp b.size ≤ intMax
  | .op (.allocSize _ size), b => b.size + size ≤ intMax ∧
      (b.capacity < b.size + size + bufferSize * 2 → roundUp (b.size + size) ≤ intMax)
  | .op (.erase _), _ => True
  | .op (.receive mem bytes), b => b.capacity < b.size + bytes.length + bufferSize * 2 →
      mem.ok = true ∧ roundUp (b.size + bytes.length) ≤ intMax

theorem Stored.wf {b : MessageBuffer} (h : b.Stored) : b.Wf := by
  obtain ⟨block, hbuff, hlen, hsize⟩ := h
  exact .of_block hbuff hlen hsize

theorem Stored.some {b : MessageBuffer} (h : b.Stored) : b.buff ≠ none := by
  obtain ⟨block, hbuff, -⟩ := h
  simp [hbuff]

theorem Wf.stored {b : MessageBuffer} (hw : b.Wf) (hb : b.buff ≠ none) : b.Stored := by
  obtain ⟨block, hbuff⟩ := Option.ne_none_iff_exists'.mp hb
  exact ⟨block, hbuff, hw.block block hbuff⟩

theorem init_stored {mem : Alloc} (hmem : mem.ok = true) : (init mem).Stored := by
  apply (init_wf mem).stored
  simp [init, Alloc.malloc, hmem]

theorem realloc_none {mem : Alloc} (hmem : mem.ok = false) (old : Option (List UInt8)) (n : Nat) :
    mem.realloc old n = none := by
  simp [Alloc.realloc, hmem]

/-! ## One operation -/

/-- Bytes for which there is room in the block are written. -/
theorem write_stored {b : MessageBuffer} (hs : b.Stored) (bytes : List UInt8)
    (hroom : b.size + bytes.length ≤ b.capacity) : ∃ b', b.write bytes = .ok b' ∧ b'.Stored ∧
      b'.data = b.data ++ bytes ∧ b'.size = b.size + bytes.length ∧ b'.capacity = b.capacity := by
  obtain ⟨b', hb', hbuff⟩ := write_fits bytes hs.wf hs.some hroom
  obtain ⟨hw, hdata, hsize, hcapacity, -⟩ := write_ok hs.wf hb'
  exact ⟨b', hb', hw.stored hbuff, hdata, hsize, hcapacity⟩

/-- `push_back`: an overflow, an abort where `realloc` refuses a block, or the bytes in a block. -/
theorem pushBack_outcome {b : MessageBuffer} (hw : b.Wf) (mem : Alloc) (bytes : List UInt8) :
    ¬ Granted (.op (.pushBack mem bytes)) b ∧ b.pushBack mem bytes = .error .overflow ∨
      Granted (.op (.pushBack mem bytes)) b ∧
        (b.capacity ≤ b.size + bytes.length + bufferSize * 2 ∧ mem.ok = false ∧
            b.pushBack mem bytes = .error .abort ∨
          (b.capacity ≤ b.size + bytes.length + bufferSize * 2 → mem.ok = true) ∧
            ∃ b', b.pushBack mem bytes = .ok b' ∧ b'.buff ≠ none ∧
              (b'.capacity = b.capacity ∨ b'.capacity = roundUp (b.size + bytes.length) ∧
                roundUp (b.size + bytes.length) ≤ intMax)) := by
  unfold pushBack
  dsimp only
  by_cases hsum : intMax < b.size + bytes.length
  · rw [if_pos hsum]
    exact .inl ⟨fun hg => by have := hg.1; omega, rfl⟩
  rw [if_neg hsum]
  by_cases hgrow : b.capacity ≤ b.size + bytes.length + bufferSize * 2
  · rw [if_pos hgrow]
    by_cases hcap : intMax < roundUp (b.size + bytes.length)
    · rw [if_pos hcap]
      exact .inl ⟨fun hg => by have := hg.2 hgrow; omega, rfl⟩
    rw [if_neg hcap]
    refine .inr ⟨⟨by omega, fun _ => by omega⟩, ?_⟩
    have hgt := roundUp_gt (b.size + bytes.length)
    cases hmem : mem.ok with
    | false =>
      rw [realloc_none hmem]
      exact .inl ⟨hgrow, rfl, rfl⟩
    | true =>
      obtain ⟨block, hblock⟩ := realloc_some hmem b.buff (roundUp (b.size + bytes.length))
      obtain ⟨hgrown, -⟩ := grow_ok hw hblock (by omega)
      obtain ⟨b', hb', hs', -, -, hcapacity⟩ := write_stored (hgrown.stored (by simp)) bytes
        (by dsimp only; omega)
      rw [hblock]
      exact .inr ⟨fun _ => rfl, b', hb', hs'.some, .inr ⟨hcapacity, by omega⟩⟩
  · rw [if_neg hgrow]
    refine .inr ⟨⟨by omega, fun h => absurd h hgrow⟩, .inr ⟨fun h => absurd h hgrow, ?_⟩⟩
    -- a buffer without a block has a capacity that any push outgrows
    have hbuff : b.buff ≠ none := fun h => hgrow (by have := (hw.null h).2; omega)
    obtain ⟨b', hb', hs', -, -, hcapacity⟩ := write_stored (hw.stored hbuff) bytes (by omega)
    exact ⟨b', hb', hs'.some, .inl hcapacity⟩

/-- `push_back` on a block: an overflow, an abort, or the bytes behind the others. -/
theorem pushBack_storage {b : MessageBuffer} (hs : b.Stored) (mem : Alloc) (bytes : List UInt8) :
    ¬ Granted (.op (.pushBack mem bytes)) b ∧ b.pushBack mem bytes = .error .overflow ∨
      Granted (.op (.pushBack mem bytes)) b ∧ (b.pushBack mem bytes = .error .abort ∨
        ∃ b', b.pushBack mem bytes = .ok b' ∧ b'.Stored ∧ b'.data = b.data ++ bytes) := by
  rcases pushBack_outcome hs.wf mem bytes with hbad | ⟨hg, ⟨-, -, habort⟩ | ⟨-, b', hb', hbuff, -⟩⟩
  · exact .inl hbad
  · exact .inr ⟨hg, .inl habort⟩
  · obtain ⟨hw, hdata, -⟩ := pushBack_ok hs.wf hb'
    exact .inr ⟨hg, .inr ⟨b', hb', hw.stored hbuff, hdata⟩⟩

/-- `alloc()` on a block: without another block from `realloc` it loses the one there was. -/
theorem alloc_storage {b : MessageBuffer} (hs : b.Stored) (mem : Alloc) :
    ¬ Granted (.op (.alloc mem)) b ∧ (b.alloc mem = .error .overflow ∨
        ∃ b', b.alloc mem = .ok b' ∧ b'.buff = none) ∨
      Granted (.op (.alloc mem)) b ∧
        ∃ b', b.alloc mem = .ok b' ∧ b'.Stored ∧ b'.data = b.data := by
  obtain ⟨block, hbuff, hlen, hsize⟩ := hs
  have hs : b.Stored := ⟨block, hbuff, hlen, hsize⟩
  unfold alloc
  by_cases hroom : b.size + bufferSize * 2 ≤ b.capacity
  · rw [if_pos hroom]
    exact .inr ⟨fun h => by omega, b, rfl, hs, rfl⟩
  rw [if_neg hroom]
  by_cases hcap : intMax < roundUp b.size
  · rw [if_pos hcap]
    exact .inl ⟨fun hg => by have := (hg (by omega)).2; omega, .inl rfl⟩
  rw [if_neg hcap, hbuff]
  have hgt := roundUp_gt b.size
  cases hmem : mem.ok with
  | false =>
    refine .inl ⟨fun hg => ?_, .inr ⟨_, rfl, realloc_none hmem _ _⟩⟩
    rw [(hg (by omega)).1] at hmem
    cases hmem
  | true =>
    obtain ⟨block', hblock⟩ := realloc_some hmem b.buff (roundUp b.size)
    obtain ⟨hw, hdata⟩ := grow_ok hs.wf hblock (by omega)
    refine .inr ⟨fun _ => ⟨hmem, by omega⟩, _, rfl, ?_⟩
    rw [← hbuff, hblock]
    exact ⟨hw.stored (by simp), hdata⟩

/-- `alloc(size)` on a block: an overflow, an abort, or `size` bytes behind the others. -/
theorem allocSize_storage {b : MessageBuffer} (hs : b.Stored) (mem : Alloc) (size : Nat) :
    ¬ Granted (.op (.allocSize mem size)) b ∧ b.allocSize mem size = .error .overflow ∨
      Granted (.op (.allocSize mem size)) b ∧ (b.allocSize mem size = .error .abort ∨
        ∃ b' added, b.allocSize mem size = .ok (b.data.length, b') ∧ b'.Stored ∧
          added.length = size ∧ b'.data = b.data ++ added) := by
  -- in a block that starts with the old bytes, the added part lies right behind them
  have hadded : ∀ b' : MessageBuffer, ∀ block, b'.buff = some block → block.length = b'.capacity →
      b'.size = b.size + size → b'.size ≤ b'.capacity → block.take b.size = b.data →
      b'.Stored ∧ ((block.drop b.size).take size).length = size ∧
        b'.data = b.data ++ (block.drop b.size).take size := by
    intro b' block hbuff hlen hsize hroom hold
    refine ⟨⟨block, hbuff, hlen, hroom⟩, ?_, ?_⟩
    · simp
      omega
    · simp only [data, hbuff, Option.getD_some, hsize, List.take_add] at hold ⊢
      rw [hold]
  have hstart : b.size + size - size = b.data.length := by
    rw [hs.wf.data_length]
    omega
  unfold allocSize
  dsimp only
  by_cases hsum : intMax < b.size + size
  · rw [if_pos hsum]
    exact .inl ⟨fun hg => by have := hg.1; omega, rfl⟩
  rw [if_neg hsum]
  by_cases hroom : b.size + size + bufferSize * 2 ≤ b.capacity
  · rw [if_pos hroom]
    obtain ⟨block, hbuff, hlen, -⟩ := hs
    have hold : block.take b.size = b.data := by rw [data, hbuff, Option.getD_some]
    obtain ⟨hs', hsize, hdata⟩ := hadded { b with size := b.size + size } block hbuff hlen rfl
      (by dsimp only; omega) hold
    exact .inr ⟨⟨by omega, fun h => by omega⟩, .inr ⟨_, _, by rw [hstart], hs', hsize, hdata⟩⟩
  rw [if_neg hroom]
  by_cases hcap : intMax < roundUp (b.size + size)
  · rw [if_pos hcap]
    exact .inl ⟨fun hg => by have := hg.2 (by omega); omega, rfl⟩
  rw [if_neg hcap]
  refine .inr ⟨⟨by omega, fun _ => by omega⟩, ?_⟩
  have hgt := roundUp_gt (b.size + size)
  cases hblock : mem.realloc b.buff (roundUp (b.size + size)) with
  | none => exact .inl rfl
  | some block =>
    obtain ⟨hs', hsize, hdata⟩ := hadded
      { b with size := b.size + size, capacity := roundUp (b.size + size), buff := some block }
      block rfl (length_realloc hblock) rfl (by dsimp only; omega)
      (grow_ok hs.wf hblock (by omega)).2
    exact .inr ⟨_, _, by rw [hstart], hs', hsize, hdata⟩

/-! ## A run -/

/-- What is said of `alloc()` where it is the last thing that a call does. -/
theorem alloc_stores {b : MessageBuffer} (hs : b.Stored) {mem : Alloc}
    {post : Offset → List UInt8 → Prop} (hpost : post none b.data) :
    (match (do let b ← b.alloc mem; return (none, b) : Except Fault (Offset × MessageBuffer)) with
      | .ok (offset, b') => b'.Stored ∧ post offset b'.data
      | .error fault => fault = .abort) ↔ Granted (.op (.alloc mem)) b := by
  cases alloc_storage hs mem with
  | inl hbad =>
    obtain ⟨hg, hoverflow | ⟨b', hb', hnone⟩⟩ := hbad
    · rw [hoverflow]
      exact ⟨(absurd · (by simp)), fun h => absurd h hg⟩
    · rw [hb']
      exact ⟨fun h => absurd hnone h.1.some, fun h => absurd h hg⟩
  | inr hgood =>
    obtain ⟨hg, b', hb', hs', hdata⟩ := hgood
    rw [hb']
    refine ⟨fun _ => hg, fun _ => ⟨hs', ?_⟩⟩
    rwa [hdata]

/-- On a buffer with its block, a call keeps it exactly where it is granted one. -/
theorem storesAfter_iff {call : Call} {b : MessageBuffer} (hs : b.Stored) (hc : Proper call b) :
    StoresAfter call b ↔ Granted call b := by
  cases call with
  | init mem =>
    simp only [StoresAfter, perform, Granted, iff_true]
    exact ⟨init_stored hc, rfl, init_data mem⟩
  | op op =>
    unfold StoresAfter perform
    cases op with
    | pushBack mem bytes =>
      simp only [exec]
      cases pushBack_storage hs mem bytes with
      | inl hbad =>
        rw [hbad.2]
        exact ⟨(absurd · (by simp)), fun h => absurd h hbad.1⟩
      | inr hgood =>
        obtain ⟨hg, habort | ⟨b', hb', hs', hdata⟩⟩ := hgood
        · rw [habort]
          exact ⟨fun _ => hg, fun _ => rfl⟩
        · rw [hb']
          refine ⟨fun _ => hg, fun _ => ⟨hs', ?_⟩⟩
          rw [hdata]
          exact .pushBack mem bytes _
    | alloc mem => exact alloc_stores hs (.alloc mem _)
    | allocSize mem size =>
      simp only [exec]
      cases allocSize_storage hs mem size with
      | inl hbad =>
        rw [hbad.2]
        exact ⟨(absurd · (by simp)), fun h => absurd h hbad.1⟩
      | inr hgood =>
        obtain ⟨hg, habort | ⟨b', added, hb', hs', hsize, hdata⟩⟩ := hgood
        · rw [habort]
          exact ⟨fun _ => hg, fun _ => rfl⟩
        · rw [hb']
          refine ⟨fun _ => hg, fun _ => ⟨hs', ?_⟩⟩
          rw [hdata]
          exact .allocSize mem _ added hsize
    | erase len =>
      obtain ⟨b', hb', hw, hdata, -⟩ := erase_ok hs.wf hc
      simp only [exec, hb', Granted, iff_true]
      refine ⟨hw.stored (erase_block hb' hs.some), ?_⟩
      rw [hdata]
      exact .erase len _
    | receive mem bytes =>
      obtain ⟨b₁, hb₁, hs₁, hdata₁, hsize₁, hcap₁⟩ := write_stored hs bytes hc
      have hgranted : Granted (.op (.receive mem bytes)) b ↔ Granted (.op (.alloc mem)) b₁ := by
        simp only [Granted, hsize₁, hcap₁]
      have hspec : Spec (.receive mem bytes) b.data none b₁.data := by
        rw [hdata₁]
        exact .receive mem bytes _
      rw [hgranted]
      simp only [exec, hb₁]
      exact alloc_stores hs₁ hspec

theorem storesAfter_stored {call : Call} {b b' : MessageBuffer} {offset : Offset}
    (h : StoresAfter call b) (hb' : perform call b = .ok (offset, b')) : b'.Stored := by
  unfold StoresAfter at h
  rw [hb'] at h
  exact h.1

/-- In every state that the run comes to there is a block with the bytes in use, and a call that
does not return aborts the process. -/
def StoredThroughout (b : MessageBuffer) (calls : List Call) : Prop :=
  b.Stored ∧ Refine.Allowed perform StoresAfter b calls

/-- **A buffer keeps its block exactly along the runs in which the sums are `int`s and no `alloc()`
that has to grow is refused a block.** -/
theorem storage_iff {mem : Alloc} (hmem : mem.ok = true) {calls : List Call}
    (hcalls : Refine.Allowed perform Proper (init mem) calls) :
    StoredThroughout (init mem) calls ↔ Refine.Allowed perform Granted (init mem) calls := by
  have hs := init_stored hmem
  have hrun := Refine.allowed_iff (Q := Stored) (p := StoresAfter) (q := Granted)
    (fun _ _ => storesAfter_iff)
    (fun _ _ _ _ _ _ h hcall => storesAfter_stored h hcall) hs hcalls
  constructor
  · intro h
    exact hrun.mp h.2
  · intro h
    exact ⟨hs, hrun.mpr h⟩

/-- `realloc` gives a block to `alloc()` and none to `push_back`. -/
theorem storage_abort : StoredThroughout (init ⟨true, fun _ => 0⟩)
    [.op (.alloc ⟨true, fun _ => 0⟩), .op (.pushBack ⟨false, fun _ => 0⟩ [1])] := by
  have hproper : Refine.Allowed perform Proper (init ⟨true, fun _ => 0⟩)
      [.op (.alloc ⟨true, fun _ => 0⟩), .op (.pushBack ⟨false, fun _ => 0⟩ [1])] :=
    ⟨trivial, fun _ _ _ => ⟨trivial, fun _ _ _ => trivial⟩⟩
  apply (storage_iff rfl hproper).mpr
  refine ⟨fun _ => ⟨rfl, by decide⟩, fun offset b h => ?_⟩
  obtain ⟨b₁, hb₁, hret⟩ := Effect.except_bind_inv h
  cases hret
  obtain ⟨-, -, hsize, -⟩ := alloc_ok (init_wf _) rfl hb₁
  rw [init_size] at hsize
  refine ⟨⟨?_, fun _ => ?_⟩, fun _ _ _ => trivial⟩
  · rw [hsize]
    decide
  · rw [hsize]
    decide

/-- `alloc()` on a new buffer, when there is no memory. -/
theorem alloc_loses_block : ¬ ∀ (mem : Alloc) (calls : List Call), mem.ok = true →
    Refine.Allowed perform Proper (init mem) calls → StoredThroughout (init mem) calls := by
  intro h
  have hproper : Proper (.op (.alloc ⟨false, fun _ => 0⟩)) (init ⟨true, fun _ => 0⟩) := trivial
  obtain ⟨hs, hstores, -⟩ := h ⟨true, fun _ => 0⟩ [.op (.alloc ⟨false, fun _ => 0⟩)] rfl
    ⟨hproper, fun _ _ _ => trivial⟩
  have hgranted := (storesAfter_iff hs hproper).mp hstores (by decide)
  cases hgranted.1

end ChainSocket.MessageBuffer
