import ChainSocket.WebSocket.Frame

/-!
# The wire format

A frame as a value, the bytes it stands for, and that `frameStep` handles exactly those bytes.

* `frameStep_bytes`: what an iteration does at the bytes of a frame, whatever follows them;
* `frame_of_handles`: an iteration that handles a frame stands at the bytes of one.
-/

namespace ChainSocket

/-- The opcodes of the frames the loop handles. -/
inductive Opcode where
  | text | binary | closing | ping | pong
  deriving DecidableEq, Repr

namespace Opcode

def code : Opcode → UInt8
  | text => WsFrameType.text.code
  | binary => WsFrameType.binary.code
  | closing => WsFrameType.closing.code
  | ping => WsFrameType.ping.code
  | pong => WsFrameType.pong.code

def isData : Opcode → Bool
  | text | binary => true
  | closing | ping | pong => false

end Opcode

/-- One unfragmented frame without extensions, its length in the second byte or, when `wide`, in
the two bytes behind it. -/
structure Frame where
  opcode : Opcode
  key : Option MaskingKey
  wide : Bool
  payload : List UInt8
  fits : payload.length ≤ if wide then 0xFFFF else 125

namespace Frame

def keyBytes (f : Frame) : List UInt8 :=
  match f.key with
  | none => []
  | some key => key.toList

def masked (f : Frame) : List UInt8 :=
  match f.key with
  | none => f.payload
  | some key => mask key f.payload

def maskBit (f : Frame) : UInt8 := if f.key.isSome then 0x80 else 0

def header (f : Frame) : List UInt8 :=
  [0x80 ||| f.opcode.code] ++
    (if f.wide then (126 ||| f.maskBit) :: lengthBytes f.payload.length
    else [f.payload.length.toUInt8 ||| f.maskBit]) ++ f.keyBytes

def bytes (f : Frame) : List UInt8 := f.header ++ f.masked

end Frame

@[simp] theorem length_mask (key : MaskingKey) (s : List UInt8) :
    (mask key s).length = s.length := by
  simp [mask]

@[simp] theorem mask_mask (key : MaskingKey) (s : List UInt8) : mask key (mask key s) = s := by
  apply List.ext_getElem?
  intro i
  simp only [mask, List.getElem?_mapIdx, Option.map_map]
  cases s[i]? with
  | none => rfl
  | some b =>
    simp only [Option.map_some, Function.comp_apply, UInt8.xor_assoc, UInt8.xor_self,
      UInt8.xor_zero]

/-! ## Bits of the first bytes -/

theorem opcode_bits (o : Opcode) :
    (0x80 ||| o.code) &&& 0x70 = 0 ∧ (0x80 ||| o.code) &&& 0x80 = 0x80 ∧
      (0x80 ||| o.code) &&& 0x0F = o.code ∧ o.code ∈ handledOpcodes := by
  cases o <;> decide

theorem first_byte (b : UInt8) (hx : b &&& 0x70 = 0) (hf : b &&& 0x80 = 0x80) :
    b = 0x80 ||| (b &&& 0x0F) := by
  have : ∀ v : BitVec 8, v &&& 0x70#8 = 0#8 → v &&& 0x80#8 = 0x80#8 →
      v = 0x80#8 ||| (v &&& 0x0F#8) := by decide
  apply UInt8.eq_of_toBitVec_eq
  exact this b.toBitVec (congrArg UInt8.toBitVec hx) (congrArg UInt8.toBitVec hf)

theorem second_byte (b : UInt8) :
    b = (b &&& 0x7f) ||| (if b &&& 0x80 = 0x80 then 0x80 else 0) := by
  have : ∀ v : BitVec 8,
      v = (v &&& 0x7f#8) ||| (if v &&& 0x80#8 = 0x80#8 then 0x80#8 else 0#8) := by decide
  apply UInt8.eq_of_toBitVec_eq
  have h := this b.toBitVec
  by_cases hb : b &&& 0x80 = 0x80
  · have : b.toBitVec &&& 0x80#8 = 0x80#8 := congrArg UInt8.toBitVec hb
    rw [if_pos this] at h; rw [if_pos hb]; exact h
  · have : ¬ b.toBitVec &&& 0x80#8 = 0x80#8 := fun e => hb (UInt8.eq_of_toBitVec_eq e)
    rw [if_neg this] at h; rw [if_neg hb]; exact h

theorem length_bits (n : UInt8) (hn : n ≤ 0x7f) (m : Bool) :
    (n ||| if m then 0x80 else 0) &&& 0x7f = n ∧
      ((n ||| if m then 0x80 else 0) &&& 0x80 = 0x80 ↔ m = true) := by
  have : ∀ v : BitVec 8, v ≤ 0x7f#8 → ∀ m : Bool,
      (v ||| if m then 0x80#8 else 0#8) &&& 0x7f#8 = v ∧
        ((v ||| if m then 0x80#8 else 0#8) &&& 0x80#8 = 0x80#8 ↔ m = true) := by decide
  obtain ⟨h1, h2⟩ := this n.toBitVec hn m
  cases m with
  | true => exact ⟨UInt8.eq_of_toBitVec_eq h1, by simpa [← UInt8.toBitVec_inj] using h2⟩
  | false => exact ⟨UInt8.eq_of_toBitVec_eq h1, by simpa [← UInt8.toBitVec_inj] using h2⟩

/-! ## The bytes of a frame -/

theorem toNat_lengthBytes {n : Nat} (h : n ≤ 0xFFFF) :
    (n / 256).toUInt8.toNat * 256 + n.toUInt8.toNat = n := by
  simp only [UInt8.toNat_ofNat', Nat.toUInt8]; omega

namespace Frame

/-- What an iteration leaves in place of the payload. -/
def written (f : Frame) : List UInt8 :=
  match f.opcode with
  | .closing | .pong => f.masked
  | .text | .binary | .ping => f.payload

def step (f : Frame) : FrameStep :=
  if f.opcode.isData then .data f.header.length f.written
  else .control f.header.length f.written

theorem length_masked (f : Frame) : f.masked.length = f.payload.length := by
  unfold masked; split <;> simp

/-- The seven low bits of the second byte. -/
def lengthCode (f : Frame) : UInt8 := if f.wide then 126 else f.payload.length.toUInt8

theorem lengthCode_lt (f : Frame) : f.lengthCode < 126 ↔ f.wide = false := by
  obtain ⟨op, key, wide, payload, fits⟩ := f
  cases wide with
  | true => simp [lengthCode]
  | false =>
    simp only [Bool.false_eq_true, if_false] at fits
    simp [lengthCode, UInt8.lt_iff_toNat_lt, Nat.toUInt8]; omega

theorem lengthCode_eq (f : Frame) : (f.lengthCode = 126 ↔ f.wide = true) ∧ f.lengthCode ≠ 127 := by
  have h := f.lengthCode_lt
  cases hw : f.wide with
  | true => simp [lengthCode, hw]
  | false =>
    have hlt := h.mpr hw
    constructor
    · simp only [Bool.false_eq_true, iff_false]; rintro e; rw [e] at hlt; revert hlt; decide
    · rintro e; rw [e] at hlt; revert hlt; decide

theorem lengthCode_bits (f : Frame) :
    (f.lengthCode ||| f.maskBit) &&& 0x7f = f.lengthCode ∧
      ((f.lengthCode ||| f.maskBit) &&& 0x80 = 0x80 ↔ f.key.isSome = true) := by
  apply length_bits
  have h := f.lengthCode_lt
  cases hw : f.wide with
  | true => simp [lengthCode, hw]
  | false => exact UInt8.le_of_lt (UInt8.lt_trans (h.mpr hw) (by decide))

theorem length_header (f : Frame) : f.header.length =
    2 + (if f.wide then 2 else 0) + (if f.key.isSome then 4 else 0) := by
  obtain ⟨op, key, wide, payload, fits⟩ := f
  cases wide <;> cases key <;> simp [header, keyBytes, lengthBytes]

/-- The bytes an iteration reads by index. -/
theorem header_bytes (f : Frame) (s : List UInt8) :
    (f.header ++ s).getD 0 0 = 0x80 ||| f.opcode.code ∧
      (f.header ++ s).getD 1 0 = f.lengthCode ||| f.maskBit ∧
      (f.wide = true → (f.header ++ s).getD 2 0 = (f.payload.length / 256).toUInt8 ∧
        (f.header ++ s).getD 3 0 = f.payload.length.toUInt8) ∧
      ∀ key, f.key = some key →
        let i := if f.wide then 4 else 2
        #v[(f.header ++ s).getD i 0, (f.header ++ s).getD (i + 1) 0,
          (f.header ++ s).getD (i + 2) 0, (f.header ++ s).getD (i + 3) 0] = key := by
  obtain ⟨op, key, wide, payload, fits⟩ := f
  have hkey : ∀ k : MaskingKey, k = #v[k[0], k[1], k[2], k[3]] := by
    intro k
    apply Vector.ext
    intro i hi
    match i, hi with
    | 0, _ | 1, _ | 2, _ | 3, _ => rfl
  cases key with
  | none => cases wide <;> simp [header, lengthCode, maskBit, lengthBytes]
  | some k =>
    rw [hkey k]
    cases wide <;> simp [header, lengthCode, maskBit, lengthBytes, keyBytes]

end Frame

namespace Frame

/-- The locals an iteration has at a frame. -/
def head (f : Frame) : FrameHead :=
  ⟨f.opcode.code, f.key.isSome, f.lengthCode, f.header.length, f.payload.length,
    f.key.getD (Vector.replicate 4 0)⟩

theorem head_length (f : Frame) (s : List UInt8) :
    (if f.lengthCode < 126 then f.lengthCode.toNat
      else ((f.header ++ s).getD 2 0).toNat * 256 + ((f.header ++ s).getD 3 0).toNat) =
      f.payload.length := by
  obtain ⟨_, _, blen, _⟩ := f.header_bytes s
  have hlt := f.lengthCode_lt
  have hfits := f.fits
  cases hw : f.wide with
  | true =>
    rw [hw, if_pos rfl] at hfits
    rw [if_neg (by simp [hlt, hw]), (blen hw).1, (blen hw).2, toNat_lengthBytes hfits]
  | false =>
    rw [hw, if_neg (by decide)] at hfits
    rw [if_pos (by simp [hlt, hw])]
    simp [lengthCode, hw, Nat.toUInt8]; omega

theorem frameHead_header (f : Frame) (s : List UInt8) : frameHead (f.header ++ s) = f.head := by
  obtain ⟨-, -, hop, -⟩ := opcode_bits f.opcode
  obtain ⟨h7f, hm⟩ := f.lengthCode_bits
  obtain ⟨b0, b1, -, bkey⟩ := f.header_bytes s
  have hn := f.head_length s
  have hi : (if f.lengthCode < 126 then 2 else 4) = if f.wide then 4 else 2 := by
    cases hw : f.wide <;> simp [f.lengthCode_lt, hw]
  unfold frameHead head
  simp only [b0, b1, hop, h7f, hm, hn, hi, f.length_header, f.lengthCode_eq.1, f.lengthCode_eq.2,
    if_false, Nat.add_zero, Bool.decide_eq_true]
  cases hk : f.key with
  | none => rfl
  | some key =>
    simp only [Option.isSome_some, if_true, Option.getD_some]
    rw [bkey key hk]

end Frame

theorem frameStep_bytes (f : Frame) (t : List UInt8) : frameStep (f.bytes ++ t) = f.step := by
  obtain ⟨h70, h80, -, hhandled⟩ := opcode_bits f.opcode
  obtain ⟨b0, -, -, -⟩ := f.header_bytes (f.masked ++ t)
  have hhead := f.frameHead_header (f.masked ++ t)
  have hpay : ((f.header ++ (f.masked ++ t)).drop f.header.length).take f.payload.length =
      f.masked := by
    rw [List.drop_left, ← f.length_masked, List.take_left]
  have hlen : (f.header ++ (f.masked ++ t)).length =
      f.header.length + f.payload.length + t.length := by
    simp [f.length_masked]; omega
  have h2 : 2 ≤ f.header.length := by rw [f.length_header]; omega
  have hmask : (if f.key.isSome = true then
      mask (f.key.getD (Vector.replicate 4 0)) f.masked else f.masked) = f.payload := by
    cases hk : f.key <;> simp [Frame.masked, hk]
  unfold frameStep
  rw [Frame.bytes, List.append_assoc, hhead]
  simp only [Frame.head, b0, h70, h80, hpay, hmask, hhandled, hlen, f.lengthCode_eq.2]
  rw [if_neg (by omega), if_neg (by simp), if_neg (by simp), if_neg (by simp), if_neg (by omega),
    if_neg (by simp), if_neg (by omega)]
  unfold Frame.step Frame.written
  cases f.opcode <;> rfl

/-! ## A handled frame is one -/

theorem handled_opcode {c : UInt8} (h : c ∈ handledOpcodes) : ∃ o : Opcode, o.code = c := by
  simp only [handledOpcodes, List.mem_cons, List.not_mem_nil, or_false] at h
  rcases h with rfl | rfl | rfl | rfl | rfl
  exacts [⟨.text, rfl⟩, ⟨.binary, rfl⟩, ⟨.closing, rfl⟩, ⟨.ping, rfl⟩, ⟨.pong, rfl⟩]

/-- What the lengths an iteration checks say about the bytes it stands at. -/
structure Complete (s : List UInt8) : Prop where
  two : 2 ≤ s.length
  extensions : s.getD 0 0 &&& 0x70 = 0
  fin : s.getD 0 0 &&& 0x80 = 0x80
  handled : (frameHead s).opcode ∈ handledOpcodes
  narrow : (frameHead s).n0 ≠ 127
  whole : (frameHead s).headerSize + (frameHead s).n ≤ s.length

/-- An iteration handles a frame. -/
def FrameStep.handles : FrameStep → Bool
  | data _ _ | control _ _ => true
  | leave | close _ | abort => false

/-- The ways through an iteration. -/
inductive Iterates (s : List UInt8) : FrameStep → Prop where
  | waits : Iterates s .leave
  | extensions (h2 : 2 ≤ s.length) (h70 : s.getD 0 0 &&& 0x70 ≠ 0) :
      Iterates s (.close .websocketExtensionOn)
  | continuation (h2 : 2 ≤ s.length) (h70 : s.getD 0 0 &&& 0x70 = 0)
      (h80 : s.getD 0 0 &&& 0x80 ≠ 0x80) : Iterates s (.close .websocketContinuationOn)
  | abort (h2 : 2 ≤ s.length) (h70 : s.getD 0 0 &&& 0x70 = 0) (h80 : s.getD 0 0 &&& 0x80 = 0x80)
      (hop : (frameHead s).opcode ∈ handledOpcodes) (hhead : (frameHead s).headerSize ≤ s.length)
      (h127 : (frameHead s).n0 = 127) : Iterates s .abort
  | handles (c : Complete s) (step : FrameStep) (h : step.handles = true) : Iterates s step

theorem iterates (s : List UInt8) : Iterates s (frameStep s) := by
  unfold frameStep
  dsimp only
  by_cases h2 : s.length < 2
  · rw [if_pos h2]; exact .waits
  rw [if_neg h2]
  by_cases h70 : s.getD 0 0 &&& 0x70 ≠ 0
  · rw [if_pos h70]; exact .extensions (by omega) h70
  rw [if_neg h70]
  by_cases h80 : s.getD 0 0 &&& 0x80 ≠ 0x80
  · rw [if_pos h80]; exact .continuation (by omega) (not_not.mp h70) h80
  rw [if_neg h80]
  by_cases hop : (frameHead s).opcode ∉ handledOpcodes
  · rw [if_pos hop]; exact .waits
  rw [if_neg hop]
  by_cases hhead : s.length < (frameHead s).headerSize
  · rw [if_pos hhead]; exact .waits
  rw [if_neg hhead]
  by_cases h127 : (frameHead s).n0 = 127
  · rw [if_pos h127]
    exact .abort (by omega) (not_not.mp h70) (not_not.mp h80) (not_not.mp hop) (by omega) h127
  rw [if_neg h127]
  by_cases hlong : s.length < (frameHead s).headerSize + (frameHead s).n
  · rw [if_pos hlong]; exact .waits
  rw [if_neg hlong]
  have c : Complete s :=
    ⟨by omega, not_not.mp h70, not_not.mp h80, not_not.mp hop, h127, by omega⟩
  -- every handled opcode has a branch, so the last `abort` is not reached
  by_cases hdata : (frameHead s).opcode = WsFrameType.continuation.code ∨
      (frameHead s).opcode = WsFrameType.text.code ∨
      (frameHead s).opcode = WsFrameType.binary.code
  · rw [if_pos hdata]; exact .handles c _ rfl
  rw [if_neg hdata]
  by_cases hping : (frameHead s).opcode = WsFrameType.ping.code
  · rw [if_pos hping]; exact .handles c _ rfl
  rw [if_neg hping]
  have hmem := c.handled
  simp only [handledOpcodes, List.mem_cons, List.not_mem_nil, or_false] at hmem
  have hrest : (frameHead s).opcode = WsFrameType.pong.code ∨
      (frameHead s).opcode = WsFrameType.closing.code := by
    rcases hmem with e | e | e | e | e
    · exact absurd (.inr (.inl e)) hdata
    · exact absurd (.inr (.inr e)) hdata
    · exact .inr e
    · exact absurd e hping
    · exact .inl e
  rw [if_pos hrest]
  exact .handles c _ rfl

theorem complete_of_handles {s : List UInt8} (h : (frameStep s).handles = true) : Complete s := by
  have hi := iterates s
  revert h hi
  generalize frameStep s = step
  intro h hi
  cases hi with
  | handles c _ _ => exact c
  | waits | extensions | continuation | abort => cases h

theorem lengthCode_cases (b : UInt8) : b &&& 0x7f < 126 ∨ b &&& 0x7f = 126 ∨ b &&& 0x7f = 127 := by
  have : ∀ v : BitVec 8, v &&& 0x7f#8 < 126#8 ∨ v &&& 0x7f#8 = 126#8 ∨ v &&& 0x7f#8 = 127#8 := by
    decide
  rcases this b.toBitVec with h | h | h
  · exact .inl h
  · exact .inr (.inl (UInt8.eq_of_toBitVec_eq h))
  · exact .inr (.inr (UInt8.eq_of_toBitVec_eq h))

theorem lengthBytes_toNat (hi lo : UInt8) : lengthBytes (hi.toNat * 256 + lo.toNat) = [hi, lo] := by
  have h1 := hi.toNat_lt
  have h2 := lo.toNat_lt
  have e1 : (hi.toNat * 256 + lo.toNat) / 256 = hi.toNat := by omega
  have e2 : (hi.toNat * 256 + lo.toNat).toUInt8 = lo := by
    apply UInt8.toNat_inj.mp; simp [Nat.toUInt8]
  simp [lengthBytes, e1]

theorem take_eq_map_getD {s : List UInt8} {k : Nat} (h : k ≤ s.length) :
    s.take k = (List.range k).map fun i => s.getD i 0 := by
  apply List.ext_getElem
  · simp; omega
  · intro i h1 h2
    simp only [List.length_take] at h1
    have : i < s.length := by omega
    simp [this]

/-- The header of a complete frame, byte by byte. -/
theorem Complete.header {s : List UInt8} (c : Complete s) (f : Frame)
    (hop : f.opcode.code = (frameHead s).opcode)
    (hwide : f.wide = decide ((frameHead s).n0 = 126))
    (hkey : f.key = if (frameHead s).useMask then some (frameHead s).maskingKey else none)
    (hn : f.payload.length = (frameHead s).n) :
    s.take (frameHead s).headerSize = f.header := by
  obtain ⟨h2, h70, h80, -, h127, hlen⟩ := c
  have b0 := first_byte _ h70 h80
  have b1 := second_byte (s.getD 1 0)
  rw [take_eq_map_getD (by omega)]
  unfold Frame.header Frame.keyBytes Frame.maskBit
  rw [hkey, hwide, hn, hop]
  clear hkey hwide hn hop hlen
  by_cases hm : s.getD 1 0 &&& 0x80 = 0x80
  · rw [if_pos hm] at b1
    rcases lengthCode_cases (s.getD 1 0) with hw | hw | hw
    · have hne : s.getD 1 0 &&& 0x7f ≠ 126 := fun e => absurd (e ▸ hw) (by decide)
      have e : frameHead s = ⟨s.getD 0 0 &&& 0x0F, true, s.getD 1 0 &&& 0x7f, 6,
          (s.getD 1 0 &&& 0x7f).toNat,
          #v[s.getD 2 0, s.getD 3 0, s.getD 4 0, s.getD 5 0]⟩ := by
        simp only [frameHead] at h127 ⊢
        simp only [hm, hw, hne, h127, if_true, if_false, decide_true]
      rw [e]
      simp only [hne, decide_false, Bool.false_eq_true, if_false, if_true, Option.isSome_some]
      rw [← b0, Nat.toUInt8, UInt8.ofNat_toNat, ← b1]; rfl
    · have e : frameHead s = ⟨s.getD 0 0 &&& 0x0F, true, 126, 8,
          (s.getD 2 0).toNat * 256 + (s.getD 3 0).toNat,
          #v[s.getD 4 0, s.getD 5 0, s.getD 6 0, s.getD 7 0]⟩ := by
        simp only [frameHead, hm, hw]; rfl
      rw [e]
      rw [hw] at b1
      simp only [decide_true, if_true, Option.isSome_some]
      rw [← b0, lengthBytes_toNat, ← b1]; rfl
    · exact absurd hw h127
  · rw [if_neg hm] at b1
    rcases lengthCode_cases (s.getD 1 0) with hw | hw | hw
    · have hne : s.getD 1 0 &&& 0x7f ≠ 126 := fun e => absurd (e ▸ hw) (by decide)
      have e : frameHead s = ⟨s.getD 0 0 &&& 0x0F, false, s.getD 1 0 &&& 0x7f, 2,
          (s.getD 1 0 &&& 0x7f).toNat, Vector.replicate 4 0⟩ := by
        simp only [frameHead] at h127 ⊢
        simp only [hm, hw, hne, h127, if_true, if_false, decide_false, Bool.false_eq_true]
      rw [e]
      simp only [hne, decide_false, Bool.false_eq_true, if_false, Option.isSome_none]
      rw [← b0, Nat.toUInt8, UInt8.ofNat_toNat, ← b1]; rfl
    · have e : frameHead s = ⟨s.getD 0 0 &&& 0x0F, false, 126, 4,
          (s.getD 2 0).toNat * 256 + (s.getD 3 0).toNat, Vector.replicate 4 0⟩ := by
        simp only [frameHead, hm, hw]; rfl
      rw [e]
      rw [hw] at b1
      simp only [decide_true, if_true, Bool.false_eq_true, if_false, Option.isSome_none]
      rw [← b0, lengthBytes_toNat, ← b1]; rfl
    · exact absurd hw h127

theorem frameHead_n (s : List UInt8) (h : (frameHead s).n0 ≠ 127) :
    (frameHead s).n ≤ if (frameHead s).n0 = 126 then 0xFFFF else 125 := by
  simp only [frameHead] at h ⊢
  rcases lengthCode_cases (s.getD 1 0) with hw | hw | hw
  · have hne : s.getD 1 0 &&& 0x7f ≠ 126 := fun e => absurd (e ▸ hw) (by decide)
    rw [if_pos hw, if_neg hne]
    have := UInt8.lt_iff_toNat_lt.mp hw
    have h126 : (126 : UInt8).toNat = 126 := rfl
    omega
  · rw [hw, if_neg (by decide), if_pos rfl]
    have h1 := (s.getD 2 0).toNat_lt
    have h2 := (s.getD 3 0).toNat_lt
    omega
  · exact absurd hw h

/-- An iteration that handles a frame stands at the bytes of one. -/
theorem Complete.frame {s : List UInt8} (c : Complete s) :
    ∃ (f : Frame) (t : List UInt8), s = f.bytes ++ t := by
  obtain ⟨o, ho⟩ := handled_opcode c.handled
  let raw := (s.drop (frameHead s).headerSize).take (frameHead s).n
  have hraw : raw.length = (frameHead s).n := by
    have := c.whole
    simp [raw]; omega
  let key := if (frameHead s).useMask then some (frameHead s).maskingKey else none
  let payload := if (frameHead s).useMask then mask (frameHead s).maskingKey raw else raw
  have hpay : payload.length = (frameHead s).n := by
    simp only [payload]; split_ifs <;> simp [hraw]
  have hfits := frameHead_n s c.narrow
  let f : Frame := ⟨o, key, decide ((frameHead s).n0 = 126), payload, by
    simpa only [hpay, decide_eq_true_eq] using hfits⟩
  have hhead : s.take (frameHead s).headerSize = f.header := c.header f ho rfl rfl hpay
  have hmasked : f.masked = raw := by
    simp only [Frame.masked, f, key, payload]
    cases (frameHead s).useMask <;> simp
  refine ⟨f, s.drop ((frameHead s).headerSize + (frameHead s).n), ?_⟩
  rw [Frame.bytes, ← hhead, hmasked, List.append_assoc, ← List.drop_drop]
  simp only [raw, List.take_append_drop]

theorem frame_of_handles {s : List UInt8} (h : (frameStep s).handles = true) :
    ∃ (f : Frame) (t : List UInt8), s = f.bytes ++ t ∧ frameStep s = f.step := by
  obtain ⟨f, t, rfl⟩ := (complete_of_handles h).frame
  exact ⟨f, t, rfl, frameStep_bytes f t⟩

end ChainSocket
