import ChainSocket.WebSocket.FrameLoop
import ChainSocket.WebSocket.RoundTrip

/-!
# wsParseInputFrame and wsMakeFrame

The functions of websocket.cpp for one frame in one buffer, against the frames that the loop of
`onRecv` reads.

* `wsParseInputFrame_bytes`: what is made of a frame with a payload, alone or with more behind it;
* `wsParseInputFrame_data_iff`, `wsParseInputFrame_abort_iff`: the buffers that give a payload, and
  those that `wsParseInputFrame` aborts at;
* `wsMakeFrame_read`: what `wsMakeFrame` writes is read by the loop, and not by `wsParseInputFrame`.
-/

namespace ChainSocket

/-- What `getPayloadLength` returns, and leaves in `*payloadFieldExtraBytes` and `*frameType`. -/
structure PayloadLength where
  payloadLength : Nat
  payloadFieldExtraBytes : Nat
  frameType : WsFrameType

def getPayloadLength (inputFrame : List UInt8) (frameType : WsFrameType) : PayloadLength :=
  let byte := fun i : Nat => inputFrame.getD i 0
  let inputLength := inputFrame.length
  let payloadLength := byte 1 &&& 0x7f
  if payloadLength = 126 ∧ inputLength < 4 ∨ payloadLength = 127 ∧ inputLength < 10 then
    ⟨0, 0, .incomplete⟩
  else if payloadLength = 127 ∧ byte 3 &&& 0x80 ≠ 0 then ⟨0, 0, .error⟩
  else if payloadLength = 126 then ⟨(byte 2).toNat * 256 + (byte 3).toNat, 2, frameType⟩
  else if payloadLength = 127 then ⟨0, 0, .error⟩
  else ⟨payloadLength.toNat, 0, frameType⟩

/-- The types that `wsParseInputFrame` takes an opcode for. -/
def inputTypes : List WsFrameType := [.text, .binary, .closing, .ping, .pong]

/-- What is returned, with the offset of `*dataPtr` and the `*dataLength` bytes there where these
are set. -/
def wsParseInputFrame (inputFrame : List UInt8) :
    Except Fault (WsFrameType × Option (Nat × List UInt8)) :=
  let byte := fun i : Nat => inputFrame.getD i 0
  let inputLength := inputFrame.length
  let opcode := byte 0 &&& 0x0F
  if inputLength = 0 then .error .abort
  else if inputLength < 2 then .ok (.incomplete, none)
  else if byte 0 &&& 0x70 ≠ 0 then .ok (.error, none)
  else if byte 0 &&& 0x80 ≠ 0x80 then .ok (.error, none)
  else if byte 1 &&& 0x80 ≠ 0x80 then .ok (.error, none)
  else
    match inputTypes.find? fun type => type.code = opcode with
    | none => .ok (.error, none)
    | some frameType =>
      let p := getPayloadLength inputFrame frameType
      let key := 2 + p.payloadFieldExtraBytes
      let maskingKey := #v[byte key, byte (key + 1), byte (key + 2), byte (key + 3)]
      if 0 < p.payloadLength then
        if inputLength < p.payloadLength + 6 + p.payloadFieldExtraBytes then
          .ok (.incomplete, none)
        else if p.payloadLength ≠ inputLength - 6 - p.payloadFieldExtraBytes then .error .abort
        else
          .ok (p.frameType,
            some (key + 4, mask maskingKey ((inputFrame.drop (key + 4)).take p.payloadLength)))
      else .ok (p.frameType, none)

/-- `wsMakeFrame`: what it leaves in `outFrame`, which has room for `capacity` bytes. -/
def wsMakeFrame (data : List UInt8) (capacity : Nat) (frameType : WsFrameType) :
    Except Fault (List UInt8) :=
  let dataLength := data.length
  if capacity = 0 ∨ 0x10 ≤ frameType.code then .error .abort
  else if 0xFFFF < dataLength then .error .abort
  else
    let header := (0x80 ||| frameType.code) ::
      if dataLength ≤ 125 then [dataLength.toUInt8] else 126 :: lengthBytes dataLength
    if capacity < header.length + dataLength then .error .outOfBounds
    else .ok (header ++ data)

def Opcode.frameType : Opcode → WsFrameType
  | text => .text
  | binary => .binary
  | closing => .closing
  | ping => .ping
  | pong => .pong

theorem inputTypes_find (o : Opcode) :
    (inputTypes.find? fun type => type.code = o.code) = some o.frameType := by
  cases o <;> decide

/-- The opcodes of the types are those the loop handles. -/
theorem inputTypes_none {c : UInt8} (h : c ∉ handledOpcodes) :
    (inputTypes.find? fun type => type.code = c) = none := by
  rw [List.find?_eq_none]
  intro type htype hcode
  apply h
  have hall : ∀ type ∈ inputTypes, type.code ∈ handledOpcodes := by decide
  simpa [of_decide_eq_true hcode] using hall type htype

/-- The first two bytes of a masked frame. -/
structure MaskedHead (s : List UInt8) (o : Opcode) : Prop where
  two : 2 ≤ s.length
  extensions : s.getD 0 0 &&& 0x70 = 0
  fin : s.getD 0 0 &&& 0x80 = 0x80
  masked : s.getD 1 0 &&& 0x80 = 0x80
  opcode : o.code = s.getD 0 0 &&& 0x0F

theorem wsParseInputFrame_masked {s : List UInt8} {o : Opcode} (h : MaskedHead s o) :
    wsParseInputFrame s =
      let p := getPayloadLength s o.frameType
      let key := 2 + p.payloadFieldExtraBytes
      let maskingKey := #v[s.getD key 0, s.getD (key + 1) 0, s.getD (key + 2) 0, s.getD (key + 3) 0]
      if 0 < p.payloadLength then
        if s.length < p.payloadLength + 6 + p.payloadFieldExtraBytes then .ok (.incomplete, none)
        else if p.payloadLength ≠ s.length - 6 - p.payloadFieldExtraBytes then .error .abort
        else
          .ok (p.frameType,
            some (key + 4, mask maskingKey ((s.drop (key + 4)).take p.payloadLength)))
      else .ok (p.frameType, none) := by
  have htwo := h.two
  unfold wsParseInputFrame
  dsimp only
  rw [if_neg (by omega), if_neg (by omega), if_neg (not_not.mpr h.extensions),
    if_neg (not_not.mpr h.fin), if_neg (not_not.mpr h.masked), ← h.opcode, inputTypes_find]

/-- Any other buffer of two bytes is refused. -/
theorem wsParseInputFrame_refused {s : List UInt8} (htwo : 2 ≤ s.length)
    (h : ∀ o, ¬ MaskedHead s o) : wsParseInputFrame s = .ok (.error, none) := by
  unfold wsParseInputFrame
  dsimp only
  rw [if_neg (by omega), if_neg (by omega)]
  by_cases h70 : s.getD 0 0 &&& 0x70 ≠ 0
  · rw [if_pos h70]
  by_cases h80 : s.getD 0 0 &&& 0x80 ≠ 0x80
  · rw [if_neg h70, if_pos h80]
  by_cases hmask : s.getD 1 0 &&& 0x80 ≠ 0x80
  · rw [if_neg h70, if_neg h80, if_pos hmask]
  rw [if_neg h70, if_neg h80, if_neg hmask, inputTypes_none]
  intro hop
  obtain ⟨o, ho⟩ := handled_opcode hop
  exact h o ⟨htwo, not_not.mp h70, not_not.mp h80, not_not.mp hmask, ho⟩

/-- The length has come in, and is not that of a jumbo frame. -/
structure Measured (s : List UInt8) : Prop where
  narrow : (frameHead s).n0 ≠ 127
  length : (frameHead s).n0 = 126 → 4 ≤ s.length

theorem measured_iff {s : List UInt8} : Measured s ↔
    (frameHead s).n0 ≠ 127 ∧ ((frameHead s).n0 = 126 → 4 ≤ s.length) :=
  ⟨fun h => ⟨h.narrow, h.length⟩, fun h => ⟨h.1, h.2⟩⟩

/-- Where the length has not come in, or is not supported, there is no payload. -/
theorem wsParseInputFrame_unmeasured {s : List UInt8} {o : Opcode} (h : MaskedHead s o)
    (hm : ¬ Measured s) :
    wsParseInputFrame s = .ok
      (if (frameHead s).n0 = 126 ∨ s.length < 10 then .incomplete else .error, none) := by
  rw [wsParseInputFrame_masked h]
  have hn0 : (frameHead s).n0 = s.getD 1 0 &&& 0x7f := rfl
  by_cases h126 : (frameHead s).n0 = 126
  · have hshort : s.length < 4 := by
      by_contra hlong
      exact hm ⟨by rw [h126]; decide, fun _ => by omega⟩
    have hp : getPayloadLength s o.frameType = ⟨0, 0, .incomplete⟩ := by
      unfold getPayloadLength
      rw [hn0] at h126
      dsimp only
      rw [if_pos (.inl ⟨h126, hshort⟩)]
    rw [hp]
    simp [h126]
  · have h127 : (frameHead s).n0 = 127 := by
      by_contra hne
      exact hm ⟨hne, fun h => absurd h h126⟩
    rw [if_congr (or_iff_right h126) rfl rfl]
    rw [hn0] at h126 h127
    have hp : getPayloadLength s o.frameType =
        ⟨0, 0, if s.length < 10 then .incomplete else .error⟩ := by
      unfold getPayloadLength
      dsimp only
      split_ifs with hinc hshort hbit hshort
      · rfl
      · omega
      · exact absurd (.inr ⟨h127, hshort⟩) hinc
      · rfl
      · exact absurd (.inr ⟨h127, ‹_›⟩) hinc
      · rfl
    rw [hp]
    simp

theorem parse_branches {α : Type} (n extra len : Nat) (a b c d : α) :
    (if 0 < n then
      if len < n + 6 + extra then a
      else if n ≠ len - 6 - extra then b
      else c
    else d) =
      if n = 0 then d
      else if len < 6 + extra + n then a
      else if len ≠ 6 + extra + n then b
      else c := by
  split_ifs <;> first | rfl | omega

theorem wsParseInputFrame_measured {s : List UInt8} {o : Opcode} (h : MaskedHead s o)
    (hm : Measured s) :
    wsParseInputFrame s =
      let h := frameHead s
      if h.n = 0 then .ok (o.frameType, none)
      else if s.length < h.headerSize + h.n then .ok (.incomplete, none)
      else if s.length ≠ h.headerSize + h.n then .error .abort
      else
        .ok (o.frameType,
          some (h.headerSize, mask h.maskingKey ((s.drop h.headerSize).take h.n))) := by
  have hmask := h.masked
  obtain ⟨h127, hlen⟩ := hm
  have hn0 : (frameHead s).n0 = s.getD 1 0 &&& 0x7f := rfl
  rw [hn0] at h127 hlen
  rw [wsParseInputFrame_masked h]
  by_cases h126 : s.getD 1 0 &&& 0x7f = 126
  · have hp : getPayloadLength s o.frameType =
        ⟨(s.getD 2 0).toNat * 256 + (s.getD 3 0).toNat, 2, o.frameType⟩ := by
      have := hlen h126
      unfold getPayloadLength
      dsimp only
      rw [if_neg (by rw [h126]; simp; omega), if_neg fun hj => h127 hj.1, if_pos h126]
    have hh : frameHead s = ⟨s.getD 0 0 &&& 0x0F, true, 126, 8,
        (s.getD 2 0).toNat * 256 + (s.getD 3 0).toNat,
        #v[s.getD 4 0, s.getD 5 0, s.getD 6 0, s.getD 7 0]⟩ := by
      simp only [frameHead, hmask, h126]
      rfl
    rw [hp, hh]
    exact parse_branches ..
  · have hlt : s.getD 1 0 &&& 0x7f < 126 := by
      rcases lengthCode_cases (s.getD 1 0) with hw | hw | hw
      · exact hw
      · exact absurd hw h126
      · exact absurd hw h127
    have hp : getPayloadLength s o.frameType = ⟨(s.getD 1 0 &&& 0x7f).toNat, 0, o.frameType⟩ := by
      unfold getPayloadLength
      dsimp only
      rw [if_neg fun hj => hj.elim (h126 ·.1) (h127 ·.1), if_neg fun hj => h127 hj.1, if_neg h126,
        if_neg h127]
    have hh : frameHead s = ⟨s.getD 0 0 &&& 0x0F, true, s.getD 1 0 &&& 0x7f, 6,
        (s.getD 1 0 &&& 0x7f).toNat,
        #v[s.getD 2 0, s.getD 3 0, s.getD 4 0, s.getD 5 0]⟩ := by
      simp only [frameHead, hmask, hlt, h126, h127, if_true, if_false, decide_true]
    rw [hp, hh]
    exact parse_branches ..

/-! ## Frames with a payload -/

theorem Frame.maskedHead (f : Frame) (hkey : f.key.isSome = true) (t : List UInt8) :
    MaskedHead (f.header ++ t) f.opcode ∧ Measured (f.header ++ t) := by
  obtain ⟨h70, h80, hop, -⟩ := opcode_bits f.opcode
  obtain ⟨b0, b1, -, -⟩ := f.header_bytes t
  have hlen : (f.header ++ t).length = f.header.length + t.length := List.length_append
  have hheader := f.length_header
  rw [hkey, if_pos rfl] at hheader
  constructor
  · refine ⟨by omega, by rw [b0, h70], by rw [b0, h80], ?_, by rw [b0, hop]⟩
    rw [b1]
    exact f.lengthCode_bits.2.mpr hkey
  · rw [measured_iff, f.frameHead_header]
    exact ⟨f.lengthCode_eq.2, fun _ => by omega⟩

/-- A frame with a payload, alone in the buffer or with more behind it. -/
theorem wsParseInputFrame_bytes (f : Frame) (hkey : f.key.isSome = true) (hpayload : f.payload ≠ [])
    (t : List UInt8) :
    wsParseInputFrame (f.bytes ++ t) =
      if t = [] then .ok (f.opcode.frameType, some (f.header.length, f.payload))
      else .error .abort := by
  obtain ⟨hhead, hmeasured⟩ := f.maskedHead hkey (f.masked ++ t)
  have hpos := List.length_pos_iff.mpr hpayload
  have hlen : (f.header ++ (f.masked ++ t)).length =
      f.header.length + f.payload.length + t.length := by
    simp [f.length_masked]; omega
  rw [Frame.bytes, List.append_assoc, wsParseInputFrame_measured hhead hmeasured]
  simp only [f.frameHead_header, Frame.head, hlen]
  rw [if_neg (by omega), if_neg (by omega)]
  by_cases ht : t = []
  · subst ht
    have hmask : mask (f.key.getD (Vector.replicate 4 0)) f.masked = f.payload := by
      obtain ⟨key, hsome⟩ := Option.isSome_iff_exists.mp hkey
      simp [Frame.masked, hsome]
    have htake : f.masked.take f.payload.length = f.masked :=
      List.take_of_length_le (by rw [f.length_masked])
    simp [htake, hmask]
  · have := List.length_pos_iff.mpr ht
    rw [if_pos (by omega), if_neg ht]

/-- A masked frame with a payload. -/
structure Frame.Filled (f : Frame) : Prop where
  masked : f.key.isSome = true
  payload : f.payload ≠ []

theorem frame_of_measured {s : List UInt8} {o : Opcode} (h : MaskedHead s o) (hm : Measured s)
    (hn : (frameHead s).n ≠ 0) (hlen : (frameHead s).headerSize + (frameHead s).n ≤ s.length) :
    ∃ (f : Frame) (t : List UInt8), f.Filled ∧ s = f.bytes ++ t := by
  have hop : (frameHead s).opcode = o.code := h.opcode.symm
  have hcomplete : Complete s := ⟨h.two, h.extensions, h.fin,
    hop ▸ (opcode_bits o).2.2.2, hm.narrow, hlen⟩
  obtain ⟨f, t, rfl⟩ := hcomplete.frame
  have hhead := f.frameHead_header (f.masked ++ t)
  rw [← List.append_assoc] at hhead
  have hmask : (frameHead (f.header ++ f.masked ++ t)).useMask = true := by
    simpa [frameHead, Frame.bytes] using h.masked
  rw [Frame.bytes, hhead] at hn
  rw [hhead] at hmask
  refine ⟨f, t, ⟨hmask, fun hnil => hn ?_⟩, rfl⟩
  simp [Frame.head, hnil]

/-- The buffer is empty, starts with a frame with a payload, or has no payload yet. -/
theorem wsParseInputFrame_cases (s : List UInt8) :
    s = [] ∨ (∃ (f : Frame) (t : List UInt8), f.Filled ∧ s = f.bytes ++ t) ∨
      ∃ type, wsParseInputFrame s = .ok (type, none) := by
  by_cases hnil : s = []
  · exact .inl hnil
  right
  by_cases htwo : s.length < 2
  · right
    have := List.length_pos_iff.mpr hnil
    refine ⟨.incomplete, ?_⟩
    unfold wsParseInputFrame
    dsimp only
    rw [if_neg (by omega), if_pos htwo]
  by_cases hhead : ∃ o, MaskedHead s o
  · obtain ⟨o, ho⟩ := hhead
    by_cases hm : Measured s
    · by_cases hwhole : (frameHead s).n ≠ 0 ∧ (frameHead s).headerSize + (frameHead s).n ≤ s.length
      · exact .inl (frame_of_measured ho hm hwhole.1 hwhole.2)
      · right
        rw [wsParseInputFrame_measured ho hm]
        dsimp only
        by_cases hn : (frameHead s).n = 0
        · exact ⟨_, by rw [if_pos hn]⟩
        · exact ⟨_, by rw [if_neg hn, if_pos (by omega)]⟩
    · exact .inr ⟨_, wsParseInputFrame_unmeasured ho hm⟩
  · exact .inr ⟨_, wsParseInputFrame_refused (by omega) (not_exists.mp hhead)⟩

theorem wsParseInputFrame_nil : wsParseInputFrame [] = .error .abort := rfl

/-- **A payload is given for exactly the buffers that hold one masked frame with a payload and
nothing else, and it is that of the frame. The loop of `onRecv` hands it on too where it is data,
and turns for ever where the frame is a control frame.** -/
theorem wsParseInputFrame_data (s : List UInt8) (type : WsFrameType) (offset : Nat)
    (payload : List UInt8) :
    (wsParseInputFrame s = .ok (type, some (offset, payload)) ↔
      ∃ f : Frame, f.Filled ∧ s = f.bytes ∧ type = f.opcode.frameType ∧
        offset = f.header.length ∧ payload = f.payload) ∧
    (wsParseInputFrame s = .ok (type, some (offset, payload)) →
      frameRun s =
        if type = .text ∨ type = .binary then ⟨[payload], .left []⟩ else ⟨[], .stuck⟩) := by
  have hiff : wsParseInputFrame s = .ok (type, some (offset, payload)) ↔
      ∃ f : Frame, f.Filled ∧ s = f.bytes ∧ type = f.opcode.frameType ∧
        offset = f.header.length ∧ payload = f.payload := by
    constructor
    · intro h
      rcases wsParseInputFrame_cases s with rfl | ⟨f, t, hf, rfl⟩ | ⟨type', hnone⟩
      · cases h
      · rw [wsParseInputFrame_bytes f hf.masked hf.payload] at h
        split_ifs at h with ht
        cases h
        exact ⟨f, hf, by simp [ht], rfl, rfl, rfl⟩
      · rw [hnone] at h
        cases h
    · rintro ⟨f, hf, rfl, rfl, rfl, rfl⟩
      have hparse := wsParseInputFrame_bytes f hf.masked hf.payload []
      rwa [List.append_nil, if_pos rfl] at hparse
  refine ⟨hiff, fun h => ?_⟩
  obtain ⟨f, hf, rfl, rfl, rfl, rfl⟩ := hiff.mp h
  cases hd : f.opcode.isData with
  | true =>
    have hrun := frameRun_bytes hd []
    rw [List.append_nil, frameRun_nil] at hrun
    rw [hrun, if_pos]
    · rfl
    · revert hd
      cases f.opcode <;> simp [Opcode.isData, Opcode.frameType]
  | false =>
    have hrun := frameRun_control hd []
    rw [List.append_nil] at hrun
    rw [hrun, if_neg]
    revert hd
    cases f.opcode <;> simp [Opcode.isData, Opcode.frameType]

/-- **It aborts at exactly the empty buffer and those in which more has come in behind a masked
frame with a payload.** -/
theorem wsParseInputFrame_abort_iff (s : List UInt8) (e : Fault) :
    wsParseInputFrame s = .error e ↔
      e = .abort ∧ (s = [] ∨ ∃ (f : Frame) (t : List UInt8),
        f.Filled ∧ t ≠ [] ∧ s = f.bytes ++ t) := by
  constructor
  · intro h
    rcases wsParseInputFrame_cases s with rfl | ⟨f, t, hf, rfl⟩ | ⟨type', hnone⟩
    · cases h
      exact ⟨rfl, .inl rfl⟩
    · rw [wsParseInputFrame_bytes f hf.masked hf.payload] at h
      split_ifs at h with ht
      cases h
      exact ⟨rfl, .inr ⟨f, t, hf, ht, rfl⟩⟩
    · rw [hnone] at h
      cases h
  · rintro ⟨rfl, rfl | ⟨f, t, hf, ht, rfl⟩⟩
    · exact wsParseInputFrame_nil
    · rw [wsParseInputFrame_bytes f hf.masked hf.payload, if_neg ht]

/-! ## Parts of frames -/

/-- What the first two bytes say. -/
theorem frameHead_append {s : List UInt8} (h2 : 2 ≤ s.length) (t : List UInt8) :
    (frameHead (s ++ t)).n0 = (frameHead s).n0 ∧
      (frameHead (s ++ t)).headerSize = (frameHead s).headerSize := by
  have h1 : (s ++ t).getD 1 0 = s.getD 1 0 := List.getD_append _ _ _ _ (by omega)
  simp only [frameHead, h1, and_self]

/-- What the bytes of the length say once they have come in. -/
theorem frameHead_append_n {s : List UInt8} (h2 : 2 ≤ s.length) (hm : Measured s)
    (t : List UInt8) : (frameHead (s ++ t)).n = (frameHead s).n := by
  have h1 : (s ++ t).getD 1 0 = s.getD 1 0 := List.getD_append _ _ _ _ (by omega)
  have h126 := hm.length
  have h127 := hm.narrow
  simp only [frameHead, h1] at h126 h127 ⊢
  split_ifs with hlt
  · rfl
  · have hwide : s.getD 1 0 &&& 0x7f = 126 := by
      rcases lengthCode_cases (s.getD 1 0) with hw | hw | hw
      · exact absurd hw hlt
      · exact hw
      · exact absurd hw h127
    have hlen := h126 hwide
    rw [List.getD_append _ _ _ _ (by omega), List.getD_append _ _ _ _ (by omega)]

theorem MaskedHead.append_iff {s : List UInt8} {o : Opcode} (h2 : 2 ≤ s.length) (t : List UInt8) :
    MaskedHead (s ++ t) o ↔ MaskedHead s o := by
  have h0 : (s ++ t).getD 0 0 = s.getD 0 0 := List.getD_append _ _ _ _ (by omega)
  have h1 : (s ++ t).getD 1 0 = s.getD 1 0 := List.getD_append _ _ _ _ (by omega)
  constructor
  · rintro ⟨-, hext, hfin, hmask, hop⟩
    rw [h0] at hext hfin hop
    rw [h1] at hmask
    exact ⟨h2, hext, hfin, hmask, hop⟩
  · rintro ⟨-, hext, hfin, hmask, hop⟩
    rw [← h0] at hext hfin hop
    rw [← h1] at hmask
    exact ⟨by rw [List.length_append]; omega, hext, hfin, hmask, hop⟩

theorem frame_length {s t : List UInt8} {f : Frame} (h : s = f.bytes ++ t) :
    f.bytes.length = (frameHead s).headerSize + (frameHead s).n := by
  rw [h, Frame.bytes, List.append_assoc, f.frameHead_header, List.length_append, f.length_masked]
  rfl

/-- Of a masked frame that is not a jumbo one there is more to come. -/
theorem frame_of_part {s : List UInt8} {o : Opcode} (h : MaskedHead s o)
    (h127 : (frameHead s).n0 ≠ 127)
    (hpart : Measured s →
      (frameHead s).n ≠ 0 ∧ s.length < (frameHead s).headerSize + (frameHead s).n) :
    ∃ f : Frame, f.Filled ∧ s <+: f.bytes ∧ s ≠ f.bytes := by
  -- enough bytes for any frame, and not zero where they stand for a length
  obtain ⟨k, hk⟩ : ∃ k, k = 66000 := ⟨_, rfl⟩
  let rest : List UInt8 := List.replicate k 1
  obtain ⟨hn0, hsize⟩ := frameHead_append h.two rest
  have hrest : (s ++ rest).length = s.length + k := by simp [rest]
  have hhead : MaskedHead (s ++ rest) o := (MaskedHead.append_iff h.two rest).mpr h
  have hmeasured : Measured (s ++ rest) := ⟨by rwa [hn0], fun _ => by omega⟩
  have hfits := frameHead_n (s ++ rest) hmeasured.narrow
  have hheader : (frameHead s).headerSize ≤ 8 := by
    simp only [frameHead] at h127 ⊢
    rw [if_neg h127]
    split_ifs <;> omega
  have hlong : (frameHead (s ++ rest)).n ≠ 0 ∧
      s.length < (frameHead s).headerSize + (frameHead (s ++ rest)).n := by
    by_cases hm : Measured s
    · rw [frameHead_append_n h.two hm]
      exact hpart hm
    · have hwide : (frameHead s).n0 = 126 ∧ s.length < 4 := by
        by_contra hne
        exact hm ⟨h127, fun h126 => by by_contra hshort; exact hne ⟨h126, by omega⟩⟩
      have hlast : (s ++ rest).getD 3 0 = 1 := by
        rw [List.getD_append_right _ _ _ _ (by omega), List.getD_replicate _ (by omega)]
      have hn : (frameHead (s ++ rest)).n =
          ((s ++ rest).getD 2 0).toNat * 256 + ((s ++ rest).getD 3 0).toNat := by
        have h126 := hwide.1
        rw [← hn0] at h126
        simp only [frameHead] at h126 ⊢
        rw [h126, if_neg (by decide)]
      have hmin : 8 ≤ (frameHead s).headerSize := by
        have hmask := h.masked
        have h126 := hwide.1
        simp only [frameHead] at h126 ⊢
        simp only [h126, hmask, if_true, decide_true]
        decide
      rw [hn, hlast]
      have hone : (1 : UInt8).toNat = 1 := rfl
      omega
  rw [← hsize] at hlong hheader
  have hn : (frameHead (s ++ rest)).n ≤ 65535 := by
    apply hfits.trans
    split_ifs <;> omega
  obtain ⟨f, t, hf, hsplit⟩ := frame_of_measured hhead hmeasured hlong.1 (by omega)
  have hlen := frame_length hsplit
  refine ⟨f, hf, ?_, ?_⟩
  · exact List.prefix_of_prefix_length_le (List.prefix_append s rest) ⟨t, hsplit.symm⟩ (by omega)
  · intro heq
    rw [← heq] at hlen
    omega

theorem frameType_ne_incomplete (o : Opcode) : o.frameType ≠ .incomplete := by
  cases o <;> decide

/-- **More is asked for at exactly one byte, at the parts of a masked frame with a payload, and at
the first nine bytes of a masked jumbo frame.** -/
theorem wsParseInputFrame_incomplete_iff (s : List UInt8) :
    wsParseInputFrame s = .ok (.incomplete, none) ↔
      s.length = 1 ∨ (2 ≤ s.length ∧ ∃ f : Frame, f.Filled ∧ s <+: f.bytes ∧ s ≠ f.bytes) ∨
        s.length < 10 ∧ ∃ o, MaskedHead s o ∧ (frameHead s).n0 = 127 := by
  constructor
  · intro h
    by_cases htwo : s.length < 2
    · left
      have hne : s.length ≠ 0 := by
        intro h0
        rw [List.length_eq_zero_iff.mp h0] at h
        cases h
      omega
    right
    by_cases hhead : ∃ o, MaskedHead s o
    · obtain ⟨o, ho⟩ := hhead
      by_cases h127 : (frameHead s).n0 = 127
      · right
        have hm : ¬ Measured s := fun hm => hm.narrow h127
        rw [wsParseInputFrame_unmeasured ho hm] at h
        refine ⟨?_, o, ho, h127⟩
        by_contra hlong
        rw [if_neg (by rw [h127]; simp; omega)] at h
        cases h
      · left
        refine ⟨ho.two, frame_of_part ho h127 fun hm => ?_⟩
        rw [wsParseInputFrame_measured ho hm] at h
        dsimp only at h
        split_ifs at h with hn hlen hmore
        · exact absurd (congrArg Prod.fst (Except.ok.inj h)) (frameType_ne_incomplete o)
        · exact ⟨hn, hlen⟩
        · exact absurd (congrArg Prod.snd (Except.ok.inj h)) (by simp)
    · rw [wsParseInputFrame_refused (by omega) (not_exists.mp hhead)] at h
      cases h
  · rintro (h1 | ⟨h2, f, hf, hpre, hne⟩ | ⟨hlen, o, ho, h127⟩)
    · unfold wsParseInputFrame
      dsimp only
      rw [if_neg (by omega), if_pos (by omega)]
    · obtain ⟨u, hu⟩ := hpre
      have hpos : 0 < u.length := by
        apply List.length_pos_iff.mpr
        rintro rfl
        exact hne (by simpa using hu)
      obtain ⟨hhead, hmeasured⟩ := f.maskedHead hf.masked f.masked
      have hframe : frameHead (s ++ u) = f.head := by
        rw [hu, Frame.bytes, f.frameHead_header]
      rw [← Frame.bytes, ← hu] at hhead hmeasured
      have ho := (MaskedHead.append_iff h2 u).mp hhead
      obtain ⟨hn0, hsize⟩ := frameHead_append h2 u
      by_cases hm : Measured s
      · have hn := frameHead_append_n h2 hm u
        have hwhole := frame_length (t := []) (f := f) (s := s ++ u) (by simp [hu])
        have hlen : s.length + u.length = f.bytes.length := by rw [← hu, List.length_append]
        have hpayload : (frameHead (s ++ u)).n ≠ 0 := by
          rw [hframe]
          exact (List.length_pos_iff.mpr hf.payload).ne'
        rw [wsParseInputFrame_measured ho hm]
        dsimp only
        rw [← hn, ← hsize, if_neg hpayload, if_pos (by omega)]
      · have h126 : (frameHead s).n0 = 126 := by
          by_contra hne126
          exact hm ⟨hn0 ▸ hmeasured.narrow, fun h => absurd h hne126⟩
        rw [wsParseInputFrame_unmeasured ho hm, if_pos (.inl h126)]
    · rw [wsParseInputFrame_unmeasured ho fun hm => hm.narrow h127, if_pos (.inr hlen)]

/-! ## What wsMakeFrame writes -/

theorem wsMakeFrame_bytes {o : Opcode} {data bytes : List UInt8} {capacity : Nat}
    (h : wsMakeFrame data capacity o.frameType = .ok bytes) :
    ∃ f : Frame, f.opcode = o ∧ f.key = none ∧ f.payload = data ∧ bytes = f.bytes := by
  have hcode : o.frameType.code = o.code := by cases o <;> rfl
  unfold wsMakeFrame at h
  dsimp only at h
  split_ifs at h with hargs hsize hnarrow hroom hroom
  · cases h
    refine ⟨⟨o, none, false, data, by simpa using hnarrow⟩, rfl, rfl, rfl, ?_⟩
    simp [Frame.bytes, Frame.header, Frame.masked, Frame.maskBit, Frame.keyBytes, hcode]
  · cases h
    refine ⟨⟨o, none, true, data, by simpa using hsize⟩, rfl, rfl, rfl, ?_⟩
    simp [Frame.bytes, Frame.header, Frame.masked, Frame.maskBit, Frame.keyBytes, hcode]

theorem Frame.unmasked {f : Frame} (hkey : f.key = none) (t : List UInt8) (o : Opcode) :
    ¬ MaskedHead (f.bytes ++ t) o := by
  intro ho
  have hmask := ho.masked
  obtain ⟨-, b1, -, -⟩ := f.header_bytes (f.masked ++ t)
  rw [Frame.bytes, List.append_assoc, b1, f.lengthCode_bits.2, hkey] at hmask
  cases hmask

theorem wsMakeFrame_run {o : Opcode} (ho : o.isData = true) {data bytes : List UInt8}
    {capacity : Nat} (h : wsMakeFrame data capacity o.frameType = .ok bytes) (t : List UInt8) :
    frameRun (bytes ++ t) = (frameRun t).cons data := by
  obtain ⟨f, rfl, -, rfl, rfl⟩ := wsMakeFrame_bytes h
  exact frameRun_bytes ho t

/-- **However the frames that `wsMakeFrame` writes for data messages are cut, `onRecv` hands on
exactly these messages; `wsParseInputFrame` refuses every two bytes or more of them.** -/
theorem wsMakeFrame_read (hs : Handshake) (sid : Nat) {msgs : List (Opcode × List UInt8)}
    {frames : List (List UInt8)} (hdata : ∀ m ∈ msgs, m.1.isData = true)
    (h : List.Forall₂ (fun m frame => ∃ capacity,
      wsMakeFrame m.2 capacity m.1.frameType = .ok frame) msgs frames) :
    (∀ (chunks : List (List UInt8 × List UInt8)) (fuel : Nat),
      (chunks.map Prod.fst).flatten = frames.flatten → msgs.length < fuel →
      (WebSocketPoller.receiveAll .idle fuel chunks).run ⟨hs, some ⟨sid, .frame, []⟩, []⟩ =
        .ok () ⟨hs, some ⟨sid, .frame, []⟩, msgs.map fun m => .onReadMsg m.2⟩) ∧
      ∀ part, part <+: frames.flatten → 2 ≤ part.length →
        wsParseInputFrame part = .ok (.error, none) := by
  have hrun : frameRun frames.flatten = ⟨msgs.map Prod.snd, .left []⟩ := by
    induction h with
    | nil => exact frameRun_nil
    | @cons m frame msgs frames hframe _ ih =>
      obtain ⟨capacity, hframe⟩ := hframe
      rw [List.flatten_cons, wsMakeFrame_run (hdata m List.mem_cons_self) hframe,
        ih fun m' hm => hdata m' (List.mem_cons_of_mem _ hm)]
      rfl
  constructor
  · intro chunks fuel hcut hfuel
    rw [← hcut, ← List.nil_append (List.flatten _)] at hrun
    have := WebSocketPoller.receiveAll_frames hs sid [] frameRun_nil hrun (by simpa using hfuel)
    simpa [Function.comp_def] using this
  · rintro part ⟨u, hu⟩ hlen
    cases h with
    | nil =>
      have hnil : part ++ u = [] := hu
      rw [(List.append_eq_nil_iff.mp hnil).1] at hlen
      cases hlen
    | @cons m frame msgs frames hframe _ =>
      obtain ⟨capacity, hframe⟩ := hframe
      obtain ⟨f, -, hkey, -, rfl⟩ := wsMakeFrame_bytes hframe
      refine wsParseInputFrame_refused hlen fun o ho => ?_
      have hwhole := (MaskedHead.append_iff hlen u).mpr ho
      rw [hu, List.flatten_cons] at hwhole
      exact Frame.unmasked hkey _ o hwhole

/-- Two messages in three pieces. -/
theorem wsMakeFrame_read_cut :
    (WebSocketPoller.receiveAll .idle 3 [([0x81], []), ([2, 0x48, 0x69, 0x82], [5]),
        ([1, 7], [])]).run ⟨nullHandshake, some ⟨0, .frame, []⟩, []⟩ =
      .ok () ⟨nullHandshake, some ⟨0, .frame, []⟩, [.onReadMsg [0x48, 0x69], .onReadMsg [7]]⟩ := by
  have hframes : List.Forall₂ (fun m frame => ∃ capacity,
      wsMakeFrame m.2 capacity m.1.frameType = .ok frame)
      [(Opcode.text, [0x48, 0x69]), (.binary, [7])] [[0x81, 2, 0x48, 0x69], [0x82, 1, 7]] :=
    .cons ⟨9, by decide⟩ (.cons ⟨3, by decide⟩ .nil)
  exact (wsMakeFrame_read nullHandshake 0 (by decide) hframes).1 _ _ (by decide) (by decide)

end ChainSocket
