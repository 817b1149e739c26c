import ChainSocket.Lib.Base64
import ChainSocket.WebSocket.Clients
import ChainSocket.WebSocket.Digest
import Mathlib.Data.List.TakeWhile

/-!
# The reply to a request

What `onRecv` answers to a request that it accepts, beside the value that its key asks for.

* `base64_groups`: `base64` is base 64;
* `reply_of_key`: the reply, from the key that the parser has kept;
* `replies_of_length`: the lengths of the key for which the reply is right.
-/

namespace ChainSocket

open CString

/-! ## The characters -/

theorem table_character {x : UInt32} {v : Nat} (h : x.toNat = v) :
    base64Table.getD (x &&& 0x3f).toNat 0 = Base64.character v := by
  have hsix : (x &&& 0x3f).toNat = v % 64 := by
    rw [UInt32.toNat_and, h]
    exact Nat.and_two_pow_sub_one_eq_mod v 6
  rw [hsix]
  rfl

/-- A character of the group. -/
theorem base64Char_inside {left : UInt64} (h : left.toNat < 2 ^ 31) (x : UInt32) :
    base64Char left x = base64Table.getD (x &&& 0x3f).toNat 0 := by
  have hzero : left >>> 31 = 0 := by
    apply UInt64.toNat_inj.mp
    rw [UInt64.toNat_shiftRight]
    exact (Nat.shiftRight_eq_div_pow ..).trans (Nat.div_eq_of_lt h)
  unfold base64Char
  rw [hzero]
  simp

theorem masked_pad (t : UInt8) : ((8589934591 &&& 61 : UInt64) |||
    (~~~8589934591 &&& t.toUInt64)).toUInt8 = Base64.pad := by
  have hall : ∀ t : BitVec 8, ((8589934591 &&& 61 : UInt64) |||
      (~~~8589934591 &&& (UInt8.ofBitVec t).toUInt64)).toUInt8 = Base64.pad := by
    decide +kernel
  exact hall t.toBitVec

/-- A pad, where `left` has wrapped. -/
theorem base64Char_pad {left : UInt64} (h : left = -1 ∨ left = -2) (x : UInt32) :
    base64Char left x = Base64.pad := by
  have hones : left >>> 31 = 8589934591 := by
    rcases h with rfl | rfl <;> rfl
  unfold base64Char
  rw [hones, masked_pad]

theorem group_word (a b c : UInt8) :
    (a.toUInt32 <<< 0x10 ||| b.toUInt32 <<< 0x08 ||| c.toUInt32).toNat = Base64.group a b c := by
  have ha := a.toNat_lt
  have hb := b.toNat_lt
  have hc := c.toNat_lt
  have hword : a.toUInt32 <<< 0x10 ||| b.toUInt32 <<< 0x08 ||| c.toUInt32 = orWord 0 a b c := by
    have hzero : (0 : UInt8).toUInt32 = 0 := rfl
    simp only [orWord, hzero, UInt32.zero_shiftLeft, UInt32.or_zero]
    rw [UInt32.or_comm, UInt32.or_comm (a.toUInt32 <<< 0x10), UInt32.or_assoc]
  rw [hword, orWord_eq, Fips180.wordOf, UInt32.toNat_ofNat', Nat.mod_eq_of_lt]
  · simp [Base64.group]
  · change 0 * 2 ^ 24 + _ + _ + _ < 2 ^ 32
    omega

/-- The group at `i`, for the bytes there and what is left behind them. -/
theorem base64Group_eq {p : List UInt8} {i : Nat} {a b c : UInt8} (ha : p.getD i 0 = a)
    (hb : p.getD (i + 1) 0 = b) (hc : p.getD (i + 2) 0 = c) :
    base64Group p i =
      let left := p.length.toUInt64 - (i + 2).toUInt64
      let x := a.toUInt32 <<< 0x10 ||| b.toUInt32 <<< 0x08 ||| c.toUInt32
      [Base64.character (Base64.group a b c / 2 ^ 18),
        Base64.character (Base64.group a b c / 2 ^ 12), base64Char left (x >>> 6),
        base64Char (left - 1) x] := by
  have hbyte : ∀ j, (if j < p.length then (p.getD j 0).toUInt32 else 0) = (p.getD j 0).toUInt32 := by
    intro j
    split_ifs with hj
    · rfl
    · rw [List.getD_eq_default _ _ (Nat.not_lt.mp hj)]
      rfl
  have hshift : ∀ s : UInt32, s.toNat < 32 → ∀ x : UInt32, (x >>> s).toNat = x.toNat / 2 ^ s.toNat := by
    intro s hs x
    rw [UInt32.toNat_shiftRight, Nat.mod_eq_of_lt hs, Nat.shiftRight_eq_div_pow]
  subst ha hb hc
  unfold base64Group
  simp only [hbyte]
  rw [table_character (hshift 18 (by decide) _), table_character (hshift 12 (by decide) _), group_word]
  rfl

theorem base64Group_cons (a b c : UInt8) (rest : List UInt8) (i : Nat) :
    base64Group (a :: b :: c :: rest) (i + 3) = base64Group rest i := by
  have hleft : (a :: b :: c :: rest).length.toUInt64 - (i + 3 + 2).toUInt64 =
      rest.length.toUInt64 - (i + 2).toUInt64 := by
    change UInt64.ofNat (rest.length + 3) - UInt64.ofNat (i + 3 + 2) =
      UInt64.ofNat rest.length - UInt64.ofNat (i + 2)
    simp only [UInt64.ofNat_add]
    grind
  rw [base64Group_eq (p := a :: b :: c :: rest) rfl rfl rfl, base64Group_eq (p := rest) rfl rfl rfl,
    hleft]
  rfl

theorem group_characters {x : UInt32} {v : Nat} (h : x.toNat = v) :
    base64Table.getD (x >>> 6 &&& 0x3f).toNat 0 = Base64.character (v / 2 ^ 6) ∧
      base64Table.getD (x &&& 0x3f).toNat 0 = Base64.character v := by
  refine ⟨table_character ?_, table_character h⟩
  rw [UInt32.toNat_shiftRight, h]
  exact Nat.shiftRight_eq_div_pow v 6

/-- Group by group. -/
theorem base64_groups (p : List UInt8) (h : p.length < 2 ^ 31) :
    ((List.range ((p.length + 2) / 3)).flatMap fun k => base64Group p (3 * k)) =
      Base64.encode p := by
  induction p using Base64.encode.induct with
  | case1 => rfl
  | case2 a =>
    rw [show ([a].length + 2) / 3 = 1 by simp, List.range_one, List.flatMap_singleton,
      base64Group_eq (a := a) (b := 0) (c := 0) rfl rfl rfl]
    have hleft : [a].length.toUInt64 - (3 * 0 + 2).toUInt64 = -1 := rfl
    have hlast : (-1 - 1 : UInt64) = -2 := rfl
    dsimp only
    rw [hleft, hlast, base64Char_pad (.inl rfl), base64Char_pad (.inr rfl)]
    rfl
  | case3 a b =>
    obtain ⟨hthird, -⟩ := group_characters (group_word a b 0)
    rw [show ([a, b].length + 2) / 3 = 1 by simp, List.range_one, List.flatMap_singleton,
      base64Group_eq (a := a) (b := b) (c := 0) rfl rfl rfl]
    have hleft : [a, b].length.toUInt64 - (3 * 0 + 2).toUInt64 = 0 := by simp
    have hlast : (0 - 1 : UInt64) = -1 := rfl
    dsimp only
    rw [hleft, hlast, base64Char_inside (by decide), base64Char_pad (.inl rfl), hthird]
    rfl
  | case4 a b c rest ih =>
    obtain ⟨hthird, hfourth⟩ := group_characters (group_word a b c)
    have hlen : rest.length + 3 < 2 ^ 31 := h
    have hgroups : ((a :: b :: c :: rest).length + 2) / 3 = (rest.length + 2) / 3 + 1 := by
      change (rest.length + 3 + 2) / 3 = _
      omega
    have hleft : (a :: b :: c :: rest).length.toUInt64 - (0 + 2).toUInt64 =
        UInt64.ofNat (rest.length + 1) := by
      change UInt64.ofNat (rest.length + 3) - 2 = _
      simp only [UInt64.ofNat_add]
      grind
    have hlast : UInt64.ofNat (rest.length + 1) - 1 = UInt64.ofNat rest.length := by
      simp only [UInt64.ofNat_add]
      grind
    have hfirst : base64Group (a :: b :: c :: rest) 0 =
        [Base64.character (Base64.group a b c / 2 ^ 18),
          Base64.character (Base64.group a b c / 2 ^ 12),
          Base64.character (Base64.group a b c / 2 ^ 6),
          Base64.character (Base64.group a b c)] := by
      rw [base64Group_eq (a := a) (b := b) (c := c) rfl rfl rfl]
      dsimp only
      rw [hleft, hlast, base64Char_inside, base64Char_inside, hthird, hfourth]
      · rw [UInt64.toNat_ofNat', Nat.mod_eq_of_lt (by omega)]
        omega
      · rw [UInt64.toNat_ofNat', Nat.mod_eq_of_lt (by omega)]
        omega
    rw [hgroups, List.range_succ_eq_map, List.flatMap_cons, List.flatMap_map, Base64.encode,
      ← ih (by omega)]
    refine congrArg₂ _ hfirst (List.flatMap_congr fun k _ => ?_)
    exact base64Group_cons a b c rest (3 * k)

/-! ## The reply -/

/-- The reply with a value for `Sec-WebSocket-Accept`. -/
def replyWith (value : List UInt8) : List UInt8 :=
  ascii "HTTP/1.1 101 Switching Protocols\r\n" ++
    Field.upgrade.name ++ websocket ++ rn ++ Field.connection.name ++ upgrade2 ++ rn ++
    ascii "Sec-WebSocket-Accept: " ++ value ++ rn ++ rn

/-- The value for a key. -/
def acceptValue (key : List UInt8) : List UInt8 := Base64.encode (Fips180.sha1 (key ++ secret))

theorem strlen_eq {key : List UInt8} (h : 0 ∉ key) : strlen key = key.length := by
  unfold strlen
  rw [List.takeWhile_eq_self_iff.mpr]
  intro b hb
  have hne : b ≠ 0 := fun h0 => h (h0 ▸ hb)
  simpa using hne

/-- The reply is right for a key that fits the 8 bits of its length, if its digest is. -/
theorem reply_of_key {key : List UInt8} (hnul : 0 ∉ key) (hfits : key.length ≤ 219)
    (hroom : (key.length + 36) % 64 ≠ 56) :
    handshakeReply key = .ok (replyWith (acceptValue key)) := by
  have hlen : (key ++ secret).length = key.length + 36 := by
    rw [List.length_append, length_secret]
  have hmod : (key.length + 36) % 256 = key.length + 36 := Nat.mod_eq_of_lt (by omega)
  have hdigest : sha1 (key ++ secret) = Fips180.sha1 (key ++ secret) :=
    sha1_digest (by omega) (by rwa [hlen])
  have hchars : base64 (key.length + 36) (sha1 (key ++ secret)) = acceptValue key := by
    unfold base64
    rw [length_sha1, if_pos (by unfold base64len; omega), ← length_sha1 (key ++ secret),
      base64_groups _ (by rw [length_sha1]; omega), hdigest]
    rfl
  unfold handshakeReply
  rw [strlen_eq hnul, length_secret, hmod, if_neg (Nat.lt_irrefl _), List.take_length]
  dsimp only
  rw [length_sha1, if_neg (by unfold base64len; omega), hchars]
  rfl

/-- A longer key overruns the buffer for it and the secret. -/
theorem reply_overruns {key : List UInt8} (hnul : 0 ∉ key) (hlong : 219 < key.length)
    (hkept : key.length < 256) : handshakeReply key = .error .outOfBounds := by
  unfold handshakeReply
  rw [strlen_eq hnul, length_secret, if_pos (by omega)]

/-! ## The key of a request -/

/-- `key` is what the last `Sec-WebSocket-Key` line of the header has. -/
def KeyValue (lines : List (List UInt8)) (key : List UInt8) : Prop :=
  ∃ before after, lines = before ++ (Field.key.name ++ key) :: after ∧ ¬ HasField after .key

theorem fieldOf_key (key : List UInt8) : fieldOf (Field.key.name ++ key) = some .key := rfl

theorem storeLine_key {s : Lines} {line : List UInt8} (h : fieldOf line ≠ some .key) :
    (storeLine s line).hs.key = s.hs.key := by
  unfold storeLine
  cases hf : fieldOf line with
  | none => rfl
  | some f =>
    cases f with
    | key => exact absurd hf h
    | host | origin | protocol | version | connection | upgrade => rfl

theorem foldl_key {after : List (List UInt8)} (h : ¬ HasField after .key) (s : Lines) :
    (after.foldl storeLine s).hs.key = s.hs.key := by
  induction after generalizing s with
  | nil => rfl
  | cons line after ih =>
    rw [List.foldl_cons, ih fun ⟨l, hl, hf⟩ => h ⟨l, List.mem_cons_of_mem _ hl, hf⟩]
    exact storeLine_key fun hf => h ⟨line, List.mem_cons_self, hf⟩

/-- The parser keeps the first bytes of the key, as many as 8 bits say. -/
theorem readLines_key {lines : List (List UInt8)} {key : List UInt8} (h : KeyValue lines key)
    (hs : Handshake) : (readLines hs lines).hs.key = some (key.take (key.length % 256)) := by
  obtain ⟨before, after, rfl, hafter⟩ := h
  have hvalue : lineValue (Field.key.name ++ key) .key = key.take (key.length % 256) := by
    rw [lineValue, List.drop_left, List.length_append, Nat.add_sub_cancel_left]
  unfold readLines
  rw [List.foldl_append, List.foldl_cons, foldl_key hafter, storeLine_field (fieldOf_key key)
    (by decide), hvalue]
  rfl

namespace WebSocketPoller

/-- `onRecv` answers the request with the value for this key. -/
def Replies (hs : Handshake) (sid : Nat) (w behind : List UInt8) (calls : List WsCall)
    (key : List UInt8) : Prop :=
  ∃ goesOn s', (serverHandshake behind).run ⟨hs, some ⟨sid, .handshakeWait, w⟩, calls⟩ =
      .ok goesOn s' ∧ s'.calls = calls ++ [.sendTo (replyWith (acceptValue key))]

section

variable {hs hs' : Handshake} {w behind : List UInt8} {pos : Nat} {lines : List (List UInt8)}
  {key : List UInt8}

/-- What the parser has kept of the key of a request it accepts. -/
theorem accepted_key (blank : memstr (rn ++ rn) w = some pos)
    (accepted : wsParseHandshake (w ++ behind) (pos + 1) hs = .ok (.opening, hs'))
    (header : requestLines (w.take pos) = some lines) (hkey : KeyValue lines key) :
    hs'.key = some (key.take (key.length % 256)) ∧ 0 ∉ key := by
  obtain ⟨hpos, hsplit⟩ := header_split blank behind
  have hparse : wsParseHandshake (w.take pos ++ rn ++ (rn ++ (w.drop (pos + 4) ++ behind)))
      ((w.take pos).length + 1) hs = .ok (.opening, hs') := by
    rw [← hsplit, hpos, accepted]
  obtain ⟨hs₁, lines', -, hlines, hread, -, hkept⟩ := opening_reads hparse
  rw [header, Option.some.injEq] at hlines
  subst hlines
  refine ⟨by rw [hkept, readLines_key hkey], fun hnul => ?_⟩
  obtain ⟨before, after, rfl, -⟩ := hkey
  exact hread (Field.key.name ++ key) (by simp) (.inl (List.mem_append_right _ hnul))

/-- The branch that replies, with the key that has been kept. -/
theorem serverHandshake_reply (blank : memstr (rn ++ rn) w = some pos)
    (accepted : wsParseHandshake (w ++ behind) (pos + 1) hs = .ok (.opening, hs'))
    {kept : List UInt8} (hkept : hs'.key = some kept) (sid : Nat) (calls : List WsCall) :
    (serverHandshake behind).run ⟨hs, some ⟨sid, .handshakeWait, w⟩, calls⟩ =
      match handshakeReply kept with
      | .error e => .error e ⟨hs', some ⟨sid, .handshakeWait, w⟩, calls⟩
      | .ok reply => .ok (decide (w.drop (pos + 4) ≠ []))
          ⟨hs', some ⟨sid, .frame, w.drop (pos + 4)⟩, calls ++ [.sendTo reply]⟩ := by
  rw [serverHandshake_run, blank]
  dsimp only
  rw [accepted]
  dsimp only
  rw [if_neg (by decide)]
  generalize hs'.key = key at hkept ⊢
  cases hkept
  rfl

/-- **A request that is accepted is answered with the value for its key, all writes inside
`responseKey`, as long as the key has at most 219 bytes and the secret behind it does not fill all
but the length of a block; with a length above that, up to the 8 bits that are kept of it, the buffer
is overrun.** -/
theorem replies_of_length (blank : memstr (rn ++ rn) w = some pos)
    (accepted : wsParseHandshake (w ++ behind) (pos + 1) hs = .ok (.opening, hs'))
    (header : requestLines (w.take pos) = some lines) (hkey : KeyValue lines key) (sid : Nat)
    (calls : List WsCall) :
    (key.length ≤ 219 ∧ (key.length + 36) % 64 ≠ 56 → Replies hs sid w behind calls key) ∧
      (219 < key.length % 256 → ¬ Replies hs sid w behind calls key) := by
  obtain ⟨hkept, hnul⟩ := accepted_key blank accepted header hkey
  have hrun := serverHandshake_reply blank accepted hkept sid calls
  have hmod := Nat.mod_lt key.length (by decide : 0 < 256)
  constructor
  · rintro ⟨hfits, hroom⟩
    rw [Nat.mod_eq_of_lt (by omega), List.take_length, reply_of_key hnul hfits hroom] at hrun
    exact ⟨_, _, hrun, rfl⟩
  · rintro hlong ⟨goesOn, s', hreplies, -⟩
    have hlen : (key.take (key.length % 256)).length = key.length % 256 := by
      rw [List.length_take]
      omega
    rw [reply_overruns (fun h => hnul (List.mem_of_mem_take h)) (by omega) (by omega),
      hreplies] at hrun
    cases hrun

end

/-- The header of a request with this key in its last line. -/
def keyedHeader (key : List UInt8) : List UInt8 :=
  ascii "GET / HTTP/1.1\r\nHost: a\r\nUpgrade: websocket\r\nConnection: Upgrade\r\n" ++
    (Field.key.name ++ key)

def keyedRequest (key : List UInt8) : List UInt8 := keyedHeader key ++ rn ++ rn

def keyedLines (key : List UInt8) : List (List UInt8) :=
  [ascii "Host: a", ascii "Upgrade: websocket", ascii "Connection: Upgrade", Field.key.name ++ key]

theorem keyedLines_key (key : List UInt8) : KeyValue (keyedLines key) key :=
  ⟨[ascii "Host: a", ascii "Upgrade: websocket", ascii "Connection: Upgrade"], [], rfl,
    fun ⟨_, hl, _⟩ => by cases hl⟩

theorem keyedHeader_lines {key : List UInt8} (hfeed : 13 ∉ key) (hnul : 0 ∉ key) :
    requestLines (keyedHeader key) = some (keyedLines key) := by
  have hlast : ReadableLine (Field.key.name ++ key) :=
    ⟨⟨by simp [Field.name, ascii], by simpa using ⟨by decide, hfeed⟩⟩,
      by simpa using ⟨by decide, hnul⟩, fun h => by cases h⟩
  have hlines : ∀ line ∈ keyedLines key, ReadableLine line := by
    intro line hline
    simp only [keyedLines, List.mem_cons, List.not_mem_nil, or_false] at hline
    rcases hline with rfl | rfl | rfl | rfl
    · decide +kernel
    · decide +kernel
    · decide +kernel
    · exact hlast
  refine requestLines_header (List.cons_ne_nil _ _)
    (by decide +kernel : ReadableLine (ascii "GET / HTTP/1.1")) hlines ?_
  have hfirst : ascii "GET / HTTP/1.1\r\nHost: a\r\nUpgrade: websocket\r\nConnection: Upgrade\r\n" =
      joinLines [ascii "GET / HTTP/1.1", ascii "Host: a", ascii "Upgrade: websocket",
        ascii "Connection: Upgrade"] := by
    decide +kernel
  simp [keyedHeader, hfirst]

theorem keyedRequest_lines {key : List UInt8} {pos : Nat}
    (htake : (keyedRequest key).take pos = keyedHeader key) (hfeed : 13 ∉ key) (hnul : 0 ∉ key) :
    requestLines ((keyedRequest key).take pos) = some (keyedLines key) := by
  rw [htake]
  exact keyedHeader_lines hfeed hnul

/-- What the parser leaves behind such a request. -/
def keyedHandshake (key : List UInt8) : Handshake :=
  ⟨some (ascii "a"), none, some key, some (ascii "/"), .opening⟩

/-- 16 bytes in base 64, as a client sends them. -/
def sampleKey : List UInt8 := ascii "dGhlIHNhbXBsZSBub25jZQ=="

theorem replies_sample_key : Replies nullHandshake 0 (keyedRequest sampleKey) [] [] sampleKey := by
  have hblank : memstr (rn ++ rn) (keyedRequest sampleKey) = some 109 := by decide +kernel
  have haccepted : wsParseHandshake (keyedRequest sampleKey ++ []) (109 + 1) nullHandshake =
      .ok (.opening, keyedHandshake sampleKey) := by
    decide +kernel
  have htake : (keyedRequest sampleKey).take 109 = keyedHeader sampleKey := by decide +kernel
  exact (replies_of_length hblank haccepted
    (keyedRequest_lines htake (by decide +kernel) (by decide +kernel))
    (keyedLines_key sampleKey) 0 []).1 (by decide +kernel)

/-- A key of 220 bytes. -/
def longKey : List UInt8 := List.replicate 220 0x6b

theorem longKey_bytes {b : UInt8} (h : b ≠ 0x6b) : b ∉ longKey :=
  fun hb => h (List.eq_of_mem_replicate hb)

theorem long_key_overruns : ¬ ∀ (hs hs' : Handshake) (w behind : List UInt8) (pos : Nat)
    (lines : List (List UInt8)) (key : List UInt8), memstr (rn ++ rn) w = some pos →
    wsParseHandshake (w ++ behind) (pos + 1) hs = .ok (.opening, hs') →
    requestLines (w.take pos) = some lines → KeyValue lines key →
    ∀ sid calls, Replies hs sid w behind calls key := by
  intro h
  have hblank : memstr (rn ++ rn) (keyedRequest longKey) = some 305 := by decide +kernel
  have haccepted : wsParseHandshake (keyedRequest longKey ++ []) (305 + 1) nullHandshake =
      .ok (.opening, keyedHandshake longKey) := by
    decide +kernel
  have htake : (keyedRequest longKey).take 305 = keyedHeader longKey := by decide +kernel
  obtain ⟨goesOn, s', hrun, -⟩ := h _ _ _ _ _ _ _ hblank haccepted
    (keyedRequest_lines htake (longKey_bytes (by decide)) (longKey_bytes (by decide)))
    (keyedLines_key longKey) 0 []
  have hlen : longKey.length = 220 := List.length_replicate
  rw [serverHandshake_reply hblank haccepted rfl, reply_overruns (longKey_bytes (by decide))
    (by omega) (by omega)] at hrun
  cases hrun

end WebSocketPoller

end ChainSocket
