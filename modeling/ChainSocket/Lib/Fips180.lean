import Mathlib.Data.List.GetD
import Mathlib.Data.UInt

/-!
# SHA-1 as FIPS 180-4 defines it

Words have 32 bits and are read from the bytes of a message with the first byte highest. The
sections of the standard are named beside the definitions.

* `schedule_lt`, `schedule_ge`: the message schedule, by its equations;
* `length_pad`, `word_append`, `word_zeros`, `word_lengthBytes`: what a padded message holds;
* `digest_inj`: a digest is its hash value.
-/

namespace Fips180

/-! ## Functions and constants (4.1.1, 4.2.1) -/

/-- ROTL (2.2.2). -/
def rotl (n : Nat) (x : UInt32) : UInt32 := ⟨x.toBitVec.rotateLeft n⟩

def ch (x y z : UInt32) : UInt32 := (x &&& y) ^^^ (~~~x &&& z)

def parity (x y z : UInt32) : UInt32 := x ^^^ y ^^^ z

def maj (x y z : UInt32) : UInt32 := (x &&& y) ^^^ (x &&& z) ^^^ (y &&& z)

def f (t : Nat) : UInt32 → UInt32 → UInt32 → UInt32 :=
  if t < 20 then ch else if t < 40 then parity else if t < 60 then maj else parity

def k (t : Nat) : UInt32 :=
  if t < 20 then 0x5a827999 else if t < 40 then 0x6ed9eba1
  else if t < 60 then 0x8f1bbcdc else 0xca62c1d6

/-! ## One block (6.1.2) -/

/-- A hash value, or the working variables. -/
structure Hash where
  a : UInt32
  b : UInt32
  c : UInt32
  d : UInt32
  e : UInt32
  deriving DecidableEq

/-- The message schedule of a block of 16 words. -/
def schedule (m : Nat → UInt32) (t : Nat) : UInt32 :=
  if t < 16 then m t
  else rotl 1 (schedule m (t - 3) ^^^ schedule m (t - 8) ^^^ schedule m (t - 14) ^^^
    schedule m (t - 16))
termination_by t

theorem schedule_lt (m : Nat → UInt32) {t : Nat} (h : t < 16) : schedule m t = m t := by
  rw [schedule, if_pos h]

theorem schedule_ge (m : Nat → UInt32) {t : Nat} (h : 16 ≤ t) : schedule m t =
    rotl 1 (schedule m (t - 3) ^^^ schedule m (t - 8) ^^^ schedule m (t - 14) ^^^
      schedule m (t - 16)) := by
  rw [schedule, if_neg (Nat.not_lt.mpr h)]

def step (w : Nat → UInt32) (h : Hash) (t : Nat) : Hash :=
  ⟨rotl 5 h.a + f t h.b h.c h.d + h.e + k t + w t, h.a, rotl 30 h.b, h.c, h.d⟩

def compress (h : Hash) (m : Nat → UInt32) : Hash :=
  let r := (List.range 80).foldl (step (schedule m)) h
  ⟨r.a + h.a, r.b + h.b, r.c + h.c, r.d + h.d, r.e + h.e⟩

theorem schedule_congr {m m' : Nat → UInt32} (h : ∀ t < 16, m t = m' t) (t : Nat) :
    schedule m t = schedule m' t := by
  induction t using Nat.strong_induction_on with
  | _ t ih =>
    by_cases ht : t < 16
    · rw [schedule_lt m ht, schedule_lt m' ht, h t ht]
    · rw [schedule_ge m (by omega), schedule_ge m' (by omega), ih (t - 3) (by omega),
        ih (t - 8) (by omega), ih (t - 14) (by omega), ih (t - 16) (by omega)]

/-- A block is its 16 words. -/
theorem compress_congr {m m' : Nat → UInt32} (h : ∀ t < 16, m t = m' t) (x : Hash) :
    compress x m = compress x m' := by
  unfold compress
  rw [show schedule m = schedule m' from funext (schedule_congr h)]

/-! ## The message (5.1.1, 5.2.1, 5.3.1) -/

def initial : Hash := ⟨0x67452301, 0xefcdab89, 0x98badcfe, 0x10325476, 0xc3d2e1f0⟩

/-- A length in bits, as 64 bits. -/
def lengthBytes (n : Nat) : List UInt8 :=
  (List.range 8).map fun i => UInt8.ofNat (n / 256 ^ (7 - i))

def pad (m : List UInt8) : List UInt8 :=
  m ++ 0x80 :: (List.replicate ((119 - m.length % 64) % 64) 0 ++ lengthBytes (8 * m.length))

def wordOf (b₀ b₁ b₂ b₃ : UInt8) : UInt32 :=
  UInt32.ofNat (b₀.toNat * 2 ^ 24 + b₁.toNat * 2 ^ 16 + b₂.toNat * 2 ^ 8 + b₃.toNat)

/-- The word at the bytes from `i` on. -/
def word (bytes : List UInt8) (i : Nat) : UInt32 :=
  wordOf (bytes.getD i 0) (bytes.getD (i + 1) 0) (bytes.getD (i + 2) 0) (bytes.getD (i + 3) 0)

def block (bytes : List UInt8) (i : Nat) : Nat → UInt32 := fun t => word bytes (64 * i + 4 * t)

def hash (bytes : List UInt8) : Hash :=
  (List.range (bytes.length / 64)).foldl (fun h i => compress h (block bytes i)) initial

def wordBytes (x : UInt32) : List UInt8 :=
  (List.range 4).map fun i => UInt8.ofNat (x.toNat / 256 ^ (3 - i))

/-- The digest of a message of less than 2^64 bits. -/
def sha1 (m : List UInt8) : List UInt8 :=
  let h := hash (pad m)
  [h.a, h.b, h.c, h.d, h.e].flatMap wordBytes

/-- The bytes of a hash value. -/
def digest (h : Hash) : List UInt8 := [h.a, h.b, h.c, h.d, h.e].flatMap wordBytes

theorem sha1_eq (m : List UInt8) : sha1 m = digest (hash (pad m)) := rfl

/-! ## What a padded message holds -/

@[simp] theorem length_lengthBytes (n : Nat) : (lengthBytes n).length = 8 := by
  simp [lengthBytes]

/-- A padded message has whole blocks: one more than the message where the length still fits behind
its last bytes, and two more where it does not. -/
theorem length_pad (m : List UInt8) : (pad m).length =
    64 * (m.length / 64) + if m.length % 64 < 56 then 64 else 128 := by
  have hmod := Nat.mod_lt m.length (by decide : 0 < 64)
  have hdiv := Nat.div_add_mod m.length 64
  simp only [pad, List.length_append, List.length_cons, List.length_replicate, length_lengthBytes]
  split_ifs <;> omega

theorem word_append (m t : List UInt8) {i : Nat} (h : i + 4 ≤ m.length) :
    word (m ++ t) i = word m i := by
  unfold word
  rw [List.getD_append _ _ _ _ (by omega), List.getD_append _ _ _ _ (by omega),
    List.getD_append _ _ _ _ (by omega), List.getD_append _ _ _ _ (by omega)]

theorem word_drop (m : List UInt8) (j i : Nat) : word (m.drop j) i = word m (j + i) := by
  simp [word, List.getD_eq_getElem?_getD, Nat.add_assoc]

theorem word_append_right (m t : List UInt8) (i : Nat) :
    word (m ++ t) (m.length + i) = word t i := by
  rw [← word_drop, List.drop_left]

/-- Zeros behind a message, and what is behind them, are not seen as long as they reach. -/
theorem word_zeros (m t : List UInt8) {i z : Nat} (h : i + 4 ≤ m.length + z) :
    word (m ++ (List.replicate z 0 ++ t)) i = word m i := by
  have hbyte : ∀ j, j < m.length + z → (m ++ (List.replicate z 0 ++ t)).getD j 0 = m.getD j 0 := by
    intro j hj
    by_cases hm : j < m.length
    · rw [List.getD_append _ _ _ _ hm]
    · have hz : j - m.length < z := by omega
      rw [List.getD_append_right _ _ _ _ (by omega),
        List.getD_append _ _ _ _ (by rwa [List.length_replicate]), List.getD_replicate _ hz,
        List.getD_eq_default _ _ (by omega)]
  unfold word
  rw [hbyte i (by omega), hbyte (i + 1) (by omega), hbyte (i + 2) (by omega),
    hbyte (i + 3) (by omega)]

theorem word_behind (m : List UInt8) {i : Nat} (h : m.length ≤ i) : word m i = 0 := by
  unfold word
  rw [List.getD_eq_default _ _ h, List.getD_eq_default _ _ (by omega),
    List.getD_eq_default _ _ (by omega), List.getD_eq_default _ _ (by omega)]
  rfl

/-- A length of less than 2^32 bits. -/
theorem word_lengthBytes {n : Nat} (h : n < 2 ^ 32) :
    word (lengthBytes n) 0 = 0 ∧ word (lengthBytes n) 4 = UInt32.ofNat n := by
  have hzero : ∀ i, 4 ≤ i → n / 256 ^ i = 0 := by
    intro i hi
    have hpow : 256 ^ 4 ≤ 256 ^ i := Nat.pow_le_pow_right (by omega) hi
    exact Nat.div_eq_of_lt (by omega)
  have hbyte : ∀ i < 8, (lengthBytes n).getD i 0 = UInt8.ofNat (n / 256 ^ (7 - i)) := by
    intro i hi
    rw [List.getD_eq_getElem _ _ (by simpa using hi)]
    simp [lengthBytes]
  unfold word wordOf
  simp only [hbyte, Nat.zero_add, Nat.reduceAdd, Nat.reduceLT, Nat.reduceSub]
  constructor
  · rw [hzero 7 (by omega), hzero 6 (by omega), hzero 5 (by omega), hzero 4 (by omega)]
    rfl
  · congr 1
    simp only [UInt8.toNat_ofNat', Nat.pow_zero, Nat.div_one, Nat.pow_one]
    omega

@[simp] theorem length_wordBytes (x : UInt32) : (wordBytes x).length = 4 := by
  simp [wordBytes]

theorem word_wordBytes (x : UInt32) : word (wordBytes x) 0 = x := by
  have hlt := x.toNat_lt
  have hbyte : ∀ i < 4, (wordBytes x).getD i 0 = UInt8.ofNat (x.toNat / 256 ^ (3 - i)) := by
    intro i hi
    rw [List.getD_eq_getElem _ _ (by simpa using hi)]
    simp [wordBytes]
  unfold word wordOf
  simp only [hbyte, Nat.zero_add, Nat.reduceLT, Nat.reduceSub, Nat.reducePow]
  apply UInt32.toNat_inj.mp
  simp only [UInt8.toNat_ofNat', UInt32.toNat_ofNat']
  omega

theorem wordBytes_inj {x y : UInt32} (h : wordBytes x = wordBytes y) : x = y := by
  rw [← word_wordBytes x, h, word_wordBytes]

theorem digest_inj {h h' : Hash} : digest h = digest h' ↔ h = h' := by
  constructor
  · intro heq
    simp only [digest, List.flatMap_cons, List.flatMap_nil, List.append_nil] at heq
    obtain ⟨ha, heq⟩ := List.append_inj heq (by simp)
    obtain ⟨hb, heq⟩ := List.append_inj heq (by simp)
    obtain ⟨hc, heq⟩ := List.append_inj heq (by simp)
    obtain ⟨hd, he⟩ := List.append_inj heq (by simp)
    cases h
    cases h'
    rw [Hash.mk.injEq]
    exact ⟨wordBytes_inj ha, wordBytes_inj hb, wordBytes_inj hc, wordBytes_inj hd, wordBytes_inj he⟩
  · intro heq
    rw [heq]

end Fips180
