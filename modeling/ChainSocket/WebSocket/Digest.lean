import ChainSocket.Lib.Fips180
import ChainSocket.WebSocket.Sha1

/-!
# The digest computed

`sha1` of websocket.h beside the standard.

* `sha1mix_compress`: with its ring of 16 words, `sha1mix` is one block of the standard;
* `sha1_digest`: `sha1` is the standard's digest, as long as it gets the last block of a message
  right: where the message has 56 bytes more than whole blocks, it does not;
* `sha1_overlaid`: the message that `sha1` hashes there, a block shorter than the padded one.
-/

namespace ChainSocket

namespace Sha1State

def hash (r : Sha1State) : Fips180.Hash := ⟨r.a, r.b, r.c, r.d, r.e⟩

end Sha1State

/-! ## One block -/

theorem rol_one (x : UInt32) : rol x 1 = Fips180.rotl 1 x := rfl

theorem rol_five (x : UInt32) : rol x 5 = Fips180.rotl 5 x := rfl

theorem rol_thirty (x : UInt32) : rol x 30 = Fips180.rotl 30 x := rfl

theorem choose_eq (b c d : UInt32) : d ^^^ (b &&& (c ^^^ d)) = Fips180.ch b c d := by
  apply UInt32.toBitVec_inj.mp
  ext i hi
  simp [Fips180.ch]
  grind

theorem majority_eq (b c d : UInt32) : (b &&& c) ||| (d &&& (b ||| c)) = Fips180.maj b c d := by
  apply UInt32.toBitVec_inj.mp
  ext i hi
  simp [Fips180.maj]
  grind

/-- The word that `lowNibble` finds for `t`. -/
def ringWord (w : Sha1Words) (t : Nat) : UInt32 := w.get (lowNibble t)

/-- The macro in the rounds of its function and its constant. -/
theorem mix_step {f : UInt32 → UInt32 → UInt32 → UInt32} {v : UInt32} {w : Sha1Words}
    {sched : Nat → UInt32} {i : Nat} (hf : ∀ b c d, f b c d = Fips180.f i b c d)
    (hv : v = Fips180.k i) (hw : ringWord w i = sched i) (r : Sha1State) :
    (mix f v w r i).hash = Fips180.step sched r.hash i := by
  simp only [mix, Sha1State.hash, Fips180.step, Fips180.Hash.mk.injEq, rol_thirty, and_self,
    and_true]
  change f r.b r.c r.d + v + rol r.a 5 + r.e + ringWord w i = _
  rw [hf, hv, hw, rol_five]
  ac_rfl

/-- Of the words of a message schedule, the ring holds the last 16 in front of `i`. -/
def Ring (sched : Nat → UInt32) (w : Sha1Words) (i : Nat) : Prop :=
  ∀ j, j < i → i ≤ j + 16 → ringWord w j = sched j

theorem ring_block (w : Sha1Words) :
    Ring (Fips180.schedule (ringWord w)) w 16 := by
  intro j hj _
  rw [Fips180.schedule_lt _ hj]

theorem Ring.word {sched : Nat → UInt32} {w : Sha1Words} {i p j : Nat} (h : Ring sched w i)
    (hp : p % 16 = j % 16) (hj : j < i) (hlast : i ≤ j + 16) : ringWord w p = sched j := by
  have hsame : lowNibble p = lowNibble j := Fin.ext hp
  have hword : ringWord w p = ringWord w j := congrArg w.get hsame
  exact hword.trans (h j hj hlast)

theorem schedule_ring {m : Nat → UInt32} {w : Sha1Words} {i : Nat} (hi : 16 ≤ i)
    (h : Ring (Fips180.schedule m) w i) : Ring (Fips180.schedule m) (schedule w i) (i + 1) := by
  intro j hj hlast
  by_cases hlatest : j = i
  · subst hlatest
    have hword : ringWord (schedule w j) j = rol (ringWord w (j + 13) ^^^
        ringWord w (j + 8) ^^^ ringWord w (j + 2) ^^^ ringWord w j) 1 := by
      change (schedule w j)[lowNibble j] = rol (w[lowNibble (j + 13)] ^^^
        w[lowNibble (j + 8)] ^^^ w[lowNibble (j + 2)] ^^^ w[lowNibble j]) 1
      simp [schedule]
    rw [hword, Fips180.schedule_ge m hi, rol_one, h.word (j := j - 3) (by omega) (by omega) (by omega),
      h.word (j := j - 8) (by omega) (by omega) (by omega),
      h.word (j := j - 14) (by omega) (by omega) (by omega),
      h.word (j := j - 16) (by omega) (by omega) (by omega)]
  · have hne : (lowNibble i : Nat) ≠ lowNibble j := by
      change i % 16 ≠ j % 16
      omega
    have hword : ringWord (schedule w i) j = ringWord w j := by
      change (schedule w i)[lowNibble j] = w[lowNibble j]
      simp [schedule, hne]
    rw [hword, h j (by omega) (by omega)]

/-- The rounds of a later loop, and the ring behind them. -/
theorem mixLoop_steps {f : UInt32 → UInt32 → UInt32 → UInt32} {v : UInt32}
    {m : Nat → UInt32} (count : Nat) : ∀ {start : Nat} {s : Sha1Words × Sha1State}, 16 ≤ start →
      (∀ i, start ≤ i → i < start + count → (∀ b c d, f b c d = Fips180.f i b c d) ∧
        v = Fips180.k i) →
      Ring (Fips180.schedule m) s.1 start →
      (mixLoop f v start count s).2.hash =
          (List.range' start count).foldl (Fips180.step (Fips180.schedule m)) s.2.hash ∧
        Ring (Fips180.schedule m) (mixLoop f v start count s).1 (start + count) := by
  induction count with
  | zero => exact fun _ _ h => ⟨rfl, h⟩
  | succ count ih =>
    intro start s hstart hround h
    obtain ⟨hf, hv⟩ := hround start (Nat.le_refl _) (by omega)
    have hring := schedule_ring hstart h
    have hmix := mix_step hf hv (hring start (Nat.lt_succ_self _) (by omega)) s.2
    have hrest := ih (s := (schedule s.1 start, mix f v (schedule s.1 start) s.2 start))
      (Nat.le_succ_of_le hstart)
      (fun i hi hi' => hround i (by omega) (by omega)) hring
    rw [hmix] at hrest
    rw [show start + (count + 1) = start + 1 + count by omega]
    exact hrest

theorem choose_round {i : Nat} (h : i < 20) :
    (∀ b c d, d ^^^ (b &&& (c ^^^ d)) = Fips180.f i b c d) ∧ 0x5a827999 = Fips180.k i := by
  unfold Fips180.f Fips180.k
  rw [if_pos h, if_pos h]
  exact ⟨choose_eq, rfl⟩

theorem parity_round {i : Nat} (h : 20 ≤ i) (h' : i < 40) :
    (∀ b c d, b ^^^ c ^^^ d = Fips180.f i b c d) ∧ 0x6ed9eba1 = Fips180.k i := by
  unfold Fips180.f Fips180.k
  rw [if_neg (by omega), if_pos h', if_neg (by omega), if_pos h']
  exact ⟨fun _ _ _ => rfl, rfl⟩

theorem majority_round {i : Nat} (h : 40 ≤ i) (h' : i < 60) :
    (∀ b c d, (b &&& c) ||| (d &&& (b ||| c)) = Fips180.f i b c d) ∧
      0x8f1bbcdc = Fips180.k i := by
  unfold Fips180.f Fips180.k
  rw [if_neg (by omega), if_neg (by omega), if_pos h', if_neg (by omega), if_neg (by omega),
    if_pos h']
  exact ⟨majority_eq, rfl⟩

theorem last_round {i : Nat} (h : 60 ≤ i) :
    (∀ b c d, b ^^^ c ^^^ d = Fips180.f i b c d) ∧ 0xca62c1d6 = Fips180.k i := by
  unfold Fips180.f Fips180.k
  rw [if_neg (by omega), if_neg (by omega), if_neg (by omega), if_neg (by omega),
    if_neg (by omega), if_neg (by omega)]
  exact ⟨fun _ _ _ => rfl, rfl⟩

/-- The rounds of the first loop, which read the words as they are. -/
theorem first_steps (w : Sha1Words) (r : Sha1State) {n : Nat} (hn : n ≤ 16) :
    ((List.range n).foldl (mix (fun b c d => d ^^^ (b &&& (c ^^^ d))) 0x5a827999 w) r).hash =
      (List.range n).foldl (Fips180.step (Fips180.schedule (ringWord w))) r.hash := by
  induction n with
  | zero => rfl
  | succ n ih =>
    rw [List.range_succ, List.foldl_concat, List.foldl_concat, ← ih (by omega)]
    obtain ⟨hf, hv⟩ := choose_round (i := n) (by omega)
    exact mix_step hf hv (ring_block w n (by omega) (by omega)) _

theorem range_rounds : List.range 80 = List.range 16 ++ List.range' 16 4 ++ List.range' 20 20 ++
    List.range' 40 20 ++ List.range' 60 20 := by
  decide

theorem sha1mix_compress (r : Sha1State) (w : Sha1Words) :
    (sha1mix r w).hash = Fips180.compress r.hash (ringWord w) := by
  have h₀ := first_steps w r (Nat.le_refl 16)
  unfold sha1mix Fips180.compress
  rw [range_rounds]
  simp only [List.foldl_append, ← h₀]
  generalize (List.range 16).foldl _ r = r₀
  obtain ⟨h₁, ring₁⟩ := mixLoop_steps 4 (s := (w, r₀)) (Nat.le_refl 16)
    (fun i _ hi => choose_round hi) (ring_block w)
  generalize mixLoop _ _ 16 4 (w, r₀) = s₁ at h₁ ring₁ ⊢
  obtain ⟨h₂, ring₂⟩ := mixLoop_steps 20 (s := s₁) (by decide : 16 ≤ 20)
    (fun i hi hi' => parity_round hi hi') ring₁
  generalize mixLoop _ _ 20 20 s₁ = s₂ at h₂ ring₂ ⊢
  obtain ⟨h₃, ring₃⟩ := mixLoop_steps 20 (s := s₂) (by decide : 16 ≤ 40)
    (fun i hi hi' => majority_round hi hi') ring₂
  generalize mixLoop _ _ 40 20 s₂ = s₃ at h₃ ring₃ ⊢
  obtain ⟨h₄, -⟩ := mixLoop_steps 20 (s := s₃) (by decide : 16 ≤ 60)
    (fun i hi _ => last_round hi) ring₃
  rw [← h₁, ← h₂, ← h₃, ← h₄]
  simp only [Sha1State.hash, UInt32.add_comm]

/-! ## The words of a message -/

theorem or_shift {a b i : Nat} (h : a < 2 ^ i) : a ||| b <<< i = a + b * 2 ^ i := by
  rw [Nat.or_comm, ← Nat.shiftLeft_add_eq_or_of_lt h, Nat.shiftLeft_eq, Nat.add_comm]

/-- A word as `sha1` puts it together. -/
def orWord (b₀ b₁ b₂ b₃ : UInt8) : UInt32 :=
  b₃.toUInt32 ||| b₂.toUInt32 <<< 8 ||| b₁.toUInt32 <<< 16 ||| b₀.toUInt32 <<< 24

theorem orWord_eq (b₀ b₁ b₂ b₃ : UInt8) : orWord b₀ b₁ b₂ b₃ = Fips180.wordOf b₀ b₁ b₂ b₃ := by
  have h₀ := b₀.toNat_lt
  have h₁ := b₁.toNat_lt
  have h₂ := b₂.toNat_lt
  have h₃ := b₃.toNat_lt
  apply UInt32.toNat_inj.mp
  have hshift : ∀ b : UInt8, ∀ i ≤ 24, b.toNat <<< i < 2 ^ 32 := by
    intro b i hi
    have hb := b.toNat_lt
    have hpow : 2 ^ i ≤ 2 ^ 24 := Nat.pow_le_pow_right (by omega) hi
    rw [Nat.shiftLeft_eq]
    exact (Nat.mul_le_mul_left _ hpow).trans_lt (by omega)
  simp only [orWord, Fips180.wordOf, UInt32.toNat_or, UInt32.toNat_shiftLeft, UInt8.toNat_toUInt32,
    UInt32.toNat_ofNat', UInt32.reduceToNat, Nat.reduceMod]
  rw [Nat.mod_eq_of_lt (hshift b₂ 8 (by omega)), Nat.mod_eq_of_lt (hshift b₁ 16 (by omega)),
    Nat.mod_eq_of_lt (hshift b₀ 24 (by omega)), or_shift (i := 8) h₃, or_shift (i := 16) (by omega),
    or_shift (i := 24) (by omega), Nat.mod_eq_of_lt (by omega)]
  omega

theorem blockWords_get (p : List UInt8) (i : Nat) {t : Nat} (ht : t < 16) :
    (blockWords p i)[t] = orWord (p.getD (i + 4 * t) 0) (p.getD (i + 4 * t + 1) 0)
      (p.getD (i + 4 * t + 2) 0) (p.getD (i + 4 * t + 3) 0) := by
  simp only [blockWords, Vector.getElem_ofFn, orWord]

theorem blockWords_word (p : List UInt8) (i : Nat) {t : Nat} (ht : t < 16) :
    ringWord (blockWords p i) t = Fips180.word p (i + 4 * t) := by
  have hlow : (lowNibble t : Nat) = t := Nat.mod_eq_of_lt ht
  change (blockWords p i)[lowNibble t] = _
  simp only [Fin.getElem_fin, hlow, blockWords_get _ _ ht, orWord_eq]
  rfl

/-- A byte in the place that is still zero. -/
theorem orWord_zero (b₀ b₁ b₂ b : UInt8) :
    orWord 0 0 0 0 ||| b.toUInt32 <<< 24 = orWord b 0 0 0 ∧
      orWord b₀ 0 0 0 ||| b.toUInt32 <<< 16 = orWord b₀ b 0 0 ∧
      orWord b₀ b₁ 0 0 ||| b.toUInt32 <<< 8 = orWord b₀ b₁ b 0 ∧
      orWord b₀ b₁ b₂ 0 ||| b.toUInt32 <<< 0 = orWord b₀ b₁ b₂ b := by
  have hzero : (0 : UInt8).toUInt32 = 0 := rfl
  simp only [orWord, hzero, UInt32.zero_shiftLeft, UInt32.shiftLeft_zero, UInt32.zero_or,
    true_and]
  refine ⟨UInt32.or_comm .., ?_, ?_⟩
  · rw [UInt32.or_comm, UInt32.or_assoc]
  · rw [UInt32.or_comm]
    simp only [UInt32.or_assoc]

/-- The byte at the end of fewer than 64. -/
theorem orByte_append {l : List UInt8} (h : l.length < 64) {i : Nat} (hi : i % 64 = l.length)
    (b : UInt8) : orByte (blockWords l 0) i b.toUInt32 = blockWords (l ++ [b]) 0 := by
  have hadded : ∀ j, (l ++ [b]).getD j 0 = if j = l.length then b else l.getD j 0 := by
    intro j
    rcases Nat.lt_trichotomy j l.length with hj | hj | hj
    · rw [List.getD_append _ _ _ _ hj, if_neg (by omega)]
    · simp [hj]
    · rw [List.getD_eq_default _ _ (by simp; omega), List.getD_eq_default _ _ (by omega),
        if_neg (by omega)]
  have hbehind : ∀ j, l.length ≤ j → l.getD j 0 = 0 := fun j hj => List.getD_eq_default _ _ hj
  have hpos : (lowNibble (i / 4) : Nat) = l.length / 4 := by
    change i / 4 % 16 = _
    omega
  have hshift : i % 4 = l.length % 4 := by omega
  apply Vector.ext
  intro k hk
  unfold orByte
  rw [Vector.getElem_set, hshift]
  by_cases hword : (lowNibble (i / 4) : Nat) = k
  · have hcases : l.length % 4 = 0 ∨ l.length % 4 = 1 ∨ l.length % 4 = 2 ∨ l.length % 4 = 3 := by
      omega
    have hplace : l.length = 4 * k + l.length % 4 := by omega
    obtain ⟨h₀, h₁, h₂, h₃⟩ := orWord_zero (l.getD (4 * k) 0) (l.getD (4 * k + 1) 0)
      (l.getD (4 * k + 2) 0) b
    rw [if_pos hword]
    simp only [Fin.getElem_fin, hword, blockWords_get _ _ hk, Nat.zero_add, hadded]
    -- the bytes of the word from there on are still zero
    rcases hcases with hm | hm | hm | hm
    · rw [if_pos (by omega), if_neg (by omega), if_neg (by omega), if_neg (by omega),
        hbehind (4 * k) (by omega), hbehind (4 * k + 1) (by omega),
        hbehind (4 * k + 2) (by omega), hbehind (4 * k + 3) (by omega), hm]
      exact h₀
    · rw [if_neg (by omega), if_pos (by omega), if_neg (by omega), if_neg (by omega),
        hbehind (4 * k + 1) (by omega), hbehind (4 * k + 2) (by omega),
        hbehind (4 * k + 3) (by omega), hm]
      exact h₁
    · rw [if_neg (by omega), if_neg (by omega), if_pos (by omega), if_neg (by omega),
        hbehind (4 * k + 2) (by omega), hbehind (4 * k + 3) (by omega), hm]
      exact h₂
    · rw [if_neg (by omega), if_neg (by omega), if_neg (by omega), if_pos (by omega),
        hbehind (4 * k + 3) (by omega), hm]
      exact h₃
  · rw [if_neg hword]
    rw [hpos] at hword
    simp only [blockWords_get _ _ hk, Nat.zero_add, hadded]
    rw [if_neg (by omega), if_neg (by omega), if_neg (by omega), if_neg (by omega)]

/-! ## The last blocks -/

/-- The words of the bytes behind the whole blocks. -/
theorem tail_words (p : List UInt8) {start : Nat} (hstart : start % 64 = 0) {r : Nat}
    (hr : r ≤ 64) (hend : start + r ≤ p.length) :
    (List.range' start r).foldl (fun w i => orByte w i (p.getD i 0).toUInt32)
        (Vector.replicate 16 0) = blockWords ((p.drop start).take r) 0 := by
  induction r with
  | zero =>
    rw [List.take_zero]
    exact (by decide : Vector.replicate 16 0 = blockWords [] 0)
  | succ r ih =>
    have hlen : ((p.drop start).take r).length = r := by
      rw [List.length_take, List.length_drop]
      omega
    have hnext : (p.drop start).take (r + 1) = (p.drop start).take r ++ [p.getD (start + r) 0] := by
      rw [List.take_add_one, List.getElem?_drop, List.getD_eq_getElem?_getD,
        List.getElem?_eq_getElem (by omega)]
      rfl
    rw [List.range'_concat, List.foldl_concat, ih (by omega) (by omega), Nat.one_mul, hnext]
    exact orByte_append (by omega) (by omega) _

/-- The whole blocks of a message are those of the message with its padding `t`. -/
theorem whole_blocks (p t : List UInt8) (r : Sha1State) {whole : Nat}
    (hwhole : 64 * whole ≤ p.length) :
    ((List.range whole).foldl (fun r k => sha1mix r (blockWords p (64 * k))) r).hash =
      (List.range whole).foldl (fun h i => Fips180.compress h (Fips180.block (p ++ t) i))
        r.hash := by
  induction whole with
  | zero => rfl
  | succ whole ih =>
    rw [List.range_succ, List.foldl_concat, List.foldl_concat, ← ih (by omega), sha1mix_compress]
    refine Fips180.compress_congr (fun i hi => ?_) _
    rw [blockWords_word _ _ hi, Fips180.block, Fips180.word_append _ _ (by omega)]

/-- The words of a last block that holds the length. -/
theorem last_words {w : Sha1Words} {bytes : List UInt8} {n i : Nat} (hn : n < 2 ^ 32)
    (hwords : ∀ t < 14, ringWord w t = Fips180.word bytes (i + 4 * t))
    (hzero : ringWord w 14 = 0)
    (hlength : ∀ j, Fips180.word bytes (i + 56 + j) = Fips180.word (Fips180.lengthBytes n) j)
    {t : Nat} (ht : t < 16) :
    ringWord (w.set 15 (UInt32.ofNat n)) t = Fips180.word bytes (i + 4 * t) := by
  obtain ⟨hhigh, hlow⟩ := Fips180.word_lengthBytes hn
  have hother : ∀ t < 15, ringWord (w.set 15 (UInt32.ofNat n)) t = ringWord w t := by
    intro t ht
    change (w.set 15 (UInt32.ofNat n))[lowNibble t] = w[lowNibble t]
    have hne : (15 : Nat) ≠ lowNibble t := by
      change 15 ≠ t % 16
      omega
    simp [hne]
  by_cases h15 : t = 15
  · subst h15
    rw [show i + 4 * 15 = i + 56 + 4 by omega, hlength, hlow]
    change (w.set 15 (UInt32.ofNat n))[lowNibble 15] = _
    simp [lowNibble]
  · rw [hother t (by omega)]
    by_cases h14 : t = 14
    · subst h14
      rw [hzero, show i + 4 * 14 = i + 56 + 0 by omega, hlength, hhigh]
    · exact hwords t (by omega)

theorem wordBytes_eq (x : UInt32) : [(x >>> 0x18).toUInt8, (x >>> 0x10).toUInt8,
    (x >>> 0x08).toUInt8, x.toUInt8] = Fips180.wordBytes x := by
  have hbytes : Fips180.wordBytes x = [UInt8.ofNat (x.toNat / 256 ^ 3),
      UInt8.ofNat (x.toNat / 256 ^ 2), UInt8.ofNat (x.toNat / 256 ^ 1),
      UInt8.ofNat (x.toNat / 256 ^ 0)] := rfl
  rw [hbytes]
  simp [← UInt8.toNat_inj, UInt32.toNat_shiftRight, Nat.shiftRight_eq_div_pow]

/-- The message behind its whole blocks, padded. -/
def lastBytes (p : List UInt8) : List UInt8 := p.drop (64 * (p.length / 64)) ++ [0x80]

theorem pad_words (p : List UInt8) (i : Nat) :
    Fips180.word (Fips180.pad p) (64 * (p.length / 64) + i) = Fips180.word (lastBytes p ++
      (List.replicate ((119 - p.length % 64) % 64) 0 ++ Fips180.lengthBytes (8 * p.length))) i := by
  rw [← Fips180.word_drop, Fips180.pad, List.drop_append_of_le_length (Nat.mul_div_le ..),
    lastBytes, List.append_assoc]
  rfl

theorem length_lastBytes (p : List UInt8) : (lastBytes p).length = p.length % 64 + 1 := by
  have hdiv := Nat.div_add_mod p.length 64
  simp only [lastBytes, List.length_append, List.length_drop, List.length_singleton]
  omega

/-- The length stands 8 bytes in front of the end of a block. -/
theorem pad_length (p : List UInt8) {i : Nat}
    (hi : i = p.length % 64 + 1 + (119 - p.length % 64) % 64) (j : Nat) :
    Fips180.word (Fips180.pad p) (64 * (p.length / 64) + i + j) =
      Fips180.word (Fips180.lengthBytes (8 * p.length)) j := by
  have hbefore : i = (lastBytes p ++ List.replicate ((119 - p.length % 64) % 64) 0).length := by
    rw [List.length_append, length_lastBytes, List.length_replicate, hi]
  rw [Nat.add_assoc, pad_words, ← List.append_assoc, hbefore, Fips180.word_append_right]

/-- The words in front of the length. -/
theorem pad_lastBytes (p : List UInt8) {i : Nat}
    (hi : i + 4 ≤ p.length % 64 + 1 + (119 - p.length % 64) % 64) :
    Fips180.word (Fips180.pad p) (64 * (p.length / 64) + i) = Fips180.word (lastBytes p) i := by
  rw [pad_words, Fips180.word_zeros]
  rwa [length_lastBytes]

/-- The words that `sha1` has put together behind the whole blocks. -/
theorem lastBytes_words (p : List UInt8) :
    orByte ((List.range' (64 * (p.length / 64)) (p.length % 64)).foldl
      (fun w i => orByte w i (p.getD i 0).toUInt32) (Vector.replicate 16 0)) p.length 0x80 =
        blockWords (lastBytes p) 0 := by
  have hdiv := Nat.div_add_mod p.length 64
  have hmod := Nat.mod_lt p.length (by decide : 0 < 64)
  have htail : (p.drop (64 * (p.length / 64))).length = p.length % 64 := by
    rw [List.length_drop]
    omega
  rw [tail_words p (by omega) (by omega) (by omega), List.take_of_length_le htail.le]
  exact orByte_append (by omega) htail.symm 0x80

/-- What `sha1` writes is what its last state says. -/
theorem digest_bytes {r : Sha1State} {h : Fips180.Hash} (hr : r.hash = h) :
    [r.a, r.b, r.c, r.d, r.e].flatMap (fun x : UInt32 =>
        [(x >>> 0x18).toUInt8, (x >>> 0x10).toUInt8, (x >>> 0x08).toUInt8, x.toUInt8]) =
      [h.a, h.b, h.c, h.d, h.e].flatMap Fips180.wordBytes := by
  subst hr
  exact congrArg (List.flatMap · [r.a, r.b, r.c, r.d, r.e]) (funext wordBytes_eq)

/-- **Where the message does not fill all but the length of its last block, `sha1` computes the
digest of the standard.** -/
theorem sha1_digest {p : List UInt8} (hlen : p.length < 2 ^ 29) (hroom : p.length % 64 ≠ 56) :
    sha1 p = Fips180.sha1 p := by
  have hmod := Nat.mod_lt p.length (by decide : 0 < 64)
  have hlast := length_lastBytes p
  have hwhole := whole_blocks p (0x80 :: (List.replicate ((119 - p.length % 64) % 64) 0 ++
    Fips180.lengthBytes (8 * p.length))) sha1Init (Nat.mul_div_le p.length 64)
  rw [← Fips180.pad] at hwhole
  have hbits : (p.length * 8).toUInt32 = UInt32.ofNat (8 * p.length) := by rw [Nat.mul_comm]
  have hwords : ∀ t < 16, ringWord (blockWords (lastBytes p) 0) t =
      Fips180.word (lastBytes p) (4 * t) := by
    intro t ht
    rw [blockWords_word _ _ ht, Nat.zero_add]
  unfold sha1 Fips180.sha1
  dsimp only
  rw [lastBytes_words, hbits]
  by_cases hfits : p.length % 64 < 56
  · -- the length is in the block that the message ends in
    rw [if_neg (by omega)]
    apply digest_bytes
    have hblocks : (64 * (p.length / 64) + 64) / 64 = p.length / 64 + 1 := by omega
    rw [Fips180.hash, Fips180.length_pad, if_pos hfits, hblocks, List.range_succ,
      List.foldl_concat, sha1mix_compress, hwhole]
    refine Fips180.compress_congr (fun t ht => ?_) _
    refine last_words (by omega) (fun t ht => ?_) ?_ (pad_length p (by omega)) ht
    · rw [hwords t (by omega), pad_lastBytes p (by omega)]
    · rw [hwords 14 (by omega), Fips180.word_behind _ (by omega)]
  · rw [if_pos (by omega)]
    apply digest_bytes
    have hblocks : (64 * (p.length / 64) + 128) / 64 = p.length / 64 + 1 + 1 := by omega
    rw [Fips180.hash, Fips180.length_pad, if_neg hfits, hblocks, List.range_succ,
      List.foldl_concat, List.range_succ, List.foldl_concat, sha1mix_compress, sha1mix_compress,
      hwhole]
    have hfirst : Fips180.compress (List.foldl (fun h i =>
          Fips180.compress h (Fips180.block (Fips180.pad p) i)) sha1Init.hash
          (List.range (p.length / 64))) (ringWord (blockWords (lastBytes p) 0)) =
        Fips180.compress (List.foldl (fun h i =>
          Fips180.compress h (Fips180.block (Fips180.pad p) i)) Fips180.initial
          (List.range (p.length / 64))) (Fips180.block (Fips180.pad p) (p.length / 64)) := by
      refine Fips180.compress_congr (fun t ht => ?_) _
      rw [hwords t ht, Fips180.block, pad_lastBytes p (by omega)]
    rw [hfirst]
    refine Fips180.compress_congr (fun t ht => ?_) _
    have hzero : ∀ t, ringWord (Vector.replicate 16 0) t = 0 := by
      intro t
      change (Vector.replicate 16 (0 : UInt32))[lowNibble t] = 0
      simp
    rw [Fips180.block, Nat.mul_add]
    refine last_words (by omega) (fun t ht => ?_) (hzero 14) ?_ ht
    · rw [hzero, Nat.add_assoc, pad_lastBytes p (by omega), Fips180.word_behind _ (by omega)]
    · intro j
      rw [Nat.add_assoc (64 * (p.length / 64))]
      exact pad_length p (by omega) j

/-! ## The length over the padding -/

/-- The bytes that `sha1` hashes for a message of 56 bytes more than whole blocks: the length in
bits stands in the block of the 0x80, over its last word. -/
def overlaid (p : List UInt8) : List UInt8 :=
  p ++ 0x80 :: (List.replicate 3 0 ++ Fips180.wordBytes (UInt32.ofNat (8 * p.length)))

theorem length_overlaid (p : List UInt8) : (overlaid p).length = p.length + 8 := by
  simp [overlaid]

theorem overlaid_words (p : List UInt8) (i : Nat) :
    Fips180.word (overlaid p) (64 * (p.length / 64) + i) = Fips180.word (lastBytes p ++
      (List.replicate 3 0 ++ Fips180.wordBytes (UInt32.ofNat (8 * p.length)))) i := by
  rw [← Fips180.word_drop, overlaid, List.drop_append_of_le_length (Nat.mul_div_le ..), lastBytes,
    List.append_assoc]
  rfl

/-- **For a message of 56 bytes more than whole blocks, `sha1` hashes one block less than the
standard.** -/
theorem sha1_overlaid {p : List UInt8} (hfull : p.length % 64 = 56) :
    sha1 p = Fips180.digest (Fips180.hash (overlaid p)) := by
  have hlast := length_lastBytes p
  have hwhole := whole_blocks p (0x80 :: (List.replicate 3 0 ++
    Fips180.wordBytes (UInt32.ofNat (8 * p.length)))) sha1Init (Nat.mul_div_le p.length 64)
  rw [← overlaid] at hwhole
  have hbits : (p.length * 8).toUInt32 = UInt32.ofNat (8 * p.length) := by rw [Nat.mul_comm]
  have hblocks : (overlaid p).length / 64 = p.length / 64 + 1 := by
    rw [length_overlaid]
    omega
  unfold sha1
  dsimp only
  rw [lastBytes_words, hbits, if_neg (by omega)]
  apply digest_bytes
  rw [Fips180.hash, hblocks, List.range_succ, List.foldl_concat, sha1mix_compress, hwhole]
  refine Fips180.compress_congr (fun t ht => ?_) _
  rw [Fips180.block, overlaid_words]
  by_cases h15 : t = 15
  · subst h15
    have hfront : 4 * 15 = (lastBytes p ++ List.replicate 3 0).length + 0 := by
      simp [hlast, hfull]
    rw [hfront, ← List.append_assoc, Fips180.word_append_right, Fips180.word_wordBytes]
    change ((blockWords (lastBytes p) 0).set 15 (UInt32.ofNat (8 * p.length)))[lowNibble 15] = _
    simp [lowNibble]
  · have hne : (15 : Nat) ≠ lowNibble t := by
      change 15 ≠ t % 16
      omega
    have hword : ringWord ((blockWords (lastBytes p) 0).set 15 (UInt32.ofNat (8 * p.length))) t =
        ringWord (blockWords (lastBytes p) 0) t := by
      change ((blockWords (lastBytes p) 0).set 15 (UInt32.ofNat (8 * p.length)))[lowNibble t] =
        (blockWords (lastBytes p) 0)[lowNibble t]
      simp [hne]
    rw [hword, blockWords_word _ _ ht, Nat.zero_add, Fips180.word_zeros]
    omega

/-- **`sha1` computes SHA-1 of each message that is not 56 bytes longer than whole blocks; of
one that is, only where hashing a block less happens to leave the hash value of the standard.** -/
theorem sha1_standard_of_length {p : List UInt8} (hlen : p.length < 2 ^ 29) :
    (p.length % 64 ≠ 56 → sha1 p = Fips180.sha1 p) ∧
      (p.length % 64 = 56 → (overlaid p).length + 64 = (Fips180.pad p).length ∧
        (sha1 p = Fips180.sha1 p ↔
          Fips180.hash (overlaid p) = Fips180.hash (Fips180.pad p))) := by
  constructor
  · exact sha1_digest hlen
  · intro hfull
    constructor
    · rw [length_overlaid, Fips180.length_pad, if_neg (by omega)]
      omega
    · rw [sha1_overlaid hfull, Fips180.sha1_eq, Fips180.digest_inj]

theorem sha1_standard_abc : sha1 (CString.ascii "abc") = Fips180.sha1 (CString.ascii "abc") :=
  (sha1_standard_of_length (p := CString.ascii "abc") (by decide)).1 (by decide)

/-- The hash value of whole blocks, by the rounds of `sha1mix`. -/
theorem hash_blocks (bytes : List UInt8) : Fips180.hash bytes =
    ((List.range (bytes.length / 64)).foldl (fun r k => sha1mix r (blockWords bytes (64 * k)))
      sha1Init).hash := by
  rw [whole_blocks bytes [] _ (Nat.mul_div_le ..), List.append_nil]
  rfl

/-- 56 bytes. -/
theorem sha1_full_wrong : sha1 (List.replicate 56 0) ≠ Fips180.sha1 (List.replicate 56 0) := by
  rw [Fips180.sha1_eq, hash_blocks]
  decide +kernel

end ChainSocket
