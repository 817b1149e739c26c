import Mathlib.Data.List.Basic
import Mathlib.Data.List.GetD
import Mathlib.Data.UInt

/-!
# Base 64

Every 24 bits are four characters of the alphabet; where the last group of bytes has
fewer, zeros are added up to a multiple of 6 bits and the characters left over are pads.
-/

namespace Base64

def alphabet : List UInt8 :=
  ("ABCDEFGHIJKLMNOPQRSTUVWXYZabcdefghijklmnopqrstuvwxyz0123456789+/".toList).map
    fun c => c.val.toUInt8

/-- The character of 6 bits. -/
def character (v : Nat) : UInt8 := alphabet.getD (v % 64) 0

def pad : UInt8 := 61

def group (a b c : UInt8) : Nat := a.toNat * 2 ^ 16 + b.toNat * 2 ^ 8 + c.toNat

def encode : List UInt8 → List UInt8
  | [] => []
  | [a] => [character (group a 0 0 / 2 ^ 18), character (group a 0 0 / 2 ^ 12), pad, pad]
  | [a, b] =>
    [character (group a b 0 / 2 ^ 18), character (group a b 0 / 2 ^ 12),
      character (group a b 0 / 2 ^ 6), pad]
  | a :: b :: c :: rest =>
    [character (group a b c / 2 ^ 18), character (group a b c / 2 ^ 12),
      character (group a b c / 2 ^ 6), character (group a b c)] ++ encode rest

/-- What is written are characters of the alphabet and pads. -/
theorem mem_encode {p : List UInt8} {b : UInt8} (h : b ∈ encode p) : b ∈ alphabet ∨ b = pad := by
  have hcharacter : ∀ v, character v ∈ alphabet := by
    intro v
    have hlen : alphabet.length = 64 := by decide +kernel
    have hlt : v % 64 < alphabet.length := by omega
    rw [character, List.getD_eq_getElem _ _ hlt]
    exact List.getElem_mem hlt
  induction p using encode.induct with
  | case1 => cases h
  | case2 a =>
    simp only [encode, List.mem_cons, List.not_mem_nil, or_false] at h
    rcases h with rfl | rfl | rfl | rfl <;> simp [hcharacter]
  | case3 a b =>
    simp only [encode, List.mem_cons, List.not_mem_nil, or_false] at h
    rcases h with rfl | rfl | rfl | rfl <;> simp [hcharacter]
  | case4 a b c rest ih =>
    simp only [encode, List.cons_append, List.nil_append, List.mem_cons] at h
    rcases h with rfl | rfl | rfl | rfl | h
    · exact .inl (hcharacter _)
    · exact .inl (hcharacter _)
    · exact .inl (hcharacter _)
    · exact .inl (hcharacter _)
    · exact ih h

theorem length_encode (p : List UInt8) : (encode p).length = (p.length + 2) / 3 * 4 := by
  induction p using encode.induct with
  | case1 => rfl
  | case2 | case3 => simp [encode]
  | case4 a b c rest ih =>
    simp only [encode, List.cons_append, List.nil_append, List.length_cons, ih]
    omega

-- "foob"
example : encode [0x66, 0x6f, 0x6f, 0x62] = [0x5a, 0x6d, 0x39, 0x76, 0x59, 0x67, 0x3d, 0x3d] := by
  decide

end Base64
