import Mathlib.Data.List.Basic
import Mathlib.Data.List.Infix

/-!
# C strings in memory

Memory from a pointer on is the list of the bytes that can be read there. A search that meets
neither what it looks for nor a NUL before that list ends has run off the readable memory.

* `strchr`, `strstr`, `memcmp`, `scanWord`: the searches;
* `strchr_append`, `strstr_append`, `scanWord_append`: a search that ends is not changed by what
  lies behind;
* `memcmp_stop`, `strstr_stop`: a byte that ends the search keeps it in front of that byte.
-/

namespace CString

/-- The bytes of an ASCII literal. -/
def ascii (s : String) : List UInt8 := s.toList.map fun c => c.val.toUInt8

/-- How a search ends: at an offset, at the NUL that ends the string, or off the memory. -/
inductive Scan where
  | found (i : Nat) | null | off
  deriving DecidableEq, Repr

namespace Scan

def shift (n : Nat) : Scan → Scan
  | found i => found (i + n)
  | null => null
  | off => off

@[simp] theorem shift_found (n i : Nat) : (found i).shift n = found (i + n) := rfl
@[simp] theorem shift_null (n : Nat) : null.shift n = null := rfl
@[simp] theorem shift_off (n : Nat) : off.shift n = off := rfl

theorem shift_eq_off {n : Nat} {r : Scan} : r.shift n = off ↔ r = off := by
  cases r <;> simp [shift]

theorem shift_eq_found {n i : Nat} {r : Scan} :
    r.shift n = found i ↔ ∃ j, r = found j ∧ i = j + n := by
  cases r <;> simp [shift, eq_comm]

end Scan

def strchr (c : UInt8) : List UInt8 → Scan
  | [] => .off
  | b :: m => if b = c then .found 0 else if b = 0 then .null else (strchr c m).shift 1

/-- Does the memory start with these bytes? Reading stops at the first difference; `none` when it
runs off the memory before one. -/
def memcmp : (bytes m : List UInt8) → Option Bool
  | [], _ => some true
  | _ :: _, [] => none
  | p :: bytes, b :: m => if b = p then memcmp bytes m else some false

/-- The first occurrence before the NUL. -/
def strstr (needle : List UInt8) : List UInt8 → Scan
  | [] => .off
  | b :: m =>
    match memcmp needle (b :: m) with
    | none => .off
    | some true => .found 0
    | some false => if b = 0 then .null else (strstr needle m).shift 1

def strlen (s : List UInt8) : Nat := (s.takeWhile (· ≠ 0)).length

def isspace (b : UInt8) : Bool := b = 32 || (9 ≤ b && b ≤ 13)

def tolower (b : UInt8) : UInt8 := if 65 ≤ b ∧ b ≤ 90 then b + 32 else b

/-- The bytes up to the next white space or NUL. -/
def word : List UInt8 → Option (List UInt8)
  | [] => none
  | b :: m => if isspace b ∨ b = 0 then some [] else (word m).map (b :: ·)

/-- What `%s` reads: white space is skipped, then come the bytes up to the next white space or
NUL. Nothing but the NUL is left when the result is empty. -/
def scanWord : List UInt8 → Option (List UInt8)
  | [] => none
  | b :: m => if isspace b then scanWord m else word (b :: m)

/-! ## What lies behind -/

theorem strchr_append {c : UInt8} {m : List UInt8} (h : strchr c m ≠ .off) (t : List UInt8) :
    strchr c (m ++ t) = strchr c m := by
  induction m with
  | nil => exact absurd rfl h
  | cons b m ih =>
    simp only [List.cons_append, strchr] at h ⊢
    split_ifs at h ⊢ with hb h0
    · rfl
    · rfl
    · rw [ih fun e => h (by rw [e]; rfl)]

theorem memcmp_append {p m : List UInt8} {r : Bool} (h : memcmp p m = some r) (t : List UInt8) :
    memcmp p (m ++ t) = some r := by
  induction p generalizing m with
  | nil => simpa [memcmp] using h
  | cons c p ih =>
    cases m with
    | nil => cases h
    | cons b m =>
      simp only [List.cons_append, memcmp] at h ⊢
      split_ifs at h ⊢ with hb
      · exact ih h
      · exact h

theorem strstr_append {p m : List UInt8} (h : strstr p m ≠ .off) (t : List UInt8) :
    strstr p (m ++ t) = strstr p m := by
  induction m with
  | nil => exact absurd rfl h
  | cons b m ih =>
    unfold strstr at h ⊢
    cases hc : memcmp p (b :: m) with
    | none => rw [hc] at h; exact absurd rfl h
    | some r =>
      have := memcmp_append hc t
      rw [List.cons_append] at this ⊢
      rw [hc] at h
      simp only [this]
      cases r with
      | true => rfl
      | false =>
        by_cases h0 : b = 0
        · simp [h0]
        · simp only [h0, if_false] at h ⊢
          rw [ih fun e => h (by rw [e]; rfl)]

theorem word_append {m w : List UInt8} (h : word m = some w) (t : List UInt8) :
    word (m ++ t) = some w := by
  induction m generalizing w with
  | nil => cases h
  | cons b m ih =>
    simp only [List.cons_append, word] at h ⊢
    split_ifs at h ⊢ with hb
    · exact h
    · obtain ⟨v, hv, rfl⟩ := Option.map_eq_some_iff.mp h
      rw [ih hv]; rfl

theorem scanWord_append {m w : List UInt8} (h : scanWord m = some w) (t : List UInt8) :
    scanWord (m ++ t) = some w := by
  induction m with
  | nil => cases h
  | cons b m ih =>
    simp only [List.cons_append, scanWord] at h ⊢
    split_ifs at h ⊢ with hb
    · exact ih h
    · exact word_append h t

/-! ## Searches that end in front of a byte -/

/-- Bytes without `c` cannot match across a `c`. -/
theorem memcmp_stop {p : List UInt8} {c : UInt8} (hc : c ∉ p) (u t : List UInt8) :
    memcmp p (u ++ c :: t) = some (p.isPrefixOf u) := by
  induction p generalizing u with
  | nil => simp [memcmp]
  | cons q p ih =>
    have hq : c ≠ q := fun e => hc (by simp [e])
    have hp : c ∉ p := fun e => hc (List.mem_cons_of_mem q e)
    cases u with
    | nil => simp [memcmp, hq]
    | cons b u =>
      simp only [List.cons_append, memcmp, List.isPrefixOf_cons_cons, ih hp]
      by_cases hb : b = q
      · simp [hb]
      · simp [hb, Ne.symm hb]

theorem memcmp_self (p t : List UInt8) : memcmp p (p ++ t) = some true := by
  induction p with
  | nil => rfl
  | cons q p ih => simp [memcmp, ih]

theorem memcmp_ends {p v : List UInt8} (h : p.length ≤ v.length) (w : List UInt8) :
    ∃ r, memcmp p (v ++ w) = some r := by
  induction p generalizing v with
  | nil => exact ⟨true, rfl⟩
  | cons c p ih =>
    cases v with
    | nil => simp at h
    | cons x v =>
      by_cases hx : x = c
      · obtain ⟨r, hr⟩ := ih (v := v) (by simpa using h)
        exact ⟨r, by simp [memcmp, hx, hr]⟩
      · exact ⟨false, by simp [memcmp, hx]⟩

/-- A search that has its needle ahead does not run off the memory. -/
theorem strstr_ne_off {p : List UInt8} (hp : p ≠ []) (u t : List UInt8) :
    strstr p (u ++ p ++ t) ≠ .off := by
  induction u with
  | nil =>
    obtain ⟨q, p, rfl⟩ := List.exists_cons_of_ne_nil hp
    have := memcmp_self (q :: p) t
    simp only [List.nil_append, List.cons_append] at this ⊢
    simp [strstr, this]
  | cons b u ih =>
    obtain ⟨r, hr⟩ := memcmp_ends (p := p) (v := b :: (u ++ p)) (by simp; omega) t
    simp only [List.cons_append] at hr ⊢
    simp only [strstr, hr]
    cases r with
    | true => simp
    | false =>
      by_cases h0 : b = 0
      · simp [h0]
      · simp only [h0, if_false, ne_eq, Scan.shift_eq_off]; exact ih

/-- What a search finds in front of a known occurrence of its needle does not depend on what lies
behind that occurrence. -/
theorem strstr_stop {p : List UInt8} (hp : p ≠ []) (u t : List UInt8) :
    strstr p (u ++ p ++ t) = strstr p (u ++ p) := by
  have := strstr_ne_off hp u []
  rw [List.append_nil] at this
  exact strstr_append this t

theorem strstr_le {p u t : List UInt8} {i : Nat} (h : strstr p (u ++ p ++ t) = .found i) :
    i ≤ u.length := by
  induction u generalizing i with
  | nil =>
    cases p with
    | nil =>
      cases t with
      | nil => cases h
      | cons b t => simp [strstr, memcmp] at h; omega
    | cons q p =>
      have := memcmp_self (q :: p) t
      simp only [List.nil_append, List.cons_append] at this h
      simp [strstr, this] at h; omega
  | cons b u ih =>
    simp only [List.cons_append, strstr] at h
    split at h
    · cases h
    · cases h; omega
    · split_ifs at h with h0
      obtain ⟨j, hj, rfl⟩ := Scan.shift_eq_found.mp h
      have := ih hj
      simp; omega

end CString
