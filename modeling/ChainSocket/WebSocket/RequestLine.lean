import ChainSocket.WebSocket.Opening
import Mathlib.Data.List.TakeWhile

/-!
# The copy of the request line

`wsParseHandshake` gives `resource` the bytes between two spaces and copies a word to it, whatever
white space the word stands between.

* `parseRequest_copies`: when the word fits, by the white space in front of it;
* `resource_fits_iff`: the requests that are copied within their block, whatever lies behind them.
-/

namespace CString

/-- A byte of a word. -/
def inWord (b : UInt8) : Bool := !isspace b && b != 0

theorem isspace_ne_zero {b : UInt8} (h : isspace b = true) : b ≠ 0 := by
  rintro rfl
  exact absurd h (by decide)

/-- Among white space, a byte is found in its first place. -/
theorem strchr_idxOf {c : UInt8} {w : List UInt8} (hw : ∀ b ∈ w, isspace b = true) (hc : c ∈ w)
    (t : List UInt8) : strchr c (w ++ t) = .found (w.idxOf c) := by
  induction w with
  | nil => cases hc
  | cons b w ih =>
    by_cases hb : b = c
    · simp [strchr, hb]
    · have hrest : c ∈ w := (List.mem_cons.mp hc).resolve_left fun h => hb h.symm
      have h0 := isspace_ne_zero (hw b List.mem_cons_self)
      simp [strchr, hb, h0, List.idxOf_cons_ne _ hb,
        ih (fun x hx => hw x (List.mem_cons_of_mem b hx)) hrest]

/-- A byte is not found in front of the place where it first stands. -/
theorem strchr_skips {c : UInt8} {v t : List UInt8} (hc : c ∉ v) {n : Nat}
    (h : strchr c (v ++ t) = .found n) : v.length ≤ n := by
  induction v generalizing n with
  | nil => exact Nat.zero_le n
  | cons b v ih =>
    simp only [List.mem_cons, not_or] at hc
    rw [List.cons_append, strchr, if_neg (Ne.symm hc.1)] at h
    split_ifs at h with h0
    obtain ⟨j, hj, rfl⟩ := Scan.shift_eq_found.mp h
    exact Nat.succ_le_succ (ih hc.2 hj)

theorem scanWord_skip {w : List UInt8} (hw : ∀ b ∈ w, isspace b = true) (m : List UInt8) :
    scanWord (w ++ m) = scanWord m := by
  induction w with
  | nil => rfl
  | cons b w ih =>
    rw [List.cons_append, scanWord, if_pos (hw b List.mem_cons_self)]
    exact ih fun x hx => hw x (List.mem_cons_of_mem b hx)

theorem word_takeWhile (v t : List UInt8) {c : UInt8} (hc : isspace c = true) :
    word (v ++ c :: t) = some (v.takeWhile inWord) := by
  induction v with
  | nil => simp [word, hc]
  | cons b v ih =>
    rw [List.cons_append, word, ih, List.takeWhile_cons]
    by_cases hspace : isspace b = true
    · simp [inWord, hspace]
    · by_cases h0 : b = 0 <;> simp [inWord, hspace, h0]

theorem scanWord_takeWhile {w v : List UInt8} (hw : ∀ b ∈ w, isspace b = true) {b : UInt8}
    (hb : isspace b = false) {c : UInt8} (hc : isspace c = true) (t : List UInt8) :
    scanWord (w ++ (b :: v ++ c :: t)) = some ((b :: v).takeWhile inWord) := by
  rw [scanWord_skip hw, List.cons_append, scanWord, if_neg (by simp [hb]), ← List.cons_append,
    word_takeWhile _ _ hc]

end CString

namespace ChainSocket

open CString

/-- The white space behind "GET ". -/
def gap (u : List UInt8) : List UInt8 := u.takeWhile isspace

/-- The word behind it. -/
def resourceWord (u : List UInt8) : List UInt8 := (u.dropWhile isspace).takeWhile inWord

/-- A word in memory, behind white space `w`. -/
theorem parseRequest_copies {w v : List UInt8} (hw : ∀ b ∈ w, isspace b = true) {b : UInt8}
    (hb : isspace b = false) {c : UInt8} (hc : isspace c = true) (t : List UInt8)
    (hs : Handshake) :
    parseRequest (ascii "GET " ++ (w ++ (b :: v ++ c :: t))) hs ≠ .error .outOfBounds ↔
      (32 ∈ w → ((b :: v).takeWhile inWord).length ≤ w.idxOf 32) := by
  have hline := parseRequest_get (w ++ (b :: v ++ c :: t)) [] hs
  have hword := scanWord_takeWhile (w := 32 :: w) (v := v) (b := b) (c := c)
    (List.forall_mem_cons.mpr ⟨rfl, hw⟩) hb hc t
  rw [List.append_nil, List.append_nil, ← List.cons_append, hword] at hline
  rw [hline]
  generalize hr : (b :: v).takeWhile inWord = r at *
  by_cases h32 : 32 ∈ w
  · rw [strchr_idxOf hw h32]
    dsimp only
    by_cases hnil : r = []
    · simp [hnil]
    · by_cases hshort : w.idxOf 32 < r.length
      · simp [hnil, hshort, h32]
      · simp [hnil, hshort, Nat.not_lt.mp hshort]
  · simp only [h32, false_imp_iff, iff_true]
    cases hchr : strchr 32 (w ++ (b :: v ++ c :: t)) with
    | off => simp
    | null => simp
    | found n =>
      have hfree : 32 ∉ w ++ r := by
        intro h
        cases List.mem_append.mp h with
        | inl h => exact h32 h
        | inr h =>
          rw [← hr] at h
          exact absurd (List.mem_takeWhile_imp h) (by decide)
      have hsplit : w ++ (b :: v ++ c :: t) = w ++ r ++ ((b :: v).dropWhile inWord ++ c :: t) := by
        rw [← hr, List.append_assoc, ← List.append_assoc (List.takeWhile _ _),
          List.takeWhile_append_dropWhile]
      rw [hsplit] at hchr
      have hlength := strchr_skips hfree hchr
      rw [List.length_append] at hlength
      have hfirst : r.length ≤ n := by omega
      dsimp only
      rw [if_neg (Nat.not_lt.mpr hfirst)]
      split_ifs <;> simp

/-- A request, with what `onRecv` hands over, and any memory behind. -/
def requestMemory (u behind : List UInt8) : List UInt8 :=
  ascii "GET " ++ u ++ (rn ++ rn) ++ behind

/-- The copy of the request line stays within `resource`, whatever lies behind the request. -/
def CopyFits (u : List UInt8) : Prop :=
  ∀ behind hs, parseRequest (requestMemory u behind) hs ≠ .error .outOfBounds

theorem gap_isspace {u : List UInt8} : ∀ b ∈ gap u, isspace b = true :=
  fun _ => List.mem_takeWhile_imp

/-- A word in the request itself. -/
theorem copyFits_word {u : List UInt8} (hword : ∃ b ∈ u, isspace b = false) :
    CopyFits u ↔ (32 ∈ gap u → (resourceWord u).length ≤ (gap u).idxOf 32) := by
  have hmemory : ∀ behind, requestMemory u behind = ascii "GET " ++
      (gap u ++ (u.dropWhile isspace ++ 13 :: (10 :: 13 :: 10 :: behind))) := by
    intro behind
    have hend : rn ++ rn = [13, 10, 13, 10] := by decide
    rw [requestMemory, ← List.append_assoc (gap u), gap, List.takeWhile_append_dropWhile, hend,
      List.append_assoc, List.append_assoc]
    rfl
  unfold CopyFits resourceWord
  cases hdrop : u.dropWhile isspace with
  | nil =>
    obtain ⟨b, hb, hspace⟩ := hword
    have hall := List.dropWhile_eq_nil_iff.mp hdrop b hb
    rw [hspace] at hall
    cases hall
  | cons b v =>
    have hb : isspace b = false := by
      simpa [hdrop] using List.head_dropWhile_not isspace (l := u) (by simp [hdrop])
    simp only [hmemory, hdrop, parseRequest_copies gap_isspace hb (c := 13) (by decide)]
    exact ⟨fun h => h [] nullHandshake, fun h _ _ => h⟩

/-- White space only: the word is then one that lies behind the request. -/
theorem copyFits_blank {u : List UInt8} (hblank : ∀ b ∈ u, isspace b = true) : ¬ CopyFits u := by
  intro h
  have hline : ∀ b ∈ rn ++ rn ++ [32], isspace b = true := by decide +kernel
  have hw : ∀ b ∈ u ++ (rn ++ rn) ++ [32], isspace b = true := by
    intro b hb
    rw [List.append_assoc] at hb
    cases List.mem_append.mp hb with
    | inl hb => exact hblank b hb
    | inr hb => exact hline b hb
  have hmemory : requestMemory u (32 :: (List.replicate (u.length + 5) 97 ++ [32])) =
      ascii "GET " ++ (u ++ (rn ++ rn) ++ [32] ++ (97 :: List.replicate (u.length + 4) 97 ++
        32 :: [])) := by
    simp only [requestMemory, List.append_assoc]
    rfl
  have hfits := h (32 :: (List.replicate (u.length + 5) 97 ++ [32])) nullHandshake
  rw [hmemory, parseRequest_copies hw (by decide) (by decide)] at hfits
  have hspace := List.idxOf_lt_length_of_mem (List.mem_append_right (u ++ (rn ++ rn))
    (List.mem_singleton_self 32))
  have hword : (97 :: List.replicate (u.length + 4) 97).takeWhile inWord =
      List.replicate (u.length + 5) 97 := by
    rw [← List.replicate_succ, List.takeWhile_replicate, if_pos (by decide)]
  have hle := hfits (List.mem_append_right _ (List.mem_singleton_self 32))
  have hlength : (u ++ (rn ++ rn) ++ [32]).length = u.length + 5 := by
    rw [List.length_append, List.length_append]
    rfl
  rw [hword, List.length_replicate] at hle
  omega

/-- **The request line is copied within its block, whatever lies behind the request, exactly where
not all of it is white space, and no space is among the white space in front of its word, or the
word is no longer than what stands in front of the first one.** -/
theorem resource_fits_iff (u : List UInt8) : CopyFits u ↔ (∃ b ∈ u, isspace b = false) ∧
    (32 ∈ gap u → (resourceWord u).length ≤ (gap u).idxOf 32) := by
  by_cases hword : ∃ b ∈ u, isspace b = false
  · rw [copyFits_word hword]
    exact ⟨fun h => ⟨hword, h⟩, fun h => h.2⟩
  · have hblank : ∀ b ∈ u, isspace b = true := by
      intro b hb
      by_contra hspace
      exact hword ⟨b, hb, by simpa using hspace⟩
    exact ⟨fun h => absurd h (copyFits_blank hblank), fun h => absurd h.1 hword⟩

/-- Two spaces in front of the path. -/
theorem two_spaces_overrun : ¬ ∀ u, CopyFits u := by
  intro h
  have hfits := h (ascii " /a") [] nullHandshake
  exact hfits (by decide)

end ChainSocket
