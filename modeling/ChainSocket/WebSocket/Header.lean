import ChainSocket.WebSocket.Opening

/-!
# The lines of a request header

What `wsParseHandshake` makes of the lines behind the request line, computed from the header alone.

* `headerLines`: the lines its loop comes to;
* `parseLines_ok`: without a bad line among them, the loop stores their fields one after another;
* `parseLines_bad`: at a bad one it crashes.
-/

namespace CString

/-- Bytes with neither the first byte of the needle nor a NUL are passed over. -/
theorem strstr_skip {c : UInt8} {needle p : List UInt8} (hc : c ∉ p) (h0 : 0 ∉ p)
    (m : List UInt8) : strstr (c :: needle) (p ++ m) = (strstr (c :: needle) m).shift p.length := by
  induction p with
  | nil =>
    rw [List.nil_append]
    cases strstr (c :: needle) m <;> rfl
  | cons b p ih =>
    rw [List.mem_cons, not_or] at hc h0
    obtain ⟨hb, hp⟩ := hc
    obtain ⟨hb0, hp0⟩ := h0
    have hfirst : memcmp (c :: needle) (b :: (p ++ m)) = some false := by
      simp only [memcmp, if_neg (Ne.symm hb)]
    rw [List.cons_append, strstr, hfirst]
    dsimp only
    rw [if_neg (Ne.symm hb0), ih hp hp0]
    cases strstr (c :: needle) m with
    | found i => simp only [Scan.shift, List.length_cons, Nat.add_assoc]
    | null | off => rfl

/-- There is no NUL in front of what a search finds. -/
theorem strstr_found_nul {p m : List UInt8} {i : Nat} (h : strstr p m = .found i) :
    0 ∉ m.take i := by
  induction m generalizing i with
  | nil => cases h
  | cons b m ih =>
    unfold strstr at h
    split at h
    · cases h
    · cases h
      simp
    · split_ifs at h with h0
      obtain ⟨j, hj, rfl⟩ := Scan.shift_eq_found.1 h
      rw [List.take_succ_cons, List.mem_cons]
      rintro (hb | hm)
      · exact h0 hb.symm
      · exact ih hj hm

theorem strstr_null_nul {p m : List UInt8} (h : strstr p m = .null) : 0 ∈ m := by
  induction m with
  | nil => cases h
  | cons b m ih =>
    unfold strstr at h
    split at h
    · cases h
    · cases h
    · split_ifs at h with h0
      · rw [h0]
        exact List.mem_cons_self
      · apply List.mem_cons_of_mem
        apply ih
        revert h
        cases strstr p m <;> simp [Scan.shift]

/-- What is found in front of a NUL, or behind it: only the first is found. -/
theorem mem_of_strchr {c : UInt8} {u t : List UInt8} {n : Nat} (h0 : 0 ∈ u)
    (h : strchr c (u ++ t) = .found n) : c ∈ u := by
  induction u generalizing n with
  | nil => cases h0
  | cons b u ih =>
    rw [List.cons_append, strchr] at h
    split_ifs at h with hb hz
    · rw [hb]
      exact List.mem_cons_self
    · obtain ⟨j, hj, -⟩ := Scan.shift_eq_found.1 h
      have h0' : 0 ∈ u := (List.mem_cons.1 h0).resolve_left fun e => hz e.symm
      exact List.mem_cons_of_mem _ (ih h0' hj)

theorem memcmp_true {p m : List UInt8} (h : memcmp p m = some true) : ∃ t, m = p ++ t := by
  induction p generalizing m with
  | nil => exact ⟨m, rfl⟩
  | cons c p ih =>
    cases m with
    | nil => cases h
    | cons b m =>
      simp only [memcmp] at h
      split_ifs at h with hb
      · obtain ⟨t, rfl⟩ := ih h
        exact ⟨t, by rw [hb, List.cons_append]⟩
      · cases h

/-- What a search finds stands there. -/
theorem strstr_found_at {p m : List UInt8} {i : Nat} (h : strstr p m = .found i) :
    ∃ t, m = m.take i ++ p ++ t := by
  induction m generalizing i with
  | nil => cases h
  | cons b m ih =>
    unfold strstr at h
    split at h
    · cases h
    · rename_i hcmp
      cases h
      obtain ⟨t, ht⟩ := memcmp_true hcmp
      exact ⟨t, by simpa using ht⟩
    · split_ifs at h with h0
      obtain ⟨j, hj, rfl⟩ := Scan.shift_eq_found.1 h
      obtain ⟨t, ht⟩ := ih hj
      refine ⟨t, ?_⟩
      rw [List.take_succ_cons, List.cons_append, List.cons_append, ← ht]

end CString

namespace ChainSocket

open CString

/-- The field whose name a line starts with. -/
def fieldOf (line : List UInt8) : Option Field := Field.all.find? fun f => f.name.isPrefixOf line

/-- Whether the loop stops at `v` in front of the blank line. -/
def Stops : List UInt8 → Prop
  | [] => True
  | b :: m => b = 13 ∨ m.head? = some 10

instance (v : List UInt8) : Decidable (Stops v) := by
  cases v with
  | nil => exact inferInstanceAs (Decidable True)
  | cons b m => exact inferInstanceAs (Decidable (b = 13 ∨ m.head? = some 10))

theorem stops_nil : Stops [] := trivial

theorem length_pos_of_not_stops {v : List UInt8} (h : ¬ Stops v) : 0 < v.length := by
  cases v with
  | nil => exact absurd stops_nil h
  | cons b m => exact Nat.succ_pos _

/-- The lines the loop comes to; one with a NUL is the last, and goes to the end. -/
def headerLines (v : List UInt8) : List (List UInt8) :=
  if _h : Stops v then []
  else
    match strstr rn (v ++ rn) with
    | .found i => v.take i :: headerLines (v.drop (i + 2))
    | _ => [v]
termination_by v.length
decreasing_by
  have := length_pos_of_not_stops _h
  rw [List.length_drop]
  omega

/-- The value that is kept of a field: its length is kept in a `uint8_t`. -/
def lineValue (line : List UInt8) (f : Field) : List UInt8 :=
  (line.drop f.name.length).take ((line.length - f.name.length) % 256)

def storeLine (s : Lines) (line : List UInt8) : Lines :=
  match fieldOf line with
  | none => s
  | some .protocol => s.store [] .protocol
  | some f => s.store (lineValue line f) f

/-- A line with a NUL, or a field that is copied, with a value whose length comes out as 0. -/
def BadLine (line : List UInt8) : Prop :=
  0 ∈ line ∨ ∃ f, fieldOf line = some f ∧ f ≠ .protocol ∧
    (line.length - f.name.length) % 256 = 0

theorem field_name_nul (f : Field) : 0 ∉ f.name := by cases f <;> decide

/-! ## One line -/

section

variable {v t : List UInt8} {s : Lines} {i : Nat}

theorem line_split (hi : strstr rn (v ++ rn) = .found i) : i ≤ v.length ∧
    ∃ w, v ++ rn = v.take i ++ rn ++ w := by
  have hle : i ≤ v.length := strstr_le (t := []) (by rwa [List.append_nil])
  obtain ⟨w, hw⟩ := strstr_found_at hi
  rw [List.take_append_of_le_length hle] at hw
  exact ⟨hle, w, hw⟩

/-- A field's name stands in front of the line feed. -/
theorem fieldOf_take (hi : strstr rn (v ++ rn) = .found i) : fieldOf (v.take i) = fieldOf v := by
  obtain ⟨-, w, hw⟩ := line_split hi
  have hname : ∀ f : Field, f.name.isPrefixOf (v.take i) = f.name.isPrefixOf v := by
    intro f
    have hline : memcmp f.name (v.take i ++ 13 :: (10 :: w)) = some _ :=
      memcmp_stop (field_name f).1 _ _
    have hwhole : memcmp f.name (v ++ 13 :: [10]) = some _ := memcmp_stop (field_name f).1 _ _
    have hsame : v ++ 13 :: [10] = v.take i ++ 13 :: (10 :: w) := by
      rw [show v ++ 13 :: [10] = v ++ rn from rfl, hw, List.append_assoc]
      rfl
    rw [hsame, hline] at hwhole
    exact Option.some.inj hwhole
  unfold fieldOf
  congr 1
  funext f
  exact hname f

theorem fieldOf_prefix {line : List UInt8} {f : Field} (h : fieldOf line = some f) :
    ∃ w, line = f.name ++ w := by
  have hf := List.find?_some h
  obtain ⟨w, hw⟩ := List.isPrefixOf_iff_prefix.1 hf
  exact ⟨w, hw.symm⟩

theorem parseField_none (h : fieldOf v = none) : parseField (v ++ rn ++ t) s = .ok (0, s) := by
  unfold fieldOf at h
  unfold parseField
  rw [matchField_stop, h]

theorem parseField_protocol (h : fieldOf v = some .protocol) : parseField (v ++ rn ++ t) s =
    .ok (Field.protocol.name.length, s.store [] .protocol) := by
  unfold fieldOf at h
  unfold parseField
  rw [matchField_stop, h]

theorem parseField_some {f : Field} (h : fieldOf v = some f) (hf : f ≠ .protocol) :
    parseField (v ++ rn ++ t) s =
      match getUptoLinefeed ((v ++ rn ++ t).drop f.name.length) with
      | .error e => .error e
      | .ok value => .ok (f.name.length, s.store value f) := by
  unfold fieldOf at h
  unfold parseField
  rw [matchField_stop, h]
  cases f with
  | protocol => exact absurd rfl hf
  | host | origin | key | version | connection | upgrade => rfl

/-- Where the search behind the name of a field ends. -/
theorem strstr_behind_name {f : Field} {w : List UInt8} {r : Scan}
    (h : strstr rn (f.name ++ w ++ rn) = r) :
    (strstr rn (w ++ rn)).shift f.name.length = r := by
  rw [← h, List.append_assoc]
  exact (strstr_skip (field_name f).1 (field_name_nul f) _).symm

theorem badLine_none {line : List UInt8} (hnul : 0 ∉ line) (hf : fieldOf line = none) :
    ¬ BadLine line := by
  rintro (h0 | ⟨f, hline, -⟩)
  · exact hnul h0
  · rw [hf] at hline
    cases hline

theorem badLine_iff {line : List UInt8} {f : Field} (hnul : 0 ∉ line) (hf : fieldOf line = some f) :
    BadLine line ↔ f ≠ .protocol ∧ (line.length - f.name.length) % 256 = 0 := by
  constructor
  · rintro (h0 | ⟨f', hline, hbad⟩)
    · exact absurd h0 hnul
    · rw [hf] at hline
      cases hline
      exact hbad
  · intro hbad
    exact .inr ⟨f, hf, hbad⟩

theorem storeLine_field {line : List UInt8} {f : Field} (hf : fieldOf line = some f)
    (hprotocol : f ≠ .protocol) : storeLine s line = s.store (lineValue line f) f := by
  rw [storeLine, hf]
  cases f with
  | protocol => exact absurd rfl hprotocol
  | host | origin | key | version | connection | upgrade => rfl

/-- The value behind the name of a field. -/
theorem getUptoLinefeed_line {f : Field} {w : List UInt8} {j : Nat}
    (hj : strstr rn (w ++ rn) = .found j) : getUptoLinefeed (w ++ rn ++ t) =
      if j % 256 = 0 then .error .abort
      else .ok (lineValue (f.name ++ w.take j) f) := by
  have hle : j ≤ w.length := strstr_le (t := []) (by rwa [List.append_nil])
  have hmod := Nat.mod_le j 256
  have hlen : (f.name ++ w.take j).length - f.name.length = j := by
    rw [List.length_append, List.length_take, Nat.min_eq_left hle, Nat.add_sub_cancel_left]
  rw [getUptoLinefeed_stop, getUptoLinefeed, hj]
  dsimp only
  rw [lineValue, hlen, List.drop_left, List.take_take, Nat.min_eq_left hmod,
    List.take_append_of_le_length (by omega)]

/-- What the `if` chain does at a line, and where it leaves `inputPtr`: at a bad line it fails. -/
theorem parseField_line (hi : strstr rn (v ++ rn) = .found i) :
    (¬ BadLine (v.take i) ∧ ∃ k j, parseField (v ++ rn ++ t) s = .ok (k, storeLine s (v.take i)) ∧
      k + j = i ∧ strstr rn ((v ++ rn ++ t).drop k) = .found j) ∨
    (BadLine (v.take i) ∧ parseField (v ++ rn ++ t) s = .error .abort) := by
  obtain ⟨hle, -⟩ := line_split hi
  have hnul : 0 ∉ v.take i := by
    have h0 := strstr_found_nul hi
    rwa [List.take_append_of_le_length hle] at h0
  have hfield := fieldOf_take hi
  cases hf : fieldOf v with
  | none =>
    rw [hf] at hfield
    refine .inl ⟨badLine_none hnul hfield, 0, i, ?_, Nat.zero_add i, ?_⟩
    · rw [parseField_none hf, storeLine, hfield]
    · rw [List.drop_zero, strstr_stop (by decide), hi]
  | some f =>
    rw [hf] at hfield
    have hbad := badLine_iff hnul hfield
    obtain ⟨w, rfl⟩ := fieldOf_prefix hf
    obtain ⟨j, hj, rfl⟩ := Scan.shift_eq_found.1 (strstr_behind_name hi)
    have hdrop : (f.name ++ w ++ rn ++ t).drop f.name.length = w ++ rn ++ t := by
      rw [List.append_assoc, List.append_assoc, List.drop_left, List.append_assoc]
    have hnext : strstr rn ((f.name ++ w ++ rn ++ t).drop f.name.length) = .found j := by
      rw [hdrop, strstr_stop (by decide), hj]
    have htake : (f.name ++ w).take (j + f.name.length) = f.name ++ w.take j := by
      rw [Nat.add_comm, List.take_length_add_append]
    have hlen : ((f.name ++ w).take (j + f.name.length)).length - f.name.length = j := by
      rw [List.length_take, Nat.min_eq_left hle, Nat.add_sub_cancel]
    rw [hlen] at hbad
    by_cases hprotocol : f = .protocol
    · subst hprotocol
      refine .inl ⟨fun h => (hbad.1 h).1 rfl, _, j, ?_, Nat.add_comm .., hnext⟩
      rw [parseField_protocol hf, storeLine, hfield]
    · rw [parseField_some hf hprotocol, hdrop, getUptoLinefeed_line hj (f := f)]
      by_cases hzero : j % 256 = 0
      · rw [if_pos hzero]
        exact .inr ⟨hbad.2 ⟨hprotocol, hzero⟩, rfl⟩
      · rw [if_neg hzero]
        refine .inl ⟨fun h => hzero (hbad.1 h).2, _, j, ?_, Nat.add_comm .., hnext⟩
        rw [storeLine_field hfield hprotocol, htake]

/-- A NUL hides the line feed from the search, whatever the `if` chain does. -/
theorem parseField_nul (hi : strstr rn (v ++ rn) = .null) :
    parseField (v ++ rn ++ t) s = .error .null ∨
      ∃ k s', parseField (v ++ rn ++ t) s = .ok (k, s') ∧
        strstr rn ((v ++ rn ++ t).drop k) = .null := by
  cases hf : fieldOf v with
  | none =>
    refine .inr ⟨0, s, parseField_none hf, ?_⟩
    rw [List.drop_zero, strstr_stop (by decide), hi]
  | some f =>
    obtain ⟨w, rfl⟩ := fieldOf_prefix hf
    have hw : strstr rn (w ++ rn) = .null := by
      have hshift := strstr_behind_name hi
      revert hshift
      cases strstr rn (w ++ rn) <;> simp [Scan.shift]
    have hdrop : (f.name ++ w ++ rn ++ t).drop f.name.length = w ++ rn ++ t := by
      rw [List.append_assoc, List.append_assoc, List.drop_left, List.append_assoc]
    have hnext : strstr rn ((f.name ++ w ++ rn ++ t).drop f.name.length) = .null := by
      rw [hdrop, strstr_stop (by decide), hw]
    by_cases hprotocol : f = .protocol
    · subst hprotocol
      exact .inr ⟨_, _, parseField_protocol hf, hnext⟩
    · left
      rw [parseField_some hf hprotocol, hdrop, getUptoLinefeed_stop, getUptoLinefeed, hw]

end

/-! ## The loop -/

theorem atLine_stops (v t : List UInt8) : atLine (v ++ rn ++ t) = .ok (decide (¬ Stops v)) := by
  match v with
  | [] => rfl
  | [b] =>
    have hrn : rn = [13, 10] := rfl
    by_cases hb : b = 13
    · simp [atLine, Stops, hb]
    · simp [atLine, Stops, hb, hrn]
  | b :: c :: m =>
    by_cases hb : b = 13
    · simp [atLine, Stops, hb]
    · by_cases hc : c = 10
      · simp [atLine, Stops, hb, hc]
      · simp [atLine, Stops, hb, hc]

theorem headerLines_stops {v : List UInt8} (h : Stops v) : headerLines v = [] := by
  rw [headerLines, dif_pos h]

theorem headerLines_found {v : List UInt8} {i : Nat} (h : ¬ Stops v)
    (hi : strstr rn (v ++ rn) = .found i) :
    headerLines v = v.take i :: headerLines (v.drop (i + 2)) := by
  rw [headerLines, dif_neg h]
  split
  · rename_i j hj
    rw [hi] at hj
    cases hj
    rfl
  · rename_i hne
    exact absurd hi (hne i)

theorem headerLines_null {v : List UInt8} (h : ¬ Stops v) (hi : strstr rn (v ++ rn) = .null) :
    headerLines v = [v] := by
  rw [headerLines, dif_neg h]
  split
  · rename_i j hj
    rw [hi] at hj
    cases hj
  · rfl

theorem parseLines_stops {v t : List UInt8} {s : Lines} (h : Stops v) :
    parseLines (v.length + 1) (v ++ rn ++ t) s = .ok s := by
  rw [parseLines, if_pos (Nat.succ_pos _), atLine_stops]
  simp [h]

theorem parseLines_zero {m : List UInt8} {s : Lines} : parseLines 0 m s = .ok s := by
  rw [parseLines, if_neg (Nat.lt_irrefl 0)]

/-- The room behind the first `i` bytes of a header is that of the rest of it. -/
theorem parseLines_drop (v t : List UInt8) (s : Lines) (i : Nat) :
    parseLines (v.length + 1 - (i + 2)) ((v ++ rn ++ t).drop (i + 2)) s =
      parseLines ((v.drop (i + 2)).length + 1) (v.drop (i + 2) ++ rn ++ t) s := by
  by_cases hlast : i + 2 ≤ v.length
  · have hdrop : (v ++ rn ++ t).drop (i + 2) = v.drop (i + 2) ++ rn ++ t := by
      rw [List.append_assoc, List.drop_append_of_le_length hlast, List.append_assoc]
    have hlen : v.length + 1 - (i + 2) = (v.drop (i + 2)).length + 1 := by
      rw [List.length_drop]
      omega
    rw [hdrop, hlen]
  · have hzero : v.length + 1 - (i + 2) = 0 := by omega
    have hnil : v.drop (i + 2) = [] := List.drop_of_length_le (by omega)
    rw [hzero, parseLines_zero, hnil]
    exact (parseLines_stops stops_nil).symm

/-- Behind a line that is not bad the loop goes on with what it has stored of it. -/
theorem parseLines_next {v t : List UInt8} {s : Lines} {i : Nat} (h : ¬ Stops v)
    (hi : strstr rn (v ++ rn) = .found i) (hbad : ¬ BadLine (v.take i)) :
    parseLines (v.length + 1) (v ++ rn ++ t) s =
      parseLines ((v.drop (i + 2)).length + 1) (v.drop (i + 2) ++ rn ++ t)
        (storeLine s (v.take i)) := by
  rcases parseField_line (t := t) (s := s) hi with ⟨-, k, j, hparse, hkj, hnext⟩ | ⟨hbad', -⟩
  · rw [parseLines, if_pos (Nat.succ_pos _), atLine_stops]
    simp only [h, not_false_eq_true, decide_true, hparse, hnext]
    rw [hkj, parseLines_drop]
  · exact absurd hbad' hbad

theorem parseLines_badLine {v t : List UInt8} {s : Lines} {i : Nat} (h : ¬ Stops v)
    (hi : strstr rn (v ++ rn) = .found i) (hbad : BadLine (v.take i)) :
    parseLines (v.length + 1) (v ++ rn ++ t) s = .error .abort := by
  rcases parseField_line (t := t) (s := s) hi with ⟨hgood, -⟩ | ⟨-, hparse⟩
  · exact absurd hbad hgood
  · rw [parseLines, if_pos (Nat.succ_pos _), atLine_stops]
    simp only [h, not_false_eq_true, decide_true, hparse]

theorem parseLines_null {v t : List UInt8} {s : Lines} (h : ¬ Stops v)
    (hi : strstr rn (v ++ rn) = .null) :
    parseLines (v.length + 1) (v ++ rn ++ t) s = .error .null := by
  rw [parseLines, if_pos (Nat.succ_pos _), atLine_stops]
  rcases parseField_nul (t := t) (s := s) hi with hparse | ⟨k, s', hparse, hnext⟩
  · simp only [h, not_false_eq_true, decide_true, hparse]
  · simp only [h, not_false_eq_true, decide_true, hparse, hnext]

theorem line_feed (v : List UInt8) :
    (∃ i, strstr rn (v ++ rn) = .found i) ∨ strstr rn (v ++ rn) = .null := by
  have hoff := strstr_ne_off (p := rn) (by decide) v []
  rw [List.append_nil] at hoff
  cases h : strstr rn (v ++ rn) with
  | found i => exact .inl ⟨i, rfl⟩
  | null => exact .inr rfl
  | off => exact absurd h hoff

theorem nul_of_null {v : List UInt8} (h : strstr rn (v ++ rn) = .null) : 0 ∈ v := by
  rcases List.mem_append.1 (strstr_null_nul h) with h0 | h0
  · exact h0
  · exact absurd h0 (by decide)

theorem parseLines_ok {v : List UInt8} (h : ∀ line ∈ headerLines v, ¬ BadLine line)
    (t : List UInt8) (s : Lines) :
    parseLines (v.length + 1) (v ++ rn ++ t) s = .ok ((headerLines v).foldl storeLine s) := by
  induction hn : v.length using Nat.strong_induction_on generalizing v s with
  | _ n ih =>
    subst hn
    by_cases hstop : Stops v
    · rw [parseLines_stops hstop, headerLines_stops hstop]
      rfl
    · rcases line_feed v with ⟨i, hi⟩ | hnull
      · have hlines := headerLines_found hstop hi
        rw [hlines] at h ⊢
        have hpos := length_pos_of_not_stops hstop
        rw [parseLines_next hstop hi (h _ List.mem_cons_self), List.foldl_cons]
        refine ih _ ?_ (fun line hline => h line (List.mem_cons_of_mem _ hline)) _ rfl
        rw [List.length_drop]
        omega
      · rw [headerLines_null hstop hnull] at h
        exact absurd (.inl (nul_of_null hnull)) (h v List.mem_cons_self)

theorem parseLines_bad {v line : List UInt8} (hline : line ∈ headerLines v)
    (hbad : BadLine line) (t : List UInt8) (s : Lines) :
    ∃ e, (e = .abort ∨ e = .null) ∧ parseLines (v.length + 1) (v ++ rn ++ t) s = .error e := by
  induction hn : v.length using Nat.strong_induction_on generalizing v s with
  | _ n ih =>
    subst hn
    by_cases hstop : Stops v
    · rw [headerLines_stops hstop] at hline
      cases hline
    · rcases line_feed v with ⟨i, hi⟩ | hnull
      · by_cases hfirst : BadLine (v.take i)
        · exact ⟨.abort, .inl rfl, parseLines_badLine hstop hi hfirst⟩
        · rw [headerLines_found hstop hi] at hline
          rcases List.mem_cons.1 hline with rfl | hrest
          · exact absurd hbad hfirst
          · have hpos := length_pos_of_not_stops hstop
            rw [parseLines_next hstop hi hfirst]
            refine ih _ ?_ hrest _ rfl
            rw [List.length_drop]
            omega
      · exact ⟨.null, .inr rfl, parseLines_null hstop hnull⟩

/-! ## What the parser can fail with -/

/-- The faults of the line loop, which writes to blocks of the right size. -/
def lineFaults : List Fault := [.abort, .null, .unmapped]

theorem getUptoLinefeed_fault {m : List UInt8} {e : Fault} (h : getUptoLinefeed m = .error e) :
    e ∈ lineFaults := by
  unfold getUptoLinefeed at h
  split at h
  · split_ifs at h
    cases h
    decide
  · cases h
    decide
  · cases h
    decide

theorem matchField_fault {m : List UInt8} {fields : List Field} {e : Fault}
    (h : matchField m fields = .error e) : e ∈ lineFaults := by
  induction fields with
  | nil => cases h
  | cons f fields ih =>
    unfold matchField at h
    split at h
    · cases h
      decide
    · cases h
    · exact ih h

theorem parseField_fault {m : List UInt8} {s : Lines} {e : Fault}
    (h : parseField m s = .error e) : e ∈ lineFaults := by
  unfold parseField at h
  split at h
  · rename_i hm
    cases h
    exact matchField_fault hm
  · cases h
  · cases h
  · split at h
    · rename_i hg
      cases h
      exact getUptoLinefeed_fault hg
    · cases h

theorem parseLines_fault {room : Nat} {m : List UInt8} {s : Lines} {e : Fault}
    (h : parseLines room m s = .error e) : e ∈ lineFaults := by
  induction room using Nat.strong_induction_on generalizing m s with
  | _ room ih =>
    rw [parseLines] at h
    split_ifs at h with hroom
    unfold atLine at h
    split at h
    · rename_i hat
      split at hat
      · cases hat
        cases h
        decide
      · split_ifs at hat
        split at hat <;> cases hat
        cases h
        decide
    · cases h
    · split at h
      · rename_i hf
        cases h
        exact parseField_fault hf
      · split at h
        · exact ih _ (by omega) h
        · cases h
          decide
        · cases h
          decide

theorem parseRequest_fault {m : List UInt8} {hs : Handshake} {e : Fault}
    (h : parseRequest m hs = .error e) : e ∈ [.unmapped, .outOfBounds] := by
  unfold parseRequest at h
  split at h
  · cases h
    decide
  · cases h
  · split at h
    · cases h
      decide
    · cases h
    · split at h
      · cases h
        decide
      · cases h
      · split at h
        · cases h
          decide
        · split_ifs at h
          cases h
          decide

/-- The parser fails on the request line, or on the lines behind it. -/
theorem wsParseHandshake_fault {m : List UInt8} {n : Nat} {hs : Handshake} {e : Fault}
    (h : wsParseHandshake m n hs = .error e) :
    parseRequest m hs = .error e ∨ e ∈ lineFaults := by
  unfold wsParseHandshake at h
  split at h
  · rename_i hr
    cases h
    exact .inl hr
  · cases h
  · right
    split at h
    · cases h
      decide
    · cases h
      decide
    · split at h
      · rename_i hl
        cases h
        exact parseLines_fault hl
      · cases h

theorem wsParseHandshake_outOfBounds {m : List UInt8} {n : Nat} {hs : Handshake} :
    wsParseHandshake m n hs = .error .outOfBounds ↔ parseRequest m hs = .error .outOfBounds := by
  constructor
  · intro h
    rcases wsParseHandshake_fault h with hr | hl
    · exact hr
    · exact absurd hl (by decide)
  · intro h
    unfold wsParseHandshake
    rw [h]

/-! ## What is written out of bounds -/

/-- The word behind `GET` is no longer than the bytes between the first two spaces, for which its
block is measured. -/
def ResourceFits (m : List UInt8) : Prop :=
  ∀ v n token, m = ascii "GET " ++ v → strchr 32 v = .found n → scanWord v = some token →
    token.length ≤ n

theorem parseRequest_fits {m : List UInt8} {hs : Handshake} :
    parseRequest m hs ≠ .error .outOfBounds ↔ ResourceFits m := by
  by_cases hget : ∃ v, m = ascii "GET " ++ v
  · obtain ⟨v, rfl⟩ := hget
    have hline := parseRequest_get v [] hs
    rw [List.append_nil, List.append_nil] at hline
    have hspace : scanWord (32 :: v) = scanWord v := rfl
    have hfits : ResourceFits (ascii "GET " ++ v) ↔ ∀ n token, strchr 32 v = .found n →
        scanWord v = some token → token.length ≤ n := by
      constructor
      · intro h n token hn htoken
        exact h v n token rfl hn htoken
      · rintro h v' n token heq hn htoken
        rw [← List.append_cancel_left heq] at hn htoken
        exact h n token hn htoken
    rw [hline, hspace, hfits]
    cases strchr 32 v with
    | off | null => simp
    | found n =>
      cases scanWord v with
      | none => simp
      | some token =>
        dsimp only
        by_cases hnil : token = []
        · simp [hnil]
        · by_cases hlong : n < token.length
          · simp [hnil, hlong]
          · simp [hnil, hlong, Nat.not_lt.mp hlong]
  · refine iff_of_true ?_ fun v n token heq => absurd ⟨v, heq⟩ hget
    intro hline
    unfold parseRequest at hline
    split at hline
    · cases hline
    · cases hline
    · rename_i hcmp
      exact hget (memcmp_true hcmp)

theorem resourceFits_ok {m : List UInt8} {n : Nat} {hs : Handshake} {r : WsFrameType × Handshake}
    (h : wsParseHandshake m n hs = .ok r) : ResourceFits m := by
  apply parseRequest_fits.1
  intro hline
  rw [wsParseHandshake_outOfBounds.2 hline] at h
  cases h

theorem length_sha1 (p : List UInt8) : (sha1 p).length = 20 := by
  simp [sha1]

theorem length_secret : secret.length = 36 := by decide

/-- The key and the secret behind it come to their full length in a `uint8_t`, or else the reply is
written to a block that is too short. -/
theorem handshakeReply_error {key : List UInt8} {e : Fault} :
    handshakeReply key = .error e ↔ e = .outOfBounds ∧ 220 ≤ strlen key := by
  unfold handshakeReply
  rw [length_secret]
  dsimp only
  rw [length_sha1]
  by_cases hlong : 220 ≤ strlen key
  · rw [if_pos (by omega)]
    simp [hlong, eq_comm]
  · have hmod : (strlen key + 36) % 256 = strlen key + 36 := Nat.mod_eq_of_lt (by omega)
    rw [hmod, if_neg (Nat.lt_irrefl _), if_neg (by unfold base64len; omega)]
    simp [hlong]

/-- What is read from the memory `m` up to the blank line is copied within its blocks: the word of
the request line, and the key with the secret, for an answer. -/
structure Fits (hs : Handshake) (m : List UInt8) (inputLength : Nat) : Prop where
  resource : ResourceFits m
  responseKey : ∀ hs' key, wsParseHandshake m inputLength hs = .ok (.opening, hs') →
    hs'.key = some key → strlen key < 220

section

variable {m : List UInt8} {n : Nat} {hs hs' : Handshake}

theorem fits_error {e : Fault} (h : wsParseHandshake m n hs = .error e) :
    Fits hs m n ↔ e ≠ .outOfBounds := by
  constructor
  · rintro hfits rfl
    exact parseRequest_fits.2 hfits.resource (wsParseHandshake_outOfBounds.1 h)
  · intro he
    constructor
    · apply parseRequest_fits.1
      intro hline
      rw [wsParseHandshake_outOfBounds.2 hline] at h
      cases h
      exact he rfl
    · intro hs' key hparse
      rw [h] at hparse
      cases hparse

theorem fits_rejected (h : wsParseHandshake m n hs = .ok (.error, hs')) : Fits hs m n := by
  refine ⟨resourceFits_ok h, fun hs' key hparse => ?_⟩
  rw [h] at hparse
  cases hparse

theorem fits_opening {key : List UInt8} (h : wsParseHandshake m n hs = .ok (.opening, hs'))
    (hkey : hs'.key = some key) : Fits hs m n ↔ strlen key < 220 := by
  constructor
  · intro hfits
    exact hfits.responseKey hs' key h hkey
  · intro hshort
    refine ⟨resourceFits_ok h, fun hs'' key' hparse hkey' => ?_⟩
    rw [h] at hparse
    cases hparse
    rw [hkey] at hkey'
    cases hkey'
    exact hshort

end

/-! ## The header -/

/-- The lines behind the request line, unless a NUL hides its line feed. -/
def requestLines (u : List UInt8) : Option (List (List UInt8)) :=
  match strstr rn (u ++ rn) with
  | .found i => some (headerLines (u.drop (i + 2)))
  | _ => none

/-- The lines cannot be read. -/
def BadLines (u : List UInt8) : Prop := ∀ lines, requestLines u = some lines →
  ∃ line ∈ lines, BadLine line

/-- What the lines come to behind the request line. -/
def readLines (hs : Handshake) (lines : List (List UInt8)) : Lines :=
  lines.foldl storeLine ⟨hs, false, false, false, false⟩

section

variable {u x : List UInt8} {hs hs₁ : Handshake}

/-- A request line that is parsed starts with the `GET ` of the header. -/
theorem header_get (h : parseRequest (u ++ rn ++ x) hs = .ok (true, hs₁)) :
    ∃ v, u = ascii "GET " ++ v := by
  have hget := parseRequest_ok h
  rw [List.append_assoc, show rn ++ x = 13 :: (10 :: x) from rfl, memcmp_stop (by decide)] at hget
  obtain ⟨v, hv⟩ := List.isPrefixOf_iff_prefix.mp (Option.some.inj hget)
  exact ⟨v, hv.symm⟩

theorem mem_of_headerLines {v line : List UInt8} {b : UInt8} (hline : line ∈ headerLines v)
    (hb : b ∈ line) : b ∈ v := by
  induction hn : v.length using Nat.strong_induction_on generalizing v with
  | _ n ih =>
    subst hn
    by_cases hstop : Stops v
    · rw [headerLines_stops hstop] at hline
      cases hline
    · rcases line_feed v with ⟨i, hi⟩ | hnull
      · rw [headerLines_found hstop hi] at hline
        rcases List.mem_cons.1 hline with rfl | hrest
        · exact List.mem_of_mem_take hb
        · have hpos := length_pos_of_not_stops hstop
          refine List.mem_of_mem_drop (ih _ ?_ hrest rfl)
          rw [List.length_drop]
          omega
      · rw [headerLines_null hstop hnull] at hline
        rw [← List.mem_singleton.1 hline]
        exact hb

/-- Lines that cannot be read hold a NUL or the name of a field. -/
theorem badLines_bytes {v : List UInt8} (hbad : BadLines (ascii "GET " ++ v)) :
    0 ∈ v ∨ ∃ f : Field, ∀ b ∈ f.name, b ∈ v := by
  unfold BadLines requestLines at hbad
  rw [List.append_assoc, strstr_rn_get] at hbad
  rcases line_feed v with ⟨j, hj⟩ | hnull
  · rw [hj] at hbad
    obtain ⟨line, hline, hbadLine⟩ := hbad _ rfl
    have hsub : ∀ b ∈ line, b ∈ v := by
      intro b hb
      have hdrop : (ascii "GET " ++ v).drop (j + 4 + 2) = v.drop (j + 2) := by
        rw [show j + 4 + 2 = (ascii "GET ").length + (j + 2) by
          change j + 4 + 2 = 4 + (j + 2); omega, ← List.drop_drop, List.drop_left]
      rw [hdrop] at hline
      exact List.mem_of_mem_drop (mem_of_headerLines hline hb)
    rcases hbadLine with h0 | ⟨f, hf, -⟩
    · exact .inl (hsub 0 h0)
    · obtain ⟨w, rfl⟩ := fieldOf_prefix hf
      exact .inr ⟨f, fun b hb => hsub b (List.mem_append_left _ hb)⟩
  · exact .inl (nul_of_null hnull)

/-- In front of lines that cannot be read, the request line is decided within the header. -/
theorem parseRequest_badLines (h : parseRequest (u ++ rn ++ x) hs = .ok (true, hs₁))
    (hbad : BadLines u) (y : List UInt8) :
    parseRequest (u ++ rn ++ y) hs = .ok (true, hs₁) := by
  obtain ⟨v, rfl⟩ := header_get h
  have hbytes := badLines_bytes hbad
  have hspace : ∃ b ∈ v, isspace b = false := by
    rcases hbytes with h0 | ⟨f, hf⟩
    · exact ⟨0, h0, by decide⟩
    · obtain ⟨-, -, b, hb, hspace⟩ := field_name f
      exact ⟨b, hf b hb, hspace⟩
  have h32 : 32 ∈ v := by
    rcases hbytes with h0 | ⟨f, hf⟩
    · rw [List.append_assoc, parseRequest_get] at h
      split at h
      · cases h
      · cases h
      · rename_i n hn
        exact mem_of_strchr h0 hn
    · exact hf 32 (field_name f).2.1
  rw [List.append_assoc] at h ⊢
  rw [parseRequest_stop h32 hspace] at h ⊢
  exact h

theorem wsParseHandshake_read (hreq : parseRequest (u ++ rn ++ x) hs = .ok (true, hs₁))
    {lines : List (List UInt8)} (hlines : requestLines u = some lines)
    (hgood : ∀ line ∈ lines, ¬ BadLine line) :
    wsParseHandshake (u ++ rn ++ x) (u.length + 1) hs =
      .ok ((readLines hs₁ lines).verdict,
        { (readLines hs₁ lines).hs with frameType := (readLines hs₁ lines).verdict }) := by
  unfold requestLines at hlines
  unfold wsParseHandshake
  rw [hreq]
  dsimp only
  rw [strstr_stop (by decide)]
  split at hlines
  · rename_i i hi
    cases hlines
    rw [hi]
    dsimp only
    rw [parseLines_drop, parseLines_ok hgood]
    rfl
  · cases hlines

theorem wsParseHandshake_bad (hreq : parseRequest (u ++ rn ++ x) hs = .ok (true, hs₁))
    (hbad : BadLines u) : ∃ e, (e = .abort ∨ e = .null) ∧
      wsParseHandshake (u ++ rn ++ x) (u.length + 1) hs = .error e := by
  unfold BadLines requestLines at hbad
  unfold wsParseHandshake
  rw [hreq]
  dsimp only
  rw [strstr_stop (by decide)]
  rcases line_feed u with ⟨i, hi⟩ | hnull
  · rw [hi] at hbad ⊢
    obtain ⟨line, hline, hbadLine⟩ := hbad _ rfl
    obtain ⟨e, he, hparse⟩ :=
      parseLines_bad hline hbadLine x ⟨hs₁, false, false, false, false⟩
    refine ⟨e, he, ?_⟩
    dsimp only
    rw [parseLines_drop, hparse]
  · exact ⟨.null, .inr rfl, by rw [hnull]⟩

/-- The header makes the parser crash: its request line is parsed, and its lines cannot be read. -/
def CrashesHeader (hs : Handshake) (u : List UInt8) : Prop :=
  (∃ hs₁, parseRequest (u ++ rn) hs = .ok (true, hs₁)) ∧ BadLines u

/-- The parser crashes on exactly these headers, whatever lies behind them. -/
theorem wsParseHandshake_crashes_iff :
    (∃ e, (e = .abort ∨ e = .null) ∧
      wsParseHandshake (u ++ rn ++ x) (u.length + 1) hs = .error e) ↔ CrashesHeader hs u := by
  constructor
  · rintro ⟨e, he, hparse⟩
    cases hreq : parseRequest (u ++ rn ++ x) hs with
    | error e' =>
      unfold wsParseHandshake at hparse
      rw [hreq] at hparse
      cases hparse
      have hfault := parseRequest_fault hreq
      rcases he with rfl | rfl <;> exact absurd hfault (by decide)
    | ok r =>
      obtain ⟨found, hs₁⟩ := r
      cases found with
      | false =>
        unfold wsParseHandshake at hparse
        rw [hreq] at hparse
        cases hparse
      | true =>
        have hbad : BadLines u := by
          intro lines hlines
          by_contra hgood
          rw [wsParseHandshake_read hreq hlines fun line hline hbad =>
            hgood ⟨line, hline, hbad⟩] at hparse
          cases hparse
        refine ⟨⟨hs₁, ?_⟩, hbad⟩
        have hdecided := parseRequest_badLines hreq hbad []
        rwa [List.append_nil] at hdecided
  · rintro ⟨⟨hs₁, hreq⟩, hbad⟩
    rw [← List.append_nil (u ++ rn)] at hreq
    exact wsParseHandshake_bad (parseRequest_badLines hreq hbad x) hbad

end

/-! ## A header put together of lines -/

/-- Lines with a line feed behind each. -/
def joinLines (lines : List (List UInt8)) : List UInt8 := lines.flatMap (· ++ rn)

@[simp] theorem joinLines_nil : joinLines [] = [] := rfl

@[simp] theorem joinLines_cons (line : List UInt8) (lines : List (List UInt8)) :
    joinLines (line :: lines) = line ++ rn ++ joinLines lines := rfl

theorem rn_eq : rn = [13, 10] := rfl

theorem length_rn : rn.length = 2 := rfl

/-- The line feed at the end of the text is that of its last line. -/
theorem joinLines_end {lines : List (List UInt8)} (hne : lines ≠ []) :
    ∃ v, v ++ rn = joinLines lines := by
  obtain ⟨before, last, rfl⟩ : ∃ before last, lines = before ++ [last] :=
    ⟨_, _, (List.dropLast_append_getLast hne).symm⟩
  exact ⟨joinLines before ++ last, by simp [joinLines]⟩

/-- A line that the searches for line feeds pass over. -/
structure PlainLine (line : List UInt8) : Prop where
  filled : line ≠ []
  feed : 13 ∉ line

/-- A plain line that does not hide or end the lines behind it from the parser. -/
structure ReadableLine (line : List UInt8) : Prop extends PlainLine line where
  nul : 0 ∉ line
  goesOn : line.tail.head? ≠ some 10

instance (line : List UInt8) : Decidable (PlainLine line) :=
  decidable_of_iff (line ≠ [] ∧ 13 ∉ line) ⟨fun h => ⟨h.1, h.2⟩, fun h => ⟨h.1, h.2⟩⟩

instance (line : List UInt8) : Decidable (ReadableLine line) :=
  decidable_of_iff (PlainLine line ∧ 0 ∉ line ∧ line.tail.head? ≠ some 10)
    ⟨fun h => ⟨h.1, h.2.1, h.2.2⟩, fun h => ⟨h.1, h.2, h.3⟩⟩

theorem not_stops {line : List UInt8} (h : ReadableLine line) (t : List UInt8) :
    ¬ Stops line ∧ ¬ Stops (line ++ rn ++ t) := by
  obtain ⟨b, m, rfl⟩ := List.exists_cons_of_ne_nil h.filled
  have hb : b ≠ 13 := fun hb => h.feed (hb ▸ List.mem_cons_self)
  have hsecond := h.goesOn
  cases m with
  | nil => simp [Stops, hb, rn_eq]
  | cons c m =>
    have hc : c ≠ 10 := by simpa using hsecond
    simp [Stops, hb, hc]

theorem strstr_line {line : List UInt8} (h : ReadableLine line) (t : List UInt8) :
    strstr rn (line ++ rn ++ t) = .found line.length := by
  have hskip : strstr [13, 10] (line ++ (rn ++ t)) =
      (strstr [13, 10] (rn ++ t)).shift line.length := strstr_skip h.feed h.nul (rn ++ t)
  have hfound : strstr [13, 10] (rn ++ t) = .found 0 := by
    simp [rn_eq, strstr, memcmp]
  rw [hfound, Scan.shift_found, Nat.zero_add, ← List.append_assoc] at hskip
  exact hskip

theorem headerLines_join {lines : List (List UInt8)} (hne : lines ≠ [])
    (h : ∀ line ∈ lines, ReadableLine line) {v : List UInt8} (hv : v ++ rn = joinLines lines) :
    headerLines v = lines := by
  induction lines generalizing v with
  | nil => exact absurd rfl hne
  | cons line lines ih =>
    have hline := h line List.mem_cons_self
    cases lines with
    | nil =>
      have hvline : v = line := by simpa using hv
      subst hvline
      have hfound := strstr_line hline []
      rw [List.append_nil] at hfound
      rw [headerLines_found (not_stops hline []).1 hfound, List.take_length,
        List.drop_eq_nil_of_le (Nat.le_add_right ..), headerLines_stops stops_nil]
    | cons line' lines =>
      obtain ⟨v', hv'⟩ := joinLines_end (List.cons_ne_nil line' lines)
      have hvsplit : v = line ++ rn ++ v' := by
        rw [joinLines_cons, ← hv', ← List.append_assoc, List.append_left_inj] at hv
        exact hv
      have hfound := strstr_line hline (v' ++ rn)
      rw [← List.append_assoc, ← hvsplit] at hfound
      have htake : v.take line.length = line := by rw [hvsplit, List.append_assoc, List.take_left]
      have hdrop : v.drop (line.length + 2) = v' := by
        rw [hvsplit, ← length_rn, ← List.length_append, List.drop_left]
      rw [headerLines_found (hvsplit ▸ (not_stops hline v').2) hfound, htake, hdrop,
        ih (List.cons_ne_nil line' lines) (fun l hl => h l (List.mem_cons_of_mem _ hl)) hv']

theorem requestLines_header {first : List UInt8} {lines : List (List UInt8)} (hne : lines ≠ [])
    (hfirst : ReadableLine first) (h : ∀ line ∈ lines, ReadableLine line) {u : List UInt8}
    (hu : u ++ rn = joinLines (first :: lines)) : requestLines u = some lines := by
  obtain ⟨v, hv⟩ := joinLines_end hne
  have husplit : u = first ++ rn ++ v := by
    rw [joinLines_cons, ← hv, ← List.append_assoc, List.append_left_inj] at hu
    exact hu
  have hfound := strstr_line hfirst (v ++ rn)
  rw [← List.append_assoc, ← husplit] at hfound
  unfold requestLines
  rw [hfound]
  dsimp only
  rw [husplit, ← length_rn, ← List.length_append, List.drop_left, headerLines_join hne h hv]

end ChainSocket
