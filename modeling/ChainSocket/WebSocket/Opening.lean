import ChainSocket.WebSocket.Poller
import Mathlib.Data.List.Infix

/-!
# What decides a handshake

The parser looks for line feeds, spaces and field names in memory that goes on behind the header.
Where it accepts, everything it has found lies in front of the end of the header.

* `parseLines_stop`: the line loop does not see what lies behind the header;
* `parseLines_connection`: a header without a field name is not accepted;
* `opening_any_tail`: an accepted header is accepted with anything behind it, with the same result.
-/

namespace CString

theorem strchr_ne_off {c : UInt8} {u : List UInt8} (h : c ∈ u) : strchr c u ≠ .off := by
  induction u with
  | nil => cases h
  | cons b u ih =>
    simp only [strchr]
    by_cases hb : b = c
    · simp [hb]
    · have : c ∈ u := (List.mem_cons.mp h).resolve_left fun e => hb e.symm
      by_cases h0 : b = 0
      · rw [if_neg hb, if_pos h0]; exact Scan.noConfusion
      · rw [if_neg hb, if_neg h0, ne_eq, Scan.shift_eq_off]; exact ih this

theorem word_ends (u t : List UInt8) {c : UInt8} (hc : isspace c = true) :
    word (u ++ c :: t) ≠ none := by
  induction u with
  | nil => simp [word, hc]
  | cons b u ih =>
    simp only [List.cons_append, word]
    by_cases hb : isspace b ∨ b = 0
    · simp [hb]
    · simpa [hb] using ih

theorem scanWord_ends {u : List UInt8} (h : ∃ b ∈ u, isspace b = false) (t : List UInt8)
    {c : UInt8} (hc : isspace c = true) : scanWord (u ++ c :: t) ≠ none := by
  induction u with
  | nil => obtain ⟨b, hb, _⟩ := h; cases hb
  | cons b u ih =>
    simp only [List.cons_append, scanWord]
    by_cases hb : isspace b = true
    · rw [if_pos hb]
      apply ih
      obtain ⟨x, hx, hs⟩ := h
      rcases List.mem_cons.mp hx with rfl | hx
      · rw [hb] at hs; cases hs
      · exact ⟨x, hx, hs⟩
    · rw [if_neg hb]
      exact word_ends (b :: u) t hc

end CString

namespace ChainSocket

open CString

theorem field_name (f : Field) :
    13 ∉ f.name ∧ 32 ∈ f.name ∧ ∃ b ∈ f.name, isspace b = false := by
  cases f <;> decide

/-! ## The line loop -/

theorem matchField_stop (u t : List UInt8) (fields : List Field) :
    matchField (u ++ rn ++ t) fields = .ok (fields.find? fun f => f.name.isPrefixOf u) := by
  induction fields with
  | nil => rfl
  | cons f fields ih =>
    have hm : memcmp f.name (u ++ rn ++ t) = some (f.name.isPrefixOf u) := by
      rw [List.append_assoc]
      exact memcmp_stop (field_name f).1 u (10 :: t)
    simp only [matchField, hm, List.find?_cons]
    cases f.name.isPrefixOf u with
    | true => rfl
    | false => exact ih

theorem getUptoLinefeed_stop (u t : List UInt8) :
    getUptoLinefeed (u ++ rn ++ t) = getUptoLinefeed (u ++ rn) := by
  unfold getUptoLinefeed
  rw [strstr_stop (by decide)]
  cases h : strstr rn (u ++ rn) with
  | null => rfl
  | off => rfl
  | found i =>
    have hi : i ≤ u.length := strstr_le (t := []) (by rwa [List.append_nil])
    have hmod := Nat.mod_le i 256
    dsimp only
    rw [List.take_append_of_le_length (by simp; omega)]

theorem parseField_stop (u t : List UInt8) (s : Lines) :
    parseField (u ++ rn ++ t) s = parseField (u ++ rn) s := by
  have h := matchField_stop u [] Field.all
  rw [List.append_nil] at h
  unfold parseField
  rw [matchField_stop, h]
  cases hf : Field.all.find? fun f => f.name.isPrefixOf u with
  | none => rfl
  | some f =>
    have hp : f.name <+: u := List.isPrefixOf_iff_prefix.mp
      (List.find?_some (p := fun f : Field => f.name.isPrefixOf u) hf)
    obtain ⟨v, rfl⟩ := hp
    have hdrop : ∀ x, (f.name ++ v ++ rn ++ x).drop f.name.length = v ++ rn ++ x := by
      intro x; rw [List.append_assoc, List.append_assoc, List.drop_left, List.append_assoc]
    have hd := hdrop []
    rw [List.append_nil, List.append_nil] at hd
    cases f <;> simp only [hdrop t, hd, getUptoLinefeed_stop v t]

/-- A matched field lies in front of the end of the header. -/
theorem parseField_le {u t : List UInt8} {s s' : Lines} {k : Nat}
    (h : parseField (u ++ rn ++ t) s = .ok (k, s')) :
    k ≤ u.length ∧ (s' = s ∨ ∃ f : Field, f.name <+: u) := by
  unfold parseField at h
  rw [matchField_stop] at h
  cases hf : Field.all.find? fun f => f.name.isPrefixOf u with
  | none =>
    rw [hf] at h
    simp only [Except.ok.injEq, Prod.mk.injEq] at h
    obtain ⟨rfl, rfl⟩ := h
    exact ⟨Nat.zero_le _, .inl rfl⟩
  | some f =>
    have hp : f.name <+: u := List.isPrefixOf_iff_prefix.mp
      (List.find?_some (p := fun f : Field => f.name.isPrefixOf u) hf)
    have hk : k = f.name.length := by
      rw [hf] at h
      cases f
      case protocol =>
        simp only [Except.ok.injEq, Prod.mk.injEq] at h
        exact h.1.symm
      all_goals
        dsimp only at h
        split at h
        · cases h
        · simp only [Except.ok.injEq, Prod.mk.injEq] at h
          exact h.1.symm
    exact ⟨hk ▸ hp.length_le, .inr ⟨f, hp⟩⟩

theorem atLine_stop (u t : List UInt8) : atLine (u ++ rn ++ t) = atLine (u ++ rn) := by
  match u with
  | [] => rfl
  | [b] => rfl
  | b :: c :: u => rfl

/-- The line loop at `u` in front of a line feed, with room for `u` and one byte more. -/
theorem parseLines_stop (u t : List UInt8) (s : Lines) :
    parseLines (u.length + 1) (u ++ rn ++ t) s = parseLines (u.length + 1) (u ++ rn) s := by
  induction hn : u.length using Nat.strong_induction_on generalizing u s with
  | _ n ih =>
    subst hn
    rw [parseLines, if_pos (Nat.succ_pos _)]
    conv_rhs => rw [parseLines, if_pos (Nat.succ_pos _)]
    rw [atLine_stop, parseField_stop]
    cases atLine (u ++ rn) with
    | error e => rfl
    | ok b =>
      cases b with
      | false => rfl
      | true =>
        cases hp : parseField (u ++ rn) s with
        | error e => rfl
        | ok r =>
          obtain ⟨k, s'⟩ := r
          have hk : k ≤ u.length := (parseField_le (t := []) (by rwa [List.append_nil])).1
          have hdrop : ∀ j x, j ≤ u.length → (u ++ rn ++ x).drop j = u.drop j ++ rn ++ x := by
            intro j x hj
            rw [List.append_assoc, List.drop_append_of_le_length hj, List.append_assoc]
          have hd : ∀ j, j ≤ u.length → (u ++ rn).drop j = u.drop j ++ rn := by
            intro j hj; rw [List.drop_append_of_le_length hj]
          dsimp only
          rw [hdrop k t hk, hd k hk, strstr_stop (by decide)]
          cases hi : strstr rn (u.drop k ++ rn) with
          | null => rfl
          | off => rfl
          | found i =>
            dsimp only
            by_cases hlast : k + i + 2 ≤ u.length
            · rw [hdrop _ t hlast, hd _ hlast]
              have hlen : u.length + 1 - (k + i + 2) = (u.drop (k + i + 2)).length + 1 := by
                simp; omega
              rw [hlen]
              exact ih _ (by simp; omega) _ s' rfl
            · have hzero : u.length + 1 - (k + i + 2) = 0 := by omega
              rw [hzero, parseLines, if_neg (by decide), parseLines, if_neg (by decide)]

/-- The connection flag is only set at a field. -/
theorem parseLines_connection {u t : List UInt8} {s s' : Lines}
    (h : parseLines (u.length + 1) (u ++ rn ++ t) s = .ok s') (hs : s.connectionFlag = false)
    (hs' : s'.connectionFlag = true) : ∃ f : Field, f.name <:+: u := by
  induction hn : u.length using Nat.strong_induction_on generalizing u s with
  | _ n ih =>
    subst hn
    rw [parseLines, if_pos (Nat.succ_pos _)] at h
    split at h
    · cases h
    · cases h; rw [hs] at hs'; cases hs'
    · split at h
      · cases h
      · rename_i k s₁ hp
        obtain ⟨hk, rfl | ⟨f, hf⟩⟩ := parseField_le hp
        · rw [List.append_assoc, List.drop_append_of_le_length hk, ← List.append_assoc] at h
          split at h
          · rename_i i _
            by_cases hlast : k + i + 2 ≤ u.length
            · rw [List.drop_append_of_le_length hlast, ← List.append_assoc] at h
              have hlen : u.length + 1 - (k + i + 2) = (u.drop (k + i + 2)).length + 1 := by
                simp; omega
              rw [hlen] at h
              obtain ⟨f, hf⟩ := ih _ (by simp; omega) h hs rfl
              exact ⟨f, hf.trans (List.drop_suffix _ _).isInfix⟩
            · have hzero : u.length + 1 - (k + i + 2) = 0 := by omega
              rw [hzero, parseLines, if_neg (by decide)] at h
              cases h; rw [hs] at hs'; cases hs'
          · cases h
          · cases h
        · exact ⟨f, hf.isInfix⟩

/-! ## The request line -/

/-- A request line that is parsed within the memory `m` is parsed so whatever lies behind. -/
theorem parseRequest_get (u t : List UInt8) (hs : Handshake) :
    parseRequest (ascii "GET " ++ u ++ t) hs =
      match strchr 32 (u ++ t) with
      | .off => .error .unmapped
      | .null => .ok (false, hs)
      | .found n =>
        match scanWord (32 :: (u ++ t)) with
        | none => .error .unmapped
        | some token =>
          if token = [] then .ok (false, { hs with resource := some [] })
          else if n < token.length then .error .outOfBounds
          else .ok (true, { hs with resource := some token }) := by
  rfl

/-- A space and a byte that is no white space within the header decide the request line there. -/
theorem parseRequest_stop {u : List UInt8} (h32 : 32 ∈ u) (hb : ∃ b ∈ u, isspace b = false)
    (t : List UInt8) (hs : Handshake) :
    parseRequest (ascii "GET " ++ u ++ (rn ++ t)) hs =
      parseRequest (ascii "GET " ++ u ++ rn) hs := by
  have hchr : ∀ x, strchr 32 (u ++ x) = strchr 32 u := strchr_append (strchr_ne_off h32)
  have hword : scanWord (32 :: (u ++ (rn ++ t))) = scanWord (32 :: (u ++ rn)) := by
    have hend : scanWord (32 :: (u ++ rn)) ≠ none :=
      scanWord_ends (u := 32 :: u) (by
        obtain ⟨b, hb, hs⟩ := hb
        exact ⟨b, List.mem_cons_of_mem _ hb, hs⟩) [10] (c := 13) (by decide)
    obtain ⟨w, hw⟩ := Option.ne_none_iff_exists'.mp hend
    have := scanWord_append hw t
    rw [List.cons_append, List.append_assoc] at this
    rw [hw, this]
  rw [parseRequest_get, parseRequest_get, hchr, hchr, hword]

theorem parseRequest_ok {m : List UInt8} {hs hs' : Handshake}
    (h : parseRequest m hs = .ok (true, hs')) : memcmp (ascii "GET ") m = some true := by
  unfold parseRequest at h
  split at h
  · cases h
  · cases h
  · assumption

theorem strstr_rn_get (m : List UInt8) :
    strstr rn (ascii "GET " ++ m) = (strstr rn m).shift 4 := by
  change ((((strstr rn m).shift 1).shift 1).shift 1).shift 1 = _
  cases strstr rn m <;> rfl

/-- The lines behind the request line `GET ` ++ `v`, whose line feed is `j` bytes behind the
`GET `. -/
theorem lines_memory (v x : List UInt8) {j : Nat} (hj : j + 2 ≤ v.length) :
    (ascii "GET " ++ v ++ rn ++ x).drop (j + 4 + 2) = v.drop (j + 2) ++ rn ++ x ∧
      (ascii "GET " ++ v).length + 1 - (j + 4 + 2) = (v.drop (j + 2)).length + 1 := by
  have hlen : (ascii "GET ").length = 4 := rfl
  constructor
  · have h4 : j + 4 + 2 = (ascii "GET ").length + (j + 2) := by omega
    rw [List.append_assoc, List.append_assoc, h4, ← List.drop_drop, List.drop_left,
      List.drop_append_of_le_length hj, List.append_assoc]
  · rw [List.length_append, List.length_drop]; omega

/-- A request that is answered: its request line is not parsed, or its lines have been read. -/
theorem wsParseHandshake_ok {m : List UInt8} {n : Nat} {hs hs' : Handshake} {t : WsFrameType}
    (h : wsParseHandshake m n hs = .ok (t, hs')) :
    (t = .error ∧ parseRequest m hs = .ok (false, hs')) ∨
    ∃ hs₁ i s, parseRequest m hs = .ok (true, hs₁) ∧ strstr rn m = .found i ∧
      parseLines (n - (i + 2)) (m.drop (i + 2)) ⟨hs₁, false, false, false, false⟩ = .ok s ∧
      s.verdict = t ∧ hs' = { s.hs with frameType := s.verdict } := by
  unfold wsParseHandshake at h
  split at h
  · cases h
  · rename_i hreq
    cases h
    exact .inl ⟨rfl, hreq⟩
  · rename_i hs₁ hreq
    split at h
    · cases h
    · cases h
    · rename_i i hi
      split at h
      · cases h
      · rename_i s hlines
        simp only [Except.ok.injEq, Prod.mk.injEq] at h
        exact .inr ⟨hs₁, i, s, hreq, hi, hlines, h.1, h.2.symm⟩

/-- What an accepted header has: the request line, its line feed `j` bytes behind the `GET `, and
lines that set all that is asked for. -/
theorem wsParseHandshake_opening {u x : List UInt8} {room : Nat} {hs hs' : Handshake} :
    wsParseHandshake (u ++ rn ++ x) room hs = .ok (.opening, hs') ↔
      ∃ v j hs₁ s, u = ascii "GET " ++ v ∧ strstr rn (v ++ rn) = .found j ∧
        parseRequest (u ++ rn ++ x) hs = .ok (true, hs₁) ∧
        parseLines (room - (j + 4 + 2)) ((u ++ rn ++ x).drop (j + 4 + 2))
          ⟨hs₁, false, false, false, false⟩ = .ok s ∧
        s.verdict = .opening ∧ hs' = { s.hs with frameType := s.verdict } := by
  have hfeed : ∀ v, strstr rn (ascii "GET " ++ v ++ rn ++ x) = (strstr rn (v ++ rn)).shift 4 := by
    intro v
    rw [strstr_stop (by decide), List.append_assoc, strstr_rn_get]
  constructor
  · intro h
    rcases wsParseHandshake_ok h with ⟨htype, -⟩ | ⟨hs₁, i, s, hreq, hi, hlines, hverdict, hs'⟩
    · cases htype
    have hget := parseRequest_ok hreq
    rw [List.append_assoc, show rn ++ x = 13 :: (10 :: x) from rfl,
      memcmp_stop (by decide)] at hget
    obtain ⟨v, rfl⟩ := List.isPrefixOf_iff_prefix.mp (Option.some.inj hget)
    rw [hfeed, Scan.shift_eq_found] at hi
    obtain ⟨j, hj, rfl⟩ := hi
    exact ⟨v, j, hs₁, s, rfl, hj, hreq, hlines, hverdict, hs'⟩
  · rintro ⟨v, j, hs₁, s, rfl, hj, hreq, hlines, hverdict, rfl⟩
    unfold wsParseHandshake
    rw [hreq]
    dsimp only
    rw [hfeed, hj]
    dsimp only [Scan.shift_found]
    rw [hlines]
    dsimp only
    rw [hverdict]

theorem verdict_connection {s : Lines} (h : s.verdict = .opening) : s.connectionFlag = true := by
  by_contra hc
  rw [Bool.not_eq_true] at hc
  rw [Lines.verdict, if_pos (by simp [hc])] at h
  cases h

/-- A field name within the header decides the request line. -/
theorem parseRequest_field {v : List UInt8} {f : Field} (hf : f.name <:+: v) (t : List UInt8)
    (hs : Handshake) : parseRequest (ascii "GET " ++ v ++ rn ++ t) hs =
      parseRequest (ascii "GET " ++ v ++ rn) hs := by
  obtain ⟨-, h32, b, hb, hspace⟩ := field_name f
  rw [List.append_assoc (ascii "GET " ++ v)]
  exact parseRequest_stop (hf.subset h32) ⟨b, hf.subset hb, hspace⟩ t hs

/-- **An accepted header is accepted with anything behind it, with the same result.** -/
theorem opening_any_tail {u x : List UInt8} {hs hs' : Handshake}
    (h : wsParseHandshake (u ++ rn ++ x) (u.length + 1) hs = .ok (.opening, hs'))
    (y : List UInt8) :
    wsParseHandshake (u ++ rn ++ y) (u.length + 1) hs = .ok (.opening, hs') := by
  obtain ⟨v, j, hs₁, s, rfl, hj, hreq, hlines, hverdict, rfl⟩ := wsParseHandshake_opening.1 h
  have hconn := verdict_connection hverdict
  -- the line feed of the request line is not that of the blank line: no line has been read then
  have hlast : j + 2 ≤ v.length := by
    by_contra hfar
    have hlen : (ascii "GET " ++ v).length = 4 + v.length := by
      rw [List.length_append]; rfl
    have hzero : (ascii "GET " ++ v).length + 1 - (j + 4 + 2) = 0 := by omega
    rw [hzero, parseLines, if_neg (by decide)] at hlines
    cases hlines
    cases hconn
  obtain ⟨hmem, hroom⟩ := lines_memory v x hlast
  obtain ⟨hmem', hroom'⟩ := lines_memory v y hlast
  rw [hmem, hroom] at hlines
  obtain ⟨f, hf⟩ := parseLines_connection hlines rfl hconn
  have hfv : f.name <:+: v := hf.trans (List.drop_suffix _ _).isInfix
  refine wsParseHandshake_opening.2 ⟨v, j, hs₁, s, rfl, hj, ?_, ?_, hverdict, rfl⟩
  · rw [parseRequest_field hfv] at hreq ⊢
    exact hreq
  · rw [hmem', hroom', parseLines_stop, ← parseLines_stop _ x]
    exact hlines

theorem wsParseHandshake_type {m : List UInt8} {n : Nat} {hs hs' : Handshake} {t : WsFrameType}
    (h : wsParseHandshake m n hs = .ok (t, hs')) : t = .error ∨ t = .opening := by
  rcases wsParseHandshake_ok h with ⟨rfl, -⟩ | ⟨hs₁, i, s, -, -, -, rfl, -⟩
  · exact .inl rfl
  · unfold Lines.verdict
    split
    · exact .inl rfl
    · exact .inr rfl

/-- An accepted request has a key: the `assert` on it never fails. -/
theorem opening_key {m : List UInt8} {n : Nat} {hs hs' : Handshake}
    (h : wsParseHandshake m n hs = .ok (.opening, hs')) : hs'.key ≠ none := by
  rcases wsParseHandshake_ok h with ⟨htype, -⟩ | ⟨hs₁, i, s, -, -, -, hverdict, rfl⟩
  · cases htype
  · intro hkey
    have hnone : s.hs.key.isNone = true := Option.isNone_iff_eq_none.2 hkey
    rw [Lines.verdict, if_pos (.inr (.inl hnone))] at hverdict
    cases hverdict

end ChainSocket
