import ChainSocket.WebSocket.ClientHandshake
import ChainSocket.WebSocket.Reply

/-!
# The handshake between two WebSocketPollers

`onConnect` sends a request, and the `onRecv` of the other side is to answer it so that the client
goes on to frames.

* `memstr_header`, `requestLines_header`: a header put together of lines is found and read as these;
* `request_accepted`: the request is accepted whatever the record held before;
* `memstr_reply`: where the answer ends.
-/

namespace ChainSocket

open CString

namespace WebSocketPoller

/-! ## Where a header ends -/

theorem memstr_skip {c : UInt8} {p line : List UInt8} (hc : c ∉ line) (t : List UInt8) :
    memstr (c :: p) (line ++ t) = (memstr (c :: p) t).map (· + line.length) := by
  induction line with
  | nil => simp
  | cons b line ih =>
    have hb : c ≠ b := fun h => hc (h ▸ List.mem_cons_self)
    have hpre : (c :: p).isPrefixOf (b :: (line ++ t)) = false := by
      simp [List.isPrefixOf, hb]
    simp only [List.cons_append, memstr, hpre, ih fun h => hc (List.mem_cons_of_mem b h),
      Bool.false_eq_true, if_false, Option.map_map]
    rfl

/-- Behind a line feed that is not the blank line the search goes on. -/
theorem memstr_feed {line : List UInt8} (h : PlainLine line) (t : List UInt8) :
    memstr (rn ++ rn) (rn ++ (line ++ t)) = (memstr (rn ++ rn) (line ++ t)).map (· + 2) := by
  obtain ⟨b, line, rfl⟩ := List.exists_cons_of_ne_nil h.filled
  have hb : b ≠ 13 := fun hb => h.feed (hb ▸ List.mem_cons_self)
  change memstr [13, 10, 13, 10] (13 :: 10 :: (b :: line ++ t)) = _
  have h13 : [13, 10, 13, 10].isPrefixOf (13 :: 10 :: (b :: line ++ t)) = false := by
    simp [List.isPrefixOf, hb.symm]
  have h10 : [13, 10, 13, 10].isPrefixOf (10 :: (b :: line ++ t)) = false := by
    simp [List.isPrefixOf]
  rw [memstr, h13, if_neg (by simp), memstr, h10, if_neg (by simp), Option.map_map]
  rfl

theorem memstr_header {lines : List (List UInt8)} (hne : lines ≠ [])
    (h : ∀ line ∈ lines, PlainLine line) (t : List UInt8) :
    memstr (rn ++ rn) (joinLines lines ++ rn ++ t) = some ((joinLines lines).length - 2) := by
  induction lines with
  | nil => exact absurd rfl hne
  | cons line lines ih =>
    have hskip : ∀ t, memstr (rn ++ rn) (line ++ t) =
        (memstr (rn ++ rn) t).map (· + line.length) :=
      memstr_skip (p := [10, 13, 10]) (h line List.mem_cons_self).feed
    cases lines with
    | nil =>
      have hfound : memstr (rn ++ rn) (rn ++ (rn ++ t)) = some 0 := by
        simp [rn_eq, memstr, List.isPrefixOf]
      simp only [joinLines_cons, joinLines_nil, List.append_nil, List.append_assoc, hskip, hfound]
      simp [rn_eq]
    | cons line' lines =>
      have hrest := ih (by simp) fun l hl => h l (List.mem_cons_of_mem _ hl)
      have hfeed := memstr_feed (h line' (by simp)) (rn ++ (joinLines lines ++ (rn ++ t)))
      simp only [joinLines_cons, List.append_assoc] at hrest ⊢
      rw [hskip, hfeed, hrest]
      simp only [Option.map_some, List.length_append, length_rn, Option.some.injEq]
      omega

end WebSocketPoller

/-! ## The request -/

/-- The value of the `Host` field: `ip`, a colon and `std::to_string(port)`. -/
def hostValue (ip : List UInt8) (port : Int) : List UInt8 := ip ++ ascii ":" ++ ascii port.repr

/-- The `getStr` of `onConnect`. -/
def getStr (ip : List UInt8) (port : Int) : List UInt8 :=
  ascii "GET / HTTP/1.1\r\nHost: " ++ ip ++ ascii ":" ++ ascii port.repr ++
    ascii "\r\nUser-Agent: Mozilla/5.0 (Windows NT 10.0; Win64; x64; rv:69.0) " ++
    ascii "Gecko/20100101 Firefox/69.0\r\nAccept: */*\r\n" ++
    ascii "Accept-Language: en-US,zh-CN;q=0.8,zh;q=0.7,zh-TW;q=0.5,zh-HK;q=0.3,en;q=0.2\r\n" ++
    ascii "Accept-Encoding: gzip, deflate\r\nSec-WebSocket-Version: 13\r\n" ++
    ascii "Origin: http://www.websocket-test.com\r\n" ++
    ascii "Sec-WebSocket-Extensions: permessage-deflate\r\n" ++
    ascii "Sec-WebSocket-Key: L/shkja7V4sYs+Ng+ayRwQ==\r\nConnection: keep-alive, Upgrade\r\n" ++
    ascii "Pragma: no-cache\r\nCache-Control: no-cache\r\nUpgrade: websocket\r\n\r\n"

/-- The key that every client sends. -/
def clientKey : List UInt8 := ascii "L/shkja7V4sYs+Ng+ayRwQ=="

def requestLine : List UInt8 := ascii "GET / HTTP/1.1"

/-- The lines behind the `Host` line. -/
def fixedLines : List (List UInt8) :=
  [ascii "User-Agent: Mozilla/5.0 (Windows NT 10.0; Win64; x64; rv:69.0) " ++
      ascii "Gecko/20100101 Firefox/69.0",
    ascii "Accept: */*",
    ascii "Accept-Language: en-US,zh-CN;q=0.8,zh;q=0.7,zh-TW;q=0.5,zh-HK;q=0.3,en;q=0.2",
    ascii "Accept-Encoding: gzip, deflate",
    Field.version.name ++ ascii "13",
    Field.origin.name ++ ascii "http://www.websocket-test.com",
    ascii "Sec-WebSocket-Extensions: permessage-deflate",
    Field.key.name ++ clientKey,
    Field.connection.name ++ ascii "keep-alive, Upgrade",
    ascii "Pragma: no-cache",
    ascii "Cache-Control: no-cache",
    Field.upgrade.name ++ ascii "websocket"]

def fieldLines (host : List UInt8) : List (List UInt8) := (Field.host.name ++ host) :: fixedLines

theorem getStr_lines (ip : List UInt8) (port : Int) :
    getStr ip port = joinLines (requestLine :: fieldLines (hostValue ip port)) ++ rn := by
  have hfirst : ascii "GET / HTTP/1.1\r\nHost: " = requestLine ++ rn ++ Field.host.name :=
    rfl
  have hrest : getStr [] 0 = ascii "GET / HTTP/1.1\r\nHost: " ++ ascii ":" ++ ascii (0 : Int).repr ++
      (rn ++ joinLines fixedLines ++ rn) := by
    decide +kernel
  unfold getStr at hrest ⊢
  simp only [List.append_assoc, List.append_cancel_left_eq, List.nil_append] at hrest ⊢
  rw [hfirst, hrest, fieldLines, joinLines_cons, joinLines_cons, hostValue]
  simp only [List.append_assoc]

/-- An address that does not break the `Host` line, and a value of it that the parser keeps. -/
structure PlainHost (ip : List UInt8) (port : Int) : Prop where
  feed : 13 ∉ ip
  nul : 0 ∉ ip
  kept : (hostValue ip port).length % 256 ≠ 0

theorem digits_bytes {n : Nat} {b : UInt8} (h : b ∈ ascii n.repr) : 48 ≤ b := by
  rw [Nat.repr_eq_ofList_toDigits, ascii, String.toList_ofList, List.mem_map] at h
  obtain ⟨c, hc, rfl⟩ := h
  have hdigit := Nat.isDigit_of_mem_toDigits (by decide) (by decide) hc
  simp only [Char.isDigit, Bool.and_eq_true, decide_eq_true_eq] at hdigit
  have hlow := UInt32.le_iff_toNat_le.mp hdigit.1
  have hhigh := UInt32.le_iff_toNat_le.mp hdigit.2
  rw [UInt8.le_iff_toNat_le, UInt32.toNat_toUInt8]
  change 48 ≤ c.val.toNat % 256
  change 48 ≤ c.val.toNat at hlow
  change c.val.toNat ≤ 57 at hhigh
  omega

theorem port_bytes {port : Int} {b : UInt8} (h : b ∈ ascii port.repr) : 45 ≤ b := by
  cases port with
  | ofNat n =>
    have := digits_bytes (n := n) h
    exact UInt8.le_trans (by decide) this
  | negSucc n =>
    have hsign : ascii (Int.negSucc n).repr = 45 :: ascii n.succ.repr := by
      simp [Int.repr, ascii]
      rfl
    rw [hsign] at h
    cases h with
    | head => decide
    | tail _ h => exact UInt8.le_trans (by decide) (digits_bytes h)

theorem hostValue_bytes {ip : List UInt8} {port : Int} (h : PlainHost ip port) :
    13 ∉ hostValue ip port ∧ 0 ∉ hostValue ip port := by
  have hport : ∀ b : UInt8, b < 45 → b ∉ ascii port.repr := by
    intro b hb hmem
    have := port_bytes hmem
    rw [UInt8.le_iff_toNat_le] at this
    rw [UInt8.lt_iff_toNat_lt] at hb
    omega
  have hcolon : ascii ":" = [58] := rfl
  simp only [hostValue, hcolon, List.mem_append, List.mem_singleton, not_or]
  exact ⟨⟨⟨h.feed, by decide⟩, hport 13 (by decide)⟩, ⟨h.nul, by decide⟩, hport 0 (by decide)⟩

/-! ## What the server makes of it -/

theorem parseRequest_line (y : List UInt8) (hs : Handshake) :
    parseRequest (requestLine ++ rn ++ y) hs =
      .ok (true, { hs with resource := some (ascii "/") }) := by
  rfl

theorem requestLine_readable : ReadableLine requestLine := by decide

theorem fixedLines_readable : ∀ line ∈ fixedLines, ReadableLine line := by decide

theorem fieldLines_readable {host : List UInt8} (hfeed : 13 ∉ host) (hnul : 0 ∉ host) :
    ∀ line ∈ fieldLines host, ReadableLine line := by
  intro line hline
  rcases List.mem_cons.mp hline with rfl | hfixed
  · have hname : Field.host.name = [72, 111, 115, 116, 58, 32] := rfl
    rw [hname]
    exact ⟨⟨by simp, by simpa using hfeed⟩, by simpa using hnul, by simp⟩
  · exact fixedLines_readable line hfixed

/-- Lines that start with no field's name change nothing. -/
theorem readLines_fields (hs : Handshake) (lines : List (List UInt8)) :
    readLines hs lines = readLines hs (lines.filter fun line => (fieldOf line).isSome) := by
  unfold readLines
  generalize (⟨hs, false, false, false, false⟩ : Lines) = s
  induction lines generalizing s with
  | nil => rfl
  | cons line lines ih =>
    cases hf : fieldOf line with
    | none =>
      have hstore : storeLine s line = s := by rw [storeLine, hf]
      simp [hf, hstore, ih]
    | some f => simp [hf, ih]

theorem not_badLine {line : List UInt8} (hnul : 0 ∉ line)
    (hkept : ∀ f, fieldOf line = some f → (line.length - f.name.length) % 256 ≠ 0) :
    ¬ BadLine line := by
  rintro (h0 | ⟨f, hf, -, hlen⟩)
  · exact hnul h0
  · exact hkept f hf hlen

theorem fieldLines_good {host : List UInt8} (hnul : 0 ∉ host) (hkept : host.length % 256 ≠ 0) :
    ∀ line ∈ fieldLines host, ¬ BadLine line := by
  intro line hline
  rcases List.mem_cons.mp hline with rfl | hfixed
  · apply not_badLine
    · simpa [field_name_nul] using hnul
    · intro f hf
      have hhost : fieldOf (Field.host.name ++ host) = some .host := rfl
      rw [hhost] at hf
      cases hf
      simpa using hkept
  · have hkeeps : ∀ line ∈ fixedLines, ∀ f ∈ Field.all, fieldOf line = some f →
        (line.length - f.name.length) % 256 ≠ 0 := by
      decide
    refine not_badLine (fixedLines_readable line hfixed).nul fun f hf => ?_
    exact hkeeps line hfixed f (List.mem_of_find?_eq_some hf) hf

/-- What the server reads in the request. -/
theorem readLines_request (hs : Handshake) (host : List UInt8) :
    (readLines hs (fieldLines host)).verdict = .opening ∧
      (readLines hs (fieldLines host)).hs.key = some clientKey := by
  have hfixed : (fixedLines.filter fun line => (fieldOf line).isSome) =
      [Field.version.name ++ ascii "13", Field.origin.name ++ ascii "http://www.websocket-test.com",
        Field.key.name ++ clientKey, Field.connection.name ++ ascii "keep-alive, Upgrade",
        Field.upgrade.name ++ ascii "websocket"] :=
    rfl
  have hhost : fieldOf (Field.host.name ++ host) = some .host := rfl
  have hversion : fieldOf (Field.version.name ++ ascii "13") = some .version := rfl
  have horigin : fieldOf (Field.origin.name ++ ascii "http://www.websocket-test.com") =
      some .origin :=
    rfl
  have hkey : fieldOf (Field.key.name ++ clientKey) = some .key := fieldOf_key clientKey
  have hconnection : fieldOf (Field.connection.name ++ ascii "keep-alive, Upgrade") =
      some .connection :=
    rfl
  have hupgrade : fieldOf (Field.upgrade.name ++ ascii "websocket") = some .upgrade :=
    rfl
  have hvalues : lineValue (Field.key.name ++ clientKey) .key = clientKey ∧
      memcmp version (lineValue (Field.version.name ++ ascii "13") .version ++ [0]) = some true ∧
      strstr (ascii "upgrade") ((lineValue (Field.connection.name ++
        ascii "keep-alive, Upgrade") .connection).map tolower ++ [0]) ≠ .null ∧
      memcmp websocket ((lineValue (Field.upgrade.name ++
        ascii "websocket") .upgrade).map tolower ++ [0]) = some true := by
    decide
  obtain ⟨hclient, h13, hup, hws⟩ := hvalues
  rw [readLines_fields, fieldLines, List.filter_cons, if_pos (by rw [hhost]; rfl), hfixed]
  unfold readLines
  simp only [List.foldl_cons, List.foldl_nil]
  rw [storeLine_field hhost (by decide), storeLine_field hversion (by decide),
    storeLine_field horigin (by decide), storeLine_field hkey (by decide),
    storeLine_field hconnection (by decide), storeLine_field hupgrade (by decide)]
  simp only [Lines.store, hclient, h13, hws]
  constructor
  · rw [verdict_opening]
    exact ⟨by simp, by simp, by simpa using hup, rfl, rfl, rfl⟩
  · trivial

namespace WebSocketPoller

/-- The answer to every client. -/
def clientReply : List UInt8 := replyWith (acceptValue clientKey)

theorem request_accepted {ip : List UInt8} {port : Int} (h : PlainHost ip port) {u : List UInt8}
    (hu : u ++ rn = joinLines (requestLine :: fieldLines (hostValue ip port)))
    (hs : Handshake) : ∃ hs', Accepts hs u hs' clientReply := by
  obtain ⟨hfeed, hnul⟩ := hostValue_bytes h
  have hlines : requestLines u = some (fieldLines (hostValue ip port)) :=
    requestLines_header (by simp [fieldLines]) requestLine_readable
      (fieldLines_readable hfeed hnul) hu
  obtain ⟨hverdict, hkey⟩ := readLines_request { hs with resource := some (ascii "/") }
    (hostValue ip port)
  refine ⟨{ (readLines { hs with resource := some (ascii "/") }
    (fieldLines (hostValue ip port))).hs with frameType := .opening }, fun y => ?_, clientKey,
    hkey, ?_⟩
  · have hreq : parseRequest (u ++ rn ++ y) hs =
        .ok (true, { hs with resource := some (ascii "/") }) := by
      rw [hu, joinLines_cons, List.append_assoc]
      exact parseRequest_line _ hs
    have hread := wsParseHandshake_read hreq hlines (fieldLines_good hnul h.kept)
    rw [hread, hverdict]
  · exact reply_of_key (by decide) (by decide) (by decide)

/-! ## The two blocks -/

/-- What ends a block is not found before all of the block has come in. -/
theorem memstr_unfinished {p w t : List UInt8} {pos : Nat} (hpos : memstr p (w ++ t) = some pos)
    (hend : pos + p.length = (w ++ t).length) (ht : t ≠ []) : memstr p w = none := by
  cases hfound : memstr p w with
  | none => rfl
  | some i =>
    have hle := memstr_le hfound
    rw [memstr_append hfound, Option.some.injEq] at hpos
    have := List.length_pos_iff.mpr ht
    rw [List.length_append] at hend
    omega

theorem length_getStr (ip : List UInt8) (port : Int) : 13 ≤ (getStr ip port).length := by
  have hfirst : requestLine.length = 14 := rfl
  rw [getStr_lines, joinLines_cons]
  simp only [List.length_append, hfirst]
  omega

/-- The request, in front of the blank line. -/
theorem getStr_split (ip : List UInt8) (port : Int) : ∃ u,
    u ++ rn = joinLines (requestLine :: fieldLines (hostValue ip port)) ∧
      getStr ip port = u ++ rn ++ rn := by
  obtain ⟨u, hu⟩ := joinLines_end (List.cons_ne_nil requestLine (fieldLines (hostValue ip port)))
  exact ⟨u, hu, by rw [hu, getStr_lines]⟩

theorem memstr_request {ip : List UInt8} {port : Int} (h : PlainHost ip port) (t : List UInt8) :
    memstr (rn ++ rn) (getStr ip port ++ t) = some ((getStr ip port).length - 4) := by
  obtain ⟨hfeed, hnul⟩ := hostValue_bytes h
  have hplain : ∀ line ∈ requestLine :: fieldLines (hostValue ip port), PlainLine line := by
    intro line hline
    rcases List.mem_cons.mp hline with rfl | hfield
    · exact requestLine_readable.toPlainLine
    · exact (fieldLines_readable hfeed hnul line hfield).toPlainLine
  rw [getStr_lines, memstr_header (List.cons_ne_nil _ _) hplain, List.length_append, length_rn]
  simp

def replyLines (value : List UInt8) : List (List UInt8) :=
  [ascii "HTTP/1.1 101 Switching Protocols", Field.upgrade.name ++ websocket,
    Field.connection.name ++ upgrade2, ascii "Sec-WebSocket-Accept: " ++ value]

theorem replyWith_lines (value : List UInt8) :
    replyWith value = joinLines (replyLines value) ++ rn := by
  have hstatus : ascii "HTTP/1.1 101 Switching Protocols\r\n" =
      ascii "HTTP/1.1 101 Switching Protocols" ++ rn :=
    rfl
  simp [replyWith, replyLines, hstatus]

theorem replyLines_plain (key : List UInt8) :
    ∀ line ∈ replyLines (acceptValue key), PlainLine line := by
  have hvalue : 13 ∉ acceptValue key := by
    intro hmem
    have hnone : (13 : UInt8) ∉ Base64.alphabet ∧ (13 : UInt8) ≠ Base64.pad := by decide
    rcases Base64.mem_encode hmem with halphabet | hpad
    · exact hnone.1 halphabet
    · exact hnone.2 hpad
  have hname : PlainLine (ascii "Sec-WebSocket-Accept: ") := by decide
  have hothers : ∀ line ∈ [ascii "HTTP/1.1 101 Switching Protocols",
      Field.upgrade.name ++ websocket, Field.connection.name ++ upgrade2], PlainLine line := by
    decide
  intro line hline
  rw [replyLines, List.mem_cons, List.mem_cons, List.mem_cons, List.mem_singleton] at hline
  rcases hline with rfl | rfl | rfl | rfl
  · exact hothers _ (by simp)
  · exact hothers _ (by simp)
  · exact hothers _ (by simp)
  · exact ⟨by simp [hname.filled], by simp [hname.feed, hvalue]⟩

theorem length_reply (value : List UInt8) : 13 ≤ (replyWith value).length := by
  have hstatus : (ascii "HTTP/1.1 101 Switching Protocols").length = 32 := rfl
  rw [replyWith_lines, replyLines, joinLines_cons]
  simp only [List.length_append, hstatus]
  omega

theorem reply_http (value : List UInt8) : ∃ t, replyWith value = ascii "HTTP" ++ t := by
  have hstatus : ascii "HTTP/1.1 101 Switching Protocols" =
      ascii "HTTP" ++ ascii "/1.1 101 Switching Protocols" :=
    rfl
  rw [replyWith_lines, replyLines, joinLines_cons, hstatus]
  simp only [List.append_assoc]
  exact ⟨_, rfl⟩

theorem memstr_reply (key t : List UInt8) :
    memstr (rn ++ rn) (replyWith (acceptValue key) ++ t) =
      some ((replyWith (acceptValue key)).length - 4) := by
  rw [replyWith_lines, memstr_header (by simp [replyLines]) (replyLines_plain key),
    List.length_append, length_rn]
  simp

end WebSocketPoller

end ChainSocket
