import ChainSocket.WebSocket.Closing

/-!
# The reply to a client's handshake

What the branch of `WS_WAIT_HANDSHAKE_REQ` makes of a reply, however its bytes arrive.

* `receiveAll_waits`, `receiveAll_rejects`: a run over chunks whose header block is not complete,
  or is one the branch closes the session for;
* `classified_iff`: the streams whose replies are told apart by their status line.
-/

namespace ChainSocket.WebSocketPoller

open CString Effect

variable (hs : Handshake) (sid : Nat) (user : WsUser) (fuel : Nat)

/-- The bytes of a run of chunks. -/
def received (chunks : List (List UInt8 × List UInt8)) : List UInt8 :=
  (chunks.map Prod.fst).flatten

@[simp] theorem received_nil : received [] = [] := rfl

@[simp] theorem received_cons (c : List UInt8 × List UInt8)
    (chunks : List (List UInt8 × List UInt8)) :
    received (c :: chunks) = c.1 ++ received chunks := rfl

/-- The client's session before the reply is complete. -/
def replyWait (buf : List UInt8) : WsState := ⟨hs, some ⟨sid, .handshakeReq, buf⟩, []⟩

/-- The header block of a reply that switches protocols. -/
def Switching (header : List UInt8) : Prop := ascii "HTTP/1.1 101" <+: header

/-- On `buf` the branch moves to `WS_WAIT_FRAME`, keeps `rest`, and calls `onHandShake`. -/
def Opens (behind buf rest : List UInt8) : Prop :=
  (handshake user behind).run (replyWait hs sid buf) =
    if user [.onHandShake] then .error .freed ⟨hs, none, [.onHandShake]⟩
    else .ok (decide (rest ≠ [])) ⟨hs, some ⟨sid, .frame, rest⟩, [.onHandShake]⟩

/-- The chunks lead where the header block of their stream says. -/
structure Classified (chunks : List (List UInt8 × List UInt8)) : Prop where
  waits : memstr (rn ++ rn) (received chunks) = none →
    (receiveAll user fuel chunks).run (replyWait hs sid []) =
      .ok () (replyWait hs sid (received chunks))
  opens : ∀ pos, memstr (rn ++ rn) (received chunks) = some pos →
    Switching ((received chunks).take pos) →
      ∃ before c after, chunks = before ++ c :: after ∧
        (receiveAll user fuel before).run (replyWait hs sid []) =
          .ok () (replyWait hs sid (received before)) ∧
        Opens hs sid user c.2 (received before ++ c.1) ((received before ++ c.1).drop (pos + 4))
  closes : ∀ pos, memstr (rn ++ rn) (received chunks) = some pos →
    ¬ Switching ((received chunks).take pos) →
      ∃ type, (receiveAll user fuel chunks).run (replyWait hs sid []) =
        .ok () ⟨hs, none, [.closeSession sid type]⟩

variable {hs sid user fuel}

/-! ## Runs over chunks -/

theorem receiveAll_cons {c : List UInt8 × List UInt8} {chunks : List (List UInt8 × List UInt8)}
    {s s' : WsState} (h : (receive user fuel c.1 c.2).run s = .ok () s') :
    (receiveAll user fuel (c :: chunks)).run s = (receiveAll user fuel chunks).run s' :=
  run_bind_ok h

theorem receiveAll_closed (chunks : List (List UInt8 × List UInt8)) (calls : List WsCall) :
    (receiveAll user fuel chunks).run ⟨hs, none, calls⟩ = .ok () ⟨hs, none, calls⟩ := by
  induction chunks with
  | nil => rfl
  | cons c chunks ih =>
    have hstep : (receive user fuel c.1 c.2).run ⟨hs, none, calls⟩ = .ok () ⟨hs, none, calls⟩ := rfl
    rw [receiveAll_cons hstep]
    exact ih

theorem receiveAll_append {before after : List (List UInt8 × List UInt8)} {s s' : WsState}
    (h : (receiveAll user fuel before).run s = .ok () s') :
    (receiveAll user fuel (before ++ after)).run s = (receiveAll user fuel after).run s' := by
  induction before generalizing s with
  | nil => cases h; rfl
  | cons c before ih =>
    obtain ⟨_, s₁, hstep, hrest⟩ := run_bind_inv h
    rw [List.cons_append, receiveAll_cons hstep]
    exact ih hrest

/-- A branch that does not go on to the frames is all of `onRecv`. -/
theorem receive_stays {buf chunk behind : List UInt8} {s : WsState}
    (h : (handshake user behind).run (replyWait hs sid (buf ++ chunk)) = .ok false s) :
    (receive user fuel chunk behind).run (replyWait hs sid buf) = .ok () s := by
  have hrecv : (onRecv user behind fuel).run (replyWait hs sid (buf ++ chunk)) = .ok 0 s := by
    unfold onRecv
    rw [run_bind_ok h]
    rfl
  unfold replyWait at hrecv ⊢
  rw [receive_run, hrecv]

theorem handshake_reply (behind buf : List UInt8) :
    (handshake user behind).run (replyWait hs sid buf) =
      (clientHandshake user).run (replyWait hs sid buf) := rfl

theorem handshake_waits {buf : List UInt8} (h : memstr (rn ++ rn) buf = none)
    (behind : List UInt8) :
    (handshake user behind).run (replyWait hs sid buf) = .ok false (replyWait hs sid buf) := by
  unfold replyWait
  rw [← replyWait, handshake_reply, replyWait, clientHandshake_run, h]
  simp

theorem receiveAll_waits : ∀ {chunks : List (List UInt8 × List UInt8)} {w : List UInt8},
    memstr (rn ++ rn) (w ++ received chunks) = none →
    (receiveAll user fuel chunks).run (replyWait hs sid w) =
      .ok () (replyWait hs sid (w ++ received chunks)) := by
  intro chunks
  induction chunks with
  | nil =>
    intro w _
    simp only [received_nil, List.append_nil]
    rfl
  | cons c chunks ih =>
    intro w h
    rw [received_cons, ← List.append_assoc] at h ⊢
    have hstep : (receive user fuel c.1 c.2).run (replyWait hs sid w) =
        .ok () (replyWait hs sid (w ++ c.1)) :=
      receive_stays (handshake_waits (memstr_prefix_none h) c.2)
    rw [receiveAll_cons hstep]
    exact ih h

/-- The chunk that completes the header block. -/
theorem completing_chunk {pos : Nat} : ∀ {chunks : List (List UInt8 × List UInt8)}
    {w : List UInt8}, memstr (rn ++ rn) w = none →
    memstr (rn ++ rn) (w ++ received chunks) = some pos →
    ∃ before c after, chunks = before ++ c :: after ∧
      memstr (rn ++ rn) (w ++ received before) = none ∧
      memstr (rn ++ rn) (w ++ received before ++ c.1) = some pos := by
  intro chunks
  induction chunks with
  | nil =>
    intro w hnone hsome
    rw [received_nil, List.append_nil, hnone] at hsome
    cases hsome
  | cons c chunks ih =>
    intro w hnone hsome
    rw [received_cons, ← List.append_assoc] at hsome
    cases hc : memstr (rn ++ rn) (w ++ c.1) with
    | some i =>
      rw [memstr_append hc, Option.some.injEq] at hsome
      subst hsome
      exact ⟨[], c, chunks, rfl, by simpa using hnone, by simpa using hc⟩
    | none =>
      obtain ⟨before, d, after, rfl, hbefore, hd⟩ := ih hc hsome
      exact ⟨c :: before, d, after, rfl, by simpa using hbefore, by simpa using hd⟩

theorem handshake_opens {buf : List UInt8} {pos : Nat} (hpos : memstr (rn ++ rn) buf = some pos)
    (hlen : 13 ≤ buf.length) (hhttp : memstr (ascii "HTTP") buf ≠ none) (behind : List UInt8) :
    Opens hs sid user behind buf (buf.drop (pos + 4)) := by
  obtain ⟨pos₂, hhttp⟩ := Option.ne_none_iff_exists'.mp hhttp
  unfold Opens
  rw [handshake_reply, replyWait, clientHandshake_run, if_neg (by omega), hpos]
  dsimp only
  rw [hhttp]
  rfl

theorem handshake_rejects {buf : List UInt8} {pos : Nat} (hpos : memstr (rn ++ rn) buf = some pos)
    (hlen : 13 ≤ buf.length) (hhttp : memstr (ascii "HTTP") buf = none) (behind : List UInt8) :
    (handshake user behind).run (replyWait hs sid buf) =
      .ok false ⟨hs, none, [.closeSession sid .websocketReadHeadError]⟩ := by
  rw [handshake_reply, replyWait, clientHandshake_run, if_neg (by omega), hpos]
  dsimp only
  rw [hhttp]
  rfl

theorem receiveAll_rejects {chunks : List (List UInt8 × List UInt8)} {pos : Nat}
    (hpos : memstr (rn ++ rn) (received chunks) = some pos) (hlong : 9 ≤ pos)
    (hhttp : memstr (ascii "HTTP") (received chunks) = none) :
    (receiveAll user fuel chunks).run (replyWait hs sid []) =
      .ok () ⟨hs, none, [.closeSession sid .websocketReadHeadError]⟩ := by
  obtain ⟨before, c, after, rfl, hbefore, hc⟩ := completing_chunk (w := []) rfl hpos
  rw [List.nil_append] at hbefore hc
  have hwaits : (receiveAll user fuel before).run (replyWait hs sid []) =
      .ok () (replyWait hs sid (received before)) := receiveAll_waits hbefore
  have hlen : 13 ≤ (received before ++ c.1).length := by
    have := memstr_le hc
    have : (rn ++ rn).length = 4 := rfl
    omega
  have hbytes : received (before ++ c :: after) =
      received before ++ c.1 ++ received after := by simp [received]
  rw [hbytes] at hhttp
  have hstep : (receive user fuel c.1 c.2).run (replyWait hs sid (received before)) =
      .ok () ⟨hs, none, [.closeSession sid .websocketReadHeadError]⟩ :=
    receive_stays (handshake_rejects hc hlen (memstr_prefix_none hhttp) c.2)
  rw [receiveAll_append hwaits, receiveAll_cons hstep]
  exact receiveAll_closed ..

theorem receiveAll_opens {chunks : List (List UInt8 × List UInt8)} {pos : Nat}
    (hpos : memstr (rn ++ rn) (received chunks) = some pos)
    (hswitch : Switching ((received chunks).take pos)) :
    ∃ before c after, chunks = before ++ c :: after ∧
      (receiveAll user fuel before).run (replyWait hs sid []) =
        .ok () (replyWait hs sid (received before)) ∧
      Opens hs sid user c.2 (received before ++ c.1)
        ((received before ++ c.1).drop (pos + 4)) := by
  obtain ⟨before, c, after, rfl, hbefore, hc⟩ := completing_chunk (w := []) rfl hpos
  rw [List.nil_append] at hbefore hc
  refine ⟨before, c, after, rfl, receiveAll_waits hbefore, ?_⟩
  have hle := memstr_le hc
  have hblank : (rn ++ rn).length = 4 := rfl
  have htake : (received (before ++ c :: after)).take pos =
      (received before ++ c.1).take pos := by
    have hbytes : received (before ++ c :: after) =
        received before ++ c.1 ++ received after := by simp [received]
    rw [hbytes, List.take_append_of_le_length (by omega)]
  rw [htake] at hswitch
  have hstatus : (ascii "HTTP/1.1 101").length = 12 := by decide
  have hstart : ascii "HTTP/1.1 101" <+: received before ++ c.1 :=
    hswitch.trans (List.take_prefix _ _)
  have hlen := hswitch.length_le
  rw [List.length_take] at hlen
  apply handshake_opens hc (by omega)
  obtain ⟨t, ht⟩ := hstart
  rw [← ht]
  exact memstr_occurs (by decide) [] (ascii "/1.1 101" ++ t)

/-! ## The streams -/

/-- `sizeof("HTTP/1.1 101")` bytes are awaited whatever the header block is, and one that has come
in is accepted when `HTTP` stands anywhere in the data. -/
def ToldApart (w : List UInt8) : Prop :=
  ∀ pos, memstr (rn ++ rn) w = some pos →
    Switching (w.take pos) ∨ 9 ≤ pos ∧ memstr (ascii "HTTP") w = none

theorem ToldApart.take {w t : List UInt8} (h : ToldApart (w ++ t)) : ToldApart w := by
  intro pos hpos
  have hle := memstr_le hpos
  cases h pos (memstr_append hpos t) with
  | inl hswitch =>
    left
    rwa [List.take_append_of_le_length (by omega)] at hswitch
  | inr hclose => exact .inr ⟨hclose.1, memstr_prefix_none hclose.2⟩

theorem classified_of_toldApart {chunks : List (List UInt8 × List UInt8)}
    (h : ToldApart (received chunks)) : Classified hs sid user fuel chunks where
  waits hnone := receiveAll_waits hnone
  opens _ hpos hswitch := receiveAll_opens hpos hswitch
  closes pos hpos hswitch := by
    obtain ⟨hlong, hhttp⟩ := (h pos hpos).resolve_left hswitch
    exact ⟨_, receiveAll_rejects hpos hlong hhttp⟩

/-- A header block that is complete within twelve bytes keeps the session waiting. -/
theorem short_header_waits {w : List UInt8} (h : w.length < 13) :
    (receiveAll user fuel [(w, [])]).run (replyWait hs sid []) = .ok () (replyWait hs sid w) := by
  have hbranch : (handshake user []).run (replyWait hs sid ([] ++ w)) =
      .ok false (replyWait hs sid w) := by
    rw [handshake_reply, replyWait, clientHandshake_run, if_pos (by simpa using h)]
    rfl
  have hstep : (receive user fuel w []).run (replyWait hs sid []) = .ok () (replyWait hs sid w) :=
    receive_stays hbranch
  exact run_bind_ok hstep

/-- Where `onHandShake` is called, a user that closes the session there is called. -/
theorem http_opens {w : List UInt8} {pos : Nat} (hpos : memstr (rn ++ rn) w = some pos)
    (hlen : 13 ≤ w.length) (hhttp : memstr (ascii "HTTP") w ≠ none) :
    (receiveAll (fun _ => true) fuel [(w, [])]).run (replyWait hs sid []) =
      .error .freed ⟨hs, none, [.onHandShake]⟩ := by
  have hopens : Opens hs sid (fun _ => true) [] w (w.drop (pos + 4)) :=
    handshake_opens hpos hlen hhttp []
  unfold Opens at hopens
  rw [if_pos rfl] at hopens
  have hrecv : (onRecv (fun _ => true) [] fuel).run (replyWait hs sid w) =
      .error .freed ⟨hs, none, [.onHandShake]⟩ := by
    unfold onRecv
    rw [run_bind_error hopens]
  have hstep : (receive (fun _ => true) fuel w []).run (replyWait hs sid []) =
      .error .freed ⟨hs, none, [.onHandShake]⟩ := by
    unfold replyWait at hrecv ⊢
    rw [receive_run, List.nil_append, hrecv]
  exact run_bind_error hstep

/-- **However the replies of a stream are cut, a session is opened by a header block that starts
with `HTTP/1.1 101` and closed by any other, exactly where the stream's first header block is not
complete, starts so, or has nine bytes and no `HTTP` in it or behind it.** -/
theorem classified_iff (hs : Handshake) (sid : Nat) (w : List UInt8) :
    (∀ user fuel chunks, received chunks <+: w → Classified hs sid user fuel chunks) ↔
      ToldApart w := by
  constructor
  · intro h pos hpos
    have hblank : (rn ++ rn).length = 4 := rfl
    have hle := memstr_le hpos
    by_cases hswitch : Switching (w.take pos)
    · exact .inl hswitch
    right
    have hlong : 9 ≤ pos := by
      by_contra hshort
      have hchunk : received [(w.take (pos + 4), ([] : List UInt8))] = w.take (pos + 4) := by simp
      have hclass := h .idle 0 [(w.take (pos + 4), [])] (by rw [hchunk]; exact List.take_prefix _ _)
      have hfound : memstr (rn ++ rn) (w.take (pos + 4)) = some pos := memstr_take (by decide) hpos
      obtain ⟨type, hrun⟩ := hclass.closes pos (by rw [hchunk, hfound])
        (by rwa [hchunk, List.take_take, Nat.min_eq_left (by omega)])
      rw [short_header_waits (by rw [List.length_take]; omega)] at hrun
      cases hrun
    refine ⟨hlong, ?_⟩
    by_contra hhttp
    have hchunk : received [(w, ([] : List UInt8))] = w := by simp
    have hclass := h (fun _ => true) 0 [(w, [])] (by rw [hchunk])
    obtain ⟨type, hrun⟩ := hclass.closes pos (by rw [hchunk, hpos]) (by rwa [hchunk])
    rw [http_opens hpos (by omega) hhttp] at hrun
    cases hrun
  · rintro h user fuel chunks ⟨t, rfl⟩
    exact classified_of_toldApart h.take

/-- A reply that refuses the handshake. -/
theorem not_found_opens : ¬ ∀ (hs : Handshake) (sid : Nat) (w : List UInt8) (user : WsUser)
    (fuel : Nat) (chunks : List (List UInt8 × List UInt8)), received chunks <+: w →
    Classified hs sid user fuel chunks := by
  intro h
  have hclass := h nullHandshake 0 (ascii "HTTP/1.1 404 Not Found\r\n\r\n") .idle 2
    [(ascii "HTTP/1.1 404 Not Found\r\n\r\n", [])] (by decide)
  obtain ⟨type, hrun⟩ := hclass.closes 22 (by decide +kernel) (by unfold Switching; decide +kernel)
  have hconn := congrArg (fun r => (final r).conn) hrun
  have hopen : (final ((receiveAll .idle 2
      [(ascii "HTTP/1.1 404 Not Found\r\n\r\n", [])]).run (replyWait nullHandshake 0 []))).conn =
        some ⟨0, .frame, []⟩ := by decide +kernel
  rw [hopen] at hconn
  cases hconn

end ChainSocket.WebSocketPoller
