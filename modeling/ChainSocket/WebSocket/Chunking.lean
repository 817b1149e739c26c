import ChainSocket.Lib.Effect
import ChainSocket.Lib.Stream
import ChainSocket.WebSocket.Opening
import ChainSocket.WebSocket.RoundTrip

/-!
# A server session does not depend on how its stream is cut

`Tracks` says what the bytes so far have led to, whatever their chunks; `receive_tracks` that each
`recv` keeps it so. What lies behind the data in memory is free at each `recv`.
-/

namespace ChainSocket.WebSocketPoller

open CString Effect

theorem memstr_split {p w : List UInt8} {pos : Nat} (h : memstr p w = some pos) :
    w = w.take pos ++ p ++ w.drop (pos + p.length) := by
  induction w generalizing pos with
  | nil => cases h
  | cons b w ih =>
    simp only [memstr] at h
    by_cases hp : p.isPrefixOf (b :: w) = true
    · rw [if_pos hp] at h
      cases h
      obtain ⟨t, ht⟩ := List.isPrefixOf_iff_prefix.mp hp
      rw [← ht]; simp
    · rw [if_neg hp] at h
      obtain ⟨i, hi, rfl⟩ := Option.map_eq_some_iff.mp h
      have := ih hi
      rw [show i + 1 + p.length = (i + p.length) + 1 by omega, List.take_succ_cons,
        List.drop_succ_cons, List.cons_append, List.cons_append, ← this]

theorem memstr_le {p w : List UInt8} {pos : Nat} (h : memstr p w = some pos) :
    pos + p.length ≤ w.length := by
  induction w generalizing pos with
  | nil => cases h
  | cons b w ih =>
    simp only [memstr] at h
    by_cases hp : p.isPrefixOf (b :: w) = true
    · rw [if_pos hp] at h
      cases h
      have := (List.isPrefixOf_iff_prefix.mp hp).length_le
      omega
    · rw [if_neg hp] at h
      obtain ⟨i, hi, rfl⟩ := Option.map_eq_some_iff.mp h
      have := ih hi
      simp only [List.length_cons]; omega

theorem memstr_append {p w : List UInt8} {pos : Nat} (h : memstr p w = some pos)
    (t : List UInt8) : memstr p (w ++ t) = some pos := by
  induction w generalizing pos with
  | nil => cases h
  | cons b w ih =>
    have hle := memstr_le h
    have hpre : b :: w <+: b :: (w ++ t) := List.prefix_append (b :: w) t
    have hiff : p.isPrefixOf (b :: (w ++ t)) = p.isPrefixOf (b :: w) := by
      rw [Bool.eq_iff_iff, List.isPrefixOf_iff_prefix, List.isPrefixOf_iff_prefix]
      constructor
      · intro hp; exact List.prefix_of_prefix_length_le hp hpre (by omega)
      · intro hp; exact hp.trans hpre
    simp only [memstr, List.cons_append, hiff] at h ⊢
    by_cases hp : p.isPrefixOf (b :: w) = true
    · rw [if_pos hp] at h ⊢; exact h
    · rw [if_neg hp] at h ⊢
      obtain ⟨i, hi, rfl⟩ := Option.map_eq_some_iff.mp h
      rw [ih hi]; rfl

theorem memstr_occurs {p : List UInt8} (hp : p ≠ []) (u t : List UInt8) :
    memstr p (u ++ p ++ t) ≠ none := by
  induction u with
  | nil =>
    obtain ⟨b, p, rfl⟩ := List.exists_cons_of_ne_nil hp
    simp [memstr, List.isPrefixOf_iff_prefix]
  | cons b u ih =>
    simp only [List.cons_append, memstr]
    split_ifs
    · simp
    · simpa using ih

theorem memstr_prefix_none {p w : List UInt8} {t : List UInt8} (h : memstr p (w ++ t) = none) :
    memstr p w = none := by
  cases hw : memstr p w with
  | none => rfl
  | some pos =>
    rw [memstr_append hw] at h
    cases h

/-- The first occurrence is found as soon as it has come in. -/
theorem memstr_take {p w : List UInt8} (hp : p ≠ []) {pos : Nat} (h : memstr p w = some pos) :
    memstr p (w.take (pos + p.length)) = some pos := by
  have hle := memstr_le h
  have hocc : w.take (pos + p.length) = w.take pos ++ p := by
    have hsplit := memstr_split h
    have htake : (w.take pos).length = pos := by simp; omega
    conv_lhs => rw [hsplit]
    rw [List.take_append_of_le_length (by simp [htake])]
    simp [htake]
  cases hfound : memstr p (w.take (pos + p.length)) with
  | none =>
    rw [hocc] at hfound
    exact absurd (by simpa using hfound) (memstr_occurs hp (w.take pos) [])
  | some i =>
    have hwhole := memstr_append hfound (w.drop (pos + p.length))
    rw [List.take_append_drop, h] at hwhole
    exact hwhole.symm

/-! ## The handshake of one `onRecv` -/

/-- A request whose header, up to the blank line, is `u` is answered with `reply`. -/
def Accepts (hs : Handshake) (u : List UInt8) (hs' : Handshake) (reply : List UInt8) : Prop :=
  (∀ y, wsParseHandshake (u ++ rn ++ y) (u.length + 1) hs = .ok (.opening, hs')) ∧
    ∃ key, hs'.key = some key ∧ handshakeReply key = .ok reply

theorem Accepts.unique {hs hs₁ hs₂ : Handshake} {u reply₁ reply₂ : List UInt8}
    (h₁ : Accepts hs u hs₁ reply₁) (h₂ : Accepts hs u hs₂ reply₂) :
    hs₁ = hs₂ ∧ reply₁ = reply₂ := by
  obtain ⟨ho₁, k₁, hk₁, hr₁⟩ := h₁
  obtain ⟨ho₂, k₂, hk₂, hr₂⟩ := h₂
  have := (ho₁ []).symm.trans (ho₂ [])
  simp only [Except.ok.injEq, Prod.mk.injEq, true_and] at this
  subst this
  rw [hk₁, Option.some.injEq] at hk₂
  subst hk₂
  rw [hr₁, Except.ok.injEq] at hr₂
  exact ⟨rfl, hr₂⟩

variable (hs : Handshake) (sid : Nat)

/-- What an `onRecv` of a session that waits for a handshake has come to when it returns. -/
inductive HandshakeEnds (buf : List UInt8) (calls : List WsCall) (s : WsState) : Prop where
  | waits (h : memstr (rn ++ rn) buf = none)
      (hs : s = ⟨hs, some ⟨sid, .handshakeWait, buf⟩, calls⟩)
  | rejects {pos : Nat} (h : memstr (rn ++ rn) buf = some pos) {hs' : Handshake}
      (hr : ∀ hs' reply, ¬ Accepts hs (buf.take pos) hs' reply)
      (hs : s = ⟨hs', none, calls ++ [.closeSession sid .normal]⟩)
  | accepts {pos : Nat} (h : memstr (rn ++ rn) buf = some pos) {hs' : Handshake}
      {reply : List UInt8} (ha : Accepts hs (buf.take pos) hs' reply) {fuel n : Nat}
      (hf : RecvEnds hs' sid .frame (calls ++ [.sendTo reply]) (frameRun (buf.drop (pos + 4))) fuel
        (.ok n s))

theorem serverHandshake_run (buf behind : List UInt8) (calls : List WsCall) :
    (serverHandshake behind).run ⟨hs, some ⟨sid, .handshakeWait, buf⟩, calls⟩ =
      match memstr (rn ++ rn) buf with
      | none => .ok true ⟨hs, some ⟨sid, .handshakeWait, buf⟩, calls⟩
      | some pos =>
        match wsParseHandshake (buf ++ behind) (pos + 1) hs with
        | .error e => .error e ⟨hs, some ⟨sid, .handshakeWait, buf⟩, calls⟩
        | .ok (t, hs') =>
          if t = .error then .ok false ⟨hs', none, calls ++ [.closeSession sid .normal]⟩
          else
            match hs'.key with
            | none => .error .abort ⟨hs', some ⟨sid, .handshakeWait, buf⟩, calls⟩
            | some key =>
              match handshakeReply key with
              | .error e => .error e ⟨hs', some ⟨sid, .handshakeWait, buf⟩, calls⟩
              | .ok reply => .ok (decide (buf.drop (pos + 4) ≠ []))
                  ⟨hs', some ⟨sid, .frame, buf.drop (pos + 4)⟩, calls ++ [.sendTo reply]⟩ := by
  unfold serverHandshake
  rw [run_bind_ok (conn_run ..)]
  cases memstr (rn ++ rn) buf with
  | none => rfl
  | some pos =>
    dsimp only
    rw [run_bind_ok (run_get _)]
    cases wsParseHandshake (buf ++ behind) (pos + 1) hs with
    | error e => rfl
    | ok r =>
      obtain ⟨t, hs'⟩ := r
      rw [run_bind_ok (liftExcept_run ..), run_bind_ok (run_modify ..)]
      dsimp only
      by_cases ht : t = .error
      · rw [if_pos ht, if_pos ht]; rfl
      · rw [if_neg ht, if_neg ht]
        cases hs'.key with
        | none => rfl
        | some key =>
          dsimp only
          cases handshakeReply key <;> rfl

/-- What the branch of `WS_WAIT_HANDSHAKE_WAIT` comes to. -/
inductive ServerStep (buf behind : List UInt8) (calls : List WsCall) :
    EStateM.Result Fault WsState Bool → Prop where
  | waits (blank : memstr (rn ++ rn) buf = none) :
      ServerStep buf behind calls (.ok true ⟨hs, some ⟨sid, .handshakeWait, buf⟩, calls⟩)
  | fails {pos : Nat} (blank : memstr (rn ++ rn) buf = some pos) {e : Fault}
      (parse : wsParseHandshake (buf ++ behind) (pos + 1) hs = .error e) :
      ServerStep buf behind calls (.error e ⟨hs, some ⟨sid, .handshakeWait, buf⟩, calls⟩)
  | rejects {pos : Nat} (blank : memstr (rn ++ rn) buf = some pos) {hs' : Handshake}
      (parse : wsParseHandshake (buf ++ behind) (pos + 1) hs = .ok (.error, hs')) :
      ServerStep buf behind calls (.ok false ⟨hs', none, calls ++ [.closeSession sid .normal]⟩)
  | unanswered {pos : Nat} (blank : memstr (rn ++ rn) buf = some pos) {hs' : Handshake}
      (parse : wsParseHandshake (buf ++ behind) (pos + 1) hs = .ok (.opening, hs'))
      {key : List UInt8} (hkey : hs'.key = some key) {e : Fault}
      (answer : handshakeReply key = .error e) :
      ServerStep buf behind calls (.error e ⟨hs', some ⟨sid, .handshakeWait, buf⟩, calls⟩)
  | answers {pos : Nat} (blank : memstr (rn ++ rn) buf = some pos) {hs' : Handshake}
      (parse : wsParseHandshake (buf ++ behind) (pos + 1) hs = .ok (.opening, hs'))
      {key reply : List UInt8} (hkey : hs'.key = some key)
      (answer : handshakeReply key = .ok reply) :
      ServerStep buf behind calls (.ok (decide (buf.drop (pos + 4) ≠ []))
        ⟨hs', some ⟨sid, .frame, buf.drop (pos + 4)⟩, calls ++ [.sendTo reply]⟩)

theorem serverHandshake_step (buf behind : List UInt8) (calls : List WsCall) :
    ServerStep hs sid buf behind calls
      ((serverHandshake behind).run ⟨hs, some ⟨sid, .handshakeWait, buf⟩, calls⟩) := by
  rw [serverHandshake_run]
  cases blank : memstr (rn ++ rn) buf with
  | none => exact .waits blank
  | some pos =>
    dsimp only
    cases parse : wsParseHandshake (buf ++ behind) (pos + 1) hs with
    | error e => exact .fails blank parse
    | ok r =>
      obtain ⟨type, hs'⟩ := r
      dsimp only
      rcases wsParseHandshake_type parse with rfl | rfl
      · exact .rejects blank parse
      · rw [if_neg (by decide)]
        cases hkey : hs'.key with
        | none => exact absurd hkey (opening_key parse)
        | some key =>
          dsimp only
          cases answer : handshakeReply key with
          | error e => exact .unanswered blank parse hkey answer
          | ok reply => exact .answers blank parse hkey answer

variable {hs sid}

/-- The header, with half of the blank line, and all that lies behind it in memory. -/
theorem header_split {buf : List UInt8} {pos : Nat} (h : memstr (rn ++ rn) buf = some pos)
    (behind : List UInt8) : (buf.take pos).length = pos ∧
      buf ++ behind = buf.take pos ++ rn ++ (rn ++ (buf.drop (pos + 4) ++ behind)) := by
  have hl : (rn ++ rn).length = 4 := rfl
  have hle := memstr_le h
  have hsplit := memstr_split h
  rw [hl] at hle hsplit
  constructor
  · rw [List.length_take]; omega
  · conv_lhs => rw [hsplit]
    simp only [List.append_assoc]

/-- What `wsParseHandshake` says of a request that has come in whole is what it says whatever lies
behind the header. -/
theorem parse_accepts {buf behind : List UInt8} {pos : Nat}
    (hm : memstr (rn ++ rn) buf = some pos) {type : WsFrameType} {hs' : Handshake}
    (hp : wsParseHandshake (buf ++ behind) (pos + 1) hs = .ok (type, hs')) :
    (type = .error ∧ ∀ hs₂ reply, ¬ Accepts hs (buf.take pos) hs₂ reply) ∨
      type = .opening ∧ ∀ key reply, hs'.key = some key → handshakeReply key = .ok reply →
        Accepts hs (buf.take pos) hs' reply := by
  obtain ⟨hpos, hsplit⟩ := header_split hm behind
  rw [hsplit] at hp
  rcases wsParseHandshake_type hp with rfl | rfl
  · left
    refine ⟨rfl, ?_⟩
    rintro hs₂ reply ⟨ho, -⟩
    have := ho (rn ++ (buf.drop (pos + 4) ++ behind))
    rw [hpos, hp] at this
    cases this
  · right
    refine ⟨rfl, fun key reply hk hr => ⟨fun y => ?_, key, hk, hr⟩⟩
    rw [← hpos] at hp
    exact opening_any_tail (by simpa only [hpos] using hp) y

/-- Where the branch of `WS_WAIT_HANDSHAKE_WAIT` can end, and whether it goes on to the frames. -/
inductive ServerEnds (hs : Handshake) (sid : Nat) (buf : List UInt8) (calls : List WsCall) :
    Bool → WsState → Prop where
  | waits (h : memstr (rn ++ rn) buf = none) :
      ServerEnds hs sid buf calls true ⟨hs, some ⟨sid, .handshakeWait, buf⟩, calls⟩
  | rejects {pos : Nat} (h : memstr (rn ++ rn) buf = some pos) {hs' : Handshake}
      (hr : ∀ hs' reply, ¬ Accepts hs (buf.take pos) hs' reply) :
      ServerEnds hs sid buf calls false ⟨hs', none, calls ++ [.closeSession sid .normal]⟩
  | accepts {pos : Nat} (h : memstr (rn ++ rn) buf = some pos) {hs' : Handshake}
      {reply : List UInt8} (ha : Accepts hs (buf.take pos) hs' reply) :
      ServerEnds hs sid buf calls (decide (buf.drop (pos + 4) ≠ []))
        ⟨hs', some ⟨sid, .frame, buf.drop (pos + 4)⟩, calls ++ [.sendTo reply]⟩

theorem serverHandshake_ends {buf behind : List UInt8} {calls : List WsCall} {more : Bool}
    {s : WsState} (h : (serverHandshake behind).run
      ⟨hs, some ⟨sid, .handshakeWait, buf⟩, calls⟩ = .ok more s) :
    ServerEnds hs sid buf calls more s := by
  have hstep := serverHandshake_step hs sid buf behind calls
  rw [h] at hstep
  cases hstep with
  | waits blank => exact .waits blank
  | rejects blank parse =>
    rcases parse_accepts blank parse with ⟨-, hnever⟩ | ⟨htype, -⟩
    · exact .rejects blank hnever
    · cases htype
  | answers blank parse hkey answer =>
    rcases parse_accepts blank parse with ⟨htype, -⟩ | ⟨-, haccepts⟩
    · cases htype
    · exact .accepts blank (haccepts _ _ hkey answer)

theorem onRecv_handshake {buf behind : List UInt8} {calls : List WsCall} {fuel n : Nat}
    {s : WsState} (h : (onRecv .idle behind fuel).run
      ⟨hs, some ⟨sid, .handshakeWait, buf⟩, calls⟩ = .ok n s) :
    HandshakeEnds hs sid buf calls s := by
  unfold onRecv at h
  obtain ⟨more, s₁, hserver, hrest⟩ := run_bind_inv h
  unfold handshake at hserver
  rw [run_bind_ok (conn_run ..)] at hserver
  cases serverHandshake_ends hserver with
  | waits hm =>
    rw [if_pos rfl, run_bind_ok (conn_run ..)] at hrest
    cases hrest
    exact .waits hm rfl
  | rejects hm hr =>
    cases hrest
    exact .rejects hm hr rfl
  | @accepts pos hm hs' reply ha =>
    by_cases hempty : buf.drop (pos + 4) = []
    · rw [if_neg (by simp [hempty])] at hrest
      cases hrest
      have hnil : RecvEnds hs' sid .frame (calls ++ [.sendTo reply]) ⟨[], .left []⟩ 0 _ :=
        .left rfl
      have hf : RecvEnds hs' sid .frame (calls ++ [.sendTo reply])
          (frameRun (buf.drop (pos + 4))) 0 (.ok 0
            ⟨hs', some ⟨sid, .frame, buf.drop (pos + 4)⟩, calls ++ [.sendTo reply]⟩) := by
        rw [hempty, frameRun_nil]
        simpa using hnil
      exact .accepts hm ha hf
    · rw [if_pos (by simpa using hempty), run_bind_ok (conn_run ..), if_pos rfl] at hrest
      have hf := recvFrames_run hs' sid .frame (buf.drop (pos + 4)) (calls ++ [.sendTo reply]) fuel
      rw [hrest] at hf
      exact .accepts hm ha hf

/-! ## The session -/

/-- One `recv`, whatever lies behind the data and with any fuel. -/
def Receives (s : WsState) (chunk : List UInt8) (s' : WsState) : Prop :=
  ∃ fuel behind, (receive .idle fuel chunk behind).run s = .ok () s'

theorem receiveAll_runs {fuel : Nat} {chunks : List (List UInt8 × List UInt8)} {s s' : WsState}
    (h : (receiveAll .idle fuel chunks).run s = .ok () s') :
    Stream.Runs Receives s (chunks.map Prod.fst) s' := by
  induction chunks generalizing s with
  | nil => cases h; exact .nil _
  | cons c chunks ih =>
    obtain ⟨_, s₁, hstep, hrest⟩ := run_bind_inv h
    exact .cons ⟨fuel, c.2, hstep⟩ (ih hrest)

/-- What the bytes `w` have led to, on a session that waits for a handshake at first. -/
def Tracks (hs : Handshake) (sid : Nat) (w : List UInt8) (s : WsState) : Prop :=
  HandshakeEnds hs sid w [] s

theorem tracks_nil : Tracks hs sid [] ⟨hs, some ⟨sid, .handshakeWait, []⟩, []⟩ := .waits rfl rfl

theorem tracks_view {w : List UInt8} {s s' : WsState} (h : Tracks hs sid w s)
    (h' : Tracks hs sid w s') : (s.conn, s.calls) = (s'.conn, s'.calls) := by
  cases h with
  | waits hm hs =>
    cases h' with
    | waits _ hs' => rw [hs, hs']
    | rejects hm' | accepts hm' => rw [hm] at hm'; cases hm'
  | rejects hm hr hs =>
    cases h' with
    | waits hm' => rw [hm] at hm'; cases hm'
    | rejects _ _ hs' => rw [hs, hs']
    | accepts hm' ha => rw [hm] at hm'; cases hm'; exact absurd ha (hr _ _)
  | accepts hm ha hf =>
    cases h' with
    | waits hm' => rw [hm] at hm'; cases hm'
    | rejects hm' hr => rw [hm] at hm'; cases hm'; exact absurd ha (hr _ _)
    | accepts hm' ha' hf' =>
      rw [hm] at hm'; cases hm'
      obtain ⟨rfl, rfl⟩ := ha.unique ha'
      cases hf with
      | left he =>
        cases hf' with
        | left he' => rw [he] at he'; cases he'; rfl
        | closed he' => rw [he] at he'; cases he'
      | closed he =>
        cases hf' with
        | left he' => rw [he] at he'; cases he'
        | closed he' => rw [he] at he'; cases he'; rfl

theorem receive_closed {fuel : Nat} {chunk behind : List UInt8} {calls : List WsCall}
    {s : WsState} (h : (receive .idle fuel chunk behind).run ⟨hs, none, calls⟩ = .ok () s) :
    s = ⟨hs, none, calls⟩ := by
  cases h; rfl

theorem receive_tracks {w c : List UInt8} {s s' : WsState} (h : Tracks hs sid w s)
    (hr : Receives s c s') : Tracks hs sid (w ++ c) s' := by
  obtain ⟨fuel, behind, hr⟩ := hr
  cases h with
  | waits hm hs =>
    subst hs
    rw [receive_run] at hr
    cases ho : (onRecv .idle behind fuel).run ⟨hs, some ⟨sid, .handshakeWait, w ++ c⟩, []⟩ with
    | error e s₁ => rw [ho] at hr; cases hr
    | ok n s₁ => rw [ho] at hr; cases hr; exact onRecv_handshake ho
  | @rejects pos hm hs' hrej hs =>
    subst hs
    rw [receive_closed hr]
    refine .rejects (memstr_append hm c) ?_ rfl
    have := memstr_le hm
    rw [List.take_append_of_le_length (by omega)]
    exact hrej
  | @accepts pos hm hs' reply ha fuel' n hf =>
    have hle := memstr_le hm
    have hl : (rn ++ rn).length = 4 := rfl
    rw [hl] at hle
    have htake : (w ++ c).take pos = w.take pos := List.take_append_of_le_length (by omega)
    have hdrop : (w ++ c).drop (pos + 4) = w.drop (pos + 4) ++ c :=
      List.drop_append_of_le_length hle
    rw [← htake] at ha
    cases hf with
    | @left rest he =>
      have hrun : frameRun (w.drop (pos + 4)) =
          ⟨(frameRun (w.drop (pos + 4))).messages, .left rest⟩ := by rw [← he]
      obtain ⟨res, hres, hrecv⟩ := receive_frames hs' sid hrun fuel c behind
        ([] ++ [.sendTo reply])
      rw [hr] at hrecv
      cases res with
      | error e s₁ => cases hrecv
      | ok n s₁ =>
        cases hrecv
        rw [← hdrop] at hres
        exact .accepts (memstr_append hm c) ha hres
    | @closed type he =>
      rw [receive_closed hr]
      have happ : frameRun (w.drop (pos + 4) ++ c) = frameRun (w.drop (pos + 4)) := by
        rw [frameRun_append, he]
      rw [← happ, ← hdrop] at he ⊢
      have hf : RecvEnds hs' sid .frame ([] ++ [.sendTo reply])
          (frameRun ((w ++ c).drop (pos + 4))) 0 _ := .closed he
      exact .accepts (memstr_append hm c) ha hf

/-- **Two runs of one stream, cut in different ways, make the same calls and end with the same
session, or both with it closed.** -/
theorem chunking_independence (hs : Handshake) (sid : Nat) {fuel₁ fuel₂ : Nat}
    {chunks₁ chunks₂ : List (List UInt8 × List UInt8)} {s₁ s₂ : WsState}
    (hcut : (chunks₁.map Prod.fst).flatten = (chunks₂.map Prod.fst).flatten)
    (h₁ : (receiveAll .idle fuel₁ chunks₁).run ⟨hs, some ⟨sid, .handshakeWait, []⟩, []⟩ =
      .ok () s₁)
    (h₂ : (receiveAll .idle fuel₂ chunks₂).run ⟨hs, some ⟨sid, .handshakeWait, []⟩, []⟩ =
      .ok () s₂) :
    s₁.conn = s₂.conn ∧ s₁.calls = s₂.calls := by
  have htracked : Stream.Tracked Receives (Tracks hs sid) := ⟨receive_tracks⟩
  have := htracked.chunking tracks_view tracks_nil hcut (receiveAll_runs h₁) (receiveAll_runs h₂)
  simpa using this

/-- A request and one masked message behind it. -/
def sampleStream : List UInt8 :=
  ascii "GET / HTTP/1.1\r\nHost: a\r\nUpgrade: websocket\r\nConnection: Upgrade\r\n" ++
    ascii "Sec-WebSocket-Key: dGhlIHNhbXBsZSBub25jZQ==\r\n\r\n" ++
    [0x81, 0x82, 1, 2, 3, 4, 0x49, 0x6b]

theorem chunking_independence_sample :
    let run := fun chunks => final ((receiveAll .idle 9 chunks).run
      ⟨nullHandshake, some ⟨0, .handshakeWait, []⟩, []⟩)
    let whole := run [(sampleStream, [0])]
    let cut := run [(sampleStream.take 20, []), (sampleStream.drop 20, [7, 0])]
    whole.conn = cut.conn ∧ whole.calls = cut.calls :=
  chunking_independence nullHandshake 0 (by decide +kernel)
    (eq_ok_of_returns (by decide +kernel)) (eq_ok_of_returns (by decide +kernel))

end ChainSocket.WebSocketPoller
