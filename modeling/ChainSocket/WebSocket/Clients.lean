import ChainSocket.WebSocket.Residue
import Mathlib.Logic.Function.Basic

/-!
# Clients of one WebSocketPoller

Any number of server sessions share the handshake record `hs`: `onAccept` clears it, and the parser
of every request fills it.

* `readLines_agree`: what a header leaves in the record depends on the record before it only where
  the header lacks its own field;
* `run_ends`: what the bytes of one session have led to, whatever the others have sent;
* `run_inBounds`: runs in which every request that is parsed fits its blocks;
* `SelfContained.fits`: a header with its own host and key that fits its blocks does so whatever
  the record holds;
* `sessions_independent`: with such a header, a session is treated as its own bytes say.
-/

namespace ChainSocket

open CString Effect

/-! ## What a header takes from the record -/

/-- The same flags, and the same host and key where they have been read. -/
structure Agree (s t : Lines) (host key : Prop) : Prop where
  connection : s.connectionFlag = t.connectionFlag
  upgrade : s.upgradeFlag = t.upgradeFlag
  subprotocol : s.subprotocolFlag = t.subprotocolFlag
  version : s.versionMismatch = t.versionMismatch
  host : host → s.hs.host = t.hs.host
  key : key → s.hs.key = t.hs.key

theorem Agree.line {s t : Lines} {host key : Prop} (h : Agree s t host key) (line : List UInt8) :
    Agree (storeLine s line) (storeLine t line) (host ∨ fieldOf line = some .host)
      (key ∨ fieldOf line = some .key) := by
  obtain ⟨hc, hu, hp, hv, hh, hk⟩ := h
  unfold storeLine
  cases fieldOf line with
  | none =>
    refine ⟨hc, hu, hp, hv, ?_, ?_⟩
    · rintro (h | h)
      · exact hh h
      · cases h
    · rintro (h | h)
      · exact hk h
      · cases h
  | some f =>
    cases f with
    | host =>
      refine ⟨hc, hu, hp, hv, fun _ => rfl, ?_⟩
      rintro (h | h)
      · exact hk h
      · cases h
    | key =>
      refine ⟨hc, hu, hp, hv, ?_, fun _ => rfl⟩
      rintro (h | h)
      · exact hh h
      · cases h
    | origin | protocol | version | connection | upgrade =>
      constructor
      case host =>
        rintro (h | h)
        · exact hh h
        · cases h
      case key =>
        rintro (h | h)
        · exact hk h
        · cases h
      all_goals simp only [Lines.store, hc, hu, hp, hv]

theorem Agree.mono {s t : Lines} {host key host' key' : Prop} (h : Agree s t host key)
    (hhost : host' → host) (hkey : key' → key) : Agree s t host' key' :=
  ⟨h.connection, h.upgrade, h.subprotocol, h.version, fun h' => h.host (hhost h'),
    fun h' => h.key (hkey h')⟩

/-- A field of this name is among the lines. -/
def HasField (lines : List (List UInt8)) (f : Field) : Prop :=
  ∃ line ∈ lines, fieldOf line = some f

theorem Agree.lines {s t : Lines} {host key : Prop} (h : Agree s t host key)
    (lines : List (List UInt8)) :
    Agree (lines.foldl storeLine s) (lines.foldl storeLine t) (host ∨ HasField lines .host)
      (key ∨ HasField lines .key) := by
  have hcons : ∀ (line : List UInt8) (lines : List (List UInt8)) (f : Field) (p : Prop),
      p ∨ HasField (line :: lines) f → (p ∨ fieldOf line = some f) ∨ HasField lines f := by
    rintro line lines f p (hp | ⟨l, hl, hf⟩)
    · exact .inl (.inl hp)
    · rcases List.mem_cons.1 hl with rfl | hl
      · exact .inl (.inr hf)
      · exact .inr ⟨l, hl, hf⟩
  induction lines generalizing s t host key with
  | nil =>
    apply h.mono
    · rintro (hh | ⟨l, hl, -⟩)
      · exact hh
      · cases hl
    · rintro (hk | ⟨l, hl, -⟩)
      · exact hk
      · cases hl
  | cons line lines ih =>
    rw [List.foldl_cons, List.foldl_cons]
    exact (ih (h.line line)).mono (hcons line lines .host host) (hcons line lines .key key)

/-- Two records differ behind a header at most in what the header does not have. -/
theorem readLines_agree (hs hs' : Handshake) (lines : List (List UInt8)) :
    Agree (readLines hs lines) (readLines hs' lines) (HasField lines .host)
      (HasField lines .key) := by
  have hstart : Agree ⟨hs, false, false, false, false⟩ ⟨hs', false, false, false, false⟩
      False False := ⟨rfl, rfl, rfl, rfl, False.elim, False.elim⟩
  exact (hstart.lines lines).mono .inr .inr

/-- All that is asked for but the host and the key. -/
structure Upgrades (s : Lines) : Prop where
  connection : s.connectionFlag = true
  upgrade : s.upgradeFlag = true
  subprotocol : s.subprotocolFlag = false
  version : s.versionMismatch = false

theorem verdict_opening {s : Lines} :
    s.verdict = .opening ↔ s.hs.host ≠ none ∧ s.hs.key ≠ none ∧ Upgrades s := by
  unfold Lines.verdict
  constructor
  · intro h
    split_ifs at h with hc
    simp only [not_or, Option.isNone_iff_eq_none, Bool.not_eq_false, Bool.not_eq_true] at hc
    obtain ⟨hh, hk, h1, h2, h3, h4⟩ := hc
    exact ⟨hh, hk, h1, h2, h3, h4⟩
  · rintro ⟨hh, hk, h1, h2, h3, h4⟩
    rw [if_neg]
    simp [hh, hk, h1, h2, h3, h4]

theorem Upgrades.agree {s t : Lines} {host key : Prop} (h : Upgrades s)
    (hst : Agree s t host key) : Upgrades t :=
  ⟨hst.connection ▸ h.connection, hst.upgrade ▸ h.upgrade, hst.subprotocol ▸ h.subprotocol,
    hst.version ▸ h.version⟩

/-- The record takes no part in whether the request line is parsed. -/
theorem parseRequest_record {m : List UInt8} {hs hs₁ : Handshake}
    (h : parseRequest m hs = .ok (true, hs₁)) (hs' : Handshake) :
    ∃ hs₂, parseRequest m hs' = .ok (true, hs₂) := by
  unfold parseRequest at h ⊢
  split at h
  · cases h
  · cases h
  · split at h
    · cases h
    · cases h
    · split at h
      · cases h
      · cases h
      · split at h
        · cases h
        · split_ifs at h with hempty hlong
          · cases h
          · rw [if_neg hempty, if_neg hlong]
            exact ⟨_, rfl⟩

/-- A header that the parser reads and that asks for all it should. -/
structure Asks (u : List UInt8) (lines : List (List UInt8)) : Prop where
  request : ∃ hs, parseRequest (u ++ rn) nullHandshake = .ok (true, hs)
  header : requestLines u = some lines
  readable : ∀ line ∈ lines, ¬ BadLine line
  upgrades : Upgrades (readLines nullHandshake lines)

/-- The request line is copied within its block; and a header that asks for all it should has its
own host and key, and a key that fits the reply. -/
structure SelfContained (u : List UInt8) : Prop where
  resource : ∀ v, u = ascii "GET " ++ v → CopyFits v
  own : ∀ lines, Asks u lines → HasField lines .host ∧ HasField lines .key
  responseKey : ∀ lines key, Asks u lines → (readLines nullHandshake lines).hs.key = some key →
    strlen key < 220

/-- How a header that is accepted has been read. -/
theorem opening_reads {u x : List UInt8} {hs hs' : Handshake}
    (h : wsParseHandshake (u ++ rn ++ x) (u.length + 1) hs = .ok (.opening, hs')) :
    ∃ hs₁ lines, parseRequest (u ++ rn ++ x) hs = .ok (true, hs₁) ∧
      requestLines u = some lines ∧ (∀ line ∈ lines, ¬ BadLine line) ∧
      (readLines hs₁ lines).verdict = .opening ∧ hs'.key = (readLines hs₁ lines).hs.key := by
  obtain ⟨v, j, hs₁, s, -, -, hreq, -⟩ := wsParseHandshake_opening.1 h
  have hgood : ¬ BadLines u := by
    intro hbad
    obtain ⟨e, -, herr⟩ := wsParseHandshake_bad hreq hbad
    rw [herr] at h
    cases h
  unfold BadLines at hgood
  push Not at hgood
  obtain ⟨lines, hlines, hread⟩ := hgood
  have hparse := wsParseHandshake_read hreq hlines hread
  rw [hparse] at h
  simp only [Except.ok.injEq, Prod.mk.injEq] at h
  obtain ⟨hverdict, rfl⟩ := h
  exact ⟨hs₁, lines, hreq, hlines, hread, hverdict, rfl⟩

/-- It asks for all it should, with any record. -/
theorem opening_asks {u x : List UInt8} {hs hs' : Handshake}
    (h : wsParseHandshake (u ++ rn ++ x) (u.length + 1) hs = .ok (.opening, hs')) :
    ∃ hs₁ lines, Asks u lines ∧ (readLines hs₁ lines).verdict = .opening ∧
      hs'.key = (readLines hs₁ lines).hs.key := by
  obtain ⟨hs₁, lines, hreq, hlines, hread, hverdict, hkey⟩ := opening_reads (opening_any_tail h [])
  obtain ⟨hs₀, hreq₀⟩ := parseRequest_record hreq nullHandshake
  rw [List.append_nil] at hreq₀
  have hupgrades := (verdict_opening.1 hverdict).2.2.agree (readLines_agree hs₁ nullHandshake lines)
  exact ⟨hs₁, lines, ⟨⟨hs₀, hreq₀⟩, hlines, hread, hupgrades⟩, hverdict, hkey⟩

/-- Such a header fits its blocks whatever the record holds, and whatever lies behind it. -/
theorem SelfContained.fits {u : List UInt8} (h : SelfContained u) (hs : Handshake)
    (t : List UInt8) : Fits hs (u ++ rn ++ (rn ++ t)) (u.length + 1) := by
  constructor
  · exact WebSocketPoller.copyFits_memory.1 h.resource t
  · intro hs' key hparse hkey
    obtain ⟨hs₁, lines, hasks, -, hkey'⟩ := opening_asks hparse
    apply h.responseKey lines key hasks
    rw [← (readLines_agree hs₁ nullHandshake lines).key (h.own lines hasks).2, ← hkey', hkey]

namespace WebSocketPoller

/-- A header with its own host and key is accepted with the same reply whatever the record held. -/
theorem accepts_any {hs hs' : Handshake} {u reply : List UInt8} (h : Accepts hs u hs' reply)
    (hself : SelfContained u) (hs₂ : Handshake) : ∃ hs₂', Accepts hs₂ u hs₂' reply := by
  obtain ⟨hparse, key, hkey, hreply⟩ := h
  obtain ⟨hs₁, lines, hasks, hverdict, hkey'⟩ := opening_asks (hparse [])
  obtain ⟨hhost, hkeySome, hupgrades⟩ := verdict_opening.1 hverdict
  obtain ⟨hownHost, hownKey⟩ := hself.own lines hasks
  obtain ⟨⟨hs₀, hreq₀⟩, hlines, hread, -⟩ := hasks
  rw [← List.append_nil (u ++ rn)] at hreq₀
  obtain ⟨hs₃, hreq₃⟩ := parseRequest_record hreq₀ hs₂
  have hagree := readLines_agree hs₁ hs₃ lines
  have hverdict₃ : (readLines hs₃ lines).verdict = .opening := by
    rw [verdict_opening, ← hagree.host hownHost, ← hagree.key hownKey]
    exact ⟨hhost, hkeySome, hupgrades.agree hagree⟩
  have hparse₃ := wsParseHandshake_read hreq₃ hlines hread
  rw [hverdict₃] at hparse₃
  refine ⟨_, opening_any_tail hparse₃, key, ?_, hreply⟩
  change (readLines hs₃ lines).hs.key = some key
  rw [← hagree.key hownKey, ← hkey', hkey]

end WebSocketPoller

/-! ## The server -/

/-- The state of a `WebSocketPoller` with its server sessions, each under a number of its own, and
what has come in for each of them since it was accepted. -/
structure WsServer where
  hs : Handshake
  accepted : Nat → Bool
  conn : Nat → Option WsSession
  calls : Nat → List WsCall
  received : Nat → List UInt8

/-- A session is accepted, or bytes come in for it and `onRecv` runs. -/
inductive ClientEvent where
  | accept (sid : Nat)
  | recv (sid : Nat) (user : WsUser) (fuel : Nat) (chunk behind : List UInt8)

namespace WsServer

open WebSocketPoller

def init (hs : Handshake) : WsServer :=
  { hs, accepted := fun _ => false, conn := fun _ => none, calls := fun _ => []
    received := fun _ => [] }

/-- What `onRecv` works on for one session. -/
def session (sid : Nat) : Lens WsServer WsState where
  get s := ⟨s.hs, s.conn sid, s.calls sid⟩
  set t s :=
    { s with
      hs := t.hs
      conn := Function.update s.conn sid t.conn
      calls := Function.update s.calls sid t.calls }
  get_set t s := by simp
  set_get s := by simp
  set_set t t' s := by simp

/-- A number stands for one session: it is accepted once. -/
def onAccept (sid : Nat) : EStateM Fault WsServer Unit :=
  modify fun s =>
    if s.accepted sid then s
    else
      { s with
        hs := nullHandshake
        accepted := Function.update s.accepted sid true
        conn := Function.update s.conn sid (some ⟨sid, .handshakeWait, []⟩) }

def onEvent : ClientEvent → EStateM Fault WsServer Unit
  | .accept sid => onAccept sid
  | .recv sid user fuel chunk behind => do
    modify fun s =>
      if s.accepted sid then
        { s with received := Function.update s.received sid (s.received sid ++ chunk) }
      else s
    (session sid).zoom (receive user fuel chunk behind)

def run : List ClientEvent → EStateM Fault WsServer Unit
  | [] => return
  | e :: es => do
    onEvent e
    run es

/-! ## One session among the others -/

/-- What the bytes `w` of a session have led to: with some record, when its header had come in. -/
inductive SessionEnds (sid : Nat) (w : List UInt8) : Option WsSession → List WsCall → Prop
  | waits (h : memstr (rn ++ rn) w = none) :
      SessionEnds sid w (some ⟨sid, .handshakeWait, w⟩) []
  | rejects {pos : Nat} (h : memstr (rn ++ rn) w = some pos) {hs : Handshake}
      (hr : ∀ hs' reply, ¬ Accepts hs (w.take pos) hs' reply) :
      SessionEnds sid w none [.closeSession sid .normal]
  | accepts {pos : Nat} (h : memstr (rn ++ rn) w = some pos) {hs hs' hs₂ : Handshake}
      {reply : List UInt8} (ha : Accepts hs (w.take pos) hs' reply) {fuel n : Nat}
      {conn : Option WsSession} {calls : List WsCall}
      (hf : RecvEnds hs₂ sid .frame [.sendTo reply] (frameRun (w.drop (pos + 4))) fuel
        (.ok n ⟨hs₂, conn, calls⟩)) : SessionEnds sid w conn calls

theorem recvEnds_record {hs hs₂ : Handshake} {sid : Nat} {calls calls' : List WsCall}
    {r : FrameRun} {fuel n : Nat} {conn : Option WsSession}
    (h : RecvEnds hs sid .frame calls r fuel (.ok n ⟨hs₂, conn, calls'⟩)) : hs₂ = hs := by
  cases h <;> rfl

theorem sessionEnds_of_handshake {hs hs' : Handshake} {sid : Nat} {w : List UInt8}
    {conn : Option WsSession} {calls : List WsCall}
    (h : HandshakeEnds hs sid w [] ⟨hs', conn, calls⟩) : SessionEnds sid w conn calls := by
  cases h with
  | waits hm heq =>
    cases heq
    exact .waits hm
  | rejects hm hr heq =>
    cases heq
    exact .rejects hm hr
  | accepts hm ha hf =>
    cases recvEnds_record hf
    exact .accepts hm ha hf

theorem receive_ends {sid : Nat} {w chunk behind : List UInt8} {hs hs' : Handshake} {fuel : Nat}
    {conn conn' : Option WsSession} {calls calls' : List WsCall}
    (h : SessionEnds sid w conn calls)
    (hr : (receive .idle fuel chunk behind).run ⟨hs, conn, calls⟩ =
      .ok () ⟨hs', conn', calls'⟩) : SessionEnds sid (w ++ chunk) conn' calls' := by
  cases h with
  | waits hm =>
    rw [receive_run] at hr
    cases ho : (onRecv .idle behind fuel).run
        ⟨hs, some ⟨sid, .handshakeWait, w ++ chunk⟩, []⟩ with
    | error e s₁ =>
      rw [ho] at hr
      cases hr
    | ok n s₁ =>
      rw [ho] at hr
      cases hr
      exact sessionEnds_of_handshake (onRecv_handshake ho)
  | @rejects pos hm hs₁ hrej =>
    cases receive_closed hr
    rw [← (take_append hm chunk).1] at hrej
    exact .rejects (memstr_append hm chunk) hrej
  | @accepts pos hm hs₁ hs₁' hs₂ reply ha fuel' n conn calls hf =>
    obtain ⟨htake, hdrop⟩ := take_append hm chunk
    rw [← htake] at ha
    cases hf with
    | @left rest he =>
      have hrun : frameRun (w.drop (pos + 4)) =
          ⟨(frameRun (w.drop (pos + 4))).messages, .left rest⟩ := by rw [← he]
      obtain ⟨res, hres, hrecv⟩ := receive_frames hs sid hrun fuel chunk behind [.sendTo reply]
      rw [hr] at hrecv
      cases res with
      | error e s₁ => cases hrecv
      | ok n s₁ =>
        cases hrecv
        cases recvEnds_record hres
        rw [← hdrop] at hres
        exact .accepts (memstr_append hm chunk) ha hres
    | @closed type he =>
      cases receive_closed hr
      have happ : frameRun (w.drop (pos + 4) ++ chunk) = frameRun (w.drop (pos + 4)) := by
        rw [frameRun_append, he]
      rw [← happ, ← hdrop] at he ⊢
      have hf : RecvEnds hs₂ sid .frame [.sendTo reply]
          (frameRun ((w ++ chunk).drop (pos + 4))) 0 _ := .closed he
      exact .accepts (memstr_append hm chunk) ha hf

/-- What has come in for a session has led to what its bytes say, whatever the others have sent. -/
structure Tracks (sid : Nat) (s : WsServer) : Prop where
  before : s.accepted sid = false → s.conn sid = none ∧ s.calls sid = [] ∧ s.received sid = []
  ends : s.accepted sid = true → SessionEnds sid (s.received sid) (s.conn sid) (s.calls sid)

theorem init_tracks (sid : Nat) (hs : Handshake) : Tracks sid (init hs) :=
  ⟨fun _ => ⟨rfl, rfl, rfl⟩, fun h => by cases h⟩

/-- Where nothing has happened to the session. -/
theorem Tracks.congr {sid : Nat} {s s' : WsServer} (hs : Tracks sid s)
    (haccepted : s'.accepted sid = s.accepted sid) (hconn : s'.conn sid = s.conn sid)
    (hcalls : s'.calls sid = s.calls sid) (hreceived : s'.received sid = s.received sid) :
    Tracks sid s' := by
  constructor
  · rw [haccepted, hconn, hcalls, hreceived]
    exact hs.before
  · rw [haccepted, hconn, hcalls, hreceived]
    exact hs.ends

theorem accept_tracks {sid t : Nat} {s s' : WsServer} (h : (onAccept t).run s = .ok () s')
    (hs : Tracks sid s) : Tracks sid s' := by
  unfold onAccept at h
  rw [run_modify] at h
  cases h
  split_ifs with hacc
  · exact hs
  · by_cases ht : sid = t
    · subst ht
      obtain ⟨-, hcalls, hreceived⟩ := hs.before (Bool.eq_false_iff.2 hacc)
      constructor
      · intro h
        simp at h
      · intro _
        dsimp only
        rw [Function.update_self, hcalls, hreceived]
        exact .waits rfl
    · exact hs.congr (Function.update_of_ne ht ..) (Function.update_of_ne ht ..) rfl rfl

theorem receive_idle {user : WsUser} {fuel : Nat} {chunk behind : List UInt8} {s s' : WsState}
    (h : (receive user fuel chunk behind).run s = .ok () s') :
    (receive .idle fuel chunk behind).run s = .ok () s' := by
  rcases receive_asIdle user fuel chunk behind s with hidle | ⟨s₁, he | he⟩
  · rw [← hidle, h]
  · rw [he] at h
    cases h
  · rw [he] at h
    cases h

theorem recv_tracks {sid t : Nat} {user : WsUser} {fuel : Nat} {chunk behind : List UInt8}
    {s s' : WsServer} (h : (onEvent (.recv t user fuel chunk behind)).run s = .ok () s')
    (hs : Tracks sid s) : Tracks sid s' := by
  unfold onEvent at h
  rw [run_bind_ok (run_modify _ s)] at h
  obtain ⟨u, hrecv, rfl⟩ := Lens.zoom_inv h
  replace hrecv := receive_idle hrecv
  by_cases ht : sid = t
  · subst ht
    cases hacc : s.accepted sid with
    | false =>
      obtain ⟨hconn, hcalls, hreceived⟩ := hs.before hacc
      simp only [hacc, Bool.false_eq_true, if_false] at hrecv ⊢
      change (receive .idle fuel chunk behind).run ⟨s.hs, s.conn sid, s.calls sid⟩ = _ at hrecv
      rw [hconn, hcalls] at hrecv
      have hu := receive_closed hrecv
      subst hu
      constructor
      · intro _
        exact ⟨Function.update_self .., Function.update_self .., hreceived⟩
      · intro h
        change s.accepted sid = true at h
        rw [hacc] at h
        cases h
    | true =>
      have hends := hs.ends hacc
      simp only [hacc, if_true] at hrecv ⊢
      change (receive .idle fuel chunk behind).run ⟨s.hs, s.conn sid, s.calls sid⟩ = _ at hrecv
      constructor
      · intro h
        change s.accepted sid = false at h
        rw [hacc] at h
        cases h
      · intro _
        change SessionEnds sid (Function.update s.received sid (s.received sid ++ chunk) sid)
          (Function.update s.conn sid u.conn sid) (Function.update s.calls sid u.calls sid)
        rw [Function.update_self, Function.update_self, Function.update_self]
        exact receive_ends hends hrecv
  · -- the event of another session leaves all but the record as it is
    have hfix : ∀ s₁ : WsServer, s₁.accepted = s.accepted → s₁.conn = s.conn →
        s₁.calls = s.calls → s₁.received sid = s.received sid →
        Tracks sid ((session t).set u s₁) := by
      intro s₁ hacc hconn hcalls hreceived
      refine hs.congr (congrFun hacc sid) ?_ ?_ hreceived
      · exact (Function.update_of_ne ht ..).trans (congrFun hconn sid)
      · exact (Function.update_of_ne ht ..).trans (congrFun hcalls sid)
    split_ifs
    · exact hfix _ rfl rfl rfl (Function.update_of_ne ht ..)
    · exact hfix _ rfl rfl rfl rfl

theorem run_ends {sid : Nat} {es : List ClientEvent} {s s' : WsServer}
    (h : (run es).run s = .ok () s') (hs : Tracks sid s) : Tracks sid s' := by
  induction es generalizing s with
  | nil =>
    cases h
    exact hs
  | cons e es ih =>
    obtain ⟨_, s₁, he, hrest⟩ := run_bind_inv h
    apply ih hrest
    cases e with
    | accept t => exact accept_tracks he hs
    | recv t user fuel chunk behind => exact recv_tracks he hs

/-! ## Within the blocks -/

/-- What the event copies of a request fits. -/
def EventFits (s : WsServer) (e : ClientEvent) : Prop :=
  ∀ sid user fuel chunk behind c, e = .recv sid user fuel chunk behind → s.conn sid = some c →
    RequestFits s.hs { c with readBuffer := c.readBuffer ++ chunk }

theorem event_inBounds {s : WsServer} {e : ClientEvent} (h : EventFits s e) :
    Avoids .outOfBounds s (onEvent e) := by
  cases e with
  | accept sid => exact .of_ok (run_modify _ s)
  | recv sid user fuel chunk behind =>
    apply Avoids.bind (.of_ok (run_modify _ s))
    intro _ s₁ hmodify
    rw [run_modify] at hmodify
    have hsame : s₁.hs = s.hs ∧ s₁.conn = s.conn := by
      cases hmodify
      split_ifs <;> exact ⟨rfl, rfl⟩
    obtain ⟨hhs, hconn⟩ := hsame
    suffices Avoids .outOfBounds ((session sid).get s₁) (receive user fuel chunk behind) by
      intro s' hrun
      cases hrecv : (receive user fuel chunk behind).run ((session sid).get s₁) with
      | ok _ u => simp [Lens.zoom_ok hrecv] at hrun
      | error e u =>
        rw [Lens.zoom_error hrecv] at hrun
        cases hrun
        exact this u hrecv
    change Avoids Fault.outOfBounds (⟨s₁.hs, s₁.conn sid, s₁.calls sid⟩ : WsState) _
    rw [hhs, hconn]
    cases hc : s.conn sid with
    | none => exact .of_ok rfl
    | some c =>
      have hfits := h sid user fuel chunk behind c rfl hc
      obtain ⟨id, phase, buf⟩ := c
      intro s' hrun
      have hall := onRecv_avoids (handshake_avoids hfits user behind (s₁.calls sid)) fuel
      rw [receive_run] at hrun
      cases ho : (onRecv user behind fuel).run
          ⟨s.hs, some ⟨id, phase, buf ++ chunk⟩, s₁.calls sid⟩ with
      | ok n u =>
        rw [ho] at hrun
        cases hrun
      | error e u =>
        rw [ho] at hrun
        cases hrun
        exact hall s' ho

/-- A run whose events all fit where they come writes nothing out of bounds. -/
theorem run_inBounds {es : List ClientEvent} {s : WsServer}
    (h : ∀ before e s', before ++ [e] <+: es → (run before).run s = .ok () s' → EventFits s' e) :
    Avoids .outOfBounds s (run es) := by
  induction es generalizing s with
  | nil => exact .pure ()
  | cons e es ih =>
    have hfirst : EventFits s e := h [] e s (List.prefix_append [e] es) rfl
    apply (event_inBounds hfirst).bind
    intro _ s₁ he
    apply ih
    intro before e' s' hbefore hrun
    refine h (e :: before) e' s' (List.cons_prefix_cons.2 ⟨rfl, hbefore⟩) ?_
    exact (run_bind_ok he).trans hrun

/-! ## Two runs -/

theorem recvEnds_unique {hs₁ hs₂ : Handshake} {sid : Nat} {calls calls₁ calls₂ : List WsCall}
    {r : FrameRun} {fuel₁ fuel₂ n₁ n₂ : Nat} {conn₁ conn₂ : Option WsSession}
    (h₁ : RecvEnds hs₁ sid .frame calls r fuel₁ (.ok n₁ ⟨hs₁, conn₁, calls₁⟩))
    (h₂ : RecvEnds hs₂ sid .frame calls r fuel₂ (.ok n₂ ⟨hs₂, conn₂, calls₂⟩)) :
    conn₁ = conn₂ ∧ calls₁ = calls₂ := by
  cases h₁ with
  | left he =>
    cases h₂ with
    | left he' =>
      rw [he] at he'
      cases he'
      exact ⟨rfl, rfl⟩
    | closed he' =>
      rw [he] at he'
      cases he'
  | closed he =>
    cases h₂ with
    | left he' =>
      rw [he] at he'
      cases he'
    | closed he' =>
      rw [he] at he'
      cases he'
      exact ⟨rfl, rfl⟩

/-- With its own host and key, the bytes of a session decide what they have led to. -/
theorem sessionEnds_unique {sid : Nat} {w : List UInt8} {conn₁ conn₂ : Option WsSession}
    {calls₁ calls₂ : List WsCall}
    (hself : ∀ pos, memstr (rn ++ rn) w = some pos → SelfContained (w.take pos))
    (h₁ : SessionEnds sid w conn₁ calls₁) (h₂ : SessionEnds sid w conn₂ calls₂) :
    conn₁ = conn₂ ∧ calls₁ = calls₂ := by
  cases h₁ with
  | waits hm =>
    cases h₂ with
    | waits => exact ⟨rfl, rfl⟩
    | rejects hm' | accepts hm' =>
      rw [hm] at hm'
      cases hm'
  | @rejects pos hm hs hr =>
    cases h₂ with
    | waits hm' =>
      rw [hm] at hm'
      cases hm'
    | rejects => exact ⟨rfl, rfl⟩
    | accepts hm' ha =>
      rw [hm] at hm'
      cases hm'
      obtain ⟨hs', ha'⟩ := accepts_any ha (hself pos hm) hs
      exact absurd ha' (hr _ _)
  | @accepts pos hm hs _ _ _ ha _ _ _ _ hf =>
    cases h₂ with
    | waits hm' =>
      rw [hm] at hm'
      cases hm'
    | @rejects _ hm' hs' hr =>
      rw [hm] at hm'
      cases hm'
      obtain ⟨hs'', ha'⟩ := accepts_any ha (hself pos hm) hs'
      exact absurd ha' (hr _ _)
    | accepts hm' ha' hf' =>
      rw [hm] at hm'
      cases hm'
      obtain ⟨hs'', ha''⟩ := accepts_any ha' (hself pos hm) hs
      obtain ⟨-, rfl⟩ := ha.unique ha''
      exact recvEnds_unique hf hf'

/-- Two runs in which the same bytes have come in for a session, with its own host and key in their
header, treat it the same, whatever the other sessions were sent and whenever they were accepted;
and whatever record they leave, the header of the session fits its blocks. -/
theorem sessions_independent {sid : Nat} {hs₁ hs₂ : Handshake} {es₁ es₂ : List ClientEvent}
    {s₁ s₂ : WsServer} (h₁ : (run es₁).run (init hs₁) = .ok () s₁)
    (h₂ : (run es₂).run (init hs₂) = .ok () s₂) (hacc₁ : s₁.accepted sid = true)
    (hacc₂ : s₂.accepted sid = true) (hbytes : s₁.received sid = s₂.received sid)
    (hself : ∀ pos, memstr (rn ++ rn) (s₁.received sid) = some pos →
      SelfContained ((s₁.received sid).take pos)) :
    (s₁.conn sid = s₂.conn sid ∧ s₁.calls sid = s₂.calls sid) ∧
      ∀ pos hs behind, memstr (rn ++ rn) (s₁.received sid) = some pos →
        Fits hs (s₁.received sid ++ behind) (pos + 1) := by
  have hends₁ := (run_ends h₁ (init_tracks sid hs₁)).ends hacc₁
  have hends₂ := (run_ends h₂ (init_tracks sid hs₂)).ends hacc₂
  rw [← hbytes] at hends₂
  refine ⟨sessionEnds_unique hself hends₁ hends₂, fun pos hs behind hm => ?_⟩
  obtain ⟨hpos, hsplit⟩ := header_split hm behind
  have hfits := (hself pos hm).fits hs ((s₁.received sid).drop (pos + 4) ++ behind)
  rwa [hpos, ← hsplit] at hfits

/-- A request with a host and a key. -/
def fullRequest : List UInt8 :=
  ascii "GET / HTTP/1.1\r\nHost: a\r\nSec-WebSocket-Key: k\r\n" ++
    ascii "Upgrade: websocket\r\nConnection: Upgrade\r\n\r\n"

/-- The same request without them. -/
def bareRequest : List UInt8 :=
  ascii "GET / HTTP/1.1\r\nUpgrade: websocket\r\nConnection: Upgrade\r\n\r\n"

/-- What one `recv` brings in. -/
def comes (sid : Nat) (bytes : List UInt8) : ClientEvent := .recv sid .idle 1 bytes [0]

def after (es : List ClientEvent) : WsServer := final ((run es).run (init nullHandshake))

theorem run_after {es : List ClientEvent}
    (h : returns ((run es).run (init nullHandshake)) = true) :
    (run es).run (init nullHandshake) = .ok () (after es) := eq_ok_of_returns h

/-- The lines of `fullRequest` behind its request line. -/
def fullLines : List (List UInt8) :=
  [ascii "Host: a", ascii "Sec-WebSocket-Key: k", ascii "Upgrade: websocket",
    ascii "Connection: Upgrade"]

theorem fullRequest_lines : requestLines (fullRequest.take 86) = some fullLines :=
  requestLines_header (by decide) (by decide +kernel : ReadableLine (ascii "GET / HTTP/1.1"))
    (by decide +kernel) (by decide +kernel)

theorem fullRequest_selfContained : SelfContained (fullRequest.take 86) := by
  have hlines : ∀ lines, Asks (fullRequest.take 86) lines → lines = fullLines := by
    intro lines hasks
    exact Option.some.inj (hasks.header.symm.trans fullRequest_lines)
  constructor
  · intro v hv
    have hpath : fullRequest.take 86 = ascii "GET " ++ (fullRequest.take 86).drop 4 := by
      decide +kernel
    rw [← List.append_cancel_left (hpath.symm.trans hv), copyFits_word ⟨47, by decide +kernel⟩]
    decide +kernel
  · intro lines hasks
    rw [hlines lines hasks]
    exact ⟨⟨ascii "Host: a", by decide +kernel⟩, ascii "Sec-WebSocket-Key: k", by decide +kernel⟩
  · intro lines key hasks hkey
    rw [hlines lines hasks] at hkey
    have hk : (readLines nullHandshake fullLines).hs.key = some (ascii "k") := by decide +kernel
    rw [hk] at hkey
    cases hkey
    decide +kernel

theorem sessions_independent_full :
    (after [.accept 0, comes 0 fullRequest]).calls 0 =
      (after [.accept 0, .accept 1, comes 1 bareRequest, comes 0 fullRequest]).calls 0 := by
  -- the runs are evaluated once for all that is asked of them
  obtain ⟨h₁, h₂, hs₁, hs₂, hsame, hbytes⟩ :
      returns ((run [.accept 0, comes 0 fullRequest]).run (init nullHandshake)) = true ∧
      returns ((run [.accept 0, .accept 1, comes 1 bareRequest, comes 0 fullRequest]).run
        (init nullHandshake)) = true ∧
      (after [.accept 0, comes 0 fullRequest]).accepted 0 = true ∧
      (after [.accept 0, .accept 1, comes 1 bareRequest, comes 0 fullRequest]).accepted 0 = true ∧
      (after [.accept 0, comes 0 fullRequest]).received 0 =
        (after [.accept 0, .accept 1, comes 1 bareRequest, comes 0 fullRequest]).received 0 ∧
      (after [.accept 0, comes 0 fullRequest]).received 0 = fullRequest := by
    decide +kernel
  have hself : ∀ pos, memstr (rn ++ rn)
      ((after [.accept 0, comes 0 fullRequest]).received 0) = some pos →
      SelfContained (((after [.accept 0, comes 0 fullRequest]).received 0).take pos) := by
    intro pos hpos
    have hval : memstr (rn ++ rn) fullRequest = some 86 := by decide +kernel
    rw [hbytes] at hpos ⊢
    rw [hval] at hpos
    cases hpos
    exact fullRequest_selfContained
  exact (sessions_independent (run_after h₁) (run_after h₂) hs₁ hs₂ hsame hself).1.2

/-- Without a host and a key of its own, a session is refused, or accepted with those of another
client. -/
theorem borrowed_key : ¬ ∀ (sid : Nat) (hs₁ hs₂ : Handshake) (es₁ es₂ : List ClientEvent)
    (s₁ s₂ : WsServer), (run es₁).run (init hs₁) = .ok () s₁ →
    (run es₂).run (init hs₂) = .ok () s₂ → s₁.accepted sid = true → s₂.accepted sid = true →
    s₁.received sid = s₂.received sid →
    s₁.conn sid = s₂.conn sid ∧ s₁.calls sid = s₂.calls sid := by
  intro h
  obtain ⟨h₁, h₂, hs₁, hs₂, hbytes, hdiffer⟩ :
      returns ((run [.accept 0, comes 0 bareRequest]).run (init nullHandshake)) = true ∧
      returns ((run [.accept 0, .accept 1, comes 1 fullRequest, comes 0 bareRequest]).run
        (init nullHandshake)) = true ∧
      (after [.accept 0, comes 0 bareRequest]).accepted 0 = true ∧
      (after [.accept 0, .accept 1, comes 1 fullRequest, comes 0 bareRequest]).accepted 0 = true ∧
      (after [.accept 0, comes 0 bareRequest]).received 0 =
        (after [.accept 0, .accept 1, comes 1 fullRequest, comes 0 bareRequest]).received 0 ∧
      (after [.accept 0, comes 0 bareRequest]).conn 0 ≠
        (after [.accept 0, .accept 1, comes 1 fullRequest, comes 0 bareRequest]).conn 0 := by
    decide +kernel
  have hsame := h 0 _ _ _ _ _ _ (run_after h₁) (run_after h₂) hs₁ hs₂ hbytes
  exact hdiffer hsame.1

end WsServer

end ChainSocket
