import ChainSocket.WebSocket.Closing
import ChainSocket.WebSocket.Header
import ChainSocket.WebSocket.RequestLine

/-!
# Streams that crash the parser

The streams on which a session, in whatever chunks, comes to an `abort`, a failed `assert`, the
result of a failed search or a write out of bounds, behind which it may come to any of them.

* `frameRun_aborted`: in the frames it is a length of 64 bits behind complete data frames;
* `onRecv_outcome`: one `onRecv` of a session that waits for its handshake;
* `survives_iff`: the streams that crash no run are those that `Survives` says.
-/

namespace ChainSocket

open CString Effect

/-- The header of a frame whose length is given in 64 bits. -/
structure LongHeader (s : List UInt8) : Prop where
  two : 2 ≤ s.length
  extensions : s.getD 0 0 &&& 0x70 = 0
  final : s.getD 0 0 &&& 0x80 = 0x80
  opcode : (frameHead s).opcode ∈ handledOpcodes
  whole : (frameHead s).headerSize ≤ s.length
  long : (frameHead s).n0 = 127

theorem frameStep_abort_iff {s : List UInt8} : frameStep s = .abort ↔ LongHeader s := by
  constructor
  · intro h
    have hi := iterates s
    rw [h] at hi
    cases hi with
    | abort h2 h70 h80 hop hhead h127 => exact ⟨h2, h70, h80, hop, hhead, h127⟩
    | handles c step hstep => cases hstep
  · intro h
    have htwo : ¬ s.length < 2 := Nat.not_lt.2 h.two
    have hwhole : ¬ s.length < (frameHead s).headerSize := Nat.not_lt.2 h.whole
    unfold frameStep
    simp only [htwo, hwhole, h.extensions, h.final, h.opcode, h.long, if_false, if_true, ne_eq,
      not_true_eq_false]

/-- Complete data frames, and then one with a length of 64 bits. -/
def LongFrameAhead (s : List UInt8) : Prop :=
  ∃ (fs : List Frame) (rest : List UInt8), (∀ f ∈ fs, f.opcode.isData = true) ∧
    LongHeader rest ∧ s = fs.flatMap Frame.bytes ++ rest

theorem frameRun_flatMap {fs : List Frame} (hfs : ∀ f ∈ fs, f.opcode.isData = true)
    (rest : List UInt8) :
    (frameRun (fs.flatMap Frame.bytes ++ rest)).ending = (frameRun rest).ending := by
  induction fs with
  | nil => rfl
  | cons f fs ih =>
    have hrest := ih fun g hg => hfs g (List.mem_cons_of_mem _ hg)
    simp only [List.flatMap_cons, List.append_assoc, frameRun_bytes (hfs f List.mem_cons_self),
      FrameRun.cons, hrest]

/-- The data frames at the head of some data, and what comes behind them. -/
theorem frames_split (s : List UInt8) : ∃ (fs : List Frame) (rest : List UInt8),
    (∀ f ∈ fs, f.opcode.isData = true) ∧ s = fs.flatMap Frame.bytes ++ rest ∧
      ∀ n payload, frameStep rest ≠ .data n payload := by
  induction hn : s.length using Nat.strong_induction_on generalizing s with
  | _ n ih =>
    subst hn
    by_cases hdata : ∃ n payload, frameStep s = .data n payload
    · obtain ⟨n, payload, hs⟩ := hdata
      obtain ⟨f, t, hd, rfl, -, -⟩ := frameStep_data hs
      have hlt : t.length < (f.bytes ++ t).length := by
        have := f.header_pos
        simp only [List.length_append, f.length_bytes]
        omega
      obtain ⟨fs, rest, hfs, rfl, hrest⟩ := ih t.length hlt t rfl
      refine ⟨f :: fs, rest, ?_, by simp, hrest⟩
      intro g hg
      rcases List.mem_cons.1 hg with rfl | hg
      · exact hd
      · exact hfs g hg
    · exact ⟨[], s, by simp, rfl, fun n payload hs => hdata ⟨n, payload, hs⟩⟩

theorem frameRun_aborted (s : List UInt8) :
    (frameRun s).ending = .aborted ↔ LongFrameAhead s := by
  constructor
  · intro h
    obtain ⟨fs, rest, hfs, rfl, hrest⟩ := frames_split s
    refine ⟨fs, rest, hfs, frameStep_abort_iff.1 ?_, rfl⟩
    rw [frameRun_flatMap hfs] at h
    cases hs : frameStep rest with
    | abort => rfl
    | leave => rw [frameRun_leave hs] at h; cases h
    | close type => rw [frameRun_close hs] at h; cases h
    | data n payload => exact absurd hs (hrest n payload)
    | control n payload =>
      obtain ⟨c, t, hc, rfl, -, -⟩ := frameStep_control hs
      rw [frameRun_control hc] at h
      cases h
  · rintro ⟨fs, rest, hfs, hlong, rfl⟩
    rw [frameRun_flatMap hfs, frameRun_abort (frameStep_abort_iff.2 hlong)]

namespace WebSocketPoller

/-! ## What crashes -/

/-- An `abort`, a failed `assert`, a search that goes on from a NULL result, or a write out of
bounds: what the process does behind it is not known. -/
def Crash (e : Fault) : Prop := e = .abort ∨ e = .null ∨ e = .outOfBounds

/-- The header `u` is read, and answered, without a crash: whatever lies behind it, its lines can be
read, its request line is copied within its block, and a key it is accepted with fits. -/
structure SafeHeader (hs : Handshake) (u : List UInt8) : Prop where
  lines : ¬ CrashesHeader hs u
  resource : ∀ v, u = ascii "GET " ++ v → CopyFits v
  responseKey : ∀ hs' key,
    (∀ y, wsParseHandshake (u ++ rn ++ y) (u.length + 1) hs = .ok (.opening, hs')) →
      hs'.key = some key → strlen key < 220

/-- A header whose request line starts the memory starts with `GET ` itself. -/
theorem get_of_memory {u x v : List UInt8} (h : u ++ rn ++ x = ascii "GET " ++ v) :
    ∃ v', u = ascii "GET " ++ v' := by
  have hcmp := memcmp_self (ascii "GET ") v
  rw [← h, List.append_assoc, show rn ++ x = 13 :: (10 :: x) from rfl,
    memcmp_stop (by decide)] at hcmp
  obtain ⟨v', hv'⟩ := List.isPrefixOf_iff_prefix.mp (Option.some.inj hcmp)
  exact ⟨v', hv'.symm⟩

/-- The memory that `onRecv` hands over with the header, from its blank line on. -/
theorem copyFits_memory {u : List UInt8} :
    (∀ v, u = ascii "GET " ++ v → CopyFits v) ↔ ∀ t, ResourceFits (u ++ rn ++ (rn ++ t)) := by
  have hmemory : ∀ v t, requestMemory v t = ascii "GET " ++ v ++ rn ++ (rn ++ t) := by
    intro v t
    simp only [requestMemory, List.append_assoc]
  constructor
  · rintro h t v' n token heq
    obtain ⟨v, rfl⟩ := get_of_memory heq
    have hfits := parseRequest_fits.1 (h v rfl t nullHandshake)
    rw [hmemory] at hfits
    exact hfits v' n token heq
  · rintro h v rfl behind hs
    rw [hmemory]
    exact parseRequest_fits.2 (h behind)

/-- The last two say that what is copied of the header fits, whatever lies behind it. -/
theorem safeHeader_iff {hs : Handshake} {u : List UInt8} : SafeHeader hs u ↔
    ¬ CrashesHeader hs u ∧ ∀ t, Fits hs (u ++ rn ++ (rn ++ t)) (u.length + 1) := by
  constructor
  · intro h
    refine ⟨h.lines, fun t => ⟨copyFits_memory.1 h.resource t, ?_⟩⟩
    intro hs' key hparse hkey
    exact h.responseKey hs' key (opening_any_tail hparse) hkey
  · rintro ⟨hlines, hfits⟩
    refine ⟨hlines, copyFits_memory.2 fun t => (hfits t).resource, ?_⟩
    intro hs' key hparse hkey
    exact (hfits []).responseKey hs' key (hparse _) hkey

/-- The frames `d` of the stream `w`, behind these calls, of a session that started in `phase`. -/
inductive FramesBehind (hs : Handshake) (w : List UInt8) :
    WsPhase → Handshake → List WsCall → List UInt8 → Prop
  | frame : FramesBehind hs w .frame hs [] w
  | client {pos : Nat} (blank : memstr (rn ++ rn) w = some pos)
      (http : memstr (ascii "HTTP") w ≠ none) :
      FramesBehind hs w .handshakeReq hs [.onHandShake] (w.drop (pos + 4))
  | server {pos : Nat} (blank : memstr (rn ++ rn) w = some pos) {hs' : Handshake}
      {reply : List UInt8} (accepts : Accepts hs (w.take pos) hs' reply) :
      FramesBehind hs w .handshakeWait hs' [.sendTo reply] (w.drop (pos + 4))

/-- No crash in the header, and none in the frames behind it. -/
structure Survives (hs : Handshake) (phase : WsPhase) (w : List UInt8) : Prop where
  header : phase = .handshakeWait → ∀ pos, memstr (rn ++ rn) w = some pos →
    SafeHeader hs (w.take pos)
  frames : ∀ hs' calls d, FramesBehind hs w phase hs' calls d → ¬ LongFrameAhead d

theorem take_append {w : List UInt8} {pos : Nat} (h : memstr (rn ++ rn) w = some pos)
    (c : List UInt8) : (w ++ c).take pos = w.take pos ∧
      (w ++ c).drop (pos + 4) = w.drop (pos + 4) ++ c := by
  have hle : pos + 4 ≤ w.length := memstr_le h
  exact ⟨List.take_append_of_le_length (by omega), List.drop_append_of_le_length hle⟩

theorem FramesBehind.append {hs hs' : Handshake} {phase : WsPhase} {w d : List UInt8}
    {calls : List WsCall} (h : FramesBehind hs w phase hs' calls d) (c : List UInt8) :
    FramesBehind hs (w ++ c) phase hs' calls (d ++ c) := by
  cases h with
  | frame => exact .frame
  | client blank http =>
    rw [← (take_append blank c).2]
    refine .client (memstr_append blank c) ?_
    obtain ⟨pos₂, hpos₂⟩ := Option.ne_none_iff_exists'.1 http
    rw [memstr_append hpos₂ c]
    exact Option.some_ne_none pos₂
  | server blank accepts =>
    obtain ⟨htake, hdrop⟩ := take_append blank c
    rw [← hdrop]
    exact .server (memstr_append blank c) (by rwa [htake])

theorem longFrame_append {d : List UInt8} (h : LongFrameAhead d) (c : List UInt8) :
    LongFrameAhead (d ++ c) := by
  rw [← frameRun_aborted] at h ⊢
  rw [frameRun_append, h]
  exact h

/-- What crashes on some of a stream crashes on all of it. -/
theorem Survives.of_append {hs : Handshake} {phase : WsPhase} {w c : List UInt8}
    (h : Survives hs phase (w ++ c)) : Survives hs phase w := by
  constructor
  · intro hphase pos hpos
    have hsafe := h.header hphase pos (memstr_append hpos c)
    rwa [(take_append hpos c).1] at hsafe
  · intro hs' calls d hd hlong
    exact h.frames hs' calls (d ++ c) (hd.append c) (longFrame_append hlong c)

/-! ## One `onRecv` of a session that waits -/

variable {hs : Handshake} {sid : Nat} {user : WsUser}

/-- How an `onRecv` on all the bytes `w` so far ends, where none of them had come to frames. -/
inductive Outcome (hs : Handshake) (sid : Nat) (phase : WsPhase) (w : List UInt8) :
    EStateM.Result Fault WsState Nat → Prop
  | waits (n : Nat) : Outcome hs sid phase w (.ok n ⟨hs, some ⟨sid, phase, w⟩, []⟩)
  | closed (n : Nat) (hs' : Handshake) (calls : List WsCall) :
      Outcome hs sid phase w (.ok n ⟨hs', none, calls⟩)
  | frames {hs' : Handshake} {calls : List WsCall} {d : List UInt8} {fuel : Nat}
      {r : EStateM.Result Fault WsState Nat} (behind : FramesBehind hs w phase hs' calls d)
      (ends : RecvEnds hs' sid .frame calls (frameRun d) fuel r) : Outcome hs sid phase w r
  | crashes {pos : Nat} (wait : phase = .handshakeWait) (blank : memstr (rn ++ rn) w = some pos)
      (header : ¬ SafeHeader hs (w.take pos)) (e : Fault) (s : WsState) :
      Outcome hs sid phase w (.error e s)
  | fails (e : Fault) (other : ¬ Crash e) (s : WsState) : Outcome hs sid phase w (.error e s)

theorem recvEnds_nil (hs : Handshake) (sid : Nat) (calls : List WsCall) (fuel : Nat) :
    RecvEnds hs sid .frame calls (frameRun []) fuel (.ok 0 ⟨hs, some ⟨sid, .frame, []⟩, calls⟩) := by
  have hleft : RecvEnds hs sid .frame calls ⟨[], .left []⟩ fuel _ := .left rfl
  rw [frameRun_nil]
  simpa using hleft

theorem outcome_frames {phase : WsPhase} {w behind d : List UInt8} {hs' : Handshake}
    {calls : List WsCall} {s : WsState} {fuel : Nat} (hd : FramesBehind hs w phase hs' calls d)
    (h : (handshake .idle behind).run s =
      .ok (decide (d ≠ [])) ⟨hs', some ⟨sid, .frame, d⟩, calls⟩) :
    Outcome hs sid phase w ((onRecv .idle behind fuel).run s) := by
  refine .frames hd (?_ : RecvEnds hs' sid .frame calls (frameRun d) fuel _)
  rw [onRecv_frames h]
  split_ifs with hnil
  · subst hnil
    exact recvEnds_nil hs' sid calls fuel
  · exact recvFrames_run hs' sid .frame d calls fuel

theorem outcome_stops {phase : WsPhase} {w behind : List UInt8} {hs' : Handshake}
    {calls : List WsCall} {s : WsState} {fuel : Nat}
    (h : (handshake .idle behind).run s = .ok false ⟨hs', none, calls⟩) :
    Outcome hs sid phase w ((onRecv .idle behind fuel).run s) := by
  unfold onRecv
  rw [run_bind_ok h]
  exact .closed 0 hs' calls

theorem server_outcome (w behind : List UInt8) (fuel : Nat) :
    Outcome hs sid .handshakeWait w
      ((onRecv .idle behind fuel).run ⟨hs, some ⟨sid, .handshakeWait, w⟩, []⟩) := by
  have hstep : ServerStep hs sid w behind []
      ((handshake .idle behind).run ⟨hs, some ⟨sid, .handshakeWait, w⟩, []⟩) :=
    serverHandshake_step hs sid w behind []
  generalize hrun : (handshake .idle behind).run _ = r at hstep
  cases hstep with
  | waits =>
    unfold onRecv
    rw [run_bind_ok hrun, if_pos rfl, run_bind_ok (conn_run ..)]
    exact .waits 0
  | @fails pos blank e parse =>
    unfold onRecv
    rw [run_bind_error hrun]
    obtain ⟨hpos, hsplit⟩ := header_split blank behind
    by_cases hcrash : Crash e
    · refine .crashes rfl blank (fun hsafe => ?_) e _
      obtain ⟨hlines, hfits⟩ := safeHeader_iff.1 hsafe
      rcases or_assoc.2 hcrash with he | rfl
      · apply hlines
        apply (wsParseHandshake_crashes_iff (x := rn ++ (w.drop (pos + 4) ++ behind))).1
        exact ⟨e, he, by rwa [hpos, ← hsplit]⟩
      · have hfit := hfits (w.drop (pos + 4) ++ behind)
        rw [hpos, ← hsplit, fits_error parse] at hfit
        exact hfit rfl
    · exact .fails e hcrash _
  | rejects => exact outcome_stops hrun
  | @unanswered pos blank _ parse _ hkey e answer =>
    unfold onRecv
    rw [run_bind_error hrun]
    obtain ⟨hpos, hsplit⟩ := header_split blank behind
    refine .crashes rfl blank (fun hsafe => ?_) e _
    have hfit := (safeHeader_iff.1 hsafe).2 (w.drop (pos + 4) ++ behind)
    rw [hpos, ← hsplit, fits_opening parse hkey] at hfit
    exact absurd hfit (Nat.not_lt.2 (handshakeReply_error.1 answer).2)
  | answers blank parse hkey answer =>
    rcases parse_accepts blank parse with ⟨htype, -⟩ | ⟨-, haccepts⟩
    · cases htype
    · exact outcome_frames (.server blank (haccepts _ _ hkey answer)) hrun

theorem client_outcome (w behind : List UInt8) (fuel : Nat) :
    Outcome hs sid .handshakeReq w
      ((onRecv .idle behind fuel).run ⟨hs, some ⟨sid, .handshakeReq, w⟩, []⟩) := by
  have hrun : (handshake .idle behind).run ⟨hs, some ⟨sid, .handshakeReq, w⟩, []⟩ = _ :=
    clientHandshake_run .idle w []
  have hwaits : (handshake .idle behind).run ⟨hs, some ⟨sid, .handshakeReq, w⟩, []⟩ =
      .ok false ⟨hs, some ⟨sid, .handshakeReq, w⟩, []⟩ → Outcome hs sid .handshakeReq w
        ((onRecv .idle behind fuel).run ⟨hs, some ⟨sid, .handshakeReq, w⟩, []⟩) := by
    intro h
    unfold onRecv
    rw [run_bind_ok h]
    exact .waits 0
  by_cases hshort : w.length < 13
  · rw [if_pos hshort] at hrun
    exact hwaits hrun
  · rw [if_neg hshort] at hrun
    cases hm : memstr (rn ++ rn) w with
    | none =>
      rw [hm] at hrun
      exact hwaits hrun
    | some pos =>
      rw [hm] at hrun
      dsimp only at hrun
      cases hm₂ : memstr (ascii "HTTP") w with
      | none =>
        rw [hm₂] at hrun
        exact outcome_stops hrun
      | some pos₂ =>
        rw [hm₂] at hrun
        exact outcome_frames (.client hm (by rw [hm₂]; exact Option.some_ne_none pos₂)) hrun

/-! ## Whole streams -/

/-- What the bytes `w`, in whatever chunks, have led to. -/
inductive Reached (hs : Handshake) (sid : Nat) (phase : WsPhase) (w : List UInt8) :
    WsState → Prop
  | waits (wait : phase ≠ .frame) : Reached hs sid phase w ⟨hs, some ⟨sid, phase, w⟩, []⟩
  | closed (hs' : Handshake) (calls : List WsCall) : Reached hs sid phase w ⟨hs', none, calls⟩
  | frames {hs' : Handshake} {calls : List WsCall} {d : List UInt8} {fuel n : Nat} {s : WsState}
      (behind : FramesBehind hs w phase hs' calls d)
      (ends : RecvEnds hs' sid .frame calls (frameRun d) fuel (.ok n s)) :
      Reached hs sid phase w s

theorem reached_nil (hs : Handshake) (sid : Nat) (phase : WsPhase) :
    Reached hs sid phase [] ⟨hs, some ⟨sid, phase, []⟩, []⟩ := by
  cases phase with
  | frame => exact .frames .frame (recvEnds_nil hs sid [] 0)
  | handshakeWait | handshakeReq => exact .waits WsPhase.noConfusion

/-- How one `recv` that makes the bytes `w` of what came before ends: a run that goes on has reached
what is due, and one that crashes has come upon what `Survives` rules out. -/
structure Received {α : Type} (hs : Handshake) (sid : Nat) (phase : WsPhase) (w : List UInt8)
    (r : EStateM.Result Fault WsState α) : Prop where
  ok : ∀ a s, r = .ok a s → Reached hs sid phase w s
  error : ∀ e s, r = .error e s → Crash e → ¬ Survives hs phase w

theorem received_closed {α : Type} {phase : WsPhase} {w : List UInt8} (a : α) (hs' : Handshake)
    (calls : List WsCall) : Received hs sid phase w (.ok a ⟨hs', none, calls⟩) := by
  constructor
  · intro a' s hs
    cases hs
    exact .closed hs' calls
  · intro e s hs
    cases hs

theorem received_frames {phase : WsPhase} {w d : List UInt8} {hs' : Handshake}
    {calls : List WsCall} {fuel : Nat} {r : EStateM.Result Fault WsState Nat}
    (hd : FramesBehind hs w phase hs' calls d)
    (hends : RecvEnds hs' sid .frame calls (frameRun d) fuel r) : Received hs sid phase w r := by
  constructor
  · rintro n s rfl
    exact .frames hd hends
  · rintro e s rfl hcrash hsurvives
    cases hends with
    | aborted hend => exact hsurvives.frames hs' calls d hd ((frameRun_aborted d).1 hend)
    | fuel => rcases hcrash with h | h | h <;> cases h

theorem received_outcome {phase : WsPhase} {w : List UInt8} {r : EStateM.Result Fault WsState Nat}
    (hphase : phase ≠ .frame) (h : Outcome hs sid phase w r) : Received hs sid phase w r := by
  cases h with
  | waits n =>
    constructor
    · intro a s hs
      cases hs
      exact .waits hphase
    · intro e s he
      cases he
  | closed n hs' calls => exact received_closed n hs' calls
  | frames behind ends => exact received_frames behind ends
  | crashes wait blank header e s =>
    constructor
    · intro a s hs
      cases hs
    · intro e' s' _ _ hsurvives
      exact header (hsurvives.header wait _ blank)
  | fails e other s =>
    constructor
    · intro a s hs
      cases hs
    · intro e' s' he hcrash
      cases he
      exact absurd hcrash other

/-- What `receive` makes of the result of `onRecv`. -/
theorem Received.receive {phase phase' : WsPhase} {w buf chunk behind : List UInt8}
    {hs' : Handshake} {calls : List WsCall} {fuel : Nat}
    (h : Received hs sid phase w ((onRecv .idle behind fuel).run
      ⟨hs', some ⟨sid, phase', buf ++ chunk⟩, calls⟩)) :
    Received hs sid phase w ((WebSocketPoller.receive .idle fuel chunk behind).run
      ⟨hs', some ⟨sid, phase', buf⟩, calls⟩) := by
  rw [receive_run]
  generalize (onRecv .idle behind fuel).run ⟨hs', some ⟨sid, phase', buf ++ chunk⟩, calls⟩ = r at h
  cases r with
  | ok n s =>
    constructor
    · intro a s' hs
      cases hs
      exact h.ok n s rfl
    · intro e s' he
      cases he
  | error e s =>
    constructor
    · intro a s' hs
      cases hs
    · intro e' s' he
      cases he
      exact h.error e s rfl

theorem receive_reached {phase : WsPhase} {w : List UInt8} {s : WsState}
    (h : Reached hs sid phase w s) (fuel : Nat) (chunk behind : List UInt8) :
    Received hs sid phase (w ++ chunk) ((receive .idle fuel chunk behind).run s) := by
  cases h with
  | waits wait =>
    apply Received.receive
    apply received_outcome wait
    cases phase with
    | frame => exact absurd rfl wait
    | handshakeWait => exact server_outcome ..
    | handshakeReq => exact client_outcome ..
  | closed hs' calls => exact received_closed ..
  | @frames hs' calls d _ _ _ hd ends =>
    cases ends with
    | @left rest hleft =>
      have hrun : frameRun d = ⟨(frameRun d).messages, .left rest⟩ := by rw [← hleft]
      have happend := frameRun_append d chunk
      rw [hrun] at happend
      apply Received.receive
      refine received_frames (hd.append chunk)
        (?_ : RecvEnds hs' sid .frame calls (frameRun (d ++ chunk)) fuel _)
      rw [happend, onRecv_frame]
      exact (recvFrames_run hs' sid .frame (rest ++ chunk) _ fuel).append
    | closed hclosed => exact received_closed ..

/-- With idle user code, a run on a stream that survives does not crash. -/
theorem receiveAll_survives {phase : WsPhase} {fuel : Nat}
    {chunks : List (List UInt8 × List UInt8)} : ∀ {w : List UInt8} {s : WsState},
    Reached hs sid phase w s → Survives hs phase (w ++ (chunks.map Prod.fst).flatten) →
    ∀ e s', (receiveAll .idle fuel chunks).run s = .error e s' → ¬ Crash e := by
  induction chunks with
  | nil =>
    intro w s _ _ e s' hrun
    cases hrun
  | cons c chunks ih =>
    intro w s hs hsurvives e s' hrun hcrash
    have hstep := receive_reached hs fuel c.1 c.2
    rw [List.map_cons, List.flatten_cons, ← List.append_assoc] at hsurvives
    cases hc : (receive .idle fuel c.1 c.2).run s with
    | error e₁ s₁ =>
      have herr : (receiveAll .idle fuel (c :: chunks)).run s = .error e₁ s₁ := run_bind_error hc
      rw [herr] at hrun
      cases hrun
      exact hstep.error _ _ hc hcrash hsurvives.of_append
    | ok u s₁ =>
      have hgo : (receiveAll .idle fuel (c :: chunks)).run s =
          (receiveAll .idle fuel chunks).run s₁ := run_bind_ok hc
      rw [hgo] at hrun
      exact ih (hstep.ok u s₁ hc) hsurvives e s' hrun hcrash

/-! ## Any user code -/

theorem AsIdle.bind {α β : Type} {m m' : WsM α} {k k' : α → WsM β} {s : WsState}
    (h : AsIdle (m.run s) (m'.run s))
    (hk : ∀ a s₁, m'.run s = .ok a s₁ → AsIdle ((k a).run s₁) ((k' a).run s₁)) :
    AsIdle ((m >>= k).run s) ((m' >>= k').run s) := by
  rcases h with h | ⟨s₁, h | h⟩
  · cases hm : m'.run s with
    | ok a s₁ =>
      rw [hm] at h
      rw [run_bind_ok h, run_bind_ok hm]
      exact hk a s₁ hm
    | error e s₁ =>
      rw [hm] at h
      rw [run_bind_error h, run_bind_error hm]
      exact .inl rfl
  · exact .inr ⟨s₁, .inl (run_bind_error h)⟩
  · exact .inr ⟨s₁, .inr (run_bind_error h)⟩

theorem AsIdle.same {α : Type} {r : EStateM.Result Fault WsState α} : AsIdle r r := .inl rfl

theorem recvFrames_asIdle (user : WsUser) (fuel : Nat) (s : WsState) :
    AsIdle ((recvFrames user fuel).run s) ((recvFrames .idle fuel).run s) := by
  have hloop : AsIdle ((frameLoop user fuel 0).run s) ((frameLoop .idle fuel 0).run s) := by
    obtain ⟨hs, conn, calls⟩ := s
    cases conn with
    | some c => exact frameLoop_asIdle fuel c.readBuffer 0 calls
    | none => cases fuel <;> exact .same
  exact hloop.bind fun _ _ _ => .same

theorem handshake_asIdle (user : WsUser) (behind : List UInt8) (s : WsState) :
    AsIdle ((handshake user behind).run s) ((handshake .idle behind).run s) := by
  obtain ⟨hs, conn, calls⟩ := s
  cases conn with
  | none => exact .same
  | some c =>
    obtain ⟨sid, phase, buf⟩ := c
    cases phase with
    | frame | handshakeWait => exact .same
    | handshakeReq =>
      have hrun : ∀ user, (handshake user behind).run
          ⟨hs, some ⟨sid, .handshakeReq, buf⟩, calls⟩ =
            (clientHandshake user).run ⟨hs, some ⟨sid, .handshakeReq, buf⟩, calls⟩ :=
        fun _ => rfl
      rw [hrun, hrun, clientHandshake_run, clientHandshake_run]
      split
      · exact .same
      · split
        · exact .same
        · split
          · exact .same
          · split
            · exact .inr ⟨_, .inl rfl⟩
            · exact .same

theorem onRecv_asIdle (user : WsUser) (behind : List UInt8) (fuel : Nat) (s : WsState) :
    AsIdle ((onRecv user behind fuel).run s) ((onRecv .idle behind fuel).run s) := by
  unfold onRecv
  apply (handshake_asIdle user behind s).bind
  intro more s₁ _
  split
  · apply AsIdle.same.bind
    intro c s₂ _
    split
    · exact recvFrames_asIdle user fuel s₂
    · exact .same
  · exact .same

theorem receive_asIdle (user : WsUser) (fuel : Nat) (chunk behind : List UInt8) (s : WsState) :
    AsIdle ((receive user fuel chunk behind).run s) ((receive .idle fuel chunk behind).run s) := by
  obtain ⟨hs, conn, calls⟩ := s
  cases conn with
  | none => exact .same
  | some c =>
    unfold receive
    apply AsIdle.same.bind
    intro s₁ s₂ _
    split
    · exact .same
    · apply AsIdle.same.bind
      intro _ s₃ _
      exact (onRecv_asIdle user behind fuel s₃).bind fun _ _ _ => .same

theorem receiveAll_asIdle (user : WsUser) (fuel : Nat) (chunks : List (List UInt8 × List UInt8))
    (s : WsState) :
    AsIdle ((receiveAll user fuel chunks).run s) ((receiveAll .idle fuel chunks).run s) := by
  induction chunks generalizing s with
  | nil => exact .same
  | cons c chunks ih => exact (receive_asIdle user fuel c.1 c.2 s).bind fun _ s₁ _ => ih s₁

/-! ## The streams that crash -/

theorem recvFrames_crash (hs' : Handshake) (sid : Nat) (phase : WsPhase) (calls : List WsCall)
    {d : List UInt8} (hlong : LongFrameAhead d) : ∃ fuel s',
      (recvFrames .idle fuel).run ⟨hs', some ⟨sid, phase, d⟩, calls⟩ = .error .abort s' := by
  have hend := (frameRun_aborted d).2 hlong
  have hends := recvFrames_run hs' sid phase d calls ((frameRun d).messages.length + 1)
  refine ⟨(frameRun d).messages.length + 1, ?_⟩
  generalize (recvFrames .idle _).run ⟨hs', some ⟨sid, phase, d⟩, calls⟩ = r at hends ⊢
  cases hends with
  | left h | closed h =>
    rw [hend] at h
    cases h
  | aborted _ s' => exact ⟨s', rfl⟩
  | fuel h =>
    rw [hend] at h
    rcases h with h | h
    · cases h
    · omega

theorem longFrame_length {d : List UInt8} (h : LongFrameAhead d) : 10 ≤ d.length := by
  obtain ⟨fs, rest, -, hlong, rfl⟩ := h
  have hwhole := hlong.whole
  have hn0 := hlong.long
  have hsize : 10 ≤ (frameHead rest).headerSize := by
    have hdef : (frameHead rest).headerSize = 2 + (if (frameHead rest).n0 = 126 then 2 else 0) +
        (if (frameHead rest).n0 = 127 then 8 else 0) +
        (if (frameHead rest).useMask then 4 else 0) := rfl
    rw [hdef, hn0, if_pos rfl]
    omega
  rw [List.length_append]
  omega

/-- A request that is answered, whatever lies behind it in memory. -/
theorem handshake_accepts {w : List UInt8} {pos : Nat} (blank : memstr (rn ++ rn) w = some pos)
    {hs' : Handshake} {reply : List UInt8} (accepts : Accepts hs (w.take pos) hs' reply)
    (behind : List UInt8) (calls : List WsCall) :
    (handshake user behind).run ⟨hs, some ⟨sid, .handshakeWait, w⟩, calls⟩ =
      .ok (decide (w.drop (pos + 4) ≠ []))
        ⟨hs', some ⟨sid, .frame, w.drop (pos + 4)⟩, calls ++ [.sendTo reply]⟩ := by
  obtain ⟨hparse, key, hkey, hreply⟩ := accepts
  obtain ⟨hpos, hsplit⟩ := header_split blank behind
  have hwhole : wsParseHandshake (w ++ behind) (pos + 1) hs = .ok (.opening, hs') := by
    rw [hsplit]
    simpa only [hpos] using hparse (rn ++ (w.drop (pos + 4) ++ behind))
  have hrun : (handshake user behind).run ⟨hs, some ⟨sid, .handshakeWait, w⟩, calls⟩ = _ :=
    serverHandshake_run hs sid w behind calls
  rw [blank] at hrun
  dsimp only at hrun
  rw [hwhole] at hrun
  dsimp only at hrun
  rw [if_neg (by decide), hkey] at hrun
  dsimp only at hrun
  rw [hreply] at hrun
  exact hrun

/-- A reply that is taken for an acceptance. -/
theorem handshake_http {w : List UInt8} (size : 13 ≤ w.length) {pos : Nat}
    (blank : memstr (rn ++ rn) w = some pos) (http : memstr (ascii "HTTP") w ≠ none)
    (behind : List UInt8) (calls : List WsCall) :
    (handshake .idle behind).run ⟨hs, some ⟨sid, .handshakeReq, w⟩, calls⟩ =
      .ok (decide (w.drop (pos + 4) ≠ []))
        ⟨hs, some ⟨sid, .frame, w.drop (pos + 4)⟩, calls ++ [.onHandShake]⟩ := by
  obtain ⟨pos₂, hpos₂⟩ := Option.ne_none_iff_exists'.1 http
  have hrun : (handshake .idle behind).run ⟨hs, some ⟨sid, .handshakeReq, w⟩, calls⟩ = _ :=
    clientHandshake_run .idle w calls
  rw [if_neg (Nat.not_lt.2 size), blank, hpos₂] at hrun
  exact hrun

/-- Frames that hold one with a length of 64 bits crash the run that comes to them. -/
theorem frames_crash (sid : Nat) {phase : WsPhase} {w d : List UInt8} {hs' : Handshake}
    {calls : List WsCall} (hd : FramesBehind hs w phase hs' calls d) (hlong : LongFrameAhead d) :
    ∃ fuel s', (onRecv .idle [] fuel).run ⟨hs, some ⟨sid, phase, w⟩, []⟩ = .error .abort s' := by
  have hten := longFrame_length hlong
  have hne : d ≠ [] := by
    rintro rfl
    exact absurd hten (by decide)
  obtain ⟨fuel, s', hcrash⟩ := recvFrames_crash hs' sid .frame calls hlong
  -- where the handshake comes to the frames, so does `onRecv`
  have hframes : (handshake .idle []).run ⟨hs, some ⟨sid, phase, w⟩, []⟩ =
      .ok (decide (d ≠ [])) ⟨hs', some ⟨sid, .frame, d⟩, calls⟩ → ∃ fuel s',
        (onRecv .idle [] fuel).run ⟨hs, some ⟨sid, phase, w⟩, []⟩ = .error .abort s' := by
    intro h
    refine ⟨fuel, s', ?_⟩
    rw [onRecv_frames h, if_neg hne, hcrash]
  cases hd with
  | frame => exact ⟨fuel, s', hcrash⟩
  | @client pos blank http =>
    have hlen : 13 ≤ w.length := by
      have hle : pos + 4 ≤ w.length := memstr_le blank
      rw [List.length_drop] at hten
      omega
    exact hframes (handshake_http hlen blank http [] [])
  | @server pos blank _ reply accepts => exact hframes (handshake_accepts blank accepts [] [])

/-- A header that is not safe crashes the run to which it comes on its own, with some memory behind
it. -/
theorem header_crash (sid : Nat) {w : List UInt8} {pos : Nat} (hm : memstr (rn ++ rn) w = some pos)
    (hsafe : ¬ SafeHeader hs (w.take pos)) : ∃ behind e s', Crash e ∧
      (onRecv .idle behind 0).run ⟨hs, some ⟨sid, .handshakeWait, w.take (pos + 4)⟩, []⟩ =
        .error e s' := by
  have hm₀ : memstr (rn ++ rn) (w.take (pos + 4)) = some pos := memstr_take (by decide) hm
  have htake : (w.take (pos + 4)).take pos = w.take pos := by
    rw [List.take_take, Nat.min_eq_left (Nat.le_add_right pos 4)]
  have hpos := (header_split hm []).1
  have hsplit : ∀ t, w.take (pos + 4) ++ t = w.take pos ++ rn ++ (rn ++ t) := by
    intro t
    rw [(header_split hm₀ t).2, htake, List.drop_take_self, List.nil_append]
  by_cases hlines : CrashesHeader hs (w.take pos)
  · obtain ⟨e, he, hparse⟩ := (wsParseHandshake_crashes_iff (x := rn ++ [])).2 hlines
    rw [← hsplit, hpos] at hparse
    have hrun : (handshake .idle []).run
        ⟨hs, some ⟨sid, .handshakeWait, w.take (pos + 4)⟩, []⟩ = _ :=
      serverHandshake_run hs sid (w.take (pos + 4)) [] []
    simp only [hm₀, hparse] at hrun
    exact ⟨[], e, _, or_assoc.1 (.inl he), run_bind_error hrun⟩
  · obtain ⟨t, hfit⟩ : ∃ t, ¬ Fits hs (w.take pos ++ rn ++ (rn ++ t)) ((w.take pos).length + 1) := by
      by_contra hall
      push Not at hall
      exact hsafe (safeHeader_iff.2 ⟨hlines, hall⟩)
    rw [← hsplit, hpos] at hfit
    obtain ⟨s', hrun⟩ : ∃ s', (handshake .idle t).run
        ⟨hs, some ⟨sid, .handshakeWait, w.take (pos + 4)⟩, []⟩ = .error .outOfBounds s' := by
      by_contra hnever
      push Not at hnever
      exact hfit (server_fits_iff.1 hnever pos hm₀)
    exact ⟨t, .outOfBounds, s', .inr (.inr rfl), run_bind_error hrun⟩

/-- A first chunk on which `onRecv` fails. -/
theorem receiveAll_first {phase : WsPhase} {w behind : List UInt8} {fuel : Nat} {e : Fault}
    {s' : WsState} (chunks : List (List UInt8 × List UInt8))
    (h : (onRecv user behind fuel).run ⟨hs, some ⟨sid, phase, w⟩, []⟩ = .error e s') :
    (receiveAll user fuel ((w, behind) :: chunks)).run ⟨hs, some ⟨sid, phase, []⟩, []⟩ =
      .error e s' := by
  apply run_bind_error
  rw [receive_run, List.nil_append, h]

/-- The streams on which no run crashes: whatever the chunks, the memory behind them, the user code
and the number of iterations. -/
theorem survives_iff (hs : Handshake) (sid : Nat) (phase : WsPhase) (w : List UInt8) :
    (∀ user fuel chunks e s', (chunks.map Prod.fst).flatten = w →
      (receiveAll user fuel chunks).run ⟨hs, some ⟨sid, phase, []⟩, []⟩ = .error e s' →
        ¬ Crash e) ↔ Survives hs phase w := by
  constructor
  · intro h
    constructor
    · rintro rfl pos hm
      by_contra hsafe
      obtain ⟨behind, e, s', he, hrun⟩ := header_crash sid hm hsafe
      have hfirst := receiveAll_first [(w.drop (pos + 4), [])] hrun
      exact h .idle 0 _ e s' (by simp) hfirst he
    · intro hs' calls d hd hlong
      obtain ⟨fuel, s', hrun⟩ := frames_crash sid hd hlong
      exact h .idle fuel [(w, [])] .abort s' (by simp) (receiveAll_first [] hrun) (.inl rfl)
  · rintro hsurvives user fuel chunks e s' rfl hrun hcrash
    rcases receiveAll_asIdle user fuel chunks ⟨hs, some ⟨sid, phase, []⟩, []⟩ with h | ⟨s₁, h | h⟩
    · rw [h] at hrun
      exact receiveAll_survives (reached_nil hs sid phase) hsurvives e s' hrun hcrash
    · rw [h] at hrun
      cases hrun
      rcases hcrash with he | he | he <;> cases he
    · rw [h] at hrun
      cases hrun
      rcases hcrash with he | he | he <;> cases he

/-- A text frame whose length is given in 64 bits. -/
def longFrame : List UInt8 := [0x81, 0x7f, 0, 0, 0, 0, 0, 0, 0, 0]

theorem long_frame_crashes : ¬ ∀ (hs : Handshake) (sid : Nat) (phase : WsPhase) (user : WsUser)
    (fuel : Nat) (chunks : List (List UInt8 × List UInt8)) (e : Fault) (s' : WsState),
    (receiveAll user fuel chunks).run ⟨hs, some ⟨sid, phase, []⟩, []⟩ = .error e s' →
      ¬ Crash e := by
  intro h
  exact h nullHandshake 0 .frame .idle 1 [(longFrame, [])] .abort _
    (eq_error_of_fault (by decide +kernel)) (.inl rfl)

end WebSocketPoller

end ChainSocket
