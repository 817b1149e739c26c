import ChainSocket.WebSocket.Chunking
import ChainSocket.WebSocket.Header

/-!
# User code that closes the session

What `onRecv` does when `onReadMsg` or `onHandShake` closes the session it is called for.

* `frameLoop_asIdle`: up to that call the frame loop runs as with user code that closes nothing,
  and then it reads the session that has been freed;
* `onRecv_freed_iff`: so `onRecv` keeps off a freed session, and within its blocks, exactly where
  none of its callbacks closes the session and what it copies of a request fits.
-/

namespace ChainSocket.WebSocketPoller

open CString Effect

variable {hs : Handshake} {sid : Nat} {phase : WsPhase} {user : WsUser}

/-- The session is not closed behind any of the messages in the complete data frames at the head
of the data. -/
def KeepsOpen (user : WsUser) (calls : List WsCall) (data : List UInt8) : Prop :=
  ∀ (fs : List Frame) (rest : List UInt8), fs ≠ [] → (∀ f ∈ fs, f.opcode.isData = true) →
    data = fs.flatMap Frame.bytes ++ rest →
      user (calls ++ fs.map fun f => .onReadMsg f.payload) = false

theorem frame_step_isData {f : Frame} (hd : f.opcode.isData = true) (t : List UInt8) :
    frameStep (f.bytes ++ t) = .data f.header.length f.written := by
  rw [frameStep_bytes, Frame.step, if_pos hd]

/-- Where the data does not start with a data frame there is no message. -/
theorem keepsOpen_of_step {calls : List WsCall} {data : List UInt8}
    (h : ∀ n payload, frameStep data ≠ .data n payload) : KeepsOpen user calls data := by
  intro fs rest hne hdata heq
  cases fs with
  | nil => exact absurd rfl hne
  | cons f fs =>
    rw [List.flatMap_cons, List.append_assoc] at heq
    subst heq
    exact absurd (frame_step_isData (hdata f List.mem_cons_self) _) (h _ _)

theorem KeepsOpen.tail {calls : List WsCall} {f : Frame} {t : List UInt8}
    (h : KeepsOpen user calls (f.bytes ++ t)) (hd : f.opcode.isData = true) :
    user (calls ++ [.onReadMsg f.payload]) = false ∧
      KeepsOpen user (calls ++ [.onReadMsg f.payload]) t := by
  constructor
  · refine h [f] t (by simp) ?_ (by simp)
    intro g hg
    rw [List.mem_singleton.1 hg]
    exact hd
  · intro fs rest _ hdata heq
    have hcons := h (f :: fs) rest (by simp) ?_ (by simp [heq])
    · simpa using hcons
    · intro g hg
      rcases List.mem_cons.1 hg with rfl | hg
      · exact hd
      · exact hdata g hg

/-! ## The frame loop -/

theorem callback_run (user : WsUser) (c : WsCall) (conn : Option WsSession)
    (calls : List WsCall) : (callback user c).run ⟨hs, conn, calls⟩ =
      .ok () ⟨hs, if user (calls ++ [c]) then none else conn, calls ++ [c]⟩ := by
  unfold callback
  rw [run_bind_ok (x := call c) rfl, run_bind_ok (run_get _)]
  cases user (calls ++ [c]) <;> rfl

theorem frameIteration_user (buf : List UInt8) (parseSize : Nat) (calls : List WsCall) :
    (frameIteration user parseSize).run ⟨hs, some ⟨sid, phase, buf⟩, calls⟩ =
      match frameStep (buf.drop parseSize) with
      | .leave => .ok .leave ⟨hs, some ⟨sid, phase, buf⟩, calls⟩
      | .close type => .ok .returned ⟨hs, none, calls ++ [.closeSession sid type]⟩
      | .abort => .error .abort ⟨hs, some ⟨sid, phase, buf⟩, calls⟩
      | .data n payload =>
        if user (calls ++ [.onReadMsg payload]) then
          .ok (.next (parseSize + (n + payload.length)))
            ⟨hs, none, calls ++ [.onReadMsg payload]⟩
        else
          .ok (.next (parseSize + (n + payload.length)))
            ⟨hs, some ⟨sid, phase, buf.take (parseSize + n) ++ payload ++
              buf.drop (parseSize + n + payload.length)⟩, calls ++ [.onReadMsg payload]⟩
      | .control n payload => .ok (.next parseSize)
          ⟨hs, some ⟨sid, phase, buf.take (parseSize + n) ++ payload ++
            buf.drop (parseSize + n + payload.length)⟩, calls⟩ := by
  unfold frameIteration
  rw [run_bind_ok (conn_run ..)]
  dsimp only
  cases frameStep (buf.drop parseSize) with
  | data n payload =>
    dsimp only
    have hwrite : (writeBack (parseSize + n) payload).run ⟨hs, some ⟨sid, phase, buf⟩, calls⟩ =
        .ok () ⟨hs, some ⟨sid, phase, buf.take (parseSize + n) ++ payload ++
          buf.drop (parseSize + n + payload.length)⟩, calls⟩ := rfl
    rw [run_bind_ok hwrite]
    rw [run_bind_ok (callback_run ..)]
    cases user (calls ++ [.onReadMsg payload]) <;> rfl
  | leave | close type | abort | control n payload => rfl

theorem frameLoop_closed (fuel parseSize : Nat) (calls : List WsCall) :
    (frameLoop user (fuel + 1) parseSize).run ⟨hs, none, calls⟩ =
      .error .freed ⟨hs, none, calls⟩ := rfl

/-- As with idle user code, unless the session is closed: then it is used after that, or there is
no fuel left. -/
def AsIdle {α : Type} (r idle : EStateM.Result Fault WsState α) : Prop :=
  r = idle ∨ ∃ s, r = .error .freed s ∨ r = .error .fuel s

theorem frameLoop_asIdle (fuel : Nat) : ∀ (buf : List UInt8) (parseSize : Nat)
    (calls : List WsCall),
    AsIdle ((frameLoop user fuel parseSize).run ⟨hs, some ⟨sid, phase, buf⟩, calls⟩)
      ((frameLoop .idle fuel parseSize).run ⟨hs, some ⟨sid, phase, buf⟩, calls⟩) := by
  induction fuel with
  | zero =>
    intro buf parseSize calls
    exact .inl rfl
  | succ fuel ih =>
    intro buf parseSize calls
    rw [frameLoop_succ, frameLoop_succ, frameIteration_user, frameIteration_run]
    cases frameStep (buf.drop parseSize) with
    | leave | close type | abort => exact .inl rfl
    | control n payload => exact ih _ _ _
    | data n payload =>
      dsimp only
      split_ifs
      · cases fuel with
        | zero => exact .inr ⟨_, .inr rfl⟩
        | succ fuel => exact .inr ⟨_, .inl (frameLoop_closed ..)⟩
      · exact ih _ _ _

theorem frameLoop_keepsOpen (fuel : Nat) : ∀ (buf : List UInt8) (parseSize : Nat)
    (calls : List WsCall), parseSize ≤ buf.length → KeepsOpen user calls (buf.drop parseSize) →
    (frameLoop user fuel parseSize).run ⟨hs, some ⟨sid, phase, buf⟩, calls⟩ =
      (frameLoop .idle fuel parseSize).run ⟨hs, some ⟨sid, phase, buf⟩, calls⟩ := by
  induction fuel with
  | zero =>
    intro buf parseSize calls _ _
    rfl
  | succ fuel ih =>
    intro buf parseSize calls hp hkeeps
    rw [frameLoop_succ, frameLoop_succ, frameIteration_user, frameIteration_run]
    cases hstep : frameStep (buf.drop parseSize) with
    | leave | close type | abort => rfl
    | control n payload =>
      obtain ⟨f, t, hd, hb, rfl, rfl⟩ := frameStep_control hstep
      obtain ⟨g, hg, hnext, hle⟩ := drop_control hd hb hp
      apply ih _ _ _ hle
      rw [hnext]
      apply keepsOpen_of_step
      intro n payload
      rw [frameStep_bytes, Frame.step, hg, if_neg (by decide)]
      exact FrameStep.noConfusion
    | data n payload =>
      obtain ⟨f, t, hd, hb, rfl, rfl⟩ := frameStep_data hstep
      obtain ⟨hrest, hle⟩ := drop_message hb hp
      rw [hb] at hkeeps
      obtain ⟨huser, htail⟩ := hkeeps.tail hd
      dsimp only
      rw [huser, if_neg (by decide)]
      exact ih _ _ _ hle (by rwa [hrest])

/-- Once the session has been closed behind a message, the next iteration uses it. -/
theorem frameLoop_freed {fs : List Frame} {rest : List UInt8} (hne : fs ≠ [])
    (hdata : ∀ f ∈ fs, f.opcode.isData = true) : ∀ {buf : List UInt8} {parseSize : Nat}
    {calls : List WsCall}, parseSize ≤ buf.length →
    buf.drop parseSize = fs.flatMap Frame.bytes ++ rest →
    user (calls ++ fs.map fun f => .onReadMsg f.payload) = true →
    ∃ fuel s', (frameLoop user fuel parseSize).run ⟨hs, some ⟨sid, phase, buf⟩, calls⟩ =
      .error .freed s' := by
  induction fs with
  | nil => exact absurd rfl hne
  | cons f fs ih =>
    intro buf parseSize calls hp hb huser
    have hd := hdata f List.mem_cons_self
    rw [List.flatMap_cons, List.append_assoc] at hb
    have hstep : frameStep (buf.drop parseSize) = .data f.header.length f.written := by
      rw [hb, frame_step_isData hd]
    obtain ⟨hrest, hle⟩ := drop_message hb hp
    have hwritten : f.written = f.payload := by
      unfold Frame.written
      revert hd
      cases f.opcode <;> simp [Opcode.isData]
    rw [hwritten] at hstep
    cases hfirst : user (calls ++ [.onReadMsg f.payload]) with
    | true =>
      refine ⟨2, ⟨hs, none, calls ++ [.onReadMsg f.payload]⟩, ?_⟩
      rw [frameLoop_succ, frameIteration_user, hstep]
      dsimp only
      rw [hfirst, if_pos rfl]
      exact frameLoop_closed ..
    | false =>
      have hne' : fs ≠ [] := by
        rintro rfl
        rw [List.map_cons, List.map_nil, hfirst] at huser
        cases huser
      have huser' : user (calls ++ [.onReadMsg f.payload] ++
          fs.map fun f => .onReadMsg f.payload) = true := by
        rw [List.append_assoc]
        exact huser
      obtain ⟨fuel, s', hrun⟩ := ih hne' (fun g hg => hdata g (List.mem_cons_of_mem _ hg)) hle
        hrest huser'
      refine ⟨fuel + 1, s', ?_⟩
      rw [frameLoop_succ, frameIteration_user, hstep]
      dsimp only
      rw [hfirst, if_neg (by decide)]
      exact hrun

/-! ## One `onRecv` -/

/-- A use of the session after it has been freed, or a write out of bounds, behind which anything
may be used. -/
def Corrupts (e : Fault) : Prop := e = .freed ∨ e = .outOfBounds

/-- No run, with any fuel, does so. -/
def NeverCorrupts (m : Nat → WsM Nat) (s : WsState) : Prop :=
  ∀ fuel e s', (m fuel).run s = .error e s' → ¬ Corrupts e

/-- As with idle user code. -/
theorem recvFrames_keepsOpen {buf : List UInt8} {calls : List WsCall}
    (hkeeps : KeepsOpen user calls buf) (fuel : Nat) :
    (recvFrames user fuel).run ⟨hs, some ⟨sid, phase, buf⟩, calls⟩ =
      (recvFrames .idle fuel).run ⟨hs, some ⟨sid, phase, buf⟩, calls⟩ := by
  have hsame : (frameLoop user fuel 0).run ⟨hs, some ⟨sid, phase, buf⟩, calls⟩ =
      (frameLoop .idle fuel 0).run ⟨hs, some ⟨sid, phase, buf⟩, calls⟩ :=
    frameLoop_keepsOpen fuel buf 0 calls (Nat.zero_le _) hkeeps
  change EStateM.bind _ _ _ = EStateM.bind _ _ _
  unfold EStateM.run at hsame
  simp only [EStateM.bind, hsame]

theorem recvFrames_freed_iff {buf : List UInt8} {calls : List WsCall} :
    NeverCorrupts (recvFrames user) ⟨hs, some ⟨sid, phase, buf⟩, calls⟩ ↔
      KeepsOpen user calls buf := by
  constructor
  · intro h fs rest hne hdata heq
    by_contra huser
    rw [Bool.not_eq_false] at huser
    obtain ⟨fuel, s', hrun⟩ : ∃ fuel s', (frameLoop user fuel 0).run
        ⟨hs, some ⟨sid, phase, buf⟩, calls⟩ = .error .freed s' :=
      frameLoop_freed hne hdata (Nat.zero_le _) heq huser
    exact h fuel .freed s' (run_bind_error hrun) (.inl rfl)
  · intro hkeeps fuel e s' hrun
    rw [recvFrames_keepsOpen hkeeps] at hrun
    have hends := recvFrames_run hs sid phase buf calls fuel
    rw [hrun] at hends
    cases hends with
    | aborted | fuel => simp [Corrupts]

theorem keepsOpen_nil {calls : List WsCall} : KeepsOpen user calls [] :=
  keepsOpen_of_step fun _ _ h => by cases h

/-- What `onRecv` does behind a handshake that has come to the frames. -/
theorem onRecv_frames {behind data : List UInt8} {calls : List WsCall} {s : WsState}
    (h : (handshake user behind).run s =
      .ok (decide (data ≠ [])) ⟨hs, some ⟨sid, .frame, data⟩, calls⟩) (fuel : Nat) :
    (onRecv user behind fuel).run s =
      if data = [] then .ok 0 ⟨hs, some ⟨sid, .frame, []⟩, calls⟩
      else (recvFrames user fuel).run ⟨hs, some ⟨sid, .frame, data⟩, calls⟩ := by
  unfold onRecv
  rw [run_bind_ok h]
  split_ifs with hmore hnil hnil
  · simp [hnil] at hmore
  · rw [run_bind_ok (conn_run ..), if_pos rfl]
  · subst hnil
    rfl
  · simp [hnil] at hmore

theorem onRecv_frames_freed_iff {behind data : List UInt8} {calls : List WsCall} {s : WsState}
    (h : (handshake user behind).run s =
      .ok (decide (data ≠ [])) ⟨hs, some ⟨sid, .frame, data⟩, calls⟩) :
    NeverCorrupts (onRecv user behind) s ↔ KeepsOpen user calls data := by
  by_cases hnil : data = []
  · subst hnil
    refine ⟨fun _ => keepsOpen_nil, fun _ fuel e s' hrun => ?_⟩
    rw [onRecv_frames h, if_pos rfl] at hrun
    cases hrun
  · have hframes : NeverCorrupts (recvFrames user) ⟨hs, some ⟨sid, .frame, data⟩, calls⟩ ↔
        KeepsOpen user calls data := recvFrames_freed_iff
    rw [← hframes]
    constructor
    · intro hnever fuel e s' hrun
      apply hnever fuel e s'
      rw [onRecv_frames h, if_neg hnil, hrun]
    · intro hnever fuel e s' hrun
      rw [onRecv_frames h, if_neg hnil] at hrun
      exact hnever fuel e s' hrun

/-- A handshake that goes no further. -/
theorem onRecv_stops {behind : List UInt8} {s s₁ : WsState}
    (h : (handshake user behind).run s = .ok false s₁) : NeverCorrupts (onRecv user behind) s := by
  intro fuel e s' hrun
  unfold onRecv at hrun
  rw [run_bind_ok h] at hrun
  cases hrun

/-- A handshake that fails. -/
theorem onRecv_fails {behind : List UInt8} {s s₁ : WsState} {e : Fault}
    (h : (handshake user behind).run s = .error e s₁) :
    NeverCorrupts (onRecv user behind) s ↔ ¬ Corrupts e := by
  have hrun : ∀ fuel, (onRecv user behind fuel).run s = .error e s₁ := fun _ => run_bind_error h
  constructor
  · intro hnever
    exact hnever 0 e s₁ (hrun 0)
  · intro he fuel e' s' hfails
    rw [hrun] at hfails
    cases hfails
    exact he

/-! ### The handshakes -/

theorem clientHandshake_run (user : WsUser) (buf : List UInt8) (calls : List WsCall) :
    (clientHandshake user).run ⟨hs, some ⟨sid, .handshakeReq, buf⟩, calls⟩ =
      if buf.length < 13 then .ok false ⟨hs, some ⟨sid, .handshakeReq, buf⟩, calls⟩
      else
        match memstr (rn ++ rn) buf with
        | none => .ok false ⟨hs, some ⟨sid, .handshakeReq, buf⟩, calls⟩
        | some pos =>
          match memstr (ascii "HTTP") buf with
          | none => .ok false ⟨hs, none, calls ++ [.closeSession sid .websocketReadHeadError]⟩
          | some _ =>
            if user (calls ++ [.onHandShake]) then
              .error .freed ⟨hs, none, calls ++ [.onHandShake]⟩
            else .ok (decide (buf.drop (pos + 4) ≠ []))
              ⟨hs, some ⟨sid, .frame, buf.drop (pos + 4)⟩, calls ++ [.onHandShake]⟩ := by
  unfold clientHandshake
  rw [run_bind_ok (conn_run ..)]
  by_cases hshort : buf.length < 13
  · rw [if_pos hshort, if_pos hshort]
    rfl
  · rw [if_neg hshort, if_neg hshort]
    cases memstr (rn ++ rn) buf with
    | none => rfl
    | some pos =>
      dsimp only
      cases memstr (ascii "HTTP") buf with
      | none => rfl
      | some pos₂ =>
        dsimp only
        have hset : (setConn ⟨sid, .frame, buf⟩).run ⟨hs, some ⟨sid, .handshakeReq, buf⟩, calls⟩ =
            .ok () ⟨hs, some ⟨sid, .frame, buf⟩, calls⟩ := rfl
        have herase : (erase (pos + 4)).run ⟨hs, some ⟨sid, .frame, buf⟩, calls⟩ =
            .ok () ⟨hs, some ⟨sid, .frame, buf.drop (pos + 4)⟩, calls⟩ := rfl
        rw [run_bind_ok hset, run_bind_ok herase, run_bind_ok (callback_run ..)]
        cases user (calls ++ [.onHandShake]) <;> rfl

/-- No callback that `onRecv` makes on this session closes it, and what it copies of a request
fits. -/
def KeepsSession (user : WsUser) (behind : List UInt8) (hs : Handshake) (c : WsSession)
    (calls : List WsCall) : Prop :=
  match c.userData with
  | .frame => KeepsOpen user calls c.readBuffer
  | .handshakeReq => ∀ pos, 13 ≤ c.readBuffer.length →
      memstr (rn ++ rn) c.readBuffer = some pos → memstr (ascii "HTTP") c.readBuffer ≠ none →
      user (calls ++ [.onHandShake]) = false ∧
        KeepsOpen user (calls ++ [.onHandShake]) (c.readBuffer.drop (pos + 4))
  | .handshakeWait => ∀ pos, memstr (rn ++ rn) c.readBuffer = some pos →
      Fits hs (c.readBuffer ++ behind) (pos + 1) ∧
        ∀ hs' key reply,
          wsParseHandshake (c.readBuffer ++ behind) (pos + 1) hs = .ok (.opening, hs') →
          hs'.key = some key → handshakeReply key = .ok reply →
          KeepsOpen user (calls ++ [.sendTo reply]) (c.readBuffer.drop (pos + 4))

/-- The branch of `WS_WAIT_HANDSHAKE_WAIT` writes within its blocks exactly where its request
fits. -/
theorem server_fits_iff {behind buf : List UInt8} {calls : List WsCall} :
    Avoids .outOfBounds ⟨hs, some ⟨sid, .handshakeWait, buf⟩, calls⟩ (handshake user behind) ↔
      ∀ pos, memstr (rn ++ rn) buf = some pos → Fits hs (buf ++ behind) (pos + 1) := by
  have hstep : ServerStep hs sid buf behind calls
      ((handshake user behind).run ⟨hs, some ⟨sid, .handshakeWait, buf⟩, calls⟩) :=
    serverHandshake_step hs sid buf behind calls
  unfold Avoids
  generalize (handshake user behind).run _ = r at hstep ⊢
  have hsome : ∀ {pos : Nat}, memstr (rn ++ rn) buf = some pos →
      ((∀ pos', memstr (rn ++ rn) buf = some pos' → Fits hs (buf ++ behind) (pos' + 1)) ↔
        Fits hs (buf ++ behind) (pos + 1)) := by
    intro pos blank
    simp [blank]
  cases hstep with
  | waits blank => simp [blank]
  | @fails pos blank e parse =>
    rw [hsome blank, fits_error parse]
    simp
  | rejects blank parse =>
    rw [hsome blank]
    simp [fits_rejected parse]
  | @unanswered pos blank hs' parse key hkey e answer =>
    obtain ⟨rfl, hlong⟩ := handshakeReply_error.1 answer
    rw [hsome blank, fits_opening parse hkey]
    simp [hlong]
  | @answers pos blank hs' parse key reply hkey answer =>
    have hshort : ¬ 220 ≤ strlen key := by
      intro hlong
      rw [handshakeReply_error.2 ⟨rfl, hlong⟩] at answer
      cases answer
    rw [hsome blank, fits_opening parse hkey]
    simp [Nat.not_le.1 hshort]

theorem wsParseHandshake_freed {m : List UInt8} {n : Nat} :
    wsParseHandshake m n hs ≠ .error .freed := by
  intro h
  rcases wsParseHandshake_fault h with hline | hline
  · exact absurd (parseRequest_fault hline) (by decide)
  · exact absurd hline (by decide)

theorem server_freed_iff {behind buf : List UInt8} {calls : List WsCall} :
    NeverCorrupts (onRecv user behind) ⟨hs, some ⟨sid, .handshakeWait, buf⟩, calls⟩ ↔
      KeepsSession user behind hs ⟨sid, .handshakeWait, buf⟩ calls := by
  have hkeeps : KeepsSession user behind hs ⟨sid, .handshakeWait, buf⟩ calls ↔
      (∀ pos, memstr (rn ++ rn) buf = some pos → Fits hs (buf ++ behind) (pos + 1)) ∧
      ∀ pos, memstr (rn ++ rn) buf = some pos →
        ∀ hs', wsParseHandshake (buf ++ behind) (pos + 1) hs = .ok (.opening, hs') →
        ∀ key, hs'.key = some key → ∀ reply, handshakeReply key = .ok reply →
        KeepsOpen user (calls ++ [.sendTo reply]) (buf.drop (pos + 4)) := by
    constructor
    · intro h
      exact ⟨fun pos hm => (h pos hm).1,
        fun pos hm hs' hp key hk reply => (h pos hm).2 hs' key reply hp hk⟩
    · rintro ⟨hfits, hopen⟩ pos hm
      exact ⟨hfits pos hm, fun hs' key reply hp hk => hopen pos hm hs' hp key hk reply⟩
  have hstep : ServerStep hs sid buf behind calls
      ((handshake user behind).run ⟨hs, some ⟨sid, .handshakeWait, buf⟩, calls⟩) :=
    serverHandshake_step hs sid buf behind calls
  have hfits : (∀ s', (handshake user behind).run ⟨hs, some ⟨sid, .handshakeWait, buf⟩, calls⟩ ≠
      .error .outOfBounds s') ↔ _ := server_fits_iff
  rw [hkeeps, ← hfits]
  generalize hrun : (handshake user behind).run _ = r at hstep
  cases hstep with
  | waits blank =>
    refine iff_of_true ?_ (by simp [blank])
    intro fuel e s' hfails
    unfold onRecv at hfails
    rw [run_bind_ok hrun, if_pos rfl, run_bind_ok (conn_run ..)] at hfails
    cases hfails
  | @fails pos blank e parse =>
    have hfreed : e ≠ .freed := fun he => wsParseHandshake_freed (he ▸ parse)
    rw [onRecv_fails hrun]
    simp [blank, parse, Corrupts, hfreed]
  | rejects blank parse =>
    apply iff_of_true (onRecv_stops hrun)
    simp [blank, parse]
  | unanswered blank parse hkey answer =>
    obtain ⟨rfl, -⟩ := handshakeReply_error.1 answer
    rw [onRecv_fails hrun]
    simp [Corrupts]
  | answers blank parse hkey answer =>
    rw [onRecv_frames_freed_iff hrun]
    simp [blank, parse, hkey, answer]

theorem client_freed_iff {behind buf : List UInt8} {calls : List WsCall} :
    NeverCorrupts (onRecv user behind) ⟨hs, some ⟨sid, .handshakeReq, buf⟩, calls⟩ ↔
      KeepsSession user behind hs ⟨sid, .handshakeReq, buf⟩ calls := by
  have hrun : (handshake user behind).run ⟨hs, some ⟨sid, .handshakeReq, buf⟩, calls⟩ = _ :=
    clientHandshake_run user buf calls
  unfold KeepsSession
  dsimp only
  by_cases hshort : buf.length < 13
  · rw [if_pos hshort] at hrun
    exact ⟨fun _ pos hlen => absurd hlen (by omega), fun _ => onRecv_stops hrun⟩
  · rw [if_neg hshort] at hrun
    cases hm : memstr (rn ++ rn) buf with
    | none =>
      rw [hm] at hrun
      exact ⟨fun _ pos _ hpos => (by cases hpos), fun _ => onRecv_stops hrun⟩
    | some pos =>
      rw [hm] at hrun
      dsimp only at hrun
      cases hm₂ : memstr (ascii "HTTP") buf with
      | none =>
        rw [hm₂] at hrun
        exact ⟨fun _ pos _ _ hne => absurd rfl hne, fun _ => onRecv_stops hrun⟩
      | some pos₂ =>
        rw [hm₂] at hrun
        dsimp only at hrun
        cases hu : user (calls ++ [.onHandShake]) with
        | true =>
          rw [hu, if_pos rfl] at hrun
          constructor
          · intro hnever
            exact absurd (.inl rfl) ((onRecv_fails hrun).1 hnever)
          · intro hall
            cases (hall pos (by omega) rfl (by simp)).1
        | false =>
          rw [hu, if_neg (by decide)] at hrun
          rw [onRecv_frames_freed_iff hrun]
          constructor
          · intro hkeeps pos' _ hpos _
            cases hpos
            exact ⟨rfl, hkeeps⟩
          · intro hall
            exact (hall pos (by omega) rfl (by simp)).2

/-- `onRecv` keeps off a session that has been closed, and within its blocks, with any fuel, exactly
where no callback it makes closes the session, and what it copies of a request fits. -/
theorem onRecv_freed_iff (user : WsUser) (behind : List UInt8) (hs : Handshake) (c : WsSession)
    (calls : List WsCall) :
    (∀ fuel e s', (onRecv user behind fuel).run ⟨hs, some c, calls⟩ = .error e s' →
      ¬ Corrupts e) ↔ KeepsSession user behind hs c calls := by
  obtain ⟨sid, phase, buf⟩ := c
  cases phase with
  | frame => exact recvFrames_freed_iff
  | handshakeReq => exact client_freed_iff
  | handshakeWait => exact server_freed_iff

/-- An empty message, on which user code closes the session. -/
theorem closing_message_freed : ¬ ∀ (user : WsUser) (behind : List UInt8) (hs : Handshake)
    (c : WsSession) (calls : List WsCall) (fuel : Nat) (s' : WsState),
    (onRecv user behind fuel).run ⟨hs, some c, calls⟩ ≠ .error .freed s' := by
  intro h
  exact h (fun _ => true) [] nullHandshake ⟨0, .frame, [0x81, 0x00]⟩ [] 2 _
    (eq_error_of_fault (by decide +kernel))

end ChainSocket.WebSocketPoller
