import ChainSocket.WebSocket.FrameLoop

/-!
# Sending and receiving messages

* `encode_bytes`: each encoder writes the bytes of one text frame;
* `receive_frames`: what one `recv` makes of a session that waits for frames depends on all the
  bytes so far alone;
* `framing_round_trip`: however the frames of a list of messages are cut, the receiver hands on
  exactly these messages.
-/

namespace ChainSocket

/-- The ways a message is put on the wire. -/
inductive Encoding where
  | sendMsg1
  | sendMsg2 (useMask : Bool)
  | makeFrameHead (maskingKey : MaskingKey)
  deriving DecidableEq, Repr

namespace Encoding

def encode (msg : List UInt8) : Encoding → Except Fault (List UInt8)
  | sendMsg1 => do return (← ChainSocket.sendMsg1 msg).flatten
  | sendMsg2 useMask => do return (← ChainSocket.sendMsg2 msg useMask).1.flatten
  | makeFrameHead maskingKey => do
    return (← ChainSocket.makeFrameHead msg.length true maskingKey) ++ mask maskingKey msg

def key : Encoding → Option MaskingKey
  | sendMsg1 => none
  | sendMsg2 useMask => if useMask then some sendMsg2Key else none
  | makeFrameHead maskingKey => some maskingKey

end Encoding

/-- The bytes of several messages, one after another. -/
def encodeAll : List (Encoding × List UInt8) → Except Fault (List UInt8)
  | [] => .ok []
  | (e, msg) :: msgs => do return (← e.encode msg) ++ (← encodeAll msgs)

def textFrame (key : Option MaskingKey) (msg : List UInt8) (h : msg.length ≤ 0xFFFF) : Frame :=
  ⟨.text, key, decide (125 < msg.length), msg, by
    by_cases h125 : 125 < msg.length
    · simpa [h125] using h
    · simp [h125]; omega⟩

theorem makeFrameHead_text (useMask : Bool) (key : MaskingKey) {msg : List UInt8}
    (h : msg.length ≤ 0xFFFF) : makeFrameHead msg.length useMask key =
      .ok (textFrame (if useMask then some key else none) msg h).header := by
  unfold makeFrameHead
  by_cases h125 : msg.length ≤ 125
  · have : ¬ 125 < msg.length := by omega
    cases useMask <;>
      simp [h125, this, textFrame, Frame.header, Frame.keyBytes, Frame.maskBit, Opcode.code]
  · have : 125 < msg.length := by omega
    cases useMask <;>
      simp [h125, h, this, textFrame, Frame.header, Frame.keyBytes, Frame.maskBit, Opcode.code]

theorem sendMsg1_text {msg : List UInt8} (h : msg.length ≤ 0xFFFF) :
    sendMsg1 msg = .ok [(textFrame none msg h).header, msg] := by
  unfold sendMsg1
  by_cases h125 : msg.length ≤ 125
  · have : ¬ 125 < msg.length := by omega
    simp [h125, this, textFrame, Frame.header, Frame.keyBytes, Frame.maskBit, Opcode.code]
  · have : 125 < msg.length := by omega
    simp [h125, h, this, textFrame, Frame.header, Frame.keyBytes, Frame.maskBit, Opcode.code]

theorem encode_bytes (e : Encoding) {msg : List UInt8} (h : msg.length ≤ 0xFFFF) :
    e.encode msg = .ok (textFrame e.key msg h).bytes := by
  cases e with
  | sendMsg1 =>
    simp only [Encoding.encode, sendMsg1_text h]
    simp [bind, Except.bind, pure, Except.pure, Encoding.key, Frame.bytes, Frame.masked,
      textFrame]
  | sendMsg2 useMask =>
    simp only [Encoding.encode, sendMsg2, makeFrameHead_text useMask sendMsg2Key h]
    cases useMask <;>
      simp [bind, Except.bind, pure, Except.pure, Encoding.key, Frame.bytes, Frame.masked,
        textFrame]
  | makeFrameHead maskingKey =>
    simp only [Encoding.encode, makeFrameHead_text true maskingKey h]
    simp [bind, Except.bind, pure, Except.pure, Encoding.key, Frame.bytes, Frame.masked,
      textFrame]

theorem frameRun_nil : frameRun [] = ⟨[], .left []⟩ :=
  frameRun_leave (by unfold frameStep; rfl)

/-- The frames of messages, read back in one run. -/
theorem encodeAll_run {msgs : List (Encoding × List UInt8)}
    (h : ∀ m ∈ msgs, m.2.length ≤ 0xFFFF) : ∃ wire, encodeAll msgs = .ok wire ∧
      frameRun wire = ⟨msgs.map Prod.snd, .left []⟩ := by
  induction msgs with
  | nil =>
    exact ⟨[], rfl, frameRun_nil⟩
  | cons m msgs ih =>
    obtain ⟨wire, hwire, hrun⟩ := ih fun m' hm => h m' (List.mem_cons_of_mem _ hm)
    have hm := h m List.mem_cons_self
    refine ⟨(textFrame m.1.key m.2 hm).bytes ++ wire, ?_, ?_⟩
    · simp only [encodeAll, encode_bytes m.1 hm, hwire]; rfl
    · rw [frameRun_bytes rfl, hrun]; rfl

namespace WebSocketPoller

variable {hs : Handshake} {sid : Nat} {phase : WsPhase}

theorem RecvEnds.append {calls : List WsCall} {msgs : List (List UInt8)} {r : FrameRun}
    {fuel : Nat} {res : EStateM.Result Fault WsState Nat}
    (h : RecvEnds hs sid phase (calls ++ msgs.map .onReadMsg) r fuel res) :
    RecvEnds hs sid phase calls ⟨msgs ++ r.messages, r.ending⟩ fuel res := by
  have hcalls : calls ++ msgs.map .onReadMsg ++ r.messages.map .onReadMsg =
      calls ++ (msgs ++ r.messages).map .onReadMsg := by simp
  cases h with
  | left he => rw [hcalls]; exact .left (r := ⟨msgs ++ r.messages, r.ending⟩) he
  | closed he => rw [hcalls]; exact .closed (r := ⟨msgs ++ r.messages, r.ending⟩) he
  | aborted he s => exact .aborted (r := ⟨msgs ++ r.messages, r.ending⟩) he s
  | fuel he s =>
    refine .fuel (r := ⟨msgs ++ r.messages, r.ending⟩) (he.imp_right fun hk => ?_) s
    simp; omega

theorem receive_run (user : WsUser) (fuel : Nat) (chunk behind : List UInt8) (buf : List UInt8)
    (calls : List WsCall) :
    (receive user fuel chunk behind).run ⟨hs, some ⟨sid, phase, buf⟩, calls⟩ =
      match (onRecv user behind fuel).run ⟨hs, some ⟨sid, phase, buf ++ chunk⟩, calls⟩ with
      | .ok _ s => .ok () s
      | .error e s => .error e s := by
  change EStateM.bind (onRecv user behind fuel) _ _ = _
  unfold EStateM.bind EStateM.run
  cases onRecv user behind fuel ⟨hs, some ⟨sid, phase, buf ++ chunk⟩, calls⟩ <;> rfl

variable (hs sid) in
/-- A session that waits for frames and has come to `rest` behind the bytes `w`. -/
theorem receive_frames {w rest : List UInt8} {msgs : List (List UInt8)}
    (h : frameRun w = ⟨msgs, .left rest⟩) (fuel : Nat) (chunk behind : List UInt8)
    (calls : List WsCall) : ∃ res, RecvEnds hs sid .frame calls (frameRun (w ++ chunk)) fuel res ∧
      (receive .idle fuel chunk behind).run
          ⟨hs, some ⟨sid, .frame, rest⟩, calls ++ msgs.map .onReadMsg⟩ =
        match res with
        | .ok _ s => .ok () s
        | .error e s => .error e s := by
  refine ⟨_, ?_, receive_run ..⟩
  have ha := frameRun_append w chunk
  rw [h] at ha
  rw [ha, onRecv_frame]
  exact (recvFrames_run hs sid .frame (rest ++ chunk) (calls ++ msgs.map .onReadMsg) fuel).append

/-- Data that does not end the run when more has come in has not ended it before. -/
theorem left_of_append {w t rest : List UInt8} (h : (frameRun (w ++ t)).ending = .left rest) :
    ∃ msgs rest', frameRun w = ⟨msgs, .left rest'⟩ ∧
      msgs.length ≤ (frameRun (w ++ t)).messages.length := by
  have ha := frameRun_append w t
  cases hw : frameRun w with
  | mk msgs ending =>
    rw [hw] at ha
    cases ending with
    | left rest' => exact ⟨msgs, rest', rfl, by rw [ha]; simp⟩
    | closed | aborted | stuck => rw [ha] at h; cases h

variable (hs sid) in
theorem receiveAll_frames {fuel : Nat} (calls : List WsCall) :
    ∀ {chunks : List (List UInt8 × List UInt8)} {w rest rest' : List UInt8}
      {msgs msgs' : List (List UInt8)}, frameRun w = ⟨msgs, .left rest⟩ →
      frameRun (w ++ (chunks.map Prod.fst).flatten) = ⟨msgs', .left rest'⟩ →
      msgs'.length < fuel →
      (receiveAll .idle fuel chunks).run
          ⟨hs, some ⟨sid, .frame, rest⟩, calls ++ msgs.map .onReadMsg⟩ =
        .ok () ⟨hs, some ⟨sid, .frame, rest'⟩, calls ++ msgs'.map .onReadMsg⟩ := by
  intro chunks
  induction chunks with
  | nil =>
    intro w rest rest' msgs msgs' hw hw' _
    simp only [List.map_nil, List.flatten_nil, List.append_nil] at hw'
    rw [hw] at hw'
    cases hw'
    rfl
  | cons c chunks ih =>
    intro w rest rest' msgs msgs' hw hw' hfuel
    simp only [List.map_cons, List.flatten_cons, ← List.append_assoc] at hw'
    obtain ⟨msgs₁, rest₁, hrun, hle⟩ := left_of_append (w := w ++ c.1) (by rw [hw'])
    rw [hw'] at hle
    dsimp only at hle
    obtain ⟨res, hres, hrecv⟩ := receive_frames hs sid hw fuel c.1 c.2 calls
    rw [hrun] at hres
    have hstep : (receive .idle fuel c.1 c.2).run
        ⟨hs, some ⟨sid, .frame, rest⟩, calls ++ msgs.map .onReadMsg⟩ =
        .ok () ⟨hs, some ⟨sid, .frame, rest₁⟩, calls ++ msgs₁.map .onReadMsg⟩ := by
      rw [hrecv]
      cases hres with
      | left he => cases he; rfl
      | closed he => cases he
      | aborted he => cases he
      | fuel he => exact absurd he (by simp; omega)
    have htail := ih hrun hw' hfuel
    change EStateM.bind _ _ _ = _
    unfold EStateM.bind
    unfold EStateM.run at hstep htail
    rw [hstep]
    exact htail

/-- **However the wire bytes of a list of messages are cut, a receiver that waits for frames with
an empty buffer is handed exactly these messages, and is left so.** -/
theorem framing_round_trip (hs : Handshake) (sid : Nat) (msgs : List (Encoding × List UInt8))
    (hsize : ∀ m ∈ msgs, m.2.length ≤ 65535) : ∃ wire, encodeAll msgs = .ok wire ∧
      ∀ (chunks : List (List UInt8 × List UInt8)) (fuel : Nat),
        (chunks.map Prod.fst).flatten = wire → msgs.length < fuel →
        (receiveAll .idle fuel chunks).run ⟨hs, some ⟨sid, .frame, []⟩, []⟩ =
          .ok () ⟨hs, some ⟨sid, .frame, []⟩, msgs.map fun m => .onReadMsg m.2⟩ := by
  obtain ⟨wire, hwire, hrun⟩ := encodeAll_run hsize
  refine ⟨wire, hwire, fun chunks fuel hcut hfuel => ?_⟩
  rw [← hcut, ← List.nil_append (List.flatten _)] at hrun
  have := receiveAll_frames hs sid [] frameRun_nil hrun (by simpa using hfuel)
  simpa [Function.comp_def] using this

/-- One masked message, cut behind its first byte. -/
theorem framing_round_trip_cut :
    (receiveAll .idle 2 [([0x81], []), ([0x82, 1, 2, 3, 4, 0x49, 0x6b], [7])]).run
        ⟨nullHandshake, some ⟨0, .frame, []⟩, []⟩ =
      .ok () ⟨nullHandshake, some ⟨0, .frame, []⟩, [.onReadMsg [0x48, 0x69]]⟩ := by
  obtain ⟨wire, hwire, h⟩ := framing_round_trip nullHandshake 0
    [(.makeFrameHead #v[1, 2, 3, 4], [0x48, 0x69])] (by decide)
  have hw : wire = [0x81, 0x82, 1, 2, 3, 4, 0x49, 0x6b] := by
    have : encodeAll [(.makeFrameHead #v[1, 2, 3, 4], [0x48, 0x69])] =
      .ok [0x81, 0x82, 1, 2, 3, 4, 0x49, 0x6b] := by decide
    rw [this] at hwire
    cases hwire; rfl
  exact h _ 2 (by rw [hw]; rfl) (by decide)

end WebSocketPoller

end ChainSocket
