import ChainSocket.WebSocket.Poller
import ChainSocket.WebSocket.Wire
import Mathlib.Data.List.GetD

/-!
# The frame loop

* `frameRun`: what the loop makes of the data, computed from the data alone;
* `frameRun_append`: it does not matter how much of the data has come in when the loop runs;
* `frameLoop_run`: the loop computes it, given fuel for its messages;
* `frameRun_stuck`: it turns for ever on exactly the data with a complete control frame behind
  complete data frames.
-/

namespace ChainSocket

theorem frameStep_append {s : List UInt8} (h : frameStep s ≠ .leave) (t : List UInt8) :
    frameStep (s ++ t) = frameStep s := by
  have hi := iterates s
  have h0 : 2 ≤ s.length → (s ++ t).getD 0 0 = s.getD 0 0 := fun h2 =>
    List.getD_append _ _ _ _ (by omega)
  have h1 : 2 ≤ s.length → (s ++ t).getD 1 0 = s.getD 1 0 := fun h2 =>
    List.getD_append _ _ _ _ (by omega)
  cases hs : frameStep s with
  | leave => exact absurd hs h
  | close type =>
    rw [hs] at hi
    cases hi with
    | extensions h2 h70 =>
      unfold frameStep
      rw [List.length_append, h0 h2, if_neg (by omega), if_pos h70]
    | continuation h2 h70 h80 =>
      unfold frameStep
      rw [List.length_append, h0 h2, if_neg (by omega), if_neg (not_not.mpr h70), if_pos h80]
    | handles c _ hc => cases hc
  | abort =>
    rw [hs] at hi
    cases hi with
    | abort h2 h70 h80 hop hhead h127 =>
      have hh : (frameHead (s ++ t)).opcode = (frameHead s).opcode ∧
          (frameHead (s ++ t)).n0 = (frameHead s).n0 ∧
          (frameHead (s ++ t)).headerSize = (frameHead s).headerSize := by
        simp only [frameHead, h0 h2, h1 h2, and_self]
      unfold frameStep
      dsimp only
      rw [List.length_append, h0 h2, hh.1, hh.2.1, hh.2.2, if_neg (by omega),
        if_neg (not_not.mpr h70), if_neg (not_not.mpr h80), if_neg (not_not.mpr hop),
        if_neg (by omega), if_pos h127]
    | handles c _ hc => cases hc
  | data headerSize payload =>
    obtain ⟨f, u, rfl, hf⟩ := frame_of_handles (by rw [hs]; rfl)
    rw [List.append_assoc, frameStep_bytes, ← hf, hs]
  | control headerSize payload =>
    obtain ⟨f, u, rfl, hf⟩ := frame_of_handles (by rw [hs]; rfl)
    rw [List.append_assoc, frameStep_bytes, ← hf, hs]

/-! ## The data frames at the head of a frame -/

theorem frameStep_data {s : List UInt8} {n : Nat} {payload : List UInt8}
    (h : frameStep s = .data n payload) : ∃ (f : Frame) (t : List UInt8),
      f.opcode.isData = true ∧ s = f.bytes ++ t ∧ n = f.header.length ∧ payload = f.payload := by
  obtain ⟨f, t, rfl, hf⟩ := frame_of_handles (s := s) (by rw [h]; rfl)
  rw [h] at hf
  unfold Frame.step at hf
  cases hd : f.opcode.isData with
  | false => rw [hd] at hf; cases hf
  | true =>
    rw [hd, if_pos rfl, FrameStep.data.injEq] at hf
    refine ⟨f, t, hd, rfl, hf.1, ?_⟩
    rw [hf.2, Frame.written]
    revert hd
    cases f.opcode <;> simp [Opcode.isData]

theorem frameStep_control {s : List UInt8} {n : Nat} {payload : List UInt8}
    (h : frameStep s = .control n payload) : ∃ (f : Frame) (t : List UInt8),
      f.opcode.isData = false ∧ s = f.bytes ++ t ∧ n = f.header.length ∧ payload = f.written := by
  obtain ⟨f, t, rfl, hf⟩ := frame_of_handles (s := s) (by rw [h]; rfl)
  rw [h] at hf
  unfold Frame.step at hf
  cases hd : f.opcode.isData with
  | true => rw [hd] at hf; cases hf
  | false =>
    rw [hd, if_neg (by decide), FrameStep.control.injEq] at hf
    exact ⟨f, t, hd, rfl, hf.1, hf.2⟩

theorem Frame.length_bytes (f : Frame) : f.bytes.length = f.header.length + f.payload.length := by
  rw [Frame.bytes, List.length_append, f.length_masked]

theorem Frame.header_pos (f : Frame) : 2 ≤ f.header.length := by rw [f.length_header]; omega

/-- An iteration that hands on a message has the whole frame in front of it. -/
theorem frameStep_data_length {s : List UInt8} {n : Nat} {payload : List UInt8}
    (h : frameStep s = .data n payload) : 2 ≤ n ∧ n + payload.length ≤ s.length := by
  obtain ⟨f, t, -, rfl, rfl, rfl⟩ := frameStep_data h
  have := f.header_pos
  rw [List.length_append, f.length_bytes]; omega

/-! ## The run -/

/-- How the loop ends: with this left in the buffer, by closing the session, in `abort`, or
never. -/
inductive LoopEnd where
  | left (rest : List UInt8)
  | closed (type : CloseType)
  | aborted
  | stuck
  deriving DecidableEq, Repr

structure FrameRun where
  messages : List (List UInt8)
  ending : LoopEnd
  deriving DecidableEq, Repr

def FrameRun.cons (payload : List UInt8) (r : FrameRun) : FrameRun :=
  ⟨payload :: r.messages, r.ending⟩

/-- The messages in the data, in order, and how the loop ends behind them. -/
def frameRun (s : List UInt8) : FrameRun :=
  match _h : frameStep s with
  | .leave => ⟨[], .left s⟩
  | .close type => ⟨[], .closed type⟩
  | .abort => ⟨[], .aborted⟩
  | .control _ _ => ⟨[], .stuck⟩
  | .data headerSize payload => (frameRun (s.drop (headerSize + payload.length))).cons payload
termination_by s.length
decreasing_by
  have := frameStep_data_length _h
  simp only [List.length_drop]; omega

theorem frameRun_leave {s : List UInt8} (h : frameStep s = .leave) :
    frameRun s = ⟨[], .left s⟩ := by
  rw [frameRun]; split <;> rename_i h' <;> rw [h] at h' <;> cases h'

theorem frameRun_close {s : List UInt8} {type : CloseType} (h : frameStep s = .close type) :
    frameRun s = ⟨[], .closed type⟩ := by
  rw [frameRun]; split <;> rename_i h' <;> rw [h] at h' <;> cases h'
  rfl

theorem frameRun_abort {s : List UInt8} (h : frameStep s = .abort) :
    frameRun s = ⟨[], .aborted⟩ := by
  rw [frameRun]; split <;> rename_i h' <;> rw [h] at h' <;> cases h'

theorem frameRun_bytes {f : Frame} (hd : f.opcode.isData = true) (t : List UInt8) :
    frameRun (f.bytes ++ t) = (frameRun t).cons f.payload := by
  have hs := frameStep_bytes f t
  have hw : f.written = f.payload := by
    unfold Frame.written; revert hd; cases f.opcode <;> simp [Opcode.isData]
  rw [Frame.step, if_pos hd, hw] at hs
  rw [frameRun]
  split <;> rename_i h <;> rw [hs] at h <;> cases h
  rw [← f.length_bytes, List.drop_left]

theorem frameRun_control {f : Frame} (hd : f.opcode.isData = false) (t : List UInt8) :
    frameRun (f.bytes ++ t) = ⟨[], .stuck⟩ := by
  have hs := frameStep_bytes f t
  rw [Frame.step, hd] at hs
  rw [frameRun]
  split <;> rename_i h <;> rw [hs] at h <;> cases h

/-- The loop may run on part of the data first: what it has left then comes before the rest. -/
theorem frameRun_append (s t : List UInt8) :
    frameRun (s ++ t) = match (frameRun s).ending with
      | .left rest => ⟨(frameRun s).messages ++ (frameRun (rest ++ t)).messages,
          (frameRun (rest ++ t)).ending⟩
      | _ => frameRun s := by
  induction hn : s.length using Nat.strong_induction_on generalizing s with
  | _ n ih =>
    subst hn
    have ha := fun h => frameStep_append (s := s) h t
    cases hs : frameStep s with
    | leave => rw [frameRun_leave hs]; rfl
    | close type =>
      rw [hs] at ha
      rw [frameRun_close hs, frameRun_close (ha FrameStep.noConfusion)]
    | abort =>
      rw [hs] at ha
      rw [frameRun_abort hs, frameRun_abort (ha FrameStep.noConfusion)]
    | control headerSize payload =>
      obtain ⟨f, u, hd, rfl, -, -⟩ := frameStep_control hs
      rw [List.append_assoc, frameRun_control hd, frameRun_control hd]
    | data headerSize payload =>
      obtain ⟨f, u, hd, rfl, -, -⟩ := frameStep_data hs
      have hlt : u.length < (f.bytes ++ u).length := by
        have := f.header_pos
        simp only [List.length_append, f.length_bytes]; omega
      rw [List.append_assoc, frameRun_bytes hd, frameRun_bytes hd, ih u.length hlt u rfl]
      cases hu : (frameRun u).ending <;> simp [FrameRun.cons, hu]

/-! ## The loop computes the run -/

namespace WebSocketPoller

variable (hs : Handshake) (sid : Nat) (phase : WsPhase)

theorem frameIteration_run (buf : List UInt8) (parseSize : Nat) (calls : List WsCall) :
    (frameIteration .idle parseSize).run ⟨hs, some ⟨sid, phase, buf⟩, calls⟩ =
      match frameStep (buf.drop parseSize) with
      | .leave => .ok .leave ⟨hs, some ⟨sid, phase, buf⟩, calls⟩
      | .close type => .ok .returned ⟨hs, none, calls ++ [.closeSession sid type]⟩
      | .abort => .error .abort ⟨hs, some ⟨sid, phase, buf⟩, calls⟩
      | .data n payload => .ok (.next (parseSize + (n + payload.length)))
          ⟨hs, some ⟨sid, phase, buf.take (parseSize + n) ++ payload ++
            buf.drop (parseSize + n + payload.length)⟩, calls ++ [.onReadMsg payload]⟩
      | .control n payload => .ok (.next parseSize)
          ⟨hs, some ⟨sid, phase, buf.take (parseSize + n) ++ payload ++
            buf.drop (parseSize + n + payload.length)⟩, calls⟩ := by
  have hbind : (frameIteration .idle parseSize).run ⟨hs, some ⟨sid, phase, buf⟩, calls⟩ =
      (match frameStep (buf.drop parseSize) with
        | .leave => return .leave
        | .close type => do closeSession type; return .returned
        | .abort => throw .abort
        | .data n payload => do
          writeBack (parseSize + n) payload
          callback .idle (.onReadMsg payload)
          return .next (parseSize + (n + payload.length))
        | .control n payload => do
          writeBack (parseSize + n) payload
          return .next parseSize : WsM Iteration).run ⟨hs, some ⟨sid, phase, buf⟩, calls⟩ := rfl
  rw [hbind]
  cases frameStep (buf.drop parseSize) <;> rfl

/-- Where the frame loop can end, after a run of its data, with the session in `phase` and these
calls made before it. -/
inductive LoopEnds (calls : List WsCall) (r : FrameRun) (fuel : Nat) :
    EStateM.Result Fault WsState (Option Nat) → Prop where
  | left {rest : List UInt8} (h : r.ending = .left rest) (buf : List UInt8) (parseSize : Nat)
      (hb : buf.drop parseSize = rest) : LoopEnds calls r fuel (.ok (some parseSize)
        ⟨hs, some ⟨sid, phase, buf⟩, calls ++ r.messages.map .onReadMsg⟩)
  | closed {type : CloseType} (h : r.ending = .closed type) : LoopEnds calls r fuel (.ok none
        ⟨hs, none, calls ++ r.messages.map .onReadMsg ++ [.closeSession sid type]⟩)
  | aborted (h : r.ending = .aborted) (s : WsState) : LoopEnds calls r fuel (.error .abort s)
  | fuel (h : r.ending = .stuck ∨ fuel ≤ r.messages.length) (s : WsState) :
      LoopEnds calls r fuel (.error .fuel s)

variable {hs sid phase}

theorem LoopEnds.cons {calls : List WsCall} {r : FrameRun} {fuel : Nat} {payload : List UInt8}
    {res : EStateM.Result Fault WsState (Option Nat)}
    (h : LoopEnds hs sid phase (calls ++ [.onReadMsg payload]) r fuel res) :
    LoopEnds hs sid phase calls (r.cons payload) (fuel + 1) res := by
  have hcalls : calls ++ [.onReadMsg payload] ++ r.messages.map .onReadMsg =
      calls ++ (r.cons payload).messages.map .onReadMsg := by simp [FrameRun.cons]
  cases h with
  | left he buf parseSize hb => rw [hcalls]; exact .left (r := r.cons payload) he buf parseSize hb
  | closed he => rw [hcalls]; exact .closed (r := r.cons payload) he
  | aborted he s => exact .aborted (r := r.cons payload) he s
  | fuel he s => exact .fuel (r := r.cons payload) (he.imp_right Nat.succ_le_succ) s

theorem LoopEnds.stuck {calls : List WsCall} {fuel : Nat}
    {res : EStateM.Result Fault WsState (Option Nat)}
    (h : LoopEnds hs sid phase calls ⟨[], .stuck⟩ fuel res) :
    LoopEnds hs sid phase calls ⟨[], .stuck⟩ (fuel + 1) res := by
  cases h with
  | fuel _ s => exact .fuel (.inl rfl) s
  | left he => cases he
  | closed he => cases he
  | aborted he => cases he

/-- Behind a control frame the loop stands at a control frame again, unmasked if it is a ping. -/
theorem control_again {f : Frame} (hd : f.opcode.isData = false) :
    ∃ g : Frame, g.opcode.isData = false ∧ g.header = f.header ∧ g.masked = f.written := by
  obtain ⟨op, key, wide, payload, fits⟩ := f
  cases op with
  | text | binary => cases hd
  | closing | pong => exact ⟨_, rfl, rfl, rfl⟩
  | ping =>
    cases key with
    | none => exact ⟨⟨.ping, none, wide, payload, fits⟩, rfl, rfl, rfl⟩
    | some key =>
      refine ⟨⟨.ping, some key, wide, mask key payload, by simpa using fits⟩, rfl, ?_, ?_⟩
      · simp [Frame.header, Frame.keyBytes, Frame.maskBit]
      · simp [Frame.masked, Frame.written]

/-- What is written over the payload of the frame at `p` stands behind its header. -/
theorem drop_writeBack {buf t : List UInt8} {p : Nat} {f : Frame} (hb : buf.drop p = f.bytes ++ t)
    (hp : p ≤ buf.length) (payload : List UInt8) (hlen : payload.length = f.payload.length) :
    (buf.take (p + f.header.length) ++ payload ++
      buf.drop (p + f.header.length + payload.length)).drop p = f.header ++ payload ++ t := by
  have hbuf : buf = buf.take p ++ (f.bytes ++ t) := by rw [← hb, List.take_append_drop]
  have hlp : (buf.take p).length = p := by simp; omega
  have htake : buf.take (p + f.header.length) = buf.take p ++ f.header := by
    conv_lhs => rw [hbuf]
    rw [List.take_append, hlp, Nat.add_sub_cancel_left, List.take_of_length_le (by omega),
      Frame.bytes, List.append_assoc, List.take_left]
  have hdrop : buf.drop (p + f.header.length + payload.length) = t := by
    rw [Nat.add_assoc, hlen, ← f.length_bytes, ← List.drop_drop, hb, List.drop_left]
  rw [htake, hdrop, List.append_assoc, List.append_assoc]
  rw [List.drop_left' hlp, List.append_assoc]

theorem length_written (f : Frame) : f.written.length = f.payload.length := by
  obtain ⟨op, key, wide, payload, fits⟩ := f
  cases op <;> simp [Frame.written, Frame.length_masked]

/-- Behind a control frame the loop stands at a control frame again. -/
theorem drop_control {buf t : List UInt8} {p : Nat} {f : Frame} (hd : f.opcode.isData = false)
    (hb : buf.drop p = f.bytes ++ t) (hp : p ≤ buf.length) :
    let next := buf.take (p + f.header.length) ++ f.written ++
      buf.drop (p + f.header.length + f.written.length)
    ∃ g : Frame, g.opcode.isData = false ∧ next.drop p = g.bytes ++ t ∧ p ≤ next.length := by
  obtain ⟨g, hg, hhead, hmasked⟩ := control_again hd
  refine ⟨g, hg, ?_, ?_⟩
  · rw [drop_writeBack hb hp _ (length_written f), Frame.bytes, hhead, hmasked]
  · have hwritten := length_written f
    have hlen := congrArg List.length hb
    simp only [List.length_drop, List.length_append, f.length_bytes] at hlen
    simp only [List.length_append, List.length_take, List.length_drop]
    omega

/-- Behind a data frame the loop stands at what followed the frame. -/
theorem drop_message {buf t : List UInt8} {p : Nat} {f : Frame} (hb : buf.drop p = f.bytes ++ t)
    (hp : p ≤ buf.length) :
    let next := buf.take (p + f.header.length) ++ f.payload ++
      buf.drop (p + f.header.length + f.payload.length)
    next.drop (p + (f.header.length + f.payload.length)) = t ∧
      p + (f.header.length + f.payload.length) ≤ next.length := by
  have hnext := drop_writeBack hb hp f.payload rfl
  have hlen := congrArg List.length hb
  simp only [List.length_drop, List.length_append, f.length_bytes] at hlen
  have hdrop : (f.header ++ f.payload ++ t).drop (f.header.length + f.payload.length) = t :=
    List.drop_left' (by simp)
  constructor
  · rw [← List.drop_drop, hnext, hdrop]
  · simp only [List.length_append, List.length_take, List.length_drop]; omega

theorem frameLoop_succ (user : WsUser) (fuel parseSize : Nat) (s : WsState) :
    (frameLoop user (fuel + 1) parseSize).run s =
      match (frameIteration user parseSize).run s with
      | .ok .leave s => .ok (some parseSize) s
      | .ok .returned s => .ok none s
      | .ok (.next parseSize) s => (frameLoop user fuel parseSize).run s
      | .error e s => .error e s := by
  change EStateM.bind _ _ _ = _
  unfold EStateM.bind EStateM.run
  cases frameIteration user parseSize s with
  | error e s => rfl
  | ok r s => cases r <;> rfl

variable (hs sid phase) in
theorem frameLoop_run (fuel : Nat) : ∀ (buf : List UInt8) (parseSize : Nat) (calls : List WsCall),
    parseSize ≤ buf.length →
    LoopEnds hs sid phase calls (frameRun (buf.drop parseSize)) fuel
      ((frameLoop .idle fuel parseSize).run ⟨hs, some ⟨sid, phase, buf⟩, calls⟩) := by
  induction fuel with
  | zero => intro buf parseSize calls hp; exact .fuel (.inr (Nat.zero_le _)) _
  | succ fuel ih =>
    intro buf parseSize calls hp
    have hrun := frameIteration_run hs sid phase buf parseSize calls
    rw [frameLoop_succ, hrun]
    cases hstep : frameStep (buf.drop parseSize) with
    | leave =>
      rw [frameRun_leave hstep]
      have : LoopEnds hs sid phase calls ⟨[], .left (buf.drop parseSize)⟩ (fuel + 1) _ :=
        .left rfl buf parseSize rfl
      simpa using this
    | close type =>
      rw [frameRun_close hstep]
      have : LoopEnds hs sid phase calls ⟨[], .closed type⟩ (fuel + 1) _ := .closed rfl
      simpa using this
    | abort =>
      rw [frameRun_abort hstep]
      exact .aborted rfl _
    | data n payload =>
      obtain ⟨f, t, hd, hb, rfl, rfl⟩ := frameStep_data hstep
      obtain ⟨hrest, hle⟩ := drop_message hb hp
      rw [hb, frameRun_bytes hd]
      apply LoopEnds.cons
      rw [← hrest]
      exact ih _ _ _ hle
    | control n payload =>
      obtain ⟨f, t, hd, hb, rfl, rfl⟩ := frameStep_control hstep
      obtain ⟨g, hg, hnext, hle⟩ := drop_control hd hb hp
      rw [hb, frameRun_control hd]
      apply LoopEnds.stuck
      rw [← frameRun_control hg t, ← hnext]
      exact ih _ _ _ hle

/-- Where `onRecv` can end when it runs the frame loop. -/
inductive RecvEnds (hs : Handshake) (sid : Nat) (phase : WsPhase) (calls : List WsCall)
    (r : FrameRun) (fuel : Nat) : EStateM.Result Fault WsState Nat → Prop where
  | left {rest : List UInt8} (h : r.ending = .left rest) : RecvEnds hs sid phase calls r fuel
      (.ok 0 ⟨hs, some ⟨sid, phase, rest⟩, calls ++ r.messages.map .onReadMsg⟩)
  | closed {type : CloseType} (h : r.ending = .closed type) :
      RecvEnds hs sid phase calls r fuel (.ok WsFrameType.error.code.toNat
        ⟨hs, none, calls ++ r.messages.map .onReadMsg ++ [.closeSession sid type]⟩)
  | aborted (h : r.ending = .aborted) (s : WsState) :
      RecvEnds hs sid phase calls r fuel (.error .abort s)
  | fuel (h : r.ending = .stuck ∨ fuel ≤ r.messages.length) (s : WsState) :
      RecvEnds hs sid phase calls r fuel (.error .fuel s)

variable (hs sid phase) in
theorem recvFrames_run (buf : List UInt8) (calls : List WsCall) (fuel : Nat) :
    RecvEnds hs sid phase calls (frameRun buf) fuel
      ((recvFrames .idle fuel).run ⟨hs, some ⟨sid, phase, buf⟩, calls⟩) := by
  have h := frameLoop_run hs sid phase fuel buf 0 calls (Nat.zero_le _)
  change RecvEnds _ _ _ _ _ _ (EStateM.bind _ _ _)
  unfold EStateM.bind
  rw [List.drop_zero] at h
  unfold EStateM.run at h
  cases hr : frameLoop .idle fuel 0 ⟨hs, some ⟨sid, phase, buf⟩, calls⟩ with
  | error e s =>
    rw [hr] at h
    cases h with
    | aborted he s => exact .aborted he s
    | fuel he s => exact .fuel he s
  | ok r s =>
    rw [hr] at h
    cases h with
    | left he buf parseSize hb => rw [← hb] at he; exact .left he
    | closed he => exact .closed he

theorem onRecv_frame (user : WsUser) (behind : List UInt8) (fuel : Nat) (buf : List UInt8)
    (calls : List WsCall) :
    (onRecv user behind fuel).run ⟨hs, some ⟨sid, .frame, buf⟩, calls⟩ =
      (recvFrames user fuel).run ⟨hs, some ⟨sid, .frame, buf⟩, calls⟩ := rfl

end WebSocketPoller

/-! ## Progress -/

/-- Complete data frames, then a complete control frame, then anything. -/
def ControlFrameAhead (s : List UInt8) : Prop :=
  ∃ (fs : List Frame) (c : Frame) (rest : List UInt8), (∀ f ∈ fs, f.opcode.isData = true) ∧
    c.opcode.isData = false ∧ s = fs.flatMap Frame.bytes ++ c.bytes ++ rest

theorem frameRun_stuck (s : List UInt8) : (frameRun s).ending = .stuck ↔ ControlFrameAhead s := by
  constructor
  · induction hn : s.length using Nat.strong_induction_on generalizing s with
    | _ n ih =>
      subst hn
      intro h
      cases hs : frameStep s with
      | leave => rw [frameRun_leave hs] at h; cases h
      | close type => rw [frameRun_close hs] at h; cases h
      | abort => rw [frameRun_abort hs] at h; cases h
      | control n payload =>
        obtain ⟨c, rest, hc, rfl, -, -⟩ := frameStep_control hs
        exact ⟨[], c, rest, by simp, hc, rfl⟩
      | data n payload =>
        obtain ⟨f, t, hd, rfl, -, -⟩ := frameStep_data hs
        have hlt : t.length < (f.bytes ++ t).length := by
          have := f.header_pos
          simp only [List.length_append, f.length_bytes]; omega
        rw [frameRun_bytes hd] at h
        obtain ⟨fs, c, rest, hfs, hc, rfl⟩ := ih t.length hlt t rfl h
        refine ⟨f :: fs, c, rest, ?_, hc, by simp⟩
        rintro g hg
        rcases List.mem_cons.mp hg with rfl | hg
        · exact hd
        · exact hfs g hg
  · rintro ⟨fs, c, rest, hfs, hc, rfl⟩
    induction fs with
    | nil => simp [frameRun_control hc]
    | cons f fs ih =>
      simp only [List.flatMap_cons, List.append_assoc] at ih ⊢
      rw [frameRun_bytes (hfs f List.mem_cons_self)]
      exact ih fun g hg => hfs g (List.mem_cons_of_mem _ hg)

namespace WebSocketPoller

/-- The states and the values of `parseSize` in front of each iteration of a loop that starts in
`s₀`. -/
inductive Visits (s₀ : WsState) : WsState → Nat → Prop where
  | entry : Visits s₀ s₀ 0
  | next {s s' : WsState} {parseSize parseSize' : Nat} (h : Visits s₀ s parseSize)
      (hn : (frameIteration .idle parseSize).run s = .ok (.next parseSize') s') :
      Visits s₀ s' parseSize'

/-- The frame loop ends, and each of its iterations leaves it or increases `parseSize`. -/
def Progresses (s : WsState) (behind : List UInt8) : Prop :=
  (∃ fuel, ∀ s', (onRecv .idle behind fuel).run s ≠ .error .fuel s') ∧
    ∀ s₁ s₂ p₁ p₂, Visits s s₁ p₁ →
      (frameIteration .idle p₁).run s₁ = .ok (.next p₂) s₂ → p₁ < p₂

theorem onRecv_stuck {hs : Handshake} {sid : Nat} {buf : List UInt8} {calls : List WsCall}
    (h : (frameRun buf).ending = .stuck) (behind : List UInt8) (fuel : Nat) :
    ∃ s', (onRecv .idle behind fuel).run ⟨hs, some ⟨sid, .frame, buf⟩, calls⟩ =
      .error .fuel s' := by
  have hr := recvFrames_run hs sid .frame buf calls fuel
  rw [onRecv_frame]
  generalize (recvFrames .idle fuel).run ⟨hs, some ⟨sid, .frame, buf⟩, calls⟩ = res at hr ⊢
  cases hr with
  | fuel _ s => exact ⟨s, rfl⟩
  | left he => rw [h] at he; cases he
  | closed he => rw [h] at he; cases he
  | aborted he => rw [h] at he; cases he

/-- An iteration that goes on, where the rest of the data is not stuck, has handed on a message,
and the rest behind it is not stuck either. -/
theorem frameIteration_next {hs : Handshake} {sid : Nat} {phase : WsPhase} {buf : List UInt8}
    {calls : List WsCall} {p p' : Nat} {s' : WsState} (hp : p ≤ buf.length)
    (h : (frameRun (buf.drop p)).ending ≠ .stuck)
    (hn : (frameIteration .idle p).run ⟨hs, some ⟨sid, phase, buf⟩, calls⟩ =
      .ok (.next p') s') :
    p < p' ∧ ∃ buf' calls', s' = ⟨hs, some ⟨sid, phase, buf'⟩, calls'⟩ ∧ p' ≤ buf'.length ∧
      (frameRun (buf'.drop p')).ending ≠ .stuck := by
  rw [frameIteration_run] at hn
  cases hstep : frameStep (buf.drop p) with
  | leave => rw [hstep] at hn; cases hn
  | close type => rw [hstep] at hn; cases hn
  | abort => rw [hstep] at hn; cases hn
  | control n payload =>
    obtain ⟨f, t, hd, hb, -, -⟩ := frameStep_control hstep
    rw [hb, frameRun_control hd] at h
    exact absurd rfl h
  | data n payload =>
    rw [hstep] at hn
    obtain ⟨f, t, hd, hb, rfl, rfl⟩ := frameStep_data hstep
    obtain ⟨hrest, hle⟩ := drop_message hb hp
    rw [hb, frameRun_bytes hd] at h
    simp only [EStateM.Result.ok.injEq, Iteration.next.injEq] at hn
    obtain ⟨rfl, rfl⟩ := hn
    have := f.header_pos
    refine ⟨by omega, _, _, rfl, hle, ?_⟩
    rw [hrest]; exact h

theorem visits_run {hs : Handshake} {sid : Nat} {buf : List UInt8} {calls : List WsCall}
    (h : (frameRun buf).ending ≠ .stuck) {s : WsState} {p : Nat}
    (hv : Visits ⟨hs, some ⟨sid, .frame, buf⟩, calls⟩ s p) :
    ∃ buf' calls', s = ⟨hs, some ⟨sid, .frame, buf'⟩, calls'⟩ ∧ p ≤ buf'.length ∧
      (frameRun (buf'.drop p)).ending ≠ .stuck := by
  induction hv with
  | entry => exact ⟨buf, calls, rfl, Nat.zero_le _, h⟩
  | next _ hn ih =>
    obtain ⟨buf', calls', rfl, hp, hne⟩ := ih
    exact (frameIteration_next hp hne hn).2

/-- **The loop makes progress exactly on the data without a complete control frame to come to.** -/
theorem frameLoop_progresses (hs : Handshake) (sid : Nat) (buf : List UInt8)
    (calls : List WsCall) (behind : List UInt8) :
    Progresses ⟨hs, some ⟨sid, .frame, buf⟩, calls⟩ behind ↔ ¬ ControlFrameAhead buf := by
  rw [← frameRun_stuck]
  constructor
  · rintro ⟨⟨fuel, hf⟩, -⟩ h
    obtain ⟨s', hs'⟩ := onRecv_stuck h behind fuel
    exact hf s' hs'
  · intro h
    refine ⟨⟨(frameRun buf).messages.length + 1, ?_⟩, ?_⟩
    · intro s' hs'
      have hr := recvFrames_run hs sid .frame buf calls
        ((frameRun buf).messages.length + 1)
      rw [onRecv_frame] at hs'
      rw [hs'] at hr
      cases hr with
      | fuel hk => exact hk.elim h fun hk => by omega
    · intro s₁ s₂ p₁ p₂ hv hn
      obtain ⟨buf', calls', rfl, hp, hne⟩ := visits_run h hv
      exact (frameIteration_next hp hne hn).1

/-- A ping without payload: the loop never gets past it. -/
theorem ping_does_not_progress :
    ¬ Progresses ⟨nullHandshake, some ⟨0, .frame, [0x89, 0x00]⟩, []⟩ [] := by
  rintro ⟨⟨fuel, hf⟩, -⟩
  have hstuck : (frameRun [0x89, 0x00]).ending = .stuck :=
    (frameRun_stuck _).mpr ⟨[], ⟨.ping, none, false, [], by simp⟩, [], by simp, rfl, by decide⟩
  obtain ⟨s', hs'⟩ := onRecv_stuck hstuck [] fuel
  exact hf s' hs'

end WebSocketPoller

end ChainSocket
