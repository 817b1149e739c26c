import ChainSocket.WebSocket.Crashes

/-!
# What the frame loop leaves in the buffer

* `frameStep_leave_iff`: an iteration leaves the loop at the start of a frame that has not come in
  whole, and at a frame it does not support;
* `residue_iff`: so what `onRecv` leaves is a start of one frame exactly where the loop does not
  come to a frame it does not support, and what it copies of a request fits.
-/

namespace ChainSocket

open CString Effect

/-- A first byte that an iteration looks at further. -/
structure PlainFrame (s : List UInt8) : Prop where
  two : 2 ≤ s.length
  extensions : s.getD 0 0 &&& 0x70 = 0
  final : s.getD 0 0 &&& 0x80 = 0x80

/-- A proper prefix of one frame that the loop handles. -/
inductive Residue (s : List UInt8) : Prop where
  | short (h : s.length < 2)
  | header (plain : PlainFrame s) (opcode : (frameHead s).opcode ∈ handledOpcodes)
      (h : s.length < (frameHead s).headerSize)
  | payload (plain : PlainFrame s) (opcode : (frameHead s).opcode ∈ handledOpcodes)
      (known : (frameHead s).n0 ≠ 127) (h : s.length < (frameHead s).headerSize + (frameHead s).n)

/-- The start of a frame with another opcode. -/
structure Unsupported (s : List UInt8) : Prop where
  plain : PlainFrame s
  opcode : (frameHead s).opcode ∉ handledOpcodes

theorem Residue.supported {s : List UInt8} (h : Residue s) : ¬ Unsupported s := by
  intro hun
  cases h with
  | short h => exact absurd hun.plain.two (by omega)
  | header _ opcode => exact hun.opcode opcode
  | payload _ opcode => exact hun.opcode opcode

theorem Unsupported.leaves {s : List UInt8} (h : Unsupported s) : frameStep s = .leave := by
  obtain ⟨⟨htwo, hrsv, hfin⟩, hop⟩ := h
  unfold frameStep
  dsimp only
  rw [if_neg (Nat.not_lt.mpr htwo), if_neg (not_not.mpr hrsv), if_neg (not_not.mpr hfin),
    if_pos hop]

theorem Residue.leaves {s : List UInt8} (h : Residue s) : frameStep s = .leave := by
  unfold frameStep
  dsimp only
  cases h with
  | short h => rw [if_pos h]
  | header plain opcode h =>
    obtain ⟨htwo, hrsv, hfin⟩ := plain
    rw [if_neg (Nat.not_lt.mpr htwo), if_neg (not_not.mpr hrsv), if_neg (not_not.mpr hfin),
      if_neg (not_not.mpr opcode), if_pos h]
  | payload plain opcode known h =>
    obtain ⟨htwo, hrsv, hfin⟩ := plain
    rw [if_neg (Nat.not_lt.mpr htwo), if_neg (not_not.mpr hrsv), if_neg (not_not.mpr hfin),
      if_neg (not_not.mpr opcode), if_neg known, if_pos h, ite_self]

theorem frameStep_leave_iff {s : List UInt8} :
    frameStep s = .leave ↔ Residue s ∨ Unsupported s := by
  constructor
  · intro h
    unfold frameStep at h
    dsimp only at h
    by_cases htwo : s.length < 2
    · exact .inl (.short htwo)
    rw [if_neg htwo] at h
    by_cases hrsv : s.getD 0 0 &&& 0x70 ≠ 0
    · rw [if_pos hrsv] at h; cases h
    rw [if_neg hrsv] at h
    by_cases hfin : s.getD 0 0 &&& 0x80 ≠ 0x80
    · rw [if_pos hfin] at h; cases h
    rw [if_neg hfin] at h
    have plain : PlainFrame s := ⟨Nat.not_lt.mp htwo, not_not.mp hrsv, not_not.mp hfin⟩
    by_cases hop : (frameHead s).opcode ∉ handledOpcodes
    · exact .inr ⟨plain, hop⟩
    rw [if_neg hop] at h
    by_cases hhead : s.length < (frameHead s).headerSize
    · exact .inl (.header plain (not_not.mp hop) hhead)
    rw [if_neg hhead] at h
    by_cases hlong : (frameHead s).n0 = 127
    · rw [if_pos hlong] at h; cases h
    rw [if_neg hlong] at h
    by_cases hpay : s.length < (frameHead s).headerSize + (frameHead s).n
    · exact .inl (.payload plain (not_not.mp hop) hlong hpay)
    rw [if_neg hpay] at h
    -- a frame that has come in whole is handled
    split at h
    · cases h
    split at h
    · cases h
    split at h <;> cases h
  · intro h
    cases h with
    | inl hres => exact hres.leaves
    | inr hun => exact hun.leaves

/-- Complete data frames, and then one of another opcode. -/
def UnsupportedAhead (s : List UInt8) : Prop :=
  ∃ (fs : List Frame) (rest : List UInt8), (∀ f ∈ fs, f.opcode.isData = true) ∧
    Unsupported rest ∧ s = fs.flatMap Frame.bytes ++ rest

theorem frameRun_left {s rest : List UInt8} (h : (frameRun s).ending = .left rest) :
    ∃ fs : List Frame, (∀ f ∈ fs, f.opcode.isData = true) ∧
      s = fs.flatMap Frame.bytes ++ rest ∧ frameStep rest = .leave := by
  obtain ⟨fs, tail, hfs, rfl, htail⟩ := frames_split s
  rw [frameRun_flatMap hfs] at h
  cases hs : frameStep tail with
  | leave =>
    rw [frameRun_leave hs] at h
    cases h
    exact ⟨fs, hfs, rfl, hs⟩
  | close type => rw [frameRun_close hs] at h; cases h
  | abort => rw [frameRun_abort hs] at h; cases h
  | data n payload => exact absurd hs (htail n payload)
  | control n payload =>
    obtain ⟨c, t, hc, rfl, -, -⟩ := frameStep_control hs
    rw [frameRun_control hc] at h
    cases h

/-- The loop leaves an unsupported frame exactly where it comes to one. -/
theorem left_residue_iff (s : List UInt8) :
    (∀ rest, (frameRun s).ending = .left rest → Residue rest) ↔ ¬ UnsupportedAhead s := by
  constructor
  · rintro h ⟨fs, rest, hfs, hun, rfl⟩
    have hleft : (frameRun (fs.flatMap Frame.bytes ++ rest)).ending = .left rest := by
      rw [frameRun_flatMap hfs, frameRun_leave hun.leaves]
    exact (h rest hleft).supported hun
  · intro h rest hleft
    obtain ⟨fs, hfs, rfl, hleave⟩ := frameRun_left hleft
    cases frameStep_leave_iff.mp hleave with
    | inl hres => exact hres
    | inr hun => exact absurd ⟨fs, rest, hfs, hun, rfl⟩ h

namespace WebSocketPoller

/-- User code whose `onReadMsg` does not touch the session. -/
def KeepsReading (user : WsUser) : Prop :=
  ∀ calls payload, user (calls ++ [.onReadMsg payload]) = false

theorem KeepsReading.keepsOpen {user : WsUser} (h : KeepsReading user) (calls : List WsCall)
    (data : List UInt8) : KeepsOpen user calls data := by
  intro fs rest hne _ _
  rw [← List.dropLast_append_getLast hne, List.map_append, ← List.append_assoc]
  exact h _ _

/-- The data with which an `onRecv` comes to its frame loop. -/
inductive LoopStarts (hs : Handshake) (c : WsSession) : List UInt8 → Prop where
  | frame (phase : c.userData = .frame) : LoopStarts hs c c.readBuffer
  | client (phase : c.userData = .handshakeReq) (size : 13 ≤ c.readBuffer.length) {pos : Nat}
      (blank : memstr (rn ++ rn) c.readBuffer = some pos)
      (http : memstr (ascii "HTTP") c.readBuffer ≠ none) :
      LoopStarts hs c (c.readBuffer.drop (pos + 4))
  | server (phase : c.userData = .handshakeWait) {pos : Nat}
      (blank : memstr (rn ++ rn) c.readBuffer = some pos) {hs' : Handshake} {reply : List UInt8}
      (accepts : Accepts hs (c.readBuffer.take pos) hs' reply) :
      LoopStarts hs c (c.readBuffer.drop (pos + 4))

variable {hs : Handshake} {sid : Nat} {user : WsUser}

/-- In `WS_WAIT_FRAME` the frames are handled as by idle user code. -/
theorem recvFrames_reading (h : KeepsReading user) {buf : List UInt8} {calls : List WsCall}
    {fuel n : Nat} {s : WsState}
    (hrun : (recvFrames user fuel).run ⟨hs, some ⟨sid, .frame, buf⟩, calls⟩ = .ok n s) :
    RecvEnds hs sid .frame calls (frameRun buf) fuel (.ok n s) := by
  rw [recvFrames_keepsOpen (h.keepsOpen calls buf)] at hrun
  rw [← hrun]
  exact recvFrames_run ..

/-- An `onRecv` whose branch has come to the frames `d` leaves what the loop leaves of them. -/
theorem onRecv_left (h : KeepsReading user) {behind d : List UInt8} {calls : List WsCall}
    {s : WsState} (hbranch : (handshake user behind).run s =
      .ok (decide (d ≠ [])) ⟨hs, some ⟨sid, .frame, d⟩, calls⟩)
    {fuel n : Nat} {s' : WsState} (hrun : (onRecv user behind fuel).run s = .ok n s')
    {c' : WsSession} (hc : s'.conn = some c') : (frameRun d).ending = .left c'.readBuffer := by
  rw [onRecv_frames hbranch] at hrun
  split_ifs at hrun with hnil
  · cases hrun
    cases hc
    rw [hnil, frameRun_nil]
  · cases recvFrames_reading h hrun with
    | left hleft =>
      cases hc
      exact hleft
    | closed => cases hc

/-- Whatever `onRecv` leaves of an open session in `WS_WAIT_FRAME` is a start of one frame, and it
does not write out of bounds before. -/
structure LeavesResidue (hs : Handshake) (c : WsSession) : Prop where
  residue : ∀ (user : WsUser) (behind : List UInt8) (calls : List WsCall) (fuel n : Nat)
    (s : WsState) (c' : WsSession), KeepsReading user →
    (onRecv user behind fuel).run ⟨hs, some c, calls⟩ = .ok n s → s.conn = some c' →
    c'.userData = .frame → Residue c'.readBuffer
  inBounds : ∀ (user : WsUser) (behind : List UInt8) (calls : List WsCall) (fuel : Nat)
    (s : WsState), KeepsReading user →
    (onRecv user behind fuel).run ⟨hs, some c, calls⟩ ≠ .error .outOfBounds s

/-- Where the branch of `WS_WAIT_HANDSHAKE_REQ` can end, and whether it goes on to the frames. -/
inductive ClientEnds (hs : Handshake) (sid : Nat) (buf : List UInt8) (calls : List WsCall) :
    Bool → WsState → Prop where
  | waits : ClientEnds hs sid buf calls false ⟨hs, some ⟨sid, .handshakeReq, buf⟩, calls⟩
  | rejects (type : CloseType) :
      ClientEnds hs sid buf calls false ⟨hs, none, calls ++ [.closeSession sid type]⟩
  | accepts (size : 13 ≤ buf.length) {pos : Nat} (blank : memstr (rn ++ rn) buf = some pos)
      (http : memstr (ascii "HTTP") buf ≠ none) :
      ClientEnds hs sid buf calls (decide (buf.drop (pos + 4) ≠ []))
        ⟨hs, some ⟨sid, .frame, buf.drop (pos + 4)⟩, calls ++ [.onHandShake]⟩

theorem clientHandshake_ends {buf : List UInt8} {calls : List WsCall} {more : Bool} {s : WsState}
    (h : (clientHandshake user).run ⟨hs, some ⟨sid, .handshakeReq, buf⟩, calls⟩ = .ok more s) :
    ClientEnds hs sid buf calls more s := by
  rw [clientHandshake_run] at h
  by_cases hshort : buf.length < 13
  · rw [if_pos hshort] at h
    cases h
    exact .waits
  rw [if_neg hshort] at h
  cases blank : memstr (rn ++ rn) buf with
  | none =>
    rw [blank] at h
    cases h
    exact .waits
  | some pos =>
    rw [blank] at h
    dsimp only at h
    cases http : memstr (ascii "HTTP") buf with
    | none =>
      rw [http] at h
      cases h
      exact .rejects _
    | some pos₂ =>
      rw [http] at h
      dsimp only at h
      split_ifs at h with huser
      cases h
      exact .accepts (Nat.not_lt.mp hshort) blank (by rw [http]; exact Option.some_ne_none pos₂)

/-- An `onRecv` that ends in `WS_WAIT_FRAME` has come to the frame loop. -/
theorem onRecv_loopStarts {c c' : WsSession} (h : KeepsReading user) {behind : List UInt8}
    {calls : List WsCall} {fuel n : Nat} {s : WsState}
    (hrun : (onRecv user behind fuel).run ⟨hs, some c, calls⟩ = .ok n s)
    (hc : s.conn = some c') (hphase : c'.userData = .frame) :
    ∃ d, LoopStarts hs c d ∧ (frameRun d).ending = .left c'.readBuffer := by
  obtain ⟨sid, phase, buf⟩ := c
  obtain ⟨more, s₁, hbranch, hrest⟩ := run_bind_inv hrun
  cases phase with
  | frame =>
    rw [onRecv_frame] at hrun
    cases recvFrames_reading h hrun with
    | left hleft =>
      cases hc
      exact ⟨buf, .frame rfl, hleft⟩
    | closed => cases hc
  | handshakeReq =>
    cases clientHandshake_ends hbranch with
    | waits =>
      cases hrest
      cases hc
      cases hphase
    | rejects =>
      cases hrest
      cases hc
    | accepts size blank http =>
      exact ⟨_, .client rfl size blank http, onRecv_left h hbranch hrun hc⟩
  | handshakeWait =>
    cases serverHandshake_ends hbranch with
    | waits =>
      rw [if_pos rfl, run_bind_ok (conn_run ..)] at hrest
      cases hrest
      cases hc
      cases hphase
    | rejects =>
      cases hrest
      cases hc
    | accepts blank accepts =>
      exact ⟨_, .server rfl blank accepts, onRecv_left h hbranch hrun hc⟩

/-- Frames behind which the loop leaves something, with idle user code. -/
theorem recvFrames_leaves (hs : Handshake) (sid : Nat) (calls : List WsCall) {d rest : List UInt8}
    (h : (frameRun d).ending = .left rest) : ∃ fuel s,
      (recvFrames .idle fuel).run ⟨hs, some ⟨sid, .frame, d⟩, calls⟩ = .ok 0 s ∧
        s.conn = some ⟨sid, .frame, rest⟩ := by
  have hends := recvFrames_run hs sid .frame d calls ((frameRun d).messages.length + 1)
  refine ⟨(frameRun d).messages.length + 1, ?_⟩
  generalize (recvFrames .idle _).run ⟨hs, some ⟨sid, .frame, d⟩, calls⟩ = r at hends ⊢
  cases hends with
  | left hleft =>
    rw [h] at hleft
    cases hleft
    exact ⟨_, rfl, rfl⟩
  | closed he | aborted he =>
    rw [h] at he
    cases he
  | fuel he =>
    rw [h] at he
    cases he with
    | inl he => cases he
    | inr he => omega

theorem loopStarts_leaves {c : WsSession} {d rest : List UInt8} (hd : LoopStarts hs c d)
    (hne : d ≠ []) (h : (frameRun d).ending = .left rest) : ∃ fuel s,
      (onRecv .idle [] fuel).run ⟨hs, some c, []⟩ = .ok 0 s ∧
        s.conn = some ⟨c.sessionId, .frame, rest⟩ := by
  obtain ⟨sid, phase, buf⟩ := c
  cases hd with
  | frame hphase =>
    cases hphase
    exact recvFrames_leaves hs sid [] h
  | client hphase size blank http =>
    cases hphase
    obtain ⟨fuel, s, hrun, hs⟩ := recvFrames_leaves hs sid ([] ++ [.onHandShake]) h
    refine ⟨fuel, s, ?_, hs⟩
    rw [onRecv_frames (handshake_http size blank http [] []), if_neg hne, hrun]
  | @server hphase pos blank hs' reply accepts =>
    cases hphase
    obtain ⟨fuel, s, hrun, hs⟩ := recvFrames_leaves hs' sid ([] ++ [.sendTo reply]) h
    refine ⟨fuel, s, ?_, hs⟩
    rw [onRecv_frames (handshake_accepts blank accepts [] []), if_neg hne, hrun]

/-- What an `onRecv` copies of a request it waits for fits, whatever lies behind it. -/
def RequestFits (hs : Handshake) (c : WsSession) : Prop :=
  c.userData = .handshakeWait → ∀ pos, memstr (rn ++ rn) c.readBuffer = some pos →
    ∀ behind, Fits hs (c.readBuffer ++ behind) (pos + 1)

theorem recvFrames_avoids (user : WsUser) (fuel : Nat) (s : WsState) :
    Avoids .outOfBounds s (recvFrames user fuel) := by
  intro s' hrun
  rcases recvFrames_asIdle user fuel s with h | ⟨s₁, h | h⟩
  · rw [h] at hrun
    obtain ⟨hs, conn, calls⟩ := s
    cases conn with
    | none => cases fuel <;> cases hrun
    | some c =>
      have hends := recvFrames_run hs c.sessionId c.userData c.readBuffer calls fuel
      rw [hrun] at hends
      cases hends
  · rw [h] at hrun
    cases hrun
  · rw [h] at hrun
    cases hrun

/-- Of the branches in front of the frames, only that of `WS_WAIT_HANDSHAKE_WAIT` can write out of
bounds. -/
theorem handshake_avoids {c : WsSession} (h : RequestFits hs c) (user : WsUser)
    (behind : List UInt8) (calls : List WsCall) :
    Avoids .outOfBounds ⟨hs, some c, calls⟩ (handshake user behind) := by
  obtain ⟨sid, phase, buf⟩ := c
  cases phase with
  | frame => exact Avoids.of_ok rfl
  | handshakeWait => exact server_fits_iff.2 fun pos hm => h rfl pos hm behind
  | handshakeReq =>
    intro s' hrun
    have hbranch : (handshake user behind).run ⟨hs, some ⟨sid, .handshakeReq, buf⟩, calls⟩ = _ :=
      clientHandshake_run user buf calls
    rw [hbranch] at hrun
    split at hrun
    · cases hrun
    · split at hrun
      · cases hrun
      · split at hrun
        · cases hrun
        · split at hrun <;> cases hrun

theorem onRecv_avoids {behind : List UInt8} {s : WsState}
    (h : Avoids .outOfBounds s (handshake user behind)) (fuel : Nat) :
    Avoids .outOfBounds s (onRecv user behind fuel) := by
  unfold onRecv
  apply h.bind
  intro more s₁ _
  have hconn : Avoids .outOfBounds s₁ conn := by
    obtain ⟨hs, conn, calls⟩ := s₁
    cases conn with
    | none => exact Avoids.of_error rfl (by decide)
    | some c => exact Avoids.of_ok (conn_run ..)
  split
  · apply hconn.bind
    intro c s₂ _
    split
    · exact recvFrames_avoids user fuel s₂
    · exact Avoids.pure 0
  · exact Avoids.pure 0

/-- **Whenever `onRecv` returns with the session open in `WS_WAIT_FRAME`, a proper prefix of one
frame is left in the buffer, and it stays within its blocks, exactly where the loop does not come to
a frame of another opcode behind complete data frames, and what it copies of a request fits.** -/
theorem residue_iff (hs : Handshake) (c : WsSession) :
    LeavesResidue hs c ↔
      RequestFits hs c ∧ ∀ d, LoopStarts hs c d → ¬ UnsupportedAhead d := by
  constructor
  · rintro ⟨hresidue, hbounds⟩
    constructor
    · obtain ⟨sid, phase, buf⟩ := c
      rintro rfl pos hm behind
      have hbranch : Avoids .outOfBounds ⟨hs, some ⟨sid, .handshakeWait, buf⟩, []⟩
          (handshake .idle behind) :=
        fun s' hrun => hbounds .idle behind [] 0 s' (fun _ _ => rfl) (run_bind_error hrun)
      exact server_fits_iff.1 hbranch pos hm
    · rintro d hd ⟨fs, rest, hfs, hun, rfl⟩
      have hleft : (frameRun (fs.flatMap Frame.bytes ++ rest)).ending = .left rest := by
        rw [frameRun_flatMap hfs, frameRun_leave hun.leaves]
      have hne : fs.flatMap Frame.bytes ++ rest ≠ [] := by
        have htwo := hun.plain.two
        intro hnil
        rw [List.append_eq_nil_iff] at hnil
        simp [hnil.2] at htwo
      obtain ⟨fuel, s, hrun, hs⟩ := loopStarts_leaves hd hne hleft
      exact (hresidue .idle [] [] fuel 0 s _ (fun _ _ => rfl) hrun hs rfl).supported hun
  · rintro ⟨hfits, hloop⟩
    constructor
    · intro user behind calls fuel n s c' huser hrun hc hphase
      obtain ⟨d, hd, hleft⟩ := onRecv_loopStarts huser hrun hc hphase
      exact (left_residue_iff d).mpr (hloop d hd) _ hleft
    · intro user behind calls fuel s _
      exact onRecv_avoids (handshake_avoids hfits user behind calls) fuel s

/-- A frame of opcode 3 without payload stays in the buffer, and the text frame behind it. -/
theorem unsupported_frame_stays : ¬ ∀ (hs : Handshake) (c : WsSession), LeavesResidue hs c := by
  intro h
  have hun : Unsupported [0x83, 0x00, 0x81, 0x01, 0x41] :=
    ⟨⟨by decide, by decide, by decide⟩, by decide⟩
  have hstarts : LoopStarts nullHandshake ⟨0, .frame, [0x83, 0x00, 0x81, 0x01, 0x41]⟩ _ :=
    .frame rfl
  obtain ⟨fuel, s, hrun, hs⟩ := loopStarts_leaves hstarts (List.cons_ne_nil _ _)
    (congrArg FrameRun.ending (frameRun_leave hun.leaves))
  exact ((h _ _).residue .idle [] [] fuel 0 s _ (fun _ _ => rfl) hrun hs rfl).supported hun

end WebSocketPoller

end ChainSocket
