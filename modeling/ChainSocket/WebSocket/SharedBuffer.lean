import ChainSocket.WebSocket.RoundTrip

/-!
# One message to several sessions

`sendMsg` called with one buffer on each session of a list. `contents` is what the buffer holds at
each call and `bufferAfter` what it holds behind the last one; the peer of a session decodes the
contents of its own calls (`sendMsgEach_run`).
-/

namespace ChainSocket

/-- `sendMsg`, on a session of which it reads `isConnect`. -/
def sendMsg (isConnect : Bool) (curBuffer : List UInt8) :
    Except Fault (List (List UInt8) × List UInt8) :=
  if isConnect then sendMsg2 curBuffer true else sendMsg2 curBuffer false

/-- `sendMsg` on each session in turn: what goes to which of them, and what is left in
`curBuffer`. -/
def sendMsgEach (isConnect : Nat → Bool) :
    List Nat → List UInt8 → Except Fault (List (Nat × List UInt8) × List UInt8)
  | [], curBuffer => .ok ([], curBuffer)
  | i :: sessions, curBuffer => do
    let (bufs, curBuffer) ← sendMsg (isConnect i) curBuffer
    let (sent, curBuffer) ← sendMsgEach isConnect sessions curBuffer
    return ((i, bufs.flatten) :: sent, curBuffer)

/-- The entries of a log that are about session `i`. -/
def entriesOf (i : Nat) (log : List (Nat × List UInt8)) : List (List UInt8) :=
  (log.filter fun e => e.1 = i).map Prod.snd

theorem entriesOf_cons (i : Nat) (e : Nat × List UInt8) (log : List (Nat × List UInt8)) :
    entriesOf i (e :: log) = if e.1 = i then e.2 :: entriesOf i log else entriesOf i log := by
  unfold entriesOf
  split_ifs with h <;> simp [h]

/-! ## What the buffer holds -/

/-- What one call leaves in the buffer. -/
def remask (isConnect : Bool) (curBuffer : List UInt8) : List UInt8 :=
  if isConnect then mask sendMsg2Key curBuffer else curBuffer

@[simp] theorem length_remask (isConnect : Bool) (curBuffer : List UInt8) :
    (remask isConnect curBuffer).length = curBuffer.length := by
  unfold remask
  split_ifs <;> simp

/-- The buffer at each of the calls. -/
def contents (isConnect : Nat → Bool) : List Nat → List UInt8 → List (Nat × List UInt8)
  | [], _ => []
  | i :: sessions, curBuffer =>
    (i, curBuffer) :: contents isConnect sessions (remask (isConnect i) curBuffer)

def bufferAfter (isConnect : Nat → Bool) : List Nat → List UInt8 → List UInt8
  | [], curBuffer => curBuffer
  | i :: sessions, curBuffer => bufferAfter isConnect sessions (remask (isConnect i) curBuffer)

theorem contents_sessions (isConnect : Nat → Bool) (i : Nat) (sessions : List Nat)
    (curBuffer : List UInt8) :
    (entriesOf i (contents isConnect sessions curBuffer)).length = sessions.count i := by
  induction sessions generalizing curBuffer with
  | nil => rfl
  | cons j sessions ih =>
    rw [contents, entriesOf_cons]
    by_cases h : j = i
    · simp [h, ih]
    · rw [if_neg h, ih, List.count_cons_of_ne h]

theorem sendMsg_frame (isConnect : Bool) {msg : List UInt8} (h : msg.length ≤ 0xFFFF) :
    ∃ bufs, sendMsg isConnect msg = .ok (bufs, remask isConnect msg) ∧
      bufs.flatten = (textFrame (Encoding.key (.sendMsg2 isConnect)) msg h).bytes := by
  have hsame : sendMsg isConnect msg = sendMsg2 msg isConnect := by
    cases isConnect <;> rfl
  have hencode := encode_bytes (.sendMsg2 isConnect) h
  rw [hsame]
  unfold Encoding.encode at hencode
  simp only [sendMsg2, makeFrameHead_text isConnect sendMsg2Key h] at hencode ⊢
  refine ⟨_, rfl, ?_⟩
  simpa [bind, Except.bind, pure, Except.pure] using hencode

/-- Each peer has the contents of its calls on the wire. -/
theorem sendMsgEach_run (isConnect : Nat → Bool) (sessions : List Nat) {msg : List UInt8}
    (h : msg.length ≤ 0xFFFF) : ∃ sent,
      sendMsgEach isConnect sessions msg = .ok (sent, bufferAfter isConnect sessions msg) ∧
      ∀ i, frameRun (entriesOf i sent).flatten =
        ⟨entriesOf i (contents isConnect sessions msg), .left []⟩ := by
  induction sessions generalizing msg with
  | nil => exact ⟨[], rfl, fun _ => frameRun_nil⟩
  | cons j sessions ih =>
    obtain ⟨bufs, hsend, hframe⟩ := sendMsg_frame (isConnect j) h
    have hsize : (remask (isConnect j) msg).length ≤ 0xFFFF := by simpa using h
    obtain ⟨sent, hsent, hruns⟩ := ih hsize
    refine ⟨(j, bufs.flatten) :: sent, ?_, ?_⟩
    · simp only [sendMsgEach, hsend]
      simp only [bind, Except.bind, hsent]
      rfl
    · intro i
      rw [entriesOf_cons, contents, entriesOf_cons]
      split_ifs with hi
      · rw [List.flatten_cons, hframe, frameRun_bytes rfl, hruns]
        rfl
      · exact hruns i

/-! ## Who gets the message -/

theorem mask_fixed {msg : List UInt8} (h : mask sendMsg2Key msg = msg) : msg = [] := by
  cases msg with
  | nil => rfl
  | cons b msg =>
    have hhead : b ^^^ 0x12 = b := by
      have hfirst : (mask sendMsg2Key (b :: msg)).head? = some b := congrArg List.head? h
      have hmasked : (mask sendMsg2Key (b :: msg)).head? = some (b ^^^ 0x12) := by
        simp [mask, sendMsg2Key]
      exact Option.some.inj (hmasked.symm.trans hfirst)
    have hbits : ∀ v : BitVec 8, v ^^^ 0x12#8 ≠ v := by decide
    exact absurd (congrArg UInt8.toBitVec hhead) (hbits b.toBitVec)

/-- Every call finds the message in the buffer, and it is there at the end. -/
theorem contents_same_iff (isConnect : Nat → Bool) (sessions : List Nat) (msg : List UInt8) :
    ((∀ e ∈ contents isConnect sessions msg, e.2 = msg) ∧ bufferAfter isConnect sessions msg = msg) ↔
      msg = [] ∨ ∀ i ∈ sessions, isConnect i = false := by
  induction sessions with
  | nil => simp [contents, bufferAfter]
  | cons i sessions ih =>
    cases hi : isConnect i with
    | false =>
      have hstays : remask (isConnect i) msg = msg := by simp [remask, hi]
      rw [contents, bufferAfter, hstays]
      simpa [hi] using ih
    | true =>
      have hmasks : remask (isConnect i) msg = mask sendMsg2Key msg := by simp [remask, hi]
      rw [contents, bufferAfter, hmasks]
      constructor
      · rintro ⟨hall, hlast⟩
        left
        cases sessions with
        | nil => exact mask_fixed hlast
        | cons j sessions =>
          exact mask_fixed (hall (j, _) (List.mem_cons_of_mem _ List.mem_cons_self))
      · intro h
        have hnil : msg = [] := h.resolve_right fun hall => by simpa [hi] using hall i (by simp)
        subst hnil
        have htail := ih.mpr (.inl rfl)
        simpa [mask] using htail

namespace WebSocketPoller

/-- Every peer decodes the message once for each call on its session, however its bytes are cut,
and the buffer holds the message behind the last call. -/
def Delivers (isConnect : Nat → Bool) (sessions : List Nat) (msg : List UInt8) : Prop :=
  ∃ sent, sendMsgEach isConnect sessions msg = .ok (sent, msg) ∧
    ∀ (i : Nat) (hs : Handshake) (sid : Nat) (chunks : List (List UInt8 × List UInt8)) (fuel : Nat),
      (chunks.map Prod.fst).flatten = (entriesOf i sent).flatten → sessions.count i < fuel →
      (receiveAll .idle fuel chunks).run ⟨hs, some ⟨sid, .frame, []⟩, []⟩ =
        .ok () ⟨hs, some ⟨sid, .frame, []⟩, List.replicate (sessions.count i) (.onReadMsg msg)⟩

/-- What a peer whose bytes decode to `msgs` is handed. -/
theorem receiveAll_decodes {chunks : List (List UInt8 × List UInt8)} {msgs : List (List UInt8)}
    (h : frameRun (chunks.map Prod.fst).flatten = ⟨msgs, .left []⟩) (hs : Handshake) (sid : Nat)
    {fuel : Nat} (hfuel : msgs.length < fuel) :
    (receiveAll .idle fuel chunks).run ⟨hs, some ⟨sid, .frame, []⟩, []⟩ =
      .ok () ⟨hs, some ⟨sid, .frame, []⟩, msgs.map .onReadMsg⟩ := by
  rw [← List.nil_append (List.flatten _)] at h
  simpa using receiveAll_frames hs sid [] frameRun_nil h hfuel

theorem entries_same_iff {log : List (Nat × List UInt8)} {msg : List UInt8} :
    (∀ i, ∀ m ∈ entriesOf i log, m = msg) ↔ ∀ e ∈ log, e.2 = msg := by
  constructor
  · intro h e he
    exact h e.1 e.2 (List.mem_map.mpr ⟨e, by simpa using he, rfl⟩)
  · intro h i m hm
    obtain ⟨e, he, rfl⟩ := List.mem_map.mp hm
    exact h e (List.mem_of_mem_filter he)

/-- **Sent from one buffer, the message reaches every peer and stays in the buffer exactly where it
is empty or no session has connected out.** -/
theorem delivers_iff (isConnect : Nat → Bool) (sessions : List Nat) {msg : List UInt8}
    (hsize : msg.length ≤ 65535) :
    Delivers isConnect sessions msg ↔ msg = [] ∨ ∀ i ∈ sessions, isConnect i = false := by
  rw [← contents_same_iff]
  obtain ⟨sent, hsent, hruns⟩ := sendMsgEach_run isConnect sessions hsize
  have hcount := fun i => contents_sessions isConnect i sessions msg
  constructor
  · rintro ⟨sent', hsent', hpeers⟩
    rw [hsent, Except.ok.injEq, Prod.mk.injEq] at hsent'
    obtain ⟨rfl, hleft⟩ := hsent'
    refine ⟨entries_same_iff.mp fun i => ?_, hleft⟩
    -- all of the peer's bytes in one chunk
    have hcut : (([((entriesOf i sent).flatten, ([] : List UInt8))]).map Prod.fst).flatten =
        (entriesOf i sent).flatten := by simp
    have hdecoded := hpeers i nullHandshake 0 _ (sessions.count i + 1) hcut (by omega)
    have hread := hruns i
    rw [← hcut] at hread
    rw [receiveAll_decodes hread nullHandshake 0 (by rw [hcount]; omega)] at hdecoded
    simp only [EStateM.Result.ok.injEq, WsState.mk.injEq, true_and] at hdecoded
    intro m hm
    have hcall := List.mem_map_of_mem (f := WsCall.onReadMsg) hm
    rw [hdecoded] at hcall
    simpa using (List.eq_of_mem_replicate hcall)
  · rintro ⟨hall, hleft⟩
    refine ⟨sent, by rw [hsent, hleft], fun i hs sid chunks fuel hcut hfuel => ?_⟩
    have hread := hruns i
    rw [← hcut] at hread
    rw [receiveAll_decodes hread hs sid (by rw [hcount]; omega)]
    have hsame : entriesOf i (contents isConnect sessions msg) =
        List.replicate (sessions.count i) msg :=
      List.eq_replicate_iff.mpr ⟨hcount i, entries_same_iff.mpr hall i⟩
    rw [hsame, List.map_replicate]

/-- Two sessions that have been accepted. -/
theorem delivers_two_servers : Delivers (fun _ => false) [3, 4] [0x48, 0x69] :=
  (delivers_iff (fun _ => false) [3, 4] (by decide)).mpr (.inr fun _ _ => rfl)

/-- A session that has connected out, and then one that has not: the second peer gets the message
masked, and the buffer stays so. -/
theorem shared_buffer_masked : ¬ ∀ (isConnect : Nat → Bool) (sessions : List Nat)
    (msg : List UInt8), msg.length ≤ 65535 → Delivers isConnect sessions msg := by
  intro h
  obtain ⟨sent, hsent, -⟩ := h (fun i => i = 0) [0, 1] [0x48, 0x69] (by decide)
  have hleft : sendMsgEach (fun i => i = 0) [0, 1] [0x48, 0x69] =
      .ok ([(0, [0x81, 0x82, 0x12, 0x34, 0x56, 0x78, 0x5a, 0x5d]), (1, [0x81, 0x02, 0x5a, 0x5d])],
        [0x5a, 0x5d]) := by decide +kernel
  rw [hleft, Except.ok.injEq, Prod.mk.injEq] at hsent
  exact absurd hsent.2 (by decide)

end WebSocketPoller

end ChainSocket
