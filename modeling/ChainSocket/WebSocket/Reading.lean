import ChainSocket.Session
import ChainSocket.WebSocket.Residue
import ChainSocket.WebSocket.Storage

/-!
# The readable events of a WebSocket session

`handleReadEvent` and the read branch of the event loop, with the `onRecv` of WebSocketPoller.hpp
over the block of readBuffer.

* `reads_stored`: over every run the block comes to what the list of the bytes received comes to;
* `limit_reached`: what a session holds that the read limit closes.
-/

namespace ChainSocket

open CString Effect

/-- A readable session: what `recv` answers, and the `realloc` of `alloc()`. -/
structure WsReadEvent where
  recv : RecvResult
  mem : Alloc

namespace StoredPoller

/-- `handleReadEvent`, and what it returns. -/
def handleReadEvent (user : WsUser) (fuel : Nat) (e : WsReadEvent) : StoredM Int := do
  let c ← conn
  if c.readBuffer.maxSize < c.readBuffer.size then return -1
  match e.recv with
  | .received [] => return -3
  | .received (byte :: bytes) =>
    let b ← liftExcept (c.readBuffer.write (byte :: bytes))
    let b ← liftExcept (b.alloc e.mem)
    setConn { c with readBuffer := b }
    let _ ← onRecv user fuel
    return 0
  | .eagain => return 0
  | .error => return -4

/-- `EVENT_READ`, in the event loop. -/
def readEvent (user : WsUser) (fuel : Nat) (e : WsReadEvent) : StoredM Unit := do
  match (← get).conn with
  | none => return ()
  | some _ =>
    let ret ← handleReadEvent user fuel e
    match (← get).conn with
    | none => return ()
    | some _ => if ret < 0 then closeSession .readError2

/-- The same in a poller of many sessions, where others have left `e.1` in the record of the
request. -/
def readShared (user : WsUser) (fuel : Nat) (e : Handshake × WsReadEvent) : StoredM Unit := do
  modify fun s => { s with hs := e.1 }
  readEvent user fuel e.2

/-- What is received fits the room that `recv` is told of, `realloc` finds more, and the capacity
it is asked for is an `int`. -/
def Fits (e : Handshake × WsReadEvent) (s : WsStored) : Prop :=
  ∀ c bytes, s.conn = some c → c.readBuffer.size ≤ c.readBuffer.maxSize →
    e.2.recv = .received bytes → bytes ≠ [] →
    MessageBuffer.Fits (.receive e.2.mem bytes) c.readBuffer

end StoredPoller

/-- A session that has just been accepted or connected, with `m` for the limit. -/
def WsConn.create (sessionId : Nat) (userData : WsPhase) (mem : Alloc) (m : Nat) : WsConn :=
  ⟨sessionId, userData, { MessageBuffer.init mem with maxSize := m }⟩

theorem WsConn.create_holds {sessionId : Nat} {userData : WsPhase} {mem : Alloc} {m : Nat}
    (hmem : mem.ok = true) :
    WsConn.Holds m (create sessionId userData mem m) ⟨sessionId, userData, []⟩ := by
  have hinit := MessageBuffer.init_holds hmem
  exact ⟨rfl, rfl, ⟨⟨hinit.wf.null, hinit.wf.block⟩, hinit.block, hinit.data, hinit.roomy⟩, rfl⟩

/-- What a readable event is to a session with a list of bytes, and `m` for the limit. -/
def WebSocketPoller.reads (user : WsUser) (fuel m : Nat) (e : WsReadEvent × List UInt8) :
    WsM Unit := do
  match (← get).conn with
  | none => return ()
  | some c =>
    if m < c.readBuffer.length then closeSession .readError2
    else
      match e.1.recv with
      | .received [] => closeSession .readError2
      | .received (byte :: bytes) => receive user fuel (byte :: bytes) e.2
      | .eagain => return ()
      | .error => closeSession .readError2

def WebSocketPoller.readsShared (user : WsUser) (fuel m : Nat)
    (e : (Handshake × WsReadEvent) × List UInt8) : WsM Unit := do
  modify fun s => { s with hs := e.1.1 }
  reads user fuel m (e.1.2, e.2)

namespace StoredPoller

variable {m fuel : Nat} {user : WsUser}

/-- A session that is closed for what `handleReadEvent` returns. -/
theorem readEvent_closes {e : WsReadEvent} {s : WsStored} {t : WsState} {ret : Int}
    (hst : Stores m s t) {c : WsConn} (hopen : s.conn = some c) (hret : ret < 0)
    (h : (handleReadEvent user fuel e).run s = .ok ret s) :
    Alike (Same (Stores m)) ((readEvent user fuel e).run s)
      ((WebSocketPoller.closeSession .readError2).run t) := by
  have hrun : (readEvent user fuel e).run s = (closeSession .readError2).run s := by
    unfold readEvent
    rw [run_bind_ok (run_get s), hopen]
    dsimp only
    rw [run_bind_ok h, run_bind_ok (run_get s), hopen]
    dsimp only
    rw [if_pos hret]
  rw [hrun]
  exact closeSession_mirrors .readError2 s t hst

theorem handleReadEvent_full {e : WsReadEvent} {hs : Handshake} {c : WsConn} {calls : List WsCall}
    (h : c.readBuffer.maxSize < c.readBuffer.size) :
    (handleReadEvent user fuel e).run ⟨hs, some c, calls⟩ = .ok (-1) ⟨hs, some c, calls⟩ := by
  have hconn : conn.run ⟨hs, some c, calls⟩ = .ok c ⟨hs, some c, calls⟩ := rfl
  unfold handleReadEvent
  rw [run_bind_ok hconn, if_pos h]
  rfl

theorem handleReadEvent_run {e : WsReadEvent} {hs : Handshake} {c : WsConn} {calls : List WsCall}
    (h : c.readBuffer.size ≤ c.readBuffer.maxSize) :
    (handleReadEvent user fuel e).run ⟨hs, some c, calls⟩ =
      match e.recv with
      | .received [] => .ok (-3) ⟨hs, some c, calls⟩
      | .received (byte :: bytes) =>
        (do
          let b ← liftExcept (c.readBuffer.write (byte :: bytes))
          let b ← liftExcept (b.alloc e.mem)
          setConn { c with readBuffer := b }
          let _ ← onRecv user fuel
          return 0 : StoredM Int).run ⟨hs, some c, calls⟩
      | .eagain => .ok 0 ⟨hs, some c, calls⟩
      | .error => .ok (-4) ⟨hs, some c, calls⟩ := by
  have hconn : conn.run ⟨hs, some c, calls⟩ = .ok c ⟨hs, some c, calls⟩ := rfl
  unfold handleReadEvent
  rw [run_bind_ok hconn, if_neg (Nat.not_lt.mpr h)]
  split <;> rfl

/-- The bytes go in, and `onRecv` sees the memory behind them. -/
theorem receive_mirrors {hs : Handshake} {calls : List WsCall} {c : WsConn} {c' : WsSession}
    {bytes : List UInt8} {b : MessageBuffer} (h : c.Holds m c')
    (hb : b.Holds (c'.readBuffer ++ bytes)) (hmax : b.maxSize = c.readBuffer.maxSize) :
    Alike (Same (Stores m))
      ((do let _ ← onRecv user fuel : StoredM Unit).run
        ⟨hs, some { c with readBuffer := b }, calls⟩)
      ((do let _ ← WebSocketPoller.onRecv user b.behind fuel : WsM Unit).run
        ⟨hs, some { c' with readBuffer := c'.readBuffer ++ bytes }, calls⟩) := by
  have hmirrors : Mirrors (Ahead m b.behind) (do let _ ← onRecv user fuel : StoredM Unit)
      (do let _ ← WebSocketPoller.onRecv user b.behind fuel : WsM Unit) (Same (Stores m)) :=
    (onRecv_mirrors user b.behind fuel).bind_same fun _ => Mirrors.pure fun _ _ h => ⟨rfl, h⟩
  apply hmirrors
  refine ⟨.opened (h.rewritten hb hmax), fun d hd => ?_⟩
  cases hd
  rfl

theorem readEvent_receives {e : WsReadEvent} {hs : Handshake} {c : WsConn} {calls : List WsCall}
    {byte : UInt8} {bytes : List UInt8} {b₁ b : MessageBuffer}
    (hroom : c.readBuffer.size ≤ c.readBuffer.maxSize)
    (hrecv : e.recv = .received (byte :: bytes))
    (hwrite : c.readBuffer.write (byte :: bytes) = .ok b₁) (halloc : b₁.alloc e.mem = .ok b) :
    (readEvent user fuel e).run ⟨hs, some c, calls⟩ =
      (do let _ ← onRecv user fuel : StoredM Unit).run
        ⟨hs, some { c with readBuffer := b }, calls⟩ := by
  have hhandle : (handleReadEvent user fuel e).run ⟨hs, some c, calls⟩ =
      (do
        let _ ← onRecv user fuel
        return 0 : StoredM Int).run ⟨hs, some { c with readBuffer := b }, calls⟩ := by
    rw [handleReadEvent_run hroom, hrecv]
    dsimp only
    simp only [hwrite, halloc, liftExcept, pure_bind]
    rfl
  unfold readEvent
  rw [run_bind_ok (run_get _)]
  dsimp only
  cases hon : (onRecv user fuel).run ⟨hs, some { c with readBuffer := b }, calls⟩ with
  | error fault s =>
    rw [run_bind_error hon] at hhandle ⊢
    rw [run_bind_error hhandle]
  | ok n s =>
    rw [run_bind_ok hon] at hhandle ⊢
    rw [run_bind_ok hhandle, run_bind_ok (run_get _)]
    cases s.conn <;> rfl

theorem reads_receives {e : WsReadEvent} {hs : Handshake} {c' : WsSession} {calls : List WsCall}
    {byte : UInt8} {bytes : List UInt8} (hroom : ¬ m < c'.readBuffer.length)
    (hrecv : e.recv = .received (byte :: bytes)) (behind : List UInt8) :
    (WebSocketPoller.reads user fuel m (e, behind)).run ⟨hs, some c', calls⟩ =
      (do let _ ← WebSocketPoller.onRecv user behind fuel : WsM Unit).run
        ⟨hs, some { c' with readBuffer := c'.readBuffer ++ byte :: bytes }, calls⟩ := by
  unfold WebSocketPoller.reads
  rw [run_bind_ok (run_get _)]
  dsimp only
  rw [if_neg hroom, hrecv]
  rfl

theorem readEvent_reads {e : WsReadEvent} {s : WsStored} {t : WsState} (hst : Stores m s t)
    {hs' : Handshake} (hfits : Fits (hs', e) s) :
    ∃ behind, Alike (Same (Stores m)) ((readEvent user fuel e).run s)
      ((WebSocketPoller.reads user fuel m (e, behind)).run t) := by
  cases hst with
  | closed => exact ⟨[], .ok ⟨rfl, .closed⟩⟩
  | @opened hs calls c c' holds =>
    have hst : Stores m ⟨hs, some c, calls⟩ ⟨hs, some c', calls⟩ := .opened holds
    have hreads : ∀ behind, (WebSocketPoller.reads user fuel m (e, behind)).run
        ⟨hs, some c', calls⟩ =
        (if m < c'.readBuffer.length then WebSocketPoller.closeSession .readError2
        else
          match e.recv with
          | .received [] => WebSocketPoller.closeSession .readError2
          | .received (byte :: bytes) =>
            WebSocketPoller.receive user fuel (byte :: bytes) behind
          | .eagain => return ()
          | .error => WebSocketPoller.closeSession .readError2).run ⟨hs, some c', calls⟩ :=
      fun _ => rfl
    by_cases hfull : m < c'.readBuffer.length
    · refine ⟨[], ?_⟩
      rw [hreads, if_pos hfull]
      have hlimit : c.readBuffer.maxSize < c.readBuffer.size := by
        rw [holds.limit, holds.size]
        exact hfull
      exact readEvent_closes hst rfl (by decide) (handleReadEvent_full hlimit)
    have hroom : c.readBuffer.size ≤ c.readBuffer.maxSize := by
      rw [holds.limit, holds.size]
      exact Nat.not_lt.mp hfull
    have hhandle : (handleReadEvent user fuel e).run ⟨hs, some c, calls⟩ = _ :=
      handleReadEvent_run hroom
    simp only [if_neg hfull] at hreads
    cases hrecv : e.recv with
    | eagain =>
      rw [hrecv] at hhandle hreads
      refine ⟨[], ?_⟩
      have hrun : (readEvent user fuel e).run ⟨hs, some c, calls⟩ =
          .ok () ⟨hs, some c, calls⟩ := by
        unfold readEvent
        rw [run_bind_ok (run_get _)]
        dsimp only
        rw [run_bind_ok hhandle]
        rfl
      rw [hreads, hrun]
      exact .ok ⟨rfl, hst⟩
    | error =>
      rw [hrecv] at hhandle hreads
      refine ⟨[], ?_⟩
      rw [hreads]
      exact readEvent_closes hst rfl (by decide) hhandle
    | received bytes =>
      cases bytes with
      | nil =>
        rw [hrecv] at hhandle hreads
        refine ⟨[], ?_⟩
        rw [hreads]
        exact readEvent_closes hst rfl (by decide) hhandle
      | cons byte bytes =>
        have hfits := hfits c _ rfl hroom hrecv (List.cons_ne_nil _ _)
        have hmem : e.mem.ok = true := hfits.1
        obtain ⟨b₁, b, hwrite, halloc, hb⟩ := MessageBuffer.receive_fits holds.buffer hfits
        have hmax : b.maxSize = c.readBuffer.maxSize := by
          obtain ⟨hw, -, -, -, hmax₁⟩ := MessageBuffer.write_ok holds.buffer.wf hwrite
          obtain ⟨-, -, -, hmax₂⟩ := MessageBuffer.alloc_ok hw hmem halloc
          exact hmax₂.trans hmax₁
        refine ⟨b.behind, ?_⟩
        rw [readEvent_receives hroom hrecv hwrite halloc, reads_receives hfull hrecv]
        exact receive_mirrors holds hb hmax

theorem readShared_reads {e : Handshake × WsReadEvent} {s : WsStored} {t : WsState}
    (hst : Stores m s t) (hfits : Fits e s) :
    ∃ behind, Alike (Same (Stores m)) ((readShared user fuel e).run s)
      ((WebSocketPoller.readsShared user fuel m (e, behind)).run t) := by
  have hshared : Stores m { s with hs := e.1 } { t with hs := e.1 } := by
    cases hst with
    | opened holds => exact .opened holds
    | closed => exact .closed
  exact readEvent_reads hshared hfits

/-- Whatever `recv` answers first fits. -/
theorem create_admits {hs : Handshake} {sessionId : Nat} {userData : WsPhase} {mem mem' : Alloc}
    {calls : List WsCall} {bytes : List UInt8} (hlen : bytes.length ≤ bufferSize)
    (hmem : mem'.ok = true) {hs' : Handshake} : Admits (readShared user fuel) Fits
      ⟨hs, some (.create sessionId userData mem m), calls⟩ [(hs', ⟨.received bytes, mem'⟩)] := by
  refine ⟨fun c received hc _ hrecv _ => ?_, fun _ _ => trivial⟩
  cases hc
  cases hrecv
  refine ⟨hmem, ?_, fun _ => ?_⟩
  · change 0 + bytes.length ≤ bufferSize
    omega
  · change MessageBuffer.roundUp (0 + bytes.length) ≤ intMax
    unfold MessageBuffer.roundUp intMax
    unfold bufferSize at hlen ⊢
    omega

/-- **Over whole runs, `onRecv` on the block that `recv` fills and `alloc()` moves does what it does
on the list of the bytes: the same calls, the same bytes left, and no other failure.** -/
theorem reads_stored {s : WsStored} {t : WsState} {es : List (Handshake × WsReadEvent)}
    (hst : Stores m s t) (hfits : Admits (readShared user fuel) Fits s es) :
    ∃ behind : List (List UInt8), behind.length = es.length ∧ Alike (Same (Stores m))
      ((steps (readShared user fuel) es).run s)
      ((steps (WebSocketPoller.readsShared user fuel m) (es.zip behind)).run t) :=
  steps_alike (fun _ _ _ => readShared_reads) hst hfits

/-- A text frame comes in. -/
theorem reads_stored_text : ∃ behind : List (List UInt8), behind.length = 1 ∧
    Alike (Same (Stores bufferMaxSize))
      ((steps (readShared .idle 3)
        [(nullHandshake, ⟨.received [0x81, 0x01, 0x41], ⟨true, fun _ => 0⟩⟩)]).run
        ⟨nullHandshake, some (.create 1 .frame ⟨true, fun _ => 0⟩ bufferMaxSize), []⟩)
      ((steps (WebSocketPoller.readsShared .idle 3 bufferMaxSize)
        ([(nullHandshake, ⟨.received [0x81, 0x01, 0x41], ⟨true, fun _ => 0⟩⟩)].zip behind)).run
        ⟨nullHandshake, some ⟨1, .frame, []⟩, []⟩) :=
  reads_stored (.opened (WsConn.create_holds rfl)) (create_admits (by decide) rfl)

end StoredPoller

/-! ## The read limit -/

namespace WebSocketPoller

variable {user : WsUser}

/-- Everywhere, failures aside. -/
abbrev Returns {α : Type} (P : WsState → Prop) (m : WsM α) (Q : α → WsState → Prop) : Prop :=
  Triple (fun _ => True) P m Q

/-- What a session waits for when `onRecv` has returned: the blank line, or the rest of a frame. -/
def Stands (c : WsSession) : Prop :=
  match c.userData with
  | .handshakeWait => memstr (rn ++ rn) c.readBuffer = none
  | .handshakeReq => c.readBuffer.length < 13 ∨ memstr (rn ++ rn) c.readBuffer = none
  | .frame => frameStep c.readBuffer = .leave

def Standing (s : WsState) : Prop := ∀ c, s.conn = some c → Stands c

/-- An open session has its handshake behind it. -/
def Framing (s : WsState) : Prop := ∀ c, s.conn = some c → c.userData = .frame

/-- With what the loop leaves at `parseSize`. -/
def Left (parseSize : Nat) (s : WsState) : Prop :=
  Framing s ∧ ∀ c, s.conn = some c → frameStep (c.readBuffer.drop parseSize) = .leave

theorem conn_returns {P : WsState → Prop} :
    Returns P conn fun c s => P s ∧ s.conn = some c := by
  apply Triple.of_ok
  intro s c s' hP hrun
  obtain ⟨hs, conn₀, calls⟩ := s
  cases conn₀ with
  | none => cases hrun
  | some c₀ =>
    cases hrun
    exact ⟨hP, rfl⟩

theorem closeSession_returns {P : WsState → Prop} (type : CloseType) :
    Returns P (closeSession type) fun _ s => s.conn = none := by
  apply Triple.of_ok
  intro s a s' _ hrun
  obtain ⟨hs, conn₀, calls⟩ := s
  cases conn₀ with
  | none => cases hrun
  | some c =>
    cases hrun
    rfl

theorem callback_framing (c : WsCall) :
    Returns Framing (callback user c) fun _ => Framing := by
  apply Triple.of_ok
  intro s a s' hP hrun
  unfold callback at hrun
  obtain ⟨_, s₁, hcall, hrest⟩ := run_bind_inv hrun
  cases hcall
  rw [run_bind_ok (run_get _)] at hrest
  split_ifs at hrest
  · cases hrest
    exact nofun
  · cases hrest
    exact hP

theorem writeBack_framing (offset : Nat) (payload : List UInt8) :
    Returns Framing (writeBack offset payload) fun _ => Framing := by
  apply conn_returns.bind
  intro c
  apply Triple.modify
  rintro s ⟨hP, hc⟩ d hd
  cases hd
  exact hP c hc

theorem frameIteration_returns (parseSize : Nat) :
    Returns Framing (frameIteration user parseSize) fun i s =>
      match i with
      | .leave => Left parseSize s
      | .returned => s.conn = none
      | .next _ => Framing s := by
  apply conn_returns.bind
  intro c
  cases hstep : frameStep (c.readBuffer.drop parseSize) with
  | leave =>
    apply Triple.pure
    rintro s ⟨hP, hc⟩
    refine ⟨hP, fun d hd => ?_⟩
    rw [hc] at hd
    cases hd
    exact hstep
  | close type =>
    apply (closeSession_returns type).bind
    intro _
    exact Triple.pure fun _ h => h
  | abort =>
    apply Triple.of_ok
    intro s a s' _ hrun
    cases hrun
  | data headerSize payload =>
    apply ((writeBack_framing _ _).pre fun _ h => h.1).bind
    intro _
    apply (callback_framing _).bind
    intro _
    exact Triple.pure fun _ h => h
  | control headerSize payload =>
    apply ((writeBack_framing _ _).pre fun _ h => h.1).bind
    intro _
    exact Triple.pure fun _ h => h

theorem frameLoop_returns (fuel parseSize : Nat) :
    Returns Framing (frameLoop user fuel parseSize) fun r s =>
      match r with
      | none => s.conn = none
      | some parseSize => Left parseSize s := by
  induction fuel generalizing parseSize with
  | zero =>
    apply Triple.of_ok
    intro s a s' _ hrun
    cases hrun
  | succ fuel ih =>
    apply (frameIteration_returns parseSize).bind
    intro i
    cases i with
    | leave => exact Triple.pure fun _ h => h
    | returned => exact Triple.pure fun _ h => h
    | next parseSize => exact ih parseSize

theorem recvFrames_returns (fuel : Nat) :
    Returns Framing (recvFrames user fuel) fun _ => Standing := by
  apply (frameLoop_returns fuel 0).bind
  intro r
  cases r with
  | none =>
    apply Triple.pure
    intro s hclosed c hc
    rw [hclosed] at hc
    cases hc
  | some parseSize =>
    have herase : Returns (Left parseSize) (erase parseSize) fun _ => Standing := by
      apply conn_returns.bind
      intro c
      apply Triple.modify
      rintro s ⟨⟨hP, hleft⟩, hc⟩ d hd
      cases hd
      unfold Stands
      rw [hP c hc]
      exact hleft c hc
    apply herase.bind
    intro _
    exact Triple.pure fun _ h => h

/-- Whether the branches in front of the frames go on to them, and what they leave. -/
theorem handshake_returns (behind : List UInt8) :
    Returns (fun _ => True) (handshake user behind) fun more s =>
      if more then ∀ c, s.conn = some c → c.userData = .frame ∨ Stands c
      else Standing s := by
  apply Triple.of_ok
  intro s more s' _ hrun
  obtain ⟨hs, conn₀, calls⟩ := s
  cases conn₀ with
  | none => cases hrun
  | some c =>
    obtain ⟨sid, phase, buf⟩ := c
    have hempty : ∀ c : WsSession, c.userData = .frame → c.readBuffer = [] → Stands c := by
      intro c hphase hnil
      unfold Stands
      rw [hphase, hnil]
      rfl
    cases phase with
    | frame =>
      cases hrun
      intro c hc
      cases hc
      exact .inl rfl
    | handshakeWait =>
      cases serverHandshake_ends hrun with
      | waits blank =>
        intro c hc
        cases hc
        exact .inr blank
      | rejects => exact nofun
      | accepts blank accepts =>
        split_ifs with hmore
        · intro c hc
          cases hc
          exact .inl rfl
        · intro c hc
          cases hc
          exact hempty _ rfl (by simpa using hmore)
    | handshakeReq =>
      have hrun : (clientHandshake user).run ⟨hs, some ⟨sid, .handshakeReq, buf⟩, calls⟩ =
          .ok more s' := hrun
      have hwaits : buf.length < 13 ∨ memstr (rn ++ rn) buf = none →
          Standing ⟨hs, some ⟨sid, .handshakeReq, buf⟩, calls⟩ := by
        intro h c hc
        cases hc
        exact h
      rw [clientHandshake_run] at hrun
      by_cases hshort : buf.length < 13
      · rw [if_pos hshort] at hrun
        cases hrun
        exact hwaits (.inl hshort)
      rw [if_neg hshort] at hrun
      cases hblank : memstr (rn ++ rn) buf with
      | none =>
        rw [hblank] at hrun
        cases hrun
        exact hwaits (.inr hblank)
      | some pos =>
        rw [hblank] at hrun
        dsimp only at hrun
        cases hhttp : memstr (ascii "HTTP") buf with
        | none =>
          rw [hhttp] at hrun
          cases hrun
          exact nofun
        | some pos₂ =>
          rw [hhttp] at hrun
          dsimp only at hrun
          split_ifs at hrun
          cases hrun
          split_ifs with hmore
          · intro c hc
            cases hc
            exact .inl rfl
          · intro c hc
            cases hc
            exact hempty _ rfl (by simpa using hmore)

theorem onRecv_returns (behind : List UInt8) (fuel : Nat) :
    Returns (fun _ => True) (onRecv user behind fuel) fun _ => Standing := by
  apply (handshake_returns behind).bind
  intro more
  cases more with
  | false => exact Triple.pure fun _ h => h
  | true =>
    simp only [if_true]
    apply conn_returns.bind
    intro c
    split_ifs with hphase
    · apply (recvFrames_returns fuel).pre
      rintro s ⟨-, hc⟩ d hd
      rw [hc] at hd
      cases hd
      exact hphase
    · apply Triple.pure
      rintro s ⟨hP, hc⟩ d hd
      rw [hc] at hd
      cases hd
      exact (hP c hc).resolve_left hphase

theorem reads_returns {m : Nat} (fuel : Nat) (e : WsReadEvent × List UInt8) :
    Returns Standing (reads user fuel m e) fun _ => Standing := by
  have hclose : ∀ s₀, Returns (· = s₀) (closeSession .readError2) fun _ => Standing := by
    intro s₀
    apply (closeSession_returns .readError2).mono fun _ h => h
    intro _ s hnone c hc
    rw [hnone] at hc
    cases hc
  apply Triple.get_bind
  intro s hstanding
  cases s.conn with
  | none => exact Triple.pure fun _ h => h ▸ hstanding
  | some c =>
    dsimp only
    split_ifs
    · exact hclose s
    · cases e.1.recv with
      | eagain => exact Triple.pure fun _ h => h ▸ hstanding
      | error => exact hclose s
      | received bytes =>
        cases bytes with
        | nil => exact hclose s
        | cons byte bytes =>
          have hreceive : Returns (· = s) (receive user fuel (byte :: bytes) e.2)
              fun _ => Standing := by
            apply Triple.get_bind
            rintro s' rfl
            cases s'.conn with
            | none => exact Triple.pure fun _ h => h ▸ hstanding
            | some c =>
              have hset : Returns (· = s') (setConn { c with
                  readBuffer := c.readBuffer ++ byte :: bytes }) fun _ _ => True :=
                Triple.modify fun _ _ => trivial
              apply hset.bind
              intro _
              apply (onRecv_returns e.2 fuel).bind
              intro _
              exact Triple.pure fun _ h => h
          exact hreceive

theorem readsShared_returns {m : Nat} (fuel : Nat) (e : (Handshake × WsReadEvent) × List UInt8) :
    Returns Standing (readsShared user fuel m e) fun _ => Standing := by
  have hmodify : Returns Standing (modify fun s => { s with hs := e.1.1 }) fun _ => Standing :=
    Triple.modify fun _ h => h
  exact hmodify.bind fun _ => reads_returns fuel _

theorem standing_start (hs : Handshake) (sid : Nat) (phase : WsPhase) (calls : List WsCall) :
    Standing ⟨hs, some ⟨sid, phase, []⟩, calls⟩ := by
  intro c hc
  cases hc
  cases phase with
  | handshakeWait => exact rfl
  | handshakeReq => exact .inr rfl
  | frame => exact rfl

end WebSocketPoller

/-- A start of one frame is shorter than the longest frame with a 16-bit length. -/
theorem Residue.length_lt {s : List UInt8} (h : Residue s) : s.length < 65543 := by
  have hheader : (frameHead s).headerSize ≤ 16 := by
    simp only [frameHead]
    split_ifs <;> omega
  cases h with
  | short h => omega
  | header _ _ h => omega
  | payload _ _ known h =>
    have hshort : (frameHead s).headerSize ≤ 8 := by
      simp only [frameHead] at known ⊢
      rw [if_neg known]
      split_ifs <;> omega
    have hn : (frameHead s).n ≤ 65535 := by
      simp only [frameHead]
      have := (s.getD 1 0 &&& 0x7f).toNat_lt
      have := (s.getD 2 0).toNat_lt
      have := (s.getD 3 0).toNat_lt
      split_ifs <;> omega
    omega

theorem WebSocketPoller.Stands.beyond {c : WsSession} (h : Stands c)
    (hlong : 65543 ≤ c.readBuffer.length) :
    c.userData ≠ .frame ∧ memstr (rn ++ rn) c.readBuffer = none ∨
      c.userData = .frame ∧ Unsupported c.readBuffer := by
  unfold Stands at h
  cases hphase : c.userData with
  | handshakeWait =>
    rw [hphase] at h
    exact .inl ⟨nofun, h⟩
  | handshakeReq =>
    rw [hphase] at h
    exact .inl ⟨nofun, h.resolve_left (by omega)⟩
  | frame =>
    rw [hphase] at h
    cases frameStep_leave_iff.mp h with
    | inl hresidue => exact absurd hresidue.length_lt (by omega)
    | inr hunsupported => exact .inr ⟨rfl, hunsupported⟩

namespace StoredPoller

/-- **The read limit only ever closes a session with more bytes than the limit and no blank line in
them, or one whose buffer starts with a frame that the loop does not support.** -/
theorem limit_reached {user : WsUser} {fuel m : Nat} (hm : 65543 ≤ m) {hs : Handshake}
    {sessionId : Nat} {userData : WsPhase} {mem : Alloc} (hmem : mem.ok = true)
    {calls : List WsCall} {es : List (Handshake × WsReadEvent)} {s : WsStored} {c : WsConn}
    (hfits : Admits (readShared user fuel) Fits
      ⟨hs, some (.create sessionId userData mem m), calls⟩ es)
    (hrun : (steps (readShared user fuel) es).run
      ⟨hs, some (.create sessionId userData mem m), calls⟩ = .ok () s)
    (hopen : s.conn = some c) : c.readBuffer.size ≤ c.readBuffer.maxSize ∨
      c.userData ≠ .frame ∧ WebSocketPoller.memstr (rn ++ rn) c.readBuffer.data = none ∨
      c.userData = .frame ∧ Unsupported c.readBuffer.data := by
  by_cases hfull : c.readBuffer.size ≤ c.readBuffer.maxSize
  · exact .inl hfull
  right
  have hstart : Stores m ⟨hs, some (.create sessionId userData mem m), calls⟩
      ⟨hs, some ⟨sessionId, userData, []⟩, calls⟩ := .opened (WsConn.create_holds hmem)
  obtain ⟨behind, -, halike⟩ := steps_alike (fun _ _ _ => readShared_reads) hstart hfits
  rw [hrun] at halike
  generalize hlist : (steps (WebSocketPoller.readsShared user fuel m) (es.zip behind)).run
    ⟨hs, some ⟨sessionId, userData, []⟩, calls⟩ = r at halike
  cases halike with
  | @ok _ _ _ t related =>
    have hstanding : WebSocketPoller.Standing t :=
      (Triple.steps (WebSocketPoller.readsShared_returns fuel) (es.zip behind)).ok _ _ _
        (WebSocketPoller.standing_start hs sessionId userData calls) hlist
    obtain ⟨hs', conn, calls'⟩ := s
    cases hopen
    cases related.2 with
    | @opened _ _ _ c' holds =>
      have hstands := hstanding c' rfl
      rw [holds.limit, holds.size] at hfull
      rw [holds.userData, holds.buffer.data]
      exact hstands.beyond (by omega)

/-- 1024 bytes from the first of a frame of opcode 3 on. -/
def fillerChunk : List UInt8 := 0x83 :: List.replicate 1023 0

def fillerEvent : Handshake × WsReadEvent :=
  (nullHandshake, ⟨.received fillerChunk, ⟨true, fun _ => 0⟩⟩)

/-- A session in which `n` of these have come in. -/
def filled (n : Nat) : WsSession := ⟨1, .frame, (List.replicate n fillerChunk).flatten⟩

theorem length_fillerChunk : fillerChunk.length = 1024 := by
  rw [fillerChunk, List.length_cons, List.length_replicate]

theorem length_filled (n : Nat) : (filled n).readBuffer.length = 1024 * n := by
  rw [filled, List.length_flatten, List.map_replicate, List.sum_replicate_nat, length_fillerChunk,
    Nat.mul_comm]

theorem filled_succ (n : Nat) :
    (filled n).readBuffer ++ fillerChunk = (filled (n + 1)).readBuffer := by
  rw [filled, filled, List.replicate_succ', List.flatten_append, List.flatten_singleton]

theorem filled_unsupported (n : Nat) : Unsupported (filled (n + 1)).readBuffer := by
  obtain ⟨t, ht⟩ : ∃ t, (filled (n + 1)).readBuffer = 0x83 :: 0x00 :: t := ⟨_, rfl⟩
  have hfirst : (0x83 : UInt8) &&& 0x70 = 0 ∧ (0x83 : UInt8) &&& 0x80 = 0x80 ∧
      (0x83 : UInt8) &&& 0x0F ∉ handledOpcodes := by
    decide
  rw [ht]
  exact ⟨⟨by simp, hfirst.1, hfirst.2.1⟩, hfirst.2.2⟩

/-- The loop leaves what has come in. -/
theorem filled_onRecv (calls : List WsCall) (n : Nat) (behind : List UInt8) :
    (WebSocketPoller.onRecv .idle behind 2).run ⟨nullHandshake, some (filled (n + 1)), calls⟩ =
      .ok 0 ⟨nullHandshake, some (filled (n + 1)), calls⟩ := by
  have hends := WebSocketPoller.recvFrames_run nullHandshake 1 .frame (filled (n + 1)).readBuffer
    calls 2
  rw [frameRun_leave (filled_unsupported n).leaves] at hends
  have hrun : (WebSocketPoller.onRecv .idle behind 2).run
      ⟨nullHandshake, some (filled (n + 1)), calls⟩ = _ :=
    WebSocketPoller.onRecv_frame .idle behind 2 (filled (n + 1)).readBuffer calls
  rw [hrun]
  generalize (WebSocketPoller.recvFrames .idle 2).run _ = r at hends ⊢
  cases hends with
  | left h =>
    cases h
    simp [filled]
  | closed h | aborted h => cases h
  | fuel h => simp at h

theorem filled_reads {m : Nat} (hs : Handshake) (calls : List WsCall) {n : Nat} (hn : 1024 * n ≤ m)
    (behind : List UInt8) :
    (WebSocketPoller.readsShared .idle 2 m (fillerEvent, behind)).run
      ⟨hs, some (filled n), calls⟩ =
        .ok () ⟨nullHandshake, some (filled (n + 1)), calls⟩ := by
  have hreads : (WebSocketPoller.reads .idle 2 m (fillerEvent.2, behind)).run
      ⟨nullHandshake, some (filled n), calls⟩ = _ :=
    reads_receives (by rw [length_filled]; omega) rfl behind
  have hbuffer : (filled n).readBuffer ++ 0x83 :: List.replicate 1023 0 =
      (filled (n + 1)).readBuffer := filled_succ n
  change (WebSocketPoller.reads .idle 2 m (fillerEvent.2, behind)).run
    ⟨nullHandshake, some (filled n), calls⟩ = _
  rw [hreads, hbuffer]
  exact run_bind_ok (filled_onRecv calls n behind)

theorem filler_fits {m : Nat} {hs : Handshake} {calls : List WsCall} {c : WsConn} {n : Nat}
    (hc : c.Holds m (filled n)) (hn : n < 1024) : Fits fillerEvent ⟨hs, some c, calls⟩ := by
  intro c' bytes hopen _ hrecv _
  cases hopen
  cases hrecv
  have hsize : c.readBuffer.size = 1024 * n := by rw [hc.size, length_filled]
  have hroomy : c.readBuffer.size + bufferSize ≤ c.readBuffer.capacity := hc.buffer.roomy
  refine ⟨rfl, ?_, fun _ => ?_⟩
  · rw [length_fillerChunk]
    exact hroomy
  · rw [length_fillerChunk, hsize]
    unfold MessageBuffer.roundUp intMax bufferSize
    omega

/-- As many come in as the limit lets in, and one more. -/
theorem filler_run {m : Nat} (k : Nat) : ∀ {n : Nat} {hs : Handshake} {calls : List WsCall}
    {c : WsConn}, c.Holds m (filled n) → n + k ≤ 1024 → 1024 * (n + k) ≤ m + 1024 →
    Admits (readShared .idle 2) Fits ⟨hs, some c, calls⟩ (List.replicate k fillerEvent) ∧
      ∃ hs' d, (steps (readShared .idle 2) (List.replicate k fillerEvent)).run
        ⟨hs, some c, calls⟩ = .ok () ⟨hs', some d, calls⟩ ∧ d.Holds m (filled (n + k)) := by
  induction k with
  | zero =>
    intro n hs calls c hc _ _
    exact ⟨trivial, hs, c, rfl, hc⟩
  | succ k ih =>
    intro n hs calls c hc hsmall hlimit
    have hcount : n + 1 + k = n + (k + 1) := by omega
    have hroom : 1024 * n ≤ m := by omega
    have hfits : Fits fillerEvent ⟨hs, some c, calls⟩ := filler_fits hc (by omega)
    obtain ⟨behind, halike⟩ := readShared_reads (.opened hc) hfits
    rw [filled_reads hs calls hroom behind] at halike
    generalize hstep : (readShared .idle 2 fillerEvent).run ⟨hs, some c, calls⟩ = r at halike
    cases halike with
    | ok related =>
      cases related.2 with
      | opened holds =>
        obtain ⟨hadmits, hs', d, hrun, hd⟩ := ih holds (hcount ▸ hsmall) (hcount ▸ hlimit)
        rw [hcount] at hd
        rw [List.replicate_succ]
        refine ⟨⟨hfits, fun s' hs' => ?_⟩, hs', d, ?_, hd⟩
        · rw [hstep] at hs'
          cases hs'
          exact hadmits
        · exact (run_bind_ok hstep).trans hrun

/-- 65 KiB that the loop leaves, with a limit below them. -/
theorem limit_reached_unsupported : ∃ s c,
    (steps (readShared .idle 2) (List.replicate 65 fillerEvent)).run
      ⟨nullHandshake, some (.create 1 .frame ⟨true, fun _ => 0⟩ 65543), []⟩ = .ok () s ∧
    s.conn = some c ∧ c.readBuffer.maxSize < c.readBuffer.size ∧
    (c.readBuffer.size ≤ c.readBuffer.maxSize ∨
      c.userData ≠ .frame ∧ WebSocketPoller.memstr (rn ++ rn) c.readBuffer.data = none ∨
      c.userData = .frame ∧ Unsupported c.readBuffer.data) := by
  have hstart : (WsConn.create 1 .frame ⟨true, fun _ => 0⟩ 65543).Holds 65543 (filled 0) :=
    WsConn.create_holds rfl
  obtain ⟨hfits, hs', d, hrun, hd⟩ := filler_run 65 hstart (by decide) (by decide)
  refine ⟨_, d, hrun, rfl, ?_, limit_reached (by decide) rfl hfits hrun rfl⟩
  rw [hd.limit, hd.size, length_filled]
  decide

end StoredPoller

end ChainSocket
