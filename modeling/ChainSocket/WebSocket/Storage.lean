import ChainSocket.Buffer.Refine
import ChainSocket.Lib.Alike
import ChainSocket.WebSocket.Chunking

/-!
# onRecv over the block of readBuffer

`onRecv` of WebSocketPoller.hpp as it works on the memory: the request is read past the end of the
data, payloads are unmasked where they lie, and `erase` moves what is left to the front.

* `Stores`: what the block stands for, a list of bytes;
* `onRecv_mirrors`: whatever the block has behind the data, `onRecv` does over it what it does over
  the list, and fails where it fails there, and nowhere else.
-/

namespace ChainSocket

open CString Effect

namespace MessageBuffer

/-- Bytes written over those at `buff + offset`. -/
def poke (b : MessageBuffer) (offset : Nat) (bytes : List UInt8) : Except Fault MessageBuffer :=
  match b.buff with
  | none => .error .null
  | some block =>
    if block.length < offset + bytes.length then .error .outOfBounds
    else .ok { b with
      buff := some (block.take offset ++ bytes ++ block.drop (offset + bytes.length)) }

/-- The bytes in use from `offset` on, as they are read where there are two of them. -/
def readFrom (b : MessageBuffer) (offset : Nat) : Except Fault (List UInt8) :=
  match b.buff with
  | none => if b.size - offset < 2 then .ok [] else .error .null
  | some _ => .ok (b.data.drop offset)

theorem readFrom_holds {b : MessageBuffer} {l : List UInt8} (h : b.Holds l) (offset : Nat) :
    b.readFrom offset = .ok (l.drop offset) := by
  obtain ⟨block, hb⟩ := Option.ne_none_iff_exists'.mp h.block
  unfold readFrom
  rw [hb, h.data]

/-- The memory behind the data. -/
def behind (b : MessageBuffer) : List UInt8 := (b.buff.getD []).drop b.size

theorem data_behind (b : MessageBuffer) : b.data ++ b.behind = b.buff.getD [] :=
  List.take_append_drop ..

theorem poke_holds {b : MessageBuffer} {l bytes : List UInt8} {offset : Nat} (h : b.Holds l)
    (hfits : offset + bytes.length ≤ l.length) : ∃ b', b.poke offset bytes = .ok b' ∧
      b'.Holds (l.take offset ++ bytes ++ l.drop (offset + bytes.length)) ∧
      b'.maxSize = b.maxSize := by
  obtain ⟨block, hb⟩ := Option.ne_none_iff_exists'.mp h.block
  obtain ⟨hlen, hsize⟩ := h.wf.block block hb
  have hl := h.length
  have hdata : block.take b.size = l := by
    rw [← h.data, data, hb, Option.getD_some]
  unfold poke
  rw [hb]
  dsimp only
  rw [if_neg (by omega)]
  refine ⟨_, rfl, ⟨?_, by simp, ?_, h.roomy⟩, rfl⟩
  · refine .of_block rfl ?_ hsize
    simp only [List.length_append, List.length_take, List.length_drop]
    omega
  · subst hdata
    simp only [data, Option.getD_some, List.take_append, List.take_take, List.length_take,
      List.length_append, List.drop_take]
    simp only [List.length_take] at hl hfits
    congr 1
    · congr 1
      · congr 1
        omega
      · exact List.take_of_length_le (by omega)
    · congr 1
      omega

end MessageBuffer

/-- The fields of a `Session` that `onRecv` works on. -/
structure WsConn where
  sessionId : Nat
  userData : WsPhase
  readBuffer : MessageBuffer

structure WsStored where
  hs : Handshake
  conn : Option WsConn
  calls : List WsCall

abbrev StoredM := EStateM Fault WsStored

namespace StoredPoller

def conn : StoredM WsConn := do
  match (← get).conn with
  | some c => return c
  | none => throw .freed

def setConn (c : WsConn) : StoredM Unit := modify fun s => { s with conn := some c }

def call (c : WsCall) : StoredM Unit := modify fun s => { s with calls := s.calls ++ [c] }

def closeSession (type : CloseType) : StoredM Unit := do
  let c ← conn
  call (.closeSession c.sessionId type)
  modify fun s => { s with conn := none }

def callback (user : WsUser) (c : WsCall) : StoredM Unit := do
  call c
  if user (← get).calls then modify fun s => { s with conn := none }

def liftExcept {α : Type} : Except Fault α → StoredM α
  | .ok a => pure a
  | .error e => throw e

/-- `conn.readBuffer.erase(len)`. -/
def erase (len : Nat) : StoredM Unit := do
  let c ← conn
  let b ← liftExcept (c.readBuffer.erase len)
  setConn { c with readBuffer := b }

def serverHandshake : StoredM Bool := do
  let c ← conn
  match WebSocketPoller.memstr (rn ++ rn) c.readBuffer.data with
  | none => return true
  | some pos =>
    let (frameType, hs) ←
      liftExcept (wsParseHandshake (c.readBuffer.buff.getD []) (pos + 1) (← get).hs)
    modify fun s => { s with hs := hs }
    if frameType = .error then
      closeSession .normal
      return false
    match hs.key with
    | none => throw .abort
    | some key =>
      call (.sendTo (← liftExcept (handshakeReply key)))
      setConn { c with userData := .frame }
      erase (pos + 4)
      return (← conn).readBuffer.size ≠ 0

def clientHandshake (user : WsUser) : StoredM Bool := do
  let c ← conn
  if c.readBuffer.size < 13 then return false
  match WebSocketPoller.memstr (rn ++ rn) c.readBuffer.data with
  | none => return false
  | some pos =>
    match WebSocketPoller.memstr (ascii "HTTP") c.readBuffer.data with
    | none =>
      closeSession .websocketReadHeadError
      return false
    | some _ =>
      setConn { c with userData := .frame }
      erase (pos + 4)
      callback user .onHandShake
      return (← conn).readBuffer.size ≠ 0

/-- Unmasks the payload at `offset` where it lies. -/
def writeBack (offset : Nat) (payload : List UInt8) : StoredM Unit := do
  let c ← conn
  let b ← liftExcept (c.readBuffer.poke offset payload)
  setConn { c with readBuffer := b }

open WebSocketPoller (Iteration)

def frameIteration (user : WsUser) (parseSize : Nat) : StoredM Iteration := do
  let inputFrame ← liftExcept ((← conn).readBuffer.readFrom parseSize)
  match frameStep inputFrame with
  | .leave => return .leave
  | .close type =>
    closeSession type
    return .returned
  | .abort => throw .abort
  | .data headerSize payload =>
    writeBack (parseSize + headerSize) payload
    callback user (.onReadMsg payload)
    return .next (parseSize + (headerSize + payload.length))
  | .control headerSize payload =>
    writeBack (parseSize + headerSize) payload
    return .next parseSize

def frameLoop (user : WsUser) : (fuel parseSize : Nat) → StoredM (Option Nat)
  | 0, _ => throw .fuel
  | fuel + 1, parseSize => do
    match ← frameIteration user parseSize with
    | .leave => return some parseSize
    | .returned => return none
    | .next parseSize => frameLoop user fuel parseSize

def recvFrames (user : WsUser) (fuel : Nat) : StoredM Nat := do
  match ← frameLoop user fuel 0 with
  | none => return WsFrameType.error.code.toNat
  | some parseSize =>
    erase parseSize
    return 0

def handshake (user : WsUser) : StoredM Bool := do
  match (← conn).userData with
  | .handshakeWait => serverHandshake
  | .handshakeReq => clientHandshake user
  | .frame => return true

def onRecv (user : WsUser) (fuel : Nat) : StoredM Nat := do
  let more ← handshake user
  if more then
    let c ← conn
    if c.userData = .frame then recvFrames user fuel else return 0
  else return 0

end StoredPoller

/-! ## What the block stands for -/

/-- The session with the list of the bytes in its buffer, whose limit is `m`. -/
structure WsConn.Holds (m : Nat) (c : WsConn) (c' : WsSession) : Prop where
  sessionId : c.sessionId = c'.sessionId
  userData : c.userData = c'.userData
  buffer : c.readBuffer.Holds c'.readBuffer
  limit : c.readBuffer.maxSize = m

inductive Stores (m : Nat) : WsStored → WsState → Prop
  | opened {hs : Handshake} {calls : List WsCall} {c : WsConn} {c' : WsSession}
      (holds : c.Holds m c') : Stores m ⟨hs, some c, calls⟩ ⟨hs, some c', calls⟩
  | closed {hs : Handshake} {calls : List WsCall} : Stores m ⟨hs, none, calls⟩ ⟨hs, none, calls⟩

/-- With at least `n` bytes in the buffer. -/
structure Filled (m n : Nat) (s : WsStored) (t : WsState) : Prop where
  stores : Stores m s t
  filled : ∀ c', t.conn = some c' → n ≤ c'.readBuffer.length

/-- `c` and `c'` are the session. -/
structure Read (m : Nat) (c : WsConn) (c' : WsSession) (s : WsStored) (t : WsState) : Prop where
  holds : c.Holds m c'
  stored : s.conn = some c
  listed : t.conn = some c'
  stores : Stores m s t

theorem Read.filled {m n : Nat} {c : WsConn} {c' : WsSession} {s : WsStored} {t : WsState}
    (h : Read m c c' s t) (hn : n ≤ c'.readBuffer.length) : Filled m n s t := by
  refine ⟨h.stores, fun d hd => ?_⟩
  rw [h.listed] at hd
  cases hd
  exact hn

namespace WsConn.Holds

variable {m : Nat} {c : WsConn} {c' : WsSession}

theorem size (h : c.Holds m c') : c.readBuffer.size = c'.readBuffer.length :=
  h.buffer.length.symm

theorem rewritten (h : c.Holds m c') {b : MessageBuffer} {l : List UInt8} (hb : b.Holds l)
    (hmax : b.maxSize = c.readBuffer.maxSize) :
    WsConn.Holds m { c with readBuffer := b } { c' with readBuffer := l } :=
  ⟨h.sessionId, h.userData, hb, hmax.trans h.limit⟩

theorem promoted (h : c.Holds m c') :
    WsConn.Holds m { c with userData := .frame } { c' with userData := .frame } :=
  ⟨h.sessionId, rfl, h.buffer, h.limit⟩

end WsConn.Holds

namespace StoredPoller

open WebSocketPoller (Iteration)

variable {m n : Nat} {user : WsUser}

/-! ## The steps -/

theorem conn_mirrors : Mirrors (Stores m) conn WebSocketPoller.conn (Read m) := by
  intro s t hst
  cases hst with
  | opened holds => exact .ok ⟨holds, rfl, rfl, .opened holds⟩
  | closed => exact .error

/-- The session is read where the buffer is known to be filled. -/
theorem conn_filled : Mirrors (Filled m n) conn WebSocketPoller.conn
    fun c c' s t => Read m c c' s t ∧ n ≤ c'.readBuffer.length := by
  intro s t hst
  obtain ⟨hst, hn⟩ := hst
  cases hst with
  | opened holds => exact .ok ⟨⟨holds, rfl, rfl, .opened holds⟩, hn _ rfl⟩
  | closed => exact .error

theorem setConn_mirrors {c : WsConn} {c' : WsSession} (h : c.Holds m c')
    (hn : n ≤ c'.readBuffer.length) :
    Mirrors (Stores m) (setConn c) (WebSocketPoller.setConn c') (Same (Filled m n)) := by
  apply Mirrors.modify
  intro s t hst
  refine ⟨rfl, ?_, ?_⟩
  · cases hst with
    | opened | closed => exact .opened h
  · intro d hd
    cases hd
    exact hn

theorem call_mirrors (c : WsCall) :
    Mirrors (Filled m n) (call c) (WebSocketPoller.call c) (Same (Filled m n)) := by
  apply Mirrors.modify
  rintro s t ⟨hst, hn⟩
  refine ⟨rfl, ?_, hn⟩
  cases hst with
  | opened holds => exact .opened holds
  | closed => exact .closed

theorem close_mirrors : Mirrors (Filled m n)
    (modify fun s => { s with conn := none } : StoredM Unit)
    (modify fun s => { s with conn := none } : WsM Unit) (Same (Filled m n)) := by
  apply Mirrors.modify
  rintro s t ⟨hst, -⟩
  refine ⟨rfl, ?_, nofun⟩
  cases hst with
  | opened | closed => exact .closed

theorem record_mirrors (hs : Handshake) : Mirrors (Filled m n)
    (modify fun s => { s with hs := hs } : StoredM Unit)
    (modify fun s => { s with hs := hs } : WsM Unit) (Same (Filled m n)) := by
  apply Mirrors.modify
  rintro s t ⟨hst, hn⟩
  refine ⟨rfl, ?_, hn⟩
  cases hst with
  | opened holds => exact .opened holds
  | closed => exact .closed

theorem closeSession_mirrors (type : CloseType) : Mirrors (Stores m) (closeSession type)
    (WebSocketPoller.closeSession type) (Same (Stores m)) := by
  apply conn_mirrors.bind
  intro c c'
  apply Mirrors.pointwise
  intro s t hread
  rw [hread.holds.sessionId]
  have hclose : Mirrors (Filled m 0)
      (do call (.closeSession c'.sessionId type); modify fun s => { s with conn := none })
      (do
        WebSocketPoller.call (.closeSession c'.sessionId type)
        modify fun s => { s with conn := none })
      (Same (Filled m 0)) := (call_mirrors _).bind_same fun _ => close_mirrors
  refine hclose.mono ?_ ?_
  · rintro _ _ ⟨rfl, rfl⟩
    exact hread.filled (Nat.zero_le _)
  · rintro _ _ _ _ ⟨heq, hfilled⟩
    exact ⟨heq, hfilled.stores⟩

theorem callback_mirrors (c : WsCall) : Mirrors (Filled m n) (callback user c)
    (WebSocketPoller.callback user c) (Same (Filled m n)) := by
  apply (call_mirrors c).bind_same
  intro _
  apply Mirrors.get_bind
  intro s t hst
  have hcalls : s.calls = t.calls := by
    cases hst.stores with
    | opened | closed => rfl
  rw [hcalls]
  split_ifs
  · apply close_mirrors.pre
    rintro _ _ ⟨rfl, rfl⟩
    exact hst
  · apply Mirrors.pure
    rintro _ _ ⟨rfl, rfl⟩
    exact ⟨rfl, hst⟩

theorem liftExcept_mirrors {α : Type} {P : WsStored → WsState → Prop} (x : Except Fault α) :
    Mirrors P (liftExcept x) (WebSocketPoller.liftExcept x) (Same P) := by
  cases x with
  | ok a => exact Mirrors.pure fun s t hst => ⟨rfl, hst⟩
  | error e => exact Mirrors.throw e

theorem erase_mirrors : Mirrors (Filled m n) (erase n) (WebSocketPoller.erase n)
    (Same (Stores m)) := by
  apply conn_filled.bind
  intro c c'
  apply Mirrors.pointwise
  rintro s t ⟨hread, hn⟩
  have hfits : n ≤ c.readBuffer.size := by
    rw [hread.holds.size]
    exact hn
  obtain ⟨b, hb, hholds⟩ := MessageBuffer.erase_fits hread.holds.buffer hfits
  have hmax : b.maxSize = c.readBuffer.maxSize := by
    obtain ⟨b', hb', -, -, -, -, hmax⟩ := MessageBuffer.erase_ok hread.holds.buffer.wf hfits
    rw [hb] at hb'
    cases hb'
    exact hmax
  rw [hb]
  have hset : Mirrors (Stores m) (setConn { c with readBuffer := b })
      (WebSocketPoller.setConn { c' with readBuffer := c'.readBuffer.drop n })
      (Same (Filled m 0)) :=
    setConn_mirrors (hread.holds.rewritten hholds hmax) (Nat.zero_le _)
  refine hset.mono ?_ ?_
  · rintro _ _ ⟨rfl, rfl⟩
    exact hread.stores
  · rintro _ _ _ _ ⟨heq, hfilled⟩
    exact ⟨heq, hfilled.stores⟩

theorem writeBack_mirrors {offset : Nat} {payload : List UInt8}
    (hn : n ≤ offset + payload.length) :
    Mirrors (Filled m (offset + payload.length)) (writeBack offset payload)
      (WebSocketPoller.writeBack offset payload) (Same (Filled m n)) := by
  apply conn_filled.bind
  intro c c'
  apply Mirrors.pointwise
  rintro s t ⟨hread, hfits⟩
  obtain ⟨b, hb, hholds, hmax⟩ := MessageBuffer.poke_holds hread.holds.buffer hfits
  rw [hb]
  have hset : Mirrors (Stores m) (setConn { c with readBuffer := b })
      (WebSocketPoller.setConn { c' with
        readBuffer :=
          c'.readBuffer.take offset ++ payload ++ c'.readBuffer.drop (offset + payload.length) })
      (Same (Filled m n)) := by
    apply setConn_mirrors (hread.holds.rewritten hholds hmax)
    simp only [List.length_append, List.length_take, List.length_drop]
    omega
  apply hset.pre
  rintro _ _ ⟨rfl, rfl⟩
  exact hread.stores

/-! ## The frame loop -/

/-- Where an iteration ends with the session open, the buffer is filled up to `parseSize`. -/
def Iterated (m parseSize : Nat) (i i' : Iteration) (s : WsStored) (t : WsState) : Prop :=
  i = i' ∧ match i with
    | .leave => Filled m parseSize s t
    | .returned => Stores m s t
    | .next parseSize => Filled m parseSize s t

theorem frameIteration_mirrors (user : WsUser) (parseSize : Nat) :
    Mirrors (Filled m parseSize) (frameIteration user parseSize)
      (WebSocketPoller.frameIteration user parseSize) (Iterated m parseSize) := by
  apply conn_filled.bind
  intro c c'
  apply Mirrors.pointwise
  rintro s t ⟨hread, hn⟩
  rw [MessageBuffer.readFrom_holds hread.holds.buffer, liftExcept, pure_bind]
  have hlen : (c'.readBuffer.drop parseSize).length = c'.readBuffer.length - parseSize :=
    List.length_drop
  cases hstep : frameStep (c'.readBuffer.drop parseSize) with
  | leave =>
    apply Mirrors.pure
    rintro _ _ ⟨rfl, rfl⟩
    exact ⟨rfl, hread.filled hn⟩
  | close type =>
    apply ((closeSession_mirrors type).pre _).bind_same
    · intro _
      exact Mirrors.pure fun s t hst => ⟨rfl, hst⟩
    · rintro _ _ ⟨rfl, rfl⟩
      exact hread.stores
  | abort => exact Mirrors.throw _
  | data headerSize payload =>
    obtain ⟨-, hle⟩ := frameStep_data_length hstep
    have hfilled : Filled m (parseSize + headerSize + payload.length) s t :=
      hread.filled (by omega)
    apply ((writeBack_mirrors (m := m) (n := parseSize + (headerSize + payload.length))
      (by omega)).pre _).bind_same
    · intro _
      apply (callback_mirrors _).bind_same
      intro _
      exact Mirrors.pure fun s t hst => ⟨rfl, hst⟩
    · rintro _ _ ⟨rfl, rfl⟩
      exact hfilled
  | control headerSize payload =>
    obtain ⟨f, rest, -, hbytes, rfl, rfl⟩ := frameStep_control hstep
    have hwhole : f.header.length + f.written.length ≤ c'.readBuffer.length - parseSize := by
      rw [← hlen, hbytes, List.length_append, f.length_bytes, WebSocketPoller.length_written]
      omega
    have hfilled : Filled m (parseSize + f.header.length + f.written.length) s t :=
      hread.filled (by omega)
    apply ((writeBack_mirrors (m := m) (n := parseSize) (by omega)).pre _).bind_same
    · intro _
      exact Mirrors.pure fun s t hst => ⟨rfl, hst⟩
    · rintro _ _ ⟨rfl, rfl⟩
      exact hfilled

/-- The `parseSize` the loop is left with lies within the buffer. -/
def Looped (m : Nat) (r r' : Option Nat) (s : WsStored) (t : WsState) : Prop :=
  r = r' ∧ match r with
    | none => Stores m s t
    | some parseSize => Filled m parseSize s t

theorem frameLoop_mirrors (user : WsUser) (fuel parseSize : Nat) :
    Mirrors (Filled m parseSize) (frameLoop user fuel parseSize)
      (WebSocketPoller.frameLoop user fuel parseSize) (Looped m) := by
  induction fuel generalizing parseSize with
  | zero => exact Mirrors.throw _
  | succ fuel ih =>
    apply (frameIteration_mirrors user parseSize).bind
    rintro i i' s t ⟨rfl, hi⟩
    cases i with
    | leave => exact .ok ⟨rfl, hi⟩
    | returned => exact .ok ⟨rfl, hi⟩
    | next parseSize => exact ih parseSize s t hi

theorem recvFrames_mirrors (user : WsUser) (fuel : Nat) : Mirrors (Stores m)
    (recvFrames user fuel) (WebSocketPoller.recvFrames user fuel) (Same (Stores m)) := by
  apply ((frameLoop_mirrors user fuel 0).pre fun s t hst => ⟨hst, fun _ _ => Nat.zero_le _⟩).bind
  rintro r r' s t ⟨rfl, hr⟩
  cases r with
  | none => exact .ok ⟨rfl, hr⟩
  | some parseSize =>
    have hrest : Mirrors (Filled m parseSize) (do erase parseSize; return (0 : Nat))
        (do WebSocketPoller.erase parseSize; return (0 : Nat)) (Same (Stores m)) :=
      erase_mirrors.bind_same fun _ => Mirrors.pure fun s t hst => ⟨rfl, hst⟩
    exact hrest s t hr

/-! ## In front of the frames -/

/-- The memory goes on with `behind` after the data. -/
structure Ahead (m : Nat) (behind : List UInt8) (s : WsStored) (t : WsState) : Prop where
  stores : Stores m s t
  ahead : ∀ c, s.conn = some c → c.readBuffer.behind = behind

theorem conn_ahead {behind : List UInt8} : Mirrors (Ahead m behind) conn WebSocketPoller.conn
    fun c c' s t => Read m c c' s t ∧ c.readBuffer.behind = behind := by
  intro s t hst
  obtain ⟨hst, hbehind⟩ := hst
  cases hst with
  | opened holds => exact .ok ⟨⟨holds, rfl, rfl, .opened holds⟩, hbehind _ rfl⟩
  | closed => exact .error

/-- `onRecv` goes on where the handshake has left bytes. -/
theorem remains_mirrors : Mirrors (Stores m)
    (do return (decide ((← conn).readBuffer.size ≠ 0)) : StoredM Bool)
    (do return (decide ((← WebSocketPoller.conn).readBuffer ≠ [])) : WsM Bool)
    (Same (Stores m)) := by
  apply conn_mirrors.bind
  intro c c'
  apply Mirrors.pure
  intro s t hread
  refine ⟨?_, hread.stores⟩
  rw [hread.holds.size, decide_eq_decide, ne_eq, ne_eq, List.length_eq_zero_iff]

theorem serverHandshake_mirrors (behind : List UInt8) : Mirrors (Ahead m behind) serverHandshake
    (WebSocketPoller.serverHandshake behind) (Same (Stores m)) := by
  apply conn_ahead.bind
  intro c c'
  apply Mirrors.pointwise
  rintro s t ⟨hread, rfl⟩
  have hholds := hread.holds
  rw [hholds.buffer.data]
  cases hpos : WebSocketPoller.memstr (rn ++ rn) c'.readBuffer with
  | none =>
    apply Mirrors.pure
    rintro _ _ ⟨rfl, rfl⟩
    exact ⟨rfl, hread.stores⟩
  | some pos =>
    have hwithin := WebSocketPoller.memstr_le hpos
    rw [← c.readBuffer.data_behind, hholds.buffer.data]
    have hhs : s.hs = t.hs := by
      cases hread.stores with
      | opened | closed => rfl
    have hrest : Mirrors (Filled m (pos + 4))
        (do
          setConn { c with userData := .frame }
          erase (pos + 4)
          return decide ((← conn).readBuffer.size ≠ 0))
        (do
          WebSocketPoller.setConn { c' with userData := .frame }
          WebSocketPoller.erase (pos + 4)
          return decide ((← WebSocketPoller.conn).readBuffer ≠ []))
        (Same (Stores m)) := by
      apply ((setConn_mirrors hholds.promoted hwithin).pre fun _ _ h => h.stores).bind_same
      intro _
      apply erase_mirrors.bind_same
      intro _
      exact remains_mirrors
    have hfilled : Filled m (pos + 4) s t := hread.filled hwithin
    have hparsed : ∀ frameType hs, Mirrors (Filled m (pos + 4))
        (do
          modify fun s => { s with hs := hs }
          if frameType = WsFrameType.error then
            closeSession .normal
            return false
          match hs.key with
          | none => throw .abort
          | some key =>
            call (.sendTo (← liftExcept (handshakeReply key)))
            setConn { c with userData := .frame }
            erase (pos + 4)
            return decide ((← conn).readBuffer.size ≠ 0))
        (do
          modify fun s => { s with hs := hs }
          if frameType = WsFrameType.error then
            WebSocketPoller.closeSession .normal
            return false
          match hs.key with
          | none => throw .abort
          | some key =>
            WebSocketPoller.call (.sendTo (← WebSocketPoller.liftExcept (handshakeReply key)))
            WebSocketPoller.setConn { c' with userData := .frame }
            WebSocketPoller.erase (pos + 4)
            return decide ((← WebSocketPoller.conn).readBuffer ≠ []))
        (Same (Stores m)) := by
      intro frameType hs
      apply (record_mirrors hs).bind_same
      intro _
      split_ifs
      · apply ((closeSession_mirrors .normal).pre fun _ _ h => h.stores).bind_same
        intro _
        exact Mirrors.pure fun _ _ h => ⟨rfl, h⟩
      · cases hs.key with
        | none => exact Mirrors.throw _
        | some key =>
          apply (liftExcept_mirrors _).bind_same
          intro reply
          apply (call_mirrors _).bind_same
          intro _
          exact hrest
    have hfilled : Filled m (pos + 4) s t := hread.filled hwithin
    apply Mirrors.get_bind
    rintro _ _ ⟨rfl, rfl⟩
    rw [hhs]
    apply (liftExcept_mirrors _).bind_same
    rintro ⟨frameType, hs⟩
    apply (hparsed frameType hs).pre
    rintro _ _ ⟨rfl, rfl⟩
    exact hfilled

theorem clientHandshake_mirrors (user : WsUser) : Mirrors (Stores m) (clientHandshake user)
    (WebSocketPoller.clientHandshake user) (Same (Stores m)) := by
  apply conn_mirrors.bind
  intro c c'
  apply Mirrors.pointwise
  intro s t hread
  have hholds := hread.holds
  have hwait : ∀ b : Bool, Mirrors (fun s' t' => s' = s ∧ t' = t) (pure b : StoredM Bool)
      (pure b : WsM Bool) (Same (Stores m)) := by
    intro b
    apply Mirrors.pure
    rintro _ _ ⟨rfl, rfl⟩
    exact ⟨rfl, hread.stores⟩
  rw [hholds.size, hholds.buffer.data]
  split_ifs
  · exact hwait false
  · cases hpos : WebSocketPoller.memstr (rn ++ rn) c'.readBuffer with
    | none => exact hwait false
    | some pos =>
      have hwithin := WebSocketPoller.memstr_le hpos
      dsimp only
      cases WebSocketPoller.memstr (ascii "HTTP") c'.readBuffer with
      | none =>
        apply ((closeSession_mirrors .websocketReadHeadError).pre _).bind_same
        · intro _
          exact Mirrors.pure fun _ _ h => ⟨rfl, h⟩
        · rintro _ _ ⟨rfl, rfl⟩
          exact hread.stores
      | some _ =>
        apply ((setConn_mirrors hholds.promoted hwithin).pre _).bind_same
        · intro _
          apply erase_mirrors.bind_same
          intro _
          apply ((callback_mirrors (n := 0) _).pre _).bind_same
          · intro _
            exact remains_mirrors.pre fun _ _ h => h.stores
          · exact fun _ _ h => ⟨h, fun _ _ => Nat.zero_le _⟩
        · rintro _ _ ⟨rfl, rfl⟩
          exact hread.stores

theorem handshake_mirrors (user : WsUser) (behind : List UInt8) :
    Mirrors (Ahead m behind) (handshake user) (WebSocketPoller.handshake user behind)
      (Same (Stores m)) := by
  apply conn_ahead.bind
  intro c c'
  apply Mirrors.pointwise
  rintro s t ⟨hread, hbehind⟩
  have hahead : Ahead m behind s t := by
    refine ⟨hread.stores, fun d hd => ?_⟩
    rw [hread.stored] at hd
    cases hd
    exact hbehind
  rw [hread.holds.userData]
  cases c'.userData with
  | handshakeWait =>
    apply (serverHandshake_mirrors behind).pre
    rintro _ _ ⟨rfl, rfl⟩
    exact hahead
  | handshakeReq =>
    apply (clientHandshake_mirrors user).pre
    rintro _ _ ⟨rfl, rfl⟩
    exact hread.stores
  | frame =>
    apply Mirrors.pure
    rintro _ _ ⟨rfl, rfl⟩
    exact ⟨rfl, hread.stores⟩

theorem onRecv_mirrors (user : WsUser) (behind : List UInt8) (fuel : Nat) :
    Mirrors (Ahead m behind) (onRecv user fuel) (WebSocketPoller.onRecv user behind fuel)
      (Same (Stores m)) := by
  apply (handshake_mirrors user behind).bind_same
  intro more
  cases more with
  | false => exact Mirrors.pure fun _ _ h => ⟨rfl, h⟩
  | true =>
    apply conn_mirrors.bind
    intro c c'
    apply Mirrors.pointwise
    intro s t hread
    rw [hread.holds.userData]
    split_ifs
    · apply (recvFrames_mirrors user fuel).pre
      rintro _ _ ⟨rfl, rfl⟩
      exact hread.stores
    · apply Mirrors.pure
      rintro _ _ ⟨rfl, rfl⟩
      exact ⟨rfl, hread.stores⟩

end StoredPoller

end ChainSocket
