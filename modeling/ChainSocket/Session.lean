import ChainSocket.Buffer
import ChainSocket.Lib.Effect

/-!
# Sessions

`Session`, and what a socket answers. The fields below `type` are not in the source: they keep the
history of the session that the results are about.
-/

namespace ChainSocket

/-- `Session::Type`. -/
inductive SessionType where
  | none | accept | connect | listen
  deriving DecidableEq, Repr

structure Session where
  fd : Nat
  sessionId : Nat
  writeBuffer : MessageBuffer
  readBuffer : MessageBuffer
  type : SessionType
  /-- How many sessions had been created before this one. -/
  birth : Nat
  /-- The buffers passed to `sendTo`, in the order of the calls. -/
  handed : List UInt8
  /-- What has been pushed. -/
  pushed : List UInt8
  /-- The bytes `send` has accepted. -/
  accepted : List UInt8
  /-- Whether the session has been given to `postRecv`. -/
  registered : Bool
  /-- Whether a `send` has accepted less than it was offered. -/
  short : Bool

/-- What `send` answers: how many bytes it accepts, or the error. -/
inductive SendResult where
  | accepted (n : Nat)
  | eagain
  | error
  deriving DecidableEq, Repr

/-- What `recv` answers: the bytes it has stored, none at the end of the stream, or the error. It
cannot answer with more bytes than there is room for. -/
inductive RecvResult where
  | received (bytes : List UInt8)
  | eagain
  | error
  deriving DecidableEq, Repr

namespace Session

/-- `reset` of a new session, then its fields. -/
def create (slot fd : Nat) (type : SessionType) (birth : Nat) (mem : Alloc) : Session :=
  { fd, sessionId := slot, writeBuffer := .init mem, readBuffer := .init mem, type, birth
    handed := [], pushed := [], accepted := [], registered := false, short := false }

/-- A call of `sendTo`, before anything comes of it. -/
def hand (s : Session) (buf : List UInt8) : Session := { s with handed := s.handed ++ buf }

/-- `writeBuffer.push_back`. -/
def push (s : Session) (mem : Alloc) (bytes : List UInt8) : Except Fault Session := do
  let b ← s.writeBuffer.pushBack mem bytes
  return { s with writeBuffer := b, pushed := s.pushed ++ bytes }

/-- One `send` of the whole of `writeBuffer`, and the `erase` of what it has accepted. -/
def offer (s : Session) : SendResult → Except Fault Session
  | .accepted n => do
    let n := min n s.writeBuffer.size
    let b ← s.writeBuffer.erase n
    return { s with
      writeBuffer := b
      accepted := s.accepted ++ s.writeBuffer.data.take n
      short := s.short || decide (n < s.writeBuffer.size) }
  | .eagain | .error => .ok { s with short := true }

/-- The bytes `recv` has put behind `readBuffer`, and its `alloc`. -/
def receive (s : Session) (mem : Alloc) (bytes : List UInt8) : Except Fault Session := do
  let b ← s.readBuffer.write bytes
  let b ← b.alloc mem
  return { s with readBuffer := b }

/-- `readBuffer.alloc`. -/
def grow (s : Session) (mem : Alloc) : Except Fault Session := do
  let b ← s.readBuffer.alloc mem
  return { s with readBuffer := b }

/-- `readBuffer.erase`, as callbacks do it. -/
def consume (s : Session) (len : Nat) : Except Fault Session := do
  let b ← s.readBuffer.erase len
  return { s with readBuffer := b }

/-! ## The outgoing stream -/

/-- What `send` has accepted, then what is queued, is what was pushed. -/
structure Streams (s : Session) : Prop where
  wf : s.writeBuffer.Wf
  stream : s.accepted ++ s.writeBuffer.data = s.pushed

theorem create_streams (slot fd : Nat) (type : SessionType) (birth : Nat) (mem : Alloc) :
    (create slot fd type birth mem).Streams :=
  ⟨MessageBuffer.init_wf mem, by simp [create]⟩

theorem push_size {s s' : Session} {mem : Alloc} {bytes : List UInt8}
    (h : s.push mem bytes = .ok s') :
    s'.writeBuffer.size = s.writeBuffer.size + bytes.length := by
  unfold push at h
  cases hb : s.writeBuffer.pushBack mem bytes with
  | error e => rw [hb] at h; cases h
  | ok b =>
    rw [hb] at h
    cases h
    exact MessageBuffer.pushBack_size hb

theorem push_spec {s s' : Session} {mem : Alloc} {bytes : List UInt8} (h : s.Streams)
    (hp : s.push mem bytes = .ok s') : s'.Streams ∧
      s'.writeBuffer.size = s.writeBuffer.size + bytes.length ∧ s'.short = s.short := by
  unfold push at hp
  cases hb : s.writeBuffer.pushBack mem bytes with
  | error e => rw [hb] at hp; cases hp
  | ok b =>
    rw [hb] at hp
    cases hp
    obtain ⟨hw, hd, hs, -⟩ := MessageBuffer.pushBack_ok h.wf hb
    exact ⟨⟨hw, by simp only [hd, ← List.append_assoc, h.stream]⟩, hs, rfl⟩

/-- A `send` leaves the stream whole; it is short when bytes stay behind. -/
theorem offer_spec {s : Session} (h : s.Streams) (r : SendResult) : ∃ s', s.offer r = .ok s' ∧
    s'.Streams ∧ s'.writeBuffer.size ≤ s.writeBuffer.size ∧
      (s.short = false → 0 < s.writeBuffer.size →
        (s'.short = true ↔ 0 < s'.writeBuffer.size)) := by
  cases r with
  | eagain =>
    exact ⟨_, rfl, ⟨h.wf, h.stream⟩, Nat.le_refl _, fun _ hpos => ⟨fun _ => hpos, fun _ => rfl⟩⟩
  | error =>
    exact ⟨_, rfl, ⟨h.wf, h.stream⟩, Nat.le_refl _, fun _ hpos => ⟨fun _ => hpos, fun _ => rfl⟩⟩
  | accepted k =>
    have hle : min k s.writeBuffer.size ≤ s.writeBuffer.size := Nat.min_le_right ..
    obtain ⟨b, hb, hw, hd, hs, -⟩ := MessageBuffer.erase_ok h.wf hle
    refine ⟨_, by unfold offer; dsimp only; rw [hb]; rfl, ⟨hw, ?_⟩, ?_, ?_⟩
    · simp only [hd, List.append_assoc, List.take_append_drop, h.stream]
    · dsimp only; omega
    · intro hshort _
      simp only [hshort, Bool.false_or, decide_eq_true_eq, hs]
      omega

/-- What can happen to an open session between two points where it can be seen. Where no event
reports the socket writable (`w = false`), bytes are offered only as they are pushed. -/
inductive Move (w : Bool) : Session → Session → Prop
  | queue {s s' : Session} {mem : Alloc} {bytes : List UInt8}
      (behind : w = false → 0 < s.writeBuffer.size ∨ bytes = [])
      (pushed : s.push mem bytes = .ok s') : Move w s s'
  | send {s s₁ s' : Session} {mem : Alloc} {bytes : List UInt8} (r : SendResult)
      (empty : s.writeBuffer.size = 0) (pushed : s.push mem bytes = .ok s₁)
      (some : 0 < s₁.writeBuffer.size) (offered : s₁.offer r = .ok s') : Move w s s'
  | flush {s s' : Session} (r : SendResult) (writable : w = true)
      (offered : s.offer r = .ok s') : Move w s s'
  | read {s : Session} {b : MessageBuffer} (room : s.readBuffer.Roomy → b.Roomy) :
      Move w s { s with readBuffer := b }
  | register (s : Session) : Move w s { s with registered := true }
  | hand (s : Session) (buf : List UInt8) : Move w s (s.hand buf)

theorem Move.writable {w : Bool} {s s' : Session} (h : Move w s s') : Move true s s' := by
  cases h with
  | queue _ pushed => exact .queue (fun h => by cases h) pushed
  | send r empty pushed some offered => exact .send r empty pushed some offered
  | flush r _ offered => exact .flush r rfl offered
  | read room => exact .read room
  | register => exact .register s
  | hand buf => exact .hand s buf

theorem receive_move {w : Bool} {s s' : Session} {mem : Alloc} {bytes : List UInt8}
    (h : s.receive mem bytes = .ok s') : Move w s s' := by
  unfold receive at h
  cases hb : s.readBuffer.write bytes with
  | error e => rw [hb] at h; cases h
  | ok b =>
    rw [hb] at h
    change (b.alloc mem >>= _) = _ at h
    cases hb' : b.alloc mem with
    | error e => rw [hb'] at h; cases h
    | ok b' => rw [hb'] at h; cases h; exact .read fun _ => MessageBuffer.alloc_roomy hb'

theorem consume_move {w : Bool} {s s' : Session} {len : Nat} (h : s.consume len = .ok s') :
    Move w s s' := by
  unfold consume at h
  cases hb : s.readBuffer.erase len with
  | error e => rw [hb] at h; cases h
  | ok b => rw [hb] at h; cases h; exact .read (MessageBuffer.erase_roomy hb)

theorem grow_move {w : Bool} {s s' : Session} {mem : Alloc} (h : s.grow mem = .ok s') :
    Move w s s' := by
  unfold grow at h
  cases hb : s.readBuffer.alloc mem with
  | error e => rw [hb] at h; cases h
  | ok b => rw [hb] at h; cases h; exact .read fun _ => MessageBuffer.alloc_roomy hb

theorem move_streams {w : Bool} {s s' : Session} (h : Move w s s') (hs : s.Streams) :
    s'.Streams := by
  cases h with
  | queue _ pushed => exact (push_spec hs pushed).1
  | send r _ pushed _ offered =>
    obtain ⟨t, ht, hstream, -⟩ := offer_spec (push_spec hs pushed).1 r
    rw [ht] at offered
    cases offered
    exact hstream
  | flush r _ offered =>
    obtain ⟨t, ht, hstream, -⟩ := offer_spec hs r
    rw [ht] at offered
    cases offered
    exact hstream
  | read | register | hand => exact ⟨hs.wf, hs.stream⟩

/-- Without writable events, bytes are queued exactly where a `send` was short. -/
theorem move_short {s s' : Session} (h : Move false s s') (hs : s.Streams)
    (hq : s.short = true ↔ 0 < s.writeBuffer.size) :
    s'.short = true ↔ 0 < s'.writeBuffer.size := by
  cases h with
  | queue behind pushed =>
    obtain ⟨-, hsize, hshort⟩ := push_spec hs pushed
    rw [hshort, hq, hsize]
    cases behind rfl with
    | inl hpos => omega
    | inr hnil => simp [hnil]
  | send r empty pushed some offered =>
    obtain ⟨hstream, -, hshort⟩ := push_spec hs pushed
    obtain ⟨t, ht, -, -, hiff⟩ := offer_spec hstream r
    rw [ht] at offered
    cases offered
    refine hiff ?_ some
    rw [hshort]
    cases hc : s.short with
    | false => rfl
    | true => have := hq.1 hc; omega
  | flush _ writable => cases writable
  | read | register | hand => exact hq

theorem push_identity {s s' : Session} {mem : Alloc} {bytes : List UInt8}
    (h : s.push mem bytes = .ok s') : s'.fd = s.fd ∧ s'.birth = s.birth := by
  unfold push at h
  cases hb : s.writeBuffer.pushBack mem bytes with
  | error e => rw [hb] at h; cases h
  | ok b => rw [hb] at h; cases h; exact ⟨rfl, rfl⟩

theorem offer_identity {s s' : Session} {r : SendResult} (h : s.offer r = .ok s') :
    s'.fd = s.fd ∧ s'.birth = s.birth := by
  cases r with
  | eagain => cases h; exact ⟨rfl, rfl⟩
  | error => cases h; exact ⟨rfl, rfl⟩
  | accepted k =>
    unfold offer at h
    dsimp only at h
    cases hb : s.writeBuffer.erase (min k s.writeBuffer.size) with
    | error e => rw [hb] at h; cases h
    | ok b => rw [hb] at h; cases h; exact ⟨rfl, rfl⟩

/-- Moves keep the socket of a session and its birth. -/
theorem move_identity {w : Bool} {s s' : Session} (h : Move w s s') :
    s'.fd = s.fd ∧ s'.birth = s.birth := by
  cases h with
  | queue _ pushed => exact push_identity pushed
  | send _ _ pushed _ offered =>
    obtain ⟨hfd, hb⟩ := push_identity pushed
    obtain ⟨hfd', hb'⟩ := offer_identity offered
    exact ⟨hfd'.trans hfd, hb'.trans hb⟩
  | flush _ _ offered => exact offer_identity offered
  | read | register | hand => exact ⟨rfl, rfl⟩

/-! ## What the operations can fail with -/

theorem push_fault {s : Session} {mem : Alloc} {bytes : List UInt8} :
    s.push mem bytes ≠ .error .slot :=
  Effect.except_bind_ne MessageBuffer.pushBack_fault fun _ h => by cases h

theorem offer_fault {s : Session} {r : SendResult} : s.offer r ≠ .error .slot := by
  cases r with
  | accepted k => exact Effect.except_bind_ne MessageBuffer.erase_fault fun _ h => by cases h
  | eagain => exact fun h => by cases h
  | error => exact fun h => by cases h

theorem receive_fault {s : Session} {mem : Alloc} {bytes : List UInt8} :
    s.receive mem bytes ≠ .error .slot :=
  Effect.except_bind_ne MessageBuffer.write_fault fun _ =>
    Effect.except_bind_ne MessageBuffer.alloc_fault fun _ h => by cases h

theorem consume_fault {s : Session} {len : Nat} : s.consume len ≠ .error .slot :=
  Effect.except_bind_ne MessageBuffer.erase_fault fun _ h => by cases h

end Session

end ChainSocket
