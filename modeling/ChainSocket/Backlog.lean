import ChainSocket.Buffer.Storage
import ChainSocket.Poller.Limit
import ChainSocket.Iocp.Contexts

/-!
# What waits to be sent

The write buffer of an open session, over any calls of `sendTo` and any answers of `send`.

* `write_bounded_iff`: one step;
* `backlog_iff`: a run;
* `poller_sendTo`, `iocp_sendTo`: `sendTo` of either `Poller` is made of such steps;
* `poller_sized`, `iocp_sized`: what it leaves of the buffer, where it has room.
-/

namespace ChainSocket

/-- `push_back`, or a `send` of the whole buffer and the `erase` of what it has accepted. -/
inductive WriteOp where
  | push (mem : Alloc) (buf : List UInt8)
  | send (r : SendResult)

/-- A write buffer, and the length of the buffer passed to `sendTo` last. -/
structure Backlog where
  buffer : MessageBuffer
  last : Nat

def SendResult.taken : SendResult → Nat
  | .accepted k => k
  | .eagain | .error => 0

namespace Backlog

open MessageBuffer

def start (mem : Alloc) (maxSize : Nat) : Backlog := ⟨(init mem).setMaxSize maxSize, 0⟩

def write : WriteOp → Backlog → Except Fault (Unit × Backlog)
  | .push mem buf, b => do
    let buffer ← b.buffer.pushBack mem buf
    return ((), ⟨buffer, buf.length⟩)
  | .send r, b => do
    let buffer ← b.buffer.erase (min r.taken b.buffer.size)
    return ((), { b with buffer })

/-- No sum leaves `int`, and the buffer holds no more than `maxSize` and the last `len`. -/
def Bounded (op : WriteOp) (b : Backlog) : Prop :=
  write op b ≠ .error .overflow ∧
    ∀ b', write op b = .ok ((), b') → b'.buffer.size ≤ b'.buffer.maxSize + b'.last

/-- The sizes from here on have no capacity in `int`. -/
def sizeLimit : Nat := intMax + 1 - 3 * bufferSize

/-- `sendTo` finds no more than `maxSize` in the buffer, unless it is going to abort, and the new
size has a capacity. -/
def Room : WriteOp → Backlog → Prop
  | .push mem buf, b => b.buffer.size + buf.length < sizeLimit ∧
      ((b.buffer.capacity ≤ b.buffer.size + buf.length + bufferSize * 2 → mem.ok = true) →
        b.buffer.size ≤ b.buffer.maxSize)
  | .send _, _ => True

/-! ## One step -/

/-- What holds of the buffer along a run that is bounded. -/
structure Sized (b : Backlog) : Prop where
  wf : b.buffer.Wf
  whole : b.buffer.capacity % bufferSize = 0
  int : b.buffer.capacity ≤ intMax
  size : b.buffer.size ≤ b.buffer.maxSize + b.last

theorem start_sized (mem : Alloc) (maxSize : Nat) : (start mem maxSize).Sized := by
  have hwf := init_wf mem
  have hcapacity : (start mem maxSize).buffer.capacity = bufferSize := rfl
  refine ⟨⟨hwf.null, hwf.block⟩, ?_, ?_, Nat.zero_le _⟩
  · rw [hcapacity, Nat.mod_self]
  · rw [hcapacity]
    decide

theorem roundUp_whole (n : Nat) : roundUp n % bufferSize = 0 := Nat.mul_mod_left ..

/-- From the limit on, a buffer grows whatever capacity it has, and no capacity is enough. -/
theorem granted_iff {b : MessageBuffer} (hwhole : b.capacity % bufferSize = 0)
    (hint : b.capacity ≤ intMax) (mem : Alloc) (buf : List UInt8) :
    Granted (.op (.pushBack mem buf)) b ↔ b.size + buf.length < sizeLimit := by
  simp only [Granted, roundUp, sizeLimit, intMax, bufferSize] at *
  omega

theorem push_ok {b : Backlog} {mem : Alloc} {buf : List UInt8} {buffer : MessageBuffer}
    (h : b.buffer.pushBack mem buf = .ok buffer) :
    write (.push mem buf) b = .ok ((), ⟨buffer, buf.length⟩) := by
  simp only [write, h]
  rfl

theorem push_error {b : Backlog} {mem : Alloc} {buf : List UInt8} {e : Fault}
    (h : b.buffer.pushBack mem buf = .error e) : write (.push mem buf) b = .error e := by
  simp only [write, h]
  rfl

theorem send_ok {b : Backlog} (hw : b.buffer.Wf) (r : SendResult) :
    ∃ buffer, write (.send r) b = .ok ((), { b with buffer }) ∧ buffer.Wf ∧
      buffer.size ≤ b.buffer.size ∧ buffer.capacity = b.buffer.capacity ∧
      buffer.maxSize = b.buffer.maxSize := by
  obtain ⟨buffer, herase, hwf, -, hsize, hcapacity, hmax⟩ :=
    erase_ok hw (Nat.min_le_right r.taken b.buffer.size)
  refine ⟨buffer, ?_, hwf, by omega, hcapacity, hmax⟩
  simp only [write, herase]
  rfl

theorem write_bounded_iff {op : WriteOp} {b : Backlog} (hb : b.Sized) :
    Bounded op b ↔ Room op b := by
  cases op with
  | send r =>
    obtain ⟨buffer, hrun, -, hsize, -, hmax⟩ := send_ok hb.wf r
    have hle := hb.size
    unfold Bounded
    rw [hrun]
    simp only [Room, iff_true]
    refine ⟨by simp, ?_⟩
    rintro b' heq
    cases heq
    dsimp only
    omega
  | push mem buf =>
    have hgranted := granted_iff hb.whole hb.int mem buf
    rcases pushBack_outcome hb.wf mem buf with
      ⟨hover, hpush⟩ | ⟨hfits, ⟨hgrows, hmem, hpush⟩ | ⟨hmem, buffer, hpush, -⟩⟩
    · have hrun := push_error hpush
      exact ⟨fun h => absurd hrun h.1, fun h => absurd (hgranted.mpr h.1) hover⟩
    · have hrun := push_error hpush
      constructor
      · intro _
        refine ⟨hgranted.mp hfits, fun h => ?_⟩
        simp [h hgrows] at hmem
      · intro _
        unfold Bounded
        rw [hrun]
        simp
    · have hrun := push_ok hpush
      obtain ⟨-, -, hsize, hmax⟩ := pushBack_ok hb.wf hpush
      unfold Bounded
      rw [hrun]
      constructor
      · intro h
        have hle := h.2 _ rfl
        dsimp only at hle
        exact ⟨hgranted.mp hfits, fun _ => by omega⟩
      · intro h
        have hle := h.2 hmem
        refine ⟨by simp, ?_⟩
        intro b' heq
        cases heq
        dsimp only
        omega

theorem write_sized {op : WriteOp} {b b' : Backlog} (hb : b.Sized) (h : Bounded op b)
    (hrun : write op b = .ok ((), b')) : b'.Sized := by
  have hsize := h.2 b' hrun
  cases op with
  | send r =>
    obtain ⟨buffer, hsend, hwf, -, hcapacity, -⟩ := send_ok hb.wf r
    cases hsend.symm.trans hrun
    refine ⟨hwf, ?_, ?_, hsize⟩
    · exact hcapacity ▸ hb.whole
    · exact hcapacity ▸ hb.int
  | push mem buf =>
    rcases pushBack_outcome hb.wf mem buf with
      ⟨-, hpush⟩ | ⟨-, ⟨-, -, hpush⟩ | ⟨-, buffer, hpush, -, hcapacity⟩⟩
    · cases (push_error hpush).symm.trans hrun
    · cases (push_error hpush).symm.trans hrun
    · cases (push_ok hpush).symm.trans hrun
      refine ⟨(pushBack_ok hb.wf hpush).1, ?_, ?_, hsize⟩
      · rcases hcapacity with hsame | ⟨hnew, -⟩
        · exact hsame ▸ hb.whole
        · exact hnew ▸ roundUp_whole _
      · rcases hcapacity with hsame | ⟨hnew, hint⟩
        · exact hsame ▸ hb.int
        · exact hnew ▸ hint

/-! ## A run -/

/-- **The backlog stays within `maxSize` and the last `len`, and its sums within `int`, exactly along
the runs in which `sendTo` is not called with more than `maxSize` in the buffer, nor for a size
that has no capacity.** -/
theorem backlog_iff (mem : Alloc) (maxSize : Nat) (ops : List WriteOp) :
    Refine.Allowed write Bounded (start mem maxSize) ops ↔
      Refine.Allowed write Room (start mem maxSize) ops := by
  have hall : Refine.Allowed write (fun _ _ => True) (start mem maxSize) ops :=
    Refine.allowed_of_forall (fun _ _ => trivial) _ ops
  exact Refine.allowed_iff (Q := Sized) (fun _ _ hb _ => write_bounded_iff hb)
    (fun _ _ _ _ hb _ h hrun => write_sized hb h hrun) (start_sized mem maxSize) hall

/-- A peer that does not read, behind a limit `m`: one buffer that exceeds it, and one byte more. -/
def stalled (mem : Alloc) (m : Nat) : List WriteOp :=
  [.push mem (List.replicate (m + 1) 0), .send .eagain, .push mem [0]]

theorem stalled_unbounded {mem : Alloc} (hmem : mem.ok = true) {m : Nat}
    (hm : m + 1 < sizeLimit) : ¬ Refine.Allowed write Bounded (start mem m) (stalled mem m) := by
  intro ⟨hfirst, hrest⟩
  have hs := start_sized mem m
  have hgranted : Granted (.op (.pushBack mem (List.replicate (m + 1) 0))) (start mem m).buffer := by
    rw [granted_iff hs.whole hs.int, List.length_replicate]
    change 0 + (m + 1) < sizeLimit
    omega
  rcases pushBack_outcome hs.wf mem (List.replicate (m + 1) 0) with
    ⟨hover, -⟩ | ⟨-, ⟨-, hfailed, -⟩ | ⟨-, buffer, hpush, -⟩⟩
  · exact hover hgranted
  · rw [hmem] at hfailed
    cases hfailed
  · obtain ⟨-, -, hsize, hmax⟩ := pushBack_ok hs.wf hpush
    obtain ⟨-, hlast⟩ := hrest () _ (push_ok hpush)
    have hsend : write (.send .eagain) ⟨buffer, (List.replicate (m + 1) (0 : UInt8)).length⟩ =
        .ok ((), ⟨buffer, (List.replicate (m + 1) (0 : UInt8)).length⟩) := by
      simp only [write, SendResult.taken, erase, Nat.zero_min, Nat.not_lt_zero, if_false, if_true]
      rfl
    obtain ⟨hbounded, -⟩ := hlast () _ hsend
    have hroom := (write_bounded_iff (write_sized hs hfirst (push_ok hpush))).mp hbounded
    have hle := hroom.2 fun _ => hmem
    rw [List.length_replicate] at hsize
    change buffer.size ≤ buffer.maxSize at hle
    change buffer.size = 0 + (m + 1) at hsize
    change buffer.maxSize = m at hmax
    omega

/-- With the `maxSize` that `init` gives. -/
theorem stalled_exceeds : ¬ ∀ (mem : Alloc) (ops : List WriteOp),
    Refine.Allowed write Bounded (start mem bufferMaxSize) ops := by
  intro h
  have hm : bufferMaxSize + 1 < sizeLimit := by decide
  have hmem : (⟨true, fun _ => 0⟩ : Alloc).ok = true := rfl
  exact stalled_unbounded hmem hm (h _ _)

/-! ## The pollers -/

/-- The write buffer of the session at `id`, where that is still open, is as `sends` leave it. -/
def Sends {n : Nat} (id : Fin n) (b : Backlog) (sessions : Fin n → Option Session) : Prop :=
  ∃ (sends : List SendResult) (rs : List Unit) (b' : Backlog),
    Refine.run write b (sends.map .send) = .ok (rs, b') ∧
      ∀ s, sessions id = some s → s.writeBuffer = b'.buffer

/-- `sendTo` pushes, and offers the buffer to `send`; and what fails fails as `push_back` does. -/
def Writes {n : Nat} (id : Fin n) (b : Backlog) (mem : Alloc) (buf : List UInt8) :
    Except Fault (Fin n → Option Session) → Prop
  | .ok sessions => ∃ b', write (.push mem buf) b = .ok ((), b') ∧ Sends id b' sessions
  | .error e => write (.push mem buf) b = .error e

theorem push_session {s s' : Session} {mem : Alloc} {buf : List UInt8} (last : Nat)
    (h : s.push mem buf = .ok s') : (s.writeBuffer.Wf → s'.writeBuffer.Wf) ∧
      write (.push mem buf) ⟨s.writeBuffer, last⟩ = .ok ((), ⟨s'.writeBuffer, buf.length⟩) := by
  unfold Session.push at h
  obtain ⟨buffer, hpush, hret⟩ := Effect.except_bind_inv h
  cases hret
  exact ⟨fun hw => (pushBack_ok hw hpush).1, push_ok hpush⟩

theorem push_session_error {s : Session} {mem : Alloc} {buf : List UInt8} {e : Fault} (last : Nat)
    (h : s.push mem buf = .error e) :
    write (.push mem buf) ⟨s.writeBuffer, last⟩ = .error e := by
  unfold Session.push at h
  cases hpush : s.writeBuffer.pushBack mem buf with
  | error e' =>
    rw [hpush] at h
    cases h
    exact push_error hpush
  | ok buffer =>
    rw [hpush] at h
    cases h

theorem send_session {s : Session} (hw : s.writeBuffer.Wf) (r : SendResult) (last : Nat) :
    ∃ s', s.offer r = .ok s' ∧ s'.birth = s.birth ∧ s'.writeBuffer.Wf ∧
      write (.send r) ⟨s.writeBuffer, last⟩ = .ok ((), ⟨s'.writeBuffer, last⟩) := by
  cases r with
  | accepted k =>
    obtain ⟨buffer, herase, hwf, -⟩ := erase_ok hw (Nat.min_le_right k s.writeBuffer.size)
    have hoffer : ∃ s', s.offer (.accepted k) = .ok s' ∧ s'.birth = s.birth ∧
        s'.writeBuffer = buffer := by
      unfold Session.offer
      dsimp only
      rw [herase]
      exact ⟨_, rfl, rfl, rfl⟩
    obtain ⟨s', hs', hb, rfl⟩ := hoffer
    refine ⟨s', hs', hb, hwf, ?_⟩
    simp only [write, SendResult.taken, herase]
    rfl
  | eagain | error =>
    refine ⟨_, rfl, rfl, hw, ?_⟩
    simp only [write, SendResult.taken, erase, Nat.zero_min, Nat.not_lt_zero, if_false, if_true]
    rfl

def outcome {n : Nat} {σ α : Type} (sessions : σ → Fin n → Option Session) :
    EStateM.Result Fault σ α → Except Fault (Fin n → Option Session)
  | .ok _ p => .ok (sessions p)
  | .error e _ => .error e

section

open Effect

variable {n : Nat} {id : Fin n} {s : Session}

theorem Sends.none {b : Backlog} {sessions : Fin n → Option Session}
    (h : ∀ s, sessions id = some s → s.writeBuffer = b.buffer) : Sends id b sessions :=
  ⟨[], [], b, rfl, h⟩

theorem Sends.cons {b b' : Backlog} {sessions : Fin n → Option Session} {r : SendResult}
    (h : write (.send r) b = .ok ((), b')) (hrest : Sends id b' sessions) :
    Sends id b sessions := by
  obtain ⟨sends, rs, b'', hrun, hbuffer⟩ := hrest
  exact ⟨r :: sends, () :: rs, b'', Refine.run_cons h hrun, hbuffer⟩

theorem same_buffer {sessions : Fin n → Option Session} (hs : sessions id = some s) (last : Nat) :
    ∀ s', sessions id = some s' → s'.writeBuffer = (⟨s.writeBuffer, last⟩ : Backlog).buffer := by
  intro s' hs'
  cases hs.symm.trans hs'
  rfl

theorem poller_postSend {p : Poller n} (hs : p.sessions id = some s) (hw : s.writeBuffer.Wf)
    (last : Nat) (r : SendResult) {onSend : PollerM n Unit}
    (honSend : ∀ q, onSend.run q = .ok () q) : ∃ ret p',
      (Poller.postSend id r onSend).run p = .ok ret p' ∧
        Sends id ⟨s.writeBuffer, last⟩ p'.sessions := by
  unfold Poller.postSend
  rw [run_bind_ok (Poller.slot_run hs)]
  split
  · exact ⟨0, p, rfl, .none (same_buffer hs last)⟩
  · obtain ⟨s', hoffer, -, -, hwrite⟩ := send_session hw r last
    have hsends : Sends id ⟨s.writeBuffer, last⟩ (p.put id s').sessions :=
      .cons hwrite (.none (same_buffer (by simp) last))
    rw [run_bind_ok (Poller.change_run hs hoffer)]
    unfold Poller.sent
    cases r with
    | error => exact ⟨_, _, rfl, hsends⟩
    | eagain => exact ⟨_, _, rfl, hsends⟩
    | accepted k =>
      dsimp only
      split
      · exact ⟨_, _, rfl, hsends⟩
      · rw [run_bind_ok (honSend _)]
        exact ⟨_, _, rfl, hsends⟩

theorem poller_sendTo {p : Poller n} (hs : p.sessions id = some s) (hw : s.writeBuffer.Wf)
    (last : Nat) (mem : Alloc) (buf : List UInt8) (r : SendResult) {onSend : PollerM n Unit}
    (honSend : ∀ q, onSend.run q = .ok () q) :
    Writes id ⟨s.writeBuffer, last⟩ mem buf
      (outcome (fun p => p.sessions) ((Poller.sendTo id mem buf r onSend).run p)) := by
  unfold Poller.sendTo
  rw [run_bind_ok (Poller.slot_run hs)]
  cases hpush : s.push mem buf with
  | error e =>
    have hchange : (Poller.change id (·.push mem buf)).run p = .error e p :=
      Poller.change_error hs hpush
    have hwrite := push_session_error last hpush
    split
    · rw [hchange]
      exact hwrite
    · rw [run_bind_error hchange]
      exact hwrite
  | ok s' =>
    obtain ⟨hwf, hwrite⟩ := push_session last hpush
    have hchange : (Poller.change id (·.push mem buf)).run p = .ok () (p.put id s') :=
      Poller.change_run hs hpush
    have hs' : (p.put id s').sessions id = some s' := by simp
    split
    · rw [hchange]
      exact ⟨_, hwrite, .none (same_buffer hs' buf.length)⟩
    · obtain ⟨ret, p', hpost, hsends⟩ := poller_postSend hs' (hwf hw) buf.length r honSend
      rw [run_bind_ok hchange, run_bind_ok hpost]
      exact ⟨_, hwrite, hsends⟩

theorem iocp_closed (p : Iocp n) (type : CloseType) (b : Backlog) :
    ∃ p', (Iocp.closeSession id type).run p = .ok () p' ∧ Sends id b p'.sessions := by
  refine ⟨_, run_modify _ p, .none ?_⟩
  intro s hs
  cases hp : p.sessions id with
  | none => simp [hp] at hs
  | some u => simp [hp] at hs

theorem iocp_sendLoop {birth : Nat} {replies : List (IocpSend × IocpM n Unit)}
    (hreplies : ∀ h ∈ replies, ∀ q, h.2.run q = .ok () q) {p : Iocp n}
    (hs : p.sessions id = some s) (hb : s.birth = birth) (hw : s.writeBuffer.Wf) (last : Nat) :
    ∃ p', (Iocp.sendLoop id birth replies).run p = .ok () p' ∧
      Sends id ⟨s.writeBuffer, last⟩ p'.sessions := by
  induction replies generalizing p s with
  | nil =>
    unfold Iocp.sendLoop
    rw [run_bind_ok (run_get p)]
    simp only [hs]
    split
    · exact ⟨p, rfl, .none (same_buffer hs last)⟩
    · obtain ⟨s', hoffer, -, -, hwrite⟩ := send_session hw .eagain last
      exact ⟨_, Iocp.change_run hs hoffer, .cons hwrite (.none (same_buffer (by simp) last))⟩
  | cons reply rest ih =>
    obtain ⟨r, onSend⟩ := reply
    have honSend : ∀ q, onSend.run q = .ok () q := hreplies (r, onSend) (by simp)
    have hrest : ∀ h ∈ rest, ∀ q, h.2.run q = .ok () q :=
      fun h hh => hreplies h (List.mem_cons_of_mem _ hh)
    unfold Iocp.sendLoop
    rw [run_bind_ok (run_get p)]
    simp only [hs]
    split
    · exact ⟨p, rfl, .none (same_buffer hs last)⟩
    · cases r with
      | accepted k =>
        dsimp only
        split
        · exact ih hrest hs hb hw
        · obtain ⟨s', hoffer, hb', hw', hwrite⟩ := send_session hw (.accepted k) last
          have hs' : (p.put id s').sessions id = some s' := by simp
          obtain ⟨p', hloop, hsends⟩ := ih hrest hs' (hb'.trans hb) hw'
          rw [run_bind_ok (Iocp.change_run hs hoffer), run_bind_ok (honSend _)]
          exact ⟨p', hloop, .cons hwrite hsends⟩
      | eagain posted =>
        obtain ⟨s', hoffer, -, -, hwrite⟩ := send_session hw .eagain last
        rw [run_bind_ok (Iocp.change_run hs hoffer)]
        cases posted with
        | true => exact ⟨_, rfl, .cons hwrite (.none (same_buffer (by simp) last))⟩
        | false =>
          obtain ⟨p', hclose, hsends⟩ := iocp_closed (p.put id s') .wsendError1 _
          exact ⟨p', hclose, .cons hwrite hsends⟩
      | error =>
        obtain ⟨s', hoffer, -, -, hwrite⟩ := send_session hw .error last
        obtain ⟨p', hclose, hsends⟩ := iocp_closed (p.put id s') .wsendError2 _
        rw [run_bind_ok (Iocp.change_run hs hoffer)]
        exact ⟨p', hclose, .cons hwrite hsends⟩

theorem iocp_sendTo {p : Iocp n} (hs : p.sessions id = some s) (hw : s.writeBuffer.Wf)
    (last : Nat) (mem : Alloc) (buf : List UInt8) {replies : List (IocpSend × IocpM n Unit)}
    (hreplies : ∀ h ∈ replies, ∀ q, h.2.run q = .ok () q) :
    Writes id ⟨s.writeBuffer, last⟩ mem buf
      (outcome (fun p => p.sessions) ((Iocp.sendTo id mem buf replies).run p)) := by
  unfold Iocp.sendTo
  rw [run_bind_ok (Iocp.slot_run hs)]
  cases hpush : s.push mem buf with
  | error e =>
    have hchange : (Iocp.change id (·.push mem buf)).run p = .error e p :=
      Iocp.change_error hs hpush
    have hwrite := push_session_error last hpush
    split
    · rw [hchange]
      exact hwrite
    · rw [run_bind_error hchange]
      exact hwrite
  | ok s' =>
    obtain ⟨hwf, hwrite⟩ := push_session last hpush
    have hchange : (Iocp.change id (·.push mem buf)).run p = .ok () (p.put id s') :=
      Iocp.change_run hs hpush
    have hs' : (p.put id s').sessions id = some s' := by simp
    split
    · rw [hchange]
      exact ⟨_, hwrite, .none (same_buffer hs' buf.length)⟩
    · unfold Iocp.postSend
      obtain ⟨p₁, hcontexts, hp₁⟩ : ∃ p₁, (Iocp.setContexts id fun data =>
          { data with io_ctx_s := { data.io_ctx_s with action := .write } }).run (p.put id s') =
            .ok () p₁ ∧ p₁.sessions id = some s' := ⟨_, run_modify _ _, hs'⟩
      obtain ⟨p', hloop, hsends⟩ := iocp_sendLoop hreplies hp₁ rfl (hwf hw) buf.length
      rw [run_bind_ok hchange, run_bind_ok (Iocp.slot_run hs'), run_bind_ok hcontexts, hloop]
      exact ⟨_, hwrite, hsends⟩

/-- `send` and the `erase` behind it only make the buffer smaller. -/
theorem sends_sized {sends : List SendResult} {b b' : Backlog} {rs : List Unit} (hb : b.Sized)
    (h : Refine.run write b (sends.map .send) = .ok (rs, b')) : b'.Sized ∧ b'.last = b.last := by
  induction sends generalizing b rs with
  | nil =>
    cases h
    exact ⟨hb, rfl⟩
  | cons r sends ih =>
    obtain ⟨_, b₁, rest, hstep, hrest⟩ := Refine.run_cons_inv h
    have hroom : Room (.send r) b := trivial
    have hb₁ := write_sized hb ((write_bounded_iff hb).mpr hroom) hstep
    obtain ⟨buffer, hsend, -⟩ := send_ok hb.wf r
    obtain ⟨hb', hlast⟩ := ih hb₁ hrest
    cases hsend.symm.trans hstep
    exact ⟨hb', hlast⟩

theorem Writes.sized {b : Backlog} {mem : Alloc} {buf : List UInt8}
    {out : Except Fault (Fin n → Option Session)} (h : Writes id b mem buf out) (hb : b.Sized)
    (hroom : Room (.push mem buf) b) : out ≠ .error .overflow ∧
      ∀ sessions s, out = .ok sessions → sessions id = some s →
        (⟨s.writeBuffer, buf.length⟩ : Backlog).Sized := by
  have hbounded := (write_bounded_iff hb).mpr hroom
  cases out with
  | error e =>
    constructor
    · intro he
      cases he
      exact hbounded.1 h
    · intro _ _ he
      cases he
  | ok sessions =>
    obtain ⟨b₁, hpush, sends, rs, b₂, hsends, hbuffer⟩ := h
    have hb₁ := write_sized hb hbounded hpush
    obtain ⟨hb₂, hlast⟩ := sends_sized hb₁ hsends
    have hlen : b₁.last = buf.length := by
      unfold write at hpush
      obtain ⟨buffer, -, hret⟩ := except_bind_inv hpush
      cases hret
      rfl
    refine ⟨by simp, ?_⟩
    intro sessions' s heq hs
    cases heq
    rwa [hbuffer s hs, ← hlen, ← hlast]

/-- Called with room, `sendTo` leaves the write buffer of its session within the bound. -/
theorem poller_sized {p : Poller n} (hs : p.sessions id = some s) {last : Nat}
    (hb : (⟨s.writeBuffer, last⟩ : Backlog).Sized) {mem : Alloc} {buf : List UInt8}
    (hroom : Room (.push mem buf) ⟨s.writeBuffer, last⟩) (r : SendResult)
    {onSend : PollerM n Unit} (honSend : ∀ q, onSend.run q = .ok () q) {p' : Poller n}
    (h : (Poller.sendTo id mem buf r onSend).run p = .ok () p') {s' : Session}
    (hs' : p'.sessions id = some s') : (⟨s'.writeBuffer, buf.length⟩ : Backlog).Sized := by
  have hwrites := poller_sendTo hs hb.wf last mem buf r honSend
  rw [h] at hwrites
  exact (hwrites.sized hb hroom).2 _ s' rfl hs'

theorem iocp_sized {p : Iocp n} (hs : p.sessions id = some s) {last : Nat}
    (hb : (⟨s.writeBuffer, last⟩ : Backlog).Sized) {mem : Alloc} {buf : List UInt8}
    (hroom : Room (.push mem buf) ⟨s.writeBuffer, last⟩)
    {replies : List (IocpSend × IocpM n Unit)} (hreplies : ∀ h ∈ replies, ∀ q, h.2.run q = .ok () q)
    {p' : Iocp n} (h : (Iocp.sendTo id mem buf replies).run p = .ok () p') {s' : Session}
    (hs' : p'.sessions id = some s') : (⟨s'.writeBuffer, buf.length⟩ : Backlog).Sized := by
  have hwrites := iocp_sendTo hs hb.wf last mem buf hreplies
  rw [h] at hwrites
  exact (hwrites.sized hb hroom).2 _ s' rfl hs'

end

end Backlog

end ChainSocket
