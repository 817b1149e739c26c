import ChainSocket.Poller.Room
import Mathlib.Data.List.Induction

/-!
# The limit on what is read

`handleReadEvent` over the buffer of one session, with an `onRecv` that erases the first bytes.

* `handleReadEvent_alone`, `readAll_within`: on a session of a `Poller`;
* `within_step`: what a step keeps of the capacity, as long as it does not outgrow the limit;
* `bounded_iff`: the runs in which no answer of `recv` takes the buffer past its limit and the room
  of one allocation.
-/

namespace ChainSocket

namespace MessageBuffer

def setMaxSize (b : MessageBuffer) (size : Nat) : MessageBuffer := { b with maxSize := size }

/-- Either there was room enough, or the capacity is computed anew. -/
theorem alloc_eq {b b' : MessageBuffer} {mem : Alloc} (h : b.alloc mem = .ok b') :
    b.size + bufferSize * 2 ≤ b.capacity ∧ b' = b ∨
      b.capacity < b.size + bufferSize * 2 ∧
        b' = { b with capacity := roundUp b.size, buff := mem.realloc b.buff (roundUp b.size) } := by
  unfold alloc at h
  split_ifs at h with hroom hmax
  · cases h
    exact .inl ⟨hroom, rfl⟩
  · cases hb : b.buff with
    | none =>
      rw [hb] at h
      cases h
    | some block =>
      rw [hb] at h
      cases h
      exact .inr ⟨Nat.not_le.mp hroom, rfl⟩

theorem erase_eq {b b' : MessageBuffer} {len : Nat} (h : b.erase len = .ok b') :
    len ≤ b.size ∧ b'.size = b.size - len ∧ b'.capacity = b.capacity ∧ b'.maxSize = b.maxSize ∧
      (b'.buff = none ↔ b.buff = none) := by
  unfold erase at h
  by_cases hlen : b.size < len
  · rw [if_pos hlen] at h
    cases h
  rw [if_neg hlen] at h
  by_cases hzero : len = 0
  · rw [if_pos hzero] at h
    cases h
    simp [hzero]
  rw [if_neg hzero] at h
  cases hb : b.buff with
  | none =>
    rw [hb] at h
    dsimp only at h
    split_ifs at h
    cases h
    simp [Nat.not_lt.mp hlen]
  | some block =>
    rw [hb] at h
    cases h
    simp [Nat.not_lt.mp hlen]

/-- What becomes of the block when `size` bytes are written, `alloc` follows, and then an `erase`. -/
inductive Read (b : MessageBuffer) (mem : Alloc) (size : Nat) (b' : MessageBuffer) : Prop
  | room (room : b.size + size + bufferSize * 2 ≤ b.capacity) (wf : b'.Wf) (some : b'.buff ≠ none)
      (capacity : b'.capacity = b.capacity)
  | grown (grows : b.capacity < b.size + size + bufferSize * 2) (ok : mem.ok = true) (wf : b'.Wf)
      (some : b'.buff ≠ none) (capacity : b'.capacity = roundUp (b.size + size))
  | lost (failed : mem.ok = false) (none : b'.buff = none)

theorem read_ends {b b₁ b₂ b₃ : MessageBuffer} {mem : Alloc} {bytes : List UInt8} {erased : Nat}
    (hw : b.Wf) (hwrite : b.write bytes = .ok b₁) (halloc : b₁.alloc mem = .ok b₂)
    (herase : b₂.erase erased = .ok b₃) : b.size + bytes.length ≤ b.capacity ∧
      b₃.maxSize = b.maxSize ∧ b₃.size = b.size + bytes.length - erased ∧
      b.Read mem bytes.length b₃ := by
  have hsome : b₁.buff ≠ none ∧ b.size + bytes.length ≤ b.capacity := by
    unfold write at hwrite
    cases hb : b.buff with
    | none =>
      rw [hb] at hwrite
      cases hwrite
    | some block =>
      have hlen := (hw.block block hb).1
      rw [hb] at hwrite
      dsimp only at hwrite
      split_ifs at hwrite with hroom
      cases hwrite
      exact ⟨Option.some_ne_none _, by omega⟩
  obtain ⟨hsome, hfits⟩ := hsome
  obtain ⟨hw₁, -, hsize₁, hcap₁, hmax₁⟩ := write_ok hw hwrite
  obtain ⟨hle, hsize₃, hcap₃, hmax₃, hnone₃⟩ := erase_eq herase
  have herases : b₂.Wf → b₃.Wf := by
    intro hw₂
    obtain ⟨b₄, hb₄, hw₄, -⟩ := erase_ok hw₂ hle
    rw [herase] at hb₄
    cases hb₄
    exact hw₄
  cases alloc_eq halloc with
  | inl hroom =>
    obtain ⟨hroom, rfl⟩ := hroom
    refine ⟨hfits, by rw [hmax₃, hmax₁], by rw [hsize₃, hsize₁], .room ?_ (herases hw₁) ?_ ?_⟩
    · rw [← hsize₁, ← hcap₁]
      exact hroom
    · rwa [Ne, hnone₃]
    · rw [hcap₃, hcap₁]
  | inr hgrow =>
    obtain ⟨hgrows, heq⟩ := hgrow
    have hsize₂ : b₂.size = b₁.size := by rw [heq]
    have hmax₂ : b₂.maxSize = b₁.maxSize := by rw [heq]
    have hcap₂ : b₂.capacity = roundUp b₁.size := by rw [heq]
    refine ⟨hfits, by rw [hmax₃, hmax₂, hmax₁], by rw [hsize₃, hsize₂, hsize₁], ?_⟩
    cases hmem : mem.ok with
    | true =>
      refine .grown ?_ hmem (herases (alloc_ok hw₁ hmem halloc).1) ?_ ?_
      · rw [← hsize₁, ← hcap₁]
        exact hgrows
      · rw [Ne, hnone₃, heq]
        simp [Alloc.realloc, hmem]
      · rw [hcap₃, hcap₂, hsize₁]
    | false =>
      refine .lost hmem ?_
      rw [hnone₃, heq]
      simp [Alloc.realloc, hmem]

/-- As long as there is a block, a buffer within its limit has no more room than one allocation
makes there. -/
structure Within (m : Nat) (b : MessageBuffer) : Prop where
  limit : b.maxSize = m
  size : b.size ≤ m + 3 * bufferSize
  room : b.buff ≠ none → b.Wf ∧ (b.size ≤ m → b.capacity ≤ m + 3 * bufferSize)

theorem init_within (mem : Alloc) (m : Nat) : ((init mem).setMaxSize m).Within m := by
  refine ⟨rfl, Nat.zero_le _, fun _ => ⟨?_, fun _ => ?_⟩⟩
  · exact ⟨(init_wf mem).null, (init_wf mem).block⟩
  · change bufferSize ≤ m + 3 * bufferSize
    omega

end MessageBuffer

/-- A readable session: what `recv` and the `realloc` answer, and how much `onRecv` erases. -/
structure ReadEvent where
  recv : RecvResult
  mem : Alloc
  erased : Nat

namespace Session

/-- `handleReadEvent`, and what it returns. -/
def handleReadEvent (s : Session) (e : ReadEvent) : Except Fault (Int × Session) :=
  if s.readBuffer.maxSize < s.readBuffer.size then .ok (-1, s)
  else
    match e.recv with
    | .received [] => .ok (-3, s)
    | .received (byte :: bytes) => do
      let s ← s.receive e.mem (byte :: bytes)
      let s ← s.consume e.erased
      return (0, s)
    | .eagain => .ok (0, s)
    | .error => .ok (-4, s)

def readEvents : List ReadEvent → Session → Except Fault Session
  | [], s => .ok s
  | e :: es, s => do
    let (_, s) ← s.handleReadEvent e
    readEvents es s

/-- A new session with this `maxSize` for what it reads. -/
def limited (slot fd : Nat) (type : SessionType) (birth : Nat) (mem : Alloc) (m : Nat) : Session :=
  let s := create slot fd type birth mem
  { s with readBuffer := s.readBuffer.setMaxSize m }

theorem readEvents_append {before after : List ReadEvent} {s s' : Session}
    (h : readEvents before s = .ok s') :
    readEvents (before ++ after) s = readEvents after s' := by
  induction before generalizing s with
  | nil =>
    cases h
    rfl
  | cons e before ih =>
    obtain ⟨⟨ret, s₁⟩, hstep, hrest⟩ := Effect.except_bind_inv h
    rw [List.cons_append]
    simp only [readEvents, hstep]
    exact ih hrest

/-- A step that reads: the bytes go in, the buffer grows, `onRecv` erases. -/
structure Reads (s : Session) (e : ReadEvent) (bytes : List UInt8) (s' : Session) : Prop where
  recv : e.recv = .received bytes
  some : bytes ≠ []
  allowed : s.readBuffer.size ≤ s.readBuffer.maxSize
  steps : ∃ b₁ b₂ b₃, s.readBuffer.write bytes = .ok b₁ ∧ b₁.alloc e.mem = .ok b₂ ∧
    b₂.erase e.erased = .ok b₃ ∧ s' = { s with readBuffer := b₃ }

theorem handleReadEvent_cases {s s' : Session} {e : ReadEvent} {ret : Int}
    (h : s.handleReadEvent e = .ok (ret, s')) :
    s' = s ∧ (∀ bytes, e.recv = .received bytes → bytes ≠ [] →
        s.readBuffer.maxSize < s.readBuffer.size) ∨
      ∃ bytes, s.Reads e bytes s' := by
  unfold handleReadEvent at h
  split_ifs at h with hfull
  · cases h
    exact .inl ⟨rfl, fun _ _ _ => hfull⟩
  · cases hrecv : e.recv with
    | eagain | error =>
      rw [hrecv] at h
      cases h
      exact .inl ⟨rfl, fun _ h => by cases h⟩
    | received bytes =>
      rw [hrecv] at h
      cases bytes with
      | nil =>
        cases h
        refine .inl ⟨rfl, fun bytes h hne => ?_⟩
        cases h
        exact absurd rfl hne
      | cons byte bytes =>
        obtain ⟨s₂, hreceive, hrest⟩ := Effect.except_bind_inv h
        obtain ⟨s₃, hconsume, hret⟩ := Effect.except_bind_inv hrest
        cases hret
        obtain ⟨b₁, hwrite, hgrow⟩ := Effect.except_bind_inv hreceive
        obtain ⟨b₂, halloc, hret⟩ := Effect.except_bind_inv hgrow
        cases hret
        obtain ⟨b₃, herase, hret⟩ := Effect.except_bind_inv hconsume
        cases hret
        exact .inr ⟨byte :: bytes, hrecv, List.cons_ne_nil _ _, Nat.not_lt.mp hfull,
          b₁, b₂, b₃, hwrite, halloc, herase, rfl⟩

theorem Reads.some_block {s s' : Session} {e : ReadEvent} {bytes : List UInt8}
    (h : s.Reads e bytes s') : s.readBuffer.buff ≠ none := by
  obtain ⟨b₁, -, -, hwrite, -⟩ := h.steps
  intro hnone
  unfold MessageBuffer.write at hwrite
  rw [hnone] at hwrite
  cases hwrite

theorem Reads.ends {s s' : Session} {e : ReadEvent} {bytes : List UInt8} (h : s.Reads e bytes s')
    (hw : s.readBuffer.Wf) : s.readBuffer.size + bytes.length ≤ s.readBuffer.capacity ∧
      s'.readBuffer.maxSize = s.readBuffer.maxSize ∧
      s'.readBuffer.size = s.readBuffer.size + bytes.length - e.erased ∧
      s.readBuffer.Read e.mem bytes.length s'.readBuffer := by
  obtain ⟨b₁, b₂, b₃, hwrite, halloc, herase, rfl⟩ := h.steps
  exact MessageBuffer.read_ends hw hwrite halloc herase

/-- The step makes the buffer larger than its limit and one allocation allow, and `onRecv` brings
it back within the limit. -/
structure Outgrows (m : Nat) (s : Session) (e : ReadEvent) (bytes : List UInt8) : Prop where
  recv : e.recv = .received bytes
  some : bytes ≠ []
  allowed : s.readBuffer.size ≤ m
  grows : s.readBuffer.capacity < s.readBuffer.size + bytes.length + bufferSize * 2
  block : e.mem.ok = true
  beyond : m + 3 * bufferSize < MessageBuffer.roundUp (s.readBuffer.size + bytes.length)
  back : s.readBuffer.size + bytes.length - e.erased ≤ m

theorem within_step {m : Nat} {s s' : Session} {e : ReadEvent} {ret : Int}
    (hs : s.readBuffer.Within m) (h : s.handleReadEvent e = .ok (ret, s'))
    (hout : ∀ bytes, ¬ s.Outgrows m e bytes) : s'.readBuffer.Within m := by
  cases handleReadEvent_cases h with
  | inl hsame => rwa [hsame.1]
  | inr hreads =>
    obtain ⟨bytes, hreads⟩ := hreads
    obtain ⟨hw, hcap⟩ := hs.room hreads.some_block
    obtain ⟨hfits, hmax, hsize, hends⟩ := hreads.ends hw
    have hallowed := hreads.allowed
    rw [hs.limit] at hallowed
    have hroom := hcap hallowed
    refine ⟨hmax.trans hs.limit, by omega, fun hblock => ?_⟩
    cases hends with
    | room _ wf _ capacity => exact ⟨wf, fun _ => by omega⟩
    | grown grows ok wf _ capacity =>
      refine ⟨wf, fun hback => ?_⟩
      by_contra hover
      rw [capacity] at hover
      rw [hsize] at hback
      exact hout bytes
        ⟨hreads.recv, hreads.some, hallowed, grows, ok, Nat.not_le.mp hover, hback⟩
    | lost _ none => exact absurd none hblock

/-- A step that outgrows leaves a buffer within its limit that `recv` can fill beyond. -/
theorem outgrows_room {m : Nat} {s s' : Session} {e : ReadEvent} {ret : Int}
    {bytes : List UInt8} (hs : s.readBuffer.Within m) (h : s.handleReadEvent e = .ok (ret, s'))
    (hout : s.Outgrows m e bytes) : s'.readBuffer.size ≤ s'.readBuffer.maxSize ∧
      ∃ bytes' b, s'.readBuffer.write bytes' = .ok b ∧ m + 3 * bufferSize < b.size := by
  have hallowed := hout.allowed
  cases handleReadEvent_cases h with
  | inl hsame =>
    have hfull := hsame.2 bytes hout.recv hout.some
    rw [hs.limit] at hfull
    omega
  | inr hreads =>
    obtain ⟨bytes', hreads⟩ := hreads
    have hbytes := hout.recv
    rw [hreads.recv, RecvResult.received.injEq] at hbytes
    subst hbytes
    obtain ⟨hw, -⟩ := hs.room hreads.some_block
    obtain ⟨-, hmax, hsize, hends⟩ := hreads.ends hw
    refine ⟨by rw [hmax, hs.limit, hsize]; exact hout.back, ?_⟩
    cases hends with
    | room room => exact absurd hout.grows (by omega)
    | lost failed => exact absurd hout.block (by simp [failed])
    | grown _ _ wf some capacity =>
      have hover := hout.beyond
      obtain ⟨block, hblock⟩ := Option.ne_none_iff_exists'.mp some
      have hle := (wf.block block hblock).2
      obtain ⟨b, hb, -⟩ := MessageBuffer.write_fits
        (List.replicate (s'.readBuffer.capacity - s'.readBuffer.size) 0) wf some
        (by rw [List.length_replicate]; omega)
      refine ⟨_, b, hb, ?_⟩
      have hfull := MessageBuffer.write_size hb
      rw [List.length_replicate] at hfull
      omega

/-- Wherever the run has come to, the buffer is no larger than its limit and the room of one
allocation, and no answer of the next `recv` makes it so. -/
def Bounded (m : Nat) (start : Session) (es : List ReadEvent) : Prop :=
  ∀ before s, before <+: es → readEvents before start = .ok s →
    s.readBuffer.size ≤ m + 3 * bufferSize ∧
    ∀ bytes b, s.readBuffer.size ≤ s.readBuffer.maxSize → s.readBuffer.write bytes = .ok b →
      b.size ≤ m + 3 * bufferSize

/-- No step of the run outgrows the limit. -/
def NeverOutgrows (m : Nat) (start : Session) (es : List ReadEvent) : Prop :=
  ∀ before e s ret s', before ++ [e] <+: es → readEvents before start = .ok s →
    s.handleReadEvent e = .ok (ret, s') → ∀ bytes, ¬ s.Outgrows m e bytes

theorem within_bounded {m : Nat} {s : Session} (hs : s.readBuffer.Within m) {bytes : List UInt8}
    {b : MessageBuffer} (hallowed : s.readBuffer.size ≤ s.readBuffer.maxSize)
    (hwrite : s.readBuffer.write bytes = .ok b) : b.size ≤ m + 3 * bufferSize := by
  have hsome : s.readBuffer.buff ≠ none := by
    intro hnone
    unfold MessageBuffer.write at hwrite
    rw [hnone] at hwrite
    cases hwrite
  obtain ⟨hw, hcap⟩ := hs.room hsome
  obtain ⟨hw', -, hsize, hcapacity, -⟩ := MessageBuffer.write_ok hw hwrite
  have hle : b.size ≤ b.capacity := by
    cases hb : b.buff with
    | none => rw [(hw'.null hb).1]; exact Nat.zero_le _
    | some block => exact (hw'.block block hb).2
  rw [hs.limit] at hallowed
  have hroom := hcap hallowed
  omega

/-- The last step of a run. -/
theorem readEvents_concat {before : List ReadEvent} {e : ReadEvent} {start s' : Session}
    (h : readEvents (before ++ [e]) start = .ok s') :
    ∃ s ret, readEvents before start = .ok s ∧ s.handleReadEvent e = .ok (ret, s') := by
  induction before generalizing start with
  | nil =>
    obtain ⟨⟨ret, s₁⟩, hstep, hrest⟩ := Effect.except_bind_inv h
    cases hrest
    exact ⟨start, ret, rfl, hstep⟩
  | cons e' before ih =>
    obtain ⟨⟨ret', s₁⟩, hstep, hrest⟩ := Effect.except_bind_inv h
    obtain ⟨s, ret, hbefore, hlast⟩ := ih hrest
    refine ⟨s, ret, ?_, hlast⟩
    simp only [readEvents, hstep]
    exact hbefore

theorem within_run {m : Nat} {start : Session} {es : List ReadEvent}
    (h₀ : start.readBuffer.Within m) (h : NeverOutgrows m start es) {before : List ReadEvent} :
    ∀ {s : Session}, before <+: es → readEvents before start = .ok s → s.readBuffer.Within m := by
  induction before using List.reverseRecOn with
  | nil =>
    intro s _ hrun
    cases hrun
    exact h₀
  | append_singleton before e ih =>
    intro s' hbefore hrun
    obtain ⟨s, ret, hrun', hstep⟩ := readEvents_concat hrun
    have hs := ih ((List.prefix_append before [e]).trans hbefore) hrun'
    exact within_step hs hstep (h before e s ret s' hbefore hrun' hstep)

theorem bounded_within {m : Nat} {start : Session} {es : List ReadEvent}
    (h₀ : start.readBuffer.Within m) (h : Bounded m start es) {before : List ReadEvent} :
    ∀ {s : Session}, before <+: es → readEvents before start = .ok s → s.readBuffer.Within m := by
  induction before using List.reverseRecOn with
  | nil =>
    intro s _ hrun
    cases hrun
    exact h₀
  | append_singleton before e ih =>
    intro s' hbefore hrun
    obtain ⟨s, ret, hrun', hstep⟩ := readEvents_concat hrun
    have hs := ih ((List.prefix_append before [e]).trans hbefore) hrun'
    refine within_step hs hstep fun bytes hout => ?_
    obtain ⟨hallowed, bytes', b, hwrite, hover⟩ := outgrows_room hs hstep hout
    have hle := (h (before ++ [e]) s' hbefore hrun).2 bytes' b hallowed hwrite
    omega

/-- **The buffer of a new session stays within its limit and the room of one allocation, whatever
`recv` answers next, exactly along the runs in which `onRecv` never brings a buffer that has been
allocated beyond that back within the limit.** -/
theorem bounded_iff (slot fd : Nat) (type : SessionType) (birth : Nat) (mem : Alloc) (m : Nat)
    (es : List ReadEvent) : Bounded m (limited slot fd type birth mem m) es ↔
      NeverOutgrows m (limited slot fd type birth mem m) es := by
  have h₀ : (limited slot fd type birth mem m).readBuffer.Within m :=
    MessageBuffer.init_within mem m
  constructor
  · intro h before e s ret s' hbefore hrun hstep bytes hout
    have hs := bounded_within h₀ h ((List.prefix_append before [e]).trans hbefore) hrun
    obtain ⟨hallowed, bytes', b, hwrite, hover⟩ := outgrows_room hs hstep hout
    have hrun' : readEvents (before ++ [e]) (limited slot fd type birth mem m) = .ok s' := by
      rw [readEvents_append hrun]
      simp only [readEvents, hstep]
      rfl
    have hle := (h (before ++ [e]) s' hbefore hrun').2 bytes' b hallowed hwrite
    omega
  · intro h before s hbefore hrun
    have hs := within_run h₀ h hbefore hrun
    exact ⟨hs.size, fun bytes b hallowed hwrite => within_bounded hs hallowed hwrite⟩

/-- A limit of one `BUFFER_SIZE`: a small read that makes room, and a larger one that makes more,
both of them consumed. -/
def growing : List ReadEvent := [⟨.received [1], ⟨true, fun _ => 0⟩, 1⟩,
  ⟨.received (List.replicate 2048 1), ⟨true, fun _ => 0⟩, 2048⟩]

end Session

namespace Poller

open Effect

variable {n : Nat}

/-- The script of a callback that erases the first bytes it has read. -/
theorem run_consume {p : Poller n} {id : Fin n} {s s' : Session} {len : Nat}
    (hs : p.sessions id = some s) (h : s.consume len = .ok s') :
    ∃ p', (run (.call (.consume id len) .none .done)).run p = .ok () p' ∧
      p'.sessions = Function.update p.sessions id (some s') := by
  have hobserve : ∀ q : Poller n, ∃ q', (table.zoom Table.observe).run q = .ok () q' ∧
      q'.sessions = q.sessions := fun q => ⟨_, rfl, rfl⟩
  obtain ⟨q, hq, hqs⟩ := hobserve p
  have hslot : q.sessions id = some s := by rw [hqs, hs]
  have hcall : (call (.consume id len) []).run q = .ok () (q.put id s') := by
    unfold call
    rw [run_bind_ok (run_get q)]
    dsimp only
    rw [if_neg (by simp [hslot])]
    exact change_run hslot h
  obtain ⟨p', hp', hps⟩ := hobserve (q.put id s')
  refine ⟨p', ?_, ?_⟩
  · unfold run
    rw [Reentrant.Script.run, run_bind_ok hq, Reentrant.Replies.handlers, run_bind_ok hcall,
      Reentrant.Script.run]
    exact hp'
  · rw [hps, ← hqs]
    rfl

/-- On a session of a `Poller`, with an `onRecv` that erases. -/
theorem handleReadEvent_alone {p : Poller n} {id : Fin n} {s s' : Session} {e : ReadEvent}
    {ret : Int} (hs : p.sessions id = some s) (h : s.handleReadEvent e = .ok (ret, s')) :
    ∃ p', (handleReadEvent id e.mem e.recv
        (run (.call (.consume id e.erased) .none .done))).run p = .ok ret p' ∧
      p'.sessions = Function.update p.sessions id (some s') := by
  have hsame : Function.update p.sessions id (some s) = p.sessions := by
    rw [← hs, Function.update_eq_self]
  unfold handleReadEvent
  rw [run_bind_ok (slot_run hs)]
  unfold Session.handleReadEvent at h
  split_ifs at h with hfull
  · cases h
    rw [if_pos hfull]
    exact ⟨p, rfl, hsame.symm⟩
  rw [if_neg hfull]
  cases hrecv : e.recv with
  | eagain | error =>
    rw [hrecv] at h
    cases h
    exact ⟨p, rfl, hsame.symm⟩
  | received bytes =>
    rw [hrecv] at h
    cases bytes with
    | nil =>
      cases h
      exact ⟨p, rfl, hsame.symm⟩
    | cons byte bytes =>
      obtain ⟨s₁, hreceive, hrest⟩ := except_bind_inv h
      obtain ⟨s₂, hconsume, hret⟩ := except_bind_inv hrest
      cases hret
      have hput : (p.put id s₁).sessions id = some s₁ := by simp
      obtain ⟨p', hscript, hsessions⟩ := run_consume hput hconsume
      dsimp only
      rw [run_bind_ok (change_run hs hreceive), run_bind_ok hscript]
      refine ⟨p', rfl, ?_⟩
      rw [hsessions]
      exact Function.update_idem ..

/-- The readable events of one session, one after the other. -/
def readAll (id : Fin n) : List ReadEvent → PollerM n Unit
  | [] => return ()
  | e :: es => do
    let _ ← handleReadEvent id e.mem e.recv (run (.call (.consume id e.erased) .none .done))
    readAll id es

theorem readAll_alone {id : Fin n} {es : List ReadEvent} {p : Poller n} {s s' : Session}
    (hs : p.sessions id = some s) (h : Session.readEvents es s = .ok s') :
    ∃ p', (readAll id es).run p = .ok () p' ∧
      p'.sessions = Function.update p.sessions id (some s') := by
  induction es generalizing p s with
  | nil =>
    cases h
    exact ⟨p, rfl, by rw [← hs, Function.update_eq_self]⟩
  | cons e es ih =>
    obtain ⟨⟨ret, s₁⟩, hstep, hrest⟩ := except_bind_inv h
    obtain ⟨p₁, hp₁, hsessions⟩ := handleReadEvent_alone hs hstep
    have hs₁ : p₁.sessions id = some s₁ := by simp [hsessions]
    obtain ⟨p', hp', hlast⟩ := ih hs₁ hrest
    refine ⟨p', ?_, by rw [hlast, hsessions, Function.update_idem]⟩
    unfold readAll
    rw [run_bind_ok hp₁, hp']

/-- What the events leave in the slot is within the limit, as long as no step outgrows it. -/
theorem readAll_within {id : Fin n} {m : Nat} {es : List ReadEvent} {p : Poller n}
    {start s' : Session} (hs : p.sessions id = some start) (h₀ : start.readBuffer.Within m)
    (hnever : Session.NeverOutgrows m start es) (h : Session.readEvents es start = .ok s') :
    ∃ p' s, (readAll id es).run p = .ok () p' ∧ p'.sessions id = some s ∧
      s.readBuffer.Within m := by
  obtain ⟨p', hrun, hsessions⟩ := readAll_alone hs h
  refine ⟨p', s', hrun, by simp [hsessions], ?_⟩
  exact Session.within_run h₀ hnever List.prefix_rfl h

/-- The same limit: with nothing left in the buffer, the next `recv` may take 5120 bytes. -/
theorem growing_unbounded : ¬ ∀ (slot fd : Nat) (type : SessionType) (birth : Nat) (mem : Alloc)
    (m : Nat), bufferSize ≤ m → ∀ es, Session.Bounded m (.limited slot fd type birth mem m) es := by
  intro h
  have hb := h 0 5 .accept 0 ⟨true, fun _ => 0⟩ 1024 (by decide) Session.growing
  have hsizes : (Session.readEvents Session.growing
      (.limited 0 5 .accept 0 ⟨true, fun _ => 0⟩ 1024)).toOption.map
        (fun s => (s.readBuffer.size, s.readBuffer.maxSize,
          (s.readBuffer.write (List.replicate 5120 1)).toOption.map MessageBuffer.size)) =
      some (0, 1024, some 5120) := by
    decide +kernel
  cases hrun : Session.readEvents Session.growing
    (.limited 0 5 .accept 0 ⟨true, fun _ => 0⟩ 1024) with
  | error e =>
    rw [hrun] at hsizes
    cases hsizes
  | ok s =>
    rw [hrun] at hsizes
    simp only [Except.toOption, Option.map_some, Option.some.injEq, Prod.mk.injEq] at hsizes
    obtain ⟨hsize, hmax, hwrite⟩ := hsizes
    cases hw : s.readBuffer.write (List.replicate 5120 1) with
    | error e =>
      rw [hw] at hwrite
      cases hwrite
    | ok b =>
      rw [hw] at hwrite
      have hle := (hb _ s List.prefix_rfl hrun).2 _ b (by omega) hw
      simp only [Option.map_some, Option.some.injEq] at hwrite
      rw [hwrite] at hle
      exact absurd hle (by decide)

end Poller

end ChainSocket
