import ChainSocket.Iocp.Writes

/-!
# How many writes are outstanding at a time

* `sendLoop_sends`: what the loop of `postSend` leaves of the record, whatever `onSend` does;
* `writes_single_iff`: on every run there is at most one write outstanding, as long as none is
  posted while one from within `onSend` is outstanding.
-/

namespace ChainSocket

open Effect

namespace Overlapped

structure Sound (o : Overlapped) : Prop where
  nested : o.nested = true → 0 < o.outstanding
  counted : o.outstanding ≤ o.peak
  clash : o.clash = true ↔ 1 < o.peak

/-- A write can be posted: none is outstanding, unless one is from within `onSend`. -/
def Free (o : Overlapped) : Prop := o.clash = false → o.nested = false → o.outstanding = 0

theorem fresh_sound : fresh.Sound :=
  ⟨nofun, Nat.le_refl _, by decide⟩

theorem post_sound {o : Overlapped} (h : o.Sound) (hfree : o.Free) (inside : Bool) :
    (o.post inside).Sound := by
  refine ⟨fun _ => Nat.succ_pos _, Nat.le_max_right .., ?_⟩
  change (o.clash || o.nested) = true ↔ 1 < max o.peak (o.outstanding + 1)
  cases hclash : o.clash with
  | true =>
    have hpeak := h.clash.1 hclash
    exact iff_of_true rfl (by omega)
  | false =>
    have hpeak : ¬ 1 < o.peak := fun hlt => Bool.false_ne_true (hclash.symm.trans (h.clash.2 hlt))
    cases hnested : o.nested with
    | true =>
      have hpos := h.nested hnested
      exact iff_of_true rfl (by omega)
    | false =>
      have hnone := hfree hclash hnested
      exact iff_of_false Bool.false_ne_true (by omega)

theorem post_free (o : Overlapped) : (o.post true).Free := by
  intro _ hnested
  change (o.nested || true) = false at hnested
  rw [Bool.or_true] at hnested
  cases hnested

theorem complete_sound {o : Overlapped} (h : o.Sound) : o.complete.Sound := by
  refine ⟨fun hnested => ?_, (Nat.sub_le ..).trans h.counted, h.clash⟩
  change (o.nested && decide (1 < o.outstanding)) = true at hnested
  change 0 < o.outstanding - 1
  have hmore := of_decide_eq_true (Bool.and_eq_true_iff.1 hnested).2
  omega

theorem complete_free {o : Overlapped} (h : o.Sound) : o.complete.Free := by
  intro hclash _
  change o.outstanding - 1 = 0
  have hpeak : ¬ 1 < o.peak := fun hlt => Bool.false_ne_true (hclash.symm.trans (h.clash.2 hlt))
  have hcounted := h.counted
  omega

end Overlapped

namespace IocpWrites

variable {n : Nat} {id : Fin n} {d : Nat}

def Sound (p : IocpWrites n) : Prop := p.overlapped.Sound

/-- `d` calls of `onSend` are running, and a write can be posted. -/
structure Sending (d : Nat) (p : IocpWrites n) : Prop where
  depth : p.depth = d
  sound : p.Sound
  free : p.overlapped.Free

/-- Between two calls: outside of `onSend`, a write can be posted once `writeBuffer` is empty. -/
structure Ready (id : Fin n) (d : Nat) (p : IocpWrites n) : Prop where
  depth : p.depth = d
  sound : p.Sound
  free : p.overlapped.Free ∨
    d = 0 ∧ ∀ conn, p.sessions id = some conn → 0 < conn.writeBuffer.size

theorem Sending.ready {p : IocpWrites n} (h : Sending d p) : Ready id d p :=
  ⟨h.depth, h.sound, .inl h.free⟩

theorem Ready.sending {p : IocpWrites n} (h : Ready id (d + 1) p) : Sending (d + 1) p := by
  refine ⟨h.depth, h.sound, ?_⟩
  rcases h.free with hfree | ⟨hzero, -⟩
  · exact hfree
  · cases hzero

/-! ## The loop of postSend -/

/-- What the `Poller` does leaves the record alone. -/
theorem zoom_sending {α : Type} (m : IocpM n α) :
    Triple Sound (Sending d) (iocp.zoom m) fun _ => Sending d :=
  .zoom (fun _ _ _ h _ => ⟨h.depth, h.sound, h.free⟩) fun _ _ _ h _ => h.sound

/-- `writeBuffer` is not empty. -/
def Queued (id : Fin n) (p : Iocp n) : Prop :=
  ∃ conn, p.sessions id = some conn ∧ 0 < conn.writeBuffer.size

theorem change_queued {f : Session → Except Fault Session}
    (hf : ∀ s s', f s = .ok s' → 0 < s.writeBuffer.size → 0 < s'.writeBuffer.size)
    {p p' : Iocp n} (hq : Queued id p) (hrun : (Iocp.change id f).run p = .ok () p') :
    Queued id p' := by
  obtain ⟨conn, hconn, hpos⟩ := hq
  obtain ⟨t, ht, rfl⟩ := Lens.zoom_inv hrun
  replace ht : (Table.change id f).run p.toTable = .ok () t := ht
  cases hs : f conn with
  | error e =>
    rw [Table.change_error hconn hs] at ht
    cases ht
  | ok s' =>
    rw [Table.change_run hconn hs] at ht
    cases ht
    exact ⟨s', by simp [Iocp.table], hf conn s' hs hpos⟩

theorem change_ready {f : Session → Except Fault Session}
    (hf : ∀ s s', f s = .ok s' → 0 < s.writeBuffer.size → 0 < s'.writeBuffer.size) :
    Triple Sound (Ready id d) (iocp.zoom (Iocp.change id f)) fun _ => Ready id d := by
  apply Triple.zoom
  · intro p _ q hp hrun
    refine ⟨hp.depth, hp.sound, hp.free.imp_right ?_⟩
    rintro ⟨hzero, hpos⟩
    refine ⟨hzero, ?_⟩
    cases hs : p.sessions id with
    | none =>
      have hnone := Lens.zoom_error (l := Iocp.table) (Table.change_none (f := f) hs)
      cases hnone.symm.trans hrun
    | some conn =>
      obtain ⟨conn', hs', hpos'⟩ : Queued id q := change_queued hf ⟨conn, hs, hpos conn hs⟩ hrun
      intro conn'' hs''
      cases hs'.symm.trans hs''
      exact hpos'
  · exact fun p e q hp _ => hp.sound

/-- Noting the call leaves what is queued as it is. -/
theorem hand_ready (buf : List UInt8) :
    Triple Sound (Ready id d) (iocp.zoom (Iocp.hand id buf)) fun _ => Ready id d := by
  apply change_ready
  intro s s' hs hpos
  cases hs
  exact hpos

theorem eagain_posts : Triple Sound (fun p => Sending d p ∧ Queued id p.toIocp)
    (do
      iocp.zoom (Iocp.change id (·.offer .eagain))
      post) fun _ => Ready id d := by
  apply Triple.bind (R := fun _ p => Sending d p ∧ Queued id p.toIocp)
  · apply Triple.zoom
    · rintro p _ q ⟨hp, hq⟩ hrun
      refine ⟨⟨hp.depth, hp.sound, hp.free⟩, change_queued ?_ hq hrun⟩
      intro s s' hs hpos
      cases hs
      exact hpos
    · rintro p e q ⟨hp, -⟩ -
      exact hp.sound
  · intro _
    apply Triple.modify
    rintro p ⟨hp, conn, hconn, hpos⟩
    refine ⟨hp.depth, Overlapped.post_sound hp.sound hp.free _, ?_⟩
    cases d with
    | zero =>
      refine .inr ⟨rfl, ?_⟩
      intro conn' hconn'
      cases hconn.symm.trans hconn'
      exact hpos
    | succ d =>
      have hinside : decide (0 < p.depth) = true := by simp [hp.depth]
      refine .inl ?_
      dsimp only
      rw [hinside]
      exact Overlapped.post_free _

theorem close_triple {m : IocpM n Unit} :
    Triple Sound (Sending d) (iocp.zoom m) fun _ => Ready id d :=
  (zoom_sending m).mono (fun _ h => h) fun _ _ h => h.ready

/-- What reading the session tells. -/
theorem slot_triple {P : IocpWrites n → Prop} (hP : ∀ p, P p → p.Sound) :
    Triple Sound P (iocp.zoom (Iocp.slot id)) fun conn p =>
      P p ∧ p.sessions id = some conn := by
  apply Triple.zoom
  · intro p conn q hp hrun
    cases hs : p.sessions id with
    | none =>
      have hnone := Lens.zoom_error (l := Iocp.table) (Table.slot_none hs)
      cases hnone.symm.trans hrun
    | some conn' =>
      have hsome := Lens.zoom_ok (l := Iocp.table) (Table.slot_run hs)
      cases hsome.symm.trans hrun
      exact ⟨hp, hs⟩
  · intro p e q hp hrun
    exact hP p hp

/-- `onSend` runs one level further in. -/
theorem onSend_triple {onSend next : IocpWritesM n Unit} {Q : Unit → IocpWrites n → Prop}
    (h : Triple Sound (Sending (d + 1)) onSend fun _ => Sending (d + 1))
    (hnext : Triple Sound (Sending d) next Q) :
    Triple Sound (Sending d)
      (do
        enter
        onSend
        leave
        next) Q := by
  apply Triple.bind (R := fun _ => Sending (d + 1))
  · exact .modify fun q hq => ⟨congrArg (· + 1) hq.depth, hq.sound, hq.free⟩
  · intro _
    apply h.bind
    intro _
    apply Triple.bind (R := fun _ => Sending d)
    · exact .modify fun q hq => ⟨congrArg (· - 1) hq.depth, hq.sound, hq.free⟩
    · exact fun _ => hnext

section

variable {replies : List (IocpSend × IocpWritesM n Unit)}
  (hreplies : ∀ r ∈ replies, Triple Sound (Sending (d + 1)) r.2 fun _ => Sending (d + 1))

include hreplies

theorem sendLoop_sends (birth : Nat) :
    Triple Sound (Sending d) (sendLoop id birth replies) fun _ => Ready id d := by
  have hnothing : Triple Sound (Sending d) (pure () : IocpWritesM n Unit) fun _ => Ready id d :=
    .pure fun _ h => h.ready
  induction replies with
  | nil =>
    unfold sendLoop
    apply Triple.get_bind
    intro p hp
    cases hs : p.sessions id with
    | none => exact hnothing.of_eq hp
    | some conn =>
      dsimp only
      split_ifs with hover
      · exact hnothing.of_eq hp
      · rw [not_or] at hover
        exact eagain_posts.of_eq ⟨hp, conn, hs, Nat.pos_of_ne_zero hover.2⟩
  | cons a rest ih =>
    obtain ⟨r, onSend⟩ := a
    have hrest := ih fun r hr => hreplies r (List.mem_cons_of_mem _ hr)
    unfold sendLoop
    apply Triple.get_bind
    intro p hp
    cases hs : p.sessions id with
    | none => exact hnothing.of_eq hp
    | some conn =>
      dsimp only
      split_ifs with hover
      · exact hnothing.of_eq hp
      · rw [not_or] at hover
        cases r with
        | error =>
          apply Triple.of_eq _ hp
          exact (zoom_sending _).bind fun _ => close_triple
        | eagain posted =>
          cases posted with
          | true => exact eagain_posts.of_eq ⟨hp, conn, hs, Nat.pos_of_ne_zero hover.2⟩
          | false =>
            simp only [Bool.false_eq_true, if_false]
            apply Triple.of_eq _ hp
            exact (zoom_sending _).bind fun _ => close_triple
        | accepted k =>
          dsimp only
          split_ifs
          · exact hrest.of_eq hp
          · apply Triple.of_eq _ hp
            apply (zoom_sending _).bind
            intro _
            exact onSend_triple (hreplies _ List.mem_cons_self) hrest

theorem postSend_sends : Triple Sound (Sending d) (postSend id replies) fun _ => Ready id d := by
  apply (zoom_sending _).bind
  intro conn
  apply (zoom_sending _).bind
  intro _
  exact sendLoop_sends hreplies conn.birth

theorem sendTo_ready (mem : Alloc) (buf : List UInt8) :
    Triple Sound (Ready id d) (sendTo id mem buf replies) fun _ => Ready id d := by
  apply (slot_triple fun _ h => h.sound).bind
  intro conn
  split_ifs with hqueued
  · refine (change_ready ?_).pre fun _ h => h.1
    intro s s' hpush hpos
    rw [Session.push_size hpush]
    omega
  · apply Triple.bind (R := fun _ => Sending d)
    · apply (zoom_sending _).pre
      rintro p ⟨hp, hs⟩
      refine ⟨hp.depth, hp.sound, ?_⟩
      rcases hp.free with hfree | ⟨-, hpos⟩
      · exact hfree
      · exact absurd (hpos conn hs) hqueued
    · exact fun _ => postSend_sends hreplies

theorem call_ready (c : SendCall) :
    Triple Sound (Ready id d) (call id c replies) fun _ => Ready id d := by
  apply Triple.get_bind
  intro p hp
  split_ifs
  · exact (Triple.pure fun _ h => h).of_eq hp
  · exact ((hand_ready c.buf).of_eq hp).bind fun _ => sendTo_ready hreplies c.mem c.buf

theorem do_send_ready :
    Triple Sound (Sending d) (do_send id replies) fun _ => Ready id d := by
  apply (slot_triple fun _ h => h.sound).bind
  intro conn
  split_ifs
  · exact (postSend_sends hreplies).pre fun _ h => h.1
  · exact .pure fun _ h => h.1.ready

end

/-! ## Callbacks -/

/-- The calls of `onSend`, at any depth. -/
def Inside (m : IocpWritesM n Unit) : Prop :=
  ∀ d, Triple Sound (Sending (d + 1)) m fun _ => Sending (d + 1)

theorem handlers_inside (id : Fin n) (replies : SendReplies) :
    ∀ r ∈ replies.handlers (call id) observe, Inside r.2 := by
  apply Reentrant.Replies.handlers_rule
  · exact fun d => zoom_sending _
  · exact fun x y hx hy d => (hx d).bind fun _ => hy d
  · intro c hs hhs d
    have hcall : Triple Sound (Ready id (d + 1)) (call id c hs) fun _ => Ready id (d + 1) :=
      call_ready (fun r hr => hhs r hr (d + 1)) c
    exact hcall.mono (fun _ h => h.ready) fun _ _ h => h.sending

/-! ## Every run -/

theorem onWrite_ready (id : Fin n) (e : WriteEvent) :
    Triple Sound (Ready id 0) (onWrite id e) fun _ => Ready id 0 := by
  cases e with
  | sendTo c replies => exact call_ready (fun r hr => handlers_inside id replies r hr 0) c
  | completed replies =>
    apply Triple.get_bind
    intro p hp
    split_ifs
    · exact (Triple.pure fun _ h => h).of_eq hp
    · apply Triple.of_eq _ hp
      apply Triple.bind (R := fun _ => Sending 0)
      · exact .modify fun q hq => ⟨hq.depth, Overlapped.complete_sound hq.sound,
          Overlapped.complete_free hq.sound⟩
      · intro _
        apply Triple.get_bind
        intro q hq
        split_ifs
        · exact (Triple.pure fun _ h => h.ready).of_eq hq
        · exact (do_send_ready fun r hr => handlers_inside id replies r hr 0).of_eq hq

theorem runAll_ready (id : Fin n) (es : List WriteEvent) :
    Triple Sound (Ready id 0) (runAll id es) fun _ => Ready id 0 := by
  induction es with
  | nil => exact .pure fun _ h => h
  | cons e es ih => exact (onWrite_ready id e).bind fun _ => ih

/-- On every run of `sendTo` and completions on a session from its creation on, there has been at
most one `WSASend` outstanding at any time, exactly where none has been posted while one from within
`onSend` was outstanding. -/
theorem writes_single_iff (id : Fin n) (p : Iocp n) (es : List WriteEvent) :
    (final ((runAll id es).run (start p))).overlapped.peak ≤ 1 ↔
      (final ((runAll id es).run (start p))).overlapped.clash = false := by
  have hstart : Ready id 0 (start p) := by
    refine ⟨rfl, Overlapped.fresh_sound, .inl fun _ _ => rfl⟩
  have hsound := (runAll_ready id es).final (fun _ _ h => h.sound) hstart
  rw [← Bool.not_eq_true, hsound.clash, Nat.not_lt]

def creation : Creation := ⟨⟨true, fun _ => 0⟩, true⟩

/-- A session has been opened at slot 0. -/
def connected : Iocp 2 := final ((Iocp.initNewSession 5 .accept creation).run .init)

/-- From within `onSend` a byte is sent: the `send` of it, and the one behind it, would block. -/
def overlap : WriteEvent :=
  .sendTo ⟨creation.mem, [1]⟩
    (.reply (.accepted 1)
      (.call ⟨creation.mem, [2]⟩ (.reply (.eagain true) .done .none) .done)
      (.reply (.eagain true) .done .none))

theorem nested_send_overlaps : ¬ ∀ (n : Nat) (id : Fin n) (p : Iocp n) (es : List WriteEvent),
    p.sessions id ≠ none → (final ((runAll id es).run (start p))).overlapped.peak ≤ 1 := by
  intro h
  have hopen : connected.sessions 0 ≠ none := by decide +kernel
  have htwo : (final ((runAll 0 [overlap]).run (start connected))).overlapped.peak = 2 := by
    decide +kernel
  have hone := h 2 0 connected [overlap] hopen
  omega

end IocpWrites

end ChainSocket
