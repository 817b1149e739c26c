import ChainSocket.Poller.Runs

/-!
# Bytes that are never flushed

Epoll reports `EVENT_WRITE` only where it was asked for, `postRecv` does not ask for it, and
`loopOnce` asks for it only where it was reported: so nothing ever does. A session has queued bytes
that something can flush exactly as long as it has no queued bytes, which is as long as every
`send` has accepted all it was offered.
-/

namespace ChainSocket.Poller

open Effect

variable {n : Nat}

/-- Epoll reports `EVENT_WRITE` for an entry of the interest list that has it. -/
def EpollReports (p : Poller n) : Turn n → Prop
  | .user _ => True
  | .batch es => ∀ e ∈ es, e.write = true →
      ∃ fd i, p.interest fd = some i ∧ i.ptr = e.id ∧ i.write = true

/-- An open connection that has been given to `postRecv`. -/
def Posted (p : Poller n) (id : Fin n) (s : Session) : Prop :=
  p.sessions id = some s ∧ (s.type = .accept ∨ s.type = .connect) ∧ s.registered = true

/-- Whatever is queued, the poller waits for the chance to send it. -/
def Flushable (p : Poller n) : Prop :=
  ∀ id s, p.Posted id s → 0 < s.writeBuffer.size →
    ∃ i, p.interest s.fd = some i ∧ i.write = true

/-- Nothing in the interest list asks for `EVENT_WRITE`, and bytes are queued exactly where a
`send` was short. -/
structure Quiet (p : Poller n) : Prop where
  settled : p.toTable.Settled
  interest : ∀ fd i, p.interest fd = some i → i.write = false

theorem init_quiet (h : 0 < n) : (init h).Quiet := by
  constructor
  · intro id s hs
    cases hs
  · intro fd i hi
    cases hi

theorem step_quiet {p p' : Poller n} (h : Step (Table.LoopMove false) false p p')
    (hp : p.Quiet) : p'.Quiet := by
  refine ⟨step_table (fun _ _ => Table.loop_settled) ?_ h hp.settled, ?_⟩
  · intro t id fd type mem _ hs
    exact Table.create_settled hs id fd type mem
  cases h with
  | table | create | curId => exact hp.interest
  | forget fd =>
    intro fd' i hi
    dsimp only at hi
    rw [Function.update_apply] at hi
    split_ifs at hi
    exact hp.interest fd' i hi
  | watch fd i writable =>
    intro fd' i' hi
    dsimp only at hi
    rw [Function.update_apply] at hi
    split_ifs at hi
    · cases hi
      cases hw : i.write with
      | false => rfl
      | true => cases writable hw
    · exact hp.interest fd' i' hi

/-- Where nothing is asked for, nothing is reported. -/
theorem turn_quiet {p p' : Poller n} {t : Turn n} (hp : p.Quiet) (hreports : EpollReports p t)
    (hrun : (turn t).run p = .ok () p') : p'.Quiet := by
  refine turn_ok (w := false) (fun _ _ h => ⟨h.settled, h.interest⟩)
    (fun _ _ => step_quiet) ?_ hrun hp
  intro es ht e he hwrite
  subst ht
  obtain ⟨fd, i, hi, -, hiw⟩ := hreports e he hwrite
  rw [hp.interest fd i hi] at hiw
  cases hiw

theorem reachable_quiet {p : Poller n} (h : Reachable EpollReports p) : p.Quiet := by
  induction h with
  | init hn => exact init_quiet hn
  | turn _ reported returned ih => exact turn_quiet ih reported returned

theorem quiet_flushable {p : Poller n} (h : p.Quiet) :
    p.Flushable ↔ ∀ id s, p.Posted id s → s.short = false := by
  constructor
  · intro hflush id s hs
    cases hshort : s.short with
    | false => rfl
    | true =>
      have hqueued := (h.settled id s hs.1).2.1 hshort
      obtain ⟨i, hi, hwrite⟩ := hflush id s hs hqueued
      rw [h.interest s.fd i hi] at hwrite
      cases hwrite
  · intro hshort id s hs hqueued
    have hs' := (h.settled id s hs.1).2.2 hqueued
    rw [hshort id s hs] at hs'
    cases hs'

/-- At the end of a `loopOnce`, every queued byte has `EVENT_WRITE` to flush it exactly when no
open session has had a short `send`. -/
theorem flushable_iff_never_short {p p' : Poller n} {es : List (PollEvent n)}
    (hp : Reachable EpollReports p) (hes : EpollReports p (.batch es))
    (hrun : (loopOnce es).run p = .ok () p') :
    p'.Flushable ↔ ∀ id s, p'.Posted id s → s.short = false :=
  quiet_flushable (turn_quiet (t := .batch es) (reachable_quiet hp) hes hrun)

theorem begun_interest (p : Poller n) (es : List (PollEvent n)) :
    (p.begun es).interest = p.interest := rfl

theorem begun_posted {p : Poller n} {es : List (PollEvent n)} {id : Fin n} {s : Session} :
    (p.begun es).Posted id s ↔ p.Posted id s := Iff.rfl

/-! ## A connection that stalls -/

/-- A connection is registered, and the one byte sent on it is not accepted. -/
def stallScript : PollerScript 1 :=
  .call (.initNewSession 5 .accept ⟨true, fun _ => 0⟩) .none
    (.call (.postRecv Table.front) .none
      (.call (.sendTo Table.front ⟨true, fun _ => 0⟩ [7]) (.reply .eagain .done .none) .done))

def stalled : Poller 1 := final ((turn (.user stallScript)).run (init Nat.one_pos))

theorem stalled_returned : (turn (.user stallScript)).run (init Nat.one_pos) = .ok () stalled :=
  eq_ok_of_returns (by decide +kernel)

theorem stalled_reachable : Reachable EpollReports stalled :=
  .turn (t := .user stallScript) (.init Nat.one_pos) trivial stalled_returned

theorem stalled_session : ∃ s, stalled.Posted 0 s ∧ s.fd = 5 ∧ s.writeBuffer.size = 1 := by
  have h : (stalled.sessions 0).map
      (fun s => (s.type, s.registered, s.fd, s.writeBuffer.size)) = some (.accept, true, 5, 1) := by
    decide +kernel
  obtain ⟨s, hs, heq⟩ := Option.map_eq_some_iff.1 h
  simp only [Prod.mk.injEq] at heq
  obtain ⟨htype, hreg, hfd, hsize⟩ := heq
  exact ⟨s, ⟨hs, .inl htype, hreg⟩, hfd, hsize⟩

theorem stalled_interest : stalled.interest 5 = some ⟨true, false, false, 0⟩ := by
  decide +kernel

/-- A `loopOnce` that has nothing to handle leaves the byte with nothing to flush it. -/
theorem short_send_stalls : ¬ ∀ (n : Nat) (p p' : Poller n) (es : List (PollEvent n)),
    Reachable EpollReports p → EpollReports p (.batch es) →
      (loopOnce es).run p = .ok () p' → p'.Flushable := by
  intro h
  have hflush := h 1 stalled (stalled.begun []) [] stalled_reachable
    (fun e he => by cases he) (loopOnce_run [])
  obtain ⟨s, hs, hfd, hsize⟩ := stalled_session
  obtain ⟨i, hi, hwrite⟩ := hflush 0 s (begun_posted.2 hs) (by omega)
  rw [hfd, begun_interest, stalled_interest] at hi
  cases hi
  cases hwrite

/-- Once the loop has gone round, the byte is queued and its `send` was short. -/
theorem flushable_iff_never_short_stalled : (stalled.begun []).Flushable ↔
    ∀ id s, (stalled.begun []).Posted id s → s.short = false :=
  flushable_iff_never_short stalled_reachable (fun e he => by cases he) (loopOnce_run [])

end ChainSocket.Poller
