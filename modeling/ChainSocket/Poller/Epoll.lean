import ChainSocket.Poller.Armed
import Mathlib.Data.List.Nodup

/-!
# One-shot events

The loop over epoll with what the kernel does between its turns: an event takes what a one-shot
entry asks for out of the interest list, until a `pollMod` asks for it again.

* `epoll_reads`: no connection is deaf when the loop goes back to wait;
* `interest_iff`: the interest list is that of the registered sessions;
* `deliveries_matched`: what epoll reports is for the sessions that are open.
-/

namespace ChainSocket

open Effect

variable {n : Nat}

/-- What stays of an entry of the interest list when an event of it is reported. -/
def Interest.fired (i : Interest n) : Interest n :=
  if i.once then { i with read := false, write := false } else i

theorem Interest.ptr_fired (i : Interest n) : i.fired.ptr = i.ptr := by
  unfold fired
  split <;> rfl

/-- An event that `epoll_wait` reports, with its descriptor. -/
structure Delivery (n : Nat) where
  fd : Nat
  event : PollEvent n

namespace Poller

/-- What `epoll_wait` reports: one event at most for each entry of the interest list, of what it
asks for, with the pointer of the entry and for the session that has the descriptor. -/
structure Delivers (p : Poller n) (ds : List (Delivery n)) : Prop where
  once : (ds.map Delivery.fd).Nodup
  entry : ∀ d ∈ ds, ∃ i, p.interest d.fd = some i ∧ i.ptr = d.event.id ∧
    (i.read = true ∨ i.write = true) ∧ (d.event.read = true → i.read = true) ∧
      (d.event.write = true → i.write = true)
  owner : ∀ d ∈ ds, p.owner d.fd = some d.event.birth

/-- The interest list that the `epoll_wait` of `pollGetEvents` leaves. -/
def pollGetEvents (p : Poller n) (ds : List (Delivery n)) : Poller n :=
  { p with interest := fun fd =>
      if fd ∈ ds.map Delivery.fd then (p.interest fd).map Interest.fired else p.interest fd }

/-- The states between the turns of a process over epoll. -/
inductive EpollRun : Poller n → Prop
  | init (h : 0 < n) : EpollRun (init h)
  | user {p p' : Poller n} (script : PollerScript n) (before : EpollRun p)
      (returned : (run script).run p = .ok () p') : EpollRun p'
  | batch {p p' : Poller n} (ds : List (Delivery n)) (before : EpollRun p)
      (delivered : p.Delivers ds)
      (returned : (loopOnce (ds.map Delivery.event)).run (p.pollGetEvents ds) = .ok () p') : EpollRun p'

/-! ## The runs of a process -/

section

variable {p : Poller n} {ds : List (Delivery n)}

theorem pollGetEvents_heard (h : p.Heard fun _ => False) (hds : p.Delivers ds) :
    (p.pollGetEvents ds).Heard fun id => id ∈ (ds.map Delivery.event).map PollEvent.id := by
  have hentry : ∀ fd i, (p.pollGetEvents ds).interest fd = some i →
      ∃ i', p.interest fd = some i' ∧ i'.ptr = i.ptr := by
    intro fd i hi
    dsimp only [pollGetEvents] at hi
    split_ifs at hi
    · obtain ⟨i', hi', rfl⟩ := Option.map_eq_some_iff.mp hi
      exact ⟨i', hi', i'.ptr_fired.symm⟩
    · exact ⟨i, hi, rfl⟩
  constructor
  · exact h.wf
  · intro fd i hi
    obtain ⟨i', hi', hptr⟩ := hentry fd i hi
    rw [← hptr]
    exact h.owned fd i' hi'
  · intro id s hs hreg
    obtain ⟨i, hi⟩ := h.kept id s hs hreg
    dsimp only [pollGetEvents]
    rw [hi]
    split_ifs <;> exact ⟨_, rfl⟩
  · intro id s i hposted hi
    dsimp only [pollGetEvents] at hi
    split_ifs at hi with hfd
    · obtain ⟨d, hd, hsame⟩ := List.mem_map.mp hfd
      obtain ⟨i', hi', hptr, -⟩ := hds.entry d hd
      rw [hsame] at hi'
      obtain ⟨hid, -⟩ := h.session hposted.1 hi'
      right
      rw [List.map_map]
      exact List.mem_map.mpr ⟨d, hd, by rw [Function.comp_apply, ← hptr, hid]⟩
    · exact .inl ((h.armed id s i hposted hi).resolve_right not_false)

theorem EpollRun.heard (h : EpollRun p) : p.Heard fun _ => False := by
  induction h with
  | init hn => exact init_heard hn
  | user script _ returned ih => exact (run_keeps script).ok _ _ _ ih returned
  | @batch p p' ds _ delivered returned ih =>
    rw [loopOnce_run] at returned
    have hbegun : (begun (p.pollGetEvents ds) (ds.map Delivery.event)).Heard
        fun id => id ∈ (ds.map Delivery.event).map PollEvent.id :=
      (pollGetEvents_heard ih delivered).congr (fun _ => rfl) rfl rfl
    exact (handleAll_heard _).ok _ _ _ hbegun returned

/-- No connection is deaf when the loop goes back to wait: whatever the callbacks have done, epoll
is asked for reading on every open connection given to `postRecv`, with its slot. -/
theorem epoll_reads (h : EpollRun p) {id : Fin n} {s : Session} (hs : p.Posted id s) :
    ∃ i, p.interest s.fd = some i ∧ i.ptr = id ∧ i.read = true := by
  have hheard := h.heard
  obtain ⟨i, hi⟩ := hheard.kept id s hs.1 hs.2.2
  obtain ⟨hptr, -⟩ := hheard.session hs.1 hi
  exact ⟨i, hi, hptr, (hheard.armed id s i hs hi).resolve_right not_false⟩

/-- The interest list is that of the open sessions given to `postRecv`. -/
theorem interest_iff (h : EpollRun p) (fd : Nat) (id : Fin n) :
    (∃ i, p.interest fd = some i ∧ i.ptr = id) ↔
      ∃ s, p.sessions id = some s ∧ s.fd = fd ∧ s.registered = true := by
  have hheard := h.heard
  constructor
  · rintro ⟨i, hi, rfl⟩
    exact hheard.owned fd i hi
  · rintro ⟨s, hs, rfl, hreg⟩
    obtain ⟨i, hi⟩ := hheard.kept id s hs hreg
    exact ⟨i, hi, (hheard.session hs hi).1⟩

/-- A batch has one event at most for a slot, and each is for the session that is open there when
`epoll_wait` reports it; where none is created in a slot an event waits for, it is handled on that
session. -/
theorem deliveries_matched (h : EpollRun p) (hds : p.Delivers ds) :
    ((ds.map Delivery.event).map PollEvent.id).Nodup ∧
      (∀ d ∈ ds, ∃ s, p.sessions d.event.id = some s ∧ s.fd = d.fd ∧
        s.birth = d.event.birth) ∧
      (final ((loopOnce (ds.map Delivery.event)).run (p.pollGetEvents ds))).Matched := by
  have hheard := h.heard
  have hopen : ∀ d ∈ ds, ∃ s, p.sessions d.event.id = some s ∧ s.fd = d.fd ∧
      s.birth = d.event.birth := by
    intro d hd
    obtain ⟨i, hi, hptr, -⟩ := hds.entry d hd
    obtain ⟨s, hs, hfd, -⟩ := hheard.owned d.fd i hi
    have howner := hheard.wf.owned i.ptr s hs
    rw [hfd, hds.owner d hd, Option.some.injEq] at howner
    exact ⟨s, hptr ▸ hs, hfd, howner.symm⟩
  refine ⟨?_, hopen, ?_⟩
  · rw [List.map_map]
    refine List.Nodup.map_on ?_ hds.once.of_map
    intro d hd d' hd' heq
    obtain ⟨s, hs, hfd, -⟩ := hopen d hd
    obtain ⟨s', hs', hfd', -⟩ := hopen d' hd'
    simp only [Function.comp_apply] at heq
    rw [heq, hs'] at hs
    cases hs
    exact List.inj_on_of_nodup_map hds.once hd hd' (hfd.symm.trans hfd')
  · have hwf : (p.pollGetEvents ds).toTable.Wf := hheard.wf
    apply loopOnce_matched hwf
    intro e he s hs
    rw [List.map_map] at he
    obtain ⟨d, hd, rfl⟩ := List.mem_map.mp he
    obtain ⟨u, hu, -, hbirth⟩ := hopen d hd
    have hsame : p.sessions d.event.id = some s := hs
    rw [hu] at hsame
    cases hsame
    exact hbirth

end

/-! ## An event with nothing to read -/

/-- The one event that epoll reports for the connection that stalls. -/
def readable : Delivery 1 :=
  ⟨5, ⟨0, 0, true, false, .eagain, ⟨true, fun _ => 0⟩, .done, .eagain, .done, []⟩⟩

theorem stalled_owner : stalled.owner 5 = some 0 := by decide +kernel

theorem readable_delivers : stalled.Delivers [readable] := by
  have hfd : readable.fd = 5 := rfl
  constructor
  · exact List.nodup_singleton _
  · intro d hd
    rw [List.mem_singleton.mp hd, hfd, stalled_interest]
    exact ⟨_, rfl, rfl, .inl rfl, fun _ => rfl, fun h => by cases h⟩
  · intro d hd
    rw [List.mem_singleton.mp hd, hfd, stalled_owner]
    rfl

def answered : Poller 1 :=
  final ((loopOnce ([readable].map Delivery.event)).run (stalled.pollGetEvents [readable]))

theorem stalled_run : EpollRun stalled :=
  .user stallScript (.init Nat.one_pos) stalled_returned

theorem answered_run : EpollRun answered :=
  .batch [readable] stalled_run readable_delivers (eq_ok_of_returns (by decide +kernel))

theorem epoll_reads_answered : ∃ s i, answered.sessions 0 = some s ∧
    answered.interest s.fd = some i ∧ i.ptr = 0 ∧ i.read = true := by
  have h : (answered.sessions 0).map (fun s => (s.type, s.registered)) = some (.accept, true) := by
    decide +kernel
  obtain ⟨s, hs, heq⟩ := Option.map_eq_some_iff.mp h
  simp only [Prod.mk.injEq] at heq
  obtain ⟨i, hi⟩ := epoll_reads answered_run ⟨hs, .inl heq.1, heq.2⟩
  exact ⟨s, i, hs, hi⟩

theorem interest_iff_answered : (∃ i, answered.interest 5 = some i ∧ i.ptr = 0) ↔
    ∃ s, answered.sessions 0 = some s ∧ s.fd = 5 ∧ s.registered = true :=
  interest_iff answered_run 5 0

theorem deliveries_matched_readable :
    (∃ s, stalled.sessions readable.event.id = some s ∧ s.fd = readable.fd ∧
      s.birth = readable.event.birth) ∧ answered.Matched := by
  obtain ⟨-, hopen, hmatched⟩ := deliveries_matched stalled_run readable_delivers
  exact ⟨hopen readable (List.mem_singleton_self _), hmatched⟩

end Poller

end ChainSocket
