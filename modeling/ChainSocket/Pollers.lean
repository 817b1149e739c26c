import ChainSocket.Handed

/-!
# Both pollers

What holds of `Poller.cpp` and of `IOCPPoller.cpp` alike.
-/

namespace ChainSocket.Pollers

open Effect

/-- In every session, what `send` has accepted and then what is queued is what `sendTo` has been
called with. -/
def Whole {n : Nat} (sessions : Fin n → Option Session) : Prop :=
  ∀ id s, sessions id = some s → s.accepted ++ s.writeBuffer.data = s.handed

/-- At every entry and exit of a callback, between the calls, and where the run returns. -/
structure NothingLost {n : Nat} {σ : Type} (l : Lens σ (Table n))
    (run : EStateM.Result Fault σ Unit) : Prop where
  trail : ∀ view ∈ (l.get (final run)).trail, Whole view
  now : returns run = true → Whole (l.get (final run)).sessions

theorem given_nothing_lost {n : Nat} {σ : Type} {l : Lens σ (Table n)} {m : EStateM Fault σ Unit}
    {p : σ} (hm : Keeps l m) (hp : (l.get p).Given Table.nothing)
    (hstreams : (l.get (final (m.run p))).Streams) : NothingLost l (m.run p) := by
  have hpast : (l.get (final (m.run p))).Past := hm.final (fun _ _ h => h.past) hp
  constructor
  · intro view hview id s hs
    rw [hpast view hview id s hs]
    exact (hstreams.trail view hview id s hs).stream
  · intro hreturns id s hs
    have hgiven := hm.ok p () _ hp (eq_ok_of_returns hreturns)
    rw [hgiven.now id s hs, Table.nothing, List.append_nil]
    exact (hstreams.now id s hs).stream

theorem nothing_lost {n m : Nat} {reports : Poller n → Poller.Turn n → Prop} {p : Poller n}
    {q : Iocp m} (hp : Poller.Reachable reports p) (hq : Iocp.Reachable q) (t : Poller.Turn n)
    (u : Iocp.Turn m) :
    NothingLost Poller.table ((Poller.turn t).run p) ∧
      NothingLost Iocp.table ((Iocp.turn u).run q) := by
  constructor
  · apply given_nothing_lost (Poller.turn_given t) (Poller.reachable_given hp)
    exact Poller.turn_streams (Poller.reachable_streams hp) t
  · apply given_nothing_lost (Iocp.turn_given u) (Iocp.reachable_given hq)
    exact Iocp.turn_streams (Iocp.reachable_streams hq) u

def mem : Alloc := ⟨true, fun _ => 0⟩

/-- Two of three bytes are accepted, and `onSend` queues a fourth. -/
def nestedScript : PollerScript 1 :=
  .call (.initNewSession 5 .accept mem) .none
    (.call (.sendTo Table.front mem [1, 2, 3])
      (.reply (.accepted 2) (.call (.sendTo Table.front mem [4]) .none .done) .none) .done)

def iocpNestedScript : IocpScript 2 :=
  .call (.initNewSession 5 .accept ⟨mem, true⟩) .none
    (.call (.sendTo Table.front mem [1, 2, 3])
      (.reply (.accepted 2) (.call (.sendTo Table.front mem [4]) .none .done) .none) .done)

/-- What the sessions have been handed, when a turn has ended. -/
def handed {n : Nat} (t : Table n) : List (Option (List UInt8)) :=
  (List.finRange n).map fun id => (t.sessions id).map Session.handed

theorem nothing_lost_nested :
    handed (final ((Poller.turn (.user nestedScript)).run (.init Nat.one_pos))).toTable =
      [some [1, 2, 3, 4]] ∧
    handed (final ((Iocp.turn (.user iocpNestedScript)).run .init)).toTable =
      [some [1, 2, 3, 4], none] ∧
    NothingLost Poller.table ((Poller.turn (.user nestedScript)).run (.init Nat.one_pos)) ∧
      NothingLost Iocp.table ((Iocp.turn (.user iocpNestedScript)).run .init) :=
  have hp : Poller.Reachable (fun _ _ => True) (.init Nat.one_pos) := .init Nat.one_pos
  ⟨by decide +kernel, by decide +kernel,
    nothing_lost hp .init (.user nestedScript) (.user iocpNestedScript)⟩

/-- Every action of the batch has been on the session whose event it was for. -/
def ActsMatch {n : Nat} (t : Table n) : Prop := ∀ a ∈ t.acts, a.event = a.target

/-- Where the batch is handled undisturbed, every action is on the session whose event it is
for. -/
theorem acts_match {n m : Nat} {p : Poller n} {es : List (PollEvent n)} {q : Iocp m}
    {cs : List (Completion m)} (hp : p.toTable.Wf)
    (hes : p.toTable.ForOpen (es.map PollEvent.waiting))
    (hcs : q.toTable.ForOpen (cs.map Completion.waiting)) :
    ((final ((Poller.loopOnce es).run p)).Undisturbed →
      ActsMatch (final ((Poller.loopOnce es).run p)).toTable) ∧
    ((final ((Iocp.loopOnce cs).run q)).Undisturbed →
      ActsMatch (final ((Iocp.loopOnce cs).run q)).toTable) := by
  constructor
  · intro hu
    exact ((Poller.loopOnce_matched hp hes).table hu).acts
  · intro hu
    exact ((Iocp.loopOnce_matched hcs).table hu).acts

def pairScript : PollerScript 2 :=
  .call (.initNewSession 5 .accept mem) .none (.call (.initNewSession 6 .accept mem) .none .done)

/-- Two connections are open. -/
def pair : Poller 2 := final ((Poller.turn (.user pairScript)).run (.init Nat.two_pos))

def readEvent (id : Fin 2) (birth : Nat) (onRecv : PollerScript 2) : PollEvent 2 :=
  { id, birth, read := true, write := false, recv := .received [7], mem, onRecv,
    send := .eagain, onSend := .done, accepts := [] }

/-- `id` is closed, and a connection is made in its place. -/
def replace (id : Fin 2) : PollerScript 2 :=
  .call (.closeSession id .normal) .none (.call (.initNewSession 8 .connect mem) .none .done)

theorem pair_wf : pair.toTable.Wf :=
  have hpair : Poller.Reachable (fun _ _ => True) pair :=
    .turn (t := .user pairScript) (.init Nat.two_pos) trivial (eq_ok_of_returns (by decide +kernel))
  Poller.reachable_wf hpair

/-- It is enough to look at the births. -/
theorem forOpen_of_births {n : Nat} {t : Table n} {events : List (Waiting n)}
    (h : ∀ e ∈ events, (t.sessions e.id).map Session.birth = some e.birth) :
    t.ForOpen events := by
  intro e he s hs
  have hb := h e he
  rw [hs] at hb
  exact Option.some.inj hb

theorem pair_events : pair.toTable.ForOpen [⟨0, 0⟩, ⟨1, 1⟩] :=
  forOpen_of_births (by decide +kernel)

def listenScript : IocpScript 3 :=
  .call (.listenTo 6 ⟨mem, true⟩ ⟨some 7, true⟩) .none .done

/-- A listener, behind the sessions that `before` has made. -/
def listener (before : IocpScript 3 → IocpScript 3) : Iocp 3 :=
  final ((Iocp.turn (.user (before listenScript))).run .init)

def connectScript (next : IocpScript 3) : IocpScript 3 :=
  .call (.initNewSession 5 .connect ⟨mem, true⟩) .none next

def acceptCompletion (id : Fin 3) (birth : Nat) : Completion 3 :=
  { id, birth, ctx := some .r, mem, reads := [], drained := .eagain, onRecv := .done,
    sends := .none, creation := ⟨mem, true⟩, onAccept := .done, accepts := [], posting := ⟨some 8, true⟩ }

theorem acts_match_pair :
    ActsMatch (final ((Poller.loopOnce [readEvent 0 0 .done, readEvent 1 1 (replace 0)]).run
      pair)).toTable ∧
    ActsMatch (final ((Iocp.loopOnce [acceptCompletion 0 0]).run (listener id))).toTable := by
  have hlistener : (listener id).toTable.ForOpen [⟨0, 0⟩] := forOpen_of_births (by decide +kernel)
  obtain ⟨hpoll, hiocp⟩ := @acts_match 2 3 pair [readEvent 0 0 .done, readEvent 1 1 (replace 0)]
    (listener id) [acceptCompletion 0 0] pair_wf pair_events hlistener
  constructor
  · apply hpoll
    unfold Poller.Undisturbed
    decide +kernel
  · apply hiocp
    constructor <;> decide +kernel

/-- A session made in the place of one whose event waits gets its event; and a listener behind
another session has its connections accepted on that one. -/
theorem acts_stray :
    (¬ ∀ (n : Nat) (p : Poller n) (es : List (PollEvent n)), p.toTable.Wf →
      p.toTable.ForOpen (es.map PollEvent.waiting) →
        ActsMatch (final ((Poller.loopOnce es).run p)).toTable) ∧
    ¬ ∀ (n : Nat) (p : Iocp n) (es : List (Completion n)),
      p.toTable.ForOpen (es.map Completion.waiting) →
        ActsMatch (final ((Iocp.loopOnce es).run p)).toTable := by
  constructor
  · intro h
    have hacts := h 2 pair [readEvent 0 0 (replace 1), readEvent 1 1 .done] pair_wf pair_events
    have hact : (⟨1, 2⟩ : Act) ∈ (final ((Poller.loopOnce
        [readEvent 0 0 (replace 1), readEvent 1 1 .done]).run pair)).acts := by
      decide +kernel
    cases hacts _ hact
  · intro h
    have hacts := h 3 (listener connectScript) [acceptCompletion 1 1]
      (forOpen_of_births (by decide +kernel))
    have hact : (⟨1, 0⟩ : Act) ∈ (final ((Iocp.loopOnce [acceptCompletion 1 1]).run
        (listener connectScript))).acts := by
      decide +kernel
    cases hacts _ hact

end ChainSocket.Pollers
