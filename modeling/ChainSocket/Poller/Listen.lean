import ChainSocket.Poller.Ids

/-!
# Listening

`listenTo` of Poller.cpp, with the descriptors it opens and the answers of the system calls it makes.

* `listenTo_refused`, `listenTo_full`, `listenTo_listens`: what it does, by where it fails;
* `truthful_iff`: where what it returns is so, and a failure leaves nothing behind.
-/

namespace ChainSocket

/-- What the system answers to one `listenTo`: the descriptor of `socket`, `none` for its -1;
whether `bind`, `listen` and the registration with the poller succeed. -/
structure ListenResults where
  socket : Option Nat
  bind : Bool
  listen : Bool
  mem : Alloc
  registers : Bool

/-- A `Poller` with the descriptors that are open and its two lists of what listens. The entries of
`listenConns` are told by the births of their sessions. -/
structure ListenPoller (n : Nat) extends Poller n where
  sockets : Nat → Bool
  listenFds : List Nat
  listenConns : List Nat

abbrev ListenPollerM (n : Nat) := EStateM Fault (ListenPoller n)

/-- An `int` that is returned as a `bool`. -/
def toBool (x : Int) : Bool := x != 0

namespace ListenPoller

open Effect

variable {n : Nat}

def poller : Lens (ListenPoller n) (Poller n) where
  get s := s.toPoller
  set p s := { s with toPoller := p }
  get_set _ _ := rfl
  set_get _ := rfl
  set_set _ _ _ := rfl

/-- A descriptor that is closed is no longer registered. -/
def closeSocket (fd : Nat) : ListenPollerM n Unit :=
  modify fun s => { s with
    sockets := Function.update s.sockets fd false
    interest := Function.update s.interest fd none }

def pollAdd (registers : Bool) (fd : Nat) (i : Interest n) : ListenPollerM n Int :=
  if registers then do
    poller.zoom (Poller.pollAdd fd i)
    return 0
  else return -1

/-- The -1 of `socket` is not looked at; `bind` refuses it. -/
def createListenSocket (r : ListenResults) : ListenPollerM n Int :=
  match r.socket with
  | none => return -1
  | some listenSocket => do
    modify fun s => { s with sockets := Function.update s.sockets listenSocket true }
    if r.bind = false then return -1
    else if r.listen = false then return -1
    else return listenSocket

def listenTo (r : ListenResults) : ListenPollerM n Bool := do
  let fd ← createListenSocket r
  if fd < 0 then return toBool (-1)
  else
    let conn ← poller.zoom (Poller.initNewSession fd.toNat .listen r.mem)
    match conn with
    | none =>
      closeSocket fd.toNat
      return false
    | some id =>
      let session ← poller.zoom (Poller.slot id)
      let _ret ← pollAdd r.registers fd.toNat ⟨true, false, false, id⟩
      modify fun s => { s with
        listenFds := s.listenFds ++ [fd.toNat]
        listenConns := s.listenConns ++ [session.birth] }
      return true

/-- A descriptor that `socket` answers with was not open, and nothing of it is registered. -/
def Fresh (r : ListenResults) (s : ListenPoller n) : Prop :=
  ∀ fd, r.socket = some fd → s.sockets fd = false ∧ s.interest fd = none

/-- There is a session that listens on the new socket, and its socket is registered for reading. -/
def Listens (r : ListenResults) (s : ListenPoller n) : Prop :=
  ∃ fd id session, r.socket = some fd ∧ s.sockets fd = true ∧ s.sessions id = some session ∧
    session.type = .listen ∧ session.fd = fd ∧ s.interest fd = some ⟨true, false, false, id⟩

/-- `listenTo` returns `true` where a session listens on the new socket, and otherwise leaves
everything as it was. -/
def Truthful (r : ListenResults) (s : ListenPoller n) : Prop :=
  ∃ ret s', (listenTo r).run s = .ok ret s' ∧ (ret = true ↔ Listens r s') ∧
    (¬ Listens r s' → s' = s)

/-! ## The three ends -/

/-- No socket, or one that cannot be bound or listened on: the -1 is returned as `true`. -/
theorem listenTo_refused {r : ListenResults} {s : ListenPoller n}
    (h : r.socket = none ∨ r.bind = false ∨ r.listen = false) :
    ∃ s', (listenTo r).run s = .ok true s' ∧ s'.toPoller = s.toPoller := by
  have hcreate : ∃ s', (createListenSocket r).run s = .ok (-1) s' ∧
      s'.toPoller = s.toPoller := by
    unfold createListenSocket
    cases hsocket : r.socket with
    | none => exact ⟨s, rfl, rfl⟩
    | some fd =>
      refine ⟨{ s with sockets := Function.update s.sockets fd true }, ?_, rfl⟩
      dsimp only
      rw [run_bind_ok (run_modify _ s)]
      cases hbind : r.bind with
      | false => rfl
      | true =>
        have hlisten : r.listen = false := by simpa [hsocket, hbind] using h
        simp only [hlisten]
        rfl
  obtain ⟨s', hrun, hsame⟩ := hcreate
  refine ⟨s', ?_, hsame⟩
  unfold listenTo
  rw [run_bind_ok hrun]
  rfl

theorem createListenSocket_run {r : ListenResults} {fd : Nat} (hsocket : r.socket = some fd)
    (hbind : r.bind = true) (hlisten : r.listen = true) (s : ListenPoller n) :
    (createListenSocket r).run s =
      .ok (fd : Int) { s with sockets := Function.update s.sockets fd true } := by
  unfold createListenSocket
  rw [hsocket, hbind, hlisten]
  rfl

/-- No slot is empty: the socket is closed again. -/
theorem listenTo_full {r : ListenResults} {s : ListenPoller n} {fd : Nat} (hfresh : Fresh r s)
    (hsocket : r.socket = some fd) (hbind : r.bind = true) (hlisten : r.listen = true)
    (hfull : ∀ id, s.sessions id ≠ none) : (listenTo r).run s = .ok false s := by
  obtain ⟨hclosed, hinterest⟩ := hfresh fd hsocket
  have hnone : (Poller.initNewSession fd .listen r.mem).run s.toPoller = .ok none s.toPoller := by
    rcases Poller.initNewSession_cases s.toPoller fd .listen r.mem with
      ⟨m, -, hfree, -⟩ | ⟨-, hrun⟩
    · exact absurd hfree (hfull _)
    · exact hrun
  have hsockets : Function.update (Function.update s.sockets fd true) fd false = s.sockets := by
    rw [Function.update_idem, ← hclosed, Function.update_eq_self]
  have hsame : Function.update s.interest fd none = s.interest := by
    rw [← hinterest, Function.update_eq_self]
  have hzoom : (poller.zoom (Poller.initNewSession fd .listen r.mem)).run
      { s with sockets := Function.update s.sockets fd true } =
        .ok none { s with sockets := Function.update s.sockets fd true } :=
    Lens.zoom_ok (l := poller) hnone
  unfold listenTo
  rw [run_bind_ok (createListenSocket_run hsocket hbind hlisten s), if_neg (by omega),
    Int.toNat_natCast, run_bind_ok hzoom]
  change EStateM.Result.ok false ({ s with
    sockets := Function.update (Function.update s.sockets fd true) fd false
    interest := Function.update s.interest fd none } : ListenPoller n) = _
  rw [hsockets, hsame]

/-- What is left of the call once the session has been created. -/
theorem pollAdd_run (registers : Bool) (fd : Nat) (i : Interest n) {s : ListenPoller n}
    (hnone : s.interest fd = none) : ∃ ret, (pollAdd registers fd i).run s = .ok ret { s with
      interest := if registers then Function.update s.interest fd (some i) else s.interest } := by
  unfold pollAdd
  cases registers with
  | false => exact ⟨-1, rfl⟩
  | true =>
    have hadd : (Poller.pollAdd fd i).run s.toPoller = .ok () { s.toPoller with
        interest := Function.update s.interest fd (some i) } := by
      unfold Poller.pollAdd
      rw [run_modify]
      simp only [hnone]
    refine ⟨0, ?_⟩
    rw [if_pos rfl, run_bind_ok (Lens.zoom_ok (l := poller) hadd)]
    rfl

/-- An empty slot: the session is there, whether or not its socket could be registered. -/
theorem listenTo_listens {r : ListenResults} {s : ListenPoller n} {fd : Nat} (hfresh : Fresh r s)
    (hsocket : r.socket = some fd) (hbind : r.bind = true) (hlisten : r.listen = true)
    {id : Fin n} (hfree : s.sessions id = none) :
    ∃ s' place, (listenTo r).run s = .ok true s' ∧ s'.sockets fd = true ∧
      s'.sessions place = some (.create place fd .listen s.births r.mem) ∧
      s'.interest fd = if r.registers then some ⟨true, false, false, place⟩ else none := by
  obtain ⟨-, hinterest⟩ := hfresh fd hsocket
  rcases Poller.initNewSession_cases s.toPoller fd .listen r.mem with
    ⟨m, -, -, hrun⟩ | ⟨hfull, -⟩
  · generalize RoundRobin.rotate s.curId m = place at hrun
    generalize RoundRobin.rotate s.curId (m + 1) = next at hrun
    let opened : ListenPoller n := { s with sockets := Function.update s.sockets fd true }
    let created : ListenPoller n := { opened with
      toTable := s.toTable.create place fd .listen r.mem
      curId := next }
    have hzoom : (poller.zoom (Poller.initNewSession fd .listen r.mem)).run opened =
        .ok (some place) created := Lens.zoom_ok (l := poller) hrun
    have hfilled : created.sessions place = some (.create place fd .listen s.births r.mem) := by
      simp [created]
    have hslot : (poller.zoom (Poller.slot place)).run created =
        .ok (.create place fd .listen s.births r.mem) created :=
      Lens.zoom_ok (l := poller) (Poller.slot_run hfilled)
    obtain ⟨ret, hadd⟩ := pollAdd_run r.registers fd ⟨true, false, false, place⟩
      (s := created) hinterest
    have hlists : (listenTo r).run s = .ok true { created with
        interest := if r.registers then
          Function.update s.interest fd (some ⟨true, false, false, place⟩) else s.interest
        listenFds := s.listenFds ++ [fd]
        listenConns := s.listenConns ++ [s.births] } := by
      unfold listenTo
      rw [run_bind_ok (createListenSocket_run hsocket hbind hlisten s), if_neg (by omega),
        Int.toNat_natCast, run_bind_ok hzoom]
      dsimp only
      rw [run_bind_ok hslot, run_bind_ok hadd]
      rfl
    refine ⟨_, place, hlists, ?_, hfilled, ?_⟩
    · simp [created, opened]
    · cases r.registers with
      | false => exact hinterest
      | true => simp
  · exact absurd hfree (hfull id)

/-- **`listenTo` reports truthfully, and fails cleanly, exactly where it gets a socket that can be
bound and listened on, and then either finds no empty slot or can register the socket.** -/
theorem truthful_iff {r : ListenResults} {s : ListenPoller n} (hfresh : Fresh r s) :
    Truthful r s ↔ (r.socket ≠ none ∧ r.bind = true ∧ r.listen = true) ∧
      ((∀ id, s.sessions id ≠ none) ∨ r.registers = true) := by
  -- nothing listens where nothing is registered
  have hunregistered : ∀ s' : ListenPoller n, (∀ fd, r.socket = some fd → s'.interest fd = none) →
      ¬ Listens r s' := by
    rintro s' hnone ⟨fd, id, session, hsocket, -, -, -, -, hinterest⟩
    rw [hnone fd hsocket] at hinterest
    cases hinterest
  by_cases hlistening : r.socket ≠ none ∧ r.bind = true ∧ r.listen = true
  · obtain ⟨hsocket, hbind, hlisten⟩ := hlistening
    obtain ⟨fd, hfd⟩ := Option.ne_none_iff_exists'.mp hsocket
    by_cases hfull : ∀ id, s.sessions id ≠ none
    · have hrun := listenTo_full hfresh hfd hbind hlisten hfull
      have hnot := hunregistered s fun fd hfd => (hfresh fd hfd).2
      simp only [hsocket, hbind, hlisten, hfull, ne_eq, not_false_eq_true, implies_true, true_or,
        and_self, iff_true]
      exact ⟨false, s, hrun, by simp [hnot], fun _ => rfl⟩
    · obtain ⟨id, hfree⟩ : ∃ id, s.sessions id = none := by simpa using hfull
      obtain ⟨s', place, hrun, hopen, hfilled, hinterest⟩ :=
        listenTo_listens hfresh hfd hbind hlisten hfree
      have hlistens : Listens r s' ↔ r.registers = true := by
        cases hregisters : r.registers with
        | true =>
          rw [hregisters, if_pos rfl] at hinterest
          exact iff_of_true ⟨fd, place, _, hfd, hopen, hfilled, rfl, rfl, hinterest⟩ rfl
        | false =>
          rw [hregisters, if_neg (by simp)] at hinterest
          refine iff_of_false (hunregistered s' fun fd' hfd' => ?_) (by simp)
          rw [hfd, Option.some.injEq] at hfd'
          rwa [← hfd']
      constructor
      · rintro ⟨ret, s₁, hrun', hret, -⟩
        rw [hrun] at hrun'
        cases hrun'
        exact ⟨⟨hsocket, hbind, hlisten⟩, .inr (hlistens.mp (hret.mp rfl))⟩
      · rintro ⟨-, hcond⟩
        have hregisters := hcond.resolve_left hfull
        refine ⟨true, s', hrun, ?_, ?_⟩
        · simp [hlistens, hregisters]
        · simp [hlistens, hregisters]
  · have hrefused : r.socket = none ∨ r.bind = false ∨ r.listen = false := by
      cases hsocket : r.socket with
      | none => exact .inl rfl
      | some fd => simpa [hsocket, imp_iff_not_or] using hlistening
    obtain ⟨s', hrun, hsame⟩ := listenTo_refused (s := s) hrefused
    refine iff_of_false ?_ fun h => hlistening h.1
    rintro ⟨ret, s₁, hrun', hret, -⟩
    rw [hrun] at hrun'
    cases hrun'
    refine hunregistered s' (fun fd hfd => ?_) (hret.mp rfl)
    rw [hsame]
    exact (hfresh fd hfd).2

/-- A poller before the first session. -/
def idle (h : 0 < n) : ListenPoller n :=
  { Poller.init h with sockets := fun _ => false, listenFds := [], listenConns := [] }

theorem truthful_first : Truthful ⟨some 3, true, true, ⟨true, fun _ => 0⟩, true⟩
    (idle Nat.two_pos) := by
  apply (truthful_iff ?_).mpr
  · exact ⟨⟨by simp, rfl, rfl⟩, .inr rfl⟩
  · intro fd _
    exact ⟨rfl, rfl⟩

/-- A port that is in use. -/
theorem refused_reported : ¬ ∀ (n : Nat) (r : ListenResults) (s : ListenPoller n), Fresh r s →
    Truthful r s := by
  intro h
  obtain ⟨ret, s', hrun, hret, -⟩ := h 2 ⟨some 3, false, true, ⟨true, fun _ => 0⟩, true⟩
    (idle Nat.two_pos) fun fd _ => ⟨rfl, rfl⟩
  obtain ⟨s₁, hrefused, hsame⟩ := listenTo_refused (n := 2)
    (r := ⟨some 3, false, true, ⟨true, fun _ => 0⟩, true⟩) (s := idle Nat.two_pos) (.inr (.inl rfl))
  rw [hrefused] at hrun
  cases hrun
  obtain ⟨fd, id, session, -, -, hfilled, -⟩ := hret.mp rfl
  rw [hsame] at hfilled
  cases hfilled

end ListenPoller

end ChainSocket
