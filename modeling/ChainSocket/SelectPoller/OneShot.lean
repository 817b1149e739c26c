import ChainSocket.SelectPoller.Interest
import ChainSocket.SelectPoller.Scan

/-!
# SelectPoller as a one-shot interest map

`refines_iff`: the histories in which each call does to the map, and answers from it, what
`loopOnce` relies on.
-/

namespace ChainSocket.SelectPoller

/-- A call, with the passes that `pollGetEvents` can make. -/
inductive Call
  | pollAdd (sockFd : Nat) (flag : EventFlags) (ptr : UInt64)
  | pollMod (sockFd : Nat) (flag : EventFlags) (ptr : UInt64)
  | pollDel (sockFd : Nat)
  | pollGetEvents (nowtick timeout : Int) (maxEvent : Int32) (passes : List SelectPass)

/-- What a call returns and leaves; none where it does not return. -/
def step (p : SelectPoller) : SelectPoller.Call → Option (Nat × SelectPoller)
  | .pollAdd sockFd flag ptr => some (0, p.pollAdd sockFd flag ptr)
  | .pollMod sockFd flag ptr => some (0, p.pollMod sockFd flag ptr)
  | .pollDel sockFd => some (0, p.pollDel sockFd)
  | .pollGetEvents nowtick timeout maxEvent passes =>
    p.pollGetEvents nowtick timeout maxEvent passes

/-! ## The pass that returns -/

def scanned (p : SelectPoller) (maxEvent : Int32) (pass : SelectPass) :
    List SocketData × Bool :=
  scan maxEvent pass 0 (ranges p.clients.length p.clients) []

/-- The clients that `select` is asked for in a pass, each with its answer. -/
def asked (p : SelectPoller) (pass : SelectPass) : List (SocketData × SelectResult) :=
  askedFor pass 0 (ranges p.clients.length p.clients)

def lastPass (p : SelectPoller) (nowtick timeout : Int) (maxEvent : Int32)
    (passes : List SelectPass) : Option SelectPass :=
  passes.find? fun pass => (p.scanned maxEvent pass).2 ||
    decide (0 < (p.scanned maxEvent pass).1.length ∨ nowtick + timeout < pass.tick)

theorem scanned_takesUp (p : SelectPoller) (maxEvent : Int32) (pass : SelectPass) :
    TakesUp maxEvent pass.stale (reported (p.asked pass)) [] (p.scanned maxEvent pass).1 :=
  scan_takesUp ..

/-- A pass that ends early has no events. -/
theorem scanned_early {p : SelectPoller} {maxEvent : Int32} {pass : SelectPass}
    (h : (p.scanned maxEvent pass).2 = true) : (p.scanned maxEvent pass).1 = [] := by
  have hflat := ranges_flatten p.clients.length.le_refl
  have hne := ranges_ne_nil p.clients.length p.clients
  unfold scanned at h ⊢
  generalize ranges p.clients.length p.clients = rs at h hflat hne ⊢
  cases rs with
  | nil => rfl
  | cons range rest =>
    have hmax := early_first (hflat ▸ p.sorted) hne h
    simp [scan, hmax]

theorem asked_sublist (p : SelectPoller) (pass : SelectPass) :
    ((p.asked pass).map Prod.fst).Sublist p.clients := by
  have hsub (i : Nat) (rest : List (List SocketData)) :
      ((askedFor pass i rest).map Prod.fst).Sublist rest.flatten := by
    induction rest generalizing i with
    | nil => exact .slnil
    | cons range rest ih =>
      unfold askedFor
      split
      · simp
      · simpa [Function.comp_def] using ih (i + 1)
  have h := hsub 0 (ranges p.clients.length p.clients)
  rwa [ranges_flatten p.clients.length.le_refl] at h

theorem asked_fds (p : SelectPoller) (pass : SelectPass) :
    ((p.asked pass).map (·.1.fd)).Nodup := by
  have hclients : (p.clients.map SocketData.fd).Nodup :=
    List.pairwise_map.mpr (p.sorted.imp fun h => h.ne)
  have h := hclients.sublist ((p.asked_sublist pass).map SocketData.fd)
  rwa [List.map_map] at h

theorem asked_mem {p : SelectPoller} {pass : SelectPass} {x : SocketData × SelectResult}
    (h : x ∈ p.asked pass) : x.1 ∈ p.clients :=
  (p.asked_sublist pass).mem (List.mem_map_of_mem h)

theorem asked_unique {p : SelectPoller} {pass : SelectPass} {x y : SocketData × SelectResult}
    (hx : x ∈ p.asked pass) (hy : y ∈ p.asked pass) (h : x.1.fd = y.1.fd) : x = y :=
  List.inj_on_of_nodup_map (p.asked_fds pass) hx hy h

/-! ## The map after a call -/

/-- It was asked for once, and has been reported. -/
def Spent (m : InterestMap) (evClients : List SocketData) (fd : Nat) : Prop :=
  (∃ E ∈ evClients, E.fd = fd) ∧ ∃ reg, m fd = some reg ∧ reg.flag.once = true

theorem interest_eraseOnce (p : SelectPoller) (evClients : List SocketData) (fd : Nat) :
    (p.eraseOnce evClients).interest fd =
      if evClients.any fun E => E.fd = fd && E.flag.once then none else p.interest fd := by
  induction evClients generalizing p with
  | nil => simp [eraseOnce]
  | cons E evClients ih =>
    have hstep : p.eraseOnce (E :: evClients) =
      (if E.flag.once then p.erase E.fd else p).eraseOnce evClients := rfl
    rw [hstep, ih]
    by_cases honce : E.flag.once = true
    · rw [if_pos honce, interest_erase, List.any_cons, honce, Bool.and_true]
      by_cases hfd : E.fd = fd
      · simp [hfd]
      · simp [hfd, Function.update_of_ne (Ne.symm hfd)]
    · simp [honce]

theorem pollGetEvents_spec {p p' : SelectPoller} {nowtick timeout : Int} {maxEvent : Int32}
    {passes : List SelectPass} {n : Nat}
    (h : p.pollGetEvents nowtick timeout maxEvent passes = some (n, p')) :
    ∃ pass, p.lastPass nowtick timeout maxEvent passes = some pass ∧
      p'.evClients = (p.scanned maxEvent pass).1 ∧ n = p'.evClients.length ∧
      ∀ fd, p'.interest fd =
        if p'.evClients.any fun E => E.fd = fd && E.flag.once then none else p.interest fd := by
  induction passes generalizing p with
  | nil => cases h
  | cons pass passes ih =>
    unfold lastPass
    have hscanned : scan maxEvent pass 0 (ranges p.clients.length p.clients) [] =
      p.scanned maxEvent pass := rfl
    rw [pollGetEvents, hscanned] at h
    have hearly := @scanned_early p maxEvent pass
    rcases hscan : p.scanned maxEvent pass with ⟨evClients, early⟩
    rw [hscan] at h hearly
    cases early with
    | true =>
      cases h
      obtain rfl : evClients = [] := hearly rfl
      exact ⟨pass, by simp [hscan], by simp [hscan], rfl, p.interest_eraseOnce []⟩
    | false =>
      dsimp only at h
      split at h
      case isTrue hreturns =>
        cases h
        exact ⟨pass, by simp [hscan, hreturns], by simp [hscan], rfl, p.interest_eraseOnce _⟩
      case isFalse hagain =>
        have hempty : evClients = [] := by
          rw [not_or, Nat.not_lt, Nat.le_zero] at hagain
          exact List.eq_nil_of_length_eq_zero hagain.1
        subst hempty
        obtain ⟨pass', hlast, hev, hn, hint⟩ := ih h
        refine ⟨pass', ?_, hev, hn, hint⟩
        rw [List.find?_cons_of_neg (by simpa [hscan] using hagain)]
        exact hlast

/-! ## What loopOnce relies on -/

/-- A `select` that succeeded was asked for `fd` and has left it in the set that `ready` takes. -/
def ReportedReady (asked : List (SocketData × SelectResult)) (ready : SelectResult → Nat → Bool)
    (fd : Nat) : Prop :=
  ∃ x ∈ asked, x.1.fd = fd ∧ x.2.ok = true ∧ ready x.2 fd = true

/-- The event with the index `i` is that of `fd`. -/
structure Serves (p' : SelectPoller) (i fd : Nat) (asked : List (SocketData × SelectResult))
    (reg : Registration) (flag : EventFlags) : Prop where
  triggered : p'.getEventTrigerFlag i = some flag
  read : flag.read = true → reg.flag.read = true ∧ ReportedReady asked SelectResult.read fd
  write : flag.write = true → reg.flag.write = true ∧ ReportedReady asked SelectResult.write fd
  conn : p'.getEventConn i = some reg.ptr

/-- What the `n` events in `p'` and the map it leaves are to be, where the map was `m`. -/
structure Answers (m : InterestMap) (asked : List (SocketData × SelectResult)) (maxEvent : Int32)
    (n : Nat) (p' : SelectPoller) : Prop where
  count : p'.evClients.length = n
  once : (p'.evClients.map SocketData.fd).Nodup
  serves : ∀ i E, p'.evClients[i]? = some E →
    ∃ reg flag, m E.fd = some reg ∧ Serves p' i E.fd asked reg flag
  cap : (n : Int) ≤ maxEvent.toInt
  removed : ∀ fd, Spent m p'.evClients fd → p'.interest fd = none
  kept : ∀ fd, ¬ Spent m p'.evClients fd → p'.interest fd = m fd

/-- What a call is to do. -/
def Does (p : SelectPoller) (n : Nat) (p' : SelectPoller) : SelectPoller.Call → Prop
  | .pollAdd sockFd flag ptr | .pollMod sockFd flag ptr =>
    p'.interest = Function.update p.interest sockFd (some ⟨flag, ptr⟩)
  | .pollDel sockFd => p'.interest = Function.update p.interest sockFd none
  | .pollGetEvents nowtick timeout maxEvent passes =>
    ∃ pass, p.lastPass nowtick timeout maxEvent passes = some pass ∧
      Answers p.interest (p.asked pass) maxEvent n p'

/-- Each call of a history does so, up to one that does not return. -/
def Refines : SelectPoller → List SelectPoller.Call → Prop
  | _, [] => True
  | p, call :: rest => ∀ n p', p.step call = some (n, p') → p.Does n p' call ∧ p'.Refines rest

/-! ## Where they do -/

/-- The clients in the sets `select` leaves were asked for by one that succeeded, are no more than
`maxEvent`, and each is registered with the pointer its event comes with anyway. -/
structure Mild (asked : List (SocketData × SelectResult)) (maxEvent : Int32)
    (stale : Nat → UInt32) : Prop where
  ok : ∀ x ∈ reported asked, x.2.ok = true
  few : ((reported asked).length : Int) ≤ maxEvent.toInt
  ptr : ∀ i x, (reported asked)[i]? = some x → x.1.ptr = (stale i).toUInt64 <<< 32

def MildCall (p : SelectPoller) : SelectPoller.Call → Prop
  | .pollAdd .. | .pollMod .. | .pollDel _ => True
  | .pollGetEvents nowtick timeout maxEvent passes =>
    ∀ pass, p.lastPass nowtick timeout maxEvent passes = some pass →
      Mild (p.asked pass) maxEvent pass.stale

def MildCalls : SelectPoller → List SelectPoller.Call → Prop
  | _, [] => True
  | p, call :: rest => ∀ n p', p.step call = some (n, p') → p.MildCall call ∧ p'.MildCalls rest

theorem registered {p : SelectPoller} {pass : SelectPass} {x : SocketData × SelectResult}
    (h : x ∈ reported (p.asked pass)) : p.interest x.1.fd = some x.1.registration :=
  interest_of_mem (asked_mem (List.mem_of_mem_filter h))

theorem reportedReady_iff {p : SelectPoller} {pass : SelectPass} {x : SocketData × SelectResult}
    (h : x ∈ p.asked pass) (ready : SelectResult → Nat → Bool) :
    ReportedReady (p.asked pass) ready x.1.fd ↔ x.2.ok = true ∧ ready x.2 x.1.fd = true := by
  constructor
  · rintro ⟨y, hy, hfd, hok, hready⟩
    obtain rfl := asked_unique hy h hfd
    exact ⟨hok, hready⟩
  · rintro ⟨hok, hready⟩
    exact ⟨x, h, rfl, hok, hready⟩

theorem serves_iff {p p' : SelectPoller} {pass : SelectPass} {x : SocketData × SelectResult}
    {i : Nat} {stale : UInt32} (hx : x ∈ reported (p.asked pass))
    (hget : p'.evClients[i]? = some (event x.2 x.1 stale)) :
    (∃ reg flag, p.interest x.1.fd = some reg ∧ Serves p' i x.1.fd (p.asked pass) reg flag) ↔
      x.2.ok = true ∧ x.1.ptr = stale.toUInt64 <<< 32 := by
  obtain ⟨hasked, htriggers⟩ := List.mem_filter.mp hx
  have hreg := registered hx
  have hread := reportedReady_iff hasked SelectResult.read
  have hwrite := reportedReady_iff hasked SelectResult.write
  constructor
  · rintro ⟨reg, flag, hreg', hserves⟩
    obtain rfl := Option.some.inj (hreg.symm.trans hreg')
    have hconn := hserves.conn
    obtain rfl : (event x.2 x.1 stale).flag = flag := by
      simpa [getEventTrigerFlag, hget] using hserves.triggered
    constructor
    · simp only [triggers, Bool.or_eq_true] at htriggers
      cases htriggers with
      | inl h => exact (hread.mp (hserves.read h).2).1
      | inr h => exact (hwrite.mp (hserves.write h).2).1
    · simpa [getEventConn, hget, event, SocketData.registration] using hconn.symm
  · rintro ⟨hok, hptr⟩
    refine ⟨_, (event x.2 x.1 stale).flag, hreg, by simp [getEventTrigerFlag, hget], ?_, ?_, ?_⟩
    · intro h
      have h := Bool.and_eq_true_iff.mp h
      exact ⟨h.1, hread.mpr ⟨hok, h.2⟩⟩
    · intro h
      have h := Bool.and_eq_true_iff.mp h
      exact ⟨h.1, hwrite.mpr ⟨hok, h.2⟩⟩
    · simp [getEventConn, hget, event, SocketData.registration, hptr]

theorem spent_iff (p : SelectPoller) (pass : SelectPass) (fd : Nat) :
    Spent p.interest (events pass.stale 0 (reported (p.asked pass))) fd ↔
      ((events pass.stale 0 (reported (p.asked pass))).any
        fun E => E.fd = fd && E.flag.once) = true := by
  have hreg : ∀ E ∈ events pass.stale 0 (reported (p.asked pass)),
      ∃ reg, p.interest E.fd = some reg ∧ reg.flag.once = E.flag.once := by
    intro E hE
    obtain ⟨i, hi⟩ := List.getElem?_of_mem hE
    rw [events_getElem?, Option.map_eq_some_iff] at hi
    obtain ⟨x, hx, rfl⟩ := hi
    exact ⟨_, registered (List.mem_of_getElem? hx), rfl⟩
  simp only [Spent, List.any_eq_true, Bool.and_eq_true, decide_eq_true_eq]
  constructor
  · rintro ⟨⟨E, hE, rfl⟩, reg, hm, honce⟩
    obtain ⟨reg', hm', honce'⟩ := hreg E hE
    obtain rfl := Option.some.inj (hm.symm.trans hm')
    exact ⟨E, hE, rfl, honce' ▸ honce⟩
  · rintro ⟨E, hE, rfl, honce⟩
    obtain ⟨reg, hm, honce'⟩ := hreg E hE
    exact ⟨⟨E, hE, rfl⟩, reg, hm, honce'.trans honce⟩

section

variable {p p' : SelectPoller} {maxEvent : Int32} {pass : SelectPass} {n : Nat}
  (hn : n = p'.evClients.length) (hint : ∀ fd, p'.interest fd =
    if p'.evClients.any fun E => E.fd = fd && E.flag.once then none else p.interest fd)

include hn hint

/-- Where all clients that are to have an event have one. -/
theorem answers_all (hall : p'.evClients = events pass.stale 0 (reported (p.asked pass))) :
    Answers p.interest (p.asked pass) maxEvent n p' ↔ Mild (p.asked pass) maxEvent pass.stale := by
  have hlength : n = (reported (p.asked pass)).length := by simp [hn, hall]
  have hget (i : Nat) : p'.evClients[i]? =
      (reported (p.asked pass))[i]?.map fun x => event x.2 x.1 (pass.stale i) := by
    simp [hall, events_getElem?]
  constructor
  · intro h
    have hserved (i : Nat) (x) (hx : (reported (p.asked pass))[i]? = some x) :=
      have hi : p'.evClients[i]? = some (event x.2 x.1 (pass.stale i)) := by simp [hget, hx]
      (serves_iff (List.mem_of_getElem? hx) hi).mp (h.serves i (event x.2 x.1 _) hi)
    refine ⟨?_, hlength ▸ h.cap, fun i x hx => (hserved i x hx).2⟩
    intro x hx
    obtain ⟨i, hi⟩ := List.getElem?_of_mem hx
    exact (hserved i x hi).1
  · intro h
    have hspent := p.spent_iff pass
    rw [← hall] at hspent
    constructor
    · exact hn.symm
    · rw [hall, events_fd]
      exact (p.asked_fds pass).sublist (List.filter_sublist.map _)
    · intro i E hi
      have hx := hi
      rw [hget, Option.map_eq_some_iff] at hx
      obtain ⟨x, hx, rfl⟩ := hx
      have hmem := List.mem_of_getElem? hx
      exact (serves_iff hmem hi).mpr ⟨h.ok x hmem, h.ptr i x hx⟩
    · exact hlength ▸ h.few
    · intro fd hfd
      rw [hint, if_pos ((hspent fd).mp hfd)]
    · intro fd hfd
      rw [hint, if_neg fun h => hfd ((hspent fd).mpr h)]

theorem answers_iff (hev : p'.evClients = (p.scanned maxEvent pass).1) :
    Answers p.interest (p.asked pass) maxEvent n p' ↔ Mild (p.asked pass) maxEvent pass.stale := by
  have htakes := p.scanned_takesUp maxEvent pass
  rw [← hev] at htakes
  constructor
  · intro h
    exact (answers_all hn hint (htakes.all (hn ▸ h.cap))).mp h
  · intro h
    have hfew := h.few
    have hle := htakes.length_le
    exact (answers_all hn hint (htakes.all (by omega))).mpr h

end

theorem does_iff {p p' : SelectPoller} {call : SelectPoller.Call} {n : Nat}
    (h : p.step call = some (n, p')) : p.Does n p' call ↔ p.MildCall call := by
  cases call with
  | pollAdd sockFd flag ptr =>
    cases h
    exact iff_of_true (p.interest_pollAdd ..) trivial
  | pollMod sockFd flag ptr =>
    cases h
    exact iff_of_true (p.interest_pollMod ..) trivial
  | pollDel sockFd =>
    cases h
    exact iff_of_true (p.interest_pollDel ..) trivial
  | pollGetEvents nowtick timeout maxEvent passes =>
    obtain ⟨pass, hlast, hev, hn, hint⟩ := pollGetEvents_spec h
    have hiff := answers_iff hn hint hev
    simp only [Does, MildCall, hlast, Option.some.injEq]
    constructor
    · rintro ⟨_, rfl, hanswers⟩ _ rfl
      exact hiff.mp hanswers
    · intro hmild
      exact ⟨pass, rfl, hiff.mpr (hmild pass rfl)⟩

/-- **Each call does to the interest map, and answers from it, what `loopOnce` relies on, exactly
where no call reports a client that a failed `select` was asked for, more clients than it was to
have, or one that is registered with a pointer of its own.** -/
theorem refines_iff (p : SelectPoller) (calls : List SelectPoller.Call) :
    p.Refines calls ↔ p.MildCalls calls := by
  induction calls generalizing p with
  | nil => exact Iff.rfl
  | cons call rest ih =>
    constructor <;> intro h n p' hstep
    · exact ⟨(does_iff hstep).mp (h n p' hstep).1, (ih p').mp (h n p' hstep).2⟩
    · exact ⟨(does_iff hstep).mpr (h n p' hstep).1, (ih p').mpr (h n p' hstep).2⟩

/-! ## The pointer -/

def reads : SelectPoller.Call := .pollAdd 5 ⟨true, false, true⟩ 7

def asks : SelectPoller.Call :=
  .pollGetEvents 0 0 64 [⟨fun _ => ⟨true, fun fd => fd = 5, fun _ => false⟩, fun _ => 0, 0⟩]

/-- One descriptor, which is ready: its event comes with the null pointer. -/
theorem pointer_lost : ¬ init.Refines [reads, asks] := by
  intro h
  obtain ⟨⟨_, _, hanswers⟩, -⟩ := (h _ _ rfl).2 _ _ rfl
  obtain ⟨reg, flag, hreg, hserves⟩ := hanswers.serves 0 _ rfl
  have hconn := hserves.conn
  cases hreg
  revert hconn
  decide

end ChainSocket.SelectPoller
