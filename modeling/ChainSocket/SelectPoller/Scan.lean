import ChainSocket.SelectPoller

/-!
# What one pass takes up

The clients of a pass are asked for range by range and those that are ready taken up in order. The
pass takes up all of them, or has more events than it was to have.
-/

namespace ChainSocket.SelectPoller

/-! ## Ranges -/

theorem ranges_flatten {sz : Nat} {it : List SocketData} (h : it.length ≤ sz) :
    (ranges sz it).flatten = it := by
  induction sz generalizing it with
  | zero => simp_all [ranges]
  | succ sz ih =>
    cases it with
    | nil => simp [ranges]
    | cons E it =>
      have hrest : ((E :: it).drop 1023).length ≤ sz := by
        simp only [List.length_drop, List.length_cons] at h ⊢
        omega
      rw [ranges, List.flatten_cons, ih hrest, List.take_append_drop]

theorem ranges_ne_nil (sz : Nat) (it : List SocketData) :
    ∀ range ∈ ranges sz it, range ≠ [] := by
  induction sz generalizing it with
  | zero => simp [ranges]
  | succ sz ih =>
    cases it with
    | nil => simp [ranges]
    | cons E it => simpa [ranges] using fun range => ih _ range

theorem le_maxSock {range : List SocketData} {E : SocketData} (h : E ∈ range) :
    E.fd ≤ maxSock range := by
  have hfold (m : Nat) :
      m ≤ range.foldl (fun maxSock E => if maxSock < E.fd then E.fd else maxSock) m ∧
      ∀ E ∈ range,
        E.fd ≤ range.foldl (fun maxSock E => if maxSock < E.fd then E.fd else maxSock) m := by
    clear h
    induction range generalizing m with
    | nil => simp
    | cons F range ih =>
      rw [List.foldl_cons]
      have := ih (if m < F.fd then F.fd else m)
      grind
  exact (hfold 0).2 E h

/-! ## Reports -/

/-- The clients `select` is asked for, each with its answer: none from where the pass ends early. -/
def askedFor (pass : SelectPass) : Nat → List (List SocketData) → List (SocketData × SelectResult)
  | _, [] => []
  | i, range :: rest =>
    if maxSock range = 0 then []
    else range.map (·, pass.select i) ++ askedFor pass (i + 1) rest

/-- The clients that are to have an event. -/
def reported (asked : List (SocketData × SelectResult)) : List (SocketData × SelectResult) :=
  asked.filter fun x => triggers x.2 x.1

/-- The events of some clients, with `n` events before them. -/
def events (stale : Nat → UInt32) : Nat → List (SocketData × SelectResult) → List SocketData
  | _, [] => []
  | n, (E, r) :: xs => event r E (stale n) :: events stale (n + 1) xs

theorem events_append (stale : Nat → UInt32) (n : Nat) (xs ys : List (SocketData × SelectResult)) :
    events stale n (xs ++ ys) = events stale n xs ++ events stale (n + xs.length) ys := by
  induction xs generalizing n with
  | nil => simp [events]
  | cons x xs ih => simp [events, ih, Nat.add_assoc, Nat.add_comm 1]

theorem events_getElem? (stale : Nat → UInt32) (n i : Nat)
    (xs : List (SocketData × SelectResult)) :
    (events stale n xs)[i]? = xs[i]?.map fun x => event x.2 x.1 (stale (n + i)) := by
  induction xs generalizing n i with
  | nil => simp [events]
  | cons x xs ih =>
    cases i with
    | zero => simp [events]
    | succ i => simp [events, ih, Nat.add_assoc, Nat.add_comm 1]

@[simp] theorem length_events (stale : Nat → UInt32) (n : Nat)
    (xs : List (SocketData × SelectResult)) : (events stale n xs).length = xs.length := by
  induction xs generalizing n with
  | nil => rfl
  | cons x xs ih => simp [events, ih]

theorem events_fd (stale : Nat → UInt32) (n : Nat) (xs : List (SocketData × SelectResult)) :
    (events stale n xs).map SocketData.fd = xs.map (·.1.fd) := by
  induction xs generalizing n with
  | nil => rfl
  | cons x xs ih => simp [events, ih, event]

/-! ## Taking up -/

/-- `evClients'` is `evClients` and the events of some of the clients in `due`: of all of them, or
of more than were asked for. -/
def TakesUp (maxEvent : Int32) (stale : Nat → UInt32) (due : List (SocketData × SelectResult))
    (evClients evClients' : List SocketData) : Prop :=
  ∃ taken, taken.Sublist due ∧ evClients' = evClients ++ events stale evClients.length taken ∧
    (taken = due ∨ overfull maxEvent evClients'.length)

theorem overfull_mono {maxEvent : Int32} {n m : Nat} (h : overfull maxEvent n) (hle : n ≤ m) :
    overfull maxEvent m :=
  Nat.lt_of_lt_of_le h hle

theorem not_overfull {maxEvent : Int32} {n : Nat} (h : (n : Int) ≤ maxEvent.toInt) :
    ¬ overfull maxEvent n := by
  unfold overfull
  have := maxEvent.toInt_lt
  omega

namespace TakesUp

variable {maxEvent : Int32} {stale : Nat → UInt32} {due due' : List (SocketData × SelectResult)}
  {evClients evClients' evClients'' : List SocketData}

theorem refl : TakesUp maxEvent stale [] evClients evClients :=
  ⟨[], .slnil, by simp [events], .inl rfl⟩

theorem append (h : TakesUp maxEvent stale due evClients evClients')
    (h' : TakesUp maxEvent stale due' evClients' evClients'') :
    TakesUp maxEvent stale (due ++ due') evClients evClients'' := by
  obtain ⟨taken, hsub, rfl, hall⟩ := h
  obtain ⟨taken', hsub', rfl, hall'⟩ := h'
  refine ⟨taken ++ taken', hsub.append hsub', by simp [events_append], ?_⟩
  cases hall with
  | inr hfull => exact .inr (overfull_mono hfull (by simp))
  | inl hall =>
    cases hall' with
    | inl hall' => exact .inl (by rw [hall, hall'])
    | inr hfull => exact .inr hfull

/-- A first client is taken up, and no other once there are too many. -/
theorem first (E : SocketData) (r : SelectResult) (due : List (SocketData × SelectResult))
    (h : overfull maxEvent (evClients.length + 1)) :
    TakesUp maxEvent stale ((E, r) :: due) evClients
      (evClients ++ [event r E (stale evClients.length)]) :=
  ⟨[(E, r)], by simp, by simp [events], .inr (by simpa using h)⟩

theorem one (E : SocketData) (r : SelectResult) :
    TakesUp maxEvent stale [(E, r)] evClients
      (evClients ++ [event r E (stale evClients.length)]) :=
  ⟨[(E, r)], by simp, by simp [events], .inl rfl⟩

theorem length_le (h : TakesUp maxEvent stale due [] evClients) :
    evClients.length ≤ due.length := by
  obtain ⟨taken, hsub, rfl, -⟩ := h
  simpa using hsub.length_le

/-- With no more events than were asked for, all of the clients have one. -/
theorem all (h : TakesUp maxEvent stale due [] evClients)
    (hfew : (evClients.length : Int) ≤ maxEvent.toInt) : evClients = events stale 0 due := by
  obtain ⟨taken, -, rfl, hall⟩ := h
  rw [hall.resolve_right (not_overfull hfew), List.nil_append, List.length_nil]

end TakesUp

theorem collect_takesUp (maxEvent : Int32) (r : SelectResult) (stale : Nat → UInt32)
    (range evClients : List SocketData) :
    TakesUp maxEvent stale (reported (range.map (·, r))) evClients
      (collect maxEvent r stale range evClients) := by
  induction range generalizing evClients with
  | nil => exact .refl
  | cons E range ih =>
    unfold collect
    by_cases htriggers : triggers r E = true
    · have hdue : reported ((E :: range).map (·, r)) =
          [(E, r)] ++ reported (range.map (·, r)) := by
        simp [reported, htriggers]
      rw [if_pos htriggers, hdue]
      split
      case isTrue hfull => exact .first E r _ hfull
      case isFalse => exact (TakesUp.one E r).append (ih _)
    · have hdue : reported ((E :: range).map (·, r)) = reported (range.map (·, r)) := by
        simp [reported, htriggers]
      rw [if_neg htriggers, hdue]
      exact ih evClients

theorem scan_takesUp (maxEvent : Int32) (pass : SelectPass) (i : Nat)
    (rest : List (List SocketData)) (evClients : List SocketData) :
    TakesUp maxEvent pass.stale (reported (askedFor pass i rest)) evClients
      (scan maxEvent pass i rest evClients).1 := by
  induction rest generalizing i evClients with
  | nil => exact .refl
  | cons range rest ih =>
    unfold scan askedFor
    split
    · exact .refl
    · have hdue : reported (range.map (·, pass.select i) ++ askedFor pass (i + 1) rest) =
          reported (range.map (·, pass.select i)) ++ reported (askedFor pass (i + 1) rest) := by
        simp [reported]
      rw [hdue]
      exact (collect_takesUp ..).append (ih ..)

/-! ## The early return -/

/-- A pass only ends early at its first range: the descriptors are in order, and only the first of
them can be 0. -/
theorem early_first {maxEvent : Int32} {pass : SelectPass} {i : Nat}
    {range : List SocketData} {rest : List (List SocketData)} {evClients : List SocketData}
    (hsorted : (range :: rest).flatten.Pairwise fun x y => x.fd < y.fd)
    (hne : ∀ r ∈ range :: rest, r ≠ [])
    (h : (scan maxEvent pass i (range :: rest) evClients).2 = true) : maxSock range = 0 := by
  induction rest generalizing i range evClients with
  | nil =>
    by_contra hmax
    simp [scan, hmax] at h
  | cons next rest ih =>
    by_contra hmax
    rw [scan, if_neg hmax] at h
    rw [List.flatten_cons, List.pairwise_append] at hsorted
    have hnext := ih hsorted.2.1 (fun r hr => hne r (.tail _ hr)) h
    obtain ⟨E, hE⟩ := List.exists_mem_of_ne_nil range (hne range (.head _))
    obtain ⟨F, hF⟩ := List.exists_mem_of_ne_nil next (hne next (.tail _ (.head _)))
    have hlt : E.fd < F.fd := hsorted.2.2 E hE F (by simp [hF])
    have hle := le_maxSock hF
    omega

end ChainSocket.SelectPoller
