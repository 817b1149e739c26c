import ChainSocket.SelectPoller
import Mathlib.Logic.Function.Basic

/-!
# The one-shot interest map

What `loopOnce` takes the poller for: a map from descriptors to what is asked for on them and for
whom, from which an event takes away what was asked for once.
-/

namespace ChainSocket

/-- What is asked for on a descriptor, and the pointer its events come with. -/
structure Registration where
  flag : EventFlags
  ptr : UInt64

abbrev InterestMap := Nat → Option Registration

def SocketData.registration (E : SocketData) : Registration := ⟨E.flag, E.ptr⟩

namespace SelectPoller

def interest (p : SelectPoller) : InterestMap := fun fd =>
  (p.clients.find? (·.fd = fd)).map SocketData.registration

/-! ## Registering -/

theorem find?_of_mem {clients : List SocketData} {E : SocketData}
    (hsorted : clients.Pairwise fun x y => x.fd < y.fd) (h : E ∈ clients) :
    clients.find? (·.fd = E.fd) = some E := by
  induction clients with
  | nil => simp at h
  | cons F clients ih =>
    cases h with
    | head => simp
    | tail _ h =>
      have hne : F.fd ≠ E.fd := (List.rel_of_pairwise_cons hsorted h).ne
      simpa [hne] using ih hsorted.of_cons h

theorem interest_of_mem {p : SelectPoller} {E : SocketData} (h : E ∈ p.clients) :
    p.interest E.fd = some E.registration := by
  simp [interest, find?_of_mem p.sorted h]

theorem find?_insert (x : SocketData) (clients : List SocketData) (fd : Nat) :
    (insert x clients).find? (·.fd = fd) =
      if fd = x.fd then some x else clients.find? (·.fd = fd) := by
  unfold insert
  by_cases hfd : fd = x.fd
  · have hlow : (clients.filter (·.fd < x.fd)).find? (·.fd = x.fd) = none := by
      simp only [List.find?_eq_none, List.mem_filter, decide_eq_true_eq]
      exact fun E hE => hE.2.ne
    simp [hfd, hlow]
  · have hne : x.fd ≠ fd := fun h => hfd h.symm
    simp only [List.find?_append, List.find?_filter, hfd, if_false]
    induction clients with
    | nil => simp [hne]
    | cons F clients ih => grind

theorem interest_pollAdd (p : SelectPoller) (sockFd : Nat) (flag : EventFlags) (ptr : UInt64) :
    (p.pollAdd sockFd flag ptr).interest =
      Function.update p.interest sockFd (some ⟨flag, ptr⟩) := by
  funext fd
  by_cases hfd : fd = sockFd <;>
    simp [interest, pollAdd, find?_insert, hfd, SocketData.registration]

theorem interest_pollMod (p : SelectPoller) (sockFd : Nat) (flag : EventFlags) (ptr : UInt64) :
    (p.pollMod sockFd flag ptr).interest =
      Function.update p.interest sockFd (some ⟨flag, ptr⟩) :=
  p.interest_pollAdd sockFd flag ptr

theorem find?_erase (clients : List SocketData) (sockFd fd : Nat) :
    (clients.filter (·.fd ≠ sockFd)).find? (·.fd = fd) =
      if fd = sockFd then none else clients.find? (·.fd = fd) := by
  induction clients with
  | nil => simp
  | cons F clients ih => grind

theorem interest_erase (p : SelectPoller) (sockFd : Nat) :
    (p.erase sockFd).interest = Function.update p.interest sockFd none := by
  funext fd
  unfold interest erase
  rw [find?_erase]
  by_cases hfd : fd = sockFd <;> simp [hfd]

theorem interest_pollDel (p : SelectPoller) (sockFd : Nat) :
    (p.pollDel sockFd).interest = Function.update p.interest sockFd none := by
  unfold pollDel
  split
  · exact p.interest_erase sockFd
  case isFalse hany =>
    symm
    rw [Function.update_eq_self_iff]
    simpa [interest] using hany

end SelectPoller

end ChainSocket
