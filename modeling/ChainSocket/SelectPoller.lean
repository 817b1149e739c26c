import ChainSocket.NetStruct
import Mathlib.Data.List.Basic
import Mathlib.Data.UInt

/-!
# SelectPoller.cpp

The poller over `select`. `clients` is the `std::map`, in the order of its keys; an `fd_set` is the
set of its descriptors. What `select` leaves in its sets is given with each call, whether it
succeeds or not.
-/

namespace ChainSocket

/-- The bits `EVENT_READ`, `EVENT_WRITE` and `EVENT_ONCE` of a flag. -/
structure EventFlags where
  read : Bool
  write : Bool
  once : Bool
  deriving DecidableEq

/-- `SocketData`, with the pointer in its union. -/
structure SocketData where
  flag : EventFlags
  fd : Nat
  ptr : UInt64
  deriving DecidableEq

/-- The answer of `select`. -/
structure SelectResult where
  ok : Bool
  read : Nat → Bool
  write : Nat → Bool

/-- One pass of the loop in `pollGetEvents`. -/
structure SelectPass where
  select : Nat → SelectResult
  /-- What is in the upper half of `data` when its `fd` is set, for each event. -/
  stale : Nat → UInt32
  /-- `GetCurrentMillisecs` at its end. -/
  tick : Int

structure SelectPoller where
  clients : List SocketData
  evClients : List SocketData
  sorted : clients.Pairwise fun x y => x.fd < y.fd

namespace SelectPoller

def init : SelectPoller := ⟨[], [], .nil⟩

/-- `clients[x.fd] = x`. -/
def insert (x : SocketData) (clients : List SocketData) : List SocketData :=
  clients.filter (·.fd < x.fd) ++ x :: clients.filter (x.fd < ·.fd)

theorem insert_sorted {x : SocketData} {clients : List SocketData}
    (h : clients.Pairwise fun x y => x.fd < y.fd) :
    (insert x clients).Pairwise fun x y => x.fd < y.fd := by
  unfold insert
  rw [List.pairwise_append, List.pairwise_cons]
  refine ⟨h.filter _, ⟨fun y hy => by simpa using (List.mem_filter.mp hy).2, h.filter _⟩, ?_⟩
  intro y hy z hz
  have hlow : y.fd < x.fd := by simpa using (List.mem_filter.mp hy).2
  cases hz with
  | head => exact hlow
  | tail _ hz =>
    have hhigh : x.fd < z.fd := by simpa using (List.mem_filter.mp hz).2
    omega

def pollMod (p : SelectPoller) (sockFd : Nat) (flag : EventFlags) (ptr : UInt64) : SelectPoller :=
  ⟨insert ⟨flag, sockFd, ptr⟩ p.clients, p.evClients, insert_sorted p.sorted⟩

def pollAdd (p : SelectPoller) (sockFd : Nat) (flag : EventFlags) (ptr : UInt64) : SelectPoller :=
  ⟨insert ⟨flag, sockFd, ptr⟩ p.clients, p.evClients, insert_sorted p.sorted⟩

/-- `clients.erase(sockFd)`. -/
def erase (p : SelectPoller) (sockFd : Nat) : SelectPoller :=
  ⟨p.clients.filter (·.fd ≠ sockFd), p.evClients, p.sorted.filter _⟩

def pollDel (p : SelectPoller) (sockFd : Nat) : SelectPoller :=
  if p.clients.any (·.fd = sockFd) then p.erase sockFd else p

/-! ## Collecting the events -/

/-- The ranges of `clients` that one `select` each is asked for, at most 1023 long. -/
def ranges : Nat → List SocketData → List (List SocketData)
  | 0, _ => []
  | sz + 1, it =>
    match it with
    | [] => []
    | E :: it => (E :: it).take 1023 :: ranges sz ((E :: it).drop 1023)

/-- `maxSock`, behind the loop that sets it. -/
def maxSock (range : List SocketData) : Nat :=
  range.foldl (fun maxSock E => if maxSock < E.fd then E.fd else maxSock) 0

/-- `trigger_flag != 0`. -/
def triggers (r : SelectResult) (E : SocketData) : Bool :=
  (E.flag.read && r.read E.fd) || (E.flag.write && r.write E.fd)

/-- What is put behind `evClients`. -/
def event (r : SelectResult) (E : SocketData) (stale : UInt32) : SocketData :=
  ⟨⟨E.flag.read && r.read E.fd, E.flag.write && r.write E.fd, E.flag.once⟩, E.fd,
    stale.toUInt64 <<< 32⟩

/-- `evClients.size() > maxEvent`: the `int` is compared as a `size_t`. -/
def overfull (maxEvent : Int32) (size : Nat) : Prop := (maxEvent.toInt % 2 ^ 64).toNat < size

instance (maxEvent : Int32) (size : Nat) : Decidable (overfull maxEvent size) :=
  inferInstanceAs (Decidable ((maxEvent.toInt % 2 ^ 64).toNat < size))

/-- The loop over one range, which it can leave early. -/
def collect (maxEvent : Int32) (r : SelectResult) (stale : Nat → UInt32) :
    List SocketData → List SocketData → List SocketData
  | [], evClients => evClients
  | E :: range, evClients =>
    if triggers r E then
      if overfull maxEvent (evClients.length + 1) then
        evClients ++ [event r E (stale evClients.length)]
      else collect maxEvent r stale range (evClients ++ [event r E (stale evClients.length)])
    else collect maxEvent r stale range evClients

/-- The loop over the ranges, and whether it has come to the `return 0`. -/
def scan (maxEvent : Int32) (pass : SelectPass) :
    Nat → List (List SocketData) → List SocketData → List SocketData × Bool
  | _, [], evClients => (evClients, false)
  | i, range :: rest, evClients =>
    if maxSock range = 0 then (evClients, true)
    else scan maxEvent pass (i + 1) rest
      (collect maxEvent (pass.select i) pass.stale range evClients)

/-- The registrations of the reported `EVENT_ONCE` events are removed. -/
def eraseOnce (p : SelectPoller) (evClients : List SocketData) : SelectPoller :=
  evClients.foldl (fun p E => if E.flag.once then p.erase E.fd else p) p

/-- The passes go on until one returns; `nowtick` is the time at the entry. -/
def pollGetEvents (p : SelectPoller) (nowtick timeout : Int) (maxEvent : Int32) :
    List SelectPass → Option (Nat × SelectPoller)
  | [] => none
  | pass :: passes =>
    match scan maxEvent pass 0 (ranges p.clients.length p.clients) [] with
    | (evClients, true) => some (0, { p with evClients })
    | (evClients, false) =>
      let p' := { p.eraseOnce evClients with evClients }
      if 0 < evClients.length ∨ nowtick + timeout < pass.tick then some (evClients.length, p')
      else pollGetEvents p' nowtick timeout maxEvent passes

def getEventConn (p : SelectPoller) (index : Nat) : Option UInt64 :=
  p.evClients[index]?.map SocketData.ptr

def getEventTrigerFlag (p : SelectPoller) (index : Nat) : Option EventFlags :=
  p.evClients[index]?.map SocketData.flag

end SelectPoller

end ChainSocket
