import ChainSocket.Lib.Sift
import Mathlib.Logic.Function.Basic
import Mathlib.Data.List.Basic
import Mathlib.Algebra.Group.Nat.Defs

/-!
# Timer.cpp and Timer.h

`TimerManager` with the `Timer` objects registered with it. A `Timer *` is a name of type `τ`,
and `timers` holds the fields of the object it points to. `timerFun_` is not stored: what a
callback does to the manager is given, firing by firing, where `detectTimers` runs it.
-/

namespace ChainSocket

/-- `Timer::TimerType`. -/
inductive TimerType where
  | once | circle
  deriving DecidableEq, Repr

/-- The fields of one `Timer` object. `heapIndex = none` is the source's -1. -/
structure Timer where
  timerType : TimerType
  interval : Nat
  expires : Nat
  heapIndex : Option Nat
  deriving DecidableEq, Repr

structure HeapEntry (τ : Type) where
  time : Nat
  timer : τ
  deriving DecidableEq, Repr

structure TimerManager (τ : Type) where
  heap : List (HeapEntry τ)
  timers : τ → Timer

/-- Sums of `unsigned long long` wrap. -/
def wrap64 (n : Nat) : Nat := n % 2 ^ 64

/-- An `unsigned long long` returned as an `int`. -/
def toInt (n : Nat) : Int := Int.bmod n (2 ^ 32)

namespace TimerManager

variable {τ : Type}

/-- The constructor sets `heapIndex_` alone; the other members start with any value. -/
def fresh (timers : τ → Timer) : TimerManager τ :=
  ⟨[], fun t => { timers t with heapIndex := none }⟩

variable [DecidableEq τ]

def modify (m : TimerManager τ) (t : τ) (f : Timer → Timer) : TimerManager τ :=
  { m with timers := Function.update m.timers t (f (m.timers t)) }

def setIndex (m : TimerManager τ) (t : τ) (i : Option Nat) : TimerManager τ :=
  m.modify t fun x => { x with heapIndex := i }

/-- `heap_[index].timer->heapIndex_ = index`. -/
def pointBack (m : TimerManager τ) (index : Nat) : TimerManager τ :=
  match m.heap[index]? with
  | some e => m.setIndex e.timer (some index)
  | none => m

def swapHeap (m : TimerManager τ) (index1 index2 : Nat) : TimerManager τ :=
  (({ m with heap := m.heap.swap index1 index2 } : TimerManager τ).pointBack index1).pointBack
    index2

theorem pointBack_heap (m : TimerManager τ) (i : Nat) : (m.pointBack i).heap = m.heap := by
  unfold pointBack; split <;> rfl

theorem swapHeap_heap (m : TimerManager τ) (i j : Nat) :
    (m.swapHeap i j).heap = m.heap.swap i j := by
  simp [swapHeap, pointBack_heap]

def upHeap (m : TimerManager τ) (index : Nat) : TimerManager τ :=
  if 0 < index ∧ Sift.before HeapEntry.time m.heap index ((index - 1) / 2) then
    upHeap (m.swapHeap index ((index - 1) / 2)) ((index - 1) / 2)
  else m
termination_by index
decreasing_by omega

/-- The `minChild` of `DownHeap`, whose `child` is `index * 2 + 1`. -/
def minChild (m : TimerManager τ) (index : Nat) : Nat :=
  let child := index * 2 + 1
  if child + 1 = m.heap.length ∨ Sift.before HeapEntry.time m.heap child (child + 1) then child
  else child + 1

omit [DecidableEq τ] in
theorem minChild_eq (m : TimerManager τ) (index : Nat) :
    m.minChild index = Sift.minChild HeapEntry.time m.heap index := rfl

def downHeap (m : TimerManager τ) (index : Nat) : TimerManager τ :=
  if index * 2 + 1 < m.heap.length ∧
      Sift.before HeapEntry.time m.heap index (m.minChild index) = false then
    downHeap (m.swapHeap index (m.minChild index)) (m.minChild index)
  else m
termination_by m.heap.length - index
decreasing_by
  have := Sift.minChild_gt HeapEntry.time m.heap index
  simp only [swapHeap_heap, List.length_swap, minChild_eq]; omega

def addTimer (m : TimerManager τ) (t : τ) : TimerManager τ :=
  let indexed := m.setIndex t (some m.heap.length)
  let pushed : TimerManager τ :=
    { indexed with heap := indexed.heap ++ [⟨(indexed.timers t).expires, t⟩] }
  pushed.upHeap m.heap.length

/-- `heap_.pop_back()`. -/
def popBack {τ : Type} (m : TimerManager τ) : TimerManager τ := { m with heap := m.heap.dropLast }

/-- The choice of direction in `RemoveTimer`, once the last entry has taken position `index`. -/
def settle (m : TimerManager τ) (index : Nat) : TimerManager τ :=
  if 0 < index ∧ Sift.before HeapEntry.time m.heap index ((index - 1) / 2) then m.upHeap index
  else m.downHeap index

/-- -1 is past the end of any heap, so a timer without an index removes nothing. -/
def removeTimer (m : TimerManager τ) (t : τ) : TimerManager τ :=
  match (m.timers t).heapIndex with
  | none => m
  | some index =>
    if index < m.heap.length then
      if index = m.heap.length - 1 then m.popBack
      else (m.swapHeap index (m.heap.length - 1)).popBack.settle index
    else m

def stop (m : TimerManager τ) (t : τ) : TimerManager τ :=
  if (m.timers t).heapIndex ≠ none then (m.removeTimer t).setIndex t none else m

/-- `clock` is what `GetCurrentMillisecs` reads. -/
def start (m : TimerManager τ) (t : τ) (interval : Nat) (timeType : TimerType) (clock : Nat) :
    TimerManager τ :=
  ((m.stop t).modify t fun x =>
    { x with interval, timerType := timeType, expires := wrap64 (interval + clock) }).addTimer t

/-- `Timer::OnTimer` up to the call of `timerFun_`. -/
def onTimer (m : TimerManager τ) (t : τ) (now : Nat) : TimerManager τ :=
  match (m.timers t).timerType with
  | .circle => (m.modify t fun x => { x with expires := wrap64 (x.interval + now) }).addTimer t
  | .once => m.setIndex t none

end TimerManager

/-- What user code, a callback included, asks of the manager. -/
inductive TimerOp (τ : Type) where
  | start (t : τ) (interval : Nat) (timeType : TimerType) (clock : Nat)
  | stop (t : τ)
  deriving DecidableEq, Repr

def TimerOp.timer {τ : Type} : TimerOp τ → τ
  | .start t _ _ _ => t
  | .stop t => t

variable {τ : Type} [DecidableEq τ]

def TimerOp.apply (m : TimerManager τ) : TimerOp τ → TimerManager τ
  | .start t interval timeType clock => m.start t interval timeType clock
  | .stop t => m.stop t

/-- One call of `DetectTimers`: the timers it fired, in order; every state between two heap
operations on the way; and the `int` it returned, `none` when the given callbacks ran out before
the loop was over. -/
structure Pass (τ : Type) where
  manager : TimerManager τ
  fired : List τ
  points : List (TimerManager τ)
  wait : Option Int

/-- `DetectTimers`, reading `now`. The callback of the `k`-th firing makes the calls listed at
position `k`. -/
def TimerManager.detectTimers (now : Nat) : List (List (TimerOp τ)) → TimerManager τ → Pass τ
  | callbacks, m =>
    match m.heap with
    | [] => ⟨m, [], [m], some 10⟩
    | e :: _ =>
      if e.time ≤ now then
        match callbacks with
        | [] => ⟨m, [], [m], none⟩
        | calls :: rest =>
          let entry := (m.removeTimer e.timer).onTimer e.timer now
          let p := detectTimers now rest (calls.foldl TimerOp.apply entry)
          { p with fired := e.timer :: p.fired,
                   points := List.scanl TimerOp.apply entry calls ++ p.points }
      else ⟨m, [], [m], some (toInt (e.time - now))⟩

/-- A top-level call on the manager. -/
inductive TimerCall (τ : Type) where
  | op (o : TimerOp τ)
  | detect (now : Nat) (callbacks : List (List (TimerOp τ)))

/-- Every state between two heap operations in a run of calls. A pass that is still going makes
no later call. -/
def TimerManager.visited : List (TimerCall τ) → TimerManager τ → List (TimerManager τ)
  | [], m => [m]
  | .op o :: calls, m => m :: visited calls (o.apply m)
  | .detect now callbacks :: calls, m =>
    let p := m.detectTimers now callbacks
    m :: (p.points ++ if p.wait.isSome then visited calls p.manager else [])

end ChainSocket
