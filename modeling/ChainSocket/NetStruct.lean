import Mathlib.Tactic.TypeStar

/-!
# NetStruct.h

The reasons `closeSession` is called with, and what can end a run of the program otherwise than
by a return.
-/

namespace ChainSocket

/-- The `CT_` constants. -/
inductive CloseType where
  | normal | readZero | readError | wsendError1 | wsendError2 | readError2 | sendError2 | errorEnd
  | websocketReadHeadError | websocketExtensionOn | websocketContinuationOn
  deriving DecidableEq, Repr

inductive Fault where
  /-- `abort`, `std::abort`, or an `assert` that fails. -/
  | abort
  /-- `int` arithmetic out of range, or a size that would be negative. -/
  | overflow
  /-- A write or a copy beyond the block it is for. -/
  | outOfBounds
  /-- A NULL pointer is dereferenced, or one that a failed search has left near NULL. -/
  | null
  /-- An empty entry of the session table is dereferenced. -/
  | slot
  /-- A read off the mapped memory. -/
  | unmapped
  /-- A freed object is used. -/
  | freed
  /-- The given number of iterations was not enough. -/
  | fuel
  deriving DecidableEq, Repr

end ChainSocket
