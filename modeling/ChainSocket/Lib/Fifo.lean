import Mathlib.Data.List.Infix

/-!
# First in, first out

A channel that loses nothing, doubles nothing and keeps the order: what has been received is the
beginning of what has been sent.
-/

structure Fifo (α : Type) where
  sent : List α
  received : List α
  inOrder : received <+: sent

namespace Fifo

variable {α : Type}

def empty : Fifo α := ⟨[], [], List.prefix_rfl⟩

def send (c : Fifo α) (a : α) : Fifo α :=
  ⟨c.sent ++ [a], c.received, c.inOrder.trans (List.prefix_append ..)⟩

@[simp] theorem sent_send (c : Fifo α) (a : α) : (c.send a).sent = c.sent ++ [a] := rfl

@[simp] theorem received_send (c : Fifo α) (a : α) : (c.send a).received = c.received := rfl

/-- `as` is received. -/
structure Delivers (c : Fifo α) (as : List α) (c' : Fifo α) : Prop where
  sent : c'.sent = c.sent
  received : c'.received = c.received ++ as

/-- What is received next is a beginning of what is under way. -/
theorem delivers_of_prefix (c : Fifo α) {as : List α} (h : c.received ++ as <+: c.sent) :
    ∃ c', c.Delivers as c' := ⟨⟨c.sent, c.received ++ as, h⟩, rfl, rfl⟩

end Fifo
