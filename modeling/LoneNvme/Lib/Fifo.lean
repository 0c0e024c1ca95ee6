import LoneNvme.Lib.Machine

/-!
# Bounded queues

What a ring is for: a first-in first-out channel that holds at most `cap` items.
The state keeps the whole history, so "each item once, in order, unchanged" needs
no further bookkeeping: the items taken are the first `taken` items of the log.
-/

namespace Lib

/-- Everything ever put into the queue, and how much of it has been taken out. -/
structure Fifo (α : Type*) where
  log : List α
  taken : Nat

/-- The two ends of the queue. -/
inductive FifoOp (α : Type*) where
  | push (x : α)
  | pop

namespace Fifo

variable {α : Type*}

/-- The queue of capacity `cap`: a push needs room, a pop needs an item. -/
def machine (α : Type*) (cap : Nat) : Machine (Fifo α) (FifoOp α) where
  init q := q = ⟨[], 0⟩
  step q
    | .push x => if q.log.length < q.taken + cap then some { q with log := q.log ++ [x] } else none
    | .pop => if q.taken < q.log.length then some { q with taken := q.taken + 1 } else none

end Fifo

end Lib
