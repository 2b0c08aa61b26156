import Narrative.Number.Digits

/-! What the player carries: stacks of items, in the order in which they came to be held. -/

namespace Narrative

structure Stack where
  id : String
  count : UInt32
  deriving DecidableEq

def fullStack : Nat := 4294967295

abbrev Inventory := List Stack

namespace Inventory

def count (id : String) (inv : Inventory) : Nat :=
  ((inv.filter (·.id = id)).map (·.count.toNat)).foldr (· + ·) 0

def holds (id : String) (inv : Inventory) : Bool :=
  inv.any (·.id = id)

/-- Puts items on the stack of their kind as far as it holds them, or on a new stack at the end. -/
def add (id : String) (n : UInt32) : Inventory → Inventory
  | [] => [⟨id, n⟩]
  | s :: rest =>
    if s.id = id then
      { s with count := UInt32.ofNat (min (s.count.toNat + n.toNat) fullStack) } :: rest
    else s :: add id n rest

/-- Takes items off the stack of their kind, which goes when it is used up. Nothing is taken if
there are too few. -/
def remove? (id : String) (n : UInt32) : Inventory → Option Inventory
  | [] => none
  | s :: rest =>
    if s.id = id then
      if s.count < n then none
      else if s.count = n then some rest
      else some ({ s with count := s.count - n } :: rest)
    else (remove? id n rest).map (s :: ·)

end Inventory

end Narrative
