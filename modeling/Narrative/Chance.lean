/-! Chance: numbers drawn from a seed. The generator is a stand-in, so that the numbers are not
those that the program draws from the same seed; nothing that is proved depends on which they
are. -/

namespace Narrative

structure Chance where
  seed : UInt64
  deriving DecidableEq, Inhabited

namespace Chance

def next (c : Chance) : UInt64 × Chance :=
  let seed := c.seed + 0x9e3779b97f4a7c15
  let z := (seed ^^^ (seed >>> 30)) * 0xbf58476d1ce4e5b9
  let z := (z ^^^ (z >>> 27)) * 0x94d049bb133111eb
  (z ^^^ (z >>> 31), ⟨seed⟩)

/-- A number between two bounds, both of which it can be. -/
def between (low high : Int64) (c : Chance) : Int64 × Chance :=
  let (word, c) := c.next
  let size := (high.toInt - low.toInt).toNat + 1
  (Int64.ofInt (low.toInt + (word.toNat % size : Nat)), c)

end Chance

end Narrative
