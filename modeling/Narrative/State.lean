import Narrative.Clock
import Narrative.Dict
import Narrative.Flag
import Narrative.State.Inventory

/-! The state of a story: what a play session changes and what a saved game keeps. -/

namespace Narrative

structure Player where
  name : String := "Player"
  gold : Int64 := 0
  health : Int64 := 100
  maxHealth : Int64 := 100
  stats : Dict Int64 := ∅
  skills : Dict Int64 := ∅
  kinks : Dict Flag := ∅

namespace Player

/-- Changes the gold, down to nothing and up to what a word holds. -/
def adjustGold (p : Player) (delta : Int64) : Player :=
  { p with gold := saturate (max 0 (p.gold.toInt + delta.toInt)) }

/-- Changes the health within nothing and its maximum. -/
def adjustHealth (p : Player) (delta : Int64) : Player :=
  let most := max 0 p.maxHealth.toInt
  { p with health := saturate (max 0 (min most (p.health.toInt + delta.toInt))) }

end Player

structure Quest where
  stage : Int64 := 0
  completed : Bool := false
  deriving DecidableEq, Inhabited

structure State where
  player : Player := {}
  inventory : Inventory := []
  flags : Dict Flag := ∅
  relationships : Dict Int64 := ∅
  quests : Dict Quest := ∅
  time : Clock := Clock.start
  location : String := "start"
  history : List String := []

instance : Inhabited State := ⟨{}⟩

/-- What a world says about the state in which its story starts. -/
structure Opening where
  location : Option String := none
  name : Option String := none
  gold : Option Int64 := none
  health : Option Int64 := none
  maxHealth : Option Int64 := none
  flags : Dict Flag := ∅

namespace Player

/-- The player at the start of a story: numbers below zero count as zero, and without a word on it
the health is at its maximum. -/
def opening (o : Opening) : Player :=
  let p : Player := {}
  let name := o.name.getD p.name
  let most := (o.maxHealth.map fun n => max 0 n.toInt).getD p.maxHealth.toInt
  let health := (o.health.map fun n => max 0 (min most n.toInt)).getD most
  let gold := (o.gold.map fun n => max 0 n.toInt).getD p.gold.toInt
  { p with name, gold := saturate gold, health := saturate health, maxHealth := saturate most }

end Player

namespace State

def opening (o : Opening) : State :=
  let s : State := {}
  { s with
    player := Player.opening o
    location := o.location.getD s.location
    flags := o.flags }

def setFlag (s : State) (key : String) (v : Flag) : State :=
  { s with flags := s.flags.insert key v }

def itemCount (s : State) (id : String) : Nat :=
  s.inventory.count id

def hasItem (s : State) (id : String) (n : Nat) : Bool :=
  n ≤ s.itemCount id

def addItem (s : State) (id : String) (n : UInt32) : State :=
  { s with inventory := s.inventory.add id n }

def removeItem? (s : State) (id : String) (n : UInt32) : Option State :=
  (s.inventory.remove? id n).map fun inventory => { s with inventory }

def quest (s : State) (id : String) : Quest :=
  s.quests.getD id {}

def setQuest (s : State) (id : String) (q : Quest) : State :=
  { s with quests := s.quests.insert id q }

def relationship (s : State) (id : String) : Int64 :=
  s.relationships.getD id 0

def record (s : State) (event : String) : State :=
  { s with history := s.history ++ [event] }

end State

end Narrative
