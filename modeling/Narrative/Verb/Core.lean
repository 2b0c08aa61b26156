import Narrative.Verb

/-! The verbs that every story has: each changes one part of the state and says what it did. -/

namespace Narrative

/-- What a verb does to the state. It can fail, and what it did before it failed stays done. -/
abbrev Deed := ExceptT VerbError (StateM State)

inductive CoreVerb where
  | giveGold
  | takeGold
  | addItem
  | removeItem
  | setFlag
  | removeFlag
  | modifySkill
  | modifyRelationship
  | healPlayer
  | damagePlayer
  | travelTo
  | teleport
  | advanceTime
  | unlockGallery
  | addQuestStage
  | completeQuest
  | startScene
  | cheatMenu
  | openConsole
  deriving DecidableEq

namespace CoreVerb

def all : List CoreVerb :=
  [giveGold, takeGold, addItem, removeItem, setFlag, removeFlag, modifySkill, modifyRelationship,
    healPlayer, damagePlayer, travelTo, teleport, advanceTime, unlockGallery, addQuestStage,
    completeQuest, startScene, cheatMenu, openConsole]

def name : CoreVerb → String
  | giveGold => "give_gold"
  | takeGold => "take_gold"
  | addItem => "add_item"
  | removeItem => "remove_item"
  | setFlag => "set_flag"
  | removeFlag => "remove_flag"
  | modifySkill => "modify_skill"
  | modifyRelationship => "modify_relationship"
  | healPlayer => "heal_player"
  | damagePlayer => "damage_player"
  | travelTo => "travel_to"
  | teleport => "teleport"
  | advanceTime => "advance_time"
  | unlockGallery => "unlock_gallery"
  | addQuestStage => "add_quest_stage"
  | completeQuest => "complete_quest"
  | startScene => "start_sex_scene"
  | cheatMenu => "cheat_menu"
  | openConsole => "open_console"

def arity : CoreVerb → Arity
  | addItem | removeItem => .range 1 2
  | setFlag | modifySkill | modifyRelationship | addQuestStage => .exactly 2
  | cheatMenu | openConsole => .exactly 0
  | _ => .exactly 1

def sceneFlag : String := "_current_scene"

def requestFlag : String := "_ui_request"

def galleryFlag : String := "gallery_unlocked"

def opposite (n : Int64) : Int64 :=
  saturate (-n.toInt)

def addTo (d : Dict Int64) (key : String) (amount : Int64) : Dict Int64 :=
  d.insert key (saturate ((d.getD key 0).toInt + amount.toInt))

def unlock (image : String) (gallery : Option Flag) : Flag :=
  let items := (gallery.bind Flag.list?).getD []
  if items.any fun f => f.text? = some image then .list items else .list (items ++ [.text image])

def run (v : CoreVerb) (args : Args) : Deed String :=
  match v with
  | giveGold => do
    let amount ← args.int 0
    modify fun s => { s with player := s.player.adjustGold amount }
    return "Received " ++ writeInt amount.toInt ++ " gold."
  | takeGold => do
    let amount ← args.int 0
    modify fun s => { s with player := s.player.adjustGold (opposite amount) }
    return "Lost " ++ writeInt amount.toInt ++ " gold."
  | addItem => do
    let id ← args.text 0
    let n ← args.countOr 1 1
    let held := (← get).inventory.holds id
    modify fun s => s.addItem id n
    return if held then "Added " ++ writeNat n.toNat ++ "x " ++ id ++ "."
      else "Received " ++ id ++ "."
  | removeItem => do
    let id ← args.text 0
    let n ← args.countOr 1 1
    match (← get).removeItem? id n with
    | some s =>
      set s
      return "Removed " ++ writeNat n.toNat ++ "x " ++ id ++ "."
    | none => return "Item not found."
  | setFlag => do
    let key ← args.text 0
    let raw ← args.value 1
    let f ← args.flag 1 raw
    modify fun s => s.setFlag key f
    return ""
  | removeFlag => do
    let key ← args.text 0
    modify fun s => { s with flags := s.flags.erase key }
    return ""
  | modifySkill => do
    let skill ← args.text 0
    let amount ← args.int 1
    modify fun s =>
      { s with player := { s.player with skills := addTo s.player.skills skill amount } }
    return skill ++ " skill " ++ (if 0 < amount then "increased" else "decreased") ++ "."
  | modifyRelationship => do
    let id ← args.text 0
    let amount ← args.int 1
    modify fun s => { s with relationships := addTo s.relationships id amount }
    return "Relationship with " ++ id ++ " changed."
  | healPlayer => do
    let amount ← args.int 0
    modify fun s => { s with player := s.player.adjustHealth amount }
    return "Healed " ++ writeInt amount.toInt ++ " HP."
  | damagePlayer => do
    let amount ← args.int 0
    modify fun s => { s with player := s.player.adjustHealth (opposite amount) }
    return "Took " ++ writeInt amount.toInt ++ " damage."
  | travelTo | teleport => do
    let id ← args.text 0
    modify fun s => { s with location := id }
    return "Traveled to " ++ id ++ "."
  | advanceTime => do
    let minutes ← args.int 0
    let forward ← args.forward 0 minutes
    modify fun s => { s with time := s.time.advance forward }
    return "Time passed: " ++ writeInt minutes.toInt ++ "m."
  | unlockGallery => do
    let image ← args.text 0
    modify fun s => s.setFlag galleryFlag (unlock image (s.flags.get? galleryFlag))
    return "Gallery image unlocked!"
  | addQuestStage => do
    let id ← args.text 0
    let stage ← args.int 1
    modify fun s => s.setQuest id { s.quest id with stage }
    return "Quest updated: " ++ id
  | completeQuest => do
    let id ← args.text 0
    modify fun s => s.setQuest id { s.quest id with completed := true }
    return "Quest completed: " ++ id
  | startScene => do
    let scene ← args.text 0
    modify fun s => s.setFlag sceneFlag (.text scene)
    return "[Scene Started]"
  | cheatMenu => signal "cheat_menu"
  | openConsole => signal "console"
where
  signal (request : String) : Deed String := do
    modify fun s => s.setFlag requestFlag (.text request)
    return ""

end CoreVerb

end Narrative
