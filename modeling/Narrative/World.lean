import Narrative.Json
import Narrative.State

/-! The content of a game: what it says about itself, how its story starts, and a table of entities
for each category. -/

namespace Narrative

inductive Category where
  | location
  | npc
  | item
  | quest
  deriving DecidableEq

namespace Category

def all : List Category :=
  [location, npc, item, quest]

def name : Category → String
  | location => "location"
  | npc => "npc"
  | item => "item"
  | quest => "quest"

def directory : Category → String
  | location => "locations"
  | npc => "npcs"
  | item => "items"
  | quest => "quests"

end Category

abbrev Document := Dict Json

namespace Document

def ofJson? (d : Json) : Option Document :=
  d.normal.table?.map Dict.ofList

def toJson (d : Document) : Json :=
  .table d.entries

end Document

/-- One thing of a game. Only its `id` has a meaning everywhere. -/
structure Entity where
  fields : Document

namespace Entity

/-- The text by which an entity can be known: a text itself or the digits of a number. -/
def idText? : Json → Option String
  | .text s => some s
  | .int n => some (writeInt n)
  | .float x => some (scientificText x)
  | _ => none

def id? (e : Entity) : Option String :=
  (e.fields.get? "id").bind idText?

def get? (e : Entity) (field : String) : Option Json :=
  e.fields.get? field

def text? (e : Entity) (field : String) : Option String :=
  (e.get? field).bind Json.text?

/-- The texts in a list field; other items of it are left out. -/
def texts (e : Entity) (field : String) : List String :=
  (((e.get? field).bind Json.list?).getD []).filterMap Json.text?

def ofField? (field : String × Json) : Option (String × Entity) :=
  field.2.table?.map fun fields => (field.1, ⟨(Dict.ofList fields).insert "id" (.text field.1)⟩)

/-- The entities of a document: the document itself if it has an `id`, and otherwise each table in
it. An `id` that cannot be one is refused. -/
def split? (d : Document) : Option (List (String × Entity)) :=
  if d.contains "id" then
    let e : Entity := ⟨d⟩
    e.id?.map fun id => [(id, e)]
  else some (d.entries.filterMap ofField?)

end Entity

structure WorldMetadata where
  title : Option String := none
  author : Option String := none
  version : Option String := none
  description : Option String := none
  thumbnail : Option String := none
  extra : Dict Json := ∅

structure World where
  metadata : WorldMetadata := {}
  opening : Opening := {}
  locations : Dict Entity := ∅
  npcs : Dict Entity := ∅
  items : Dict Entity := ∅
  quests : Dict Entity := ∅

instance : Inhabited World := ⟨{}⟩

namespace World

def table (w : World) : Category → Dict Entity
  | .location => w.locations
  | .npc => w.npcs
  | .item => w.items
  | .quest => w.quests

def insert (w : World) (c : Category) (id : String) (e : Entity) : World :=
  match c with
  | .location => { w with locations := w.locations.insert id e }
  | .npc => { w with npcs := w.npcs.insert id e }
  | .item => { w with items := w.items.insert id e }
  | .quest => { w with quests := w.quests.insert id e }

def get? (w : World) (c : Category) (id : String) : Option Entity :=
  (w.table c).get? id

def entityCount (w : World) : Nat :=
  (Category.all.map fun c => (w.table c).size).foldr (· + ·) 0

@[simp] theorem table_insert (w : World) (c k : Category) (id : String) (e : Entity) :
    (w.insert c id e).table k = if k = c then (w.table k).insert id e else w.table k := by
  cases c <;> cases k <;> rfl

end World

end Narrative
