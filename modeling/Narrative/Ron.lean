import Narrative.Json

/-! Values in RON, with the way in which each is written. -/

namespace Narrative

/-- A value as RON writes it. Tuples and records may have a name in front. -/
inductive Ron where
  | unit
  | name (n : String)
  | some (v : Ron)
  | scalar (d : Json)
  | char (c : Char)
  | list (items : List Ron)
  | tuple (name : Option String) (items : List Ron)
  | record (name : Option String) (fields : List (String × Ron))
  | map (entries : List (Ron × Ron))
  deriving Inhabited

namespace Ron

def text? : Ron → Option String
  | scalar (.text s) => .some s
  | _ => none

mutual

/-- The document of a value: names and units are null, tuples are lists, and records are tables. A
map is a table only if all its keys are texts. -/
def toJson? : Ron → Option Json
  | unit => .some .null
  | name _ => .some .null
  | some v => v.toJson?
  | scalar d => .some d
  | char c => .some (.text c.toString)
  | list items => (itemsJson? items).map .list
  | tuple _ items => (itemsJson? items).map .list
  | record _ fields => (fieldsJson? fields).map .table
  | map entries => (entriesJson? entries).map .table

def itemsJson? : List Ron → Option (List Json)
  | [] => .some []
  | v :: vs => do
    let d ← v.toJson?
    let ds ← itemsJson? vs
    .some (d :: ds)

def fieldsJson? : List (String × Ron) → Option (List (String × Json))
  | [] => .some []
  | (k, v) :: fs => do
    let d ← v.toJson?
    let ds ← fieldsJson? fs
    .some ((k, d) :: ds)

def entriesJson? : List (Ron × Ron) → Option (List (String × Json))
  | [] => .some []
  | (k, v) :: es => do
    let k ← k.text?
    let d ← v.toJson?
    let ds ← entriesJson? es
    .some ((k, d) :: ds)

end

/-- The fields of a record, which may have a given name in front. Without fields it looks like a
unit or an empty tuple. -/
def fields? (recordName : String) : Ron → Option (List (String × Ron))
  | unit => .some []
  | tuple n [] => if n.all (· = recordName) then .some [] else none
  | record n fields => if n.all (· = recordName) then .some fields else none
  | _ => none

end Ron

end Narrative
