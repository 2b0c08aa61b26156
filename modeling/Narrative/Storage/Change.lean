import Narrative.Storage.Tree

/-! What has to be done to a directory tree so that it becomes another one. -/

namespace Narrative

mutual

def Content.same : Content → Content → Bool
  | .text s, .text t => s = t
  | .binary a, .binary b => a = b
  | .archive es, .archive fs => Packed.sameEntries es fs
  | _, _ => false

def Packed.same : Packed → Packed → Bool
  | .whole c, .whole d => c.same d
  | .cut c, .cut d => c.same d
  | .shut, .shut => true
  | _, _ => false

def Packed.sameEntries : List (String × Packed) → List (String × Packed) → Bool
  | [], [] => true
  | (x, c) :: es, (y, d) :: fs => x = y && c.same d && Packed.sameEntries es fs
  | _, _ => false

end

inductive Change where
  | remove (loc : List String)
  | makeDir (loc : List String)
  | write (loc : List String) (c : Content)

namespace Tree

/-- The changes that take away the entries of a directory that another tree does not have. -/
def removals (loc : List String) (old new : Tree) : List Change :=
  (old.entries.filter fun e => (new.child? e.1).isNone).map fun e => .remove (loc ++ [e.1])

mutual

def changes (loc : List String) (old : Option Tree) : Tree → List Change
  | file c =>
    match old with
    | some (file before) => if before.same c then [] else [.write loc c]
    | some (dir _) => [.remove loc, .write loc c]
    | none => [.write loc c]
  | dir es =>
    match old with
    | some (dir before) => removals loc (dir before) (dir es) ++ entryChanges loc (dir before) es
    | some (file _) => .remove loc :: .makeDir loc :: entryChanges loc (dir []) es
    | none => .makeDir loc :: entryChanges loc (dir []) es

def entryChanges (loc : List String) (old : Tree) : List (String × Tree) → List Change
  | [] => []
  | (name, t) :: es => changes (loc ++ [name]) (old.child? name) t ++ entryChanges loc old es

end

end Tree

end Narrative
