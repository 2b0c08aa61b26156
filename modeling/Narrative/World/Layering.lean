import Narrative.World.Source

/-! Layering: the world of a game and its add-ons. Roots are read one after another, and an entity
takes the place of an earlier one of its category and id, as a whole. -/

namespace Narrative

structure LoadReport where
  files : Nat := 0
  entities : Nat := 0
  /-- The entities that took the place of others, in the order of reading. -/
  overridden : List (Category × String) := []
  /-- The files that could not be used. -/
  skipped : List (Path × DocumentError) := []

structure Layering where
  world : World := {}
  report : LoadReport := {}

namespace Layering

def addEntity (c : Category) (l : Layering) (e : String × Entity) : Layering :=
  let overridden := if ((l.world.get? c e.1).isSome) then l.report.overridden ++ [(c, e.1)]
    else l.report.overridden
  { world := l.world.insert c e.1 e.2
    report := { l.report with entities := l.report.entities + 1, overridden } }

def skip (p : Path) (e : DocumentError) (l : Layering) : Layering :=
  { l with report := { l.report with skipped := l.report.skipped ++ [(p, e)] } }

def addFile (d : Disk) (c : Category) (l : Layering) (p : Path) : Layering :=
  match d.readEntities p with
  | .ok entities =>
    entities.foldl (addEntity c) { l with report := { l.report with files := l.report.files + 1 } }
  | .error e => l.skip p e

def addCategory (d : Disk) (root : Path) (l : Layering) (c : Category) : Layering :=
  (d.documentFiles (root.join c.directory)).foldl (addFile d c) l

def addRoot (d : Disk) (l : Layering) (root : Path) : Layering :=
  Category.all.foldl (addCategory d root) l

def start (d : Disk) (base : Path) : Layering :=
  match d.readWorldFile base with
  | .ok (some file) => { world := { metadata := file.metadata, opening := file.opening } }
  | .ok none => {}
  | .error e => skip (base.join Disk.worldFileName) e {}

/-- The world of a base root and the roots of add-ons over it, later ones over earlier ones. -/
def load (d : Disk) (base : Path) (addons : List Path) : Layering :=
  (base :: addons).foldl (addRoot d) (start d base)

end Layering

end Narrative
