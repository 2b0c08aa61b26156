import Narrative.Proofs.Storage.Regular
import Narrative.Proofs.World.Entities
import Narrative.World.Layering

/-! What the report of a world says. Each entity that is read is in a table or took the place of
another one, and each content file that is found is read or skipped, in whatever order files fail
and entities replace each other. -/

namespace Narrative

theorem countP_isNone_add {α β : Type} (f : α → Option β) (as : List α) :
    as.countP (fun a => (f a).isNone) + (as.filterMap f).length = as.length := by
  have hsome : as.countP (fun a => (f a).isSome) =
      as.countP fun a => decide ¬ (f a).isNone = true :=
    List.countP_congr fun a _ => by cases f a <;> simp
  rw [List.length_filterMap_eq_countP, hsome, ← List.length_eq_countP_add_countP]

namespace World

theorem entityCount_insert (w : World) (c : Category) (id : String) (e : Entity) :
    (w.insert c id e).entityCount = w.entityCount + if (w.get? c id).isSome then 0 else 1 := by
  -- No table but the one of the category can grow.
  have hsize (k : Category) : ((w.insert c id e).table k).size =
      (w.table k).size + if k = c ∧ (w.get? c id).isSome = false then 1 else 0 := by
    rw [table_insert]
    by_cases hk : k = c
    · rw [if_pos hk, hk, Dict.size_insert, get?]
      cases (w.table c).get? id <;> simp
    · simp [hk]
  simp only [entityCount, Category.all, List.map_cons, List.map_nil, List.foldr_cons,
    List.foldr_nil, hsize]
  cases c <;> cases (w.get? _ id).isSome <;> simp <;> omega

theorem get?_insert (w : World) (c k : Category) (id x : String) (e : Entity) :
    (w.insert c id e).get? k x = if k = c ∧ x = id then some e else w.get? k x := by
  rw [get?, table_insert]
  by_cases hk : k = c
  · rw [if_pos hk, Dict.get?_insert, get?]
    simp [hk]
  · simp [hk, get?]

end World

namespace Disk

def contentFiles (d : Disk) (roots : List Path) : List Path :=
  roots.flatMap fun root => Category.all.flatMap fun c => d.documentFiles (root.join c.directory)

def fileFault? (d : Disk) (p : Path) : Option (Path × DocumentError) :=
  match d.readEntities p with
  | .ok _ => none
  | .error e => some (p, e)

def worldFault? (d : Disk) (root : Path) : Option (Path × DocumentError) :=
  match d.readWorldFile root with
  | .ok _ => none
  | .error e => some (root.join worldFileName, e)

end Disk

namespace Layering

variable {d : Disk} {c : Category} {l : Layering} {first : List (Path × DocumentError)}
  {found : List Path}

/-- Whether the tables of a world and the report on it agree: all entities are known by the names
under which they stand, and each of those that were read is in a table or was overridden. -/
structure Balanced (l : Layering) : Prop where
  known : ∀ c k e, l.world.get? c k = some e → e.id? = some k
  count : l.world.entityCount + l.report.overridden.length = l.report.entities

theorem Balanced.addEntity {e : String × Entity} (h : l.Balanced) (he : e.2.id? = some e.1) :
    (addEntity c l e).Balanced where
  known k x e' := by
    change (l.world.insert c e.1 e.2).get? k x = some e' → _
    rw [World.get?_insert]
    split
    · next hkey =>
      intro hnew
      cases hnew
      rw [hkey.2, he]
    · exact h.known k x e'
  count := by
    have hcount := h.count
    change (l.world.insert c e.1 e.2).entityCount +
      (Layering.addEntity c l e).report.overridden.length =
      l.report.entities + 1
    rw [World.entityCount_insert]
    cases hthere : (l.world.get? c e.1).isSome <;> simp [Layering.addEntity, hthere] <;> omega

theorem Balanced.addEntities {es : List (String × Entity)} (h : l.Balanced)
    (hes : ∀ e ∈ es, e.2.id? = some e.1) : (es.foldl (Layering.addEntity c) l).Balanced ∧
      (es.foldl (Layering.addEntity c) l).report.files = l.report.files ∧
      (es.foldl (Layering.addEntity c) l).report.skipped = l.report.skipped := by
  induction es generalizing l with
  | nil => exact ⟨h, rfl, rfl⟩
  | cons e es ih =>
    obtain ⟨he, hes⟩ := List.forall_mem_cons.mp hes
    exact ih (h.addEntity he) hes

/-- Whether the report accounts for the content files that were found: each of them was read or
skipped, and before them was skipped what came first. -/
structure Accounts (d : Disk) (first : List (Path × DocumentError)) (found : List Path)
    (l : Layering) : Prop
    extends l.Balanced where
  files : l.report.files = found.countP fun p => (d.fileFault? p).isNone
  skipped : l.report.skipped = first ++ found.filterMap d.fileFault?

namespace Accounts

theorem addFile (h : Accounts d first found l) (c : Category) (p : Path) :
    Accounts d first (found ++ [p]) (addFile d c l p) := by
  unfold Layering.addFile
  cases hread : d.readEntities p with
  | ok es =>
    have hfault : d.fileFault? p = none := by
      unfold Disk.fileFault?
      rw [hread]
    have hbalanced : Balanced { l with report := { l.report with files := l.report.files + 1 } } :=
      ⟨h.known, h.count⟩
    obtain ⟨doc, hdoc⟩ := Disk.split?_of_readEntities hread
    have hes : ∀ e ∈ es, e.2.id? = some e.1 := fun e he => Entity.id?_of_split? hdoc he
    obtain ⟨hbalanced, hfiles, hskipped⟩ := hbalanced.addEntities (c := c) hes
    refine ⟨hbalanced, hfiles.trans ?_, hskipped.trans (h.skipped.trans ?_)⟩
    · change l.report.files + 1 = _
      simp [h.files, List.countP_append, hfault]
    · simp [hfault]
  | error e =>
    have hfault : d.fileFault? p = some (p, e) := by
      unfold Disk.fileFault?
      rw [hread]
    refine ⟨⟨h.known, h.count⟩, h.files.trans ?_, ?_⟩
    · simp [List.countP_append, hfault]
    · change l.report.skipped ++ [(p, e)] = _
      simp [h.skipped, hfault]

/-- What is read one after another is accounted for if each of it is. -/
theorem foldl {α : Type} {f : Layering → α → Layering} {g : α → List Path}
    (hf : ∀ found l a, Accounts d first found l → Accounts d first (found ++ g a) (f l a))
    (as : List α)
    (h : Accounts d first found l) : Accounts d first (found ++ as.flatMap g) (as.foldl f l) := by
  induction as generalizing found l with
  | nil => rwa [List.flatMap_nil, List.append_nil]
  | cons a as ih =>
    rw [List.flatMap_cons, ← List.append_assoc]
    exact ih (hf found l a h)

theorem addCategory (h : Accounts d first found l) (root : Path) (c : Category) :
    Accounts d first (found ++ d.documentFiles (root.join c.directory))
      (addCategory d root l c) := by
  have hfiles := foldl (fun _ _ p h => h.addFile c p) (d.documentFiles (root.join c.directory)) h
  rwa [List.flatMap_singleton'] at hfiles

theorem addRoot (h : Accounts d first found l) (root : Path) :
    Accounts d first
      (found ++ Category.all.flatMap fun c => d.documentFiles (root.join c.directory))
      (addRoot d l root) :=
  foldl (fun _ _ c h => h.addCategory root c) Category.all h

end Accounts

theorem accounts_start (d : Disk) (base : Path) :
    Accounts d (d.worldFault? base).toList [] (start d base) := by
  have hempty (w : World) (hw : ∀ c, w.table c = ∅) (fault : List (Path × DocumentError)) :
      Accounts d fault [] { world := w, report := { skipped := fault } } := by
    refine ⟨⟨fun c k e hget => ?_, ?_⟩, rfl, (List.append_nil _).symm⟩
    · rw [World.get?, hw] at hget
      cases hget
    · simp only [World.entityCount, hw]
      rfl
  unfold start Disk.worldFault?
  cases d.readWorldFile base with
  | error e => exact hempty {} (fun c => by cases c <;> rfl) _
  | ok file =>
    cases file with
    | none => exact hempty {} (fun c => by cases c <;> rfl) _
    | some file =>
      exact hempty { metadata := file.metadata, opening := file.opening }
        (fun c => by cases c <;> rfl) _

theorem accounts_load (d : Disk) (base : Path) (addons : List Path) :
    Accounts d (d.worldFault? base).toList (d.contentFiles (base :: addons)) (load d base addons) :=
  Accounts.foldl (fun _ _ root h => h.addRoot root) (base :: addons) (accounts_start d base)

/-- Documents split into entities that are known by their names, and the report on a world adds up.
A document is refused for an `id` that is neither a text nor a number. With another `id` it is one
entity, and without one it is a collection of the tables in it. In a world that was read each entity
is known by the name under which it stands, there are as many entities as were read and not
overridden, and each content file that was found was read or skipped, once. -/
theorem load_adds_up (d : Disk) (base : Path) (addons : List Path) :
    (∀ doc : Document,
      (Entity.split? doc = none ↔
        ∃ v, doc.get? "id" = some v ∧ (∀ s, v ≠ .text s) ∧ (∀ n, v ≠ .int n) ∧ ∀ x, v ≠ .float x) ∧
      (∀ v id, doc.get? "id" = some v → Entity.idText? v = some id →
        Entity.split? doc = some [(id, ⟨doc⟩)]) ∧
      (doc.get? "id" = none → ∃ es, Entity.split? doc = some es ∧ Entity.Collected doc es)) ∧
    let l := load d base addons
    let found := d.contentFiles (base :: addons)
    (∀ c k e, l.world.get? c k = some e → e.id? = some k) ∧
      l.world.entityCount = l.report.entities - l.report.overridden.length ∧
      l.report.overridden.length ≤ l.report.entities ∧
      l.report.files = found.countP (fun p => (d.fileFault? p).isNone) ∧
      l.report.skipped = (d.worldFault? base).toList ++ found.filterMap d.fileFault? ∧
      l.report.files + l.report.skipped.length =
        found.length + (d.worldFault? base).toList.length := by
  refine ⟨fun doc => ⟨?_, fun v id hid hv => ?_, fun hid => ?_⟩, ?_⟩
  · simp only [Entity.split?_eq_none_iff, Entity.idText?_eq_none_iff]
  · rw [Entity.split?_of_id hid, hv, Option.map_some]
  · exact ⟨_, Entity.split?_of_no_id hid, Entity.collected doc⟩
  · intro l found
    have h : Accounts d (d.worldFault? base).toList found l := accounts_load d base addons
    have hcount : l.world.entityCount + l.report.overridden.length = l.report.entities := h.count
    have hfound := countP_isNone_add d.fileFault? found
    have hskipped := congrArg List.length h.skipped
    rw [List.length_append] at hskipped
    have hfiles := h.files
    exact ⟨h.known, by omega, by omega, hfiles, h.skipped, by omega⟩

/-- A lamp that is overridden by an add-on, beside a file that cannot be used. -/
example :
    let d := Disk.filled [("base/npcs/bad.toml", .text "id = [1]\n"),
      ("base/items/lamp.toml", .text "id = \"lamp\"\n"),
      ("mod/items/lamp.json", .text "\x7b\"lamp\": \x7b\"id\": 3\x7d\x7d")]
    let l := load d ⟨"base"⟩ [⟨"mod"⟩]
    l.report.files = 2 ∧ l.report.skipped.length = 1 ∧ l.report.entities = 2 ∧
        l.world.entityCount = 1 := by
  decide +kernel

end Layering

end Narrative
