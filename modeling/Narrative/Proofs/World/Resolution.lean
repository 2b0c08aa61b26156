import Narrative.Proofs.Addon.Manager
import Narrative.Proofs.Dict
import Narrative.Proofs.World.Entities
import Narrative.Proofs.World.Layering

/-! Which entity a world has. Among the add-ons that are turned on the one that is loaded last wins,
within a content root the file of the greatest name, and what cannot be read counts nowhere. -/

namespace Narrative

namespace Disk

variable {d : Disk} {dir root p : Path} {c : Category} {id : String} {e : Entity}

/-- Whether the content file of a name in a directory can be used and has an entity of an id. -/
structure Defines (d : Disk) (dir : Path) (name id : String) (e : Entity) : Prop where
  listed : ∃ names, d.names dir = .ok names ∧ name ∈ names
  known : ((dir.join name).extension?.bind Format.ofExtension?).isSome = true
  isFile : d.isFile (dir.join name) = true
  holds : ∃ entities, d.readEntities (dir.join name) = .ok entities ∧ (id, e) ∈ entities

/-- Whether a content root has an entity in the file of the greatest name that defines its id. -/
def Resolves (d : Disk) (root : Path) (c : Category) (id : String) (e : Entity) : Prop :=
  ∃ name, d.Defines (root.join c.directory) name id e ∧
    ∀ name' e', d.Defines (root.join c.directory) name' id e' → name' ≤ name

theorem entityFor_eq_some {x : String × Entity} : entityFor id x = some e ↔ x = (id, e) := by
  obtain ⟨key, entity⟩ := x
  simp [entityFor]

theorem lastSome?_entityFor {entities : List (String × Entity)}
    (h : entities.Pairwise fun a b => a.1 ≠ b.1) :
    lastSome? (entityFor id) entities = some e ↔ (id, e) ∈ entities := by
  induction entities with
  | nil => simp [lastSome?]
  | cons x entities ih =>
    obtain ⟨hx, hentities⟩ := List.pairwise_cons.mp h
    rw [lastSome?, Option.or_eq_some_iff, ih hentities, entityFor_eq_some, List.mem_cons]
    constructor
    · rintro (hmem | ⟨-, rfl⟩)
      · exact .inr hmem
      · exact .inl rfl
    · rintro (rfl | hmem)
      · refine .inr ⟨lastSome?_eq_none.mpr fun y hy => ?_, rfl⟩
        have hy := hx y hy
        simp [entityFor, Ne.symm hy]
      · exact .inl hmem

theorem fileEntity?_eq_some :
    d.fileEntity? id p = some e ↔ ∃ entities, d.readEntities p = .ok entities ∧
      (id, e) ∈ entities := by
  unfold fileEntity?
  cases hread : d.readEntities p with
  | error e => simp
  | ok entities =>
    obtain ⟨doc, hdoc⟩ := split?_of_readEntities hread
    simpa using lastSome?_entityFor (Entity.nodup_of_split? hdoc)

def namedEntity? (d : Disk) (dir : Path) (id name : String) : Option Entity :=
  if (((dir.join name).extension?.bind Format.ofExtension?).isSome && d.isFile (dir.join name)) then
    d.fileEntity? id (dir.join name)
  else none

theorem rootEntity?_eq {names : List String} (h : d.names (root.join c.directory) = .ok names) :
    d.rootEntity? c id root = lastSome? (d.namedEntity? (root.join c.directory) id)
      (names.mergeSort fun a b => decide (a ≤ b)) := by
  simp only [rootEntity?, documentFiles, h, lastSome?_filter, lastSome?_map]
  rfl

theorem defines_iff {names : List String} (h : d.names dir = .ok names) {name : String} :
    d.Defines dir name id e ↔ name ∈ names ∧ d.namedEntity? dir id name = some e := by
  unfold namedEntity?
  constructor
  · rintro ⟨⟨names', hnames, hmem⟩, hknown, hfile, hholds⟩
    obtain rfl : names = names' := by
      rw [h] at hnames
      exact Except.ok.inj hnames
    simp [hmem, hknown, hfile, fileEntity?_eq_some.mpr hholds]
  · rintro ⟨hmem, hsome⟩
    split at hsome
    · next hcond =>
      obtain ⟨hknown, hfile⟩ := Bool.and_eq_true_iff.mp hcond
      exact ⟨⟨names, h, hmem⟩, hknown, hfile, fileEntity?_eq_some.mp hsome⟩
    · cases hsome

theorem rootEntity?_eq_some : d.rootEntity? c id root = some e ↔ d.Resolves root c id e := by
  unfold Resolves
  cases hnames : d.names (root.join c.directory) with
  | error fault =>
    have hnone : d.rootEntity? c id root = none := by
      simp [rootEntity?, documentFiles, hnames, lastSome?]
    constructor
    · intro h
      simp [hnone] at h
    · rintro ⟨name, ⟨⟨names, hok, -⟩, -, -, -⟩, -⟩
      simp [hnames] at hok
  | ok names =>
    have hsorted : (names.mergeSort fun a b => decide (a ≤ b)).Pairwise
        fun a b => decide (a ≤ b) = true := by
      refine List.pairwise_mergeSort ?_ ?_ names
      · intro x y z hxy hyz
        exact decide_eq_true (String.le_trans (of_decide_eq_true hxy) (of_decide_eq_true hyz))
      · intro x y
        simpa using String.le_total x y
    rw [rootEntity?_eq hnames, lastSome?_eq_some hsorted]
    · simp only [List.mem_mergeSort, defines_iff hnames, decide_eq_true_eq]
      constructor
      · rintro ⟨name, hmem, hsome, hgreatest⟩
        refine ⟨name, ⟨hmem, hsome⟩, fun name' e' h => ?_⟩
        exact hgreatest name' h.1 (by simp [h.2])
      · rintro ⟨name, ⟨hmem, hsome⟩, hgreatest⟩
        refine ⟨name, hmem, hsome, fun name' hmem' hsome' => ?_⟩
        obtain ⟨e', he'⟩ := Option.isSome_iff_exists.mp hsome'
        exact hgreatest name' e' ⟨hmem', he'⟩
    · intro name _
      simp
    · intro name _ name' _ hle hge
      exact String.le_antisymm (of_decide_eq_true hle) (of_decide_eq_true hge)

theorem rootEntity?_isSome :
    (d.rootEntity? c id root).isSome ↔ ∃ name e, d.Defines (root.join c.directory) name id e := by
  constructor
  · intro h
    obtain ⟨e, he⟩ := Option.isSome_iff_exists.mp h
    obtain ⟨name, hdefines, -⟩ := rootEntity?_eq_some.mp he
    exact ⟨name, e, hdefines⟩
  · rintro ⟨name, e, hdefines⟩
    obtain ⟨names, hnames, hmem⟩ := hdefines.listed
    by_cases hnone : d.rootEntity? c id root = none
    · rw [rootEntity?_eq hnames, lastSome?_eq_none] at hnone
      have := hnone name (List.mem_mergeSort.mpr hmem)
      rw [((defines_iff hnames).mp hdefines).2] at this
      cases this
    · exact Option.isSome_iff_ne_none.mpr hnone

end Disk

namespace Addon

theorem before_iff {a b : Addon} : a.before b = true ↔
    a.preference.priority < b.preference.priority ∨
      a.preference.priority = b.preference.priority ∧ a.id ≤ b.id := by
  simp [before]

theorem before_trans {a b c : Addon} (hab : a.before b = true) (hbc : b.before c = true) :
    a.before c = true := by
  rw [before_iff, Int64.lt_iff_toInt_lt, ← Int64.toInt_inj] at *
  rcases hab with hab | ⟨hab, hid⟩
  · left
    omega
  · rcases hbc with hbc | ⟨hbc, hid'⟩
    · left
      omega
    · exact .inr ⟨hab.trans hbc, String.le_trans hid hid'⟩

theorem before_total (a b : Addon) : a.before b || b.before a := by
  rw [Bool.or_eq_true, before_iff, before_iff]
  rw [Int64.lt_iff_toInt_lt, Int64.lt_iff_toInt_lt, ← Int64.toInt_inj, ← Int64.toInt_inj]
  rcases Int.lt_trichotomy a.preference.priority.toInt b.preference.priority.toInt with h | h | h
  · exact .inl (.inl h)
  · rcases String.le_total a.id b.id with hid | hid
    · exact .inl (.inr ⟨h, hid⟩)
    · exact .inr (.inr ⟨h.symm, hid⟩)
  · exact .inr (.inl h)

theorem id_eq_of_before {a b : Addon} (hab : a.before b = true) (hba : b.before a = true) :
    a.id = b.id := by
  rw [before_iff, Int64.lt_iff_toInt_lt, ← Int64.toInt_inj] at *
  rcases hab with hab | ⟨hab, hid⟩
  · omega
  · rcases hba with hba | ⟨-, hid'⟩
    · omega
    · exact String.le_antisymm hid hid'

end Addon

namespace Manager

variable {m : Manager} {d : Disk} {base : Path} {c : Category} {id : String} {e : Entity}
  {a b : Addon}

/-- Whether an add-on is turned on and has a file that defines an entity. -/
structure Offers (m : Manager) (d : Disk) (c : Category) (id : String) (a : Addon) : Prop where
  found : a ∈ m.addons.values
  enabled : a.preference.enabled = true
  defines : ∃ name e, d.Defines (a.path.join c.directory) name id e

/-- Whether of the add-ons that offer an entity one has the greatest priority and, among equals,
id. -/
def Prevails (m : Manager) (d : Disk) (c : Category) (id : String) (a : Addon) : Prop :=
  m.Offers d c id a ∧ ∀ b, m.Offers d c id b →
    b.preference.priority < a.preference.priority ∨
      b.preference.priority = a.preference.priority ∧ b.id ≤ a.id

theorem Keyed.eq_of_id_eq (hm : m.Keyed) (ha : a ∈ m.addons.values) (hb : b ∈ m.addons.values)
    (h : a.id = b.id) : a = b := by
  obtain ⟨x, hx, rfl⟩ := List.mem_map.mp ha
  obtain ⟨y, hy, rfl⟩ := List.mem_map.mp hb
  have hkey : x.1 = y.1 := by rw [← hm x hx, h, hm y hy]
  rw [m.addons.eq_of_mem hx hy hkey]

theorem mem_active : a ∈ m.active ↔ a ∈ m.addons.values ∧ a.preference.enabled = true := by
  simp [active, all]

theorem active_pairwise (m : Manager) : m.active.Pairwise fun a b => a.before b = true := by
  unfold active all
  refine List.Pairwise.filter _ (List.pairwise_mergeSort ?_ ?_ m.addons.values)
  · intro a b c hab hbc
    exact Addon.before_trans hab hbc
  · intro a b
    exact Addon.before_total a b

theorem offers_iff : m.Offers d c id a ↔ a ∈ m.active ∧ (d.rootEntity? c id a.path).isSome := by
  rw [mem_active, Disk.rootEntity?_isSome]
  exact ⟨fun ⟨hfound, henabled, hdefines⟩ => ⟨⟨hfound, henabled⟩, hdefines⟩,
    fun ⟨⟨hfound, henabled⟩, hdefines⟩ => ⟨hfound, henabled, hdefines⟩⟩

/-- The last root of an add-on that has anything is that of the add-on that prevails. -/
theorem Keyed.lastSome?_active (hm : m.Keyed) :
    lastSome? (d.rootEntity? c id) (m.active.map (·.path)) = some e ↔
      ∃ a, m.Prevails d c id a ∧ d.Resolves a.path c id e := by
  rw [lastSome?_map, lastSome?_eq_some m.active_pairwise]
  · simp only [Prevails, offers_iff, ← Addon.before_iff, ← Disk.rootEntity?_eq_some]
    constructor
    · rintro ⟨a, ha, hsome, hgreatest⟩
      exact ⟨a, ⟨⟨ha, by simp [hsome]⟩, fun b hb => hgreatest b hb.1 hb.2⟩, hsome⟩
    · rintro ⟨a, ⟨⟨ha, -⟩, hgreatest⟩, hsome⟩
      exact ⟨a, ha, hsome, fun b hb hsome' => hgreatest b ⟨hb, hsome'⟩⟩
  · intro a _
    simpa using Addon.before_total a a
  · intro a ha b hb hab hba
    exact hm.eq_of_id_eq (mem_active.mp ha).1 (mem_active.mp hb).1 (Addon.id_eq_of_before hab hba)

theorem lastSome?_active_eq_none :
    lastSome? (d.rootEntity? c id) (m.active.map (·.path)) = none ↔ ∀ a, ¬ m.Offers d c id a := by
  rw [lastSome?_map, lastSome?_eq_none]
  simp only [offers_iff, not_and, Option.not_isSome_iff_eq_none]

variable (d base c id)

theorem load_get?_active (m : Manager) :
    (Layering.load d base (m.active.map (·.path))).world.get? c id =
      (lastSome? (d.rootEntity? c id) (m.active.map (·.path))).or (d.rootEntity? c id base) := by
  rw [Layering.load_get?, lastSome?]

theorem load_get?_eq_some (hm : m.Keyed) (e : Entity) :
    (Layering.load d base (m.active.map (·.path))).world.get? c id = some e ↔
      (∃ a, m.Prevails d c id a ∧ d.Resolves a.path c id e) ∨
        (∀ a, ¬ m.Offers d c id a) ∧ d.Resolves base c id e := by
  rw [load_get?_active, Option.or_eq_some_iff, hm.lastSome?_active, lastSome?_active_eq_none,
    Disk.rootEntity?_eq_some]

theorem load_get?_eq_none (m : Manager) :
    (Layering.load d base (m.active.map (·.path))).world.get? c id = none ↔
      (∀ a, ¬ m.Offers d c id a) ∧ ∀ name e, ¬ d.Defines (base.join c.directory) name id e := by
  rw [load_get?_active, Option.or_eq_none_iff, lastSome?_active_eq_none,
    ← Option.not_isSome_iff_eq_none, Disk.rootEntity?_isSome]
  simp only [not_exists]

theorem load_get?_congr {d d' : Disk} {base : Path} {roots : List Path} {c : Category} {id : String}
    (h : ∀ root ∈ base :: roots, ∀ name e,
      d'.Defines (root.join c.directory) name id e ↔ d.Defines (root.join c.directory) name id e) :
    (Layering.load d' base roots).world.get? c id =
      (Layering.load d base roots).world.get? c id := by
  rw [Layering.load_get?, Layering.load_get?]
  refine lastSome?_congr fun root hroot => Option.ext fun e => ?_
  rw [Disk.rootEntity?_eq_some, Disk.rootEntity?_eq_some]
  simp only [Disk.Resolves, h root hroot]

/-- The world of a game and the add-ons that are turned on has, for each category and id, the entity
of the add-on that prevails, or else that of the game, or else none. Nothing but what usable files
define counts. -/
theorem load_resolves (hm : m.Keyed) (d : Disk) (base : Path) (c : Category) (id : String) :
    let roots := m.active.map (·.path)
    (∀ e, (Layering.load d base roots).world.get? c id = some e ↔
      (∃ a, m.Prevails d c id a ∧ d.Resolves a.path c id e) ∨
        (∀ a, ¬ m.Offers d c id a) ∧ d.Resolves base c id e) ∧
    ((Layering.load d base roots).world.get? c id = none ↔
      (∀ a, ¬ m.Offers d c id a) ∧ ∀ name e, ¬ d.Defines (base.join c.directory) name id e) ∧
    ∀ d' : Disk, (∀ root ∈ base :: roots, ∀ name e,
        d'.Defines (root.join c.directory) name id e ↔
          d.Defines (root.join c.directory) name id e) →
      (Layering.load d' base roots).world.get? c id =
        (Layering.load d base roots).world.get? c id := by
  refine ⟨?_, ?_, ?_⟩
  · exact load_get?_eq_some d base c id hm
  · exact load_get?_eq_none d base c id m
  · intro d' h
    exact load_get?_congr h

def twoAddons : Manager :=
  let addon := fun id => (id, Addon.plain id ⟨"mods/" ++ id⟩ { enabled := true, priority := 1 })
  { dir := ⟨"mods"⟩, file := ⟨"mods.json"⟩, addons := .ofList [addon "beta", addon "alpha"] }

def twoQuests : Disk :=
  let root := Tree.dir [("quests", .dir [("rats.toml", .file (.text "id = 'rats'"))])]
  ⟨.dir [("mods", .dir [("alpha", root), ("beta", root)])], []⟩

theorem load_resolves_two :
    twoAddons.Keyed ∧ ∀ e,
      (Layering.load twoQuests ⟨"game"⟩ (twoAddons.active.map (·.path))).world.get? .quest "rats" =
        some e ↔
        (∃ a, twoAddons.Prevails twoQuests .quest "rats" a ∧
          twoQuests.Resolves a.path .quest "rats" e) ∨
          (∀ a, ¬ twoAddons.Offers twoQuests .quest "rats" a) ∧
            twoQuests.Resolves ⟨"game"⟩ .quest "rats" e := by
  have hkeyed : twoAddons.Keyed := by
    unfold Keyed
    decide +kernel
  exact ⟨hkeyed, (load_resolves hkeyed twoQuests ⟨"game"⟩ .quest "rats").1⟩

end Manager

end Narrative
