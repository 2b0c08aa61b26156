import Narrative.World.Layering

/-! What is in a world that was read from several roots: for each category and id, the last entity
that was read. -/

namespace Narrative

section LastSome

variable {α β γ : Type} {f : α → Option β} {r : α → α → Prop} {as : List α} {b : β}

def lastSome? (f : α → Option β) : List α → Option β
  | [] => none
  | a :: as => (lastSome? f as).or (f a)

theorem lastSome?_map (f : β → Option γ) (g : α → β) (as : List α) :
    lastSome? f (as.map g) = lastSome? (fun a => f (g a)) as := by
  induction as with
  | nil => rfl
  | cons a as ih => simp [lastSome?, ih]

theorem lastSome?_congr {g : α → Option β} (h : ∀ a ∈ as, f a = g a) :
    lastSome? f as = lastSome? g as := by
  induction as with
  | nil => rfl
  | cons a as ih =>
    rw [lastSome?, lastSome?, ih fun a' ha' => h a' (.tail a ha'), h a (.head as)]

theorem lastSome?_filter (f : α → Option β) (p : α → Bool) (as : List α) :
    lastSome? f (as.filter p) = lastSome? (fun a => if p a then f a else none) as := by
  induction as with
  | nil => rfl
  | cons a as ih => cases hp : p a <;> simp [lastSome?, hp, ih]

theorem lastSome?_eq_none : lastSome? f as = none ↔ ∀ a ∈ as, f a = none := by
  induction as with
  | nil => simp [lastSome?]
  | cons a as ih => simp [lastSome?, ih, and_comm]

/-- In a list by ascending rank, what the last one gives is what the one of the greatest rank
gives. -/
theorem lastSome?_eq_some (has : as.Pairwise r) (hrefl : ∀ a ∈ as, r a a)
    (hanti : ∀ a ∈ as, ∀ a' ∈ as, r a a' → r a' a → a = a') :
    lastSome? f as = some b ↔
      ∃ a ∈ as, f a = some b ∧ ∀ a' ∈ as, (f a').isSome → r a' a := by
  induction as with
  | nil => simp [lastSome?]
  | cons x as ih =>
    obtain ⟨hx, has⟩ := List.pairwise_cons.mp has
    obtain ⟨hreflx, hrefl⟩ := List.forall_mem_cons.mp hrefl
    have hrest := ih has hrefl fun a ha a' ha' => hanti a (.tail x ha) a' (.tail x ha')
    rw [lastSome?, Option.or_eq_some_iff]
    constructor
    · rintro (h | ⟨hnone, h⟩)
      · obtain ⟨a, ha, hfa, hgreatest⟩ := hrest.mp h
        refine ⟨a, .tail x ha, hfa, List.forall_mem_cons.mpr ⟨fun _ => hx a ha, hgreatest⟩⟩
      · refine ⟨x, .head as, h, List.forall_mem_cons.mpr ⟨fun _ => hreflx, fun a' ha' hsome => ?_⟩⟩
        simp [lastSome?_eq_none.mp hnone a' ha'] at hsome
    · rintro ⟨a, ha, hfa, hgreatest⟩
      have hgreatest' := (List.forall_mem_cons.mp hgreatest).2
      by_cases hmem : a ∈ as
      · exact .inl (hrest.mpr ⟨a, hmem, hfa, hgreatest'⟩)
      · obtain rfl : a = x := (List.mem_cons.mp ha).resolve_right hmem
        refine .inr ⟨lastSome?_eq_none.mpr fun a' ha' => ?_, hfa⟩
        cases hsome : f a' with
        | none => rfl
        | some b' =>
          have hle : r a' a := hgreatest' a' ha' (by simp [hsome])
          exact absurd (hanti a ha a' (.tail a ha') (hx a' ha') hle ▸ ha') hmem

end LastSome

namespace Disk

def entityFor (id : String) (e : String × Entity) : Option Entity :=
  if e.1 = id then some e.2 else none

def fileEntity? (d : Disk) (id : String) (p : Path) : Option Entity :=
  match d.readEntities p with
  | .ok entities => lastSome? (entityFor id) entities
  | .error _ => none

def rootEntity? (d : Disk) (c : Category) (id : String) (root : Path) : Option Entity :=
  lastSome? (d.fileEntity? id) (d.documentFiles (root.join c.directory))

end Disk

namespace Layering

variable (d : Disk) (c k : Category) (id : String) (l : Layering)

theorem foldl_addEntity (es : List (String × Entity)) :
    (es.foldl (addEntity c) l).world.get? k id
      = if k = c then (lastSome? (Disk.entityFor id) es).or (l.world.get? k id)
        else l.world.get? k id := by
  induction es generalizing l with
  | nil => simp [lastSome?]
  | cons e es ih =>
    rw [List.foldl_cons, ih]
    by_cases hk : k = c
    · by_cases hid : e.1 = id
      · simp [hk, addEntity, World.get?, Dict.get?_insert, lastSome?, Disk.entityFor, hid]
      · simp [hk, addEntity, World.get?, Dict.get?_insert, lastSome?, Disk.entityFor, hid,
          Ne.symm hid]
    · simp [hk, addEntity, World.get?]

theorem addFile_get? (p : Path) :
    (addFile d c l p).world.get? k id
      = if k = c then (d.fileEntity? id p).or (l.world.get? k id) else l.world.get? k id := by
  unfold addFile Disk.fileEntity?
  cases d.readEntities p with
  | ok entities => exact foldl_addEntity c k id _ entities
  | error e => simp [skip]

theorem foldl_addFile (ps : List Path) :
    (ps.foldl (addFile d c) l).world.get? k id
      = if k = c then (lastSome? (d.fileEntity? id) ps).or (l.world.get? k id)
        else l.world.get? k id := by
  induction ps generalizing l with
  | nil => simp [lastSome?]
  | cons p ps ih =>
    rw [List.foldl_cons, ih, addFile_get?]
    by_cases hk : k = c <;> simp [hk, lastSome?, Option.or_assoc]

/-- The four passes over a root read each category once. -/
theorem addRoot_get? (root : Path) :
    (addRoot d l root).world.get? k id = (d.rootEntity? k id root).or (l.world.get? k id) := by
  have hcategory : ∀ c l, (addCategory d root l c).world.get? k id
      = if k = c then (d.rootEntity? c id root).or (l.world.get? k id) else l.world.get? k id :=
    fun c l => foldl_addFile d c k id l _
  cases k <;> simp [addRoot, Category.all, hcategory]

theorem start_get? (base : Path) : (start d base).world.get? k id = none := by
  unfold start
  split <;> cases k <;> rfl

/-- In the world of several roots is what the last root has that has anything. -/
theorem load_get? (base : Path) (addons : List Path) :
    (load d base addons).world.get? k id = lastSome? (d.rootEntity? k id) (base :: addons) := by
  have hroots : ∀ (roots : List Path) l, (roots.foldl (addRoot d) l).world.get? k id
      = (lastSome? (d.rootEntity? k id) roots).or (l.world.get? k id) := by
    intro roots
    induction roots with
    | nil => simp [lastSome?]
    | cons root roots ih => simp [ih, addRoot_get?, lastSome?, Option.or_assoc]
  rw [load, hroots, start_get?, Option.or_none]

end Layering

end Narrative
