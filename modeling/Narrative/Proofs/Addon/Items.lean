import Narrative.Proofs.Addon.Install
import Narrative.Proofs.Storage.Making

/-! What an archive stores below its top, item by item. Items that fit together are all stored, and
then a file or a directory is there because an item asks for it. -/

namespace Narrative

namespace Path

variable {base r l : List String} {ss ts : List Step} {n : Nat}

theorem depth?_of_append (h : (depth? n (ss ++ ts)).isSome) : (depth? n ss).isSome := by
  induction ss generalizing n with
  | nil => rfl
  | cons s ss ih =>
    cases s with
    | here => exact ih h
    | up =>
      cases n with
      | zero => simp [depth?] at h
      | succ n => exact ih h
    | name x => exact ih (n := n + 1) h

theorem follow_parts (loc : List String) (p : Path) : follow loc p.parts = follow loc p.steps := by
  have hfilter : ∀ (ss : List Step) (loc : List String), follow loc (ss.filter (· ≠ .here)) =
      follow loc ss := by
    intro ss
    induction ss with
    | nil => exact fun _ => rfl
    | cons s ss ih =>
      intro loc
      cases s with
      | here => simpa [Step.move] using ih loc
      | up => simpa using ih (Step.up.move loc)
      | name x => simpa using ih ((Step.name x).move loc)
  unfold parts
  split
  · next ss hss =>
    rw [hss]
    split
    · exact hfilter ss loc
    · exact hfilter ss loc
  · exact hfilter p.steps loc

/-- Steps that never lead out lead below a location as they do at the top. -/
theorem follow_below (h : (depth? r.length ss).isSome) :
    follow (base ++ r) ss = base ++ follow r ss := by
  induction ss generalizing r with
  | nil => rfl
  | cons s ss ih =>
    rw [follow_cons, follow_cons]
    cases s with
    | here => exact ih h
    | up =>
      cases r with
      | nil => simp [depth?] at h
      | cons x r =>
        have hne : x :: r ≠ [] := List.cons_ne_nil x r
        rw [Step.move, List.dropLast_append_of_ne_nil hne]
        exact ih (by simpa [depth?] using h)
    | name x =>
      rw [Step.move, List.append_assoc]
      exact ih (by simpa [depth?] using h)

theorem passes_below (h : (depth? r.length ss).isSome) :
    Passes (base ++ r) ss l ↔ ∃ r', l = base ++ r' ∧ Passes r ss r' := by
  have hprefix : ∀ before, before <+: ss → follow (base ++ r) before = base ++ follow r before := by
    rintro before ⟨after, rfl⟩
    exact follow_below (depth?_of_append h)
  constructor
  · rintro ⟨before, hb, rfl⟩
    exact ⟨_, hprefix before hb, before, hb, rfl⟩
  · rintro ⟨_, rfl, before, hb, rfl⟩
    exact ⟨before, hb, hprefix before hb⟩

end Path

namespace Archive

/-- What an archive stores at a path below its top: a file with what it holds, or a directory. -/
structure Item where
  path : Path
  content? : Option Content

/-- Whether what is stored of an entry can be read: it can be opened, and all of it is read if it is
a file below the top. -/
def IsReadable (t : Top) (e : String × Packed) : Prop :=
  e.2.opened?.isSome = true ∧ ∀ entry ∈ ArchiveEntry.ofNamed? e,
    (t.relative? entry.path).isSome = true → entry.isDir = false → entry.isWhole = true

instance (t : Top) (e : String × Packed) : Decidable (IsReadable t e) :=
  inferInstanceAs (Decidable (_ ∧ _))

def items (t : Top) (es : List ArchiveEntry) : List Item :=
  es.filterMap fun e => (t.relative? e.path).map fun p =>
    ⟨p, if e.isDir then none else some e.content⟩

namespace Item

open Addon (Installing)

/-- The steps to what has to be a directory for the item. -/
def lead (i : Item) : List Step :=
  match i.content? with
  | some _ => i.path.steps.dropLast
  | none => i.path.steps

def place (i : Item) : List String :=
  Path.follow [] i.path.steps

def store (dest : Path) (i : Item) : Installing Unit :=
  match i.content? with
  | some c => do
    Installing.disk (Disk.makeLead (dest.join i.path.text))
    Installing.disk (Disk.write (dest.join i.path.text) c)
  | none => Installing.disk (Disk.makeDir (dest.join i.path.text))

/-- Whether the item can be stored in a directory without anything in it: its path never leads out,
and all its steps are names that files can have or lead up. -/
structure Storable (i : Item) : Prop where
  enclosed : i.path.isEnclosed = true
  usable : ∀ n, .name n ∈ i.path.steps → Disk.isUsable n = true
  stays : .here ∉ i.path.steps
  named : i.content?.isSome = true → i.path.endsInSlash = false ∧
    ∃ n, i.path.steps.getLast? = some (.name n)

end Item

/-- Whether no item has a file where an item needs a directory. -/
structure Fits (is : List Item) : Prop where
  storable : ∀ i ∈ is, i.Storable
  apart : ∀ i ∈ is, i.content?.isSome = true → ∀ j ∈ is, ¬ Path.Passes [] j.lead i.place

theorem Fits.of_append {is js : List Item} (h : Fits (is ++ js)) : Fits is where
  storable i hi := h.storable i (List.mem_append_left js hi)
  apart i hi hfile j hj :=
    h.apart i (List.mem_append_left js hi) hfile j (List.mem_append_left js hj)

end Archive

namespace Addon

open Archive (Item Top Fits)

theorem adapt_run {α : Type} (a : Storage DiskFault α) (d : Disk) :
    Installing.disk a d = ((a d).1.mapError .io, (a d).2) :=
  rfl

theorem forM_singleton (i : Item) (dest : Path) : [i].forM (Item.store dest) = i.store dest := by
  change (i.store dest >>= fun _ => pure ()) = i.store dest
  exact bind_pure_unit

theorem extract_eq (dest : Path) {t : Top} {e : ArchiveEntry}
    (h : (t.relative? e.path).isSome = true → e.isDir = false → e.isWhole = true) :
    extract dest t e = (Archive.items t [e]).forM (Item.store dest) := by
  rw [Archive.items, List.filterMap_cons, List.filterMap_nil, extract]
  cases hp : t.relative? e.path with
  | none => rfl
  | some p =>
    simp only [Option.map_some, forM_singleton]
    cases hdir : e.isDir with
    | true => rfl
    | false =>
      simp only [Item.store, Disk.makeLead, h (by simp [hp]) hdir, Bool.not_true,
        Bool.false_eq_true, if_false, bind_pure_unit]
      cases (dest.join p.text).parent? with
      | none => rfl
      | some q => rfl

theorem isWhole_of_extract {dest : Path} {t : Top} {e : ArchiveEntry} {d : Disk}
    (h : (extract dest t e d).1.isOk = true) (hbelow : (t.relative? e.path).isSome = true)
    (hdir : e.isDir = false) : e.isWhole = true := by
  obtain ⟨p, hp⟩ := Option.isSome_iff_exists.mp hbelow
  have hwrite : ∀ d : Disk, ((do
      Installing.disk (Disk.write (dest.join p.text) e.content)
      if !e.isWhole then throw (.io .damaged) : Installing Unit) d).1.isOk = true →
      e.isWhole = true := by
    intro d hok
    rw [Disk.bind_run] at hok
    rcases hw : Installing.disk (Disk.write (dest.join p.text) e.content) d with ⟨err | ⟨⟩, d'⟩ <;>
      rw [hw] at hok
    · cases hok
    · cases hwhole : e.isWhole with
      | true => rfl
      | false =>
        rw [hwhole] at hok
        cases hok
  unfold extract at h
  rw [hp] at h
  simp only [hdir, Bool.false_eq_true, if_false] at h
  cases hparent : (dest.join p.text).parent? with
  | none =>
    rw [hparent] at h
    exact hwrite d h
  | some q =>
    rw [hparent] at h
    dsimp only at h
    rw [Disk.bind_run] at h
    rcases hmake : Installing.disk (Disk.makeDir q) d with ⟨err | ⟨⟩, d'⟩ <;> rw [hmake] at h
    · cases h
    · exact hwrite d' h

theorem unpack_eq (dest : Path) {t : Top} {e : String × Packed} (h : Archive.IsReadable t e) :
    unpack dest t e = (Archive.items t (ArchiveEntry.listed [e])).forM (Item.store dest) := by
  obtain ⟨hopen, hread⟩ := h
  obtain ⟨x, hx⟩ := Option.isSome_iff_exists.mp hopen
  rw [unpack, ArchiveEntry.listed, hx]
  cases hentry : ArchiveEntry.ofNamed? e with
  | none =>
    rw [List.filterMap_cons_none hentry]
    rfl
  | some entry =>
    rw [List.filterMap_cons_some hentry]
    exact extract_eq dest (hread entry hentry)

theorem isReadable_of_unpack {dest : Path} {t : Top} {e : String × Packed} {d : Disk}
    (h : (unpack dest t e d).1.isOk = true) : Archive.IsReadable t e := by
  unfold unpack at h
  cases hopen : e.2.opened? with
  | none =>
    rw [hopen] at h
    cases h
  | some x =>
    refine ⟨by rw [hopen]; rfl, fun entry hentry hbelow hdir => ?_⟩
    rw [hopen, Option.mem_def.mp hentry] at h
    exact isWhole_of_extract h hbelow hdir

theorem forM_unpack_eq (dest : Path) {t : Top} {es : List (String × Packed)}
    (h : ∀ e ∈ es, Archive.IsReadable t e) : es.forM (unpack dest t) =
      (Archive.items t (ArchiveEntry.listed es)).forM (Item.store dest) := by
  induction es with
  | nil => rfl
  | cons e es ih =>
    obtain ⟨he, hes⟩ := List.forall_mem_cons.mp h
    have hitems : Archive.items t (ArchiveEntry.listed (e :: es)) =
        Archive.items t (ArchiveEntry.listed [e]) ++ Archive.items t (ArchiveEntry.listed es) := by
      rw [Archive.items, Archive.items, Archive.items, ← List.filterMap_append]
      simp only [ArchiveEntry.listed, ← List.filterMap_append, List.singleton_append]
    have hboth : (Archive.items t (ArchiveEntry.listed [e]) ++
        Archive.items t (ArchiveEntry.listed es)).forM (Item.store dest) = (do
          (Archive.items t (ArchiveEntry.listed [e])).forM (Item.store dest)
          (Archive.items t (ArchiveEntry.listed es)).forM (Item.store dest)) := List.forM_append
    rw [hitems, hboth, ← unpack_eq dest he, ← ih hes]
    rfl

/-- An entry that cannot be read is found out at the latest when those before it are written. -/
theorem isReadable_of_forM_unpack {dest : Path} {t : Top} {es : List (String × Packed)} {d : Disk}
    (h : (es.forM (unpack dest t) d).1.isOk = true) : ∀ e ∈ es, Archive.IsReadable t e := by
  induction es generalizing d with
  | nil => exact List.forall_mem_nil _
  | cons e es ih =>
    have hrun : ((unpack dest t e >>= fun _ => es.forM (unpack dest t)) d).1.isOk = true := h
    rw [Disk.bind_run] at hrun
    rcases he : unpack dest t e d with ⟨err | ⟨⟩, d'⟩ <;> rw [he] at hrun
    · cases hrun
    · exact List.forall_mem_cons.mpr ⟨isReadable_of_unpack (by rw [he]; rfl), ih hrun⟩

end Addon

end Narrative
