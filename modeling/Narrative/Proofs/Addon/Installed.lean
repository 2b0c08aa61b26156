import Narrative.Proofs.Addon.Ordinary
import Narrative.Proofs.Addon.Replacing
import Narrative.Proofs.Addon.Synced

/-! What there is after an installation. One that fails leaves the directory of add-ons as it was if
the items of the archive fit together, and an archive of ordinary paths is installed whenever it has
a top, with its files and no others. -/

namespace Narrative

namespace Addon

open Archive (Item Fits HasTop Ordinary isFolder topOf entryOf)

variable {archive dir : Path} {d d' : Disk} {id : String} {es : List (String × Content)}
  {base : List String}

theorem readable_of_whole (hes : d.content archive = .ok (.ofEntries es)) : Readable d archive := by
  intro es' t hes' _
  cases hes.symm.trans hes'
  exact Archive.isReadable_whole t es

theorem install_of_top (hid : idOfArchive? archive = some id)
    (hes : d.content archive = .ok (.ofEntries es)) (hord : Ordinary es) (htop : HasTop es base)
    (hrec : Receives d dir id) :
    ∃ d', install archive dir d = (.ok id, d') ∧
      Replaced (dir.join id) (Archive.items (topOf base) (es.map entryOf)) d d' := by
  have hread := archiveEntries_ok_iff.mpr hes
  obtain ⟨d', hd', hreplaced⟩ :=
    replace_ok hrec (isName_id hrec.regular hid hread) (htop.fits hord)
  refine ⟨d', ?_, hreplaced⟩
  have htop? : Archive.top? ((ArchiveEntry.listed (es.map fun e => (e.1, .whole e.2))).map
      (·.path)) = some (topOf base) := by
    rw [hord.listed, Archive.paths_map]
    exact (hord.top?_iff (topOf base)).mpr ⟨base, htop, rfl⟩
  rw [install_eq hid hread htop?, rebuild_eq _ (Archive.isReadable_whole _ es), hord.listed, hd']
  rfl

theorem install_of_no_top (hid : idOfArchive? archive = some id)
    (hes : d.content archive = .ok (.ofEntries es)) (hord : Ordinary es)
    (htop : ¬ ∃ base, HasTop es base) : install archive dir d = (.error .noManifest, d) := by
  have hnone : Archive.top? (es.map fun e => ⟨e.1⟩) = none := by
    cases ht : Archive.top? (es.map fun e => ⟨e.1⟩) with
    | none => rfl
    | some t =>
      obtain ⟨base, hbase, -⟩ := (hord.top?_iff t).mp ht
      exact absurd ⟨base, hbase⟩ htop
  rw [install_of_entries hid (archiveEntries_ok_iff.mpr hes), hord.listed, Archive.paths_map, hnone]

theorem fits_of_ordinary (hes : d.content archive = .ok (.ofEntries es)) (hord : Ordinary es) :
    Fits (storedItems d archive) := by
  unfold storedItems
  rw [archiveEntries_ok_iff.mpr hes]
  simp only [hord.listed, Archive.paths_map]
  cases ht : Archive.top? (es.map fun e => ⟨e.1⟩) with
  | none => exact ⟨fun i hi => (by cases hi), fun i hi => (by cases hi)⟩
  | some t =>
    obtain ⟨base, hbase, rfl⟩ := (hord.top?_iff t).mp ht
    exact hbase.fits hord

theorem rebuild_of_install (h : install archive dir d = (.ok id, d')) :
    idOfArchive? archive = some id ∧ ∃ es t, archiveEntries archive d = (.ok es, d) ∧
      Archive.top? ((ArchiveEntry.listed es).map (·.path)) = some t ∧
      rebuild (dir.join id) t es d = (.ok (), d') := by
  rcases install_cases archive dir d with ⟨e, hr⟩ | ⟨id', es, t, hid, hes, htop, hr⟩ <;>
    rw [hr] at h
  · cases h
  · rcases hrebuild : rebuild (dir.join id') t es d with ⟨e | ⟨⟩, d₁⟩ <;>
      rw [hrebuild] at h <;> cases h
    exact ⟨hid, es, t, hes, htop, hrebuild⟩

theorem readable_of_install (h : install archive dir d = (.ok id, d')) : Readable d archive := by
  obtain ⟨-, es, t, hes, htop, hrebuild⟩ := rebuild_of_install h
  exact (readable_iff hes htop).mpr (isReadable_of_rebuild (by rw [hrebuild]; rfl))

theorem replace_of_install (h : install archive dir d = (.ok id, d')) :
    idOfArchive? archive = some id ∧
      replace (dir.join id) (storedItems d archive) d = (.ok (), d') := by
  obtain ⟨hid, es, t, hes, htop, hrebuild⟩ := rebuild_of_install h
  have hread := (readable_iff hes htop).mp (readable_of_install h)
  exact ⟨hid, by rw [storedItems_eq hes htop, ← rebuild_eq _ hread, hrebuild]⟩

theorem error_of_install {e : AddonError} (hread : Readable d archive)
    (h : install archive dir d = (.error e, d')) :
    d' = d ∨ ∃ id es, idOfArchive? archive = some id ∧ archiveEntries archive d = (.ok es, d) ∧
      replace (dir.join id) (storedItems d archive) d = (.error e, d') := by
  rcases install_cases archive dir d with ⟨e', hr⟩ | ⟨id, es, t, hid, hes, htop, hr⟩ <;>
    rw [hr] at h
  · cases h
    exact .inl rfl
  · refine .inr ⟨id, es, hid, hes, ?_⟩
    rw [storedItems_eq hes htop, ← rebuild_eq _ ((readable_iff hes htop).mp hread)]
    rcases hrebuild : rebuild (dir.join id) t es d with ⟨e' | ⟨⟩, d₁⟩ <;>
      rw [hrebuild] at h <;> cases h
    rfl

/-- When something cannot be read, no file is left of the add-on that was there but where one is
written. -/
theorem file_of_install {l : List String} {c : Content} (hreg : d.Regular)
    (hread : ¬ Readable d archive) (hid : idOfArchive? archive = some id)
    (hdir : d.isDir (dir.join id) = true) (hl : d.place dir ++ [id] <+: l)
    (h : (install archive dir d).2.seen? l = some (some c)) :
    ∃ p ∈ writtenPaths d archive, l = d.place ((dir.join id).join p.text) := by
  obtain ⟨es, t, hc, htop⟩ : ∃ es t, d.content archive = .ok (.archive es) ∧
      Archive.top? ((ArchiveEntry.listed es).map (·.path)) = some t :=
    Classical.not_not.mp fun hno => hread fun es t hc htop => absurd ⟨es, t, hc, htop⟩ hno
  have hes := archiveEntries_ok_iff.mpr hc
  have hrebuild : (rebuild (dir.join id) t es d).2.seen? l = some (some c) := by
    rwa [install_eq hid hes htop] at h
  rw [← place_join_id d dir hid] at hl
  obtain ⟨e, he, p, hp, rfl⟩ := file_of_rebuild (isName_id hreg hid hes) hdir hl hrebuild
  rw [writtenPaths_eq, storedItems_eq hes htop]
  exact ⟨p, List.mem_map.mpr ⟨_, List.mem_filterMap.mpr ⟨e, he, by rw [hp]; rfl⟩, rfl⟩, rfl⟩

/-- What is left by an installation that fails. If what is stored of the archive can be read and
fits together, nothing changes at the directory of add-ons or below; the way to the directory must
not need what is in that of the add-on, nor directories that are missing and do not lead to it. If
something cannot be read, the installation fails, and of an add-on that was there no file is left
but where the archive has one. -/
theorem install_error_kept (archive dir : Path) (d : Disk) (hreg : d.Regular) :
    (Readable d archive → Fits (storedItems d archive) →
      (∀ id, idOfArchive? archive = some id → Approach d dir id) →
      (∀ l, d.OnWay dir l → l <+: d.place dir ∨ d.isDirAt l = true) →
      ∀ e d', install archive dir d = (.error e, d') →
        ∀ l, d.place dir <+: l → d'.seen? l = d.seen? l) ∧
    (¬ Readable d archive →
      (install archive dir d).1.isOk = false ∧
      ∀ id, idOfArchive? archive = some id → d.isDir (dir.join id) = true →
        ∀ l c, d.place dir ++ [id] <+: l → (install archive dir d).2.seen? l = some (some c) →
          ∃ p ∈ writtenPaths d archive, l = d.place ((dir.join id).join p.text)) := by
  constructor
  · intro hread hfits happ hway e d' h
    rcases error_of_install hread h with rfl | ⟨id, es, hid, hes, hreplace⟩
    · exact fun _ _ => rfl
    · exact replace_error_kept hreg (isName_id hreg hid hes) hfits (happ id hid) hway hreplace
  · refine fun hread => ⟨?_, fun id hid hdir l c hl h => file_of_install hreg hread hid hdir hl h⟩
    rcases hr : install archive dir d with ⟨e | id, d'⟩
    · rfl
    · exact absurd (readable_of_install hr) hread

/-- The manifest of an archive is there after the installation if it is a file. -/
theorem install_manifest (hinside : ∀ p ∈ writtenPaths d archive, p.isEnclosed = true)
    (hmanifest : ∃ i ∈ storedItems d archive, i.content?.isSome = true ∧
      i.path.parts = [.name manifestName])
    (h : install archive dir d = (.ok id, d')) :
    idOfArchive? archive = some id ∧
      ∃ c, d'.seen? (d.place dir ++ [id, manifestName]) = some (some c) := by
  obtain ⟨hid, hreplace⟩ := replace_of_install h
  obtain ⟨i, hi, hfile, hparts⟩ := hmanifest
  have hencl := hinside i.path (writtenPaths_eq d archive ▸ List.mem_map_of_mem hi)
  simp only [Path.isEnclosed, Bool.and_eq_true, Bool.not_eq_true'] at hencl
  have hhead : i.path.text.toList.head? ≠ some '/' := by simpa [Path.isAbsolute] using hencl.1.1
  have hplace : d.place ((dir.join id).join i.path.text) = d.place dir ++ [id, manifestName] := by
    rw [Disk.place_join d _ hhead, place_join_id d dir hid, ← Path.steps_eq, ← Path.follow_parts,
      hparts]
    simp [Step.move]
  exact ⟨hid, hplace ▸ replace_keeps hreplace i hi hfile⟩

theorem isUsable_of_install {i : Item} (hreg : d.Regular) (h : install archive dir d = (.ok id, d'))
    (hi : i ∈ storedItems d archive) (hfile : i.content?.isSome = true) :
    ∀ n ∈ d.place ((dir.join id).join i.path.text), Disk.isUsable n = true := by
  obtain ⟨c, hseen⟩ := replace_keeps (replace_of_install h).2 i hi hfile
  have hreg' := keepsRegular_install archive dir d hreg
  rw [h] at hreg'
  exact fun n hn => (hreg' _ (by simp [hseen]) n hn).usable

def packed (files es : List (String × Content)) : Disk :=
  (Disk.write ⟨"packed.zip"⟩ (.ofEntries es) (Disk.filled files)).2

theorem regular_packed (files es : List (String × Content)) : (packed files es).Regular :=
  Disk.keepsRegular_write _ _ _ (Disk.regular_filled files)

/-- A file in the place of the add-on's directory cannot be removed, and it stays. -/
theorem install_error_kept_file :
    let es : List (String × Content) :=
      [("mod.toml", .text "[metadata]"), ("npcs/bob.toml", .text "id = 1")]
    let d := packed [("mods/packed", .text "")] es
    let r := install ⟨"packed.zip"⟩ ⟨"mods"⟩ d
    d.Regular ∧ Readable d ⟨"packed.zip"⟩ ∧ Fits (storedItems d ⟨"packed.zip"⟩) ∧
      (∀ id, idOfArchive? ⟨"packed.zip"⟩ = some id → Approach d ⟨"mods"⟩ id) ∧
      (∀ l, d.OnWay ⟨"mods"⟩ l → l <+: d.place ⟨"mods"⟩ ∨ d.isDirAt l = true) ∧
      ∃ e, r = (.error e, r.2) ∧ ∀ l, d.place ⟨"mods"⟩ <+: l → r.2.seen? l = d.seen? l := by
  intro es d r
  have hreg : d.Regular := regular_packed _ _
  have hes : d.content ⟨"packed.zip"⟩ = .ok (.ofEntries es) :=
    Disk.content_of_write (by decide +kernel)
  have hread : Readable d ⟨"packed.zip"⟩ := readable_of_whole hes
  have hfits : Fits (storedItems d ⟨"packed.zip"⟩) := fits_of_ordinary hes (by decide +kernel)
  have happ : ∀ id, idOfArchive? ⟨"packed.zip"⟩ = some id → Approach d ⟨"mods"⟩ id := fun id hid =>
    .of_steps (by decide +kernel) (isName_id hreg hid (archiveEntries_ok_iff.mpr hes)).written
  have hway : ∀ l, d.OnWay ⟨"mods"⟩ l → l <+: d.place ⟨"mods"⟩ ∨ d.isDirAt l = true := fun l hl =>
    .inl (hl.prefix_follow (by decide +kernel))
  obtain ⟨e, hr⟩ := exists_run_eq_error (r := r) (by decide +kernel)
  obtain ⟨hkept, -⟩ := install_error_kept ⟨"packed.zip"⟩ ⟨"mods"⟩ d hreg
  exact ⟨hreg, hread, hfits, happ, hway, e, hr, hkept hread hfits happ hway e r.2 hr⟩

/-- A store with an add-on and an archive of it that has an entry of which a part cannot be read. -/
def damaged : Disk :=
  let entries : List (String × Packed) :=
    [("mod.toml", .whole (.text "new")), ("a", .cut (.text "half"))]
  (Disk.write ⟨"packed.zip"⟩ (.archive entries)
    (Disk.filled [("mods/packed/old.toml", .text "old")])).2

theorem not_kept_of_textAt {α : Type} {e : α} {r : Except α String × Disk} {p : List String}
    (loc : List String) (hp : p <+: loc) (hr : r = (.error e, r.2))
    (hloc : textAt r.2 loc ≠ textAt d loc) :
    ∃ e, r = (.error e, r.2) ∧ ¬ ∀ l, p <+: l → r.2.seen? l = d.seen? l :=
  ⟨e, hr, fun h => hloc (textAt_congr (h loc hp))⟩

/-- A file in the place of a directory that a later entry needs is found out when the old add-on is
gone, and so is an entry that cannot be read. -/
theorem not_install_error_kept_conflict :
    (let es : List (String × Content) :=
      [("a", .text ""), ("a/b", .text ""), ("mod.toml", .text "new")]
      let d := packed [("mods/packed/mod.toml", .text "old")] es
      let r := install ⟨"packed.zip"⟩ ⟨"mods"⟩ d
      ∃ e, r = (.error e, r.2) ∧ ¬ ∀ l, d.place ⟨"mods"⟩ <+: l → r.2.seen? l = d.seen? l) ∧
    let r := install ⟨"packed.zip"⟩ ⟨"mods"⟩ damaged
    ∃ e, r = (.error e, r.2) ∧ ¬ ∀ l, damaged.place ⟨"mods"⟩ <+: l →
      r.2.seen? l = damaged.seen? l := by
  constructor
  · intro es d r
    obtain ⟨e, hr⟩ := exists_run_eq_error (r := r) (by decide +kernel)
    exact not_kept_of_textAt ["mods", "packed", "mod.toml"] (by decide +kernel) hr
      (by decide +kernel)
  · intro r
    obtain ⟨e, hr⟩ := exists_run_eq_error (r := r) (by decide +kernel)
    exact not_kept_of_textAt ["mods", "packed", "old.toml"] (by decide +kernel) hr
      (by decide +kernel)

/-- Installing an archive of ordinary paths succeeds if it has a top. The files of the add-on are
then the file entries of the archive without the names in front of the top, no other file changes,
and neither the order of the entries nor what was there before makes a difference. -/
theorem install_ordinary (archive dir : Path) (d : Disk) (id : String)
    (es : List (String × Content)) (hid : idOfArchive? archive = some id)
    (hes : d.content archive = .ok (.ofEntries es)) (hord : Ordinary es)
    (hrec : Receives d dir id) :
    ((install archive dir d).1.isOk = true ↔ ∃ base, HasTop es base) ∧
    (∀ base, HasTop es base →
      (∀ r c, (install archive dir d).2.seen? (d.place dir ++ id :: r) = some (some c) ↔
        ∃ e ∈ es, isFolder e.1 = false ∧ (Path.mk e.1).steps = (base ++ r).map .name ∧ e.2 = c) ∧
      ∀ l c, ¬ d.place dir ++ [id] <+: l →
        ((install archive dir d).2.seen? l = some (some c) ↔ d.seen? l = some (some c))) ∧
    ∀ archive₀ d₀ es₀, idOfArchive? archive₀ = some id →
      d₀.content archive₀ = .ok (.ofEntries es₀) → es.Perm es₀ →
      d₀.working = d.working → Receives d₀ dir id →
      (install archive₀ dir d₀).1 = (install archive dir d).1 ∧
      ∀ l, d₀.seen? l = d.seen? l ∨ (install archive dir d).1.isOk = true ∧
        d.place dir ++ [id] <+: l →
        (install archive₀ dir d₀).2.seen? l = (install archive dir d).2.seen? l := by
  have hplace : d.place (dir.join id) = d.place dir ++ [id] := place_join_id d dir hid
  by_cases htop : ∃ base, HasTop es base
  · obtain ⟨base, hbase⟩ := htop
    obtain ⟨d', hd', hreplaced⟩ := install_of_top hid hes hord hbase hrec
    rw [hd']
    refine ⟨⟨fun _ => ⟨base, hbase⟩, fun _ => rfl⟩,
      fun base' hbase' => ⟨fun r c => ?_, fun l c hl => ?_⟩, ?_⟩
    · obtain ⟨d'', hd'', hreplaced'⟩ := install_of_top hid hes hord hbase' hrec
      obtain rfl : d' = d'' := congrArg Prod.snd (hd'.symm.trans hd'')
      have hfiles := hbase'.file_iff (r := r) (c := c) hord hreplaced'.toHolds
      rw [hplace, List.append_assoc] at hfiles
      exact hfiles
    · exact hreplaced.file_iff (hplace ▸ hl)
    · intro archive₀ d₀ es₀ hid₀ hes₀ hperm hwork hrec₀
      obtain ⟨d₀', hd₀', hreplaced₀⟩ :=
        install_of_top hid₀ hes₀ (hord.of_perm hperm) (hbase.of_perm hperm) hrec₀
      rw [hd₀']
      refine ⟨rfl, fun l hl => ?_⟩
      by_cases hbelow : d.place dir ++ [id] <+: l
      · obtain ⟨r, rfl⟩ := hbelow
        have hholds₀ := hreplaced₀.toHolds
        rw [Disk.place_congr hwork, hplace] at hholds₀
        exact hbase.seen?_of_perm hord hperm (hplace ▸ hreplaced.toHolds) hholds₀ r
      · exact hreplaced.seen?_eq hreplaced₀ hwork (hplace ▸ hbelow)
          (hl.resolve_right fun h => hbelow h.2)
  · rw [install_of_no_top hid hes hord htop]
    refine ⟨⟨fun h => (by cases h), fun h => absurd h htop⟩,
      fun base hbase => absurd ⟨base, hbase⟩ htop, ?_⟩
    intro archive₀ d₀ es₀ hid₀ hes₀ hperm hwork hrec₀
    have htop₀ : ¬ ∃ base, HasTop es₀ base :=
      fun ⟨base, hbase⟩ => htop ⟨base, hbase.of_perm hperm.symm⟩
    rw [install_of_no_top hid₀ hes₀ (hord.of_perm hperm) htop₀]
    exact ⟨rfl, fun l hl => hl.resolve_right fun h => (by cases h.1)⟩

/-- The folder that all is in is left out, and the files of the add-on that there was are gone. -/
theorem install_ordinary_folder :
    let es : List (String × Content) :=
      [("in/npcs/", .text ""), ("in/mod.toml", .text "new"), ("in/npcs/bob.toml", .text "id = 1")]
    let d :=
      packed [("mods/packed/old.toml", .text "old"), ("mods/other/mod.toml", .text "other")] es
    let r := install ⟨"packed.zip"⟩ ⟨"mods"⟩ d
    idOfArchive? ⟨"packed.zip"⟩ = some "packed" ∧ d.content ⟨"packed.zip"⟩ = .ok (.ofEntries es) ∧
      Ordinary es ∧
      Receives d ⟨"mods"⟩ "packed" ∧ HasTop es ["in"] ∧ r.1.isOk = true ∧
      ∀ x c, r.2.seen? (d.place ⟨"mods"⟩ ++ "packed" :: x) = some (some c) ↔
        ∃ e ∈ es, isFolder e.1 = false ∧ (Path.mk e.1).steps = (["in"] ++ x).map .name ∧
            e.2 = c := by
  intro es d r
  have hid : idOfArchive? ⟨"packed.zip"⟩ = some "packed" := by decide +kernel
  have hread : d.content ⟨"packed.zip"⟩ = .ok (.ofEntries es) :=
    Disk.content_of_write (by decide +kernel)
  have hord : Ordinary es := by decide +kernel
  have hreg : d.Regular := regular_packed _ _
  have happ : Approach d ⟨"mods"⟩ "packed" :=
    .of_steps (by decide +kernel) (isName_id hreg hid (archiveEntries_ok_iff.mpr hread)).written
  have hrec : Receives d ⟨"mods"⟩ "packed" :=
    ⟨happ, hreg, .inl (by decide +kernel), .inr (by decide +kernel)⟩
  have htop : HasTop es ["in"] :=
    .folder (by decide +kernel) (by decide +kernel) (by decide +kernel)
  obtain ⟨hok, hfiles, -⟩ := install_ordinary _ _ d "packed" es hid hread hord hrec
  exact ⟨hid, hread, hord, hrec, htop, hok.mpr ⟨_, htop⟩, (hfiles _ htop).1⟩

def longName : String :=
  String.ofList (List.replicate 256 'a')

theorem toList_longName : longName.toList = List.replicate 256 'a' :=
  String.toList_ofList

theorem notMem_longName {c : Char} (h : c ≠ 'a') : c ∉ longName.toList := by
  rw [toList_longName, List.mem_replicate]
  exact fun hc => h hc.2

theorem steps_longName : (Path.mk longName).steps = [.name longName] := by
  have hne : longName.toList ≠ [] := by
    rw [toList_longName]
    exact List.cons_ne_nil _ _
  have hdot : longName.toList.head? ≠ some '.' :=
    fun h => notMem_longName (by decide) (List.mem_of_head? h)
  have hsteps := Path.textSteps_of_notMem (notMem_longName (by decide)) hne hdot
  rwa [String.ofList_toList] at hsteps

theorem isEnclosed_longName : (Path.mk longName).isEnclosed = true := by
  have habsolute : (Path.mk longName).isAbsolute = false := by
    rw [Path.isAbsolute, decide_eq_false_iff_not]
    exact fun h => notMem_longName (by decide) (List.mem_of_head? h)
  simp [Path.isEnclosed, habsolute, Path.depth?_parts, steps_longName, notMem_longName, Path.depth?]

theorem isFolder_longName : isFolder longName = false := by
  rw [isFolder, Bool.or_eq_false_iff, decide_eq_false_iff_not, decide_eq_false_iff_not]
  exact ⟨fun h => notMem_longName (by decide) (List.mem_of_getLast? h),
    fun h => notMem_longName (by decide) (List.mem_of_getLast? h)⟩

theorem install_longName {c : Content} (hreg : d.Regular)
    (hi : ⟨⟨longName⟩, some c⟩ ∈ storedItems d archive) :
    (install archive dir d).1.isOk = false := by
  rcases hr : install archive dir d with ⟨e | id, d'⟩
  · rfl
  · have hhead : longName.toList.head? ≠ some '/' :=
      fun h => notMem_longName (by decide) (List.mem_of_head? h)
    have hplace : d.place ((dir.join id).join longName) = d.place (dir.join id) ++ [longName] := by
      rw [Disk.place_join d _ hhead, ← Path.steps_eq ⟨longName⟩, steps_longName]
      rfl
    have husable := isUsable_of_install hreg hr hi rfl longName (by rw [hplace]; simp)
    have hunusable : Disk.isUsable longName = false := by decide +kernel
    rw [hunusable] at husable
    cases husable

theorem longName_mem_storedItems {es : List (String × Content)}
    (hes : d.content archive = .ok (.ofEntries es))
    (hnames : es = [("mod.toml", .text ""), (longName, .text "")]) :
    ⟨⟨longName⟩, some (.text "")⟩ ∈ storedItems d archive := by
  have hlisted : ArchiveEntry.listed (es.map fun e => (e.1, .whole e.2)) = es.map entryOf := by
    refine Archive.listed_of_isEnclosed (hnames ▸ List.forall_mem_cons.mpr ⟨by decide +kernel, ?_⟩)
    exact List.forall_mem_singleton.mpr isEnclosed_longName
  have hmem : (longName, .text "") ∈ es := hnames ▸ List.mem_cons_of_mem _ List.mem_cons_self
  have htop : Archive.top? ((ArchiveEntry.listed (es.map fun e => (e.1, .whole e.2))).map
      (·.path)) = some .root := by
    rw [hlisted, Archive.top?, if_pos]
    rw [hnames]
    decide +kernel
  rw [storedItems_eq (archiveEntries_ok_iff.mpr hes) htop, hlisted]
  refine List.mem_filterMap.mpr ⟨entryOf (longName, .text ""), List.mem_map_of_mem hmem, ?_⟩
  rw [entryOf, isFolder_longName]
  rfl

/-- A name that is too long for a file cannot be stored; a way through what a file of the archive
replaces is lost; and what cannot be found before a directory on the way is made is not removed. -/
theorem not_install_ordinary :
    (let es : List (String × Content) := [("mod.toml", .text ""), (longName, .text "")]
      let d := packed [] es
      (Disk.makeDir ⟨"mods"⟩ d).2.isDir ⟨"mods"⟩ = true ∧ d.contains ⟨"mods/packed"⟩ = false ∧
        HasTop es [] ∧
        (install ⟨"packed.zip"⟩ ⟨"mods"⟩ d).1.isOk = false) ∧
    (let es : List (String × Content) := [("mod.toml", .text ""), ("sub", .text "")]
      let d := packed [] es
      let dir : Path := ⟨"mods/packed/sub/../.."⟩
      Ordinary es ∧ (Disk.makeDir dir d).2.isDir dir = true ∧
        d.contains (dir.join "packed") = false ∧ HasTop es [] ∧
        (install ⟨"packed.zip"⟩ dir d).1.isOk = false) ∧
    let es : List (String × Content) := [("mod.toml", .text "")]
    let d := packed [("mods/packed/old.txt", .text "old")] es
    let dir : Path := ⟨"mods/a/../../mods"⟩
    let r := install ⟨"packed.zip"⟩ dir d
    Ordinary es ∧ (Disk.makeDir dir d).2.isDir dir = true ∧ d.contains (dir.join "packed") = false ∧
      HasTop es [] ∧
      r.1.isOk = true ∧ textAt r.2 (d.place dir ++ ["packed", "old.txt"]) = some "old" := by
  refine ⟨⟨?_, ?_, .root ?_, ?long⟩, ⟨?_, ?_, ?_, .root ?_, ?_⟩, ?_, ?_, ?_, .root ?_, ?_, ?_⟩
  case long =>
    refine install_longName (regular_packed _ _)
      (longName_mem_storedItems (Disk.content_of_write ?_) rfl)
    decide +kernel
  all_goals decide +kernel

end Addon

end Narrative
