import Narrative.Addon.Install
import Narrative.Proofs.Storage.Written

/-! What installing an add-on changes. The entries of an archive do not lead out of it, but those of
an archive with a top folder are written without that folder, and then one step more leads out. -/

namespace Narrative

namespace Path

theorem depth?_filter (n : Nat) (ss : List Step) :
    depth? n (ss.filter (· ≠ .here)) = depth? n ss := by
  induction ss generalizing n with
  | nil => rfl
  | cons s ss ih =>
    cases s with
    | here => simpa [depth?] using ih n
    | up =>
      cases n with
      | zero => simp [depth?]
      | succ n => simpa [depth?] using ih n
    | name x => simpa [depth?] using ih (n + 1)

theorem depth?_parts (n : Nat) (p : Path) : depth? n p.parts = depth? n p.steps := by
  unfold parts
  split
  · next steps h =>
    rw [h]
    split
    · exact depth?_filter n steps
    · exact depth?_filter n steps
  · exact depth?_filter n p.steps

/-- Steps that are `n` deep at first and never lead out stay below a location `n` names up. -/
theorem prefix_of_passes {floor loc l : List String} {ss : List Step} {n : Nat}
    (hdepth : (depth? n ss).isSome) (hfloor : floor <+: loc) (hn : floor.length + n ≤ loc.length)
    (h : Passes loc ss l) : floor <+: l := by
  induction ss generalizing loc n with
  | nil => exact passes_nil.mp h ▸ hfloor
  | cons s ss ih =>
    rcases passes_cons.mp h with rfl | h
    · exact hfloor
    · cases s with
      | here => exact ih hdepth hfloor hn h
      | up =>
        cases n with
        | zero => simp [depth?] at hdepth
        | succ n =>
          refine ih hdepth ?_ ?_ h
          · obtain ⟨rest, rfl⟩ := hfloor
            have hrest : rest ≠ [] := by
              rintro rfl
              simp only [List.append_nil] at hn
              omega
            rw [Step.move, List.dropLast_append_of_ne_nil hrest]
            exact List.prefix_append _ _
          · simp only [Step.move, List.length_dropLast]
            omega
      | name x =>
        refine ih hdepth (hfloor.trans (List.prefix_append _ _)) ?_ h
        simp only [List.length_append, List.length_singleton]
        omega

theorem textSteps_joinWith {ss : List Step} (h : ∀ s ∈ ss, IsWritten s) :
    textSteps (joinWith "/" (ss.map Step.text)).toList = ss := by
  induction ss with
  | nil => rfl
  | cons s ss ih =>
    have hs := (h s List.mem_cons_self).1
    have hrest := ih fun t ht => h t (List.mem_cons_of_mem _ ht)
    cases ss with
    | nil => simpa [joinWith] using hs
    | cons t ss =>
      have := textSteps_append s.text.toList (joinWith "/" ((t :: ss).map Step.text)).toList
      rw [hs, hrest] at this
      simpa [joinWith] using this

theorem mem_steps_of_mem_parts {p : Path} {s : Step} (h : s ∈ p.parts) : s ∈ p.steps := by
  unfold parts at h
  split at h
  · next steps hsteps =>
    rw [hsteps]
    split at h
    · exact List.mem_cons_of_mem _ (List.mem_filter.mp h).1
    · rcases List.mem_cons.mp h with rfl | h
      · exact List.mem_cons_self
      · exact List.mem_cons_of_mem _ (List.mem_filter.mp h).1
  · exact (List.mem_filter.mp h).1

theorem steps_ofSteps {ss : List Step} (h : ∀ s ∈ ss, IsWritten s) : (ofSteps ss).steps = ss :=
  textSteps_joinWith h

theorem isAbsolute_ofSteps {s : Step} {ss : List Step} (h : IsWritten s) :
    (ofSteps (s :: ss)).isAbsolute = false := by
  obtain ⟨hs, hslash⟩ := h
  have hne : s.text.toList ≠ [] := by
    intro hnil
    simp [hnil] at hs
  obtain ⟨c, cs, hc⟩ := List.exists_cons_of_ne_nil hne
  have hc' : c ≠ '/' := by
    rintro rfl
    simp [hc] at hslash
  cases ss <;> simp [isAbsolute, ofSteps, joinWith, hc, hc']

end Path

namespace Archive

/-- What is left of an enclosed path below the top of an archive leads out by one step at most. -/
theorem depth?_relative {t : Top} {p q : Path} (hp : p.isEnclosed = true)
    (h : t.relative? p = some q) :
      q.isAbsolute = false ∧ ∃ n ≤ 1, (Path.depth? n q.steps).isSome := by
  simp only [Path.isEnclosed, Bool.and_eq_true] at hp
  obtain ⟨⟨habs, -⟩, hdepth⟩ := hp
  cases t with
  | root =>
    obtain rfl : p = q := Option.some.inj h
    refine ⟨by simpa using habs, 0, by omega, ?_⟩
    rwa [← Path.depth?_parts]
  | folder step =>
    simp only [Top.relative?] at h
    split at h
    · next s t rest hparts =>
      split at h
      · cases h
        have hwritten : ∀ x ∈ t :: rest, Path.IsWritten x := fun x hx =>
          Path.isWritten_of_mem (Path.mem_steps_of_mem_parts (hparts ▸ List.mem_cons_of_mem s hx))
        refine ⟨Path.isAbsolute_ofSteps (hwritten t List.mem_cons_self), ?_⟩
        rw [Path.steps_ofSteps hwritten]
        rw [hparts] at hdepth
        cases s with
        | here => exact ⟨0, by omega, hdepth⟩
        | up => simp [Path.depth?] at hdepth
        | name x => exact ⟨1, by omega, hdepth⟩
      · cases h
    · cases h

end Archive

namespace Addon

open Disk (Confined)

variable {made inside : List String → Prop} {archive dir : Path} {d : Disk} {id : String}

/-- The paths at which the entries of an archive are written, as seen from the add-on's
directory. -/
def writtenPaths (d : Disk) (archive : Path) : List Path :=
  match (archiveEntries archive d).1 with
  | .ok es => match Archive.top? ((ArchiveEntry.listed es).map (·.path)) with
    | some top => (ArchiveEntry.listed es).filterMap fun e => top.relative? e.path
    | none => []
  | .error _ => []

theorem archiveEntries_cases (archive : Path) (d : Disk) :
    (∃ e, archiveEntries archive d = (.error e, d)) ∨
      ∃ es, archiveEntries archive d = (.ok es, d) := by
  have hget (g : Disk → Installing (List (String × Packed))) : (get >>= g) d = g d d := rfl
  rw [archiveEntries, hget]
  cases d.contains archive with
  | false => exact .inl ⟨_, rfl⟩
  | true =>
    rcases d.content archive with e | c
    · exact .inl ⟨_, rfl⟩
    · cases c with
      | archive es => exact .inr ⟨es, rfl⟩
      | _ => exact .inl ⟨_, rfl⟩

theorem archiveEntries_disk (archive : Path) (d : Disk) : (archiveEntries archive d).2 = d := by
  rcases archiveEntries_cases archive d with ⟨e, he⟩ | ⟨es, hes⟩
  · rw [he]
  · rw [hes]

theorem isEnclosed_of_mem {es : List (String × Packed)} {e : ArchiveEntry}
    (h : e ∈ ArchiveEntry.listed es) : e.path.isEnclosed = true := by
  obtain ⟨named, -, he⟩ := List.mem_filterMap.mp h
  obtain ⟨_, -, he⟩ := Option.bind_eq_some_iff.mp he
  dsimp only at he
  split at he
  · next hencl =>
    cases he
    exact hencl
  · cases he

theorem disk_confined {a : Storage DiskFault Unit} (h : Confined made inside d (a d).2) :
    Confined made inside d (Installing.disk a d).2 :=
  h

theorem textSteps_id (h : idOfArchive? archive = some id) :
    id.toList.head? ≠ some '/' ∧ Path.textSteps id.toList = [.name id] := by
  obtain ⟨hstem, hid⟩ := Option.filter_eq_some_iff.mp h
  obtain ⟨name, hname, rfl⟩ := Option.map_eq_some_iff.mp hstem
  obtain ⟨s, hs, hsname⟩ := Option.bind_eq_some_iff.mp hname
  have hmem : Step.name name ∈ archive.steps := by
    cases s <;> cases hsname
    exact Path.mem_steps_of_mem_parts (List.mem_of_getLast? hs)
  have hslash : '/' ∉ (Path.splitName name).1.toList := fun h =>
    Path.notMem_of_name_mem_textSteps hmem ((Path.isPrefix_splitName name).subset h)
  simp only [Bool.and_eq_true, Bool.not_eq_true', decide_eq_true_eq] at hid
  have hne : (Path.splitName name).1.toList ≠ [] := by simpa using hid.1
  refine ⟨?_, ?_⟩
  · intro hhead
    exact hslash (List.mem_of_head? hhead)
  · simpa using Path.textSteps_of_notMem hslash hne hid.2

theorem exists_of_mem_writtenPaths {p : Path} (h : p ∈ writtenPaths d archive) :
    ∃ (e : ArchiveEntry) (t : Archive.Top), e.path.isEnclosed = true ∧
      t.relative? e.path = some p := by
  unfold writtenPaths at h
  rcases archiveEntries_cases archive d with ⟨e, he⟩ | ⟨es, hes⟩
  · simp [he] at h
  · rw [hes] at h
    dsimp only at h
    split at h
    · next t ht =>
      obtain ⟨e, he, hp⟩ := List.mem_filterMap.mp h
      exact ⟨e, t, isEnclosed_of_mem he, hp⟩
    · simp at h

section Install

variable {floor : List String} {entries : List (String × Packed)} {t : Archive.Top}

/-- Whether what an entry is written to is at a location or below, from the place of a directory
on. -/
def StaysBelow (floor place : List String) (p : Path) : Prop :=
  p.text.toList.head? ≠ some '/' ∧ ∀ l, Path.Passes place p.steps l → floor <+: l

/-- Whether a path leads to what is inside, and what is on the way can be made if it is not
inside. -/
def LeadsInside (made inside : List String → Prop) (d : Disk) (p : Path) : Prop :=
  inside (d.place p) ∧ ∀ l, d.OnWay p l → made l ∨ inside l

theorem extract_confined (dest : Path) (e : ArchiveEntry) (d : Disk)
    (h : ∀ p, t.relative? e.path = some p → LeadsInside made inside d (dest.join p.text)) :
    Confined made inside d (extract dest t e d).2 := by
  unfold extract
  cases hp : t.relative? e.path with
  | none => exact .refl
  | some p =>
    obtain ⟨hplace, hway⟩ := h p hp
    have hwrite : ∀ d' : Disk, d'.working = d.working →
        Confined made inside d' ((do
          Installing.disk (Disk.write (dest.join p.text) e.content)
          if !e.isWhole then throw (.io .damaged) : Installing Unit) d').2 := by
      intro d' hd'
      rw [← Disk.place_congr hd'] at hplace
      refine .bind (disk_confined ?_) fun _ d'' _ _ => ?_
      · exact (Disk.write_confined _ e.content d').mono (fun _ h => h ▸ hplace) fun _ h => .inl h
      · cases e.isWhole <;> exact .refl
    dsimp only
    split
    · exact disk_confined ((Disk.makeDir_confined _ d).mono (fun _ h => h.elim) hway)
    · cases hparent : (dest.join p.text).parent? with
      | none => exact hwrite d rfl
      | some q =>
        have hmake : Confined made inside d (Installing.disk (Disk.makeDir q) d).2 :=
          disk_confined ((Disk.makeDir_confined q d).mono (fun _ h => h.elim)
            fun loc hloc => hway loc (hloc.of_parent hparent))
        exact .bind hmake fun _ d' _ hd' => hwrite d' hd'

theorem unpack_confined (dest : Path) (e : String × Packed) (d : Disk)
    (h : ∀ entry ∈ ArchiveEntry.ofNamed? e, ∀ p, t.relative? entry.path = some p →
      LeadsInside made inside d (dest.join p.text)) :
    Confined made inside d (unpack dest t e d).2 := by
  unfold unpack
  cases e.2.opened?.isNone with
  | true => exact .refl
  | false =>
    cases hentry : ArchiveEntry.ofNamed? e with
    | none => exact .refl
    | some entry => exact extract_confined dest entry d (h entry hentry)

theorem forM_unpack_confined (dest : Path) (d : Disk)
    (h : ∀ e ∈ ArchiveEntry.listed entries, ∀ p, t.relative? e.path = some p →
      LeadsInside made inside d (dest.join p.text)) :
    Confined made inside d (entries.forM (unpack dest t) d).2 := by
  induction entries generalizing d with
  | nil => exact .refl
  | cons e entries ih =>
    have hfirst := unpack_confined dest e d fun entry he =>
      h entry (List.mem_filterMap.mpr ⟨e, List.mem_cons_self, he⟩)
    refine .bind hfirst fun _ d' _ hwork => ih d' fun e' he' p hp => ?_
    obtain ⟨named, hnamed, he'⟩ := List.mem_filterMap.mp he'
    have hrest := h e' (List.mem_filterMap.mpr ⟨named, List.mem_cons_of_mem e hnamed, he'⟩) p hp
    rwa [LeadsInside, Disk.place_congr hwork, Disk.onWay_congr hwork]

theorem StaysBelow.leadsInside {dest p : Path} (h : StaysBelow floor (d.place dest) p) :
    LeadsInside (d.OnWay dest) (floor <+: ·) d (dest.join p.text) := by
  obtain ⟨hhead, hbelow⟩ := h
  refine ⟨?_, fun l hl => ((Disk.onWay_join d dest hhead).mp hl).imp_right (hbelow l)⟩
  rw [Disk.place_join d dest hhead]
  exact hbelow _ Path.passes_follow

theorem place_join_id (d : Disk) (dir : Path) (h : idOfArchive? archive = some id) :
    d.place (dir.join id) = d.place dir ++ [id] := by
  obtain ⟨hhead, hsteps⟩ := textSteps_id h
  rw [Disk.place_join d dir hhead, hsteps]
  rfl

theorem install_of_no_id (d : Disk) (dir : Path) (h : idOfArchive? archive = none) :
    (install archive dir d).2 = d := by
  unfold install
  rw [h]
  rfl

theorem onWay_id (hid : idOfArchive? archive = some id) (hfloor : floor <+: d.place dir ++ [id])
    {loc : List String} (h : d.OnWay (dir.join id) loc) : d.OnWay dir loc ∨ floor <+: loc := by
  obtain ⟨hhead, hsteps⟩ := textSteps_id hid
  rcases (Disk.onWay_join d dir hhead).mp h with h | h
  · exact .inl h
  · rw [hsteps] at h
    rcases Path.passes_cons.mp h with rfl | h
    · exact .inl (d.onWay_place dir)
    · obtain rfl : loc = d.place dir ++ [id] := Path.passes_nil.mp h
      exact .inr hfloor

theorem rebuild_confined (hid : idOfArchive? archive = some id) (d : Disk)
    (hfloor : floor <+: d.place dir ++ [id])
    (h : ∀ e ∈ ArchiveEntry.listed entries, ∀ p, t.relative? e.path = some p →
      StaysBelow floor (d.place dir ++ [id]) p) :
    Confined (d.OnWay dir) (floor <+: ·) d ((do
      Installing.disk (Disk.makeDir (dir.join id))
      entries.forM (unpack (dir.join id) t)
      pure id : Installing String) d).2 := by
  have hmake := (Disk.makeDir_confined (dir.join id) d).mono (fun _ h => h.elim)
    fun _ hloc => onWay_id hid hfloor hloc
  refine .bind (disk_confined hmake) fun _ d' _ hwork => ?_
  rw [← Disk.place_congr hwork] at hfloor h
  rw [← place_join_id d' dir hid] at h
  rw [← Disk.onWay_congr hwork]
  have hunpack := (forM_unpack_confined (dir.join id) d' fun e he p hp =>
    (h e he p hp).leadsInside).mono (fun _ h => h) fun _ hloc => onWay_id hid hfloor hloc
  exact .bind hunpack fun _ _ _ _ => .refl

/-- If all that is written stays below a location at the add-on's directory or above it, then so
does whatever an installation changes. -/
theorem install_confined_of (hid : idOfArchive? archive = some id)
    (hfloor : floor <+: d.place dir ++ [id])
    (h : ∀ p ∈ writtenPaths d archive, StaysBelow floor (d.place dir ++ [id]) p) :
    Confined (d.OnWay dir) (floor <+: ·) d (install archive dir d).2 := by
  have hread := archiveEntries_disk archive d
  unfold install
  simp only [hid, pure_bind]
  refine .bind (a := archiveEntries archive) (by rw [hread]; exact .refl)
    fun entries d' hentries _ => ?_
  obtain rfl : d = d' := by rw [← hread, hentries]
  cases htop : Archive.top? ((ArchiveEntry.listed entries).map (·.path)) with
  | none => exact .refl
  | some top =>
    have hwritten : ∀ e ∈ ArchiveEntry.listed entries, ∀ p, top.relative? e.path = some p →
        StaysBelow floor (d.place dir ++ [id]) p := by
      intro e he p hp
      apply h
      simp only [writtenPaths, hentries, htop]
      exact List.mem_filterMap.mpr ⟨e, he, hp⟩
    dsimp only
    refine .get_bind ?_
    split
    · have hremove : Confined (d.OnWay dir) (floor <+: ·) d
          (Installing.disk (Disk.removeDir (dir.join id)) d).2 := by
        refine disk_confined
          ((Disk.removeDir_confined _ d).mono (fun _ hloc => ?_) fun _ h => .inl h)
        exact hfloor.trans (place_join_id d dir hid ▸ hloc)
      refine .bind hremove fun _ d' _ hwork => ?_
      rw [← Disk.onWay_congr hwork]
      rw [← Disk.place_congr hwork] at hfloor hwritten
      exact rebuild_confined hid d' hfloor hwritten
    · exact rebuild_confined hid d hfloor hwritten

end Install

/-- Installing an add-on changes nothing but what is in its own directory, and what was missing of
the way to the directory of add-ons, provided that the paths that are written do not lead out. -/
theorem install_confined (archive dir : Path) (d : Disk)
    (h : ∀ p ∈ writtenPaths d archive, p.isEnclosed = true) :
    Confined (d.OnWay dir)
      (fun loc => ∃ id, idOfArchive? archive = some id ∧ d.place dir ++ [id] <+: loc) d
      (install archive dir d).2 := by
  cases hid : idOfArchive? archive with
  | none =>
    rw [install_of_no_id d dir hid]
    exact .refl
  | some id =>
    have hstays : ∀ p ∈ writtenPaths d archive,
    StaysBelow (d.place dir ++ [id]) (d.place dir ++ [id]) p := by
      intro p hp
      have hencl := h p hp
      simp only [Path.isEnclosed, Bool.and_eq_true] at hencl
      obtain ⟨⟨habs, -⟩, hdepth⟩ := hencl
      rw [Path.depth?_parts] at hdepth
      refine ⟨by simpa [Path.isAbsolute] using habs, fun loc hloc => ?_⟩
      exact Path.prefix_of_passes hdepth List.prefix_rfl (Nat.le_refl _) hloc
    exact (install_confined_of hid List.prefix_rfl hstays).mono (fun loc hloc => ⟨id, rfl, hloc⟩)
      fun _ h => .inl h

/-- A store with an add-on `other` and an archive that has entries of these texts. -/
def packedStore (entries : List (String × String)) : Disk :=
  let other : Tree := .dir [("mod.toml", .file (.text "[metadata]"))]
  let archive := Content.ofEntries (entries.map fun e => (e.1, .text e.2))
  ⟨.dir [("mods", .dir [("other", other)]), ("packed.zip", .file archive)], []⟩

theorem install_confined_folder :
    let d := packedStore [("inner/mod.toml", ""), ("inner/npcs/../bob.toml", "id = 1")]
    writtenPaths d ⟨"packed.zip"⟩ = [⟨"mod.toml"⟩, ⟨"npcs/../bob.toml"⟩] ∧
      Confined (d.OnWay ⟨"mods"⟩)
        (fun loc => ∃ id, idOfArchive? ⟨"packed.zip"⟩ = some id ∧
          d.place ⟨"mods"⟩ ++ [id] <+: loc) d
        (install ⟨"packed.zip"⟩ ⟨"mods"⟩ d).2 :=
  ⟨by decide +kernel, install_confined _ _ _ (by decide +kernel)⟩

def escapingStore : Disk :=
  packedStore [("inner/mod.toml", ""), ("inner/../other/mod.toml", "changed")]

def textAt (d : Disk) (loc : List String) : Option String :=
  match d.seen? loc with
  | some (some (.text s)) => some s
  | _ => none

theorem textAt_congr {d d' : Disk} {loc : List String} (h : d'.seen? loc = d.seen? loc) :
    textAt d' loc = textAt d loc := by
  rw [textAt, textAt, h]

/-- An entry that leads out of the top folder alone is written into the directory of another
add-on. -/
theorem not_install_confined_up :
    ¬ Confined (escapingStore.OnWay ⟨"mods"⟩)
      (fun loc => ∃ id, idOfArchive? ⟨"packed.zip"⟩ = some id ∧
        escapingStore.place ⟨"mods"⟩ ++ [id] <+: loc)
      escapingStore (install ⟨"packed.zip"⟩ ⟨"mods"⟩ escapingStore).2 := by
  intro h
  have hid : idOfArchive? ⟨"packed.zip"⟩ = some "packed" := by decide +kernel
  have hplace : escapingStore.place ⟨"mods"⟩ = ["mods"] := by decide +kernel
  have hout := h.outside ["mods", "other", "mod.toml"] (by simp [hid, hplace])
  have hthere : (escapingStore.seen? ["mods", "other", "mod.toml"]).isSome := by decide +kernel
  have hchanged :
    textAt (install ⟨"packed.zip"⟩ ⟨"mods"⟩ escapingStore).2 ["mods", "other", "mod.toml"]
      ≠ textAt escapingStore ["mods", "other", "mod.toml"] := by decide +kernel
  rcases hout with hsame | ⟨-, hnone, -⟩
  · exact hchanged (textAt_congr hsame)
  · simp [hnone] at hthere

/-- Whatever the archive, no more is changed than what is in the directory of add-ons. -/
theorem install_confined_dir (archive dir : Path) (d : Disk) :
    Confined (d.OnWay dir) (d.place dir <+: ·) d (install archive dir d).2 := by
  cases hid : idOfArchive? archive with
  | none =>
    rw [install_of_no_id d dir hid]
    exact .refl
  | some id =>
    refine install_confined_of hid (List.prefix_append _ _) fun p hp => ?_
    obtain ⟨e, t, hencl, hrel⟩ := exists_of_mem_writtenPaths hp
    obtain ⟨habs, n, hn, hdepth⟩ := Archive.depth?_relative hencl hrel
    refine ⟨by simpa [Path.isAbsolute] using habs, fun loc hloc => ?_⟩
    refine Path.prefix_of_passes hdepth (List.prefix_append _ _) ?_ hloc
    simpa using hn

end Addon

end Narrative
