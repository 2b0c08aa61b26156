import Narrative.Proofs.Addon.Unpacking

/-! What an installation does once the top of the archive is known. The directory that was there is
removed, a new one is made, and the items are stored in it. -/

namespace Narrative

namespace Addon

open Archive (Item Top Fits)
open Disk (IsName)

variable {archive dir dest : Path} {d d₁ d₂ d' : Disk} {id : String} {es : List (String × Packed)}
  {t : Top} {is : List Item} {e : AddonError}

def clear (dest : Path) : Installing Unit := do
  if (← get).contains dest then Installing.disk (Disk.removeDir dest)

def replace (dest : Path) (is : List Item) : Installing Unit := do
  clear dest
  Installing.disk (Disk.makeDir dest)
  is.forM (Item.store dest)

def rebuild (dest : Path) (t : Top) (es : List (String × Packed)) : Installing Unit := do
  clear dest
  Installing.disk (Disk.makeDir dest)
  es.forM (unpack dest t)

theorem rebuild_eq (dest : Path) (h : ∀ e ∈ es, Archive.IsReadable t e) :
    rebuild dest t es = replace dest (Archive.items t (ArchiveEntry.listed es)) := by
  rw [rebuild, replace, forM_unpack_eq dest h]

theorem isReadable_of_rebuild (h : (rebuild dest t es d).1.isOk = true) :
    ∀ e ∈ es, Archive.IsReadable t e := by
  rw [rebuild, Disk.bind_run] at h
  rcases hclear : clear dest d with ⟨err | ⟨⟩, d₁⟩ <;> rw [hclear] at h
  · cases h
  · dsimp only at h
    rw [Disk.bind_run] at h
    rcases hmake : Installing.disk (Disk.makeDir dest) d₁ with ⟨err | ⟨⟩, d₂⟩ <;> rw [hmake] at h
    · cases h
    · exact isReadable_of_forM_unpack h

theorem archiveEntries_ok_iff :
    archiveEntries archive d = (.ok es, d) ↔ d.content archive = .ok (.archive es) := by
  constructor
  · intro h
    rw [archiveEntries, Disk.get_run] at h
    split at h
    · cases h
    · rcases hc : d.content archive with e | c <;> simp only [hc] at h
      · cases h
      · cases c with
        | archive es' =>
          rw [Except.ok.inj (Prod.mk.inj h).1]
        | text s => cases h
        | binary bs => cases h
  · intro hc
    obtain ⟨l, hl, hseen⟩ := Disk.content_ok_iff.mp hc
    have hthere : d.contains archive = true := by
      rw [Disk.contains, Disk.find?, hl]
      exact Disk.isSome_at?_iff.mpr (by simp [hseen])
    rw [archiveEntries, Disk.get_run, if_neg (by simp [hthere]), hc]
    rfl

theorem install_of_entries (hid : idOfArchive? archive = some id)
    (hes : archiveEntries archive d = (.ok es, d)) :
    install archive dir d = match Archive.top? ((ArchiveEntry.listed es).map (·.path)) with
      | none => (.error .noManifest, d)
      | some t => (rebuild (dir.join id) t es >>= fun _ => pure id) d := by
  unfold install
  rw [hid]
  dsimp only
  rw [pure_bind, Disk.bind_run, hes]
  dsimp only
  cases Archive.top? ((ArchiveEntry.listed es).map (·.path)) with
  | none => rfl
  | some t =>
    simp only [pure_bind, rebuild, clear, bind_assoc]
    rw [Disk.get_run, Disk.get_run]
    split
    · rfl
    · simp only [pure_bind]

theorem install_eq (hid : idOfArchive? archive = some id)
    (hes : archiveEntries archive d = (.ok es, d))
    (htop : Archive.top? ((ArchiveEntry.listed es).map (·.path)) = some t) :
    install archive dir d = ((rebuild (dir.join id) t es d).1.map fun _ => id,
      (rebuild (dir.join id) t es d).2) := by
  rw [install_of_entries hid hes, htop]
  dsimp only
  rw [Disk.bind_run]
  rcases rebuild (dir.join id) t es d with ⟨e | ⟨⟩, d'⟩ <;> rfl

/-- What an archive stores. -/
def storedItems (d : Disk) (archive : Path) : List Item :=
  match (archiveEntries archive d).1 with
  | .ok es => match Archive.top? ((ArchiveEntry.listed es).map (·.path)) with
    | some t => Archive.items t (ArchiveEntry.listed es)
    | none => []
  | .error _ => []

/-- Whether all that is stored of an archive can be read. -/
def Readable (d : Disk) (archive : Path) : Prop :=
  ∀ es t, d.content archive = .ok (.archive es) →
    Archive.top? ((ArchiveEntry.listed es).map (·.path)) = some t →
      ∀ e ∈ es, Archive.IsReadable t e

theorem readable_iff (hes : archiveEntries archive d = (.ok es, d))
    (htop : Archive.top? ((ArchiveEntry.listed es).map (·.path)) = some t) :
    Readable d archive ↔ ∀ e ∈ es, Archive.IsReadable t e := by
  have hc := archiveEntries_ok_iff.mp hes
  constructor
  · exact fun h => h es t hc htop
  · intro h es' t' hc' htop'
    cases hc.symm.trans hc'
    cases htop.symm.trans htop'
    exact h

theorem storedItems_eq (hes : archiveEntries archive d = (.ok es, d))
    (htop : Archive.top? ((ArchiveEntry.listed es).map (·.path)) = some t) :
    storedItems d archive = Archive.items t (ArchiveEntry.listed es) := by
  unfold storedItems
  rw [hes]
  simp only [htop]

theorem writtenPaths_eq (d : Disk) (archive : Path) :
    writtenPaths d archive = (storedItems d archive).map (·.path) := by
  unfold writtenPaths storedItems
  cases (archiveEntries archive d).1 with
  | error e => rfl
  | ok es =>
    dsimp only
    cases Archive.top? ((ArchiveEntry.listed es).map (·.path)) with
    | none => rfl
    | some t => simp [Archive.items, List.map_filterMap, Function.comp_def]

/-- An installation fails before it changes anything, or it unpacks the entries of the archive. -/
theorem install_cases (archive dir : Path) (d : Disk) :
    (∃ e, install archive dir d = (.error e, d)) ∨
      ∃ id es t, idOfArchive? archive = some id ∧ archiveEntries archive d = (.ok es, d) ∧
        Archive.top? ((ArchiveEntry.listed es).map (·.path)) = some t ∧
        install archive dir d = ((rebuild (dir.join id) t es d).1.map fun _ => id,
          (rebuild (dir.join id) t es d).2) := by
  cases hid : idOfArchive? archive with
  | none =>
    refine .inl ⟨.badArchiveName archive, ?_⟩
    unfold install
    rw [hid]
    rfl
  | some id =>
    rcases hes : archiveEntries archive d with ⟨e | es, d'⟩
    all_goals
      obtain rfl : d' = d := by rw [← archiveEntries_disk archive d, hes]
    · refine .inl ⟨e, ?_⟩
      unfold install
      rw [hid]
      dsimp only
      rw [pure_bind, Disk.bind_run, hes]
    · cases htop : Archive.top? ((ArchiveEntry.listed es).map (·.path)) with
      | none => exact .inl ⟨.noManifest, by rw [install_of_entries hid hes, htop]⟩
      | some t => exact .inr ⟨id, es, t, rfl, rfl, htop, install_eq hid hes htop⟩

/-- The store `d'` is `d` without what is at a place and below. -/
structure Cleared (place : List String) (d d' : Disk) : Prop where
  working : d'.working = d.working
  gone : ∀ l, place <+: l → d'.seen? l = none
  kept : ∀ l, ¬ place <+: l → d'.seen? l = d.seen? l

theorem Cleared.of_none {place : List String} (h : d.seen? place = none) : Cleared place d d := by
  refine ⟨rfl, fun l ⟨r, hr⟩ => ?_, fun _ _ => rfl⟩
  by_cases hne : r = []
  · rw [← hr, hne, List.append_nil, h]
  · exact hr ▸ Disk.seen?_below_file (Disk.isDirAt_eq_false_iff.mpr (by simp [h])) hne

theorem clear_cases (dest : Path) (d : Disk) :
    (∃ e, clear dest d = (.error e, d)) ∨ d.contains dest = false ∧ clear dest d = (.ok (), d) ∨
      ∃ d', clear dest d = (.ok (), d') ∧ d.contains dest = true ∧ Cleared (d.place dest) d d' := by
  rw [clear, Disk.get_run]
  cases hthere : d.contains dest with
  | false => exact .inr (.inl ⟨rfl, rfl⟩)
  | true =>
    rw [if_pos rfl, adapt_run]
    rcases Disk.removeDir_cases dest d with ⟨e, he⟩ | ⟨d', hd', hwork, hgone, hkept⟩
    · exact .inl ⟨.io e, by rw [he]; rfl⟩
    · exact .inr (.inr ⟨d', by rw [hd']; rfl, rfl, hwork, hgone, hkept⟩)

theorem Cleared.regular {place : List String} (h : Cleared place d d') (hreg : d.Regular) :
    d'.Regular := by
  refine hreg.of_new fun l hl => .inl ?_
  rwa [← h.kept l fun hpre => hl (h.gone l hpre)]

/-- The store `d'` is `d` with items in the place of what was in a directory. -/
structure Replaced (dest : Path) (is : List Item) (d d' : Disk) : Prop extends Archive.Holds
    (d.place dest) is d' where
  working : d'.working = d.working
  way : ∀ l, d.OnWay dest l → ¬ d.place dest <+: l → d'.isDirAt l = true ∧
    (d.isDirAt l = true ∨ d.seen? l = none)
  kept : ∀ l, ¬ d.OnWay dest l → ¬ d.place dest <+: l → d'.seen? l = d.seen? l

theorem Replaced.file_iff {l : List String} {c : Content} (h : Replaced dest is d d')
    (hl : ¬ d.place dest <+: l) : d'.seen? l = some (some c) ↔ d.seen? l = some (some c) := by
  by_cases hway : d.OnWay dest l
  · obtain ⟨hdir', hdir⟩ := h.way l hway hl
    rw [Disk.isDirAt_iff_seen] at hdir hdir'
    rcases hdir with hdir | hdir <;> simp [hdir, hdir']
  · rw [h.kept l hway hl]

theorem Replaced.seen?_eq {d₀ d₀' : Disk} {is₀ : List Item} {l : List String}
    (h : Replaced dest is d d') (h₀ : Replaced dest is₀ d₀ d₀') (hwork : d₀.working = d.working)
    (hl : ¬ d.place dest <+: l) (hseen : d₀.seen? l = d.seen? l) : d₀'.seen? l = d'.seen? l := by
  have hl₀ : ¬ d₀.place dest <+: l := by rwa [Disk.place_congr hwork]
  by_cases hway : d.OnWay dest l
  · have hway₀ : d₀.OnWay dest l := by rwa [Disk.onWay_congr hwork]
    rw [Disk.isDirAt_iff_seen.mp (h.way l hway hl).1,
      Disk.isDirAt_iff_seen.mp (h₀.way l hway₀ hl₀).1]
  · have hway₀ : ¬ d₀.OnWay dest l := by rwa [Disk.onWay_congr hwork]
    rw [h.kept l hway hl, h₀.kept l hway₀ hl₀, hseen]

/-- Items that fit are stored wherever the directory for them can be made anew. -/
theorem rebuild_ok (hid : Path.IsWritten (.name id)) (hreg : d₁.Regular)
    (hway : ∀ l, d.OnWay dir l → ¬ d.Inside (dir.join id) l)
    (hclear : Cleared (d.place (dir.join id)) d d₁)
    (hmake : Disk.makeDir (dir.join id) d₁ = (.ok (), d₂)) (hfits : Fits is) :
    ∃ d', is.forM (Item.store (dir.join id)) d₂ = (.ok (), d') ∧
      Replaced (dir.join id) is d d' := by
  have hplace := Disk.place_join_name d dir hid
  have hon : d₁.OnWay (dir.join id) = d.OnWay (dir.join id) := Disk.onWay_congr hclear.working _
  have hmade := Disk.makeDir_confined (dir.join id) d₁
  have hreg₂ := Disk.keepsRegular_makeDir (dir.join id) d₁ hreg
  rw [hmake] at hmade hreg₂
  have hsteps : (dir.join id).steps = dir.steps ++ [.name id] := Disk.steps_join_name hid
  have hleads : ((dir.join id).steps.isEmpty && !(dir.join id).isAbsolute) = false := by
    simp [hsteps]
  obtain ⟨-, -, hopen⟩ := Disk.makeDir_inv hleads hmake
  have hwork : d₂.working = d.working := hmade.working.trans hclear.working
  have hplace₂ : d₂.place (dir.join id) = d.place (dir.join id) := Disk.place_congr hwork _
  have hon₂ : d₂.OnWay (dir.join id) = d.OnWay (dir.join id) := Disk.onWay_congr hwork _
  -- The way is not in the directory, so that nothing is in it when it has been made.
  have houtside : ∀ l, d.OnWay (dir.join id) l → ¬ d.Inside (dir.join id) l := by
    intro l hl hin
    rcases Disk.onWay_join_name hid hl with hl | rfl
    · exact hway l hl hin
    · exact hin.2 hplace.symm
  have hready : d₂.Ready (dir.join id) := by
    refine ⟨⟨hleads, fun n hn => ?_, ?_⟩, hopen, ?_⟩
    · exact Disk.usable_of_passes (fun l hl => hreg₂.usable_of_dir (hopen l hl)) hn
    · rw [hsteps, List.getLast?_concat]
      simp
    · rw [hon₂]
      intro l hl hin
      rw [Disk.Inside, hplace₂] at hin
      exact houtside l hl hin
  have hnothing : ∀ l, d₂.Inside (dir.join id) l → d₂.seen? l = none := by
    intro l hin
    rw [Disk.Inside, hplace₂] at hin
    have hnot : ¬ d₁.OnWay (dir.join id) l := by
      rw [hon]
      exact fun hl => houtside l hl hin
    refine (hmade.outside l fun h => h).elim (fun he => he.trans (hclear.gone l hin.1)) fun h => ?_
    exact absurd h.1 hnot
  obtain ⟨d', hd', hstored⟩ := Archive.forM_store_ok hready hnothing hfits
  rw [hplace₂] at hstored
  refine ⟨d', hd', hstored.toHolds, hstored.working.trans hwork,
    fun l hl hnot => ?_, fun l hl hnot => ?_⟩
  · have hdir : d₂.isDirAt l = true := hopen l (hon₂ ▸ hl)
    refine ⟨(Disk.isDirAt_congr (hstored.kept l hnot)).trans hdir, ?_⟩
    rw [← Disk.isDirAt_congr (hclear.kept l hnot), ← hclear.kept l hnot]
    rcases hmade.outside l fun h => h with he | ⟨-, hnone, -⟩
    · exact .inl ((Disk.isDirAt_congr he).symm.trans hdir)
    · exact .inr hnone
  · rw [hstored.kept l hnot, ← hclear.kept l hnot]
    refine (hmade.outside l fun h => h).elim (fun he => he) fun h => ?_
    rw [hon] at h
    exact absurd h.1 hl

/-- A way to the directory of add-ons that does not need the directory of one of them. -/
structure Approach (d : Disk) (dir : Path) (id : String) : Prop where
  start : d.start dir ≠ d.place dir ++ [id]
  way : ∀ l, d.OnWay dir l → ¬ d.Inside (dir.join id) l

/-- A way without a step up needs nothing that is in the directory to which it leads. -/
theorem Approach.of_steps (hsteps : ∀ s ∈ dir.steps, s ≠ .up) (hid : Path.IsWritten (.name id)) :
    Approach d dir id := by
  have hlength : ∀ l, d.OnWay dir l → l.length < (d.place dir ++ [id]).length := by
    intro l hl
    have hle : l.length ≤ (d.place dir).length := (hl.prefix_follow hsteps).length_le
    rw [List.length_append, List.length_singleton]
    omega
  refine ⟨fun heq => ?_, fun l hl hin => ?_⟩
  · exact absurd (hlength _ Path.passes_start) (by rw [heq]; omega)
  · have hle := hin.1.length_le
    rw [Disk.place_join_name d dir hid] at hle
    exact absurd (hlength l hl) (by omega)

theorem Cleared.makeDir_ok (h : Cleared (d.place (dir.join id)) d d₁) (happ : Approach d dir id)
    (hid : IsName id) (hreg : d.Regular) (hway : ∀ l, d.OnWay dir l → d.isDirAt l = true) :
    ∃ d₂, Disk.makeDir (dir.join id) d₁ = (.ok (), d₂) := by
  have hplace := Disk.place_join_name d dir hid.written
  have hkept : ∀ l, d.OnWay dir l → l ≠ d.place dir ++ [id] → d₁.isDirAt l = true := by
    intro l hl hne
    have hnot : ¬ d.place (dir.join id) <+: l := fun hpre => happ.way l hl ⟨hpre, hplace ▸ hne⟩
    exact (Disk.isDirAt_congr (h.kept l hnot)).trans (hway l hl)
  refine Disk.makeDir_join_ok hid ?_ (fun x hx => ?_) fun l hl => ?_
  · rw [Disk.start_congr h.working]
    exact hkept _ Path.passes_start happ.start
  · exact Disk.usable_of_passes (fun l hl => hreg.usable_of_dir (hway l hl)) hx
  · rw [Disk.onWay_congr h.working] at hl
    by_cases heq : l = d.place dir ++ [id]
    · exact .inr (h.gone l (heq ▸ hplace ▸ List.prefix_rfl))
    · exact .inl (hkept l ((Disk.onWay_join_name hid.written hl).resolve_right heq) heq)

/-- What cannot be found by a way on which nothing is missing but what leads to the directory is not
there. -/
theorem seen?_of_not_contains (hid : Path.IsWritten (.name id))
    (hway : ∀ l, d.OnWay dir l → l <+: d.place dir ∨ d.isDirAt l = true)
    (hnot : d.contains (dir.join id) = false) : d.seen? (d.place dir ++ [id]) = none := by
  refine Classical.not_not.mp fun hsome => ?_
  have hdir := Disk.isDirAt_of_below hsome (List.cons_ne_nil id [])
  have hopen : ∀ l, d.OnWay dir l → d.isDirAt l = true := by
    intro l hl
    rcases hway l hl with hpre | hthere
    · by_cases heq : l = d.place dir
      · exact heq ▸ hdir
      · exact Disk.isDirAt_of_prefix hpre (Disk.seen?_ne_none hdir) heq
    · exact hthere
  rw [(Disk.contains_join_iff hid).mpr ⟨hopen, hsome⟩] at hnot
  cases hnot

/-- Storing items that fit in the place of a directory can only fail before anything is changed in
the directory of add-ons. -/
theorem replace_error_kept (hreg : d.Regular) (hid : IsName id) (hfits : Fits is)
    (happ : Approach d dir id) (hway : ∀ l, d.OnWay dir l → l <+: d.place dir ∨ d.isDirAt l = true)
    (h : replace (dir.join id) is d = (.error e, d')) :
      ∀ l, d.place dir <+: l → d'.seen? l = d.seen? l := by
  have hplace := Disk.place_join_name d dir hid.written
  have hstored : ∀ d₁ d₂, Cleared (d.place (dir.join id)) d d₁ →
    Disk.makeDir (dir.join id) d₁ = (.ok (), d₂) →
      ∃ d', is.forM (Item.store (dir.join id)) d₂ = (.ok (), d') := fun d₁ d₂ hclear hmake =>
    (rebuild_ok hid.written (hclear.regular hreg) happ.way hclear hmake hfits).imp fun _ h => h.1
  rw [replace, Disk.bind_run] at h
  rcases clear_cases (dir.join id) d with ⟨e', hclear⟩ | ⟨hnot, hclear⟩ |
    ⟨d₁, hclear, hthere, hcleared⟩
  · rw [hclear] at h
    cases h
    exact fun _ _ => rfl
  · rw [hclear] at h
    dsimp only at h
    rw [Disk.bind_run, adapt_run] at h
    rcases hmake : Disk.makeDir (dir.join id) d with ⟨e' | ⟨⟩, d₂⟩ <;> rw [hmake] at h
    · cases h
      exact Disk.makeDir_error_kept hreg hid hway hmake
    · have hnone := seen?_of_not_contains hid.written hway hnot
      obtain ⟨d₃, hd₃⟩ := hstored d d₂ (.of_none (hplace ▸ hnone)) hmake
      dsimp only [Except.mapError] at h
      rw [hd₃] at h
      cases h
  · have hopen := ((Disk.contains_join_iff hid.written).mp hthere).1
    obtain ⟨d₂, hmake⟩ := hcleared.makeDir_ok happ hid hreg hopen
    obtain ⟨d₃, hd₃⟩ := hstored d₁ d₂ hcleared hmake
    rw [hclear] at h
    dsimp only at h
    rw [Disk.bind_run, adapt_run, hmake] at h
    dsimp only [Except.mapError] at h
    rw [hd₃] at h
    cases h

/-- A directory of add-ons that is there or can be made, in which there is nothing in the way of an
add-on but a directory. -/
structure Receives (d : Disk) (dir : Path) (id : String) : Prop extends Approach d dir id where
  regular : d.Regular
  makeable : d.isDir dir = true ∨ ∃ d', Disk.makeDir dir d = (.ok (), d') ∧ d'.isDir dir = true
  vacant : d.seen? (d.place dir ++ [id]) = none ∨ d.isDir (dir.join id) = true

theorem Receives.clear_none (h : Receives d dir id) (hid : IsName id)
    (hnone : d.seen? (d.place dir ++ [id]) = none) :
    ∃ d₂, clear (dir.join id) d = (.ok (), d) ∧ Cleared (d.place (dir.join id)) d d ∧
      Disk.makeDir (dir.join id) d = (.ok (), d₂) := by
  have hclean := Cleared.of_none hnone
  rw [← Disk.place_join_name d dir hid.written] at hclean
  have hnot : ¬ d.contains (dir.join id) = true := fun hthere =>
    ((Disk.contains_join_iff hid.written).mp hthere).2 hnone
  have hclear : clear (dir.join id) d = (.ok (), d) := by
    rw [clear, Disk.get_run, if_neg hnot]
    rfl
  rcases h.makeable with hdir | ⟨d', hd', hdir⟩
  · obtain ⟨d₂, hd₂⟩ :=
      hclean.makeDir_ok h.toApproach hid h.regular (Disk.isDir_iff_isOpen.mp hdir).2
    exact ⟨d₂, hclear, hclean, hd₂⟩
  · obtain ⟨d₂, hd₂⟩ := Disk.makeDir_join_of_makeDir hid hd' hdir hnone
    exact ⟨d₂, hclear, hclean, hd₂⟩

theorem clear_of_isDir (hid : IsName id) (hdir : d.isDir (dir.join id) = true) :
    ∃ d₁, clear (dir.join id) d = (.ok (), d₁) ∧ Cleared (d.place (dir.join id)) d d₁ := by
  have hplace := Disk.place_join_name d dir hid.written
  have hhead := Path.head?_of_isWritten hid.written
  have hopen := (Disk.isDir_iff_isOpen.mp hdir).2
  have hthere := hopen _ (d.onWay_place _)
  have hway : ∀ l, d.OnWay dir l → d.isDirAt l = true := fun l hl =>
    hopen l ((Disk.onWay_join d dir hhead).mpr (.inl hl))
  have hcontains : d.contains (dir.join id) = true :=
    (Disk.contains_join_iff hid.written).mpr ⟨hway, hplace ▸ Disk.seen?_ne_none hthere⟩
  obtain ⟨d', hremove⟩ := Disk.removeDir_ok (Disk.endsInSlash_join_name hid.written)
    (Disk.steps_join_name hid.written) (Disk.start_join d dir hhead ▸ hway) hid.usable hthere
  have hrun : clear (dir.join id) d = (.ok (), d') := by
    rw [clear, Disk.get_run, if_pos hcontains, adapt_run, hremove]
    rfl
  rcases clear_cases (dir.join id) d with ⟨e, he⟩ | ⟨hnot, -⟩ | ⟨d₁, hd₁, -, hclean⟩
  · rw [hrun] at he
    cases he
  · rw [hcontains] at hnot
    cases hnot
  · exact ⟨d₁, hd₁, hclean⟩

/-- When entries are unpacked in the place of a directory, no file is left of it but where one is
written. -/
theorem file_of_rebuild {l : List String} {c : Content} (hid : IsName id)
    (hdir : d.isDir (dir.join id) = true) (hl : d.place (dir.join id) <+: l)
    (h : (rebuild (dir.join id) t es d).2.seen? l = some (some c)) :
    ∃ e ∈ ArchiveEntry.listed es, ∃ p, t.relative? e.path = some p ∧
      l = d.place ((dir.join id).join p.text) := by
  obtain ⟨d₁, hclear, hcleared⟩ := clear_of_isDir hid hdir
  rw [rebuild, Disk.bind_run, hclear] at h
  refine Classical.not_not.mp fun hnot => ?_
  have hmake : Disk.Confined (fun _ => True)
      (fun l => ∃ e ∈ ArchiveEntry.listed es, ∃ p, t.relative? e.path = some p ∧
        l = d.place ((dir.join id).join p.text)) d₁ (Disk.makeDir (dir.join id) d₁).2 :=
    (Disk.makeDir_confined _ d₁).mono (fun _ h => h.elim) fun _ _ => .inl trivial
  have hunpack := Disk.Confined.bind (disk_confined hmake) fun _ d₂ _ hwork =>
    forM_unpack_confined (t := t) (dir.join id) d₂ fun e he p hp =>
      ⟨⟨e, he, p, hp, Disk.place_congr (hwork.trans hcleared.working) _⟩, fun _ _ => .inl trivial⟩
  have hthere := (hunpack.file_iff hnot).mp h
  rw [hcleared.gone l hl] at hthere
  cases hthere

theorem Receives.clear_dir (h : Receives d dir id) (hid : IsName id)
    (hdir : d.isDir (dir.join id) = true) :
    ∃ d₁ d₂, clear (dir.join id) d = (.ok (), d₁) ∧ Cleared (d.place (dir.join id)) d d₁ ∧
      Disk.makeDir (dir.join id) d₁ = (.ok (), d₂) := by
  have hhead := Path.head?_of_isWritten hid.written
  have hway : ∀ l, d.OnWay dir l → d.isDirAt l = true := fun l hl =>
    (Disk.isDir_iff_isOpen.mp hdir).2 l ((Disk.onWay_join d dir hhead).mpr (.inl hl))
  obtain ⟨d₁, hd₁, hclean⟩ := clear_of_isDir hid hdir
  obtain ⟨d₂, hd₂⟩ := hclean.makeDir_ok h.toApproach hid h.regular hway
  exact ⟨d₁, d₂, hd₁, hclean, hd₂⟩

theorem replace_ok (h : Receives d dir id) (hid : IsName id) (hfits : Fits is) :
    ∃ d', replace (dir.join id) is d = (.ok (), d') ∧ Replaced (dir.join id) is d d' := by
  have hcleared : ∃ d₁ d₂, clear (dir.join id) d = (.ok (), d₁) ∧
    Cleared (d.place (dir.join id)) d d₁ ∧
      Disk.makeDir (dir.join id) d₁ = (.ok (), d₂) := by
    rcases h.vacant with hnone | hdir
    · exact ⟨d, h.clear_none hid hnone⟩
    · exact h.clear_dir hid hdir
  obtain ⟨d₁, d₂, hclear, hclean, hmake⟩ := hcleared
  obtain ⟨d', hd', hreplaced⟩ :=
    rebuild_ok hid.written (hclean.regular h.regular) h.way hclean hmake hfits
  refine ⟨d', ?_, hreplaced⟩
  rw [replace, Disk.bind_run, hclear]
  dsimp only
  rw [Disk.bind_run, adapt_run, hmake]
  exact hd'

theorem replace_keeps (h : replace dest is d = (.ok (), d')) :
    ∀ i ∈ is, i.content?.isSome = true →
      ∃ c, d'.seen? (d.place (dest.join i.path.text)) = some (some c) := by
  rw [replace, Disk.bind_run] at h
  have hstored : ∀ d₁ : Disk, d₁.working = d.working →
      (Installing.disk (Disk.makeDir dest) >>= fun _ => is.forM (Item.store dest)) d₁ =
        (.ok (), d') →
      ∀ i ∈ is, i.content?.isSome = true →
          ∃ c, d'.seen? (d.place (dest.join i.path.text)) = some (some c) := by
    intro d₁ hwork hrun i hi hsome
    rw [Disk.bind_run, adapt_run] at hrun
    have hmade := Disk.makeDir_confined dest d₁
    rcases hmake : Disk.makeDir dest d₁ with ⟨e | ⟨⟩, d₂⟩ <;> rw [hmake] at hrun hmade
    · cases hrun
    · rw [← Disk.place_congr (hmade.working.trans hwork)]
      exact (Item.forM_store_keeps hrun).2.2 i hi hsome
  rcases clear_cases dest d with ⟨e, hclear⟩ | ⟨-, hclear⟩ | ⟨d₁, hclear, -, hcleared⟩ <;>
    rw [hclear] at h
  · cases h
  · exact hstored d rfl h
  · exact hstored d₁ hcleared.working h

theorem isUsable_of_front {m n : String} (h : m.toList <+: n.toList) (hn : Disk.isUsable n = true) :
    Disk.isUsable m = true := by
  obtain ⟨rest, hrest⟩ := h
  have hname : n = m ++ String.ofList rest := by
    rw [← String.toList_inj, String.toList_append, String.toList_ofList, hrest]
  rw [hname] at hn
  simp only [Disk.isUsable, String.utf8ByteSize_append, String.toList_append, Bool.and_eq_true,
    decide_eq_true_eq, Bool.not_eq_true', List.contains_eq_mem, decide_eq_false_iff_not,
    List.mem_append, not_or] at hn ⊢
  exact ⟨by omega, hn.2.1⟩

/-- An archive that can be opened has a name of which the id is a name too. -/
theorem isName_id (hreg : d.Regular) (hid : idOfArchive? archive = some id)
    (hes : archiveEntries archive d = (.ok es, d)) : IsName id := by
  obtain ⟨-, hsteps⟩ := textSteps_id hid
  obtain ⟨hstem, -⟩ := Option.filter_eq_some_iff.mp hid
  obtain ⟨name, hname, rfl⟩ := Option.map_eq_some_iff.mp hstem
  have husable : Disk.isUsable name = true := by
    have hc := archiveEntries_ok_iff.mp hes
    obtain ⟨loc, hplace, -⟩ := Disk.place_withExtension d hname "x" (by decide) (by decide)
    have hseen := Disk.seen?_of_content hc
    exact (hreg _ (by rw [hseen]; simp) name (by simp [hplace])).usable
  have hslash : '/' ∉ (Path.splitName name).1.toList := by
    have hmem : Step.name (Path.splitName name).1 ∈
      Path.textSteps (Path.splitName name).1.toList := by simp [hsteps]
    exact Path.notMem_of_name_mem_textSteps hmem
  exact ⟨isUsable_of_front (Path.isPrefix_splitName name) husable, hsteps, hslash⟩

end Addon

end Narrative
