import Narrative.Proofs.Addon.Unpacking

/-! Archives of ordinary paths: relative ones of names alone, no two the same, and none below that
of a file. What is stored of such an archive fits together. -/

namespace Narrative

namespace Path

variable {p : Path} {base names l : List String} {n : Nat}

theorem follow_names (base names : List String) :
    follow base (names.map .name) = base ++ names := by
  induction names generalizing base with
  | nil => simp
  | cons x names ih =>
    rw [List.map_cons, follow_cons, Step.move, ih, List.append_assoc]
    rfl

theorem passes_names : Passes [] (names.map .name) l ↔ l <+: names := by
  constructor
  · rintro ⟨before, hb, rfl⟩
    obtain ⟨names', hnames', rfl⟩ := List.prefix_map_iff.mp hb
    rwa [follow_names, List.nil_append]
  · intro h
    exact ⟨l.map .name, h.map _, by rw [follow_names, List.nil_append]⟩

theorem depth?_names (n : Nat) (names : List String) :
    (depth? n (names.map .name)).isSome = true := by
  induction names generalizing n with
  | nil => rfl
  | cons x names ih => exact ih (n + 1)

/-- A relative path of names that files can have, of one at least. -/
structure IsPlain (p : Path) : Prop where
  relative : p.isAbsolute = false
  leads : p.steps ≠ []
  named : ∀ s ∈ p.steps, (s.name?.any Disk.isUsable) = true

instance : Decidable p.IsPlain :=
  decidable_of_iff (p.isAbsolute = false ∧ p.steps ≠ [] ∧
    ∀ s ∈ p.steps, (s.name?.any Disk.isUsable) = true)
    ⟨fun h => ⟨h.1, h.2.1, h.2.2⟩, fun h => ⟨h.relative, h.leads, h.named⟩⟩

namespace IsPlain

theorem exists_names (h : p.IsPlain) : ∃ names : List String, p.steps = names.map .name := by
  have hnamed := h.named
  generalize p.steps = ss at hnamed
  induction ss with
  | nil => exact ⟨[], rfl⟩
  | cons s ss ih =>
    obtain ⟨hs, hss⟩ := List.forall_mem_cons.mp hnamed
    obtain ⟨names, rfl⟩ := ih hss
    cases s with
    | name x => exact ⟨x :: names, rfl⟩
    | here => cases hs
    | up => cases hs

theorem usable (h : p.IsPlain) {x : String} (hx : .name x ∈ p.steps) : Disk.isUsable x = true :=
  h.named _ hx

theorem parts_eq (h : p.IsPlain) : p.parts = p.steps := by
  obtain ⟨names, hnames⟩ := h.exists_names
  have hfilter : (names.map Step.name).filter (· ≠ .here) = names.map Step.name := by
    rw [List.filter_eq_self]
    simp
  unfold parts
  rw [hnames]
  split
  · next ss hss => cases names <;> simp at hss
  · exact hfilter

theorem isEnclosed (h : p.IsPlain) : p.isEnclosed = true := by
  obtain ⟨names, hnames⟩ := h.exists_names
  have htext := notMem_of_isUsable fun x hx => h.usable hx
  have hdepth := depth?_names 0 names
  rw [← hnames, ← h.parts_eq] at hdepth
  simp [Path.isEnclosed, h.relative, htext, hdepth]

end IsPlain

theorem endsInSlash_ofSteps {ss : List Step} (h : ∀ s ∈ ss, IsWritten s) :
    (ofSteps ss).endsInSlash = false := by
  have hlast : (joinWith "/" (ss.map Step.text)).toList.getLast? ≠ some '/' := by
    induction ss with
    | nil => simp [joinWith]
    | cons s ss ih =>
      obtain ⟨hs, hss⟩ := List.forall_mem_cons.mp h
      cases ss with
      | nil => exact fun hlast => hs.2 (List.mem_of_getLast? hlast)
      | cons t ss =>
        have hne : (joinWith "/" ((t :: ss).map Step.text)).toList ≠ [] := by
          intro hnil
          have hsteps := textSteps_joinWith hss
          rw [hnil] at hsteps
          cases hsteps
        have hrest := ih hss
        simp only [List.map_cons, joinWith, String.toList_append] at hne hrest ⊢
        rwa [List.getLast?_append, Option.or_of_isSome (List.getLast?_isSome.mpr hne)]
  exact decide_eq_false hlast

end Path

namespace Archive

variable {es : List (String × Content)} {e e' : String × Content} {base r : List String}
  {f : String} {i : Item}

def isFolder (name : String) : Bool :=
  name.toList.getLast? = some '/' || name.toList.getLast? = some '\\'

/-- The entries of an archive by their steps, no two of them the same, and none below a file. -/
structure Ordinary (es : List (String × Content)) : Prop where
  plain : ∀ e ∈ es, (Path.mk e.1).IsPlain
  distinct : es.Pairwise fun e e' => (Path.mk e.1).steps ≠ (Path.mk e'.1).steps
  apart : ∀ e ∈ es, isFolder e.1 = false → ∀ e' ∈ es, (Path.mk e.1).steps <+: (Path.mk e'.1).steps →
    (Path.mk e.1).steps = (Path.mk e'.1).steps

theorem ordinary_iff : Ordinary es ↔ (∀ e ∈ es, (Path.mk e.1).IsPlain) ∧
    es.Pairwise (fun e e' => (Path.mk e.1).steps ≠ (Path.mk e'.1).steps) ∧
    ∀ e ∈ es, isFolder e.1 = false → ∀ e' ∈ es, (Path.mk e.1).steps <+: (Path.mk e'.1).steps →
      (Path.mk e.1).steps = (Path.mk e'.1).steps := by
  constructor
  · rintro ⟨hplain, hdistinct, hapart⟩
    exact ⟨hplain, hdistinct, hapart⟩
  · rintro ⟨hplain, hdistinct, hapart⟩
    exact ⟨hplain, hdistinct, hapart⟩

instance : Decidable (Ordinary es) :=
  decidable_of_iff _ ordinary_iff.symm

/-- The names in front of what counts as the top of an archive: none if the manifest stands there,
or that of the one directory that all is in, with the manifest. -/
inductive HasTop (es : List (String × Content)) : List String → Prop where
  | root (manifest : ∃ e ∈ es, (Path.mk e.1).steps = [.name manifestName]) : HasTop es []
  | folder {f : String} (nested : ¬ ∃ e ∈ es, (Path.mk e.1).steps = [.name manifestName])
      (all : ∀ e ∈ es, (Path.mk e.1).steps.head? = some (.name f))
      (manifest : ∃ e ∈ es, (Path.mk e.1).steps = [.name f, .name manifestName]) : HasTop es [f]

def topOf : List String → Top
  | [] => .root
  | f :: _ => .folder (.name f)

def entryOf (e : String × Content) : ArchiveEntry :=
  ⟨⟨e.1⟩, isFolder e.1, e.2, true⟩

theorem paths_map (es : List (String × Content)) :
    (es.map entryOf).map (·.path) = es.map fun e => ⟨e.1⟩ :=
  List.map_map

theorem ofNamed?_whole (e : String × Content) :
    ArchiveEntry.ofNamed? (e.1, .whole e.2) =
      if (Path.mk e.1).isEnclosed then some (entryOf e) else none :=
  rfl

theorem isReadable_whole (t : Top) (es : List (String × Content)) :
    ∀ e ∈ es.map fun e => (e.1, Packed.whole e.2), IsReadable t e := by
  refine List.forall_mem_map.mpr fun e _ => ⟨rfl, fun entry hentry _ _ => ?_⟩
  rw [Option.mem_def, ofNamed?_whole] at hentry
  split at hentry <;> cases hentry
  rfl

theorem listed_of_isEnclosed (h : ∀ e ∈ es, (Path.mk e.1).isEnclosed = true) :
    ArchiveEntry.listed (es.map fun e => (e.1, .whole e.2)) = es.map entryOf := by
  induction es with
  | nil => rfl
  | cons e es ih =>
    obtain ⟨he, hes⟩ := List.forall_mem_cons.mp h
    have hentry := (ofNamed?_whole e).trans (if_pos he)
    exact (List.filterMap_cons_some hentry).trans (congrArg (entryOf e :: ·) (ih hes))

theorem Ordinary.listed (h : Ordinary es) :
    ArchiveEntry.listed (es.map fun e => (e.1, .whole e.2)) = es.map entryOf :=
  listed_of_isEnclosed fun e he => (h.plain e he).isEnclosed

theorem Ordinary.eq_of_steps (h : Ordinary es) (he : e ∈ es) (he' : e' ∈ es)
    (hsteps : (Path.mk e.1).steps = (Path.mk e'.1).steps) : e = e' := by
  have hne : es.Pairwise fun e e' => (Path.mk e.1).steps = (Path.mk e'.1).steps → e = e' :=
    h.distinct.imp fun hne heq => absurd heq hne
  have hne' : es.Pairwise (flip fun e e' => (Path.mk e.1).steps = (Path.mk e'.1).steps → e = e') :=
    h.distinct.imp fun hne heq => absurd heq.symm hne
  exact List.Pairwise.forall_of_forall_of_flip (fun _ _ _ => rfl) hne hne' he he' hsteps

theorem eraseDups_eq_singleton {α : Type} [BEq α] [LawfulBEq α] {x : α} {l : List α} :
    l.eraseDups = [x] ↔ l ≠ [] ∧ ∀ y ∈ l, y = x := by
  constructor
  · intro h
    refine ⟨fun hnil => ?_, fun y hy => ?_⟩
    · rw [hnil] at h
      cases h
    · rw [← List.mem_eraseDups, h] at hy
      exact List.mem_singleton.mp hy
  · rintro ⟨hne, hall⟩
    cases l with
    | nil => exact absurd rfl hne
    | cons y l =>
      obtain ⟨rfl, hl⟩ := List.forall_mem_cons.mp hall
      have hnone : l.filter (fun z => !z == y) = [] :=
        List.filter_eq_nil_iff.mpr fun z hz => by simp [hl z hz]
      rw [List.eraseDups_cons, hnone, List.eraseDups_nil]

theorem Ordinary.any_parts_iff (h : Ordinary es) (ss : List Step) :
    (es.map fun e => Path.mk e.1).any (fun p => p.parts = ss) = true ↔
      ∃ e ∈ es, (Path.mk e.1).steps = ss := by
  rw [List.any_map, List.any_eq_true]
  exact exists_congr fun e => and_congr_right fun he => by simp [(h.plain e he).parts_eq]

/-- All entries begin with the same step. -/
theorem Ordinary.heads_eq_singleton (h : Ordinary es) (f : Step) :
    ((es.map fun e => Path.mk e.1).filterMap fun p => p.parts.head?).eraseDups = [f] ↔
      es ≠ [] ∧ ∀ e ∈ es, (Path.mk e.1).steps.head? = some f := by
  rw [eraseDups_eq_singleton]
  constructor
  · rintro ⟨hne, hall⟩
    refine ⟨fun hnil => hne (by rw [hnil]; rfl), fun e he => ?_⟩
    obtain ⟨s, ss, hs⟩ := List.exists_cons_of_ne_nil (h.plain e he).leads
    have hhead : (Path.mk e.1).parts.head? = some s := by
      rw [(h.plain e he).parts_eq, hs, List.head?_cons]
    rw [hs, List.head?_cons, hall s (List.mem_filterMap.mpr ⟨_, List.mem_map_of_mem he, hhead⟩)]
  · rintro ⟨hne, hall⟩
    obtain ⟨e, he⟩ := List.exists_mem_of_ne_nil es hne
    have hhead : (Path.mk e.1).parts.head? = some f := by rw [(h.plain e he).parts_eq, hall e he]
    refine ⟨List.ne_nil_of_mem (List.mem_filterMap.mpr ⟨_, List.mem_map_of_mem he, hhead⟩),
      fun y hy => ?_⟩
    obtain ⟨p, hp, hy⟩ := List.mem_filterMap.mp hy
    obtain ⟨e', he', rfl⟩ := List.mem_map.mp hp
    rw [(h.plain e' he').parts_eq, hall e' he'] at hy
    exact (Option.some.inj hy).symm

theorem Ordinary.top?_iff (h : Ordinary es) (t : Top) :
    top? (es.map fun e => ⟨e.1⟩) = some t ↔ ∃ base, HasTop es base ∧ t = topOf base := by
  unfold top?
  dsimp only
  by_cases hroot : ∃ e ∈ es, (Path.mk e.1).steps = [.name manifestName]
  · rw [if_pos ((h.any_parts_iff _).mpr hroot)]
    constructor
    · intro ht
      exact ⟨[], .root hroot, (Option.some.inj ht).symm⟩
    · rintro ⟨base, hbase, rfl⟩
      cases hbase with
      | root => rfl
      | folder hnested => exact absurd hroot hnested
  · rw [if_neg fun hr => hroot ((h.any_parts_iff _).mp hr)]
    constructor
    · intro ht
      split at ht
      · next f hf =>
        split at ht
        · next hmanifest =>
          obtain ⟨e, he, hsteps⟩ := (h.any_parts_iff _).mp hmanifest
          have hname := (h.plain e he).named f (by simp [hsteps])
          cases f with
          | name f =>
            exact ⟨[f], .folder hroot ((h.heads_eq_singleton _).mp hf).2 ⟨e, he, hsteps⟩,
              (Option.some.inj ht).symm⟩
          | here => cases hname
          | up => cases hname
        · cases ht
      · cases ht
    · rintro ⟨base, hbase, rfl⟩
      cases hbase with
      | root hmanifest => exact absurd hmanifest hroot
      | folder hnested hall hmanifest =>
        have hne : es ≠ [] := fun hnil => by simp [hnil] at hmanifest
        rw [(h.heads_eq_singleton _).mpr ⟨hne, hall⟩]
        dsimp only
        rw [if_pos ((h.any_parts_iff _).mpr hmanifest)]
        rfl

/-- Whether an item is what an entry stores at these names below a top. -/
structure Item.Of (i : Item) (base : List String) (e : String × Content)
    (r : List String) : Prop where
  entry : (Path.mk e.1).steps = (base ++ r).map .name
  below : r ≠ []
  steps : i.path.steps = r.map .name
  relative : i.path.isAbsolute = false
  content : i.content? = if isFolder e.1 then none else some e.2
  open_end : isFolder e.1 = false → i.path.endsInSlash = false

theorem map_name_inj {names names' : List String} (h : names.map Step.name = names'.map Step.name) :
    names = names' :=
  (List.map_inj_right fun _ _ => Step.name.inj).mp h

theorem HasTop.exists_names (h : HasTop es base) (hord : Ordinary es) (he : e ∈ es) :
    ∃ r, (Path.mk e.1).steps = (base ++ r).map .name := by
  obtain ⟨names, hnames⟩ := (hord.plain e he).exists_names
  cases h with
  | root => exact ⟨names, hnames⟩
  | folder hnested hall hmanifest =>
    have hhead := hall e he
    rw [hnames] at hhead
    cases names with
    | nil => cases hhead
    | cons x names =>
      obtain rfl : x = _ := Step.name.inj (Option.some.inj hhead)
      exact ⟨names, hnames⟩

theorem HasTop.relative? (h : HasTop es base) (hord : Ordinary es) (he : e ∈ es)
    (hr : (Path.mk e.1).steps = (base ++ r).map .name) :
    (r = [] → (topOf base).relative? ⟨e.1⟩ = none) ∧
      (r ≠ [] → ∃ q, (topOf base).relative? ⟨e.1⟩ = some q ∧
        Item.Of ⟨q, if isFolder e.1 then none else some e.2⟩ base e r) := by
  have hplain := hord.plain e he
  cases h with
  | root =>
    refine ⟨fun hnil => ?_, fun hne => ⟨⟨e.1⟩, rfl, hr, hne, hr, hplain.relative, rfl,
      fun hfile => ?_⟩⟩
    · rw [hnil] at hr
      exact absurd hr hplain.leads
    · simp only [isFolder, Bool.or_eq_false_iff] at hfile
      exact hfile.1
  | folder hnested hall hmanifest =>
    next f =>
    have hparts : (Path.mk e.1).parts = .name f :: r.map .name := hplain.parts_eq.trans hr
    unfold topOf Top.relative?
    rw [hparts]
    cases r with
    | nil => exact ⟨fun _ => rfl, fun hne => absurd rfl hne⟩
    | cons x r =>
      have hwritten : ∀ s ∈ (x :: r).map Step.name, Path.IsWritten s := by
        intro s hs
        have hmem : s ∈ (Path.mk e.1).steps := by
          rw [hr]
          exact List.mem_cons_of_mem _ hs
        exact Path.isWritten_of_mem hmem
      refine ⟨fun hnil => absurd hnil (List.cons_ne_nil x r), fun hne =>
        ⟨Path.ofSteps ((x :: r).map .name), by simp, hr, hne, ?_, ?_, rfl, ?_⟩⟩
      · exact Path.steps_ofSteps hwritten
      · exact Path.isAbsolute_ofSteps (hwritten _ List.mem_cons_self)
      · exact fun _ => Path.endsInSlash_ofSteps hwritten

theorem HasTop.exists_of_mem (h : HasTop es base) (hord : Ordinary es)
    (hi : i ∈ items (topOf base) (es.map entryOf)) : ∃ e ∈ es, ∃ r, i.Of base e r := by
  obtain ⟨entry, hentry, hi⟩ := List.mem_filterMap.mp hi
  obtain ⟨e, he, rfl⟩ := List.mem_map.mp hentry
  obtain ⟨q, hq, rfl⟩ := Option.map_eq_some_iff.mp hi
  obtain ⟨r, hr⟩ := h.exists_names hord he
  obtain ⟨hnone, hsome⟩ := h.relative? hord he hr
  by_cases hnil : r = []
  · have hq' : (topOf base).relative? ⟨e.1⟩ = some q := hq
    rw [hnone hnil] at hq'
    cases hq'
  · obtain ⟨q', hq', hof⟩ := hsome hnil
    obtain rfl : q' = q := Option.some.inj (hq'.symm.trans hq)
    exact ⟨e, he, r, hof⟩

theorem HasTop.exists_item (h : HasTop es base) (hord : Ordinary es) (he : e ∈ es)
    (hr : (Path.mk e.1).steps = (base ++ r).map .name) (hne : r ≠ []) :
    ∃ i ∈ items (topOf base) (es.map entryOf), i.Of base e r := by
  obtain ⟨q, hq, hof⟩ := (h.relative? hord he hr).2 hne
  refine ⟨_, List.mem_filterMap.mpr ⟨entryOf e, List.mem_map_of_mem he, ?_⟩, hof⟩
  rw [show (entryOf e).path = ⟨e.1⟩ from rfl, hq]
  rfl

namespace Item.Of

theorem place_eq (h : i.Of base e r) : i.place = r := by
  rw [Item.place, h.steps, Path.follow_names, List.nil_append]

theorem isSome_content? (h : i.Of base e r) : i.content?.isSome = true ↔ isFolder e.1 = false := by
  rw [h.content]
  cases isFolder e.1 <;> simp

theorem lead_eq (h : i.Of base e r) :
    i.lead = (if isFolder e.1 then r else r.dropLast).map .name := by
  rw [Item.lead, h.content]
  cases isFolder e.1 with
  | true => exact h.steps
  | false => exact (congrArg List.dropLast h.steps).trans List.map_dropLast.symm

theorem storable (h : i.Of base e r) (hplain : (Path.mk e.1).IsPlain) : i.Storable := by
  have husable : ∀ n, .name n ∈ i.path.steps → Disk.isUsable n = true := by
    intro n hn
    refine hplain.usable ?_
    rw [h.steps] at hn
    rw [h.entry, List.map_append]
    exact List.mem_append_right _ hn
  refine ⟨?_, husable, ?_, fun hfile => ⟨h.open_end (h.isSome_content?.mp hfile), ?_⟩⟩
  · have hdepth := Path.depth?_names 0 r
    rw [← h.steps, ← Path.depth?_parts] at hdepth
    simp [Path.isEnclosed, h.relative, Path.notMem_of_isUsable husable, hdepth]
  · rw [h.steps]
    simp
  · exact ⟨r.getLast h.below,
      by rw [h.steps, List.getLast?_map, List.getLast?_eq_some_getLast h.below]; rfl⟩

end Item.Of

theorem HasTop.fits (h : HasTop es base) (hord : Ordinary es) :
    Fits (items (topOf base) (es.map entryOf)) := by
  refine ⟨fun i hi => ?_, fun i hi hfile j hj hpass => ?_⟩
  · obtain ⟨e, he, r, hof⟩ := h.exists_of_mem hord hi
    exact hof.storable (hord.plain e he)
  · obtain ⟨e, he, r, hof⟩ := h.exists_of_mem hord hi
    obtain ⟨e', he', r', hof'⟩ := h.exists_of_mem hord hj
    have hfile := hof.isSome_content?.mp hfile
    rw [hof'.lead_eq, Path.passes_names, hof.place_eq] at hpass
    -- The path of the file would be in front of the other one, so that both are the same entry.
    have hpre : r <+: r' := by
      split at hpass
      · exact hpass
      · exact hpass.trans (List.dropLast_prefix r')
    have hsame : e = e' := by
      refine hord.eq_of_steps he he' (hord.apart e he hfile e' he' ?_)
      rw [hof.entry, hof'.entry]
      exact ((List.prefix_append_right_inj base).mpr hpre).map _
    subst hsame
    have hnames : r = r' := List.append_cancel_left (map_name_inj (hof.entry.symm.trans hof'.entry))
    rw [hfile, if_neg (by simp), ← hnames] at hpass
    have hlength := hpass.length_le
    have hpos := List.length_pos_iff.mpr hof.below
    rw [List.length_dropLast] at hlength
    omega

/-- The files that are there when an archive of ordinary paths has been stored are its file
entries. -/
theorem HasTop.file_iff {d : Disk} {place : List String} {c : Content} (h : HasTop es base)
    (hord : Ordinary es) (hholds : Holds place (items (topOf base) (es.map entryOf)) d) :
    d.seen? (place ++ r) = some (some c) ↔
      ∃ e ∈ es, isFolder e.1 = false ∧ (Path.mk e.1).steps = (base ++ r).map .name ∧ e.2 = c := by
  have hread : ∀ c, d.seen? (place ++ r) = some (some c) →
      ∃ e ∈ es, isFolder e.1 = false ∧ (Path.mk e.1).steps = (base ++ r).map .name ∧ e.2 = c := by
    intro c hseen
    obtain ⟨i, hi, hplace, hc⟩ := hholds.files r c hseen
    obtain ⟨e, he, r', hof⟩ := h.exists_of_mem hord hi
    have hfile : isFolder e.1 = false := hof.isSome_content?.mp (by simp [hc])
    rw [hof.content, hfile] at hc
    obtain rfl : r' = r := hof.place_eq.symm.trans hplace
    exact ⟨e, he, hfile, hof.entry, Option.some.inj hc⟩
  refine ⟨hread c, ?_⟩
  rintro ⟨e, he, hfile, hsteps, rfl⟩
  have hne : r ≠ [] := by
    rintro rfl
    cases h with
    | root => exact (hord.plain e he).leads hsteps
    | folder hnested hall hmanifest =>
      obtain ⟨e', he', hsteps'⟩ := hmanifest
      have hpre : (Path.mk e.1).steps <+: (Path.mk e'.1).steps := by
        rw [hsteps, hsteps']
        exact ⟨[.name manifestName], rfl⟩
      have hsame := hord.apart e he hfile e' he' hpre
      rw [hsteps, hsteps'] at hsame
      cases hsame
  obtain ⟨i, hi, hof⟩ := h.exists_item hord he hsteps hne
  obtain ⟨c', hc'⟩ := hholds.stored i hi (hof.isSome_content?.mpr hfile)
  rw [hof.place_eq] at hc'
  obtain ⟨e', he', -, hsteps', rfl⟩ := hread c' hc'
  rwa [hord.eq_of_steps he he' (hsteps.trans hsteps'.symm)]

theorem HasTop.of_perm {es' : List (String × Content)} (h : HasTop es base) (hperm : es.Perm es') :
    HasTop es' base := by
  have hmem : ∀ P : String × Content → Prop, (∃ e ∈ es, P e) ↔ ∃ e ∈ es', P e := fun P =>
    exists_congr fun e => and_congr_left fun _ => hperm.mem_iff
  cases h with
  | root hmanifest => exact .root ((hmem _).mp hmanifest)
  | folder hnested hall hmanifest =>
    exact .folder (fun h => hnested ((hmem _).mpr h)) (fun e he => hall e (hperm.mem_iff.mpr he))
      ((hmem _).mp hmanifest)

theorem Ordinary.of_perm {es' : List (String × Content)} (h : Ordinary es) (hperm : es.Perm es') :
    Ordinary es' where
  plain e he := h.plain e (hperm.mem_iff.mpr he)
  distinct := (hperm.pairwise_iff fun hne => hne.symm).mp h.distinct
  apart e he hfile e' he' := h.apart e (hperm.mem_iff.mpr he) hfile e' (hperm.mem_iff.mpr he')

/-- Whatever the order in which an archive of ordinary paths is stored, the same is there. -/
theorem HasTop.seen?_of_perm {es' : List (String × Content)} {d d' : Disk} {place : List String}
    (h : HasTop es base) (hord : Ordinary es) (hperm : es.Perm es')
    (hholds : Holds place (items (topOf base) (es.map entryOf)) d)
    (hholds' : Holds place (items (topOf base) (es'.map entryOf)) d') (r : List String) :
    d'.seen? (place ++ r) = d.seen? (place ++ r) := by
  have hitems : ∀ i, i ∈ items (topOf base) (es'.map entryOf) ↔
      i ∈ items (topOf base) (es.map entryOf) := fun i =>
    ((hperm.map entryOf).filterMap _).mem_iff.symm
  have hdir : d'.isDirAt (place ++ r) = true ↔ d.isDirAt (place ++ r) = true := by
    rw [hholds.dirs, hholds'.dirs]
    simp only [hitems]
  have hfile : ∀ c, d'.seen? (place ++ r) = some (some c) ↔
      d.seen? (place ++ r) = some (some c) := by
    intro c
    rw [h.file_iff hord hholds, (h.of_perm hperm).file_iff (hord.of_perm hperm) hholds']
    exact exists_congr fun e => and_congr_left fun _ => hperm.mem_iff.symm
  exact Disk.seen?_ext hdir hfile

end Archive

end Narrative
