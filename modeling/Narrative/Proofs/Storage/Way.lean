import Narrative.Proofs.Storage.Regular

/-! Ways through directories. A path whose way goes through directories alone can be followed, and a
directory can be made if no more is missing of the way to it than what the way leaves again. -/

namespace Narrative

namespace Path

variable {p : Path} {q : String}

theorem head?_of_isWritten (h : IsWritten (.name q)) : q.toList.head? ≠ some '/' :=
  fun hhead => h.2 (List.mem_of_head? hhead)

theorem endsInSlash_join (hne : q.toList ≠ []) :
    (p.join q).endsInSlash = (Path.mk q).endsInSlash := by
  have hlast : ∀ cs : List Char, (cs ++ q.toList).getLast? = q.toList.getLast? := by
    intro cs
    rw [List.getLast?_append, Option.or_of_isSome (List.getLast?_isSome.mpr hne)]
  unfold join
  split
  · rfl
  · split
    · simp only [endsInSlash, String.toList_append, hlast]
    · simp only [endsInSlash, String.toList_append, hlast]

theorem endsInSlash_of_isWritten (h : IsWritten (.name q)) : (Path.mk q).endsInSlash = false := by
  have hlast : q.toList.getLast? ≠ some '/' := fun hlast => h.2 (List.mem_of_getLast? hlast)
  simpa [endsInSlash] using hlast

theorem ne_nil_of_isWritten (h : IsWritten (.name q)) : q.toList ≠ [] := by
  have hmem : Step.name q ∈ textSteps q.toList := by
    rw [show textSteps q.toList = [.name q] from h.1]
    exact List.mem_singleton_self _
  exact ne_nil_of_mem_textSteps hmem

theorem follow_of_here {ss : List Step} (h : ss.all (· = .here) = true) (loc : List String) :
    follow loc ss = loc := by
  have hss : ss = List.replicate ss.length .here :=
    List.eq_replicate_iff.mpr ⟨rfl, fun s hs => by simpa using List.all_eq_true.mp h s hs⟩
  rw [hss, follow_stays]

/-- A way without a step up passes nothing but what is above its end. -/
theorem Passes.prefix_follow {ss : List Step} {loc l : List String} (hss : ∀ s ∈ ss, s ≠ .up)
    (h : Passes loc ss l) : l <+: follow loc ss := by
  have hfollow : ∀ ss : List Step, (∀ s ∈ ss, s ≠ .up) → ∀ loc, loc <+: follow loc ss := by
    intro ss
    induction ss with
    | nil => exact fun _ _ => List.prefix_rfl
    | cons s ss ih =>
      intro hss loc
      obtain ⟨hs, hss⟩ := List.forall_mem_cons.mp hss
      refine .trans ?_ (ih hss (s.move loc))
      cases s with
      | here => exact List.prefix_rfl
      | up => exact absurd rfl hs
      | name n => exact List.prefix_append _ _
  obtain ⟨before, ⟨after, rfl⟩, rfl⟩ := h
  rw [follow_append]
  exact hfollow after (fun s hs => hss s (List.mem_append_right _ hs)) _

end Path

namespace Disk

variable {d d' : Disk} {p : Path} {loc l : List String} {ss : List Step} {n q : String}
  {c : Content}

theorem walk_ok (h : ∀ l, Path.Passes loc ss l → d.isDirAt l = true) :
    d.walk loc ss = .ok (Path.follow loc ss) := by
  induction ss generalizing loc with
  | nil => rfl
  | cons s ss ih =>
    have hloc := h loc Path.passes_start
    have hrest : d.walk (s.move loc) ss = .ok (Path.follow (s.move loc) ss) :=
      ih fun l hl => h l hl.cons
    unfold walk
    rw [if_pos hloc, Path.follow_cons]
    cases s with
    | here => exact hrest
    | up => exact hrest
    | name n =>
      have hpass : Path.Passes loc (.name n :: ss) (loc ++ [n]) :=
        Path.Passes.cons Path.passes_start
      dsimp only
      rw [if_pos (isSome_at?_iff.mpr (seen?_ne_none (h _ hpass)))]
      exact hrest

/-- Whether a path leads through directories alone, and to one. -/
def IsOpen (d : Disk) (p : Path) : Prop :=
  (p.steps.isEmpty && !p.isAbsolute) = false ∧ ∀ l, d.OnWay p l → d.isDirAt l = true

theorem IsOpen.locate (h : d.IsOpen p) : d.locate p = .ok (d.place p) := by
  have hwalk : d.walk (d.start p) (routeSteps p) = .ok (Path.follow (d.start p) (routeSteps p)) :=
    walk_ok fun l hl => h.2 l (passes_routeSteps hl)
  have hlocate : d.locate p = d.walk (d.start p) (routeSteps p) := by
    rw [Disk.locate, if_neg (by simp [h.1]), routeSteps]
  rw [hlocate, ← locate_eq (hlocate.trans hwalk), hwalk]

theorem mem_names_iff {es : List (String × Tree)} :
    n ∈ es.map (·.1) ↔ ((Tree.dir es).child? n).isSome = true := by
  simp [Tree.child?, Tree.entries, List.find?_isSome]

theorem IsOpen.names (h : d.IsOpen p) :
    ∃ names, d.names p = .ok names ∧ ∀ n, n ∈ names ↔ d.seen? (d.place p ++ [n]) ≠ none := by
  obtain ⟨es, hes⟩ : ∃ es, d.root.at? (d.place p) = some (.dir es) := by
    have hdir := isDirAt_iff.mp (h.2 _ (d.onWay_place p))
    obtain ⟨t, ht, htdir⟩ := Option.map_eq_some_iff.mp hdir
    cases t with
    | file c => cases htdir
    | dir es => exact ⟨es, ht⟩
  refine ⟨es.map (·.1), ?_, fun n => ?_⟩
  · exact bind_eq_ok.mpr ⟨d.place p, h.locate, by rw [hes]⟩
  · rw [mem_names_iff, ← isSome_at?_iff, Tree.at?_append, hes]
    simp only [Option.bind_some, Tree.at?]
    cases (Tree.dir es).child? n <;> rfl

theorem isOpen_of_locate (h : d.locate p = .ok l) (hdir : d.isDirAt l = true) : d.IsOpen p := by
  unfold locate at h
  split at h
  · cases h
  · next hsome =>
    refine ⟨by simpa using hsome, fun r hr => ?_⟩
    by_cases hend : r = l
    · exact hend ▸ hdir
    · refine isDirAt_of_walk h (hr.of_prefix ?_) hend
      split
      · exact List.prefix_append _ _
      · exact List.prefix_rfl

/-- The names in a directory are seen only by paths that lead through directories. -/
theorem isOpen_of_names {names : List String} (h : d.names p = .ok names) : d.IsOpen p := by
  obtain ⟨l, hl, h⟩ := bind_eq_ok.mp h
  refine isOpen_of_locate hl ?_
  rw [isDirAt_iff]
  split at h
  · next es ht => simp [ht, Tree.isDir]
  · cases h
  · cases h

theorem isDir_iff_isOpen : d.isDir p = true ↔ d.IsOpen p := by
  constructor
  · intro h
    unfold isDir find? at h
    cases hl : d.locate p with
    | error e =>
      rw [hl] at h
      cases h
    | ok l =>
      rw [hl] at h
      exact isOpen_of_locate hl h
  · intro h
    unfold isDir find?
    rw [h.locate]
    exact h.2 _ (d.onWay_place p)

theorem place_join_name (d : Disk) (p : Path) (hq : Path.IsWritten (.name q)) :
    d.place (p.join q) = d.place p ++ [q] := by
  have hsteps : Path.textSteps q.toList = [.name q] := hq.1
  rw [place_join d p (Path.head?_of_isWritten hq), hsteps]
  rfl

theorem IsOpen.content_join_iff (h : d.IsOpen p) (hq : Path.IsWritten (.name q)) :
    d.content (p.join q) = .ok c ↔ d.seen? (d.place p ++ [q]) = some (some c) := by
  have hhead := Path.head?_of_isWritten hq
  have hsteps : Path.textSteps q.toList = [.name q] := hq.1
  constructor
  · exact fun hc => place_join_name d p hq ▸ seen?_of_content hc
  · intro hseen
    refine content_ok_iff.mpr ⟨d.place p ++ [q], ?_, hseen⟩
    have hwalk : d.walk (d.start p) p.steps = .ok (d.place p) := walk_ok h.2
    have hend : ¬ (p.join q).endsInSlash = true := by
      simp [Path.endsInSlash_join (Path.ne_nil_of_isWritten hq), Path.endsInSlash_of_isWritten hq]
    have hsome : ¬ ((p.join q).steps.isEmpty && !(p.join q).isAbsolute) = true := by
      simp [Path.steps_join hhead, hsteps]
    rw [Disk.locate, if_neg hsome, if_neg hend, start_join d p hhead, Path.steps_join hhead, hsteps]
    exact walk_concat hwalk (h.2 _ (d.onWay_place p)) (by simp [hseen])

theorem isOpen_join (h : d.IsOpen p) (hq : Path.IsWritten (.name q))
    (hdir : d.isDirAt (d.place p ++ [q]) = true) : d.IsOpen (p.join q) := by
  have hhead := Path.head?_of_isWritten hq
  have hsteps : Path.textSteps q.toList = [.name q] := hq.1
  refine ⟨by simp [Path.steps_join hhead, hsteps], fun l hl => ?_⟩
  rcases (onWay_join d p hhead).mp hl with hl | hl
  · exact h.2 l hl
  · rw [hsteps] at hl
    rcases Path.passes_cons.mp hl with rfl | hl
    · exact h.2 _ (d.onWay_place p)
    · rw [Path.passes_nil.mp hl]
      exact hdir

theorem makeDirs_ok (hloc : d.isDirAt loc = true) (husable : ∀ n, .name n ∈ ss → isUsable n = true)
    (hway : ∀ l, Path.Passes loc ss l → d.isDirAt l = true ∨ d.seen? l = none)
    (hlast : ss.getLast? = some .here → d.isDirAt (Path.follow loc ss) = true) :
    ∃ d', makeDirs loc ss d = (.ok (), d') := by
  induction ss generalizing loc d with
  | nil =>
    unfold makeDirs
    rw [get_run, if_neg (by simp [hloc])]
    exact ⟨d, rfl⟩
  | cons s ss ih =>
    have husable' : ∀ n, .name n ∈ ss → isUsable n = true :=
      fun n hn => husable n (List.mem_cons_of_mem s hn)
    have hway' : ∀ l, Path.Passes (s.move loc) ss l → d.isDirAt l = true ∨ d.seen? l = none :=
      fun l hl => hway l hl.cons
    have hlast' : ss.getLast? = some .here → d.isDirAt (Path.follow (s.move loc) ss) = true :=
      fun h => hlast (by rw [List.getLast?_cons, h, Option.getD_some])
    unfold makeDirs
    rw [get_run, if_neg (by simp [hloc])]
    cases s with
    | here => exact ih hloc husable' hway' hlast'
    | up =>
      refine ih ?_ husable' hway' hlast'
      by_cases hnil : loc.dropLast = loc
      · rwa [hnil]
      · exact isDirAt_of_prefix (List.dropLast_prefix loc) (seen?_ne_none hloc) hnil
    | name n =>
      dsimp only
      rcases hway' (loc ++ [n]) Path.passes_start with hdir | hnone
      · have hthere := isSome_at?_iff.mpr (seen?_ne_none hdir)
        rw [if_neg (by simpa using Option.isSome_iff_ne_none.mp hthere)]
        exact ih hdir husable' hway' hlast'
      · -- The name is missing, so that more than steps that stay follows it.
        have hmore : ¬ (!ss.isEmpty && ss.all (· = .here)) = true := by
          intro h
          obtain ⟨hne, hall⟩ := Bool.and_eq_true_iff.mp h
          obtain ⟨before, s, hss⟩ := List.eq_nil_or_concat ss |>.resolve_left (by simpa using hne)
          have hs : s = .here := by simpa using List.all_eq_true.mp hall s (by simp [hss])
          have hdir := hlast' (by rw [hss, hs, List.concat_eq_append, List.getLast?_concat])
          rw [Path.follow_of_here hall] at hdir
          exact seen?_ne_none hdir hnone
        have hnone' : d.root.at? (loc ++ [n]) = none :=
          Option.not_isSome_iff_eq_none.mp fun h => isSome_at?_iff.mp h hnone
        have hput : Confined (· = loc ++ [n]) (fun _ => False) d (d.put (loc ++ [n]) (.dir [])) :=
          put_dir_confined hloc hnone'
        have hmade : (d.put (loc ++ [n]) (.dir [])).isDirAt (loc ++ [n]) = true := by
          rw [isDirAt_iff, put, Tree.at?_put]
          rfl
        rw [if_pos (by simp [hnone']), if_neg hmore,
          if_neg (by simp [husable n List.mem_cons_self])]
        refine ih hmade husable' (fun l hl => ?_) fun h => hput.isDirAt (fun h => h) (hlast' h)
        rcases hway' l hl with hdir | hl'
        · exact .inl (hput.isDirAt (fun h => h) hdir)
        · rcases hput.outside l fun h => h with he | ⟨-, -, hnew⟩
          · exact .inr (he.trans hl')
          · exact .inl (isDirAt_iff_seen.mpr hnew)

theorem makeDir_run (hsome : (p.steps.isEmpty && !p.isAbsolute) = false)
    (htext : '\x00' ∉ p.text.toList) (d : Disk) : makeDir p d = makeDirs (d.start p) p.steps d := by
  unfold makeDir
  rw [if_neg (by simp [hsome]), if_neg (by simpa using htext)]
  rfl

theorem makeDir_ok (hsome : (p.steps.isEmpty && !p.isAbsolute) = false)
    (htext : '\x00' ∉ p.text.toList) (hstart : d.isDirAt (d.start p) = true)
    (husable : ∀ n, .name n ∈ p.steps → isUsable n = true)
    (hway : ∀ l, d.OnWay p l → d.isDirAt l = true ∨ d.seen? l = none)
    (hlast : p.steps.getLast? = some .here → d.isDirAt (d.place p) = true) :
    ∃ d', makeDir p d = (.ok (), d') := by
  rw [makeDir_run hsome htext]
  exact makeDirs_ok hstart husable hway hlast

theorem isDirAt_of_makeDirs (h : makeDirs loc ss d = (.ok (), d')) :
    ∀ l, Path.Passes loc ss l → d'.isDirAt l = true := by
  induction ss generalizing loc d with
  | nil =>
    intro l hl
    rw [Path.passes_nil.mp hl]
    rcases makeDirs_nil_cases loc d with ⟨e, hr⟩ | ⟨hdir, hr⟩ <;> rw [h] at hr <;> cases hr
    exact hdir
  | cons s ss ih =>
    have hconf := makeDirs_confined (s :: ss) loc d
    rw [h] at hconf
    have hrest : d.isDirAt loc = true ∧ ∃ d₁, makeDirs (s.move loc) ss d₁ = (.ok (), d') := by
      rcases makeDirs_cases s ss loc d with ⟨e, hr⟩ | ⟨hdir, hr⟩ | ⟨n, rfl, hdir, -, -, hr⟩ <;>
        rw [h] at hr
      · cases hr
      · exact ⟨hdir, d, hr.symm⟩
      · exact ⟨hdir, _, hr.symm⟩
    obtain ⟨hdir, d₁, hrest⟩ := hrest
    intro l hl
    rcases Path.passes_cons.mp hl with rfl | hl
    · exact hconf.isDirAt (fun h => h) hdir
    · exact ih hrest l hl

theorem makeDir_inv (hsome : (p.steps.isEmpty && !p.isAbsolute) = false)
    (h : makeDir p d = (.ok (), d')) : '\x00' ∉ p.text.toList ∧ d'.IsOpen p := by
  have hconf := makeDir_confined p d
  rw [h] at hconf
  unfold makeDir at h
  rw [if_neg (by simp [hsome])] at h
  by_cases htext : p.text.toList.contains '\x00' = true
  · rw [if_pos htext] at h
    cases h
  · rw [if_neg htext] at h
    have hdirs : ∀ l, d.OnWay p l → d'.isDirAt l = true := isDirAt_of_makeDirs h
    rw [← onWay_congr hconf.working] at hdirs
    exact ⟨by simpa using htext, hsome, hdirs⟩

def Inside (d : Disk) (p : Path) (l : List String) : Prop :=
  d.place p <+: l ∧ l ≠ d.place p

/-- A path to a directory that can be made whenever it has to be: no more of its way is missing than
what is in the directory itself. -/
structure Standing (d : Disk) (p : Path) : Prop where
  leads : (p.steps.isEmpty && !p.isAbsolute) = false
  text : '\x00' ∉ p.text.toList
  usable : ∀ n, .name n ∈ p.steps → isUsable n = true
  start : ¬ d.Inside p (d.start p)
  way : ∀ l, d.OnWay p l → d.isDirAt l = true ∨ d.seen? l = none ∧ d.Inside p l

theorem Standing.makeDir (h : d.Standing p) : ∃ d', makeDir p d = (.ok (), d') ∧ d'.IsOpen p := by
  have hstart : d.isDirAt (d.start p) = true :=
    (h.way _ Path.passes_start).resolve_right fun hmiss => h.start hmiss.2
  have hplace : d.isDirAt (d.place p) = true :=
    (h.way _ (d.onWay_place p)).resolve_right fun hmiss => hmiss.2.2 rfl
  obtain ⟨d', hd'⟩ := makeDir_ok h.leads h.text hstart h.usable
    (fun l hl => (h.way l hl).imp_right fun hmiss => hmiss.1) fun _ => hplace
  exact ⟨d', hd', (makeDir_inv h.leads hd').2⟩

theorem onWay_of_name_mem (h : Step.name n ∈ p.steps) : ∃ l, d.OnWay p (l ++ [n]) := by
  obtain ⟨before, after, hsteps⟩ := List.append_of_mem h
  refine ⟨Path.follow (d.start p) before, before ++ [.name n], ⟨after, by simp [hsteps]⟩, ?_⟩
  rw [Path.follow_append]
  rfl

theorem IsOpen.standing (h : d.IsOpen p) (hreg : d.Regular) (htext : '\x00' ∉ p.text.toList)
    (hstart : ¬ d.Inside p (d.start p)) : d.Standing p where
  leads := h.1
  text := htext
  usable n hn := by
    obtain ⟨l, hl⟩ := onWay_of_name_mem (d := d) hn
    exact (hreg.isName_of_dir (h.2 _ hl) n (by simp)).usable
  start := hstart
  way l hl := .inl (h.2 l hl)

/-- A way stands as long as no directory goes that is not in the one to which it leads. -/
theorem Standing.of_kept (h : d.Standing p) (hwork : d'.working = d.working)
    (hkept : ∀ l, d.isDirAt l = true ∨ d.seen? l = none ∧ d.Inside p l →
      d'.isDirAt l = true ∨ d'.seen? l = none ∧ d.Inside p l) : d'.Standing p := by
  have hplace := place_congr hwork p
  refine ⟨h.leads, h.text, h.usable, ?_, ?_⟩
  · rw [Inside, hplace, start_congr hwork]
    exact h.start
  · rw [onWay_congr hwork]
    simp only [Inside, hplace]
    exact fun l hl => hkept l (h.way l hl)

/-- Whether the way of a path goes through directories above its place or through others that are
there. -/
def Passable (d : Disk) (p : Path) : Prop :=
  ∀ l, d.OnWay p l → l <+: d.place p ∨ d.isDirAt l = true

namespace Passable

theorem of_steps (hsteps : ∀ s ∈ p.steps, s ≠ .up) : d.Passable p :=
  fun _ hl => .inl (hl.prefix_follow hsteps)

/-- What a passable path reads in another store it reads wherever the file is the same. -/
theorem content_of (h : d.Passable p) (hwork : d'.working = d.working) (hc : d'.content p = .ok c)
    (hseen : d.seen? (d.place p) = some (some c)) : d.content p = .ok c := by
  have hfile := seen?_of_content hc
  rw [place_congr hwork] at hfile
  refine content_of_onWay hwork.symm (fun l hl hdir => ?_) hc (by rwa [place_congr hwork])
  rw [onWay_congr hwork] at hl
  rcases h l hl with hpre | hdir'
  · refine isDirAt_of_prefix hpre (by rw [hseen]; simp) fun he => ?_
    rw [isDirAt_iff_seen, he, hfile] at hdir
    cases hdir
  · exact hdir'

end Passable

/-- The path of a file that does not need what is in a directory: the file is not there, and its way
goes through directories above it or through others that are there, but through none that is in the
directory. -/
structure Apart (d : Disk) (dir file : Path) : Prop where
  place : ¬ d.place dir <+: d.place file
  way : ∀ l, d.OnWay file l → l <+: d.place file ∨ d.isDirAt l = true ∧ ¬ d.Inside dir l

namespace Apart

variable {dir file : Path}

theorem of_steps (hplace : ¬ d.place dir <+: d.place file)
    (hsteps : ∀ s ∈ file.steps, s ≠ .up) : d.Apart dir file :=
  ⟨hplace, fun _ hl => .inl (hl.prefix_follow hsteps)⟩

theorem of_kept (h : d.Apart dir file) (hwork : d'.working = d.working)
    (hkept : ∀ l, d.isDirAt l = true → ¬ d.Inside dir l → d'.isDirAt l = true) :
      d'.Apart dir file := by
  have hplace := place_congr hwork
  refine ⟨by rw [hplace, hplace]; exact h.place, ?_⟩
  rw [onWay_congr hwork]
  simp only [Inside, hplace]
  exact fun l hl => (h.way l hl).imp_right fun ⟨hdir, hout⟩ => ⟨hkept l hdir hout, hout⟩

theorem passable (h : d.Apart dir file) : d.Passable file :=
  fun l hl => (h.way l hl).imp_right And.left

theorem content_iff (h : d.Apart dir file) (h' : d'.Apart dir file) (hwork : d'.working = d.working)
    (hseen : ∀ c, d'.seen? (d.place file) = some (some c) ↔ d.seen? (d.place file) = some (some c))
    (c : Content) : d'.content file = .ok c ↔ d.content file = .ok c := by
  have hplace := place_congr hwork file
  constructor
  · exact fun hc => h.passable.content_of hwork hc ((hseen c).mp (hplace ▸ seen?_of_content hc))
  · intro hc
    refine h'.passable.content_of hwork.symm hc ?_
    rw [hplace]
    exact (hseen c).mpr (seen?_of_content hc)

theorem not_inside_draft (h : d.Apart dir file) : ¬ d.Inside dir (d.place (draft file)) := by
  rintro ⟨hpre, hne⟩
  cases hn : file.fileName? with
  | none =>
    rw [draft, Path.withExtension, hn] at hpre
    exact h.place hpre
  | some n =>
    obtain ⟨loc, hfile, hdraft⟩ := place_withExtension d hn "json.tmp" (by decide) (by decide)
    rw [draft, hdraft] at hpre hne
    have hloc : d.place dir <+: loc :=
      (List.prefix_concat_iff.mp hpre).resolve_left fun he => hne he.symm
    exact h.place (hfile ▸ hloc.trans (List.prefix_append _ _))

end Apart

/-- Where nothing else is done than that directories are made, the files are the same. -/
theorem Confined.file_iff {made inside : List String → Prop} (h : Confined made inside d d')
    (hl : ¬ inside l) : d'.seen? l = some (some c) ↔ d.seen? l = some (some c) := by
  rcases h.outside l hl with he | ⟨-, hnone, hdir⟩
  · rw [he]
  · simp [hnone, hdir]

end Disk

end Narrative
