import Narrative.Proofs.Storage.Way

/-! When a file can be written and a directory made below one that is there, and what the paths to
them say of the directories on the way. -/

namespace Narrative

theorem exists_mem_splitChar {mark c : Char} {cs : List Char} (hc : c ∈ cs) (hmark : c ≠ mark) :
    ∃ part ∈ splitChar mark cs, c ∈ part := by
  induction cs with
  | nil => cases hc
  | cons x cs ih =>
    obtain ⟨first, rest, hs⟩ := List.exists_cons_of_ne_nil (splitChar_ne_nil mark cs)
    have hrest : c ∈ cs → ∃ part ∈ first :: rest, c ∈ part := fun h => hs ▸ ih h
    by_cases hx : x = mark
    · have hcs : c ∈ cs := (List.mem_cons.mp hc).resolve_left fun h => hmark (h.trans hx)
      obtain ⟨part, hpart, hmem⟩ := hrest hcs
      exact ⟨part, by simp [splitChar, hx, hs, List.mem_cons.mp hpart], hmem⟩
    · rw [splitChar, if_neg hx, hs]
      rcases List.mem_cons.mp hc with rfl | hcs
      · exact ⟨c :: first, List.mem_cons_self, List.mem_cons_self⟩
      · obtain ⟨part, hpart, hmem⟩ := hrest hcs
        rcases List.mem_cons.mp hpart with rfl | hpart
        · exact ⟨x :: part, List.mem_cons_self, List.mem_cons_of_mem x hmem⟩
        · exact ⟨part, List.mem_cons_of_mem _ hpart, hmem⟩

namespace Path

variable {p q : Path} {ss : List Step} {n : String} {cs : List Char}

theorem notMem_of_isUsable (h : ∀ n, .name n ∈ textSteps cs → Disk.isUsable n = true) :
    '\x00' ∉ cs := by
  intro hnul
  have hslash : '\x00' ≠ '/' := by decide
  obtain ⟨part, hpart, hmem⟩ := exists_mem_splitChar hnul hslash
  have hne : part ≠ [] := List.ne_nil_of_mem hmem
  have hstep : Step.ofSegment part = .name (String.ofList part) := by
    unfold Step.ofSegment
    rw [if_neg, if_neg]
    · rintro rfl
      simp at hmem
    · rintro rfl
      simp at hmem
  have hname : Step.name (String.ofList part) ∈ textSteps cs :=
    List.mem_map.mpr ⟨part, List.mem_filter.mpr ⟨hpart, by simpa using hne⟩, hstep⟩
  have husable := h _ hname
  rw [Disk.isUsable, Bool.and_eq_true, Bool.not_eq_true'] at husable
  simp [hmem] at husable

theorem eq_of_append_stays {k : Nat} (h : ss = ts ++ List.replicate k .here)
    (hlast : ss.getLast? ≠ some .here) : ss = ts := by
  cases k with
  | zero => simpa using h
  | succ k =>
    exact absurd (by rw [h, List.replicate_succ', ← List.append_assoc, List.getLast?_concat]) hlast

theorem steps_parent_eq (hsteps : p.steps = ss ++ [.name n]) (hlast : ss.getLast? ≠ some .here) :
    ∃ q, p.parent? = some q ∧ q.steps = ss := by
  have hparts : p.parts.getLast? = some (.name n) := getLast?_parts (k := 0) hsteps (by simp)
  have hname : p.fileName? = some n := by rw [fileName?, hparts]; rfl
  obtain ⟨-, k, hlead⟩ := steps_of_fileName? hname
  have hss : ss = textSteps p.lead := by
    have hsame : p.steps = textSteps p.lead ++ [.name n] := by
      refine eq_of_append_stays (k := k) (by simpa using hlead) ?_
      rw [hsteps, List.getLast?_concat]
      simp
    exact List.append_cancel_right (hsteps.symm.trans hsame)
  obtain ⟨j, hj⟩ := exists_textSteps_dropTail p.lead.reverse
  have hfront : dropTail p.lead.reverse = p.front := by rw [lead, List.reverse_reverse, front]
  rw [List.reverse_reverse, ← hss, hfront] at hj
  have hsame : ss = textSteps p.front.reverse := eq_of_append_stays hj hlast
  have hne : ¬ p.parts.isEmpty = true := by
    intro hnil
    rw [List.isEmpty_iff.mp hnil] at hparts
    cases hparts
  unfold parent?
  rw [if_neg hne]
  dsimp only
  rw [← front]
  split
  · next hroot =>
    have hnil : p.front = [] := by simpa using (Bool.and_eq_true_iff.mp hroot).1
    exact ⟨⟨"/"⟩, rfl, by rw [hsame, hnil]; decide⟩
  · exact ⟨_, rfl, by rw [hsame, steps_eq, String.toList_ofList]⟩

theorem notMem_join {c : Char} {r : String} (hp : c ∉ p.text.toList) (hr : c ∉ r.toList)
    (hslash : c ≠ '/') : c ∉ (p.join r).text.toList := by
  unfold join
  split
  · exact hr
  · split
    · simp [hp, hr]
    · simp [hp, hr, hslash]

theorem getLast?_append_ne_here {ts : List Step} (h : ss.getLast? ≠ some .here) (hts : .here ∉ ts) :
    (ss ++ ts).getLast? ≠ some .here := by
  rw [List.getLast?_append]
  cases hlast : ts.getLast? with
  | none => simpa using h
  | some s =>
    rintro hs
    rw [Option.some_or] at hs
    exact hts (List.mem_of_getLast? (hlast.trans hs))

/-- A path to a directory that can be made if nothing is in its way. -/
structure IsMakeable (p : Path) : Prop where
  leads : (p.steps.isEmpty && !p.isAbsolute) = false
  usable : ∀ n, .name n ∈ p.steps → Disk.isUsable n = true
  last : p.steps.getLast? ≠ some .here

theorem IsMakeable.append (h : p.IsMakeable) (hsteps : q.steps = p.steps ++ ss)
    (habs : q.isAbsolute = p.isAbsolute) (husable : ∀ n, .name n ∈ ss → Disk.isUsable n = true)
    (hstays : .here ∉ ss) : q.IsMakeable where
  leads := by
    have := h.leads
    rw [hsteps, habs]
    cases hp : p.steps <;> simp_all
  usable n hn := by
    rw [hsteps] at hn
    exact (List.mem_append.mp hn).elim (h.usable n) (husable n)
  last := hsteps ▸ getLast?_append_ne_here h.last hstays

end Path

namespace Disk

variable {d d' : Disk} {p q : Path} {loc l r : List String} {ss : List Step} {n : String}
  {c : Content}

theorem Confined.seen_of_isDirAt {made inside : List String → Prop} (h : Confined made inside d d')
    (hl : ¬ inside l) (hmade : ¬ made l ∨ d.isDirAt l = true) : d'.seen? l = d.seen? l := by
  rcases h.outside l hl with he | ⟨hm, hnone, -⟩
  · exact he
  · rcases hmade with hm' | hdir
    · exact absurd hm hm'
    · exact absurd hnone (seen?_ne_none hdir)

/-- Below a directory to which a path leads, a directory can be made if no file is in the way;
nothing but its way is new. -/
theorem makeDir_below (hq : q.IsMakeable) (hsteps : q.steps = p.steps ++ ss)
    (habs : q.isAbsolute = p.isAbsolute) (hopen : ∀ l, d.OnWay p l → d.isDirAt l = true)
    (hway : ∀ l, Path.Passes (d.place p) ss l → d.isDirAt l = true ∨ d.seen? l = none) :
    ∃ d', makeDir q d = (.ok (), d') ∧ d'.working = d.working ∧
      (∀ l, d.OnWay q l → d'.isDirAt l = true) ∧
      ∀ l, ¬ Path.Passes (d.place p) ss l → d'.seen? l = d.seen? l := by
  have hstart : d.start q = d.start p := by rw [start, start, habs]
  have hon : ∀ l, d.OnWay q l ↔ d.OnWay p l ∨ Path.Passes (d.place p) ss l := by
    intro l
    unfold OnWay place
    rw [hstart, hsteps]
    exact Path.passes_append
  obtain ⟨d', hd'⟩ := makeDir_ok hq.leads (Path.notMem_of_isUsable hq.usable)
    (hstart ▸ hopen _ Path.passes_start) hq.usable
    (fun l hl => ((hon l).mp hl).elim (fun h => .inl (hopen l h)) (hway l)) fun h =>
      absurd h hq.last
  have hmade := makeDir_confined q d
  rw [hd'] at hmade
  have hdirs := (makeDir_inv hq.leads hd').2.2
  rw [onWay_congr hmade.working] at hdirs
  refine ⟨d', hd', hmade.working, hdirs, fun l hl => ?_⟩
  refine hmade.seen_of_isDirAt (fun h => h) ?_
  by_cases hp : d.OnWay p l
  · exact .inr (hopen l hp)
  · exact .inl fun h => ((hon l).mp h).elim hp hl

theorem slot_ok (hend : p.endsInSlash = false) (hsteps : p.steps = ss ++ [.name n])
    (hway : ∀ l, Path.Passes (d.start p) ss l → d.isDirAt l = true) (husable : isUsable n = true) :
    d.slot p = .ok (Path.follow (d.start p) ss, n) := by
  have hdir := hway _ Path.passes_follow
  unfold slot
  rw [hsteps, List.getLast?_concat, List.dropLast_concat]
  dsimp only
  rw [if_neg (by simp [hend]), walk_ok hway]
  simp [bind, Except.bind, hdir, husable]

theorem write_ok (hend : p.endsInSlash = false) (hsteps : p.steps = ss ++ [.name n])
    (hway : ∀ l, Path.Passes (d.start p) ss l → d.isDirAt l = true) (husable : isUsable n = true)
    (hnot : d.isDirAt (d.place p) = false) (c : Content) :
    ∃ d', write p c d = (.ok (), d') ∧ Wrote (d.place p) c d d' := by
  have hslot := slot_ok hend hsteps hway husable
  have hplace := (slot_eq_ok hslot).1
  have hrun : write p c d = (.ok (), d.put (d.place p) (.file c)) := by
    rw [write, look_bind_run, hslot]
    dsimp only
    rw [hplace, get_run, if_neg (by simp [hnot])]
    rfl
  rcases write_cases p c d with ⟨e, he⟩ | ⟨d', hd', hwrote, -⟩
  · rw [hrun] at he
    cases he
  · exact ⟨d', hd', hwrote⟩

theorem removeDir_ok (hend : p.endsInSlash = false) (hsteps : p.steps = ss ++ [.name n])
    (hway : ∀ l, Path.Passes (d.start p) ss l → d.isDirAt l = true) (husable : isUsable n = true)
    (hdir : d.isDirAt (d.place p) = true) : ∃ d', removeDir p d = (.ok (), d') := by
  have hslot := slot_ok hend hsteps hway husable
  have hplace := (slot_eq_ok hslot).1
  obtain ⟨t, ht, htdir⟩ := Option.map_eq_some_iff.mp (isDirAt_iff.mp hdir)
  rw [removeDir, look_bind_run, hslot]
  dsimp only
  rw [hplace, get_run, ht]
  cases t with
  | file c => cases htdir
  | dir es => exact ⟨_, rfl⟩

theorem makeDirs_concat (h : makeDirs loc ss d = (.ok (), d')) (n : String) :
    makeDirs loc (ss ++ [.name n]) d = makeDirs (Path.follow loc ss) [.name n] d' := by
  induction ss generalizing loc d with
  | nil =>
    rcases makeDirs_nil_cases loc d with ⟨e, hr⟩ | ⟨-, hr⟩ <;> rw [h] at hr <;> cases hr
    rfl
  | cons s ss ih =>
    have hnot : ¬ (!(ss ++ [Step.name n]).isEmpty && (ss ++ [Step.name n]).all (· = .here)) =
      true := by simp
    rw [List.cons_append, Path.follow_cons]
    unfold makeDirs at h
    rw [get_run] at h
    rw [makeDirs, get_run]
    split at h
    · cases h
    · next hdir =>
      rw [if_neg hdir]
      cases s with
      | here => exact ih h
      | up => exact ih h
      | name x =>
        dsimp only at h ⊢
        split at h
        · next hnone =>
          split at h
          · cases h
          · split at h
            · cases h
            · next husable =>
              rw [if_pos hnone, if_neg hnot, if_neg husable]
              exact ih h
        · next hthere =>
          rw [if_neg hthere]
          exact ih h

theorem isDirAt_of_walk_concat {s : Step} (h : d.walk loc (ss ++ [s]) = .ok l)
    (hr : Path.Passes loc ss r) : d.isDirAt r = true := by
  induction ss generalizing loc with
  | nil =>
    rw [Path.passes_nil.mp hr]
    rw [List.nil_append] at h
    unfold walk at h
    split at h
    · next hdir => exact hdir
    · cases h
  | cons t ss ih =>
    rw [List.cons_append] at h
    unfold walk at h
    split at h
    · next hdir =>
      rcases Path.passes_cons.mp hr with rfl | hr
      · exact hdir
      · cases t with
        | here => exact ih h hr
        | up => exact ih h hr
        | name n =>
          dsimp only at h
          split at h
          · exact ih h hr
          · cases h
    · cases h

theorem steps_join_name (hn : Path.IsWritten (.name n)) :
    (p.join n).steps = p.steps ++ [.name n] := by
  have hsteps : Path.textSteps n.toList = [.name n] := hn.1
  rw [Path.steps_join (Path.head?_of_isWritten hn), hsteps]

theorem endsInSlash_join_name (hn : Path.IsWritten (.name n)) : (p.join n).endsInSlash = false :=
  (Path.endsInSlash_join (Path.ne_nil_of_isWritten hn)).trans (Path.endsInSlash_of_isWritten hn)

theorem onWay_join_name (hn : Path.IsWritten (.name n)) (hl : d.OnWay (p.join n) l) :
    d.OnWay p l ∨ l = d.place p ++ [n] := by
  rw [OnWay, steps_join_name hn, start_join d p (Path.head?_of_isWritten hn)] at hl
  rcases Path.passes_append.mp hl with hl | hl
  · exact .inl hl
  · rcases Path.passes_cons.mp hl with rfl | hl
    · exact .inl (d.onWay_place p)
    · exact .inr (Path.passes_nil.mp hl)

theorem contains_join_iff (hn : Path.IsWritten (.name n)) :
    d.contains (p.join n) = true ↔ (∀ l, d.OnWay p l → d.isDirAt l = true) ∧
      d.seen? (d.place p ++ [n]) ≠ none := by
  have hsteps : (p.join n).steps = p.steps ++ [.name n] := steps_join_name hn
  have hlocate : d.locate (p.join n) = d.walk (d.start p) (p.steps ++ [.name n]) := by
    rw [locate, if_neg (by simp [hsteps]), if_neg (by simp [endsInSlash_join_name hn]),
      start_join d p (Path.head?_of_isWritten hn), hsteps]
  have hfound : d.contains (p.join n) = true ↔
      ∃ l, d.walk (d.start p) (p.steps ++ [.name n]) = .ok l ∧ d.seen? l ≠ none := by
    rw [contains, find?, hlocate]
    cases d.walk (d.start p) (p.steps ++ [.name n]) with
    | error e => simp
    | ok l => simpa using isSome_at?_iff
  rw [hfound]
  constructor
  · rintro ⟨l, hl, hseen⟩
    have hplace : l = d.place p ++ [n] := by
      rw [walk_eq hl, Path.follow_append]
      rfl
    exact ⟨fun r hr => isDirAt_of_walk_concat hl hr, hplace ▸ hseen⟩
  · rintro ⟨hway, hseen⟩
    exact ⟨_, walk_concat (walk_ok hway) (hway _ (d.onWay_place p)) hseen, hseen⟩

theorem makeDir_join_ok (hn : IsName n) (hstart : d.isDirAt (d.start p) = true)
    (husable : ∀ x, .name x ∈ p.steps → isUsable x = true)
    (hway : ∀ l, d.OnWay (p.join n) l → d.isDirAt l = true ∨ d.seen? l = none) :
    ∃ d', makeDir (p.join n) d = (.ok (), d') := by
  have hsteps : (p.join n).steps = p.steps ++ [.name n] := steps_join_name hn.written
  have husable' : ∀ x, .name x ∈ (p.join n).steps → isUsable x = true := by
    intro x hx
    rw [hsteps] at hx
    rcases List.mem_append.mp hx with hx | hx
    · exact husable x hx
    · cases List.mem_singleton.mp hx
      exact hn.usable
  have hlast : (p.join n).steps.getLast? ≠ some .here := by
    rw [hsteps, List.getLast?_concat]
    simp
  refine makeDir_ok (by simp [hsteps]) (Path.notMem_of_isUsable husable') ?_ husable' hway fun h =>
    absurd h hlast
  rwa [start_join d p (Path.head?_of_isWritten hn.written)]

theorem makeDir_join_of_makeDir (hn : IsName n) (hmake : makeDir p d = (.ok (), d'))
    (hdir : d'.isDir p = true)
    (hnone : d.seen? (d.place p ++ [n]) = none) : ∃ d₁, makeDir (p.join n) d = (.ok (), d₁) := by
  have hmade := makeDir_confined p d
  rw [hmake] at hmade
  obtain ⟨hsome, hopen⟩ := isDir_iff_isOpen.mp hdir
  have htext := (makeDir_inv hsome hmake).1
  have hnul : '\x00' ∉ n.toList := by
    have husable := hn.usable
    rw [isUsable, Bool.and_eq_true, Bool.not_eq_true'] at husable
    simpa using husable.2
  have hplace : d'.isDirAt (d.place p) = true := by
    rw [← place_congr hmade.working]
    exact hopen _ (d'.onWay_place p)
  rw [makeDir_run hsome htext] at hmake
  rw [makeDir_run (by simp [steps_join_name hn.written]) (Path.notMem_join htext hnul (by decide)),
    start_join d p (Path.head?_of_isWritten hn.written), steps_join_name hn.written,
    makeDirs_concat hmake]
  refine makeDirs_ok hplace (fun x hx => ?_) (fun l hl => ?_) fun h => by cases h
  · cases List.mem_singleton.mp hx
    exact hn.usable
  · rcases Path.passes_cons.mp hl with rfl | hl
    · exact .inl hplace
    · rw [Path.passes_nil.mp hl]
      rcases hmade.outside (d.place p ++ [n]) fun h => h with he | ⟨-, -, hnew⟩
      · exact .inr (he.trans hnone)
      · exact .inl (isDirAt_iff_seen.mpr hnew)

theorem usable_of_passes (hway : ∀ l, Path.Passes loc ss l → ∀ x ∈ l, isUsable x = true)
    (hn : .name n ∈ ss) : isUsable n = true := by
  obtain ⟨before, after, rfl⟩ := List.append_of_mem hn
  have hpass : Path.Passes loc (before ++ .name n :: after) (Path.follow loc before ++ [n]) :=
    Path.passes_append.mpr (.inr Path.passes_start.cons)
  exact hway _ hpass n (by simp)

theorem Regular.usable_of_dir (hreg : d.Regular) (hdir : d.isDirAt l = true) :
    ∀ x ∈ l, isUsable x = true :=
  fun x hx => (hreg.isName_of_dir hdir x hx).usable

/-- Where an empty directory is, directories can be made along a way on which nothing is missing but
what is below it. -/
theorem makeDirs_ok_below {place : List String} (hreg : d.Regular) (hplace : d.isDirAt place = true)
    (hbelow : ∀ r, r ≠ [] → d.seen? (place ++ r) = none) (hstart : d.isDirAt loc = true)
    (hlast : ss.getLast? ≠ some .here)
    (hway : ∀ l, Path.Passes loc ss l →
      l <+: place ∨ d.isDirAt l = true ∨ ∃ r, l = place ++ r ∧ ∀ x ∈ r, isUsable x = true) :
    ∃ d', makeDirs loc ss d = (.ok (), d') := by
  have hopen : ∀ l, Path.Passes loc ss l → (d.isDirAt l = true ∨ d.seen? l = none) ∧
      ∀ x ∈ l, isUsable x = true := by
    intro l hl
    rcases hway l hl with hpre | hthere | ⟨r, rfl, hr⟩
    · have hdir : d.isDirAt l = true := by
        by_cases heq : l = place
        · rwa [heq]
        · exact isDirAt_of_prefix hpre (seen?_ne_none hplace) heq
      exact ⟨.inl hdir, hreg.usable_of_dir hdir⟩
    · exact ⟨.inl hthere, hreg.usable_of_dir hthere⟩
    · refine ⟨?_, fun x hx => (List.mem_append.mp hx).elim (hreg.usable_of_dir hplace x) (hr x)⟩
      by_cases hne : r = []
      · rw [hne, List.append_nil]
        exact .inl hplace
      · exact .inr (hbelow r hne)
  exact makeDirs_ok hstart (fun x hx => usable_of_passes (fun l hl => (hopen l hl).2) hx)
    (fun l hl => (hopen l hl).1)
    fun h => absurd h hlast

/-- Where directories cannot be made along a way on which nothing is missing but what leads to a
place or is below it, none has been made at the place. -/
theorem makeDirs_error {e : DiskFault} {place : List String} (hreg : d.Regular)
    (hss : ∀ n, .name n ∈ ss → Path.IsWritten (.name n)) (hlast : ss.getLast? ≠ some .here)
    (hway : ∀ l, Path.Passes loc ss l →
      l <+: place ∨ d.isDirAt l = true ∨ ∃ r, l = place ++ r ∧ ∀ x ∈ r, isUsable x = true)
    (hplace : d.isDirAt place = false) (h : makeDirs loc ss d = (.error e, d')) :
      d'.isDirAt place = false := by
  induction ss generalizing loc d with
  | nil =>
    rcases makeDirs_nil_cases loc d with ⟨e', hr⟩ | ⟨-, hr⟩ <;> rw [h] at hr <;> cases hr
    exact hplace
  | cons s ss ih =>
    have hss' : ∀ n, .name n ∈ ss → Path.IsWritten (.name n) :=
      fun n hn => hss n (List.mem_cons_of_mem s hn)
    have hlast' : ss.getLast? ≠ some .here :=
      fun h => hlast (by rw [List.getLast?_cons, h, Option.getD_some])
    rcases makeDirs_cases s ss loc d with ⟨e', hr⟩ | ⟨-, hr⟩ |
      ⟨n, rfl, hdir, hnone, husable, hr⟩ <;> rw [h] at hr
    · cases hr
      exact hplace
    · exact ih hreg hss' hlast' (fun l hl => hway l hl.cons) hplace hr.symm
    · have hput : Confined (· = loc ++ [n]) (fun _ => False) d (d.put (loc ++ [n]) (.dir [])) :=
        put_dir_confined hdir hnone
      have hreg' := hreg.put_dir hdir hnone ⟨husable, hss n List.mem_cons_self⟩
      have hway' : ∀ l, Path.Passes (loc ++ [n]) ss l → l <+: place ∨
          (d.put (loc ++ [n]) (.dir [])).isDirAt l = true ∨
              ∃ r, l = place ++ r ∧ ∀ x ∈ r, isUsable x = true := by
        intro l hl
        have hpass : Path.Passes loc (.name n :: ss) l := Path.Passes.cons hl
        exact (hway l hpass).imp_right (Or.imp_left (hput.isDirAt fun h => h))
      by_cases heq : loc ++ [n] = place
      · -- The directory at the place is there, and then nothing is left that can fail.
        have hmade : (d.put (loc ++ [n]) (.dir [])).isDirAt (loc ++ [n]) = true := by
          rw [isDirAt_iff, put, Tree.at?_put]
          rfl
        have hbelow : ∀ r, r ≠ [] → (d.put (loc ++ [n]) (.dir [])).seen? (place ++ r) = none := by
          intro r hne
          rcases hput.outside (place ++ r) fun h => h with he | ⟨he, -⟩
          · exact he.trans (seen?_below_file hplace hne)
          · exact absurd (List.append_right_eq_self.mp (he.trans heq)) hne
        obtain ⟨d'', hok⟩ := makeDirs_ok_below hreg' (heq ▸ hmade) hbelow hmade hlast' hway'
        rw [hok] at hr
        cases hr
      · refine ih hreg' hss' hlast' hway' ?_ hr.symm
        rw [isDirAt_eq_false_iff] at hplace ⊢
        rcases hput.outside place fun h => h with he | ⟨he, -⟩
        · rwa [he]
        · exact absurd he.symm heq

/-- Where a directory in another one cannot be made, nothing in the other one is made either,
provided that nothing is missing of the way to it but what leads to it. -/
theorem makeDir_error_kept {e : DiskFault} (hreg : d.Regular) (hn : IsName n)
    (hway : ∀ l, d.OnWay p l → l <+: d.place p ∨ d.isDirAt l = true)
    (h : makeDir (p.join n) d = (.error e, d')) :
    ∀ l, d.place p <+: l → d'.seen? l = d.seen? l := by
  have hsteps : (p.join n).steps = p.steps ++ [.name n] := steps_join_name hn.written
  have hmade := makeDir_confined (p.join n) d
  rw [h] at hmade
  intro l hl
  rcases hmade.outside l fun h => h with hsame | ⟨hpass, hnone, hdir⟩
  · exact hsame
  -- What is new is the directory or the one in it, and then the rest of the way could have been
  -- made too.
  have hnew : l = d.place p ∨ l = d.place p ++ [n] := by
    rcases onWay_join_name hn.written hpass with hpass | rfl
    · rcases hway l hpass with hpre | hthere
      · exact .inl (hpre.eq_of_length (Nat.le_antisymm hpre.length_le hl.length_le))
      · exact absurd hnone (seen?_ne_none hthere)
    · exact .inr rfl
  have hnot : d'.isDirAt l = false := by
    by_cases hnul : '\x00' ∈ (p.join n).text.toList
    · unfold makeDir at h
      rw [if_neg (by simp [hsteps]), if_pos (by simpa using hnul)] at h
      cases h
      rw [hnone] at hdir
      cases hdir
    · rw [makeDir_run (by simp [hsteps]) hnul] at h
      have hlast : (p.join n).steps.getLast? ≠ some .here := by
        rw [hsteps, List.getLast?_concat]
        simp
      have hnothing : d.isDirAt l = false := isDirAt_eq_false_iff.mpr (by simp [hnone])
      refine makeDirs_error hreg (fun x hx => Path.isWritten_of_mem hx) hlast
        (fun m hm => ?_) hnothing h
      rcases onWay_join_name hn.written hm with hm | rfl
      · rcases hway m hm with hpre | hthere
        · exact .inl (hpre.trans hl)
        · exact .inr (.inl hthere)
      · rcases hnew with rfl | rfl
        · exact .inr (.inr ⟨[n], rfl, fun x hx => List.mem_singleton.mp hx ▸ hn.usable⟩)
        · exact .inl List.prefix_rfl
  rw [isDirAt_iff_seen.mpr hdir] at hnot
  cases hnot

end Disk

end Narrative
