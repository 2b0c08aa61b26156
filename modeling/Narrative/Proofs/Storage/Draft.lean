import Narrative.Proofs.Storage.Place

/-! Paths with another extension. Such a path leads to the same directory as the path itself, and
there to another name. -/

namespace Narrative

namespace Path

variable {cs before name : List Char} {p : Path} {s : Step} {ss : List Step}

theorem exists_textSteps_dropTail (cs : List Char) :
    ∃ k, textSteps cs.reverse = textSteps (dropTail cs).reverse ++ List.replicate k .here := by
  induction cs using dropTail.induct with
  | case1 cs ih =>
    obtain ⟨k, hk⟩ := ih
    have hslash : textSteps ('/' :: cs).reverse = textSteps cs.reverse := by
      simpa using textSteps_append cs.reverse []
    exact ⟨k, by rw [dropTail, hslash, hk]⟩
  | case2 cs ih =>
    obtain ⟨k, hk⟩ := ih
    have hdot : textSteps ['.'] = [.here] := by decide
    have hslash : textSteps ('.' :: '/' :: cs).reverse = textSteps cs.reverse ++ [.here] := by
      simpa [hdot] using textSteps_append cs.reverse ['.']
    exact ⟨k + 1, by rw [dropTail, hslash, hk, List.append_assoc, List.replicate_succ']⟩
  | case3 cs h1 h2 => exact ⟨0, by simp [dropTail.eq_3 cs h1 h2]⟩

theorem dropTail_end (cs : List Char) :
    (∀ rest, dropTail cs ≠ '/' :: rest) ∧ ∀ rest, dropTail cs ≠ '.' :: '/' :: rest := by
  induction cs using dropTail.induct with
  | case1 cs ih => rwa [dropTail]
  | case2 cs ih => rwa [dropTail]
  | case3 cs h1 h2 =>
    rw [dropTail.eq_3 cs h1 h2]
    exact ⟨h1, h2⟩

def lead (p : Path) : List Char :=
  ((dropTail p.text.toList.reverse).dropWhile (· ≠ '/')).reverse

def tip (p : Path) : List Char :=
  ((dropTail p.text.toList.reverse).takeWhile (· ≠ '/')).reverse

theorem lead_end (p : Path) : p.lead = [] ∨ ∃ cs, p.lead = cs ++ ['/'] := by
  unfold lead
  cases hd : (dropTail p.text.toList.reverse).dropWhile (· ≠ '/') with
  | nil => exact .inl rfl
  | cons c rest =>
    have hhead := List.head?_dropWhile_not (· ≠ '/') (dropTail p.text.toList.reverse)
    rw [hd] at hhead
    obtain rfl : c = '/' := by simpa using hhead
    exact .inr ⟨rest.reverse, by simp⟩

theorem notMem_tip (p : Path) : '/' ∉ p.tip := by
  intro h
  have hall := List.all_eq_true.mp List.all_takeWhile '/' (List.mem_reverse.mp h)
  simp at hall

theorem textSteps_lead (p : Path) (cs : List Char) :
    textSteps (p.lead ++ cs) = textSteps p.lead ++ textSteps cs := by
  rcases p.lead_end with h | ⟨ds, h⟩
  · simp [h]
  · have hds : textSteps (ds ++ ['/']) = textSteps ds := by simpa using textSteps_append ds []
    rw [h, hds, List.append_assoc]
    exact textSteps_append ds cs

theorem textSteps_single (h : '/' ∉ cs) (hne : cs ≠ []) : textSteps cs = [Step.ofSegment cs] := by
  simp [textSteps, splitChar_of_notMem h, hne]

/-- The last part that moves is the last part of the path. -/
theorem getLast?_parts {k : Nat} (hs : p.steps = ss ++ s :: List.replicate k .here)
    (hmove : s ≠ .here) : p.parts.getLast? = some s := by
  have hfilter : p.steps.filter (· ≠ .here) = ss.filter (· ≠ .here) ++ [s] := by
    simp [hs, hmove]
  unfold parts
  split
  · next rest hrest =>
    rw [hrest] at hfilter
    have htail : rest.filter (· ≠ .here) = ss.filter (· ≠ .here) ++ [s] := by simpa using hfilter
    split
    · rw [htail, List.getLast?_concat]
    · rw [htail, ← List.cons_append, List.getLast?_concat]
  · rw [hfilter, List.getLast?_concat]

theorem fileName?_of_stays {k : Nat} (hs : p.steps = List.replicate k .here) :
    p.fileName? = none := by
  have hfilter (j : Nat) : (List.replicate j Step.here).filter (· ≠ .here) = [] := by simp
  unfold fileName? parts
  rw [hs]
  cases k with
  | zero => rfl
  | succ k =>
    rw [List.replicate_succ]
    dsimp only
    rw [hfilter]
    cases p.isAbsolute <;> rfl

/-- A path with a file name goes to the directory that its text in front of the name leads to, and
then by the name. -/
theorem steps_of_fileName? {n : String} (h : p.fileName? = some n) :
    p.tip = n.toList ∧ ∃ k, p.steps = textSteps p.lead ++ .name n :: List.replicate k .here := by
  obtain ⟨k, hk⟩ := exists_textSteps_dropTail p.text.toList.reverse
  have hsplit : (dropTail p.text.toList.reverse).reverse = p.lead ++ p.tip := by
    rw [lead, tip, ← List.reverse_append, List.takeWhile_append_dropWhile]
  rw [List.reverse_reverse, ← steps_eq, hsplit, textSteps_lead] at hk
  obtain ⟨hslash, hdot⟩ := dropTail_end p.text.toList.reverse
  rw [← List.reverse_reverse (dropTail _), hsplit, List.reverse_append] at hslash hdot
  -- Without a name in front of what is cut off, nothing is left; and a single point is all that is
  -- left.
  have hstays : (p.tip = [] ∨ p.tip = ['.']) → False := by
    intro htip
    have hnil : p.lead = [] := by
      refine p.lead_end.resolve_right ?_
      rintro ⟨cs, hcs⟩
      rcases htip with htip | htip
      · exact hslash cs.reverse (by simp [htip, hcs])
      · exact hdot cs.reverse (by simp [htip, hcs])
    have hnone : p.fileName? = none := by
      rcases htip with htip | htip
      · exact fileName?_of_stays (k := k) (by simpa [hnil, htip] using hk)
      · have hpoint : textSteps ['.'] = [.here] := by decide
        exact fileName?_of_stays (k := k + 1)
          (by simpa [hnil, htip, hpoint, List.replicate_succ] using hk)
    rw [hnone] at h
    cases h
  have hne : p.tip ≠ [] := fun hnil => hstays (.inl hnil)
  rw [textSteps_single p.notMem_tip hne, List.append_assoc] at hk
  have hmove : Step.ofSegment p.tip ≠ .here := by
    intro hhere
    unfold Step.ofSegment at hhere
    split at hhere
    · next hpoint => exact hstays (.inr hpoint)
    · split at hhere <;> cases hhere
  have hname : (Step.ofSegment p.tip).name? = some n := by
    rw [fileName?, getLast?_parts hk hmove] at h
    exact h
  have hstep : Step.ofSegment p.tip = .name n := by
    cases hs : Step.ofSegment p.tip <;> rw [hs] at hname <;> cases hname
    rfl
  rw [hstep] at hk
  refine ⟨?_, k, hk⟩
  unfold Step.ofSegment at hstep
  split at hstep
  · cases hstep
  · split at hstep
    · cases hstep
    · cases hstep
      simp

theorem isPrefix_splitName (name : String) : (splitName name).1.toList <+: name.toList := by
  unfold splitName
  dsimp only
  split
  · exact List.prefix_rfl
  · have hsuffix : ((name.toList.reverse.dropWhile (· ≠ '.')).drop 1) <:+ name.toList.reverse :=
      (List.drop_suffix _ _).trans (List.dropWhile_suffix _)
    simpa using List.reverse_prefix.mpr hsuffix

theorem splitName_cases (name : String) :
    name.toList = (splitName name).1.toList ∨
      ∃ ext, '.' ∉ ext ∧ name.toList = (splitName name).1.toList ++ '.' :: ext := by
  unfold splitName
  dsimp only
  split
  · exact .inl rfl
  · next hstem =>
    right
    refine ⟨(name.toList.reverse.takeWhile (· ≠ '.')).reverse, fun hpoint => ?_, ?_⟩
    · have hall := List.all_eq_true.mp List.all_takeWhile '.' (List.mem_reverse.mp hpoint)
      simp at hall
    · have hsplit := List.takeWhile_append_dropWhile (p := (· ≠ '.')) (l := name.toList.reverse)
      have hhead := List.head?_dropWhile_not (· ≠ '.') name.toList.reverse
      cases hd : name.toList.reverse.dropWhile (· ≠ '.') with
      | nil => exact absurd (by rw [hd]; rfl) hstem
      | cons c rest =>
        rw [hd] at hsplit hhead
        obtain rfl : c = '.' := by simpa using hhead
        simpa using (congrArg List.reverse hsplit).symm

theorem splitName_ne_nil {name : String} (h : name.toList ≠ []) :
    (splitName name).1.toList ≠ [] := by
  unfold splitName
  dsimp only
  split
  · exact h
  · next hstem => simpa using hstem

section Extension

variable {n ext : String}

def extended (n ext : String) : String :=
  (splitName n).1 ++ "." ++ ext

theorem extended_ne (hpoint : '.' ∈ ext.toList) : extended n ext ≠ n := by
  intro h
  have htext := congrArg String.toList h
  simp only [extended, String.toList_append] at htext
  rcases splitName_cases n with hn | ⟨e, he, hn⟩
  · have hlength := congrArg List.length (htext.trans hn)
    simp at hlength
  · have hsame : '.' :: ext.toList = '.' :: e := by simpa using htext.trans hn
    cases hsame
    exact he hpoint

theorem ne_nil_of_mem_textSteps (h : Step.name n ∈ textSteps cs) : n.toList ≠ [] := by
  obtain ⟨part, hpart, hn⟩ := List.mem_map.mp h
  have hne : part ≠ [] := by simpa using (List.mem_filter.mp hpart).2
  unfold Step.ofSegment at hn
  split at hn
  · cases hn
  · split at hn
    · cases hn
    · cases hn
      simpa using hne

theorem name_mem_steps (h : p.fileName? = some n) : Step.name n ∈ p.steps := by
  obtain ⟨-, k, hsteps⟩ := steps_of_fileName? h
  rw [hsteps]
  exact List.mem_append_right _ List.mem_cons_self

theorem text_withExtension (h : p.fileName? = some n) (ext : String) :
    (p.withExtension ext).text.toList = p.lead ++ (extended n ext).toList := by
  simp [withExtension, h, lead, extended, List.append_assoc]

theorem steps_withExtension (h : p.fileName? = some n) (hext : ext.toList ≠ [])
    (hslash : '/' ∉ ext.toList) :
    (p.withExtension ext).steps = textSteps p.lead ++ [.name (extended n ext)] := by
  have hn := name_mem_steps h
  have hstem : (splitName n).1.toList ≠ [] := splitName_ne_nil (ne_nil_of_mem_textSteps hn)
  have hnot : '/' ∉ (extended n ext).toList := by
    have hname : '/' ∉ (splitName n).1.toList := fun hm =>
      notMem_of_name_mem_textSteps hn ((isPrefix_splitName n).subset hm)
    simp [extended, hname, hslash]
  have hlength : 3 ≤ (extended n ext).toList.length := by
    have := List.length_pos_iff.mpr hstem
    have := List.length_pos_iff.mpr hext
    simp only [extended, String.toList_append, List.length_append]
    have : ".".toList.length = 1 := rfl
    omega
  have hstep : Step.ofSegment (extended n ext).toList = .name (extended n ext) := by
    unfold Step.ofSegment
    rw [if_neg, if_neg, String.ofList_toList]
    · intro hdots
      simp [hdots] at hlength
    · intro hdot
      simp [hdot] at hlength
  have hne : (extended n ext).toList ≠ [] := by
    intro hnil
    simp [hnil] at hlength
  rw [steps_eq, text_withExtension h, textSteps_lead, textSteps_single hnot hne, hstep]

theorem isAbsolute_withExtension (h : p.fileName? = some n) (ext : String) :
    (p.withExtension ext).isAbsolute = p.isAbsolute := by
  have hn := name_mem_steps h
  have hslash : '/' ∉ n.toList := notMem_of_name_mem_textSteps hn
  obtain ⟨htip, -⟩ := steps_of_fileName? h
  have hfront : p.lead ++ n.toList <+: p.text.toList := by
    have hsuffix := List.reverse_prefix.mpr (dropTail_suffix p.text.toList.reverse)
    rwa [List.reverse_reverse, ← List.takeWhile_append_dropWhile (p := (· ≠ '/')) (l := dropTail _),
      List.reverse_append, ← lead, ← tip, htip] at hsuffix
  obtain ⟨rest, hrest⟩ := hfront
  rw [isAbsolute, isAbsolute, text_withExtension h, ← hrest]
  cases hlead : p.lead with
  | cons c cs => rfl
  | nil =>
    have hname : n.toList ≠ [] := ne_nil_of_mem_textSteps hn
    obtain ⟨c, cs, hc⟩ := List.exists_cons_of_ne_nil hname
    obtain ⟨c', cs', hc'⟩ := List.exists_cons_of_ne_nil (splitName_ne_nil hname)
    have hne : c ≠ '/' := fun he => hslash (by simp [hc, he])
    have hne' : c' ≠ '/' := fun he => hslash ((isPrefix_splitName n).subset (by simp [hc', he]))
    simp [extended, hc, hc', hne, hne']

end Extension

theorem follow_stays (loc : List String) (k : Nat) : follow loc (List.replicate k .here) = loc := by
  induction k with
  | zero => rfl
  | succ k ih => rw [List.replicate_succ, follow_cons]; exact ih

end Path

namespace Disk

variable {d : Disk} {p : Path} {n : String}

/-- A path with a file name and the same path with another extension lead to the same directory. -/
theorem place_withExtension (d : Disk) (h : p.fileName? = some n) (ext : String)
    (hext : ext.toList ≠ []) (hslash : '/' ∉ ext.toList) : ∃ loc, d.place p = loc ++ [n] ∧
      d.place (p.withExtension ext) = loc ++ [Path.extended n ext] := by
  obtain ⟨-, k, hsteps⟩ := Path.steps_of_fileName? h
  refine ⟨Path.follow (d.start p) (Path.textSteps p.lead), ?_, ?_⟩
  · rw [place, hsteps, Path.follow_append, Path.follow_cons, Path.follow_stays]
    rfl
  · rw [place, start, Path.isAbsolute_withExtension h, Path.steps_withExtension h hext hslash,
      Path.follow_append]
    rfl

end Disk

end Narrative
