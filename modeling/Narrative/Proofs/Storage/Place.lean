import Narrative.Storage.Disk

/-! Where paths lead as they are written, whatever stands there: the location at the end of their
steps and the locations on the way to it. -/

namespace Narrative

namespace Step

def move (loc : List String) : Step → List String
  | here => loc
  | up => loc.dropLast
  | name n => loc ++ [n]

end Step

theorem splitChar_ne_nil (mark : Char) (cs : List Char) : splitChar mark cs ≠ [] := by
  cases cs with
  | nil => simp [splitChar]
  | cons c cs =>
    unfold splitChar
    split
    · simp
    · split <;> simp

theorem splitChar_append (mark : Char) (cs ds : List Char) :
    splitChar mark (cs ++ mark :: ds) = splitChar mark cs ++ splitChar mark ds := by
  induction cs with
  | nil => simp [splitChar]
  | cons c cs ih =>
    by_cases hc : c = mark
    · simp [splitChar, hc, ih]
    · have hne := splitChar_ne_nil mark cs
      obtain ⟨part, parts, hp⟩ := List.exists_cons_of_ne_nil hne
      simp [splitChar, hc, ih, hp]

theorem splitChar_of_notMem {mark : Char} {cs : List Char} (h : mark ∉ cs) :
    splitChar mark cs = [cs] := by
  induction cs with
  | nil => rfl
  | cons c cs ih =>
    have hc : c ≠ mark := fun hc => h (hc ▸ List.mem_cons_self)
    have hcs := ih fun hm => h (List.mem_cons_of_mem _ hm)
    simp [splitChar, hc, hcs]

theorem notMem_of_mem_splitChar {mark : Char} {part cs : List Char}
    (h : part ∈ splitChar mark cs) : mark ∉ part := by
  induction cs generalizing part with
  | nil => simp_all [splitChar]
  | cons c cs ih =>
    obtain ⟨first, rest, hs⟩ := List.exists_cons_of_ne_nil (splitChar_ne_nil mark cs)
    unfold splitChar at h
    split at h
    · rcases List.mem_cons.mp h with rfl | h
      · simp
      · exact ih h
    · next hc =>
      rw [hs] at h ih
      rcases List.mem_cons.mp h with rfl | h
      · have := ih List.mem_cons_self
        simp [this, Ne.symm hc]
      · exact ih (List.mem_cons_of_mem _ h)

namespace Path

def textSteps (cs : List Char) : List Step :=
  ((splitChar '/' cs).filter (!·.isEmpty)).map Step.ofSegment

theorem steps_eq (p : Path) : p.steps = textSteps p.text.toList := rfl

@[simp] theorem textSteps_nil : textSteps [] = [] := rfl

theorem textSteps_append (cs ds : List Char) :
    textSteps (cs ++ '/' :: ds) = textSteps cs ++ textSteps ds := by
  simp [textSteps, splitChar_append]

theorem textSteps_of_notMem {cs : List Char} (h : '/' ∉ cs) (hne : cs ≠ [])
    (hdot : cs.head? ≠ some '.') : textSteps cs = [.name (String.ofList cs)] := by
  have h1 : cs ≠ ['.'] := fun e => hdot (by simp [e])
  have h2 : cs ≠ ['.', '.'] := fun e => hdot (by simp [e])
  simp [textSteps, splitChar_of_notMem h, hne, Step.ofSegment, h1, h2]

theorem notMem_of_name_mem_textSteps {n : String} {cs : List Char}
    (h : Step.name n ∈ textSteps cs) : '/' ∉ n.toList := by
  obtain ⟨part, hpart, hn⟩ := List.mem_map.mp h
  have hmem := notMem_of_mem_splitChar (List.mem_filter.mp hpart).1
  unfold Step.ofSegment at hn
  split at hn
  · cases hn
  · split at hn
    · cases hn
    · cases hn; simpa using hmem

/-- The steps that a text can stand for. -/
def IsWritten (s : Step) : Prop :=
  textSteps s.text.toList = [s] ∧ '/' ∉ s.text.toList

theorem isWritten_of_mem {s : Step} {cs : List Char} (h : s ∈ textSteps cs) : IsWritten s := by
  obtain ⟨part, hpart, rfl⟩ := List.mem_map.mp h
  obtain ⟨hmem, hne⟩ := List.mem_filter.mp hpart
  have hslash := notMem_of_mem_splitChar hmem
  have htext : (Step.ofSegment part).text.toList = part := by
    unfold Step.ofSegment
    split
    · next h => simp [Step.text, h]
    · split
      · next h => simp [Step.text, h]
      · simp [Step.text]
  refine ⟨?_, by rwa [htext]⟩
  have hfilter : [part].filter (!·.isEmpty) = [part] := List.filter_cons_of_pos hne
  rw [htext, textSteps, splitChar_of_notMem hslash, hfilter]
  rfl

section Join

variable {p : Path} {q : String}

theorem steps_join (h : q.toList.head? ≠ some '/') :
    (p.join q).steps = p.steps ++ textSteps q.toList := by
  unfold join
  by_cases hp : p.text = ""
  · simp [h, hp, steps_eq]
  · by_cases hend : p.endsInSlash
    · obtain ⟨before, hb⟩ := List.getLast?_eq_some_iff.mp (of_decide_eq_true hend)
      simp [h, hp, hend, steps_eq, hb, textSteps_append]
    · simp [h, hp, hend, steps_eq, textSteps_append]

theorem isAbsolute_join (h : q.toList.head? ≠ some '/') : (p.join q).isAbsolute = p.isAbsolute := by
  unfold join
  by_cases hp : p.text = ""
  · simp [h, hp, isAbsolute]
  · have hne : p.text.toList ≠ [] := by simpa using hp
    obtain ⟨c, cs, hc⟩ := List.exists_cons_of_ne_nil hne
    by_cases hend : p.endsInSlash <;> simp [h, hp, hend, isAbsolute, hc]

end Join

section Parent

/-- What is cut off at the end of a text are slashes and steps that stay. -/
theorem textSteps_dropTail (cs : List Char) :
    textSteps (dropTail cs).reverse <+: textSteps cs.reverse := by
  induction cs using dropTail.induct with
  | case1 cs ih =>
    have : textSteps ('/' :: cs).reverse = textSteps cs.reverse := by
      simpa using textSteps_append cs.reverse []
    rwa [dropTail, this]
  | case2 cs ih =>
    have : textSteps ('.' :: '/' :: cs).reverse = textSteps cs.reverse ++ [.here] := by
      have hdot : textSteps ['.'] = [.here] := by decide
      simpa [hdot] using textSteps_append cs.reverse ['.']
    rw [dropTail, this]
    exact ih.trans (List.prefix_append _ _)
  | case3 cs h1 h2 =>
    simp [dropTail.eq_3 cs h1 h2]

theorem dropTail_suffix (cs : List Char) : dropTail cs <:+ cs := by
  induction cs using dropTail.induct with
  | case1 cs ih => rw [dropTail]; exact ih.trans (List.suffix_cons _ _)
  | case2 cs ih =>
    rw [dropTail]
    exact ih.trans ((List.suffix_cons _ _).trans (List.suffix_cons _ _))
  | case3 cs h1 h2 =>
    simp [dropTail.eq_3 cs h1 h2]

theorem textSteps_dropWhile (cs : List Char) :
    textSteps (cs.dropWhile (· ≠ '/')).reverse <+: textSteps cs.reverse := by
  have hhead := List.head?_dropWhile_not (· ≠ '/') cs
  have happend := List.takeWhile_append_dropWhile (p := (· ≠ '/')) (l := cs)
  rcases hd : cs.dropWhile (· ≠ '/') with - | ⟨c, rest⟩
  · exact List.nil_prefix
  · rw [hd] at hhead happend
    obtain rfl : c = '/' := by simpa using hhead
    have hrest : textSteps ('/' :: rest).reverse = textSteps rest.reverse := by
      simpa using textSteps_append rest.reverse []
    have hcs : cs.reverse = rest.reverse ++ '/' :: (cs.takeWhile (· ≠ '/')).reverse := by
      have := congrArg List.reverse happend
      simpa using this.symm
    rw [hrest, hcs, textSteps_append]
    exact List.prefix_append _ _

variable {p q : Path}

/-- What stands in front of the last part of a path, backwards. -/
def front (p : Path) : List Char :=
  dropTail ((dropTail p.text.toList.reverse).dropWhile (· ≠ '/'))

theorem parent?_cases (h : p.parent? = some q) :
    p.front = [] ∧ p.isAbsolute ∧ q = ⟨"/"⟩
      ∨ ¬ (p.front = [] ∧ p.isAbsolute) ∧ q = ⟨String.ofList p.front.reverse⟩ := by
  unfold parent? at h
  split at h
  · cases h
  · by_cases hroot : p.front = [] ∧ p.isAbsolute
    · left
      simp_all [front]
    · right
      have : ¬ (p.front.isEmpty && p.isAbsolute) = true := by simpa using hroot
      rw [front] at this
      simp only [this] at h
      exact ⟨hroot, (Option.some.inj h).symm⟩

theorem steps_parent (h : p.parent? = some q) : q.steps <+: p.steps := by
  rcases parent?_cases h with ⟨-, -, rfl⟩ | ⟨-, rfl⟩
  · have : (⟨"/"⟩ : Path).steps = [] := by decide
    rw [this]
    exact List.nil_prefix
  · rw [steps_eq, steps_eq, String.toList_ofList]
    have h1 := textSteps_dropTail ((dropTail p.text.toList.reverse).dropWhile (· ≠ '/'))
    have h2 := textSteps_dropWhile (dropTail p.text.toList.reverse)
    have h3 := textSteps_dropTail p.text.toList.reverse
    rw [List.reverse_reverse] at h3
    exact h1.trans (h2.trans h3)

theorem front_prefix (p : Path) : p.front.reverse <+: p.text.toList := by
  have hsuffix : p.front <:+ p.text.toList.reverse :=
    (dropTail_suffix _).trans ((List.dropWhile_suffix _).trans (dropTail_suffix _))
  simpa using List.reverse_prefix.mpr hsuffix

theorem isAbsolute_parent (h : p.parent? = some q) : q.isAbsolute = p.isAbsolute := by
  rcases parent?_cases h with ⟨-, habs, rfl⟩ | ⟨hnot, rfl⟩
  · rw [habs]
    decide
  · by_cases hnil : p.front = []
    · have habs : p.isAbsolute = false := by simpa [hnil] using hnot
      rw [hnil, habs]
      decide
    · obtain ⟨c, cs, hc⟩ := List.exists_cons_of_ne_nil (by simpa using hnil : p.front.reverse ≠ [])
      obtain ⟨tail, htail⟩ := p.front_prefix
      simp [isAbsolute, ← htail, hc]

end Parent

def follow (loc : List String) (ss : List Step) : List String :=
  ss.foldl Step.move loc

/-- Whether steps pass a location, where they start and end among them. -/
def Passes (loc : List String) (ss : List Step) (l : List String) : Prop :=
  ∃ before, before <+: ss ∧ follow loc before = l

@[simp] theorem follow_nil (loc : List String) : follow loc [] = loc := rfl

@[simp] theorem follow_cons (loc : List String) (s : Step) (ss : List Step) :
    follow loc (s :: ss) = follow (s.move loc) ss := rfl

theorem follow_append (loc : List String) (ss ts : List Step) :
    follow loc (ss ++ ts) = follow (follow loc ss) ts :=
  List.foldl_append

section Passes

variable {loc l : List String} {s : Step} {ss ts : List Step}

theorem passes_start : Passes loc ss loc :=
  ⟨[], List.nil_prefix, rfl⟩

theorem passes_follow : Passes loc ss (follow loc ss) :=
  ⟨ss, List.prefix_rfl, rfl⟩

theorem Passes.cons (h : Passes (s.move loc) ss l) : Passes loc (s :: ss) l := by
  obtain ⟨before, hb, hl⟩ := h
  exact ⟨s :: before, List.cons_prefix_cons.mpr ⟨rfl, hb⟩, hl⟩

theorem Passes.of_prefix (h : Passes loc ss l) (hss : ss <+: ts) : Passes loc ts l := by
  obtain ⟨before, hb, hl⟩ := h
  exact ⟨before, hb.trans hss, hl⟩

theorem passes_nil : Passes loc [] l ↔ l = loc := by
  constructor
  · rintro ⟨before, hb, rfl⟩
    rw [List.prefix_nil.mp hb, follow_nil]
  · rintro rfl
    exact passes_start

theorem passes_cons : Passes loc (s :: ss) l ↔ l = loc ∨ Passes (s.move loc) ss l := by
  constructor
  · rintro ⟨before, hb, rfl⟩
    cases before with
    | nil => exact .inl rfl
    | cons t before =>
      obtain ⟨rfl, hbefore⟩ := List.cons_prefix_cons.mp hb
      exact .inr ⟨before, hbefore, rfl⟩
  · rintro (rfl | h)
    · exact passes_start
    · exact h.cons

theorem passes_append : Passes loc (ss ++ ts) l ↔ Passes loc ss l ∨ Passes
    (follow loc ss) ts l := by
  constructor
  · rintro ⟨before, ⟨after, hb⟩, rfl⟩
    rcases List.append_eq_append_iff.mp hb with ⟨rest, hss, -⟩ | ⟨rest, rfl, hts⟩
    · exact .inl ⟨before, ⟨rest, hss.symm⟩, rfl⟩
    · exact .inr ⟨rest, ⟨after, hts.symm⟩, (follow_append loc ss rest).symm⟩
  · rintro (h | ⟨before, hb, rfl⟩)
    · exact h.of_prefix (List.prefix_append _ _)
    · exact ⟨ss ++ before, (List.prefix_append_right_inj ss).mpr hb, follow_append loc ss before⟩

end Passes

end Path

namespace Disk

variable {d : Disk} {p q : Path}

def place (d : Disk) (p : Path) : List String :=
  Path.follow (d.start p) p.steps

/-- Whether a location is passed on the way to where a path leads. -/
def OnWay (d : Disk) (p : Path) (loc : List String) : Prop :=
  Path.Passes (d.start p) p.steps loc

theorem start_congr {d d' : Disk} (h : d'.working = d.working) (p : Path) :
    d'.start p = d.start p := by
  simp [start, h]

theorem place_congr {d d' : Disk} (h : d'.working = d.working) (p : Path) :
    d'.place p = d.place p := by
  simp [place, start_congr h]

theorem onWay_congr {d d' : Disk} (h : d'.working = d.working) (p : Path) :
    d'.OnWay p = d.OnWay p := by
  unfold OnWay
  rw [start_congr h]

theorem start_join (d : Disk) (p : Path) {q : String} (h : q.toList.head? ≠ some '/') :
    d.start (p.join q) = d.start p := by
  simp [start, Path.isAbsolute_join h]

theorem start_parent (d : Disk) (h : p.parent? = some q) : d.start q = d.start p := by
  simp [start, Path.isAbsolute_parent h]

theorem place_join (d : Disk) (p : Path) {q : String} (h : q.toList.head? ≠ some '/') :
    d.place (p.join q) = Path.follow (d.place p) (Path.textSteps q.toList) := by
  simp [place, start_join d p h, Path.steps_join h, Path.follow_append]

theorem onWay_join (d : Disk) (p : Path) {q : String} {loc : List String}
    (h : q.toList.head? ≠ some '/') : d.OnWay (p.join q) loc ↔ d.OnWay p loc ∨
      Path.Passes (d.place p) (Path.textSteps q.toList) loc := by
  unfold OnWay
  rw [start_join d p h, Path.steps_join h]
  exact Path.passes_append

theorem onWay_place (d : Disk) (p : Path) : d.OnWay p (d.place p) :=
  Path.passes_follow

theorem OnWay.of_parent {loc : List String} (h : p.parent? = some q) (hloc : d.OnWay q loc) :
    d.OnWay p loc := by
  unfold OnWay at *
  rw [start_parent d h] at hloc
  exact hloc.of_prefix (Path.steps_parent h)

theorem walk_eq {loc l : List String} {ss : List Step} (h : d.walk loc ss = .ok l) :
    l = Path.follow loc ss := by
  induction ss generalizing loc with
  | nil => cases h; rfl
  | cons s ss ih =>
    unfold walk at h
    split at h
    · cases s with
      | here => exact ih h
      | up => exact ih h
      | name n =>
        dsimp only at h
        split at h
        · exact ih h
        · cases h
    · cases h

end Disk

end Narrative
