import Narrative.Proofs.Template.Append
import Narrative.Proofs.Template.Cutting
import Narrative.Proofs.Template.RoundTrip

/-! The grammar of templates. A derivation tells what the segments of a block say and the nodes that
they stand for, without reference to blocks that are open meanwhile. The headers of statements are
told without their reading too, and are read as they are told. -/

namespace Narrative

/-- A tag that has the keyword, with `rest` behind it and blanks around that. -/
def Segment.IsTag (s : Segment) (keyword rest : String) : Prop :=
  ∃ tail, s = .tag (keyword.toList ++ tail) ∧ tail.head?.all isBlank = true ∧
    rest = String.ofList (trim tail)

/-- A name with `mark` behind it and some text behind that, blanks between them aside. -/
def IsPair (mark : List Char) (source : String) (name text : String) : Prop :=
  isName name = true ∧ ∃ gap right, source.toList = name.toList ++ (gap ++ (mark ++ right)) ∧
    (∀ c ∈ gap, isBlank c = true) ∧ trim right ≠ [] ∧ text = String.ofList (trim right)

namespace Template

mutual

/-- Segments that are statements side by side, and their nodes. -/
inductive Block : List Segment → List Node → Prop
  | nil : Block [] []
  | cons {ss ts n ns} (hn : Statement ss n) (hns : Block ts ns) : Block (ss ++ ts) (n :: ns)

/-- Segments that are one statement, and its node. What stands in the tag that ends it is
ignored. -/
inductive Statement : List Segment → Node → Prop
  | text (cs) : Statement [.text cs] (.text (String.ofList cs))
  | output (expr source) :
      Statement [.output expr source] (.output (String.ofList expr) (String.ofList source))
  | assign {s rest x e} (hs : s.IsTag "set" rest) (hrest : IsPair ['='] rest x e)
      (he : e.toList.head? ≠ some '=') : Statement [s] (.assign x e)
  | run {s e} (hs : s.IsTag "do" e) (he : e ≠ "") : Statement [s] (.run e)
  | cond {s ss ts test body arms} (hs : s.IsTag "if" test) (htest : test ≠ "")
      (hbody : Block ss body)
      (harms : Ending ts arms) : Statement (s :: (ss ++ ts)) (.cond test body arms)
  | loop {s t ss header ignored x e body} (hs : s.IsTag "for" header)
      (hheader : IsPair [' ', 'i', 'n', ' '] header x e) (hbody : Block ss body)
      (ht : t.IsTag "endfor" ignored) : Statement (s :: (ss ++ [t])) (.loop x e body)

/-- Segments that end a conditional block whose first arm is read, and its further arms. -/
inductive Ending : List Segment → Arms → Prop
  | done {t ignored} (ht : t.IsTag "endif" ignored) : Ending [t] .done
  | otherwise {s t ss ignored ignored' body} (hs : s.IsTag "else" ignored) (hbody : Block ss body)
      (ht : t.IsTag "endif" ignored') : Ending (s :: (ss ++ [t])) (.otherwise body)
  | elif {s ss ts test body arms} (hs : s.IsTag "elif" test) (hbody : Block ss body)
      (harms : Ending ts arms) : Ending (s :: (ss ++ ts)) (.elif test body arms)

end

/-- Pieces of a text that are well formed: all regions are closed, no output is empty, and what the
pieces say is a block. -/
structure WellFormed (ps : List Piece) (t : Template) : Prop where
  closed : ∀ p ∈ ps, p.isClosed
  outputs : ∀ r, .region r ∈ ps → r.kind = .output → trim r.body ≠ []
  derived : Block (Segment.told none ps) t

/-- The text can be cut into well-formed pieces, and `t` is the tree of their derivation. -/
def Derives (text : String) (t : Template) : Prop :=
  ∃ ps, Cuts ps text.toList ∧ WellFormed ps t

namespace Block

variable {ss ts : List Segment} {n : Node} {ns ms : List Node}

theorem singleton (h : Statement ss n) : Block ss [n] := by
  have hblock := Block.cons h .nil
  rwa [List.append_nil] at hblock

theorem append : {ss : List Segment} → {ns : List Node} → Block ss ns → Block ts ms → Block
    (ss ++ ts) (ns ++ ms)
  | _, _, .nil, h => h
  | _, _, .cons hn hns, h => by
    rw [List.append_assoc, List.cons_append]
    exact .cons hn (hns.append h)

end Block

end Template

theorem Segment.isTag_keyword (content : List Char) :
    (Segment.tag content).IsTag (Builder.keyword content).1 (Builder.keyword content).2 := by
  refine ⟨content.dropWhile (!isBlank ·), ?_, ?_, rfl⟩
  · rw [Builder.keyword, String.toList_ofList, List.takeWhile_append_dropWhile]
  · cases hdrop : content.dropWhile (!isBlank ·) with
    | nil => rfl
    | cons c cs =>
      have hc := List.head?_dropWhile_not (!isBlank ·) content
      rw [hdrop] at hc
      simpa using hc

theorem Segment.IsTag.keyword {content : List Char} {k rest : String}
    (h : (Segment.tag content).IsTag k rest)
    (hk : k.toList.all (!isBlank ·) = true) : Builder.keyword content = (k, rest) := by
  obtain ⟨tail, heq, htail, rfl⟩ := h
  obtain rfl := Segment.tag.inj heq
  have hall : ∀ c ∈ k.toList, (!isBlank c) = true := List.all_eq_true.mp hk
  have hsplit : tail.takeWhile (!isBlank ·) = [] ∧ tail.dropWhile (!isBlank ·) = tail := by
    cases tail with
    | nil => exact ⟨rfl, rfl⟩
    | cons c cs =>
      have hc : isBlank c = true := htail
      simp [hc]
  rw [Builder.keyword, List.takeWhile_append_of_pos hall, List.dropWhile_append_of_pos hall,
    hsplit.1, hsplit.2, List.append_nil, String.ofList_toList]

theorem Segment.IsTag.step {s : Segment} {k rest : String} (h : s.IsTag k rest)
    (hk : k.toList.all (!isBlank ·) = true) (b : Builder) : b.step s = b.tag k rest := by
  obtain ⟨tail, rfl, -, -⟩ := id h
  rw [Builder.step, h.keyword hk]

theorem Segment.IsTag.ne_error {s : Segment} {k rest : String} (h : s.IsTag k rest)
    (e : TemplateError) : .error e ≠ s := by
  obtain ⟨tail, rfl, -, -⟩ := h
  intro heq
  cases heq

section Pair

variable {mark as bs cs gap left right : List Char} {source x e : String}

theorem splitOnce_cons (c : Char) (h : ¬ mark <+: c :: cs) :
    splitOnce mark (c :: cs) = (splitOnce mark cs).map fun (before, after) =>
      (c :: before, after) := by
  rw [splitOnce, if_neg (mt List.isPrefixOf_iff_prefix.mp h)]

theorem append_of_splitOnce (h : splitOnce mark cs = some (left, right)) :
    cs = left ++ (mark ++ right) := by
  induction cs generalizing left with
  | nil =>
    rw [splitOnce] at h
    split at h
    · next hm =>
      cases h
      simp [hm]
    · cases h
  | cons c cs ih =>
    by_cases hm : mark <+: c :: cs
    · obtain ⟨rest, hrest⟩ := hm
      rw [splitOnce, if_pos (List.isPrefixOf_iff_prefix.mpr ⟨rest, hrest⟩)] at h
      cases h
      rw [← hrest, List.drop_left, List.nil_append]
    · rw [splitOnce_cons c hm] at h
      obtain ⟨⟨before, after⟩, hsplit, heq⟩ := Option.map_eq_some_iff.mp h
      cases heq
      rw [ih hsplit]
      rfl

/-- Behind a word and blanks the mark of a loop header is found: the blanks are not the one that it
starts with, as none of them has a letter behind it. -/
theorem splitOnce_in (has : ' ' ∉ as) (hgap : ∀ c ∈ gap, isBlank c = true) (bs : List Char) :
    splitOnce [' ', 'i', 'n', ' '] (as ++ (gap ++ ([' ', 'i', 'n', ' '] ++ bs))) =
      some (as ++ gap, bs) := by
  induction as with
  | cons a as ih =>
    have hne : ¬ [' ', 'i', 'n', ' '] <+: a :: (as ++ (gap ++ ([' ', 'i', 'n', ' '] ++ bs))) :=
      fun hm => has (List.cons_prefix_cons.mp hm |>.1 ▸ List.mem_cons_self)
    rw [List.cons_append, splitOnce_cons a hne, ih fun hm => has (.tail a hm)]
    rfl
  | nil =>
    induction gap with
    | nil => rfl
    | cons c gap ih =>
      have hne : ¬ [' ', 'i', 'n', ' '] <+: c :: (gap ++ ([' ', 'i', 'n', ' '] ++ bs)) := by
        intro hm
        have hnext := (List.cons_prefix_cons.mp hm).2
        cases gap with
        | nil => exact absurd (List.cons_prefix_cons.mp hnext).1 (by decide)
        | cons d gap =>
          have hd : isBlank 'i' = true := (List.cons_prefix_cons.mp hnext).1 ▸ hgap d (by simp)
          exact absurd hd (by decide)
      have hrest := ih fun d hd => hgap d (.tail c hd)
      rw [List.nil_append] at hrest ⊢
      rw [List.cons_append, splitOnce_cons c hne, hrest]
      rfl

theorem head?_trim {s : List Char} {c : Char} (h : (trim s).head? = some c) :
    isBlank c = false := by
  obtain ⟨ws, -, hend⟩ := exists_trimEnd_append (trimStart s)
  refine head?_trimStart (s := s) ?_
  rw [hend, ← trim, List.head?_append, h, Option.some_or]

theorem Segment.IsTag.head?_rest {s : Segment} {k rest : String} (h : s.IsTag k rest) :
    ∀ c, rest.toList.head? = some c → isBlank c = false := by
  obtain ⟨tail, -, -, rfl⟩ := h
  intro c hc
  rw [String.toList_ofList] at hc
  exact head?_trim hc

theorem trim_name_gap (hx : isName x = true) (hgap : ∀ c ∈ gap, isBlank c = true) :
    trim (x.toList ++ gap) = x.toList := by
  have hword := (IsWord.of_isName hx).toTrimmed
  rw [← trim_trimEnd, trimEnd_blanks hgap, trim_trimEnd, hword.trim_eq]

theorem isPair_of_splitOnce (hstart : ∀ c, source.toList.head? = some c → isBlank c = false)
    (h : splitOnce mark source.toList = some (left, right))
    (hname : isName (String.ofList (trim left)) = true) (hright : trim right ≠ []) :
    IsPair mark source (String.ofList (trim left)) (String.ofList (trim right)) := by
  have hsource := append_of_splitOnce h
  obtain ⟨gap, hgap, hend⟩ := exists_trimEnd_append left
  have hleft : trim left = trimEnd left := by
    refine congrArg trimEnd (trimStart_of_head fun c hc => hstart c ?_)
    rw [hsource, List.head?_append, hc, Option.some_or]
  refine ⟨hname, gap, right, ?_, hgap, hright, rfl⟩
  rw [hsource, String.toList_ofList, hleft, ← List.append_assoc (trimEnd left), ← hend]

theorem loopParts?_of_isPair (h : IsPair [' ', 'i', 'n', ' '] source x e) :
    Node.loopParts? source.toList = some (x, e) := by
  obtain ⟨hx, gap, right, hsource, hgap, hright, rfl⟩ := h
  have hblank : ' ' ∉ x.toList :=
    fun hm => absurd ((IsWord.of_isName hx).not_blank ' ' hm) (by decide)
  rw [Node.loopParts?, hsource, splitOnce_in hblank hgap]
  simp [trim_name_gap hx hgap, hx, hright]

theorem isPair_of_loopParts? (hstart : ∀ c, source.toList.head? = some c → isBlank c = false)
    (h : Node.loopParts? source.toList = some (x, e)) : IsPair [' ', 'i', 'n', ' '] source x e := by
  rw [Node.loopParts?] at h
  split at h
  · cases h
  · next left right hsplit =>
    dsimp only at h
    split at h
    · next hparts =>
      cases h
      simp only [Bool.and_eq_true, decide_eq_true_eq] at hparts
      exact isPair_of_splitOnce hstart hsplit hparts.1 (by simpa using hparts.2)
    · cases h

theorem assignParts?_of_isPair (h : IsPair ['='] source x e) (he : e.toList.head? ≠ some '=') :
    Node.assignParts? source.toList = some (x, e) := by
  obtain ⟨hx, gap, right, hsource, hgap, hright, rfl⟩ := h
  have hequals : '=' ∉ x.toList ++ gap := by
    intro hm
    rcases List.mem_append.mp hm with hm | hm
    · exact absurd ((IsWord.of_isName hx).names '=' hm) (by decide)
    · exact absurd (hgap '=' hm) (by decide)
  have hsplit := Node.splitOnce_of_notMem [] hequals right
  rw [Node.assignParts?, hsource, ← List.append_assoc, hsplit]
  simpa [trim_name_gap hx hgap, hx, hright] using he

theorem isPair_of_assignParts? (hstart : ∀ c, source.toList.head? = some c → isBlank c = false)
    (h : Node.assignParts? source.toList = some (x, e)) :
    IsPair ['='] source x e ∧ e.toList.head? ≠ some '=' := by
  rw [Node.assignParts?] at h
  split at h
  · cases h
  · next left right hsplit =>
    dsimp only at h
    split at h
    · next hparts =>
      cases h
      simp only [Bool.and_eq_true, Bool.not_eq_true', List.isEmpty_eq_false_iff,
        decide_eq_true_eq] at hparts
      exact ⟨isPair_of_splitOnce hstart hsplit hparts.1.1 hparts.1.2, by simpa using hparts.2⟩
    · cases h

end Pair

end Narrative
