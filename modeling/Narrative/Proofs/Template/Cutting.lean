import Narrative.Proofs.Template.Closing
import Narrative.Proofs.Trim

/-! The one way to cut a text. Literal runs and regions are told apart by their markers alone, each
text can be cut into them in one way, and the scan says what that cut says: nothing is lost and
nothing is made up. -/

namespace Narrative

namespace Region

variable {kind : RegionKind} {cs rest : List Char} {r : Region}

def content (r : Region) : List Char :=
  r.body ++ dash r.trimAfter

/-- A region that ends at its first closing marker when `rest` follows it, and of which the trim
marks are the dashes next to its markers. -/
structure StandsBefore (r : Region) (rest : List Char) : Prop where
  before : r.trimBefore = false → r.content.head? ≠ some '-'
  after : r.trimAfter = false → r.body.getLast? ≠ some '-'
  closed : r.kind.IsClosed (r.content ++ r.kind.closing :: '\x7d' :: rest) r.content rest

theorem inside_append (r : Region) (rest : List Char) :
    r.inside ++ rest = dash r.trimBefore ++ (r.content ++ r.kind.closing :: '\x7d' :: rest) := by
  simp [inside, content]

def undash (cs : List Char) : List Char :=
  if dashed cs then cs.tail else cs

theorem dash_undash (cs : List Char) : dash (dashed cs) ++ undash cs = cs := by
  cases cs with
  | nil => rfl
  | cons c cs => by_cases hc : c = '-' <;> simp [dashed, undash, dash, hc]

theorem head?_undash (h : dashed cs = false) : (undash cs).head? ≠ some '-' := by
  rw [undash, h, if_neg Bool.false_ne_true]
  simpa [dashed] using h

theorem dashed_dash {b : Bool} (h : b = false → cs.head? ≠ some '-') :
    dashed (dash b ++ cs) = b := by
  cases b with
  | true => rfl
  | false => simpa [dashed, dash] using h rfl

theorem undash_dash {b : Bool} (h : b = false → cs.head? ≠ some '-') :
    undash (dash b ++ cs) = cs := by
  rw [undash, dashed_dash h]
  cases b <;> rfl

theorem ofOpened?_eq (kind : RegionKind) (cs : List Char) :
    ofOpened? kind cs = (close? kind none (undash cs)).map fun (body, rest) =>
      if body.getLast? = some '-' then (⟨kind, dashed cs, body.dropLast, true⟩, rest)
      else (⟨kind, dashed cs, body, false⟩, rest) :=
  rfl

theorem ofOpened?_eq_none_iff : ofOpened? kind cs = none ↔
    ∀ before after, undash cs = before ++ after → ¬ kind.ClosesAt before after := by
  rw [ofOpened?_eq, Option.map_eq_none_iff, close?_eq_none_iff]

theorem head?_content_append (h : r.content.head? ≠ some '-') (rest : List Char) :
    (r.content ++ r.kind.closing :: rest).head? ≠ some '-' := by
  cases hc : r.content with
  | nil => cases hk : r.kind <;> simp [RegionKind.closing]
  | cons c cs => simpa [hc] using h

theorem StandsBefore.ofOpened? (h : r.StandsBefore rest) :
    ofOpened? r.kind (r.inside ++ rest) = some (r, rest) := by
  have hhead : r.trimBefore = false →
      (r.content ++ r.kind.closing :: '\x7d' :: rest).head? ≠ some '-' :=
    fun hb => head?_content_append (h.before hb) _
  rw [inside_append, ofOpened?_eq, undash_dash hhead, dashed_dash hhead,
    close?_eq_some_iff.mpr h.closed, Option.map_some]
  obtain ⟨kind, trimBefore, body, trimAfter⟩ := r
  cases trimAfter with
  | true => simp [content, dash]
  | false =>
    have hlast : body.getLast? ≠ some '-' := h.after rfl
    simp [content, dash, hlast]

theorem standsBefore_of_ofOpened? (h : Region.ofOpened? kind cs = some (r, rest)) :
    r.StandsBefore rest := by
  obtain ⟨hcs, hkind, hbefore, -⟩ := ofOpened?_spec h
  have hhead : r.trimBefore = false → (undash cs).head? ≠ some '-' :=
    fun hb => head?_undash (hbefore ▸ hb)
  rw [ofOpened?_eq] at h
  obtain ⟨⟨body, rest'⟩, hclose, hr⟩ := Option.map_eq_some_iff.mp h
  have hcontent : rest' = rest ∧ body = r.content ∧
      (r.trimAfter = false → r.body.getLast? ≠ some '-') := by
    dsimp only at hr
    split at hr
    · next hlast =>
      cases hr
      obtain ⟨front, rfl⟩ := List.getLast?_eq_some_iff.mp hlast
      exact ⟨rfl, by simp [content, dash], fun hf => by cases hf⟩
    · next hlast =>
      cases hr
      exact ⟨rfl, by simp [content, dash], fun _ => hlast⟩
  obtain ⟨rfl, rfl, hafter⟩ := hcontent
  have hclosed := close?_eq_some_iff.mp hclose
  have htext := hclosed.text
  rw [← hkind] at hclosed htext
  refine ⟨fun hb hfirst => hhead hb ?_, hafter, htext ▸ hclosed⟩
  obtain ⟨c, hc⟩ := List.head?_eq_some_iff.mp hfirst
  rw [htext, hc]
  rfl

theorem isWhole_iff (r : Region) (rest : List Char) : r.IsWhole ↔ r.StandsBefore rest :=
  ⟨fun h => standsBefore_of_ofOpened? (h rest), fun h => (ofOpened?_spec h.ofOpened?).2.2.2⟩

end Region

variable {kind : RegionKind} {cs : List Char} {ps qs : List Piece} {p : Piece}

/-- Whether a piece can be where it is, before the pieces `after`. No region opens in a literal run,
which is as long as it can be; a region stands before what follows it; and what is not closed is all
that is left, without a closing marker behind its opener and the dash that trims before it. -/
def Piece.Fits (after : List Piece) : Piece → Prop
  | .literal run =>
    run ≠ [] ∧ (∀ s rest, after ≠ .literal s :: rest) ∧
      ∀ before ds, run = before ++ ds → ds ≠ [] →
        ∀ kind : RegionKind, ¬ ['\x7b', kind.opening] <+: ds ++ sources after
  | .region r => r.StandsBefore (sources after)
  | .unclosed kind trimBefore source =>
    after = [] ∧ ∃ text, source = '\x7b' :: kind.opening :: (Region.dash trimBefore ++ text) ∧
      (trimBefore = false → text.head? ≠ some '-') ∧
      ∀ before rest, text = before ++ rest → ¬ kind.ClosesAt before rest

/-- A way to cut a text: pieces that say it and that can be where they are. -/
structure Cuts (ps : List Piece) (cs : List Char) : Prop where
  sources : sources ps = cs
  fits : ∀ before p after, ps = before ++ p :: after → p.Fits after

theorem opener?_eq_none_iff :
    opener? cs = none ↔ ∀ kind : RegionKind, ¬ ['\x7b', kind.opening] <+: cs := by
  constructor
  · rintro h kind ⟨rest, rfl⟩
    rw [List.cons_append, List.singleton_append, opener?_opening] at h
    cases h
  · intro h
    cases ho : opener? cs with
    | none => rfl
    | some r => exact absurd ⟨r.2, (opener?_eq_some ho).symm⟩ (h r.1)

theorem fits_literal_iff {run : List Char} : (Piece.literal run).Fits ps ↔
    run ≠ [] ∧ ¬ StartsLiteral ps ∧ ∀ ds, ds <:+ run → ds ≠ [] →
      opener? (ds ++ sources ps) = none := by
  refine and_congr_right fun _ => and_congr ?_ ?_
  · simp [StartsLiteral]
  · simp only [opener?_eq_none_iff]
    exact ⟨fun h ds ⟨before, hrun⟩ => h before ds hrun.symm,
      fun h before ds hrun => h ds ⟨before, hrun.symm⟩⟩

theorem fits_unclosed_iff {trimBefore : Bool} : (Piece.unclosed kind trimBefore cs).Fits ps ↔
    ps = [] ∧ ∃ inner, Region.ofOpened? kind inner = none ∧
      cs = '\x7b' :: kind.opening :: inner ∧ trimBefore = Region.dashed inner := by
  refine and_congr_right fun _ => ⟨?_, ?_⟩
  · rintro ⟨text, rfl, hhead, hopen⟩
    refine ⟨_, Region.ofOpened?_eq_none_iff.mpr ?_, rfl, (Region.dashed_dash hhead).symm⟩
    rwa [Region.undash_dash hhead]
  · rintro ⟨inner, hopen, rfl, rfl⟩
    exact ⟨Region.undash inner, by rw [Region.dash_undash], Region.head?_undash,
      Region.ofOpened?_eq_none_iff.mp hopen⟩

theorem isCut_cons_iff : IsCut (p :: ps) ↔ p.Fits ps ∧ IsCut ps := by
  constructor
  · intro h
    cases h with
    | literal hne hopen hrun hps => exact ⟨fits_literal_iff.mpr ⟨hne, hrun, hopen⟩, hps⟩
    | region hr hps => exact ⟨(Region.isWhole_iff _ _).mp hr, hps⟩
    | unclosed h => exact ⟨fits_unclosed_iff.mpr ⟨rfl, _, h, rfl, rfl⟩, .nil⟩
  · rintro ⟨hp, hps⟩
    cases p with
    | literal run =>
      obtain ⟨hne, hrun, hopen⟩ := fits_literal_iff.mp hp
      exact .literal hne hopen hrun hps
    | region r => exact .region ((Region.isWhole_iff _ _).mpr hp) hps
    | unclosed kind b source =>
      obtain ⟨rfl, inner, h, rfl, rfl⟩ := fits_unclosed_iff.mp hp
      exact .unclosed h

theorem isCut_iff : IsCut ps ↔ ∀ before p after, ps = before ++ p :: after → p.Fits after := by
  induction ps with
  | nil => exact ⟨fun _ before p after h => by simp at h, fun _ => .nil⟩
  | cons q ps ih =>
    rw [isCut_cons_iff, ih]
    constructor
    · rintro ⟨hq, hps⟩ before p after h
      cases before with
      | nil =>
        cases h
        exact hq
      | cons b before =>
        cases h
        exact hps before p after rfl
    · intro h
      exact ⟨h [] q ps rfl, fun before p after hps => h (q :: before) p after (by rw [hps]; rfl)⟩

theorem cuts_iff : Cuts ps cs ↔ ps = cut cs := by
  constructor
  · rintro ⟨rfl, hfits⟩
    exact (cut_sources (isCut_iff.mpr hfits)).symm
  · rintro rfl
    exact ⟨sources_cut cs, isCut_iff.mp (isCut_cut cs)⟩

namespace Piece

def opensTrimmed : Piece → Bool
  | .literal _ => false
  | .region r => r.trimBefore
  | .unclosed _ trimBefore _ => trimBefore

def closesTrimmed : Piece → Bool
  | .region r => r.trimAfter
  | _ => false

def told (before after : Option Piece) : Piece → List Segment
  | .literal run =>
    let run := if before.any closesTrimmed then trimStart run else run
    let run := if after.any opensTrimmed then trimEnd run else run
    if run = [] then [] else [.text run]
  | .region r =>
    match r.kind with
    | .output => if trim r.body = [] then [.error .emptyOutput]
        else [.output (trim r.body) r.source]
    | .tag => [.tag (trim r.body)]
    | .comment => []
  | .unclosed kind _ source => [.error (.unclosedRegion kind (String.ofList (trim source)))]

end Piece

namespace Segment

def told (before : Option Piece) : List Piece → List Segment
  | [] => []
  | p :: ps => p.told before ps.head? ++ told (some p) ps

theorem trimsBefore_eq (ps : List Piece) : trimsBefore ps = ps.head?.any Piece.opensTrimmed := by
  unfold trimsBefore
  split
  · rfl
  · rfl
  · next hregion hunclosed =>
    rcases ps with - | ⟨_ | r | ⟨kind, b, source⟩, ps⟩
    · rfl
    · rfl
    · exact absurd rfl (hregion r ps)
    · exact absurd rfl (hunclosed kind b source ps)

theorem ofRegion_eq_told (r : Region) (before after : Option Piece) :
    ofRegion r = (Piece.region r).told before after := by
  cases hkind : r.kind <;> simp [ofRegion, Piece.told, hkind]

theorem ofPieces_eq_told (before : Option Piece) (ps : List Piece) :
    ofPieces (before.any Piece.closesTrimmed) ps = told before ps := by
  induction ps generalizing before with
  | nil => rfl
  | cons p ps ih =>
    rw [told, ← ih (some p)]
    cases p with
    | literal run =>
      simp only [ofPieces, ofLiteral, List.isEmpty_iff, trimsBefore_eq, Piece.told]
      rfl
    | region r =>
      rw [ofPieces, ofRegion_eq_told r before ps.head?]
      rfl
    | unclosed kind b source => rfl

section Pass

/-- The literal text that is held backwards before a region, which trims it or not. -/
def flush (trimmed : Bool) (run : List Char) : List Segment :=
  ofLiteral (if trimmed then trimEnd run.reverse else run.reverse)

/-- The scan in one pass over a text. The literal text since the last region is held backwards in
`run`; while `trimmed` holds, it is empty, and blanks are dropped. -/
def pass (run : List Char) (trimmed : Bool) : List Char → List Segment
  | [] => flush false run
  | c :: cs =>
    match h : opener? (c :: cs) with
    | none => if trimmed && isBlank c then pass run true cs else pass (c :: run) false cs
    | some (kind, inner) =>
      have := opener?_length h
      match h' : Region.ofOpened? kind inner with
      | none =>
        flush (Region.dashed inner) run ++
          [.error (.unclosedRegion kind (String.ofList (trim (c :: cs))))]
      | some (r, rest) =>
        have := Region.ofOpened?_length h'
        flush r.trimBefore run ++ (ofRegion r ++ pass [] r.trimAfter rest)
termination_by cs => cs.length
decreasing_by all_goals simp only [List.length_cons] at *; omega

variable {c : Char} {ps : List Piece}

theorem ofPieces_of_not (h : ¬ StartsLiteral ps) (trimmed : Bool) :
    ofPieces trimmed ps = ofPieces false ps := by
  rcases ps with - | ⟨cs | r | ⟨kind, b, source⟩, ps⟩
  · rfl
  · exact absurd ⟨cs, ps, rfl⟩ h
  · rfl
  · rfl

theorem ofPieces_consLiteral_blank (hc : isBlank c = true) (ps : List Piece) :
    ofPieces true (consLiteral c ps) = ofPieces true ps := by
  have htrim : ∀ cs, trimStart (c :: cs) = trimStart cs :=
    trimStart_blanks (s := [c]) (by simpa using hc)
  by_cases hrun : StartsLiteral ps
  · obtain ⟨cs, qs, rfl⟩ := hrun
    simp only [consLiteral, ofPieces, if_true, htrim]
  · have hnil : trimStart [c] = [] := htrim []
    rw [consLiteral_of_not hrun, ofPieces_of_not hrun true]
    simp [ofPieces, hnil, trimEnd, ofLiteral]

theorem ofPieces_consLiteral (hc : isBlank c = false) (ps : List Piece) :
    ofPieces true (consLiteral c ps) = ofPieces false (consLiteral c ps) := by
  by_cases hrun : StartsLiteral ps
  · obtain ⟨cs, qs, rfl⟩ := hrun
    simp [consLiteral, ofPieces, trimStart_cons hc]
  · rw [consLiteral_of_not hrun]
    simp [ofPieces, trimStart_cons hc]

theorem foldr_consLiteral (h : ¬ StartsLiteral ps) {run : List Char} (hne : run ≠ []) :
    run.foldr consLiteral ps = .literal run :: ps := by
  induction run with
  | nil => exact absurd rfl hne
  | cons c run ih =>
    rw [List.foldr_cons]
    by_cases hrun : run = []
    · rw [hrun]
      exact consLiteral_of_not h
    · rw [ih hrun, consLiteral]

theorem ofPieces_foldr_consLiteral {run : List Char} {trimmed : Bool}
    (hrun : trimmed = true → run = []) (h : ¬ StartsLiteral ps) :
    ofPieces trimmed (run.reverse.foldr consLiteral ps) = flush (trimsBefore ps) run ++
      ofPieces false ps := by
  by_cases hne : run = []
  · simp [hne, ofPieces_of_not h trimmed, flush, trimEnd, ofLiteral]
  · obtain rfl : trimmed = false := Bool.eq_false_iff.mpr fun ht => hne (hrun ht)
    rw [foldr_consLiteral h (mt List.reverse_eq_nil_iff.mp hne)]
    rfl

/-- One pass over a text says what the pieces of its cut say, with the literal text before it in
front. -/
theorem pass_eq (run : List Char) (trimmed : Bool) (cs : List Char)
    (hrun : trimmed = true → run = []) :
    pass run trimmed cs = ofPieces trimmed (run.reverse.foldr consLiteral (cut cs)) := by
  -- A character that goes to `run` goes in front of the cut of what follows it, so nothing is said
  -- of it yet.
  fun_induction pass run trimmed cs with
  | case1 run trimmed =>
    rw [cut_nil, ofPieces_foldr_consLiteral hrun (by simp [StartsLiteral])]
    exact (List.append_nil _).symm
  | case2 run trimmed c cs hopen hblank ih =>
    obtain ⟨rfl, hc⟩ : trimmed = true ∧ isBlank c = true := by simpa using hblank
    obtain rfl := hrun rfl
    rw [ih hrun, cut_of_opener?_none hopen]
    exact (ofPieces_consLiteral_blank hc _).symm
  | case3 run trimmed c cs hopen hblank ih =>
    rw [ih (fun h => by cases h), cut_of_opener?_none hopen, List.reverse_cons, List.foldr_append]
    cases trimmed with
    | false => rfl
    | true =>
      obtain rfl := hrun rfl
      exact (ofPieces_consLiteral (by simpa using hblank) _).symm
  | case4 run trimmed c cs kind inner hopen _ hclose =>
    rw [opener?_eq_some hopen, cut_unclosed hclose,
      ofPieces_foldr_consLiteral hrun (by simp [StartsLiteral])]
    rfl
  | case5 run trimmed c cs kind inner hopen _ r rest hclose _ ih =>
    obtain ⟨hinner, rfl, -, hwhole⟩ := Region.ofOpened?_spec hclose
    have htext : c :: cs = r.source ++ rest := by
      rw [opener?_eq_some hopen, hinner, Region.source_eq]
      rfl
    rw [htext, cut_region hwhole, ofPieces_foldr_consLiteral hrun (by simp [StartsLiteral]),
      ih fun _ => rfl]
    rfl

/-- The scan needs one pass over the text, with no cut in between. -/
theorem scan_eq_pass (cs : List Char) : scan cs = pass [] false cs := by
  rw [pass_eq [] false cs fun h => by cases h]
  rfl

end Pass

/-- A text can be cut in one way, and the scan of the text says in order what the pieces of that cut
say. -/
theorem scan_told (cs : List Char) : ∃ ps, (∀ qs, Cuts qs cs ↔ qs = ps) ∧ scan cs = told none ps :=
  ⟨cut cs, fun _ => cuts_iff, ofPieces_eq_told none (cut cs)⟩

-- One dash between two markers trims before the region alone.
example : scan "a \x7b\x7b- b -\x7d\x7d \x7b#-#\x7d \x7b\x7b '".toList =
    [.text ['a'], .output ['b'] "\x7b\x7b- b -\x7d\x7d".toList, .text [' '],
      .error (.unclosedRegion .output "\x7b\x7b '")] := by decide +kernel

end Segment

end Narrative
