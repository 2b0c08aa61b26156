import Narrative.Proofs.Template.Region

/-! Cuts of texts. The pieces of a text say the text again, and where they could not have been cut
otherwise they are the cut of what they say. So texts can be cut apart and put together piece by
piece. -/

namespace Narrative

namespace Region

variable {kind : RegionKind} {quote : Option Char} {cs body rest w : List Char} {r : Region}

/-- A region is read up to its first closing marker, and nothing behind the marker matters. -/
theorem close?_spec (h : close? kind quote cs = some (body, rest)) :
    cs = body ++ kind.closing :: '\x7d' :: rest ∧
      ∀ ds, close? kind quote (body ++ kind.closing :: '\x7d' :: ds) = some (body, ds) := by
  fun_induction close? kind quote cs generalizing body rest with
  | case1 => cases h
  | case2 => cases h
  | case3 q d cs ih =>
    obtain ⟨⟨b, r⟩, hc, hr⟩ := Option.map_eq_some_iff.mp h
    cases hr
    obtain ⟨rfl, hclose⟩ := ih hc
    refine ⟨rfl, fun ds => ?_⟩
    rw [List.cons_append, List.cons_append, close?]
    simp only [if_true, hclose, Option.map_some]
  | case4 c cs q hne ih =>
    obtain ⟨⟨b, r⟩, hc, hr⟩ := Option.map_eq_some_iff.mp h
    cases hr
    obtain ⟨rfl, hclose⟩ := ih hc
    refine ⟨rfl, fun ds => ?_⟩
    rw [List.cons_append, close?.eq_def]
    simp only [hne, if_false, hclose, Option.map_some]
  | case5 c cs hopen ih =>
    obtain ⟨⟨b, r⟩, hc, hr⟩ := Option.map_eq_some_iff.mp h
    cases hr
    obtain ⟨rfl, hclose⟩ := ih hc
    refine ⟨rfl, fun ds => ?_⟩
    rw [List.cons_append, close?]
    simp only [hopen, if_true, hclose, Option.map_some]
  | case6 c cs hopen hend =>
    cases h
    obtain ⟨rfl, hhead⟩ : c = kind.closing ∧ cs.head? = some '\x7d' := by simpa using hend
    obtain ⟨d, cs, rfl⟩ := List.exists_cons_of_ne_nil (List.ne_nil_of_mem (List.mem_of_head? hhead))
    obtain rfl : d = '\x7d' := by simpa using hhead
    refine ⟨rfl, fun ds => ?_⟩
    rw [List.nil_append, close?]
    simp [hopen]
  | case7 c cs hopen hend ih =>
    obtain ⟨⟨b, r⟩, hc, hr⟩ := Option.map_eq_some_iff.mp h
    cases hr
    obtain ⟨rfl, hclose⟩ := ih hc
    refine ⟨rfl, fun ds => ?_⟩
    have hhead : (b ++ kind.closing :: '\x7d' :: ds).head? =
        (b ++ kind.closing :: '\x7d' :: r).head? := by
      cases b <;> rfl
    rw [List.cons_append, close?]
    simp only [hopen, hhead, hend, hclose, Option.map_some]
    rfl

theorem ofOpened?_spec (h : ofOpened? kind cs = some (r, rest)) :
    cs = r.inside ++ rest ∧ r.kind = kind ∧ r.trimBefore = dashed cs ∧ r.IsWhole := by
  obtain ⟨⟨body, rest'⟩, hclose, hr⟩ := Option.map_eq_some_iff.mp h
  obtain ⟨hcs, hwhole⟩ := close?_spec hclose
  have hinside : r.kind = kind ∧ r.trimBefore = dashed cs ∧ rest' = rest ∧
      ∀ ds, r.inside ++ ds = dash (dashed cs) ++ (body ++ kind.closing :: '\x7d' :: ds) := by
    dsimp only at hr
    split at hr
    · next hlast =>
      cases hr
      obtain ⟨front, rfl⟩ := List.getLast?_eq_some_iff.mp hlast
      simp [inside, dash]
    · cases hr
      simp [inside, dash]
  obtain ⟨hkind, htrim, rfl, hinside⟩ := hinside
  have hfirst : cs = dash (dashed cs) ++ (if dashed cs then cs.tail else cs) := by
    cases cs with
    | nil => rfl
    | cons c cs => by_cases hc : c = '-' <;> simp [dashed, dash, hc]
  have hsource : cs = r.inside ++ rest' := by
    rw [hinside, ← hcs, ← hfirst]
  refine ⟨hsource, hkind, htrim, fun ds => ?_⟩
  -- The region is never empty, so its first character says what it said before another text behind
  -- it.
  have hdashed : dashed (r.inside ++ ds) = dashed cs := by
    have hne : r.inside ≠ [] := by simp [inside]
    obtain ⟨c, is, hi⟩ := List.exists_cons_of_ne_nil hne
    rw [hsource, hi]
    rfl
  have hrest : (if dashed cs then (r.inside ++ ds).tail else r.inside ++ ds)
      = body ++ kind.closing :: '\x7d' :: ds := by
    rw [hinside]
    cases dashed cs <;> rfl
  rw [hkind, ofOpened?, hdashed, hrest, hwhole, Option.map_some]
  dsimp only at hr ⊢
  split at hr <;> · next hlast => cases hr; simp [hlast]

/-- Text without quotes and closing markers is passed, brackets that close nothing included. -/
theorem Passed.unmarked (hhead : w.head? ≠ some '\x7d') (hquote : ∀ c ∈ w, isQuote c = false)
    (hmark : ¬ [kind.closing, '\x7d'] <:+: w) : Passed kind w := by
  refine ⟨hhead, fun rest hrest => ?_⟩
  clear hhead
  induction w with
  | nil => simp [behind]
  | cons c w ih =>
    have hopen : (isQuote c && kind != .comment) = false := by simp [hquote c List.mem_cons_self]
    have hend : (c = kind.closing && (w ++ rest).head? = some '\x7d' : Bool) = false := by
      refine Bool.eq_false_iff.mpr fun h => ?_
      obtain ⟨rfl, hnext⟩ : c = kind.closing ∧ (w ++ rest).head? = some '\x7d' := by simpa using h
      cases w with
      | nil => exact hrest hnext
      | cons d w =>
        obtain rfl : d = '\x7d' := by simpa using hnext
        exact hmark ⟨[], w, rfl⟩
    have hrest' :=
      ih (fun d hd => hquote d (.tail c hd)) fun h => hmark (h.trans (List.suffix_cons c w).isInfix)
    rw [List.cons_append, close?]
    simp only [hopen, hend, hrest', behind, Option.map_map]
    rfl

/-- A region is whole if nothing in its body ends it, and the body does not start or end with a dash
that would be taken for a trim mark. -/
theorem isWhole_of_passed (hkind : r.kind ≠ .output) (hbody : Passed r.kind r.body) {c : Char}
    (hfirst : r.body.head? = some c) (hc : c ≠ '-') (hlast : r.body.getLast? ≠ some '-') :
      r.IsWhole := by
  intro rest
  obtain ⟨kind, trimBefore, body, trimAfter⟩ := r
  obtain ⟨body', rfl⟩ : ∃ body', body = c :: body' := List.head?_eq_some_iff.mp hfirst
  have hdash : Passed kind (dash trimAfter) := by
    cases trimAfter with
    | false => exact .nil
    | true => exact .char ⟨by decide, by decide⟩
  have hstop : close? kind none (kind.closing :: '\x7d' :: rest) = some ([], rest) := by
    cases kind <;> rfl
  have hbrace : (kind.closing :: '\x7d' :: rest).head? ≠ some '\x7d' := by
    cases kind with
    | output => exact absurd rfl hkind
    | _ => simp [RegionKind.closing]
  have hclose : close? kind none (c :: body' ++ dash trimAfter ++ kind.closing :: '\x7d' :: rest)
      = some (c :: body' ++ dash trimAfter, rest) := by
    rw [(hbody.append hdash).close _ hbrace, hstop]
    simp [behind]
  have hinside : inside ⟨kind, trimBefore, c :: body', trimAfter⟩ ++ rest
      = dash trimBefore ++ (c :: body' ++ dash trimAfter ++ kind.closing :: '\x7d' :: rest) := by
    simp [inside]
  -- The dash that trims before the region is the only one that the text of the region can start
  -- with.
  have hdashed : dashed (inside ⟨kind, trimBefore, c :: body', trimAfter⟩ ++ rest) =
      trimBefore := by
    rw [hinside]
    cases trimBefore with
    | true => rfl
    | false => simpa [dashed, dash] using hc
  have hbehind : (if trimBefore then (inside ⟨kind, trimBefore, c :: body', trimAfter⟩ ++ rest).tail
      else inside ⟨kind, trimBefore, c :: body', trimAfter⟩ ++ rest)
      = c :: body' ++ dash trimAfter ++ kind.closing :: '\x7d' :: rest := by
    rw [hinside]
    cases trimBefore <;> rfl
  rw [ofOpened?, hdashed, hbehind, hclose, Option.map_some]
  cases trimAfter with
  | true => simp only [dash, if_true, List.getLast?_concat, List.dropLast_concat]
  | false =>
    simp only [dash, if_neg Bool.false_ne_true, List.append_nil]
    rw [if_neg hlast]

end Region

namespace Piece

def source : Piece → List Char
  | literal cs => cs
  | region r => r.source
  | unclosed _ _ cs => cs

end Piece

def sources (ps : List Piece) : List Char :=
  ps.flatMap Piece.source

/-- Pieces that could not be cut otherwise: no region opens in a literal run, two runs are never
side by side, regions end at their first closing marker, and what is not closed is all that is
left. -/
inductive IsCut : List Piece → Prop
  | nil : IsCut []
  | literal {cs ps} (hne : cs ≠ []) (hopen : ∀ ds, ds <:+ cs → ds ≠ [] →
      opener? (ds ++ sources ps) = none)
      (hrun : ¬ StartsLiteral ps) (hps : IsCut ps) : IsCut (.literal cs :: ps)
  | region {r ps} (hr : r.IsWhole) (hps : IsCut ps) : IsCut (.region r :: ps)
  | unclosed {kind inner} (h : Region.ofOpened? kind inner = none) :
      IsCut [.unclosed kind (Region.dashed inner) ('\x7b' :: kind.opening :: inner)]

variable {c : Char} {cs : List Char} {ps qs : List Piece} {kind : RegionKind}

theorem cut_nil : cut [] = [] := by
  rw [cut]

theorem cut_unclosed {inner : List Char} (h : Region.ofOpened? kind inner = none) :
    cut ('\x7b' :: kind.opening :: inner)
      = [.unclosed kind (Region.dashed inner) ('\x7b' :: kind.opening :: inner)] := by
  rw [cut]
  split
  · next heq => rw [opener?_opening] at heq; cases heq
  · next heq =>
    rw [opener?_opening] at heq
    cases heq
    split
    · rfl
    · next heq => rw [h] at heq; cases heq

theorem cut_sources (h : IsCut ps) : cut (sources ps) = ps := by
  induction h with
  | nil => exact cut_nil
  | @literal cs ps hne hopen hrun _ ih =>
    have hcut : cut (cs ++ sources ps) = .literal cs :: cut (sources ps) :=
      cut_run hne hopen (ih.symm ▸ hrun)
    exact hcut.trans (congrArg _ ih)
  | @region r ps hr _ ih =>
    have hcut : cut (r.source ++ sources ps) = .region r :: cut (sources ps) := cut_region hr _
    exact hcut.trans (congrArg _ ih)
  | @unclosed kind inner h =>
    have hsources : sources [.unclosed kind (Region.dashed inner) ('\x7b' :: kind.opening :: inner)]
        = '\x7b' :: kind.opening :: inner := by simp [sources, Piece.source]
    rw [hsources, cut_unclosed h]

theorem sources_consLiteral (c : Char) (ps : List Piece) :
    sources (consLiteral c ps) = c :: sources ps := by
  unfold consLiteral
  split <;> simp [sources, Piece.source]

theorem IsCut.consLiteral (h : IsCut ps) (hopen : opener? (c :: sources ps) = none) :
    IsCut (consLiteral c ps) := by
  by_cases hrun : StartsLiteral ps
  · obtain ⟨cs, qs, rfl⟩ := hrun
    cases h with
    | literal hne hcs hrun hqs =>
      refine .literal (List.cons_ne_nil c cs) (fun ds hds hds' => ?_) hrun hqs
      rcases List.suffix_cons_iff.mp hds with rfl | hds
      · exact hopen
      · exact hcs ds hds hds'
  · rw [consLiteral_of_not hrun]
    refine .literal (List.cons_ne_nil c []) (fun ds hds hne => ?_) hrun h
    rcases List.suffix_cons_iff.mp hds with rfl | hds
    · exact hopen
    · exact absurd (List.suffix_nil.mp hds) hne

theorem opener?_eq_some {cs rest : List Char} (h : opener? cs = some (kind, rest)) :
    cs = '\x7b' :: kind.opening :: rest := by
  unfold opener? at h
  split at h
  · obtain ⟨k, hk, heq⟩ := Option.map_eq_some_iff.mp h
    cases heq
    obtain rfl : kind.opening = _ := by simpa using List.find?_some hk
    rfl
  · cases h

/-- A text is cut into pieces that say it again and could not be cut otherwise. -/
theorem cut_spec (cs : List Char) : IsCut (cut cs) ∧ sources (cut cs) = cs := by
  fun_induction cut cs with
  | case1 => exact ⟨.nil, rfl⟩
  | case2 c cs hopen ih =>
    obtain ⟨hcut, hsources⟩ := ih
    refine ⟨hcut.consLiteral (hsources.symm ▸ hopen), ?_⟩
    rw [sources_consLiteral, hsources]
  | case3 c cs kind inner hopen _ hclose =>
    rw [opener?_eq_some hopen]
    exact ⟨.unclosed hclose, List.append_nil _⟩
  | case4 c cs kind inner hopen _ r rest hclose _ ih =>
    obtain ⟨hinner, rfl, -, hwhole⟩ := Region.ofOpened?_spec hclose
    obtain ⟨hcut, hsources⟩ := ih
    refine ⟨.region hwhole hcut, ?_⟩
    have hr : sources (.region r :: cut rest) = r.source ++ sources (cut rest) := rfl
    rw [hr, hsources, Region.source_eq, opener?_eq_some hopen, hinner]
    rfl

theorem isCut_cut (cs : List Char) : IsCut (cut cs) :=
  (cut_spec cs).1

theorem sources_cut (cs : List Char) : sources (cut cs) = cs :=
  (cut_spec cs).2

/-- Of what follows a character, the next one alone says whether the character opens a region. -/
theorem opener?_append_congr {xs ys : List Char} (hne : cs ≠ []) (hhead : xs.head? = ys.head?)
    (h : opener? (cs ++ xs) = none) : opener? (cs ++ ys) = none := by
  obtain ⟨c, cs, rfl⟩ := List.exists_cons_of_ne_nil hne
  by_cases hc : c = '\x7b'
  · subst hc
    have hnext : (cs ++ xs).head? = (cs ++ ys).head? := by
      rw [List.head?_append, List.head?_append, hhead]
    rw [List.cons_append] at h ⊢
    cases hy : cs ++ ys with
    | nil => rfl
    | cons d ys' =>
      rw [hy] at hnext
      obtain ⟨xs', hx⟩ := List.head?_eq_some_iff.mp hnext
      rw [hx] at h
      simpa [opener?] using h
  · exact opener?_cons_of_ne hc

theorem head?_sources (r r' : Region) (ps qs : List Piece) :
    (sources (ps ++ .region r :: qs)).head? = (sources (ps ++ .region r' :: qs)).head? := by
  induction ps with
  | nil => rfl
  | cons p ps ih =>
    change (p.source ++ sources (ps ++ .region r :: qs)).head?
      = (p.source ++ sources (ps ++ .region r' :: qs)).head?
    rw [List.head?_append, List.head?_append, ih]

theorem IsCut.replace {r r' : Region} (h : IsCut (ps ++ .region r :: qs)) (hr : r'.IsWhole) :
    IsCut (ps ++ .region r' :: qs) := by
  -- Literal text before the region looks at what follows, but at the brace that opens a region at
  -- most.
  induction ps with
  | nil =>
    cases h with
    | region _ hqs => exact .region hr hqs
  | cons p ps ih =>
    rw [List.cons_append] at h
    generalize hrest : ps ++ .region r :: qs = rest at h
    cases h with
    | unclosed => exact absurd hrest (List.append_ne_nil_of_right_ne_nil ps (List.cons_ne_nil _ qs))
    | region hp hps =>
      subst hrest
      exact .region hp (ih hps)
    | literal hne hopen hrun hps =>
      subst hrest
      refine .literal hne (fun ds hds hds' => ?_) ?_ (ih hps)
      · exact opener?_append_congr hds' (head?_sources r r' ps qs) (hopen ds hds hds')
      · rintro ⟨cs, rest, heq⟩
        cases ps with
        | nil => cases heq
        | cons q ps =>
          cases heq
          exact hrun ⟨cs, _, rfl⟩

theorem IsCut.isWhole {r : Region} (h : IsCut ps) (hr : .region r ∈ ps) : r.IsWhole := by
  induction h with
  | nil => cases hr
  | literal _ _ _ _ ih =>
    cases hr with
    | tail _ hr => exact ih hr
  | region hp _ ih =>
    cases hr with
    | head => exact hp
    | tail _ hr => exact ih hr
  | unclosed =>
    cases hr with
    | tail _ hr => cases hr

end Narrative
