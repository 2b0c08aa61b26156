import Narrative.Proofs.Template.Cut
import Narrative.Proofs.Template.Step
import Narrative.Proofs.Trim

/-! Texts one after the other. If the first leaves nothing open, the second is parsed as it is
alone: the nodes of both are those of the one and then those of the other, but for a text that goes
on. -/

namespace Narrative

/-- `cs` is `as` and then `bs`, but that a text at the end of `as` may go on in `bs`. -/
def Joined {α : Type} (text : List Char → α) (as bs cs : List α) : Prop :=
  cs = as ++ bs ∨ ∃ front s t back,
    as = front ++ [text s] ∧ bs = text t :: back ∧ cs = front ++ text (s ++ t) :: back

theorem Joined.append_left {α : Type} {text : List Char → α} {as bs cs : List α}
    (h : Joined text as bs cs) (front : List α) : Joined text (front ++ as) bs (front ++ cs) := by
  rcases h with rfl | ⟨front', s, t, back, rfl, rfl, rfl⟩
  · exact .inl (List.append_assoc _ _ _).symm
  · exact .inr ⟨front ++ front', s, t, back, (List.append_assoc _ _ _).symm, rfl,
      (List.append_assoc _ _ _).symm⟩

def Piece.isClosed : Piece → Bool
  | .unclosed _ _ _ => false
  | _ => true

section Cut

variable {cs ds : List Char} {ps qs us : List Piece}

theorem opener?_append (h : opener? cs = none) (hne : cs ≠ []) (hlast : cs.getLast? ≠ some '\x7b')
    (ds : List Char) : opener? (cs ++ ds) = none := by
  obtain ⟨c, cs, rfl⟩ := List.exists_cons_of_ne_nil hne
  by_cases hc : c = '\x7b'
  · subst hc
    cases cs with
    | nil => exact absurd rfl hlast
    | cons d cs => simpa [opener?] using h
  · exact opener?_cons_of_ne hc

theorem Joined.not_startsLiteral (h : Joined Piece.literal ps qs us) (hne : ps ≠ [])
    (hps : ¬ StartsLiteral ps) : ¬ StartsLiteral us := by
  rintro ⟨cs, rest, rfl⟩
  obtain ⟨p, ps, rfl⟩ := List.exists_cons_of_ne_nil hne
  rcases h with heq | ⟨_ | ⟨q, front⟩, s, t, back, hfront, -, heq⟩
  · obtain ⟨rfl, -⟩ := List.cons.inj heq
    exact hps ⟨cs, ps, rfl⟩
  · exact hps ⟨s, [], hfront⟩
  · obtain ⟨rfl, -⟩ := List.cons.inj heq
    exact hps ⟨cs, _, hfront⟩

/-- Cuts are put together at the seam: if nothing is left open in the first, no region reaches over
it. -/
theorem IsCut.joined (hps : IsCut ps) (hclosed : ∀ p ∈ ps, p.isClosed) (hqs : IsCut qs)
    (hlast : (sources ps).getLast? ≠ some '\x7b') :
    ∃ us, Joined Piece.literal ps qs us ∧ IsCut us ∧ sources us = sources ps ++ sources qs := by
  induction hps with
  | nil => exact ⟨qs, .inl rfl, hqs, rfl⟩
  | @region r ps hr _ ih =>
    have hlast' : (sources ps).getLast? ≠ some '\x7b' := by
      intro h
      refine hlast ?_
      change (r.source ++ sources ps).getLast? = _
      rw [List.getLast?_append, h, Option.some_or]
    obtain ⟨us, hus, hcut, hsources⟩ := ih (fun p hp => hclosed p (.tail _ hp)) hlast'
    refine ⟨.region r :: us, hus.append_left [.region r], .region hr hcut, ?_⟩
    change r.source ++ sources us = r.source ++ sources ps ++ sources qs
    rw [hsources, List.append_assoc]
  | unclosed => exact absurd (hclosed _ List.mem_cons_self) Bool.false_ne_true
  | @literal cs ps hne hopen hrun hps ih =>
    have hopen' : ∀ ds, ds <:+ cs → ds ≠ [] →
        opener? (ds ++ (sources ps ++ sources qs)) = none := by
      intro ds hds hne'
      have hsuffix : ds ++ sources ps <:+ cs ++ sources ps := by
        obtain ⟨front, rfl⟩ := hds
        exact ⟨front, (List.append_assoc _ _ _).symm⟩
      have hne'' : ds ++ sources ps ≠ [] := List.append_ne_nil_of_left_ne_nil hne' _
      rw [← List.append_assoc]
      exact opener?_append (hopen ds hds hne') hne'' (getLast?_suffix hsuffix hne'' ▸ hlast) _
    cases ps with
    | nil =>
      -- The seam: two literal runs that meet become one, anything else stays side by side.
      by_cases hstart : StartsLiteral qs
      · obtain ⟨ds, rest, rfl⟩ := hstart
        cases hqs with
        | literal hne' hopen'' hrun' hrest =>
          refine ⟨.literal (cs ++ ds) :: rest, .inr ⟨[], cs, ds, rest, rfl, rfl, rfl⟩, ?_, ?_⟩
          · refine .literal (List.append_ne_nil_of_left_ne_nil hne _)
              (fun es hes hne'' => ?_) hrun' hrest
            obtain ⟨front, heq⟩ := hes
            rcases List.append_eq_append_iff.mp heq with ⟨es', rfl, rfl⟩ | ⟨es', rfl, hds⟩
            · by_cases hes : es' = []
              · subst hes
                exact hopen'' ds List.suffix_rfl (by simpa using hne'')
              · rw [List.append_assoc]
                exact hopen' es' (List.suffix_append _ _) hes
            · exact hopen'' es (hds ▸ List.suffix_append _ _) hne''
          · simp [sources, Piece.source]
      · exact ⟨.literal cs :: qs, .inl rfl, .literal hne hopen' hstart hqs, by simp [sources]⟩
    | cons p ps =>
      have hlast' : (sources (p :: ps)).getLast? ≠ some '\x7b' := by
        intro h
        refine hlast ?_
        change (cs ++ sources (p :: ps)).getLast? = _
        rw [List.getLast?_append, h, Option.some_or]
      obtain ⟨us, hus, hcut, hsources⟩ := ih (fun p hp => hclosed p (.tail _ hp)) hlast'
      have hstart : ¬ StartsLiteral us := hus.not_startsLiteral (List.cons_ne_nil p ps) hrun
      refine ⟨.literal cs :: us, hus.append_left [.literal cs], .literal hne ?_ hstart hcut, ?_⟩
      · rwa [hsources]
      · change cs ++ sources us = cs ++ sources (p :: ps) ++ sources qs
        rw [hsources, List.append_assoc]

theorem cut_append (hclosed : ∀ p ∈ cut cs, p.isClosed) (hlast : cs.getLast? ≠ some '\x7b')
    (ds : List Char) : Joined Piece.literal (cut cs) (cut ds) (cut (cs ++ ds)) := by
  have hlast' : (sources (cut cs)).getLast? ≠ some '\x7b' := by rwa [sources_cut]
  obtain ⟨us, hus, hcut, hsources⟩ := (isCut_cut cs).joined hclosed (isCut_cut ds) hlast'
  rw [sources_cut, sources_cut] at hsources
  rwa [← hsources, cut_sources hcut]

end Cut

/-- Whether a text ends with a region that trims what follows it, blanks behind the region aside. -/
def endsTrimming (cs : List Char) : Bool :=
  match (cut cs).reverse with
  | .region r :: _ => r.trimAfter
  | .literal ws :: .region r :: _ => ws.all isBlank && r.trimAfter
  | _ => false

/-- Whether a text starts with a region that trims what precedes it, blanks before the region
aside. -/
def startsTrimming (cs : List Char) : Bool :=
  (opener? (trimStart cs)).any fun (_, inner) => Region.dashed inner

namespace Segment

variable {cs ds : List Char} {ps qs : List Piece} {trimmed : Bool}

/-- Whether the text after some pieces is trimmed at its start; `trimmed` says so of the pieces. -/
def trimsNext (trimmed : Bool) : List Piece → Bool
  | [] => trimmed
  | .region r :: ps => trimsNext r.trimAfter ps
  | _ :: ps => trimsNext false ps

theorem ofPieces_append (hqs : trimsBefore qs = false) (trimmed : Bool) (ps : List Piece) :
    ofPieces trimmed (ps ++ qs) = ofPieces trimmed ps ++ ofPieces (trimsNext trimmed ps) qs := by
  induction ps generalizing trimmed with
  | nil => rfl
  | cons p ps ih =>
    cases p with
    | literal cs =>
      have hps : trimsBefore (ps ++ qs) = trimsBefore ps := by
        cases ps with
        | nil => exact hqs
        | cons p ps => cases p <;> rfl
      simp only [List.cons_append, ofPieces, trimsNext, hps, ih, List.append_assoc]
    | region r => simp only [List.cons_append, ofPieces, trimsNext, ih, List.append_assoc]
    | unclosed => simp only [List.cons_append, ofPieces, trimsNext, ih]

theorem trimsNext_eq_true (h : trimsNext trimmed ps = true) :
    (ps = [] ∧ trimmed = true) ∨ ∃ front r, ps = front ++ [.region r] ∧ r.trimAfter = true := by
  induction ps generalizing trimmed with
  | nil => exact .inl ⟨rfl, h⟩
  | cons p ps ih =>
    right
    cases p with
    | region r =>
      rcases ih h with ⟨rfl, hr⟩ | ⟨front, r', rfl, hr⟩
      · exact ⟨[], r, rfl, hr⟩
      · exact ⟨.region r :: front, r', rfl, hr⟩
    | literal _ | unclosed _ _ _ =>
      rcases ih h with ⟨-, hfalse⟩ | ⟨front, r, rfl, hr⟩
      · cases hfalse
      · exact ⟨_ :: front, r, rfl, hr⟩

theorem sources_of_trimsBefore (hps : IsCut ps) (h : trimsBefore ps = true) :
    ∃ (kind : RegionKind) (rest : List Char), sources ps = '\x7b' :: kind.opening ::
      '-' :: rest := by
  cases hps with
  | nil => cases h
  | literal => cases h
  | @region r ps =>
    have hr : r.trimBefore = true := h
    exact ⟨r.kind, r.body ++ (Region.dash r.trimAfter ++ r.kind.closing :: '\x7d' :: sources ps),
      by simp [sources, Piece.source, Region.source, Region.dash, hr]⟩
  | @unclosed kind inner =>
    have hd : Region.dashed inner = true := h
    cases inner with
    | nil => cases hd
    | cons d inner =>
      obtain rfl : d = '-' := by simpa [Region.dashed] using hd
      exact ⟨kind, inner, by simp [sources, Piece.source]⟩

theorem trimsBefore_of_startsTrimming (hds : startsTrimming ds = false) {ws : List Char}
    (hws : ∀ c ∈ ws, isBlank c = true) (hps : IsCut ps) (heq : ds = ws ++ sources ps) :
    trimsBefore ps = false := by
  refine Bool.eq_false_iff.mpr fun h => ?_
  obtain ⟨kind, rest, hsources⟩ := sources_of_trimsBefore hps h
  have htrim : trimStart ds = '\x7b' :: kind.opening :: '-' :: rest := by
    rw [heq, trimStart_blanks hws, hsources]
    exact List.dropWhile_cons_of_neg (by decide)
  rw [startsTrimming, htrim, opener?_opening] at hds
  cases hds

theorem joined_ofLiteral (s t : List Char) (rest : List Segment) :
    Joined Segment.text (ofLiteral s) (ofLiteral t ++ rest) (ofLiteral (s ++ t) ++ rest) := by
  cases s with
  | nil => exact .inl rfl
  | cons c s =>
    cases t with
    | nil => exact .inl (by simp [ofLiteral])
    | cons d t => exact .inr ⟨[], c :: s, d :: t, rest, rfl, rfl, rfl⟩

/-- A literal run that is cut in two is trimmed on each side as the parts are. -/
theorem joined_ofPieces {s t : List Char} (hs : trimmed = true → ∃ c ∈ s, isBlank c = false)
    (ht : trimsBefore ps = true → ∃ c ∈ t, isBlank c = false) :
    Joined Segment.text (ofPieces trimmed [.literal s]) (ofPieces false (.literal t :: ps))
      (ofPieces trimmed (.literal (s ++ t) :: ps)) := by
  have hfront : (if trimmed then trimStart (s ++ t) else s ++ t)
      = (if trimmed then trimStart s else s) ++ t := by
    cases trimmed with
    | false => rfl
    | true => exact trimStart_append (hs rfl) t
  have hback (u : List Char) : (if trimsBefore ps then trimEnd (u ++ t) else u ++ t)
      = u ++ if trimsBefore ps then trimEnd t else t := by
    cases h : trimsBefore ps with
    | false => rfl
    | true => exact trimEnd_append u (ht h)
  have halone : ofPieces trimmed [.literal s] = ofLiteral (if trimmed then trimStart s else s) :=
    List.append_nil _
  rw [halone, ofPieces, ofPieces, hfront, hback]
  exact joined_ofLiteral _ _ _

/-- Texts are scanned one after the other as they are alone, if the first is closed and does not end
in half an opener, and neither trims at the seam. -/
theorem scan_append (hclosed : ∀ p ∈ cut cs, p.isClosed) (hlast : cs.getLast? ≠ some '\x7b')
    (hcs : endsTrimming cs = false) (hds : startsTrimming ds = false) :
    Joined Segment.text (scan cs) (scan ds) (scan (cs ++ ds)) := by
  have hcut := isCut_cut ds
  have hsources := sources_cut ds
  rw [scan, scan, scan]
  rcases cut_append hclosed hlast ds with hjoin | ⟨front, s, t, back, hfront, hback, hjoin⟩
  -- Either the pieces stand side by side, and no trim mark acts from one to the other, or a run
  -- goes over the seam.
  · have hafter : trimsNext false (cut cs) = false := by
      refine Bool.eq_false_iff.mpr fun h => ?_
      rcases trimsNext_eq_true h with ⟨-, hfalse⟩ | ⟨front, r, hfront, hr⟩
      · cases hfalse
      · simp [endsTrimming, hfront, hr] at hcs
    have hbefore : trimsBefore (cut ds) = false :=
      trimsBefore_of_startsTrimming hds (List.forall_mem_nil _) hcut hsources.symm
    rw [hjoin, ofPieces_append hbefore, hafter]
    exact .inl rfl
  · rw [hback] at hcut hsources
    rw [hjoin, hfront, hback, ofPieces_append rfl, ofPieces_append rfl]
    refine Joined.append_left (joined_ofPieces (fun hx => exists_not_blank fun hs => ?_)
      (fun hx => exists_not_blank fun ht => ?_)) _
    · rcases trimsNext_eq_true hx with ⟨-, hfalse⟩ | ⟨front', r, rfl, hr⟩
      · cases hfalse
      · simp only [endsTrimming, hfront, List.reverse_append, List.reverse_singleton,
          List.singleton_append, List.all_eq_true.mpr hs, hr, Bool.and_self,
          Bool.true_eq_false] at hcs
    · cases hcut with
      | literal hne hopen hrun hcut =>
        have hnot := trimsBefore_of_startsTrimming hds ht hcut hsources.symm
        rw [hnot] at hx
        cases hx

theorem closed_or_unclosed (hps : IsCut ps) :
    (∀ p ∈ ps, p.isClosed) ∨ ∀ trimmed, ∃ ss kind source,
      ofPieces trimmed ps = ss ++ [.error (.unclosedRegion kind source)] := by
  induction hps with
  | nil => exact .inl (List.forall_mem_nil _)
  | unclosed => exact .inr fun trimmed => ⟨[], _, _, rfl⟩
  | @literal cs ps _ _ _ _ ih =>
    refine ih.imp (fun h => List.forall_mem_cons.mpr ⟨rfl, h⟩) fun h trimmed => ?_
    obtain ⟨ss, kind, source, hps⟩ := h false
    exact ⟨_ ++ ss, kind, source, by rw [ofPieces, hps, List.append_assoc]⟩
  | @region r ps _ _ ih =>
    refine ih.imp (fun h => List.forall_mem_cons.mpr ⟨rfl, h⟩) fun h trimmed => ?_
    obtain ⟨ss, kind, source, hps⟩ := h r.trimAfter
    exact ⟨_ ++ ss, kind, source, by rw [ofPieces, hps, List.append_assoc]⟩

end Segment

def TemplateError.isUnclosed : TemplateError → Bool
  | .unclosedRegion _ _ | .unclosedIf | .unclosedFor => true
  | _ => false

namespace Template

variable {ss : List Segment} {a b : String}

theorem mem_errors {e : TemplateError} {ns : List Node} (h : Node.error e ∈ ns) :
    e ∈ errors ns := by
  induction ns with
  | nil => cases h
  | cons n ns ih =>
    rw [errors, List.mem_append]
    rcases List.mem_cons.mp h with rfl | h
    · exact .inl (by rw [nodeErrors]; exact List.mem_singleton_self e)
    · exact .inr (ih h)

theorem frames_of_closed (hclosed : ∀ e ∈ errors (ofSegments ss), e.isUnclosed = false) :
    (ss.foldl Builder.step Builder.start).frames = [] := by
  refine List.getLast?_eq_none_iff.mp (Option.eq_none_iff_forall_ne_some.mpr fun f hf => ?_)
  have hmem : Node.error (Builder.unclosed f.opener) ∈ ofSegments ss := by
    simp [ofSegments, Builder.finish, hf]
  have hopen : (Builder.unclosed f.opener).isUnclosed = true := by
    cases f.opener <;> rfl
  exact Bool.false_ne_true ((hclosed _ (mem_errors hmem)).symm.trans hopen)

theorem cut_closed (hclosed : ∀ e ∈ errors (parse a), e.isUnclosed = false) :
    ∀ p ∈ cut a.toList, p.isClosed := by
  refine (Segment.closed_or_unclosed (isCut_cut a.toList)).resolve_right fun h => ?_
  obtain ⟨ss, kind, source, hscan⟩ := h false
  have hframes := frames_of_closed hclosed
  have hmem : Node.error (.unclosedRegion kind source) ∈ parse a := by
    rw [Segment.scan, hscan, List.foldl_append] at hframes
    change (ss.foldl Builder.step Builder.start).frames = [] at hframes
    simp [parse, ofSegments, Segment.scan, hscan, Builder.finish, Builder.step, Builder.push,
      hframes]
  exact Bool.false_ne_true (hclosed _ (mem_errors hmem)).symm

/-- Texts are parsed one after the other as they are alone, if nothing in the first is left open and
nothing is trimmed at the seam. -/
theorem parse_append (hclosed : ∀ e ∈ errors (parse a), e.isUnclosed = false)
    (hlast : a.toList.getLast? ≠ some '\x7b') (ha : endsTrimming a.toList = false)
    (hb : startsTrimming b.toList = false) :
    Joined (fun cs => Node.text (String.ofList cs)) (parse a) (parse b) (parse (a ++ b)) := by
  have hframes := frames_of_closed hclosed
  have hscan := Segment.scan_append (cut_closed hclosed) hlast ha hb
  simp only [parse, String.toList_append]
  rcases hscan with hscan | ⟨front, s, t, back, hfront, hback, hscan⟩
  · cases hfold : (Segment.scan a.toList).foldl Builder.step Builder.start with
    | mk frames nodes =>
    obtain rfl : frames = [] := by rwa [hfold] at hframes
    have ha : ofSegments (Segment.scan a.toList) = nodes.reverse := by
      rw [ofSegments, hfold]
      rfl
    left
    rw [hscan, ha, ofSegments, List.foldl_append, hfold, finish_foldl]
  · cases hfold : front.foldl Builder.step Builder.start with
    | mk frames nodes =>
    have hstep (cs : List Char) : (front ++ [Segment.text cs]).foldl Builder.step Builder.start
        = ⟨frames, .text (String.ofList cs) :: nodes⟩ := by
      rw [List.foldl_append, hfold]
      rfl
    obtain rfl : frames = [] := by rwa [hfront, hstep] at hframes
    have htext (cs : List Char) (ss : List Segment) : ofSegments (front ++ .text cs :: ss)
        = nodes.reverse ++ .text (String.ofList cs) :: ofSegments ss := by
      rw [List.append_cons, ofSegments, List.foldl_append, hstep, finish_foldl]
      simp
    have hback' : ofSegments (.text t :: back) = .text (String.ofList t) :: ofSegments back :=
      finish_foldl [.text (String.ofList t)] back
    refine .inr ⟨nodes.reverse, s, t, ofSegments back, ?_, ?_, ?_⟩
    · rw [hfront, htext]
      rfl
    · rw [hback, hback']
    · rw [hscan, htext]

end Template

end Narrative
