import Narrative.Proofs.Expr.Blanks
import Narrative.Proofs.Template.WellFormed

/-! Tags with other blanks. The keyword of a tag and the two sides of a pair are told apart by any
blank, and a region with other blanks outside its quotations is closed where it was. The one mark
that is written with blanks of its own is that of a loop header, and it is found again if its blanks
are spaces as they were. -/

namespace Narrative

open Shorthand (Quotation)

namespace Reblanked

variable {q : Quotation} {cs ds : List Char}

theorem all_isBlank (h : Reblanked q cs ds) (hcs : ∀ c ∈ cs, isBlank c = true) :
    ∀ d ∈ ds, isBlank d = true := by
  have hmap : ∀ b ∈ ds.map isBlank, b = true := h.map_isBlank ▸ by simpa using hcs
  simpa using hmap

theorem head?_isBlank (h : Reblanked q cs ds) : cs.head?.all isBlank = ds.head?.all isBlank := by
  cases h with
  | nil | keep => rfl
  | blank hc hd => exact hc.trans hd.symm

theorem getLast?_isBlank (h : Reblanked q cs ds) :
    cs.getLast?.map isBlank = ds.getLast?.map isBlank := by
  rw [← List.getLast?_map, h.map_isBlank, List.getLast?_map]

theorem getLast?_eq_some_iff {c : Char} (h : Reblanked q cs ds) (hc : isBlank c = false) :
    cs.getLast? = some c ↔ ds.getLast? = some c := by
  have hlast {q : Quotation} {cs ds : List Char} (h : Reblanked q cs ds)
    (hcs : cs.getLast? = some c) : ds.getLast? = some c := by
    obtain ⟨front, rfl⟩ := List.getLast?_eq_some_iff.mp hcs
    obtain ⟨front', _, rfl, -, hend⟩ := h.of_append
    obtain ⟨rest, rfl, hnil⟩ := hend.cons_of_not_blank hc
    obtain rfl := List.length_eq_zero_iff.mp hnil.length_eq.symm
    exact List.getLast?_concat
  exact ⟨hlast h, hlast h.symm⟩

theorem trimsStart (h : Reblanked .outside cs ds) :
    Reblanked .outside (trimStart cs) (trimStart ds) := by
  induction cs generalizing ds with
  | nil =>
    cases h
    exact .nil _
  | cons c cs ih =>
    cases hc : isBlank c with
    | true =>
      obtain ⟨d, ds, rfl, hd, htail⟩ := h.cons_of_blank hc
      have hcs : trimStart (c :: cs) = trimStart cs :=
        trimStart_blanks (s := [c]) (by simpa using hc) cs
      have hds : trimStart (d :: ds) = trimStart ds :=
        trimStart_blanks (s := [d]) (by simpa using hd) ds
      rw [hcs, hds]
      exact ih htail
    | false =>
      obtain ⟨ds, rfl, _⟩ := h.cons_of_not_blank hc
      rwa [trimStart_cons hc, trimStart_cons hc]

theorem trimsEnd (h : Reblanked q cs ds) : Reblanked q (trimEnd cs) (trimEnd ds) := by
  obtain ⟨ws, hws, hcs⟩ := exists_trimEnd_append cs
  rw [hcs] at h
  obtain ⟨bs, ws', rfl, hbs, hblanks⟩ := h.of_append
  have hlast : ∀ b, bs.getLast? = some b → isBlank b = false := by
    intro b hb
    have hmap := hbs.getLast?_isBlank
    rw [hb] at hmap
    obtain ⟨c, hc, hcb⟩ := Option.map_eq_some_iff.mp hmap
    rw [← hcb]
    rw [trimEnd_eq, List.getLast?_reverse] at hc
    exact head?_trimStart hc
  rwa [trimEnd_blanks (hblanks.all_isBlank hws), trimEnd_of_last hlast]

theorem trims (h : Reblanked .outside cs ds) : Reblanked .outside (trim cs) (trim ds) :=
  h.trimsStart.trimsEnd

theorem trim_eq_nil_iff (h : Reblanked .outside cs ds) : trim cs = [] ↔ trim ds = [] := by
  rw [← List.length_eq_zero_iff, h.trims.length_eq, List.length_eq_zero_iff]

theorem loop_mark (h : Reblanked .outside [' ', 'i', 'n', ' '] cs) :
    ∃ b b', isBlank b = true ∧ cs = [b, 'i', 'n', b'] := by
  obtain ⟨b, _, rfl, hb, hletters⟩ := h.cons_of_blank (by decide)
  obtain ⟨_, rfl, hletter⟩ := hletters.cons_of_not_blank (by decide)
  obtain ⟨_, rfl, hend⟩ := hletter.cons_of_not_blank (by decide)
  obtain ⟨b', _, rfl, -, hnil⟩ := hend.cons_of_blank (by decide)
  cases hnil
  exact ⟨b, b', hb, rfl⟩

end Reblanked

def markPlace? (header : List Char) : Option Nat :=
  (splitOnce [' ', 'i', 'n', ' '] header).map fun parts => parts.1.length

def loopMark? (content : List Char) : Option Nat :=
  if (Builder.keyword content).1 = "for"
    then markPlace? (Builder.keyword content).2.toList else none

/-- The second segment is the first one, or both are tags that differ in blanks outside quotations,
and the mark of a loop header is found in the same place. -/
inductive Segment.Respaced : Segment → Segment → Prop
  | same (s : Segment) : Respaced s s
  | tag {content content' : List Char} (h : Reblanked .outside content content')
      (hmark : loopMark? content' = loopMark? content) : Respaced (.tag content) (.tag content')

def IsTagWord (k : String) : Prop :=
  k.toList.all (fun c => !isBlank c && !isQuote c) = true

theorem IsTagWord.plain {k : String} (h : IsTagWord k) :
    ∀ c ∈ k.toList, isBlank c = false ∧ isQuote c = false := by
  simpa [IsTagWord] using h

theorem Reblanked.keyword_eq {content content' : List Char}
    (h : Reblanked .outside content content') :
    (Builder.keyword content').1 = (Builder.keyword content).1 :=
  congrArg String.ofList (h.runs (p := (!isBlank ·)) (by simp)).1.symm

theorem loopMark?_of_ne {content : List Char} (h : (Builder.keyword content).1 ≠ "for") :
    loopMark? content = none :=
  if_neg h

namespace Segment

variable {s s' : Segment} {content content' : List Char} {k rest : String}

/-- A tag with other blanks has the keyword that it had, and behind it what it had with other
blanks. -/
theorem IsTag.reblanked (hs : (Segment.tag content).IsTag k rest)
    (h : Reblanked .outside content content') (hk : IsTagWord k) :
    ∃ rest', (Segment.tag content').IsTag k rest' ∧
      Reblanked .outside rest.toList rest'.toList := by
  obtain ⟨tail, heq, htail, rfl⟩ := hs
  obtain rfl := Segment.tag.inj heq
  obtain ⟨bs, tail', rfl, hbs, hrest⟩ := h.of_append
  obtain rfl := hbs.eq_of_not_blank fun c hc => (hk.plain c hc).1
  rw [Quotation.run_outside_of_plain fun c hc => (hk.plain c hc).2] at hrest
  refine ⟨String.ofList (trim tail'), ⟨tail', rfl, hrest.head?_isBlank ▸ htail, rfl⟩, ?_⟩
  rw [String.toList_ofList, String.toList_ofList]
  exact hrest.trims

theorem IsTag.loopMark? (hs : (Segment.tag content).IsTag "for" rest) :
    loopMark? content = markPlace? rest.toList := by
  rw [Narrative.loopMark?, hs.keyword rfl, if_pos rfl]

theorem IsTag.respaced (hs : s.IsTag k rest) (h : s.Respaced s') (hk : IsTagWord k) :
    ∃ rest', s'.IsTag k rest' ∧ Reblanked .outside rest.toList rest'.toList ∧
      (k = "for" → markPlace? rest'.toList = markPlace? rest.toList) := by
  cases h with
  | same => exact ⟨rest, hs, .refl _ _, fun _ => rfl⟩
  | tag h hmark =>
    obtain ⟨rest', hs', hrest⟩ := hs.reblanked h hk
    refine ⟨rest', hs', hrest, fun hfor => ?_⟩
    subst hfor
    rwa [hs.loopMark?, hs'.loopMark?] at hmark

end Segment

section Pair

variable {mark as as' bs bs' gap gap' : List Char} {header header' x x' e e' : String}

theorem word_gap_inj (h : as ++ (gap ++ bs) = as' ++ (gap' ++ bs'))
    (has : ∀ c ∈ as, isBlank c = false) (has' : ∀ c ∈ as', isBlank c = false)
    (hgap : ∀ c ∈ gap, isBlank c = true) (hgap' : ∀ c ∈ gap', isBlank c = true) (hne : gap ≠ [])
    (hne' : gap' ≠ []) (hbs : bs.head?.any isBlank = false) (hbs' : bs'.head?.any isBlank = false) :
    as = as' ∧ gap = gap' ∧ bs = bs' := by
  have hword {as gap bs : List Char} (has : ∀ c ∈ as, isBlank c = false)
    (hgap : ∀ c ∈ gap, isBlank c = true)
      (hne : gap ≠ []) : (as ++ (gap ++ bs)).takeWhile (!isBlank ·) = as := by
    obtain ⟨c, gap, rfl⟩ := List.exists_cons_of_ne_nil hne
    exact takeWhile_append_cons (by simpa using has) (by simpa using hgap c List.mem_cons_self)
  have hblanks {gap bs : List Char} (hgap : ∀ c ∈ gap, isBlank c = true)
    (hbs : bs.head?.any isBlank = false) : (gap ++ bs).takeWhile isBlank = gap :=
    takeWhile_append_all hgap fun b hb => by simpa [hb] using hbs
  have ha : as = as' := by rw [← hword has hgap hne, h, hword has' hgap' hne']
  subst ha
  have hrest := List.append_cancel_left h
  have hg : gap = gap' := by rw [← hblanks hgap hbs, hrest, hblanks hgap' hbs']
  subst hg
  exact ⟨rfl, rfl, List.append_cancel_left hrest⟩

theorem IsPair.respaced (hpair : IsPair mark header x e) (hmark : ∀ c ∈ mark, isQuote c = false)
    (h : Reblanked .outside header.toList header'.toList) :
    ∃ gap gap' mark' right right', header.toList = x.toList ++ (gap ++ (mark ++ right)) ∧
      header'.toList = x.toList ++ (gap' ++ (mark' ++ right')) ∧ Reblanked .outside mark mark' ∧
      gap.length = gap'.length ∧ (∀ c ∈ gap, isBlank c = true) ∧ (∀ c ∈ gap', isBlank c = true) ∧
      trim right' ≠ [] ∧ Reblanked .outside e.toList (trim right') := by
  obtain ⟨hx, gap, right, hheader, hgap, hright, rfl⟩ := hpair
  have hword := IsWord.of_isName hx
  rw [hheader] at h
  obtain ⟨xs, rest, hsplit, hxs, hrest⟩ := h.of_append
  obtain rfl := hxs.eq_of_not_blank hword.not_blank
  rw [Quotation.run_outside_of_plain
    fun c hc => isQuote_of_continuesName (hword.names c hc)] at hrest
  obtain ⟨gap', rest', rfl, hgap', hrest⟩ := hrest.of_append
  rw [Quotation.run_outside_of_plain fun c hc => isQuote_of_isBlank (hgap c hc)] at hrest
  obtain ⟨mark', right', rfl, hmark', hrest⟩ := hrest.of_append
  rw [Quotation.run_outside_of_plain hmark] at hrest
  refine ⟨gap, gap', mark', right, right', hheader, hsplit, hmark', hgap'.length_eq, hgap,
    hgap'.all_isBlank hgap, mt hrest.trim_eq_nil_iff.mpr hright, ?_⟩
  rw [String.toList_ofList]
  exact hrest.trims

theorem IsPair.respaced_assign (hpair : IsPair ['='] header x e) (he : e.toList.head? ≠ some '=')
    (h : Reblanked .outside header.toList header'.toList) :
    ∃ e', IsPair ['='] header' x e' ∧ e'.toList.head? ≠ some '=' ∧
      Reblanked .outside e.toList e'.toList := by
  obtain ⟨gap, gap', mark', right, right', -, hheader', hmark, -, -, hgap', hright', hrest⟩ :=
    hpair.respaced (by simp [isQuote]) h
  obtain rfl := hmark.eq_of_not_blank (List.forall_mem_singleton.mpr (by decide))
  refine ⟨String.ofList (trim right'), ⟨hpair.1, gap', right', hheader', hgap', hright', rfl⟩, ?_,
    ?_⟩
  · rw [String.toList_ofList]
    exact mt (hrest.head?_eq_some_iff (by decide)).mpr he
  · rwa [String.toList_ofList]

theorem markPlace?_of_gap {right : List Char} (hx : isName x = true)
    (hheader : header.toList = x.toList ++ (gap ++ ([' ', 'i', 'n', ' '] ++ right)))
    (hgap : ∀ c ∈ gap, isBlank c = true) :
      markPlace? header.toList = some (x.toList.length + gap.length) := by
  have hblank : ' ' ∉ x.toList :=
    fun hm => absurd ((IsWord.of_isName hx).not_blank ' ' hm) (by decide)
  rw [markPlace?, hheader, splitOnce_in hblank hgap, Option.map_some, List.length_append]

/-- With other blanks a loop header is one if and only if its mark is found in the same place, and
then the same name stands before it. -/
theorem IsPair.respaced_loop (hpair : IsPair [' ', 'i', 'n', ' '] header x e)
    (h : Reblanked .outside header.toList header'.toList) :
    ((∃ x' e', IsPair [' ', 'i', 'n', ' '] header' x' e') ↔
      markPlace? header'.toList = markPlace? header.toList) ∧
      (markPlace? header'.toList = markPlace? header.toList →
        ∃ e', IsPair [' ', 'i', 'n', ' '] header' x e' ∧
          Reblanked .outside e.toList e'.toList) := by
  obtain ⟨gap, gap', mark', right, right', hheader, hheader', hmark, hlength, hgap, hgap',
      hright', hrest⟩ :=
    hpair.respaced (by simp [isQuote]) h
  have hplace := markPlace?_of_gap hpair.1 hheader hgap
  have hkept (hm : mark' = [' ', 'i', 'n', ' ']) :
      IsPair [' ', 'i', 'n', ' '] header' x (String.ofList (trim right')) :=
    ⟨hpair.1, gap', right', hm ▸ hheader', hgap', hright', rfl⟩
  have hmark_of_place (hp : markPlace? header'.toList = markPlace? header.toList) :
      mark' = [' ', 'i', 'n', ' '] := by
    rw [hplace, markPlace?] at hp
    obtain ⟨⟨left, right⟩, hsplit, hleft⟩ := Option.map_eq_some_iff.mp hp
    have hparts := append_of_splitOnce hsplit
    rw [hheader', ← List.append_assoc] at hparts
    obtain ⟨-, hparts⟩ := List.append_inj hparts (by rw [List.length_append, ← hlength, ← hleft])
    exact (List.append_inj hparts hmark.length_eq.symm).1
  refine ⟨⟨?_, fun hp => ⟨_, _, hkept (hmark_of_place hp)⟩⟩,
    fun hp => ⟨_, hkept (hmark_of_place hp), ?_⟩⟩
  · rintro ⟨x', e', hx', gap₂, right₂, hheader₂, hgap₂, -, -⟩
    obtain ⟨b, b', hb, rfl⟩ := hmark.loop_mark
    -- The blank that the mark begins with is the last one before its letters, on both sides.
    have hsame : x.toList ++ ((gap' ++ [b]) ++ 'i' :: 'n' :: b' :: right')
        = x'.toList ++ ((gap₂ ++ [' ']) ++ 'i' :: 'n' :: ' ' :: right₂) := by
      simpa using hheader'.symm.trans hheader₂
    have hspace : isBlank ' ' = true := by decide
    obtain ⟨-, hgaps, hletters⟩ := word_gap_inj hsame (IsWord.of_isName hpair.1).not_blank
      (IsWord.of_isName hx').not_blank (List.forall_mem_append.mpr ⟨hgap', by simpa using hb⟩)
      (List.forall_mem_append.mpr ⟨hgap₂, by simpa using hspace⟩) (by simp) (by simp) rfl rfl
    obtain rfl : b = ' ' := by simpa using (List.append_inj' hgaps rfl).2
    obtain rfl : b' = ' ' := by simpa using And.left (by simpa using hletters)
    rw [hplace, markPlace?_of_gap hpair.1 hheader' hgap', hlength]
  · rwa [String.toList_ofList]

end Pair

namespace Region

variable {r : Region} {body : List Char}

theorem IsWhole.respaced (h : r.IsWhole) (hkind : r.kind ≠ .comment)
    (hbody : Reblanked .outside r.body body) : ({ r with body } : Region).IsWhole := by
  have hstands := (isWhole_iff r []).mp h
  have hcontent : Reblanked .outside r.content ({ r with body } : Region).content :=
    hbody.append (.refl _ _)
  refine (isWhole_iff _ []).mpr ⟨fun hb hhead => ?_, fun ha hlast => ?_, rfl, ?_, ?_⟩
  · exact hstands.before hb ((hcontent.head?_eq_some_iff (by decide)).mpr hhead)
  · exact hstands.after ha ((hbody.getLast?_eq_some_iff (by decide)).mpr hlast)
  · rw [RegionKind.quotation, if_neg hkind, ← hcontent.run_eq]
    have houtside := hstands.closed.outside
    rwa [RegionKind.quotation, if_neg hkind] at houtside
  · -- Where a marker would close the region now, one closed it before.
    intro before after hsplit hcloses
    have htext := hcontent.symm.append (.refl _ (r.kind.closing :: '\x7d' :: []))
    rw [hsplit] at htext
    obtain ⟨before', after', hsplit', hbefore, hafter⟩ := htext.of_append
    have houtside := hcloses.1
    rw [RegionKind.quotation, if_neg hkind] at houtside
    have hmark : ∀ c ∈ [r.kind.closing, '\x7d'], isBlank c = false := by
      cases r.kind <;> simp [RegionKind.closing] <;> decide
    rw [hcontent.length_eq.symm, hbefore.length_eq]
    refine hstands.closed.first before' after' hsplit' ⟨?_, ?_⟩
    · rwa [RegionKind.quotation, if_neg hkind, ← hbefore.run_eq]
    · rw [← List.isPrefixOf_iff_prefix, ← hafter.isPrefixOf_eq hmark, List.isPrefixOf_iff_prefix]
      exact hcloses.2

end Region

end Narrative
