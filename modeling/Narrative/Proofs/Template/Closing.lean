import Narrative.Proofs.Template.Cut

/-! Where regions end. A region is read up to the first closing marker that stands outside of its
quotations, and is not closed exactly if there is no such marker. -/

namespace Narrative

open Shorthand (Quotation)

namespace RegionKind

/-- Where the text of a region leads to, with respect to quotations. Quotes mean nothing in a
comment. -/
def quotation (kind : RegionKind) (cs : List Char) : Quotation :=
  if kind = .comment then .outside else Quotation.outside.run cs

/-- Whether a closing marker stands outside of quotations at the front of what follows a text. -/
def ClosesAt (kind : RegionKind) (before after : List Char) : Prop :=
  kind.quotation before = .outside ∧ [kind.closing, '\x7d'] <+: after

/-- The text `body` is what precedes the first closing marker of `cs` outside of quotations, and
`rest` what follows that marker. -/
structure IsClosed (kind : RegionKind) (cs body rest : List Char) : Prop where
  text : cs = body ++ kind.closing :: '\x7d' :: rest
  outside : kind.quotation body = .outside
  first : ∀ before after, cs = before ++ after → kind.ClosesAt before after →
    body.length ≤ before.length

end RegionKind

namespace Region

variable {kind : RegionKind} {quote : Option Char} {cs body rest before after : List Char}

def standing : Option Char → Quotation
  | none => .outside
  | some q => .inside q

/-- Where the text of a region leads to while the quotation `quote` is open before it. -/
def leadsTo (kind : RegionKind) (quote : Option Char) (cs : List Char) : Quotation :=
  if kind = .comment then standing quote else (standing quote).run cs

theorem leadsTo_nil : leadsTo kind quote [] = standing quote := by
  unfold leadsTo
  split <;> rfl

theorem leadsTo_inside {q c : Char} (hkind : kind ≠ .comment) (hc : c ≠ '\\') (cs : List Char) :
    leadsTo kind (some q) (c :: cs) = leadsTo kind (if c = q then none else some q) cs := by
  simp only [leadsTo, if_neg hkind, standing, Quotation.run_cons, Quotation.step, if_neg hc]
  split <;> rfl

theorem leadsTo_opening {c : Char} (hkind : kind ≠ .comment) (hc : isQuote c = true)
    (cs : List Char) : leadsTo kind none (c :: cs) = leadsTo kind (some c) cs := by
  simp only [leadsTo, if_neg hkind, standing, Quotation.run_cons, Quotation.step, if_pos hc]

theorem leadsTo_outside {c : Char} (hc : (isQuote c && kind != .comment) = false) (cs : List Char) :
    leadsTo kind none (c :: cs) = leadsTo kind none cs := by
  unfold leadsTo
  split
  · rfl
  · next hkind =>
    have hplain : isQuote c = false := by simpa [hkind] using hc
    exact Quotation.run_outside_cons hplain

theorem leadsTo_escaped {q : Char} (hkind : kind ≠ .comment) (d : Char) (cs : List Char) :
    leadsTo kind (some q) ('\\' :: d :: cs) = leadsTo kind (some q) cs := by
  simp only [leadsTo, if_neg hkind]
  rfl

theorem leadsTo_of_close? (hkind : kind = .comment → quote = none)
    (h : close? kind quote cs = some (body, rest)) : leadsTo kind quote body = .outside := by
  fun_induction close? kind quote cs generalizing body rest with
  | case1 => cases h
  | case2 => cases h
  | case3 q d cs ih =>
    obtain ⟨⟨b, r⟩, hc, hr⟩ := Option.map_eq_some_iff.mp h
    cases hr
    have hnot : kind ≠ .comment := fun he => by cases hkind he
    rw [leadsTo_escaped hnot]
    exact ih hkind hc
  | case4 c cs q hne ih =>
    obtain ⟨⟨b, r⟩, hc, hr⟩ := Option.map_eq_some_iff.mp h
    cases hr
    have hnot : kind ≠ .comment := fun he => by cases hkind he
    rw [leadsTo_inside hnot hne]
    exact ih (fun he => absurd he hnot) hc
  | case5 c cs hopen ih =>
    obtain ⟨⟨b, r⟩, hc, hr⟩ := Option.map_eq_some_iff.mp h
    cases hr
    obtain ⟨hquote, hnot⟩ : isQuote c = true ∧ kind ≠ .comment := by simpa using hopen
    rw [leadsTo_opening hnot hquote]
    exact ih (fun he => absurd he hnot) hc
  | case6 => cases h; exact leadsTo_nil
  | case7 c cs hopen _ ih =>
    obtain ⟨⟨b, r⟩, hc, hr⟩ := Option.map_eq_some_iff.mp h
    cases hr
    rw [leadsTo_outside (Bool.eq_false_iff.mpr hopen)]
    exact ih (fun _ => rfl) hc

theorem exists_behind {w : List Char} {n : Nat} {r : Option (List Char × List Char)}
    (h : ∃ body rest, r = some (body, rest) ∧ body.length ≤ n) :
    ∃ body rest, behind w r = some (body, rest) ∧ body.length ≤ n + w.length := by
  obtain ⟨body, rest, rfl, hle⟩ := h
  exact ⟨w ++ body, rest, rfl, by rw [List.length_append]; omega⟩

theorem exists_cons_of_inside {q : Char} (h : leadsTo kind (some q) before = .outside) :
    ∃ c cs, before = c :: cs := by
  refine List.exists_cons_of_ne_nil ?_
  rintro rfl
  rw [leadsTo_nil] at h
  cases h

/-- Where a closing marker stands outside of quotations, the region ends or has ended. -/
theorem close?_of_closes (hkind : kind = .comment → quote = none) (hcs : cs = before ++ after)
    (hlead : leadsTo kind quote before = .outside) (hmark : [kind.closing, '\x7d'] <+: after) :
    ∃ body rest, close? kind quote cs = some (body, rest) ∧ body.length ≤ before.length := by
  obtain ⟨ds, rfl⟩ := hmark
  fun_induction close? kind quote cs generalizing before with
  | case1 => simp at hcs
  | case2 q =>
    have hlength := congrArg List.length hcs
    simp only [List.length_append, List.length_cons, List.length_nil] at hlength
    omega
  | case3 q d cs ih =>
    have hnot : kind ≠ .comment := fun he => by cases hkind he
    obtain ⟨b, before, rfl⟩ := exists_cons_of_inside hlead
    cases before with
    | nil =>
      -- After the backslash alone, the next character is hidden.
      obtain ⟨rfl, -⟩ := List.cons.inj hcs
      simp only [leadsTo, if_neg hnot] at hlead
      cases hlead
    | cons e before =>
      cases hcs
      rw [leadsTo_escaped hnot] at hlead
      exact exists_behind (w := ['\\', d]) (ih hkind hlead rfl)
  | case4 c cs q hne ih =>
    have hnot : kind ≠ .comment := fun he => by cases hkind he
    obtain ⟨b, before, rfl⟩ := exists_cons_of_inside hlead
    cases hcs
    rw [leadsTo_inside hnot hne] at hlead
    exact exists_behind (w := [c]) (ih (fun he => absurd he hnot) hlead rfl)
  | case5 c cs hopen ih =>
    obtain ⟨hquote, hnot⟩ : isQuote c = true ∧ kind ≠ .comment := by simpa using hopen
    cases before with
    | nil =>
      obtain ⟨rfl, -⟩ := List.cons.inj hcs
      cases kind <;> cases hquote
    | cons b before =>
      cases hcs
      rw [leadsTo_opening hnot hquote] at hlead
      exact exists_behind (w := [c]) (ih (fun he => absurd he hnot) hlead rfl)
  | case6 c cs hopen hend => exact ⟨[], _, rfl, Nat.zero_le _⟩
  | case7 c cs hopen hend ih =>
    cases before with
    | nil =>
      obtain ⟨rfl, rfl⟩ := List.cons.inj hcs
      simp at hend
    | cons b before =>
      cases hcs
      rw [leadsTo_outside (Bool.eq_false_iff.mpr hopen)] at hlead
      exact exists_behind (w := [c]) (ih (fun _ => rfl) hlead rfl)

/-- A region is closed by its first closing marker outside of quotations. -/
theorem close?_eq_some_iff :
    close? kind none cs = some (body, rest) ↔ kind.IsClosed cs body rest := by
  constructor
  · intro h
    refine ⟨(close?_spec h).1, leadsTo_of_close? (fun _ => rfl) h,
      fun before after hcs hcloses => ?_⟩
    obtain ⟨body', rest', hclose, hle⟩ := close?_of_closes (fun _ => rfl) hcs hcloses.1 hcloses.2
    rw [h] at hclose
    cases hclose
    exact hle
  · intro h
    have hmark : kind.ClosesAt body (kind.closing :: '\x7d' :: rest) :=
      ⟨h.outside, List.prefix_append _ rest⟩
    obtain ⟨body', rest', hclose, hle⟩ := close?_of_closes (fun _ => rfl) h.text hmark.1 hmark.2
    have hcs' := (close?_spec hclose).1
    have hmark' : kind.ClosesAt body' (kind.closing :: '\x7d' :: rest') :=
      ⟨leadsTo_of_close? (fun _ => rfl) hclose, List.prefix_append _ rest'⟩
    have hlength : body'.length = body.length := Nat.le_antisymm hle (h.first _ _ hcs' hmark')
    obtain ⟨rfl, hrest⟩ := List.append_inj (hcs'.symm.trans h.text) hlength
    cases hrest
    exact hclose

theorem close?_eq_none_iff :
    close? kind none cs = none ↔ ∀ before after, cs = before ++ after →
      ¬ kind.ClosesAt before after := by
  constructor
  · intro h before after hcs hcloses
    obtain ⟨body, rest, hclose, -⟩ := close?_of_closes (fun _ => rfl) hcs hcloses.1 hcloses.2
    rw [h] at hclose
    cases hclose
  · intro h
    cases hclose : close? kind none cs with
    | none => rfl
    | some r =>
      obtain ⟨htext, houtside, -⟩ := close?_eq_some_iff.mp hclose
      exact absurd ⟨houtside, List.prefix_append _ _⟩ (h _ _ htext)

end Region

end Narrative
