import Narrative.Proofs.Shorthand.Quotation
import Narrative.Template

/-! Cutting text at regions whose content is an expression: a text that reads as tokens has no
closing marker of its own, so the region ends where it was closed. -/

namespace Narrative

/-- A character that neither opens a quotation nor is part of a closing marker by itself. -/
def IsPlain (c : Char) : Prop :=
  isQuote c = false ∧ c ≠ '\x7d'

theorem isPlain_of {p : Char → Bool} (hs : p '\'' = false) (hd : p '"' = false)
    (hb : p '\x7d' = false) {c : Char} (h : p c = true) : IsPlain c := by
  refine ⟨isQuote_eq_false hs hd h, ?_⟩
  rintro rfl
  rw [hb] at h
  cases h

theorem isPlain_of_isDigit {c : Char} (h : c.isDigit = true) : IsPlain c :=
  isPlain_of (p := Char.isDigit) (by decide) (by decide) (by decide) h

theorem isPlain_of_continuesName {c : Char} (h : continuesName c = true) : IsPlain c :=
  isPlain_of (by decide) (by decide) (by decide) h

theorem isPlain_of_isBlank {c : Char} (h : isBlank c = true) : IsPlain c :=
  isPlain_of (by decide) (by decide) (by decide) h

theorem Symbol.isPlain_of_mem_chars {s : Symbol} : ∀ c ∈ s.chars, IsPlain c := by
  cases s <;> simp [Symbol.chars, IsPlain, isQuote]

namespace Token

variable {c : Char} {cs rest : List Char} {t : Token}

theorem fraction?_split {digits : List Char} (h : fraction? cs = some (digits, rest)) :
    cs = '.' :: digits ++ rest ∧ ∀ c ∈ digits, c.isDigit = true := by
  unfold fraction? at h
  split at h
  · next d cs =>
    split at h
    · next hd =>
      cases h
      refine ⟨by simp, fun c hc => ?_⟩
      rcases List.mem_cons.mp hc with rfl | hc
      · exact hd
      · exact List.all_eq_true.mp List.all_takeWhile c hc
    · cases h
  · cases h

theorem number_split {whole : List Char} (h : number whole cs = .ok (t, rest)) :
    ∃ w, cs = w ++ rest ∧ ∀ c ∈ w, IsPlain c := by
  unfold number at h
  split at h
  · next digits rest' hf =>
    cases h
    obtain ⟨rfl, hdigits⟩ := fraction?_split hf
    refine ⟨'.' :: digits, rfl, fun c hc => ?_⟩
    rcases List.mem_cons.mp hc with rfl | hc
    · exact ⟨by decide, by decide⟩
    · exact isPlain_of_isDigit (hdigits c hc)
  · split at h
    · cases h
      exact ⟨[], rfl, by simp⟩
    · cases h

/-- The text of a token is plain, or it is a quotation. -/
theorem next_split (h : next c cs = .ok (t, rest)) :
    ∃ w, c :: cs = w ++ rest ∧ ((∀ c ∈ w, IsPlain c) ∨
      ∃ q body s, w = q :: (body ++ [q]) ∧ isQuote q = true ∧ Written q body s) := by
  unfold next at h
  split at h
  · next hc =>
    obtain ⟨w, hw, hplain⟩ := number_split h
    refine ⟨c :: (cs.takeWhile Char.isDigit ++ w), ?_, .inl fun d hd => ?_⟩
    · rw [List.cons_append, List.append_assoc, ← hw, List.takeWhile_append_dropWhile]
    · rcases List.mem_cons.mp hd with rfl | hd
      · exact isPlain_of_isDigit hc
      · rcases List.mem_append.mp hd with hd | hd
        · exact isPlain_of_isDigit (List.all_eq_true.mp List.all_takeWhile d hd)
        · exact hplain d hd
  split at h
  · next hc =>
    cases h
    refine ⟨c :: cs.takeWhile continuesName, by simp, .inl fun d hd => ?_⟩
    rcases List.mem_cons.mp hd with rfl | hd
    · exact isPlain_of_continuesName (continuesName_of_startsName hc)
    · exact isPlain_of_continuesName (List.all_eq_true.mp List.all_takeWhile d hd)
  split at h
  · next hc =>
    have hc : isQuote c = true := isQuote_iff.mpr (by simpa using hc)
    split at h
    · next hq =>
      cases h
      obtain ⟨body, rfl, hw⟩ := (quoted_iff (isQuote_ne_backslash hc)).mp hq
      exact ⟨c :: (body ++ [c]), by simp, .inr ⟨c, body, _, rfl, hc, hw⟩⟩
    · cases h
  split at h
  · next hs =>
    cases h
    exact ⟨_, symbol?_iff hs, .inl Symbol.isPlain_of_mem_chars⟩
  · cases h

end Token

namespace Region

variable {kind : RegionKind} {c : Char} {cs ds body s rest w : List Char}

/-- What is found with a text put in front of what precedes the closing marker. -/
def behind (w : List Char) (r : Option (List Char × List Char)) : Option (List Char × List Char) :=
  r.map fun r => (w ++ r.1, r.2)

theorem behind_behind (v w : List Char) (r : Option (List Char × List Char)) :
    behind v (behind w r) = behind (v ++ w) r := by
  simp [behind, Function.comp_def]

/-- Text in which no region of a kind ends, as long as what follows does not start with a brace. -/
structure Passed (kind : RegionKind) (cs : List Char) : Prop where
  head : cs.head? ≠ some '\x7d'
  close : ∀ rest : List Char, rest.head? ≠ some '\x7d' →
    close? kind none (cs ++ rest) = behind cs (close? kind none rest)

theorem Passed.nil : Passed kind [] :=
  ⟨by simp, fun rest _ => by simp [behind]⟩

theorem Passed.append (hc : Passed kind cs) (hd : Passed kind ds) : Passed kind (cs ++ ds) := by
  have hhead {rest : List Char} (hrest : rest.head? ≠ some '\x7d') :
      (ds ++ rest).head? ≠ some '\x7d' := by
    cases ds with
    | nil => exact hrest
    | cons d ds => exact hd.head
  refine ⟨?_, fun rest hrest => ?_⟩
  · cases cs with
    | nil => exact hd.head
    | cons c cs => exact hc.head
  · rw [List.append_assoc, hc.close _ (hhead hrest), hd.close _ hrest, behind_behind]

theorem Passed.char (hc : IsPlain c) : Passed kind [c] := by
  refine ⟨by simpa using hc.2, fun rest hrest => ?_⟩
  have hquote : (isQuote c && kind != .comment) = false := by simp [hc.1]
  have hend : (c = kind.closing && rest.head? = some '\x7d' : Bool) = false := by simp [hrest]
  rw [List.singleton_append, close?]
  simp only [hquote, hend]
  rfl

theorem Passed.plain (hw : ∀ c ∈ w, IsPlain c) : Passed kind w := by
  induction w with
  | nil => exact .nil
  | cons c w ih => exact (Passed.char (hw c (by simp))).append (ih fun d hd => hw d (by simp [hd]))

theorem close?_written {q : Char} (h : Written q body s) (hq : q ≠ '\\') :
    close? kind (some q) (body ++ q :: rest) = behind (body ++ [q]) (close? kind none rest) := by
  induction h with
  | nil =>
    rw [List.nil_append, close?.eq_def]
    simp [hq, behind]
  | @plain c body s hb hc _ ih =>
    rw [List.cons_append, close?.eq_def]
    simp only [hb, hc, if_false, ih]
    exact behind_behind [c] (body ++ [q]) _
  | @escaped c body s _ ih =>
    rw [List.cons_append, List.cons_append, close?]
    simp only [if_true, ih]
    exact behind_behind ['\\', c] (body ++ [q]) _

theorem Passed.quotation {q : Char} (hkind : kind ≠ .comment) (hq : isQuote q = true)
    (h : Written q body s) : Passed kind (q :: (body ++ [q])) := by
  refine ⟨?_, fun rest _ => ?_⟩
  · rintro heq
    obtain rfl : q = '\x7d' := by simpa using heq
    simp [isQuote] at hq
  · have hopen : (isQuote q && kind != .comment) = true := by simp [hq, hkind]
    have hwritten : close? kind (some q) (body ++ q :: rest)
        = behind (body ++ [q]) (close? kind none rest) := close?_written h (isQuote_ne_backslash hq)
    rw [List.cons_append, List.append_assoc, List.singleton_append, close?]
    simp only [hopen, if_true, hwritten]
    exact behind_behind [q] (body ++ [q]) _

theorem Passed.lex (hkind : kind ≠ .comment) :
    ∀ {cs : List Char} {ts : List Token}, Token.lex cs = .ok ts → Passed kind cs
  | [], _, _ => .nil
  | c :: cs, ts, h => by
    cases hb : isBlank c with
    | true =>
      rw [Token.lex_blank hb] at h
      exact (Passed.char (isPlain_of_isBlank hb)).append (Passed.lex hkind h)
    | false =>
      obtain ⟨t, rest, us, hn, hu, rfl⟩ := (Token.lex_cons_ok hb).mp h
      have := Token.next_length hn
      have hrest := Passed.lex hkind hu
      obtain ⟨w, hw, hplain | ⟨q, body, s, rfl, hq, hwritten⟩⟩ := Token.next_split hn
      · rw [hw]
        exact (Passed.plain hplain).append hrest
      · rw [hw]
        exact (Passed.quotation hkind hq hwritten).append hrest
termination_by cs => cs.length

def padded (kind : RegionKind) (content : List Char) : Region :=
  ⟨kind, false, ' ' :: (content ++ [' ']), false⟩

theorem ofOpened?_padded (h : Passed kind cs) (rest : List Char) :
    ofOpened? kind (' ' :: (cs ++ ' ' :: kind.closing :: '\x7d' :: rest)) =
      some (padded kind cs, rest) := by
  have hpassed : Passed kind (' ' :: cs) := (Passed.char ⟨by decide, by decide⟩).append h
  have hend : close? kind none (' ' :: kind.closing :: '\x7d' :: rest) = some ([' '], rest) := by
    cases kind <;> rfl
  have hclose : close? kind none (' ' :: (cs ++ ' ' :: kind.closing :: '\x7d' :: rest))
      = some (' ' :: (cs ++ [' ']), rest) := by
    have := hpassed.close (' ' :: kind.closing :: '\x7d' :: rest) (by simp)
    rw [hend] at this
    exact this
  have hlast : (' ' :: (cs ++ [' '])).getLast? = some ' ' := by
    rw [← List.cons_append, List.getLast?_concat]
  have hdash : dashed (' ' :: (cs ++ ' ' :: kind.closing :: '\x7d' :: rest)) = false := by
    simp [dashed]
  simp [ofOpened?, hdash, hclose, hlast, padded]

end Region

variable {kind : RegionKind} {c : Char} {cs s rest : List Char}

theorem opener?_cons_of_ne (h : c ≠ '\x7b') : opener? (c :: cs) = none := by
  unfold opener?
  split
  · next heq => exact absurd (List.cons.inj heq).1 h
  · rfl

theorem opener?_opening (kind : RegionKind) (cs : List Char) :
    opener? ('\x7b' :: kind.opening :: cs) = some (kind, cs) := by
  cases kind <;> rfl

theorem cut_of_opener?_none (h : opener? (c :: cs) = none) :
    cut (c :: cs) = consLiteral c (cut cs) := by
  rw [cut]
  split
  · rfl
  · next heq => rw [h] at heq; cases heq

namespace Region

def inside (r : Region) : List Char :=
  dash r.trimBefore ++ r.body ++ dash r.trimAfter ++ [r.kind.closing, '\x7d']

theorem source_eq (r : Region) : r.source = '\x7b' :: r.kind.opening :: r.inside := by
  simp [source, inside]

/-- Whatever follows a region, it is read up to its end. -/
def IsWhole (r : Region) : Prop :=
  ∀ rest, ofOpened? r.kind (r.inside ++ rest) = some (r, rest)

theorem padded_isWhole (h : Passed kind cs) : (padded kind cs).IsWhole := by
  intro rest
  have hinside : (padded kind cs).inside ++ rest = ' ' ::
      (cs ++ ' ' :: kind.closing :: '\x7d' :: rest) := by
    simp [inside, padded, dash]
  rw [hinside]
  exact ofOpened?_padded h rest

end Region

theorem cut_region {r : Region} (h : r.IsWhole) (rest : List Char) :
    cut (r.source ++ rest) = .region r :: cut rest := by
  rw [Region.source_eq, List.cons_append, List.cons_append, cut]
  split
  · next heq => rw [opener?_opening] at heq; cases heq
  · next heq =>
    rw [opener?_opening] at heq
    cases heq
    split
    · next heq => rw [h] at heq; cases heq
    · next heq =>
      rw [h] at heq
      cases heq
      rfl

def StartsLiteral (ps : List Piece) : Prop :=
  ∃ cs rest, ps = .literal cs :: rest

/-- Literal text has no opener in it and does not end in a brace, which could be half of one. -/
structure IsLiteral (cs : List Char) : Prop where
  ne_nil : cs ≠ []
  no_opener : ∀ kind : RegionKind, ¬ ['\x7b', kind.opening] <:+: cs
  last : cs.getLast? ≠ some '\x7b'

theorem IsLiteral.of_notMem (hne : cs ≠ []) (h : '\x7b' ∉ cs) : IsLiteral cs where
  ne_nil := hne
  no_opener _ hin := h (hin.subset List.mem_cons_self)
  last hlast := h (List.mem_of_getLast? hlast)

theorem getLast?_suffix {ds : List Char} (hds : ds <:+ cs) (hne : ds ≠ []) :
    ds.getLast? = cs.getLast? := by
  obtain ⟨front, rfl⟩ := hds
  rw [List.getLast?_append, List.getLast?_eq_some_getLast hne, Option.some_or]

theorem IsLiteral.suffix {ds : List Char} (h : IsLiteral cs) (hds : ds <:+ cs) (hne : ds ≠ []) :
    IsLiteral ds where
  ne_nil := hne
  no_opener kind hin := h.no_opener kind (hin.trans hds.isInfix)
  last hlast := h.last ((getLast?_suffix hds hne).symm.trans hlast)

theorem opener?_literal (h : IsLiteral cs) (rest : List Char) : opener? (cs ++ rest) = none := by
  obtain ⟨c, cs, rfl⟩ := List.exists_cons_of_ne_nil h.ne_nil
  by_cases hc : c = '\x7b'
  · subst hc
    cases cs with
    | nil => exact absurd rfl h.last
    | cons d cs =>
      cases hkind : RegionKind.ofOpening? d with
      | none => simp [opener?, hkind]
      | some kind =>
        obtain rfl : kind.opening = d := by simpa using List.find?_some hkind
        exact absurd ⟨[], cs, rfl⟩ (h.no_opener kind)
  · exact opener?_cons_of_ne hc

theorem consLiteral_of_not {ps : List Piece} (h : ¬ StartsLiteral ps) :
    consLiteral c ps = .literal [c] :: ps := by
  unfold consLiteral
  split
  · next cs ps => exact absurd ⟨cs, ps, rfl⟩ h
  · rfl

/-- Text in which no region opens, before what starts with no literal text, is one literal run. -/
theorem cut_run (hne : cs ≠ []) (hopen : ∀ ds, ds <:+ cs → ds ≠ [] → opener? (ds ++ rest) = none)
    (hrest : ¬ StartsLiteral (cut rest)) : cut (cs ++ rest) = .literal cs :: cut rest := by
  induction cs with
  | nil => exact absurd rfl hne
  | cons c cs ih =>
    have hfirst : opener? (c :: (cs ++ rest)) = none := hopen (c :: cs) List.suffix_rfl hne
    rw [List.cons_append, cut_of_opener?_none hfirst]
    cases cs with
    | nil => exact consLiteral_of_not hrest
    | cons d cs =>
      rw [ih (List.cons_ne_nil d cs) fun ds hds => hopen ds (hds.trans (List.suffix_cons c _))]
      rfl

theorem cut_literal (h : IsLiteral cs) (hrest : ¬ StartsLiteral (cut rest)) :
    cut (cs ++ rest) = .literal cs :: cut rest :=
  cut_run h.ne_nil (fun _ hds hne => opener?_literal (h.suffix hds hne) rest) hrest

namespace Segment

/-- Whether a text can follow literal text: no literal run comes first and no region that trims
before it. -/
structure CanFollow (rest : List Char) : Prop where
  not_literal : ¬ StartsLiteral (cut rest)
  not_trimmed : trimsBefore (cut rest) = false

theorem canFollow_nil : CanFollow [] := by
  constructor
  · rintro ⟨cs, rest, h⟩
    rw [cut] at h
    cases h
  · rw [cut]
    rfl

theorem canFollow_padded (h : Region.Passed kind cs) (rest : List Char) :
    CanFollow ((Region.padded kind cs).source ++ rest) := by
  constructor
  · rintro ⟨ds, ps, heq⟩
    rw [cut_region (Region.padded_isWhole h)] at heq
    cases heq
  · rw [cut_region (Region.padded_isWhole h)]
    rfl

theorem scan_nil : scan [] = [] := by
  rw [scan, cut]
  rfl

theorem scan_padded (h : (Region.padded kind cs).IsWhole) (rest : List Char) :
    scan ((Region.padded kind cs).source ++ rest) = ofRegion (Region.padded kind cs) ++
      scan rest := by
  rw [scan, cut_region h]
  rfl

theorem scan_literal (h : IsLiteral cs) (hrest : CanFollow rest) :
    scan (cs ++ rest) = .text cs :: scan rest := by
  rw [scan, cut_literal h hrest.not_literal]
  simp [ofPieces, hrest.not_trimmed, ofLiteral, h.ne_nil, scan]

end Segment

end Narrative
