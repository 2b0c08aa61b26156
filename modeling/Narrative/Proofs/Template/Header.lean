import Narrative.Proofs.Template.Append
import Narrative.Proofs.Template.Depends

/-! Headers of blocks. With another header in a tag that opens a block, a text is cut as before, the
same tags pair, and the templates differ in that block alone. A conditional block has to have a
condition for that: without one its tag opens nothing. -/

namespace Narrative

inductive BlockKeyword where
  | test
  | loop
  deriving DecidableEq

namespace BlockKeyword

def text : BlockKeyword → String
  | .test => "if"
  | .loop => "for"

def opener : BlockKeyword → String → Opener
  | .test => .test []
  | .loop => .loop

theorem text_not_blank (k : BlockKeyword) : ∀ c ∈ k.text.toList, isBlank c = false := by
  have hall : k.text.toList.all (!isBlank ·) = true := by cases k <;> rfl
  simpa using hall

theorem text_isPlain (k : BlockKeyword) : ∀ c ∈ k.text.toList, IsPlain c ∧ c ≠ '-' := by
  cases k <;> simp [text, IsPlain] <;> decide

theorem text_ne_nil (k : BlockKeyword) : k.text.toList ≠ [] := by
  cases k <;> decide

theorem oneHeader_opener (k : BlockKeyword) : Opener.OneHeader k.opener := by
  cases k with
  | test => exact .test
  | loop => exact .loop

theorem tagAction_text (k : BlockKeyword) {header : String} (h : k = .test → header ≠ "")
    (top : Option Opener) (nodes : List Node) :
    Builder.tagAction top nodes k.text header = .enter (k.opener header) := by
  cases k with
  | test =>
    have hne : header ≠ "" := h rfl
    obtain _ | _ | _ | _ := top <;> simp [text, opener, Builder.tagAction, Builder.freshAction, hne]
  | loop => obtain _ | _ | _ | _ := top <;> rfl

theorem keyword_text (k : BlockKeyword) {lead header : List Char}
    (hlead : ∀ c ∈ lead, isBlank c = true) (hheader : header.head?.all isBlank = true) :
    Builder.keyword (trim (lead ++ (k.text.toList ++ header))) =
      (k.text, String.ofList (trim header)) := by
  have hk := k.text_not_blank
  have hlast : ∀ c, k.text.toList.getLast? = some c → isBlank c = false := fun c hc =>
    hk c (List.mem_of_getLast? hc)
  have hhead : ∀ c, (k.text.toList ++ header).head? = some c → isBlank c = false := by
    cases k <;> simp [text] <;> decide
  have htrim : trim (lead ++ (k.text.toList ++ header)) = k.text.toList ++ trimEnd header := by
    rw [trim_blanks_append hlead, trim, trimStart_of_head hhead, trimEnd_append_of_last hlast]
  have hblank : (trimEnd header).takeWhile (!isBlank ·) = [] ∧
      (trimEnd header).dropWhile (!isBlank ·) = trimEnd header := by
    obtain ⟨rest, -, hrest⟩ := exists_trimEnd_append header
    cases hend : trimEnd header with
    | nil => exact ⟨rfl, rfl⟩
    | cons c cs =>
      rw [hrest, hend] at hheader
      have hc : isBlank c = true := hheader
      simp [hc]
  have hall : ∀ c ∈ k.text.toList, (!isBlank c) = true := fun c hc => by simp [hk c hc]
  rw [htrim, Builder.keyword, List.takeWhile_append_of_pos hall,
    List.dropWhile_append_of_pos hall, hblank.1, hblank.2, List.append_nil, String.ofList_toList,
    trim_trimEnd]

end BlockKeyword

/-- The segments around a tag do not depend on its body. -/
theorem Segment.ofPieces_tag (trimBefore trimAfter trimmed : Bool) (ps qs : List Piece) :
    ∃ front back, ∀ body, ofPieces trimmed (ps ++ .region ⟨.tag, trimBefore, body, trimAfter⟩ :: qs)
      = front ++ .tag (trim body) :: back := by
  induction ps generalizing trimmed with
  | nil => exact ⟨[], ofPieces trimAfter qs, fun _ => rfl⟩
  | cons p ps ih =>
    cases p with
    | literal cs =>
      obtain ⟨front, back, h⟩ := ih false
      have hps : ∃ b, ∀ body,
          trimsBefore (ps ++ .region ⟨.tag, trimBefore, body, trimAfter⟩ :: qs) = b := by
        cases ps with
        | nil => exact ⟨trimBefore, fun _ => rfl⟩
        | cons p ps => cases p <;> exact ⟨_, fun _ => rfl⟩
      obtain ⟨b, hb⟩ := hps
      let cs' := if trimmed then trimStart cs else cs
      refine ⟨ofLiteral (if b then trimEnd cs' else cs') ++ front, back, fun body => ?_⟩
      rw [List.cons_append, ofPieces, hb, h, List.append_assoc]
    | region r =>
      obtain ⟨front, back, h⟩ := ih r.trimAfter
      refine ⟨ofRegion r ++ front, back, fun body => ?_⟩
      rw [List.cons_append, ofPieces, h, List.append_assoc]
    | unclosed kind _ source =>
      obtain ⟨front, back, h⟩ := ih false
      refine ⟨.error (.unclosedRegion kind (String.ofList (trim source))) :: front, back,
        fun body => ?_⟩
      rw [List.cons_append, ofPieces, h, List.cons_append]

/-- The pairs of a tag that opens a block and one that goes on with the block or ends it, as places
in a list of moves. `opened` are the places of the blocks that are open, the innermost first, and
`place` that of the next move. -/
def pairs (opened : List Nat) (place : Nat) : List Move → List (Nat × Nat)
  | [] => []
  | .stay :: ms => pairs opened (place + 1) ms
  | .enter _ :: ms => pairs (place :: opened) (place + 1) ms
  | .turn _ :: ms => (opened.head?.map (·, place)).toList ++ pairs opened (place + 1) ms
  | .leave :: ms => (opened.head?.map (·, place)).toList ++ pairs opened.tail (place + 1) ms

def Template.blockPairs (text : String) : List (Nat × Nat) :=
  pairs [] 0 (Builder.start.moves (Segment.scan text.toList))

/-- Text that can stand as a header, or be none: apart from the keyword, without quotes and closing
markers, and not ending in a dash. -/
structure IsHeader (cs : List Char) : Prop where
  apart : cs.head?.all isBlank = true
  quoteless : ∀ c ∈ cs, isQuote c = false
  unmarked : ¬ [RegionKind.tag.closing, '\x7d'] <:+: cs
  undashed : cs.getLast? ≠ some '-'

theorem IsHeader.of_all {cs : List Char} (apart : cs.head?.all isBlank = true)
    (quoteless : cs.all (!isQuote ·) = true) (unmarked : ¬ [RegionKind.tag.closing, '\x7d'] <:+: cs)
    (undashed : cs.getLast? ≠ some '-') : IsHeader cs :=
  ⟨apart, by simpa using quoteless, unmarked, undashed⟩

structure BlockTag (text : String) where
  before : List Piece
  trimBefore : Bool
  lead : List Char
  keyword : BlockKeyword
  header : List Char
  trimAfter : Bool
  after : List Piece
  lead_blank : ∀ c ∈ lead, isBlank c = true
  header_apart : header.head?.all isBlank = true
  cut_eq : cut text.toList = before
    ++ .region ⟨.tag, trimBefore, lead ++ (keyword.text.toList ++ header), trimAfter⟩ :: after

namespace BlockTag

variable {text : String}

def region (t : BlockTag text) (header : List Char) : Region :=
  ⟨.tag, t.trimBefore, t.lead ++ (t.keyword.text.toList ++ header), t.trimAfter⟩

/-- Every tag of the text that a keyword begins is one of its block tags. -/
theorem exists_of_keyword {before after : List Piece} {r : Region} {k : BlockKeyword}
    (hcut : cut text.toList = before ++ .region r :: after) (hkind : r.kind = .tag)
    (hkeyword : (Builder.keyword (trim r.body)).1 = k.text) :
      ∃ t : BlockTag text, t.before = before ∧
      t.region t.header = r ∧ t.after = after ∧ t.keyword = k := by
  obtain ⟨kind, trimBefore, body, trimAfter⟩ := r
  obtain rfl : kind = .tag := hkind
  have htake : (trim body).takeWhile (!isBlank ·) = k.text.toList := by
    rw [← hkeyword]
    simp [Builder.keyword]
  obtain ⟨ws, hws, htrim⟩ := exists_trimEnd_append (trimStart body)
  have hsplit := List.takeWhile_append_dropWhile (p := (!isBlank ·)) (l := trim body)
  have hbody := List.takeWhile_append_dropWhile (p := isBlank) (l := body)
  rw [← trimStart, htrim, ← trim, ← hsplit, htake, List.append_assoc] at hbody
  -- What is trimmed at the end of the tag belongs to the header.
  refine ⟨⟨before, trimBefore, body.takeWhile isBlank, k, (trim body).dropWhile (!isBlank ·) ++ ws,
    trimAfter, after, List.all_eq_true.mp List.all_takeWhile, ?_, ?_⟩, rfl, ?_, rfl, rfl⟩
  · cases hdrop : (trim body).dropWhile (!isBlank ·) with
    | nil =>
      cases ws with
      | nil => rfl
      | cons c ws => exact hws c List.mem_cons_self
    | cons c cs =>
      have hc := List.head?_dropWhile_not (!isBlank ·) (trim body)
      rw [hdrop] at hc
      simpa using hc
  · rw [hcut, hbody]
  · exact congrArg (fun body => (⟨.tag, trimBefore, body, trimAfter⟩ : Region)) hbody

def withHeader (t : BlockTag text) (header : List Char) : String :=
  String.ofList (sources (t.before ++ .region (t.region header) :: t.after))

theorem withHeader_header (t : BlockTag text) : t.withHeader t.header = text := by
  have h := sources_cut text.toList
  rw [t.cut_eq] at h
  rw [withHeader, region, h, String.ofList_toList]

theorem isCut (t : BlockTag text) : IsCut (t.before ++ .region (t.region t.header) :: t.after) :=
  t.cut_eq ▸ isCut_cut text.toList

section Whole

variable (t : BlockTag text) {header : List Char}

theorem passed_body (h : IsHeader header) : Region.Passed .tag (t.region header).body := by
  have hlead : Region.Passed .tag t.lead :=
    .plain fun c hc => isPlain_of_isBlank (t.lead_blank c hc)
  have hkeyword : Region.Passed .tag t.keyword.text.toList :=
    .plain fun c hc => (t.keyword.text_isPlain c hc).1
  have hheader : Region.Passed .tag header := by
    refine .unmarked (fun hhead => ?_) h.quoteless h.unmarked
    have hapart := h.apart
    rw [hhead] at hapart
    exact absurd hapart (by decide)
  exact hlead.append (hkeyword.append hheader)

theorem exists_head_body (header : List Char) :
    ∃ c, (t.region header).body.head? = some c ∧ c ≠ '-' := by
  cases hlead : t.lead with
  | nil =>
    obtain ⟨c, cs, hcs⟩ := List.exists_cons_of_ne_nil t.keyword.text_ne_nil
    exact ⟨c, by simp [region, hlead, hcs], (t.keyword.text_isPlain c (by simp [hcs])).2⟩
  | cons c lead =>
    have hc : isBlank c = true := t.lead_blank c (by simp [hlead])
    refine ⟨c, by simp [region, hlead], ?_⟩
    rintro rfl
    exact absurd hc (by decide)

theorem getLast?_body (h : IsHeader header) : (t.region header).body.getLast? ≠ some '-' := by
  have hne := t.keyword.text_ne_nil
  rw [region, List.getLast?_append, List.getLast?_append]
  cases hlast : header.getLast? with
  | some d =>
    rw [Option.some_or, Option.some_or, ← hlast]
    exact h.undashed
  | none =>
    rw [Option.none_or, List.getLast?_eq_some_getLast hne, Option.some_or]
    exact fun heq => (t.keyword.text_isPlain _ (List.getLast_mem hne)).2 (Option.some.inj heq)

theorem isWhole_region (h : IsHeader header) : (t.region header).IsWhole := by
  obtain ⟨c, hhead, hc⟩ := t.exists_head_body header
  have hkind : (t.region header).kind ≠ .output := by
    intro h
    cases h
  exact Region.isWhole_of_passed hkind (t.passed_body h) hhead hc (t.getLast?_body h)

end Whole

theorem cut_withHeader (t : BlockTag text) {header : List Char}
    (h : header = t.header ∨ IsHeader header) :
    cut (t.withHeader header).toList = t.before ++ .region (t.region header) :: t.after := by
  rcases h with rfl | h
  · rw [t.withHeader_header]
    exact t.cut_eq
  · rw [withHeader, String.toList_ofList]
    exact cut_sources (t.isCut.replace (t.isWhole_region h))

def segment (t : BlockTag text) (header : List Char) : Segment :=
  .tag (trim (t.region header).body)

/-- The same is built before the tag and read after it, whatever the header is. -/
theorem scan_withHeader (t : BlockTag text) :
    ∃ front back, ∀ header, header = t.header ∨ IsHeader header →
    Segment.scan (t.withHeader header).toList = front ++ t.segment header :: back := by
  obtain ⟨front, back, h⟩ := Segment.ofPieces_tag t.trimBefore t.trimAfter false t.before t.after
  refine ⟨front, back, fun header hheader => ?_⟩
  rw [Segment.scan, t.cut_withHeader hheader]
  exact h _

theorem parse_withHeader (t : BlockTag text) : ∃ (b : Builder) (back : List Segment),
    ∀ header, header = t.header ∨ IsHeader header →
      Template.parse (t.withHeader header) =
        (back.foldl Builder.step (b.step (t.segment header))).finish ∧
        (b.move (t.segment header) = b.move (t.segment t.header) →
          Template.blockPairs (t.withHeader header) = Template.blockPairs text) := by
  obtain ⟨front, back, hscan⟩ := t.scan_withHeader
  have hself := hscan t.header (.inl rfl)
  rw [t.withHeader_header] at hself
  refine ⟨front.foldl Builder.step Builder.start, back, fun header hheader => ⟨?_, fun hmove => ?_⟩⟩
  · rw [Template.parse, Template.ofSegments, hscan header hheader, List.foldl_append]
    rfl
  · have hblocks : ((front.foldl Builder.step Builder.start).step (t.segment header)).blocks
        = ((front.foldl Builder.step Builder.start).step (t.segment t.header)).blocks := by
      rw [Builder.blocks_step, Builder.blocks_step, hmove]
    simp only [Template.blockPairs, hscan header hheader, hself, Builder.moves_append,
      Builder.moves]
    rw [hmove, Builder.moves_congr hblocks]

theorem action_segment (t : BlockTag text) {header : List Char}
    (hapart : header.head?.all isBlank = true)
    (top : Option Opener) (nodes : List Node) : Builder.action top nodes (t.segment header)
      = Builder.tagAction top nodes t.keyword.text (String.ofList (trim header)) := by
  rw [segment, Builder.action, region, t.keyword.keyword_text t.lead_blank hapart]

/-- The tag opens its block, unless a condition is missing. -/
theorem action_opens (t : BlockTag text) {header : List Char}
    (hapart : header.head?.all isBlank = true) (hopens : t.keyword = .test → trim header ≠ [])
    (top : Option Opener) (nodes : List Node) :
    Builder.action top nodes (t.segment header) =
      .enter (t.keyword.opener (String.ofList (trim header))) := by
  rw [t.action_segment hapart, t.keyword.tagAction_text]
  exact fun htest heq => hopens htest (by simpa using heq)

/-- With another header in a tag the same tags pair, and the templates differ in the block that it
opens alone, if at all. Only a condition must not become empty for that, nor an empty one become a
condition. -/
theorem withHeader_local (t : BlockTag text) :
    ∃ template : String → Template, Template.OneHeader template ∧
      Template.parse text = template (String.ofList (trim t.header)) ∧
      ∀ header, IsHeader header → (t.keyword = .test → (trim header = [] ↔ trim t.header = [])) →
        Template.blockPairs (t.withHeader header) = Template.blockPairs text ∧
          Template.parse (t.withHeader header) = template (String.ofList (trim header)) := by
  obtain ⟨b, back, hrun⟩ := t.parse_withHeader
  have hself := (hrun t.header (.inl rfl)).1
  rw [t.withHeader_header] at hself
  by_cases hopens : t.keyword = .test → trim t.header ≠ []
  -- The tag opens its block, with one header or another, and what follows finds the same blocks
  -- open.
  · let opened (header : String) := b.enter (t.keyword.opener header)
    have hopened : Builder.OneHeader opened :=
      .frames (.member [] (.opener t.keyword.oneHeader_opener b.nodes) b.frames) []
    have hstep {header} (hapart : header.head?.all isBlank = true) (h : t.keyword = .test →
      trim header ≠ []) : b.step (t.segment header) = opened (String.ofList (trim header)) := by
      rw [Builder.step_eq, t.action_opens hapart h]
      rfl
    refine ⟨_, (hopened.foldl back).finish, by rw [hself, hstep t.header_apart hopens], ?_⟩
    intro header hheader hempty
    obtain ⟨hparse, hpairs⟩ := hrun header (.inr hheader)
    have hopens' : t.keyword = .test → trim header ≠ [] :=
      fun h hnil => hopens h ((hempty h).mp hnil)
    refine ⟨hpairs ?_, by rw [hparse, hstep hheader.apart hopens']⟩
    rw [Builder.move, Builder.move, t.action_opens hheader.apart hopens',
      t.action_opens t.header_apart hopens]
    cases t.keyword <;> rfl
  · -- The condition is missing and stays so: the tag is the same error whatever blanks it has.
    obtain ⟨htest, hnil⟩ : t.keyword = .test ∧ trim t.header = [] := by simpa using hopens
    refine ⟨fun _ => Template.parse text, .const _, rfl, fun header hheader hempty => ?_⟩
    obtain ⟨hparse, hpairs⟩ := hrun header (.inr hheader)
    have haction : Builder.action b.top b.nodes (t.segment header)
        = Builder.action b.top b.nodes (t.segment t.header) := by
      rw [t.action_segment hheader.apart, t.action_segment t.header_apart, (hempty htest).mpr hnil,
        hnil]
    refine ⟨hpairs (congrArg Action.move haction), ?_⟩
    rw [hparse, hself, Builder.step_eq, Builder.step_eq, haction]

def nested : String :=
  "\x7b% if false %\x7d\x7b% if true %\x7dx\x7b% endif %\x7dy\x7b% endif %\x7dz"

def inner : BlockTag nested where
  before := [.region ⟨.tag, false, " if false ".toList, false⟩]
  trimBefore := false
  lead := [' ']
  keyword := .test
  header := " true ".toList
  trimAfter := false
  after := [.literal ['x'], .region ⟨.tag, false, " endif ".toList, false⟩, .literal ['y'],
    .region ⟨.tag, false, " endif ".toList, false⟩, .literal ['z']]
  lead_blank _ h := List.mem_singleton.mp h ▸ rfl
  header_apart := by decide +kernel
  cut_eq := by decide +kernel

/-- A condition that cannot be read costs no more than its block. -/
theorem withHeader_local_malformed :
    IsHeader " )( ".toList ∧
      (inner.keyword = .test → (trim " )( ".toList = [] ↔ trim inner.header = [])) ∧
      Template.blockPairs (inner.withHeader " )( ".toList) = Template.blockPairs nested ∧
      ∃ template, Template.OneHeader template ∧ Template.parse nested = template "true" ∧
        Template.parse (inner.withHeader " )( ".toList) = template ")(" := by
  have hheader : IsHeader " )( ".toList :=
    .of_all (by decide +kernel) (by decide +kernel) (by decide +kernel) (by decide +kernel)
  have hempty : inner.keyword = .test → (trim " )( ".toList = [] ↔ trim inner.header = []) := by
    decide +kernel
  obtain ⟨template, htemplate, hparse, h⟩ := inner.withHeader_local
  obtain ⟨hpairs, hparse'⟩ := h _ hheader hempty
  exact ⟨hheader, hempty, hpairs, template, htemplate, hparse, hparse'⟩

/-- Without its condition the inner tag opens nothing: its end ends the outer block, which `y` is
then behind. -/
theorem withHeader_empty_pairs :
    IsHeader [' '] ∧ Template.blockPairs nested = [(1, 3), (0, 5)] ∧
      inner.withHeader [' '] =
        "\x7b% if false %\x7d\x7b% if %\x7dx\x7b% endif %\x7dy\x7b% endif %\x7dz" ∧
      Template.blockPairs (inner.withHeader [' ']) = [(0, 3)] :=
  ⟨.of_all (by decide +kernel) (by decide +kernel) (by decide +kernel) (by decide +kernel),
    by decide +kernel,
    by decide +kernel, by decide +kernel⟩

end BlockTag

end Narrative
