import Narrative.Proofs.Template.Print
import Narrative.Proofs.Trim

/-! Parsing what was printed. The builder reads a printed list of nodes as pushing them one by one,
however many blocks are open, and a printed block leaves the stack as it was. -/

namespace Narrative

open Region (padded Passed)
open Template

theorem outputText_toList (expr : String) :
    (outputText expr).toList = (padded .output expr.toList).source := by
  simp [outputText, Region.source, padded, Region.dash, RegionKind.opening, RegionKind.closing]

theorem tagText_toList (content : String) :
    (tagText content).toList = (padded .tag content.toList).source := by
  simp [tagText, Region.source, padded, Region.dash, RegionKind.opening, RegionKind.closing]

namespace Template.IsExpr

variable {e : String}

theorem toTrimmed (h : IsExpr e) : Trimmed e.toList :=
  trimmed_of_trim_eq (by simpa using h.ne_empty) h.trimmed

theorem passed (h : IsExpr e) {kind : RegionKind} (hkind : kind ≠ .comment) :
    Passed kind e.toList := by
  obtain ⟨ts, hlex⟩ := h.lexes
  exact .lex hkind hlex

end Template.IsExpr

structure IsWord (w : List Char) : Prop where
  ne_nil : w ≠ []
  names : ∀ c ∈ w, continuesName c = true

namespace IsWord

variable {w r : List Char} {kind : RegionKind}

theorem of_isIdentifier {x : String} (h : isIdentifier x = true) : IsWord x.toList := by
  rw [isIdentifier] at h
  cases hx : x.toList with
  | nil => simp [hx] at h
  | cons c cs =>
    simp only [hx, Bool.and_eq_true, List.all_eq_true] at h
    obtain ⟨hc, hcs⟩ := h
    refine ⟨List.cons_ne_nil c cs, fun d hd => ?_⟩
    rcases List.mem_cons.mp hd with rfl | hd
    · exact continuesName_of_startsName hc
    · exact hcs d hd

theorem of_isName {x : String} (h : isName x = true) : IsWord x.toList :=
  of_isIdentifier (Bool.and_eq_true_iff.mp h).1

theorem not_blank (h : IsWord w) : ∀ c ∈ w, isBlank c = false :=
  fun c hc => isBlank_of_continuesName (h.names c hc)

theorem toTrimmed (h : IsWord w) : Trimmed w :=
  ⟨h.ne_nil, fun c hc => h.not_blank c (List.mem_of_head? hc),
    fun c hc => h.not_blank c (List.mem_of_getLast? hc)⟩

theorem passed (h : IsWord w) : Passed kind w :=
  .plain fun c hc => isPlain_of_continuesName (h.names c hc)

theorem trimmed_append (h : IsWord w) (hr : Trimmed r) (between : List Char) :
    Trimmed (w ++ between ++ r) := by
  obtain ⟨c, cs, rfl⟩ := List.exists_cons_of_ne_nil h.ne_nil
  rw [List.append_assoc, List.cons_append, ← List.append_assoc]
  exact hr.cons_append (h.not_blank c (by simp))

end IsWord

namespace Builder

def read (b : Builder) (cs : List Char) : Builder :=
  (Segment.scan cs).foldl step b

variable {b : Builder} {s cs : List Char}

theorem read_nil (b : Builder) : b.read [] = b := by
  rw [read, Segment.scan_nil]
  rfl

theorem read_text (h : IsLiteral s) (hrest : Segment.CanFollow cs) :
    b.read (s ++ cs) = (b.push (.text (String.ofList s))).read cs := by
  rw [read, Segment.scan_literal h hrest]
  rfl

/-- An output is read as what stands in it, without the blanks around that. -/
theorem read_outputText {e : String} (h : (padded .output e.toList).IsWhole)
    (hne : trim e.toList ≠ []) : b.read ((outputText e).toList ++ cs)
      = (b.push (.output (String.ofList (trim e.toList)) (outputText e))).read cs := by
  have hregion : Segment.ofRegion (padded .output e.toList)
      = [.output (trim e.toList) (padded .output e.toList).source] := by
    have htrim : trim (' ' :: (e.toList ++ [' '])) = trim e.toList :=
      trim_padded (by decide) e.toList
    simp [Segment.ofRegion, padded, htrim, hne]
  rw [outputText_toList, read, Segment.scan_padded h, hregion, ← outputText_toList]
  simp [step, read]

theorem read_output {e : String} (h : IsExpr e) :
    b.read ((outputText e).toList ++ cs) = (b.push (.output e (outputText e))).read cs := by
  have hne : trim e.toList ≠ [] := by simpa [h.trimmed] using h.ne_empty
  rw [read_outputText (Region.padded_isWhole (h.passed (by decide))) hne, h.trimmed,
    String.ofList_toList]

theorem read_tagText {content : String} (hp : Passed .tag content.toList) :
    b.read ((tagText content).toList ++ cs)
      = (b.tag (keyword (trim content.toList)).1 (keyword (trim content.toList)).2).read cs := by
  have hregion : Segment.ofRegion (padded .tag content.toList) = [.tag (trim content.toList)] := by
    have htrim : trim (' ' :: (content.toList ++ [' '])) = trim content.toList :=
      trim_padded (by decide) content.toList
    simp [Segment.ofRegion, padded, htrim]
  rw [tagText_toList, read, Segment.scan_padded (Region.padded_isWhole hp), hregion]
  rfl

theorem passed_statement {k r : String} (hk : isIdentifier k = true) (hp : Passed .tag r.toList) :
    Passed .tag (k ++ " " ++ r).toList := by
  have hcontent : (k ++ " " ++ r).toList = k.toList ++ [' '] ++ r.toList := by simp
  have hword : Passed .tag k.toList := (IsWord.of_isIdentifier hk).passed
  have hblank : Passed .tag [' '] := .char ⟨by decide, by decide⟩
  rw [hcontent]
  exact (hword.append hblank).append hp

/-- A statement is read as its keyword and what follows it, without the blanks around that. -/
theorem read_statementText {k r : String} (hk : isIdentifier k = true) (hp : Passed .tag r.toList)
    (hne : trim r.toList ≠ []) :
    b.read ((statementText k r).toList ++ cs) =
      (b.tag k (String.ofList (trim r.toList))).read cs := by
  have hword : IsWord k.toList := .of_isIdentifier hk
  have hcontent : trim (k ++ " " ++ r).toList = k.toList ++ ' ' :: trimEnd r.toList := by
    obtain ⟨c, w, hw⟩ := List.exists_cons_of_ne_nil hword.ne_nil
    have htext : (k ++ " " ++ r).toList = c :: ((w ++ [' ']) ++ r.toList) := by simp [hw]
    rw [htext, trim_cons_of_not_blank (hword.not_blank c (by simp [hw])),
      trimEnd_append _ (exists_not_blank_of_trim hne), hw]
    simp
  have hkeyword : keyword (trim (k ++ " " ++ r).toList) = (k, String.ofList (trim r.toList)) := by
    have htake : (k.toList ++ ' ' :: trimEnd r.toList).takeWhile (!isBlank ·) = k.toList :=
      takeWhile_append_cons (fun c hc => by simp [hword.not_blank c hc]) (by decide)
    have hdrop : (k.toList ++ ' ' :: trimEnd r.toList).dropWhile (!isBlank ·) = ' ' ::
        trimEnd r.toList :=
      dropWhile_append_cons (fun c hc => by simp [hword.not_blank c hc]) (by decide)
    rw [hcontent, keyword, htake, hdrop, trim_cons (by decide), trim_trimEnd, String.ofList_toList]
  rw [statementText, read_tagText (passed_statement hk hp), hkeyword]

theorem read_statement {k r : String} (hk : isIdentifier k = true) (hp : Passed .tag r.toList)
    (ht : Trimmed r.toList) : b.read ((statementText k r).toList ++ cs) = (b.tag k r).read cs := by
  have hne : trim r.toList ≠ [] := ht.trim_eq.symm ▸ ht.ne_nil
  rw [read_statementText hk hp hne, ht.trim_eq, String.ofList_toList]

theorem read_keyword {k : String} (hk : isIdentifier k = true) :
    b.read ((tagText k).toList ++ cs) = (b.tag k "").read cs := by
  have hword : IsWord k.toList := .of_isIdentifier hk
  have hkeyword : keyword (trim k.toList) = (k, "") := by
    have hall : ∀ c ∈ k.toList, (!isBlank c) = true := fun c hc => by simp [hword.not_blank c hc]
    rw [hword.toTrimmed.trim_eq, keyword, takeWhile_all hall, dropWhile_all hall,
      String.ofList_toList]
    rfl
  rw [read_tagText hword.passed, hkeyword]

end Builder

namespace Node

theorem splitOnce_of_notMem {m : Char} {as : List Char} (mark : List Char) (h : m ∉ as)
    (bs : List Char) : splitOnce (m :: mark) (as ++ (m :: mark ++ bs)) = some (as, bs) := by
  induction as with
  | nil =>
    have hprefix : (m :: mark).isPrefixOf (m :: mark ++ bs) = true :=
      List.isPrefixOf_iff_prefix.mpr (List.prefix_append _ _)
    rw [List.nil_append, List.cons_append, splitOnce, ← List.cons_append, if_pos hprefix,
      List.drop_left]
  | cons a as ih =>
    have hne : m ≠ a := fun hm => h (hm ▸ List.mem_cons_self)
    have hprefix : (m :: mark).isPrefixOf (a :: (as ++ (m :: mark ++ bs))) = false := by
      simp [List.isPrefixOf, hne]
    rw [List.cons_append, splitOnce, hprefix, ih fun hm => h (.tail a hm)]
    rfl

variable {x e : String}

theorem ofLoop_header (hx : isName x = true) (he : IsExpr e) (body : List Node) :
    ofLoop (x ++ " in " ++ e) body = .loop x e body := by
  have hword := IsWord.of_isName hx
  have hblank : ' ' ∉ x.toList := fun h => absurd (hword.not_blank ' ' h) (by decide)
  have hsplit : splitOnce [' ', 'i', 'n', ' '] (x ++ " in " ++ e).toList =
      some (x.toList, e.toList) := by
    have := splitOnce_of_notMem ['i', 'n', ' '] hblank e.toList
    simpa using this
  have hparts : loopParts? (x ++ " in " ++ e).toList = some (x, e) := by
    rw [loopParts?, hsplit]
    simp [hword.toTrimmed.trim_eq, he.trimmed, hx, he.ne_empty]
  rw [ofLoop, hparts]

theorem ofStatement_set (hx : isName x = true) (he : IsExpr e) (heq : e.toList.head? ≠ some '=') :
    ofStatement "set" (x ++ " = " ++ e) = .assign x e := by
  have hword := IsWord.of_isName hx
  have hequals : '=' ∉ x.toList ++ [' '] := by
    intro h
    rcases List.mem_append.mp h with h | h
    · exact absurd (hword.names '=' h) (by decide)
    · simp at h
  have hsplit : splitOnce ['='] (x ++ " = " ++ e).toList =
      some (x.toList ++ [' '], ' ' :: e.toList) := by
    have := splitOnce_of_notMem [] hequals (' ' :: e.toList)
    simpa using this
  have hname : trim (x.toList ++ [' ']) = x.toList := hword.toTrimmed.trim_append (by decide)
  have hexpr : trim (' ' :: e.toList) = e.toList := (trim_cons (by decide)).trans he.trimmed
  have hparts : assignParts? (x ++ " = " ++ e).toList = some (x, e) := by
    rw [assignParts?, hsplit]
    simp [hname, hexpr, hx, he.ne_empty, heq]
  simp only [ofStatement, hparts]

end Node

namespace Arms

def branches : Arms → List (String × List Node)
  | .elif test body arms => (test, body) :: branches arms
  | _ => []

def otherwise? : Arms → Option (List Node)
  | .done => none
  | .otherwise body => some body
  | .elif _ _ arms => otherwise? arms

theorem ofList_branches : (arms : Arms) → ofList arms.otherwise? arms.branches = arms
  | .done => rfl
  | .otherwise _ => rfl
  | .elif test body arms => congrArg (Arms.elif test body) (ofList_branches arms)

theorem ofArms_branches (test : String) (body : List Node) (arms : Arms) :
    Node.ofArms (arms.branches.reverse ++ [(test, body)]) arms.otherwise? =
      .cond test body arms := by
  simp [Node.ofArms, ofList_branches]

end Arms

namespace Builder

def pushAll (b : Builder) (ns : List Node) : Builder :=
  { b with nodes := ns.reverse ++ b.nodes }

theorem pushAll_nil (b : Builder) : b.pushAll [] = b := rfl

theorem pushAll_cons (b : Builder) (n : Node) (ns : List Node) :
    b.pushAll (n :: ns) = (b.push n).pushAll ns := by
  simp [pushAll, push]

theorem pushAll_enter (b : Builder) (o : Opener) (ns : List Node) :
    (b.enter o).pushAll ns = ⟨⟨o, b.nodes⟩ :: b.frames, ns.reverse⟩ := by
  simp [pushAll, enter]

variable {b : Builder} {rest : String}

theorem tag_if (h : rest ≠ "") : b.tag "if" rest = b.enter (.test [] rest) := by
  obtain ⟨_ | ⟨⟨_ | _ | _, before⟩, frames⟩, nodes⟩ := b <;> simp [tag, h]

theorem tag_for : b.tag "for" rest = b.enter (.loop rest) := by
  obtain ⟨_ | ⟨⟨_ | _ | _, before⟩, frames⟩, nodes⟩ := b <;> rfl

theorem tag_set : b.tag "set" rest = b.push (.ofStatement "set" rest) := by
  obtain ⟨_ | ⟨⟨_ | _ | _, before⟩, frames⟩, nodes⟩ := b <;> rfl

theorem tag_do : b.tag "do" rest = b.push (.ofStatement "do" rest) := by
  obtain ⟨_ | ⟨⟨_ | _ | _, before⟩, frames⟩, nodes⟩ := b <;> rfl

theorem canFollow_tagText {content : String} (h : Passed .tag content.toList) (cs : List Char) :
    Segment.CanFollow ((tagText content).toList ++ cs) := by
  rw [tagText_toList]
  exact Segment.canFollow_padded h cs

theorem canFollow_keyword {k : String} (hk : isIdentifier k = true) (cs : List Char) :
    Segment.CanFollow ((tagText k).toList ++ cs) :=
  canFollow_tagText (IsWord.of_isIdentifier hk).passed cs

theorem canFollow_statement {k r : String} (hk : isIdentifier k = true) (hp : Passed .tag r.toList)
    (cs : List Char) : Segment.CanFollow ((statementText k r).toList ++ cs) :=
  canFollow_tagText (passed_statement hk hp) cs

section Pair

variable {x e : String} (hx : isName x = true) (he : IsExpr e)

include hx he

theorem passed_pair {m : String} (hm : ∀ c ∈ m.toList, IsPlain c) :
    Passed .tag (x ++ m ++ e).toList := by
  have hcontent : (x ++ m ++ e).toList = x.toList ++ m.toList ++ e.toList := by simp
  have hname : Passed .tag x.toList := (IsWord.of_isName hx).passed
  have hexpr : Passed .tag e.toList := he.passed (by decide)
  rw [hcontent]
  exact (hname.append (.plain hm)).append hexpr

theorem passed_header : Passed .tag (x ++ " in " ++ e).toList :=
  passed_pair hx he (by simp [IsPlain, isQuote])

theorem passed_assignment : Passed .tag (x ++ " = " ++ e).toList :=
  passed_pair hx he (by simp [IsPlain, isQuote])

theorem trimmed_pair (m : String) : Trimmed (x ++ m ++ e).toList := by
  have hcontent : (x ++ m ++ e).toList = x.toList ++ m.toList ++ e.toList := by simp
  rw [hcontent]
  exact (IsWord.of_isName hx).trimmed_append he.toTrimmed m.toList

end Pair

theorem canFollow_printArms : (arms : Arms) → ArmsPrintable arms → (cs : List Char) →
    Segment.CanFollow ((printArms arms).toList ++ cs)
  | .done, _, cs => canFollow_keyword (by decide) cs
  | .otherwise body, _, cs => by
    simp only [printArms, String.toList_append, List.append_assoc]
    exact canFollow_keyword (by decide) _
  | .elif test body arms, h, cs => by
    have htest : IsExpr test := h.1
    simp only [printArms, String.toList_append, List.append_assoc]
    exact canFollow_statement (by decide) (htest.passed (by decide)) _

theorem canFollow_printNode : (n : Node) → IsPrintable n → isText n = false → (cs : List Char) →
    Segment.CanFollow ((printNode n).toList ++ cs)
  | .text _, _, h, _ => by cases h
  | .output e _, ⟨he, _⟩, _, cs => by
    rw [printNode, outputText_toList]
    exact Segment.canFollow_padded (he.passed (by decide)) cs
  | .cond test body arms, h, _, cs => by
    have htest : IsExpr test := h.1
    simp only [printNode, String.toList_append, List.append_assoc]
    exact canFollow_statement (by decide) (htest.passed (by decide)) _
  | .loop x e body, h, _, cs => by
    obtain ⟨hx, he, -⟩ := h
    simp only [printNode, String.toList_append, List.append_assoc]
    exact canFollow_statement (by decide) (passed_header hx he) _
  | .assign x e, ⟨hx, he, _⟩, _, cs => canFollow_statement (by decide) (passed_assignment hx he) cs
  | .run e, he, _, cs => canFollow_statement (by decide) (IsExpr.passed he (by decide)) cs
  | .error _, h, _, _ => h.elim

theorem canFollow_print : (ns : List Node) → ArePrintable ns → ns.head?.any isText = false →
    (cs : List Char) → Segment.CanFollow cs → Segment.CanFollow ((print ns).toList ++ cs)
  | [], _, _, _, hcs => hcs
  | n :: ns, h, hfirst, cs, _ => by
    simp only [print, String.toList_append, List.append_assoc]
    exact canFollow_printNode n h.1 hfirst _

mutual

/-- A printed node is read as the node, before whatever can follow it. -/
theorem read_node : (n : Node) → IsPrintable n → (b : Builder) → (cs : List Char) →
    (isText n = true → Segment.CanFollow cs) →
      b.read ((printNode n).toList ++ cs) = (b.push n).read cs
  | .text s, h, b, cs, hcs => by
    rw [printNode, read_text h (hcs rfl), String.ofList_toList]
  | .output e source, ⟨he, hsource⟩, b, cs, _ => by
    rw [printNode, read_output he, hsource]
  | .cond test body arms, ⟨htest, hbody, harms⟩, b, cs, _ => by
    simp only [printNode, String.toList_append, List.append_assoc]
    rw [read_statement (by decide) (htest.passed (by decide)) htest.toTrimmed,
      tag_if htest.ne_empty, read_nodes body hbody _ _ (canFollow_printArms arms harms cs),
      pushAll_enter, read_arms arms harms [] test body, Arms.ofArms_branches]
    rfl
  | .loop x e body, ⟨hx, he, hbody⟩, b, cs, _ => by
    simp only [printNode, String.toList_append, List.append_assoc]
    rw [read_statement (by decide) (passed_header hx he) (trimmed_pair hx he _), tag_for,
      read_nodes body hbody _ _ (canFollow_keyword (by decide) cs),
      read_keyword (by decide), pushAll_enter]
    simp only [tag, List.reverse_reverse, Node.ofLoop_header hx he]
    rfl
  | .assign x e, ⟨hx, he, heq⟩, b, cs, _ => by
    rw [printNode, read_statement (by decide) (passed_assignment hx he) (trimmed_pair hx he _),
      tag_set, Node.ofStatement_set hx he heq]
  | .run e, he, b, cs, _ => by
    have hrun : Node.ofStatement "do" e = .run e := by simp [Node.ofStatement, he.ne_empty]
    rw [printNode, read_statement (by decide) (he.passed (by decide)) he.toTrimmed, tag_do, hrun]
  | .error _, h, _, _, _ => h.elim

theorem read_nodes : (ns : List Node) → ArePrintable ns → (b : Builder) → (cs : List Char) →
    Segment.CanFollow cs → b.read ((print ns).toList ++ cs) = (b.pushAll ns).read cs
  | [], _, b, cs, _ => by
    rw [pushAll_nil]
    rfl
  | n :: ns, ⟨hn, halone, hns⟩, b, cs, hcs => by
    have hnext : isText n = true → Segment.CanFollow ((print ns).toList ++ cs) := by
      intro htext
      refine canFollow_print ns hns ?_ cs hcs
      simpa [htext] using halone
    simp only [print, String.toList_append, List.append_assoc]
    rw [read_node n hn b _ hnext, read_nodes ns hns _ cs hcs, pushAll_cons]

/-- The arms after the first one close the block that is open for it. -/
theorem read_arms : (arms : Arms) → ArmsPrintable arms → (done : List (String × List Node)) →
    (test : String) → (body before : List Node) → (frames : List Frame) → (cs : List Char) →
    (⟨⟨.test done test, before⟩ :: frames, body.reverse⟩ : Builder).read
      ((printArms arms).toList ++ cs)
      = (⟨frames, .ofArms (arms.branches.reverse ++ (test, body) :: done) arms.otherwise? :: before⟩
          : Builder).read cs
  | .done, _, done, test, body, before, frames, cs => by
    rw [printArms, read_keyword (by decide)]
    simp [tag, Arms.branches, Arms.otherwise?]
  | .otherwise last, h, done, test, body, before, frames, cs => by
    simp only [printArms, String.toList_append, List.append_assoc]
    rw [read_keyword (by decide)]
    have hend : Segment.CanFollow ((tagText "endif").toList ++ cs) :=
      canFollow_keyword (by decide) cs
    have hlast :=
      read_nodes last h ⟨⟨.otherwise ((test, body) :: done), before⟩ :: frames, []⟩ _ hend
    simp only [tag, List.reverse_reverse]
    rw [hlast, read_keyword (by decide)]
    simp [tag, pushAll, Arms.branches, Arms.otherwise?]
  | .elif next nextBody arms, ⟨hnext, hbody, harms⟩, done, test, body, before, frames, cs => by
    simp only [printArms, String.toList_append, List.append_assoc]
    rw [read_statement (by decide) (hnext.passed (by decide)) hnext.toTrimmed]
    have hnextBody :=
      read_nodes nextBody hbody ⟨⟨.test ((test, body) :: done) next, before⟩ :: frames, []⟩
      _ (canFollow_printArms arms harms cs)
    simp only [tag, List.reverse_reverse]
    rw [hnextBody]
    have harms := read_arms arms harms ((test, body) :: done) next nextBody before frames cs
    simpa [pushAll, Arms.branches, Arms.otherwise?] using harms

end

end Builder

namespace Template

mutual

theorem nodeErrors_of_isPrintable : (n : Node) → IsPrintable n → nodeErrors n = []
  | .text _, _ => rfl
  | .output _ _, _ => rfl
  | .cond _ body arms, ⟨_, hbody, harms⟩ => by
    rw [nodeErrors, errors_of_arePrintable body hbody, armErrors_of_armsPrintable arms harms]
    rfl
  | .loop _ _ body, ⟨_, _, hbody⟩ => by rw [nodeErrors, errors_of_arePrintable body hbody]
  | .assign _ _, _ => rfl
  | .run _, _ => rfl
  | .error _, h => h.elim

theorem errors_of_arePrintable : (ns : List Node) → ArePrintable ns → errors ns = []
  | [], _ => rfl
  | n :: ns, ⟨hn, _, hns⟩ => by
    rw [errors, nodeErrors_of_isPrintable n hn, errors_of_arePrintable ns hns]
    rfl

theorem armErrors_of_armsPrintable : (arms : Arms) → ArmsPrintable arms → armErrors arms = []
  | .done, _ => rfl
  | .otherwise body, h => by rw [armErrors, errors_of_arePrintable body h]
  | .elif _ body arms, ⟨_, hbody, harms⟩ => by
    rw [armErrors, errors_of_arePrintable body hbody, armErrors_of_armsPrintable arms harms]
    rfl

end

/-- A printed template parses as itself, without errors. -/
theorem parse_print (t : Template) (h : ArePrintable t) :
    parse (print t) = t ∧ errors (parse (print t)) = [] := by
  have hread := Builder.read_nodes t h Builder.start [] Segment.canFollow_nil
  rw [List.append_nil, Builder.read_nil] at hread
  have hparse : parse (print t) = t := by
    show (Builder.start.read (print t).toList).finish = t
    rw [hread]
    simp [Builder.finish, Builder.pushAll, Builder.start]
  exact ⟨hparse, hparse.symm ▸ errors_of_arePrintable t h⟩

theorem IsExpr.of_isName {x : String} (h : isName x = true) : IsExpr x := by
  have hword := IsWord.of_isName h
  have hlex := Token.lex_name (Bool.and_eq_true_iff.mp h).1 EndsToken.nil.not_name
  rw [List.append_nil, Token.lex_nil] at hlex
  exact ⟨by simpa using hword.ne_nil, hword.toTrimmed.trim_eq, _, hlex⟩

def nested : Template :=
  [.text "Hi ",
    .output "name" (outputText "name"),
    .cond "late" [.loop "guest" "guests" [.text "- ", .output "guest" (outputText "guest")]]
      (.elif "early" [] (.otherwise [.assign "seen" "name", .run "leave"]))]

theorem parse_print_nested :
    ArePrintable nested ∧ parse (print nested) = nested ∧ errors (parse (print nested)) = [] := by
  have houtput : ∀ x, isName x = true → IsPrintable (.output x (outputText x)) :=
    fun x hx => ⟨.of_isName hx, rfl⟩
  have hloop : ArePrintable [.text "- ", .output "guest" (outputText "guest")] :=
    ⟨.of_notMem (by decide) (by decide), by decide, houtput _ (by decide), by decide, trivial⟩
  have hlast : ArePrintable [.assign "seen" "name", .run "leave"] :=
    ⟨⟨by decide, .of_isName (by decide), by decide⟩, by decide, IsExpr.of_isName (by decide),
      by decide, trivial⟩
  have hcond :
      IsPrintable (.cond "late" [.loop "guest" "guests" _] (.elif "early" [] (.otherwise _))) :=
    ⟨.of_isName (by decide), ⟨⟨by decide, .of_isName (by decide), hloop⟩, by decide, trivial⟩,
      .of_isName (by decide), trivial, hlast⟩
  have hprintable : ArePrintable nested :=
    ⟨.of_notMem (by decide) (by decide), by decide, houtput _ (by decide), by decide, hcond,
      by decide, trivial⟩
  exact ⟨hprintable, parse_print nested hprintable⟩

end Template

end Narrative
