import Narrative.Proofs.Json.Scalar

/-! A document is the one that its indented text denotes, if its numbers are whole and fit 64 bits
and it is not nested too deep. -/

namespace Narrative.Json

/-- The text of a document denotes the document: it has no floats, its whole numbers fit 64 bits,
and at most `depth` lists and tables stand inside one another. -/
inductive Keeps : Nat → Json → Prop where
  | null {depth : Nat} : Keeps depth .null
  | bool {depth : Nat} (b : Bool) : Keeps depth (.bool b)
  | int {depth : Nat} {n : Int} (h : IsWord n) : Keeps depth (.int n)
  | text {depth : Nat} (s : String) : Keeps depth (.text s)
  | list {depth : Nat} {items : List Json} (h : ∀ d ∈ items, Keeps depth d) :
      Keeps (depth + 1) (.list items)
  | table {depth : Nat} {fields : List (String × Json)} (h : ∀ f ∈ fields, Keeps depth f.2) :
      Keeps (depth + 1) (.table fields)

variable {rest : List Char}

theorem skipGap_cons {c : Char} (h : isGap c = false) : skipGap (c :: rest) = c :: rest :=
  List.dropWhile_cons_of_neg (by simp [h])

theorem skipGap_append {gap : List Char} (h : ∀ c ∈ gap, isGap c) :
    skipGap (gap ++ rest) = skipGap rest :=
  List.dropWhile_append_of_pos h

section CommaList

variable {α : Type} {item : Reader α} {write : α → List Char} {close : Char} {gap last : List Char}

def itemsText (gap : List Char) (write : α → List Char) (a : α) (as : List α) : List Char :=
  write a ++ as.flatMap fun b => ',' :: (gap ++ write b)

theorem itemsText_nil (a : α) : itemsText gap write a [] = write a :=
  List.append_nil _

theorem itemsText_cons (a b : α) (as : List α) :
    itemsText gap write a (b :: as) = write a ++ ',' :: (gap ++ itemsText gap write b as) := by
  simp only [itemsText, List.flatMap_cons, List.cons_append, List.append_assoc]

/-- The item is read back from its text, whatever follows it that does not go on with a number, and
the text cannot be taken for a gap or for the end of the list. -/
structure ReadBack (item : Reader α) (write : α → List Char) (close : Char) (a : α) : Prop where
  read : ∀ more, EndsNumber more → item (write a ++ more) = some (a, more)
  head : ∃ c cs, write a = c :: cs ∧ isGap c = false ∧ c ≠ close

theorem ReadBack.exists_cons {a : α} (h : ReadBack item write close a) (gap : List Char)
    (as : List α) : ∃ c cs, itemsText gap write a as = c :: cs ∧ isGap c = false ∧ c ≠ close := by
  obtain ⟨c, cs, he, hc, hne⟩ := h.head
  rw [itemsText, he, List.cons_append]
  exact ⟨c, _, rfl, hc, hne⟩

theorem endsNumber_comma : EndsNumber (',' :: rest) := by
  intro c hc
  cases hc
  decide

theorem length_lt_itemsText {a : α} (gap : List Char) (as : List α) (ha : write a ≠ []) :
    as.length < (itemsText gap write a as).length := by
  have hpos : 0 < (write a).length := List.length_pos_iff.mpr ha
  have hlen : as.length ≤ (as.flatMap fun b => ',' :: (gap ++ write b)).length := by
    induction as with
    | nil => exact Nat.zero_le _
    | cons b as ih =>
      simp only [List.flatMap_cons, List.length_append, List.length_cons]
      omega
  rw [itemsText, List.length_append]
  omega

variable (hcomma : close ≠ ',') (hclose : isGap close = false) (hgap : ∀ c ∈ gap, isGap c)
  (hlast : ∀ c ∈ last, isGap c) (hends : EndsNumber (last ++ close :: rest))

include hcomma hclose hgap hlast hends

theorem items_append {a : α} {as : List α} {limit : Nat}
    (hitem : ∀ b ∈ a :: as, ReadBack item write close b) (hlimit : as.length < limit) :
    Reader.commaList.items item skipGap close false limit
      (itemsText gap write a as ++ (last ++ close :: rest)) = some (a :: as, rest) := by
  have ha := hitem a List.mem_cons_self
  induction as generalizing a limit with
  | nil =>
    cases limit with
    | zero => cases hlimit
    | succ limit =>
      simp only [itemsText_nil, Reader.commaList.items, ha.read _ hends, Option.bind_eq_bind,
        Option.bind_some, skipGap_append hlast, skipGap_cons hclose, if_pos]
  | cons b as ih =>
    cases limit with
    | zero => cases hlimit
    | succ limit =>
      have hb := hitem b (List.mem_cons_of_mem _ List.mem_cons_self)
      have hrest :=
        ih (fun d hd => hitem d (List.mem_cons_of_mem _ hd)) (Nat.lt_of_succ_lt_succ hlimit) hb
      have hnext : ',' ≠ close := fun h => hcomma h.symm
      -- The next item is what stands after the comma and the gap, and it is not the closing mark.
      obtain ⟨c, cs, htext, hc, hne⟩ := hb.exists_cons gap as
      rw [htext, List.cons_append] at hrest
      simp only [itemsText_cons, htext, List.append_assoc, List.cons_append, Reader.commaList.items,
        ha.read _ endsNumber_comma, Option.bind_eq_bind, Option.bind_some,
        skipGap_cons (c := ',') (by decide), if_neg hnext, if_pos, skipGap_append hgap,
        skipGap_cons hc, if_neg hne, hrest]

theorem commaList_append {a : α} {as : List α} {cs : List Char}
    (hitem : ∀ b ∈ a :: as, ReadBack item write close b)
    (hcs : cs = gap ++ (itemsText gap write a as ++ (last ++ close :: rest))) :
    Reader.commaList item skipGap close false cs.length cs = some (a :: as, rest) := by
  have ha := hitem a List.mem_cons_self
  have hlimit : as.length < cs.length := by
    obtain ⟨c, ds, he, -⟩ := ha.head
    have hlt := length_lt_itemsText gap as (he ▸ List.cons_ne_nil c ds)
    rw [hcs, List.length_append, List.length_append]
    omega
  have hitems := items_append hcomma hclose hgap hlast hends hitem hlimit
  obtain ⟨c, ds, htext, hc, hne⟩ := ha.exists_cons gap as
  have hskip : skipGap cs = c :: (ds ++ (last ++ close :: rest)) := by
    rw [hcs, skipGap_append hgap, htext]
    exact skipGap_cons hc
  rw [htext, List.cons_append] at hitems
  simp only [Reader.commaList, hskip, if_neg hne, hitems]

end CommaList

section Indented

@[simp] theorem indented_null (depth : Nat) : null.indented depth = "null" := by
  simp [indented, scalar]

@[simp] theorem indented_bool (depth : Nat) (b : Bool) :
    (bool b).indented depth = if b then "true" else "false" := by
  cases b <;> simp [indented, scalar]

@[simp] theorem indented_int (depth : Nat) (n : Int) : (int n).indented depth = writeInt n := by
  simp [indented, scalar]

@[simp] theorem indented_text (depth : Nat) (s : String) : (text s).indented depth = quote s := by
  simp [indented, scalar]

@[simp] theorem indented_nil (depth : Nat) : (list []).indented depth = "[]" := by
  rw [indented]

@[simp] theorem indented_empty (depth : Nat) : (table []).indented depth = "\x7b\x7d" := by
  rw [indented]

def fieldText (depth : Nat) (f : String × Json) : List Char :=
  (quote f.1).toList ++ (':' :: ' ' :: (f.2.indented depth).toList)

theorem toList_indentedItems (depth : Nat) (d : Json) (ds : List Json) :
    (indentedItems depth (d :: ds)).toList = (newline depth).toList ++
      itemsText (newline depth).toList (fun e => (e.indented depth).toList) d ds := by
  have hcomma : ",".toList = [','] := rfl
  induction ds generalizing d with
  | nil => simp only [indentedItems, String.toList_append, itemsText_nil]
  | cons e ds ih =>
    simp only [indentedItems, String.toList_append, hcomma, ih, itemsText_cons, List.append_assoc,
      List.cons_append, List.nil_append]

theorem toList_indentedFields (depth : Nat) (f : String × Json) (fs : List (String × Json)) :
    (indentedFields depth (f :: fs)).toList = (newline depth).toList ++
      itemsText (newline depth).toList (fieldText depth) f fs := by
  have hcomma : ",".toList = [','] := rfl
  have hcolon : ": ".toList = [':', ' '] := rfl
  induction fs generalizing f with
  | nil =>
    simp only [indentedFields, fieldText, String.toList_append, hcolon, itemsText_nil,
      List.append_assoc, List.cons_append, List.nil_append]
  | cons g fs ih =>
    simp only [indentedFields, ih, String.toList_append, hcolon, hcomma, itemsText_cons]
    simp only [fieldText, List.append_assoc, List.cons_append, List.nil_append]

theorem isGap_newline (depth : Nat) : ∀ c ∈ (newline depth).toList, isGap c := by
  intro c hc
  rw [newline, String.toList_ofList] at hc
  rcases List.mem_cons.mp hc with rfl | hc
  · decide
  · rw [(List.mem_replicate.mp hc).2]
    decide

theorem endsNumber_newline (depth : Nat) (rest : List Char) :
    EndsNumber ((newline depth).toList ++ rest) := by
  intro c hc
  rw [newline, String.toList_ofList] at hc
  cases hc
  decide

theorem toList_indented_list (depth : Nat) (d : Json) (ds : List Json) :
    ((list (d :: ds)).indented depth).toList = '[' :: ((newline (depth + 1)).toList ++
      (itemsText (newline (depth + 1)).toList (fun e => (e.indented (depth + 1)).toList) d ds ++
        ((newline depth).toList ++ [']']))) := by
  have hopen : "[".toList = ['['] := rfl
  have hclose : "]".toList = [']'] := rfl
  simp only [indented, String.toList_append, toList_indentedItems, hopen, hclose, List.append_assoc,
    List.cons_append, List.nil_append]

theorem toList_indented_table (depth : Nat) (f : String × Json) (fs : List (String × Json)) :
    ((table (f :: fs)).indented depth).toList = '\x7b' :: ((newline (depth + 1)).toList ++
      (itemsText (newline (depth + 1)).toList (fieldText (depth + 1)) f fs ++
        ((newline depth).toList ++ ['\x7d']))) := by
  have hopen : "\x7b".toList = ['\x7b'] := rfl
  have hclose : "\x7d".toList = ['\x7d'] := rfl
  simp only [indented, String.toList_append, toList_indentedFields, hopen, hclose,
    List.append_assoc, List.cons_append, List.nil_append]

theorem isGap_of_isDigit {c : Char} (h : c.isDigit) : isGap c = false := by
  refine Bool.eq_false_iff.mpr fun hg => ?_
  simp only [isGap, Bool.or_eq_true, decide_eq_true_eq] at hg
  rcases hg with ((rfl | rfl) | rfl) | rfl <;> exact absurd h (by decide)

theorem Keeps.head {k : Nat} {d : Json} (h : d.Keeps k) (depth : Nat) :
    ∃ c cs, (d.indented depth).toList = c :: cs ∧ isGap c = false ∧ c ≠ ']' := by
  cases h with
  | null =>
    rw [indented_null]
    exact ⟨'n', ['u', 'l', 'l'], rfl, by decide, by decide⟩
  | bool b =>
    rw [indented_bool]
    cases b with
    | false => exact ⟨'f', ['a', 'l', 's', 'e'], rfl, by decide, by decide⟩
    | true => exact ⟨'t', ['r', 'u', 'e'], rfl, by decide, by decide⟩
  | @int _ n =>
    obtain ⟨c, cs, he, hc⟩ := (digits_toDigits n.natAbs).exists_cons
    rw [indented_int, toList_writeInt]
    split
    · exact ⟨'-', _, rfl, by decide, by decide⟩
    · exact ⟨c, cs, he, isGap_of_isDigit hc, fun hb => absurd (hb ▸ hc) (by decide)⟩
  | text s =>
    rw [indented_text]
    exact ⟨'"', _, toList_quote s, by decide, by decide⟩
  | @list _ items =>
    cases items with
    | nil =>
      rw [indented_nil]
      exact ⟨'[', [']'], rfl, by decide, by decide⟩
    | cons d ds => exact ⟨'[', _, toList_indented_list depth d ds, by decide, by decide⟩
  | @table _ fields =>
    cases fields with
    | nil =>
      rw [indented_empty]
      exact ⟨'\x7b', ['\x7d'], rfl, by decide, by decide⟩
    | cons f fs => exact ⟨'\x7b', _, toList_indented_table depth f fs, by decide, by decide⟩

theorem valueWithin_gap {k : Nat} {gap : List Char} (h : ∀ c ∈ gap, isGap c) :
    valueWithin k (gap ++ rest) = valueWithin k rest := by
  rw [valueWithin.eq_def, valueWithin.eq_def k rest]
  simp only [skipGap_append h]

theorem valueWithin_digit {k : Nat} {c : Char} (h : c.isDigit) :
    valueWithin k (c :: rest) = unsignedNumber false (c :: rest) := by
  rw [valueWithin.eq_def]
  simp only [skipGap_cons (isGap_of_isDigit h)]
  split
  case h_8 => rfl
  all_goals
    next he =>
      cases he
      exact absurd h (by decide)

theorem head_fieldText (depth : Nat) (f : String × Json) :
    ∃ c cs, fieldText depth f = c :: cs ∧ isGap c = false ∧ c ≠ '\x7d' := by
  rw [fieldText, toList_quote]
  exact ⟨'"', _, rfl, by decide, by decide⟩

theorem exactly_append (mark : String) :
    Reader.exactly mark (mark.toList ++ rest) = some ((), rest) := by
  simp [Reader.exactly]

theorem fieldWith_append {k depth : Nat} {f : String × Json} (h : ∀ more, EndsNumber more →
      valueWithin k ((f.2.indented depth).toList ++ more) = some (f.2, more))
    (hr : EndsNumber rest) :
      fieldWith (valueWithin k) (fieldText depth f ++ rest) = some (f, rest) := by
  have hvalue : valueWithin k (' ' :: ((f.2.indented depth).toList ++ rest)) =
      some (f.2, rest) := by
    have hblank : ∀ c ∈ [' '], isGap c := List.forall_mem_singleton.mpr rfl
    rw [← List.singleton_append, valueWithin_gap hblank]
    exact h rest hr
  simp only [fieldWith, fieldText, toList_quote, List.cons_append, List.append_assoc,
    List.nil_append, skipGap_cons (c := '"') (by decide), skipGap_cons (c := ':') (by decide),
    quoted_flatMap, hvalue, Option.bind_eq_bind, Option.bind_some, String.ofList_toList]

/-- A document is read back from its indented text, whatever follows it that does not go on with a
number. -/
theorem Keeps.valueWithin_append {k : Nat} {d : Json} (h : d.Keeps k) (depth : Nat)
    (hr : EndsNumber rest) :
    valueWithin k ((d.indented depth).toList ++ rest) = some (d, rest) := by
  induction h generalizing depth rest with
  | null =>
    have htext : "null".toList = 'n' :: "ull".toList := rfl
    rw [indented_null, htext, List.cons_append, valueWithin.eq_def]
    simp only [skipGap_cons (c := 'n') (by decide), exactly_append, Option.map_some]
  | bool b =>
    cases b with
    | false =>
      have htext : "false".toList = 'f' :: "alse".toList := rfl
      rw [indented_bool, if_neg (by decide), htext, List.cons_append, valueWithin.eq_def]
      simp only [skipGap_cons (c := 'f') (by decide), exactly_append, Option.map_some]
    | true =>
      have htext : "true".toList = 't' :: "rue".toList := rfl
      rw [indented_bool, if_pos rfl, htext, List.cons_append, valueWithin.eq_def]
      simp only [skipGap_cons (c := 't') (by decide), exactly_append, Option.map_some]
  | @int _ n h =>
    have hnumber := number?_toDigits h
    rw [indented_int, toList_writeInt]
    split
    · next hneg =>
      rw [decide_eq_true hneg] at hnumber
      rw [List.cons_append, valueWithin.eq_def]
      simp only [skipGap_cons (c := '-') (by decide)]
      exact unsignedNumber_toDigits hr hnumber
    · next hneg =>
      rw [decide_eq_false hneg] at hnumber
      obtain ⟨c, cs, he, hc⟩ := (digits_toDigits n.natAbs).exists_cons
      have hread := unsignedNumber_toDigits hr hnumber
      rw [he, List.cons_append] at hread ⊢
      exact (valueWithin_digit hc).trans hread
  | text s =>
    rw [indented_text, toList_quote, valueWithin.eq_def]
    simp only [List.cons_append, List.append_assoc, List.nil_append,
      skipGap_cons (c := '"') (by decide), quoted_flatMap, Option.map_some, String.ofList_toList]
  | @list k items h ih =>
    cases items with
    | nil =>
      have htext : "[]".toList = ['[', ']'] := rfl
      have hlist :
        Reader.commaList (valueWithin k) skipGap ']' false (']' :: rest).length (']' :: rest)
          = some ([], rest) := by
        simp only [Reader.commaList, skipGap_cons (c := ']') (by decide), if_pos]
      rw [indented_nil, htext, valueWithin.eq_def]
      simp only [List.cons_append, List.nil_append, skipGap_cons (c := '[') (by decide), hlist,
        Option.map_some]
    | cons d ds =>
      have hitem : ∀ e ∈ d :: ds, ReadBack (valueWithin k)
          (fun e => (e.indented (depth + 1)).toList) ']' e :=
        fun e he => ⟨fun _ hmore => ih e he (depth + 1) hmore, (h e he).head (depth + 1)⟩
      have hlist := commaList_append (by decide) (by decide) (isGap_newline (depth + 1))
        (isGap_newline depth) (endsNumber_newline depth (']' :: rest)) hitem rfl
      rw [toList_indented_list, valueWithin.eq_def]
      simp only [List.cons_append, skipGap_cons (c := '[') (by decide), List.append_assoc,
        List.nil_append, hlist, Option.map_some]
  | @table k fields h ih =>
    cases fields with
    | nil =>
      have htext : "\x7b\x7d".toList = ['\x7b', '\x7d'] := rfl
      have hlist :
        Reader.commaList (fieldWith (valueWithin k)) skipGap '\x7d' false ('\x7d' :: rest).length
          ('\x7d' :: rest) = some ([], rest) := by
        simp only [Reader.commaList, skipGap_cons (c := '\x7d') (by decide), if_pos]
      rw [indented_empty, htext, valueWithin.eq_def]
      simp only [List.cons_append, List.nil_append, skipGap_cons (c := '\x7b') (by decide), hlist,
        Option.map_some]
    | cons f fs =>
      have hitem :
          ∀ g ∈ f :: fs, ReadBack (fieldWith (valueWithin k)) (fieldText (depth + 1)) '\x7d' g :=
        fun g hg =>
          ⟨fun _ hmore => fieldWith_append (fun _ hmore => ih g hg (depth + 1) hmore) hmore,
          head_fieldText (depth + 1) g⟩
      have hlist := commaList_append (by decide) (by decide) (isGap_newline (depth + 1))
        (isGap_newline depth) (endsNumber_newline depth ('\x7d' :: rest)) hitem rfl
      rw [toList_indented_table, valueWithin.eq_def]
      simp only [List.cons_append, skipGap_cons (c := '\x7b') (by decide), List.append_assoc,
        List.nil_append, hlist, Option.map_some]

end Indented

theorem Keeps.read_pretty {d : Json} (h : d.Keeps depthLimit) : read d.pretty = some d := by
  have hend : EndsNumber [] := fun c hc => nomatch hc
  have hread := h.valueWithin_append 0 hend
  rw [List.append_nil] at hread
  have hrest : (skipGap []).isEmpty := rfl
  simp only [read, pretty, hread, Option.bind_eq_bind, Option.bind_some, hrest, if_pos]

end Narrative.Json
