import Narrative.Text.Blank

/-! Trimming. Blanks at an end of a text fall away, and from the first character that is none to the
last one nothing does. -/

namespace Narrative

variable {c : Char} {as cs s t ws : List Char}

theorem exists_not_blank (h : ¬ ∀ c ∈ s, isBlank c = true) : ∃ c ∈ s, isBlank c = false := by
  simpa using h

section Start

theorem trimStart_blanks (h : ∀ c ∈ s, isBlank c = true) (t : List Char) :
    trimStart (s ++ t) = trimStart t :=
  List.dropWhile_append_of_pos h

theorem trimStart_cons {c : Char} (h : isBlank c = false) (rest : List Char) :
    trimStart (c :: rest) = c :: rest :=
  List.dropWhile_cons_of_neg (by simp [h])

theorem trimStart_of_head (h : ∀ c, cs.head? = some c → isBlank c = false) : trimStart cs = cs := by
  cases cs with
  | nil => rfl
  | cons c cs => exact trimStart_cons (h c rfl) cs

theorem trimStart_eq_nil_iff : trimStart s = [] ↔ ∀ c ∈ s, isBlank c = true := by
  refine ⟨fun h => ?_, fun h => ?_⟩
  · have hs : s.takeWhile isBlank = s := by
      rw [trimStart] at h
      simpa [h] using List.takeWhile_append_dropWhile (p := isBlank) (l := s)
    exact hs ▸ List.all_eq_true.mp List.all_takeWhile
  · have hs := trimStart_blanks h []
    rwa [List.append_nil] at hs

theorem head?_trimStart (h : (trimStart s).head? = some c) : isBlank c = false := by
  have hhead := List.head?_dropWhile_not isBlank s
  rwa [← trimStart, h] at hhead

theorem trimStart_append (h : ∃ c ∈ s, isBlank c = false) (t : List Char) :
    trimStart (s ++ t) = trimStart s ++ t := by
  have hne : trimStart s ≠ [] := by
    obtain ⟨c, hc, hblank⟩ := h
    exact fun hnil => Bool.false_ne_true (hblank.symm.trans (trimStart_eq_nil_iff.mp hnil c hc))
  rw [trimStart] at hne
  rw [trimStart, List.dropWhile_append, if_neg (by simpa using hne), trimStart]

theorem exists_split (h : ¬ ∀ c ∈ s, isBlank c = true) :
    ∃ ws c t, (∀ c ∈ ws, isBlank c = true) ∧ isBlank c = false ∧ s = ws ++ c :: t := by
  obtain ⟨c, t, ht⟩ := List.exists_cons_of_ne_nil fun hnil => h (trimStart_eq_nil_iff.mp hnil)
  have hs := List.takeWhile_append_dropWhile (p := isBlank) (l := s)
  rw [← trimStart, ht] at hs
  exact ⟨_, c, t, List.all_eq_true.mp List.all_takeWhile,
    head?_trimStart (by rw [ht]; rfl), hs.symm⟩

end Start

section End

theorem trimEnd_eq (s : List Char) : trimEnd s = (trimStart s.reverse).reverse := rfl

theorem trimEnd_blanks (h : ∀ c ∈ t, isBlank c = true) (s : List Char) :
    trimEnd (s ++ t) = trimEnd s := by
  rw [trimEnd_eq, List.reverse_append, trimStart_blanks (by simpa using h), trimEnd_eq]

theorem trimEnd_of_last (h : ∀ c, cs.getLast? = some c → isBlank c = false) : trimEnd cs = cs := by
  rw [trimEnd_eq, trimStart_of_head (by simpa using h), List.reverse_reverse]

theorem trimEnd_append (s : List Char) (h : ∃ c ∈ t, isBlank c = false) :
    trimEnd (s ++ t) = s ++ trimEnd t := by
  rw [trimEnd_eq, List.reverse_append, trimStart_append (by simpa using h), List.reverse_append,
    List.reverse_reverse, trimEnd_eq]

theorem exists_trimEnd_append (s : List Char) :
    ∃ ws, (∀ c ∈ ws, isBlank c = true) ∧ s = trimEnd s ++ ws := by
  refine ⟨(s.reverse.takeWhile isBlank).reverse, fun c hc => ?_, ?_⟩
  · exact List.all_eq_true.mp List.all_takeWhile c (List.mem_reverse.mp hc)
  · rw [trimEnd, ← List.reverse_append, List.takeWhile_append_dropWhile, List.reverse_reverse]

theorem trimEnd_append_of_last (h : ∀ c, s.getLast? = some c → isBlank c = false) (t : List Char) :
    trimEnd (s ++ t) = s ++ trimEnd t := by
  by_cases ht : ∀ c ∈ t, isBlank c = true
  · have hnil : trimEnd t = [] := trimEnd_blanks ht []
    rw [trimEnd_blanks ht, hnil, trimEnd_of_last h, List.append_nil]
  · exact trimEnd_append s (exists_not_blank ht)

theorem trimEnd_cons (hc : isBlank c = false) (t : List Char) : trimEnd (c :: t) = c :: trimEnd t :=
  trimEnd_append_of_last (s := [c]) (by simpa using hc) t

theorem trimEnd_trimEnd (s : List Char) : trimEnd (trimEnd s) = trimEnd s := by
  refine trimEnd_of_last fun c hc => ?_
  rw [trimEnd_eq, List.getLast?_reverse] at hc
  exact head?_trimStart hc

end End

section Both

theorem trim_blanks_append (hws : ∀ c ∈ ws, isBlank c = true) (s : List Char) :
    trim (ws ++ s) = trim s := by
  rw [trim, trimStart_blanks hws, trim]

theorem trim_cons (hc : isBlank c = true) : trim (c :: cs) = trim cs := by
  have hblank : ∀ d ∈ [c], isBlank d = true := by simpa using hc
  exact trim_blanks_append hblank cs

theorem trim_cons_of_not_blank (hc : isBlank c = false) (s : List Char) :
    trim (c :: s) = c :: trimEnd s := by
  rw [trim, trimStart_cons hc, trimEnd_cons hc]

theorem trim_eq_nil_iff : trim s = [] ↔ ∀ c ∈ s, isBlank c = true := by
  refine ⟨fun h => ?_, fun h => by rw [trim, trimStart_eq_nil_iff.mpr h]; rfl⟩
  by_cases hs : ∀ c ∈ s, isBlank c = true
  · exact hs
  · obtain ⟨ws, c, t, hws, hc, rfl⟩ := exists_split hs
    rw [trim_blanks_append hws, trim_cons_of_not_blank hc] at h
    cases h

theorem trim_trimEnd (s : List Char) : trim (trimEnd s) = trim s := by
  by_cases hs : ∀ c ∈ s, isBlank c = true
  · have hnil : trimEnd s = [] := trimEnd_blanks hs []
    rw [hnil, trim_eq_nil_iff.mpr hs]
    rfl
  · obtain ⟨ws, c, t, hws, hc, rfl⟩ := exists_split hs
    rw [trimEnd_append ws ⟨c, List.mem_cons_self, hc⟩, trimEnd_cons hc, trim_blanks_append hws,
      trim_blanks_append hws, trim_cons_of_not_blank hc, trim_cons_of_not_blank hc, trimEnd_trimEnd]

theorem trim_append_blank (hc : isBlank c = true) (s : List Char) : trim (s ++ [c]) = trim s := by
  rw [← trim_trimEnd, trimEnd_blanks (by simpa using hc), trim_trimEnd]

theorem trim_padded (hc : isBlank c = true) (s : List Char) : trim (c :: (s ++ [c])) = trim s :=
  (trim_cons hc).trans (trim_append_blank hc s)

theorem exists_not_blank_of_trim (h : trim s ≠ []) : ∃ c ∈ s, isBlank c = false :=
  exists_not_blank (mt trim_eq_nil_iff.mpr h)

end Both

section Trimmed

structure Trimmed (cs : List Char) : Prop where
  ne_nil : cs ≠ []
  head : ∀ c, cs.head? = some c → isBlank c = false
  last : ∀ c, cs.getLast? = some c → isBlank c = false

theorem trimmed_of_trim_eq (hne : cs ≠ []) (h : trim cs = cs) : Trimmed cs := by
  have hstart : trimStart cs <:+ cs := List.dropWhile_suffix _
  -- A suffix that is no shorter is the text itself: nothing fell away at the start, and so nothing
  -- at the end.
  have hcs : trimStart cs = cs := by
    obtain ⟨ws, -, hend⟩ := exists_trimEnd_append (trimStart cs)
    have hlength := congrArg List.length hend
    rw [← trim, h, List.length_append] at hlength
    exact hstart.eq_of_length (Nat.le_antisymm hstart.length_le (by omega))
  have hcs' : trimEnd cs = cs := by rwa [trim, hcs] at h
  refine ⟨hne, fun c hc => head?_trimStart (s := cs) (by rw [hcs, hc]), fun c hc => ?_⟩
  rw [← hcs', trimEnd_eq, List.getLast?_reverse] at hc
  exact head?_trimStart hc

theorem Trimmed.cons_append (hc : isBlank c = false) (h : Trimmed cs) :
    Trimmed (c :: (as ++ cs)) := by
  refine ⟨List.cons_ne_nil _ _, fun d hd => ?_, fun d hd => ?_⟩
  · obtain rfl : c = d := by simpa using hd
    exact hc
  · have hlast : (c :: (as ++ cs)).getLast? = cs.getLast? := by
      obtain ⟨ds, e, rfl⟩ := List.eq_nil_or_concat cs |>.resolve_left h.ne_nil
      rw [List.concat_eq_append, ← List.append_assoc, ← List.cons_append, List.getLast?_concat,
        List.getLast?_concat]
    exact h.last d (hlast ▸ hd)

theorem Trimmed.trim_eq (h : Trimmed cs) : trim cs = cs := by
  rw [trim, trimStart_of_head h.head, trimEnd_of_last h.last]

theorem Trimmed.trim_append (hc : isBlank c = true) (h : Trimmed cs) : trim (cs ++ [c]) = cs :=
  (trim_append_blank hc cs).trans h.trim_eq

end Trimmed

end Narrative
