import Narrative.Proofs.Shorthand.Quotation

/-! The words of a text: none is empty, blanks stand only inside quotations, and only the last may
leave a quotation open. -/

namespace Narrative.Shorthand

open Quotation

/-- Every blank of the word is inside a quotation. -/
def Unbroken (w : List Char) : Prop :=
  ∀ before c after, w = before ++ c :: after → outside.run before = outside → isBlank c = false

theorem Unbroken.nil : Unbroken [] :=
  fun before c after h => by simp at h

theorem Unbroken.snoc {w : List Char} {c : Char} (h : Unbroken w)
    (hc : outside.run w = outside → isBlank c = false) : Unbroken (w ++ [c]) := by
  intro before d after he hrun
  rcases List.eq_nil_or_concat after with rfl | ⟨after, e, rfl⟩
  · obtain ⟨rfl, hd⟩ := List.append_inj' he rfl
    cases hd
    exact hc hrun
  · rw [List.concat_eq_append, ← List.cons_append, ← List.append_assoc] at he
    obtain ⟨rfl, _⟩ := List.append_inj' he rfl
    exact h before d after rfl hrun

/-- What word splitting has so far: an unbroken word that leads to where it stands. -/
structure WordSoFar (word : List Char) (q : Quotation) : Prop where
  run : outside.run word.reverse = q
  unbroken : Unbroken word.reverse

theorem WordSoFar.nil : WordSoFar [] .outside :=
  ⟨rfl, .nil⟩

theorem WordSoFar.cons {word : List Char} {q : Quotation} {c : Char} (h : WordSoFar word q)
    (hc : q = .outside → isBlank c = false) : WordSoFar (c :: word) (q.step c) := by
  refine ⟨?_, ?_⟩
  · rw [List.reverse_cons, run_append, h.run]
    rfl
  · rw [List.reverse_cons]
    exact h.unbroken.snoc fun ho => hc (h.run.symm.trans ho)

theorem wordsFrom_unbroken {word : List Char} {q : Quotation} {cs : List Char}
    (h : WordSoFar word q) : ∀ w ∈ wordsFrom word q cs, w ≠ [] ∧ Unbroken w := by
  fun_induction wordsFrom word q cs with
  | case1 => simp
  | case2 word q hne =>
    intro w hw
    rw [List.mem_singleton.mp hw]
    exact ⟨by simpa using hne, h.unbroken⟩
  | case3 word q c cs hb hw ih => exact ih .nil
  | case4 word q c cs hb hne ih =>
    intro w hw
    rcases List.mem_cons.mp hw with rfl | hw
    · exact ⟨by simpa using hne, h.unbroken⟩
    · exact ih .nil w hw
  | case5 word q c cs hb ih => exact ih (h.cons fun ho => by simpa [ho] using hb)

theorem wordsFrom_closed {word : List Char} {q : Quotation} {cs : List Char}
    (h : WordSoFar word q) : ∀ w ∈ (wordsFrom word q cs).dropLast, outside.run w = outside := by
  fun_induction wordsFrom word q cs with
  | case1 => simp
  | case2 => simp
  | case3 word q c cs hb hw ih => exact ih .nil
  | case4 word q c cs hb hne ih =>
    intro w hw
    rcases List.eq_nil_or_concat (wordsFrom [] .outside cs) with he | ⟨ws, l, he⟩
    · simp [he] at hw
    · rw [List.dropLast_cons_of_ne_nil (by simp [he])] at hw
      rcases List.mem_cons.mp hw with rfl | hw
      · rw [h.run]
        simp only [Bool.and_eq_true, decide_eq_true_eq] at hb
        exact hb.1
      · exact ih .nil w hw
  | case5 word q c cs hb ih => exact ih (h.cons fun ho => by simpa [ho] using hb)

/-- A text leaves no quotation open exactly if none of its words does. -/
theorem wordsFrom_closed_iff {word : List Char} {q : Quotation} {cs : List Char}
    (h : WordSoFar word q) :
    q.run cs = outside ↔ ∀ w ∈ wordsFrom word q cs, outside.run w = outside := by
  fun_induction wordsFrom word q cs with
  | case1 word q hword =>
    obtain rfl : word = [] := by simpa using hword
    rw [← h.run]
    simp [Quotation.run]
  | case2 word q hne =>
    rw [List.forall_mem_singleton, h.run]
    rfl
  | case3 word q c cs hb hw ih =>
    obtain ⟨rfl, hc⟩ : q = outside ∧ isBlank c = true := by simpa using hb
    rw [run_outside_cons (isQuote_of_isBlank hc)]
    exact ih .nil
  | case4 word q c cs hb hne ih =>
    obtain ⟨rfl, hc⟩ : q = outside ∧ isBlank c = true := by simpa using hb
    rw [run_outside_cons (isQuote_of_isBlank hc), List.forall_mem_cons, ih .nil]
    exact (and_iff_right h.run).symm
  | case5 word q c cs hb ih => exact ih (h.cons fun ho => by simpa [ho] using hb)

theorem words_unbroken {s w : String} (h : w ∈ words s) : w.toList ≠ [] ∧ Unbroken w.toList := by
  obtain ⟨cs, hcs, rfl⟩ := List.mem_map.mp h
  rw [String.toList_ofList]
  exact wordsFrom_unbroken .nil cs hcs

theorem words_closed {s w : String} (h : w ∈ (words s).dropLast) :
    outside.run w.toList = outside := by
  rw [words, ← List.map_dropLast] at h
  obtain ⟨cs, hcs, rfl⟩ := List.mem_map.mp h
  rw [String.toList_ofList]
  exact wordsFrom_closed .nil cs hcs

theorem words_closed_iff {s : String} :
    (∀ w ∈ words s, outside.run w.toList = outside) ↔ outside.run s.toList = outside := by
  rw [wordsFrom_closed_iff .nil, words, List.forall_mem_map]
  simp only [String.toList_ofList]

end Narrative.Shorthand
