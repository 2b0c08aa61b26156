import Narrative.Instant
import Narrative.Proofs.Number.Digits
import Narrative.Proofs.Trim

/-! The text of a moment denotes that moment. -/

namespace Narrative

/-! Numbers in a fixed number of places. -/

theorem digits_writeFixed (width n : Nat) : Digits (writeFixed width n).toList := by
  simp only [writeFixed, String.toList_ofList]
  constructor
  · intro h
    have hlen := congrArg List.length h
    have hpos : 0 < (Nat.toDigits 10 n).length := Nat.length_toDigits_pos
    simp only [List.length_append, List.length_replicate, List.length_nil] at hlen
    omega
  · intro c hc
    rcases List.mem_append.mp hc with hc | hc
    · rw [(List.mem_replicate.mp hc).2]
      decide
    · exact (digits_toDigits n).2 c hc

theorem value_writeFixed (width n : Nat) :
    Nat.ofDigitChars 10 (writeFixed width n).toList 0 = n := by
  simp only [writeFixed, String.toList_ofList, Nat.ofDigitChars_append,
    Nat.ofDigitChars_replicate_zero, Nat.mul_zero, Nat.ofDigitChars_ten_toDigits]

theorem length_writeFixed {width n : Nat} (h : (Nat.toDigits 10 n).length ≤ width) :
    (writeFixed width n).toList.length = width := by
  simp only [writeFixed, String.toList_ofList, List.length_append, List.length_replicate]
  omega

theorem Digits.trimStart_append {ds : List Char} (h : Digits ds) (rest : List Char) :
    trimStart (ds ++ rest) = ds ++ rest := by
  obtain ⟨d, ds, rfl, hd⟩ := h.exists_cons
  exact trimStart_cons (isBlank_of_isDigit hd) (ds ++ rest)

namespace Date

theorem isValid_lt {d : Date} (h : d.isValid) : d.month < 100 ∧ d.day < 100 := by
  have hlen : monthLength d.year d.month ≤ 31 := by
    unfold monthLength
    split
    · split <;> decide
    · split <;> decide
  simp only [isValid, Bool.and_eq_true, decide_eq_true_eq] at h
  omega

end Date

namespace Instant

/-- The moment is one of the calendar and of the clock. -/
structure Valid (t : Instant) : Prop where
  date : t.date.isValid
  hour : t.hour ≤ 23
  minute : t.minute ≤ 59
  second : t.second ≤ 60
  nanos : t.nanos < 1000000000

variable {rest : List Char}

theorem number_append {ds : List Char} {most : Nat} (hd : Digits ds) (hlen : ds.length = most) :
    number most (ds ++ rest) = some (Nat.ofDigitChars 10 ds 0, rest) := by
  have htake : ((ds ++ rest).takeWhile Char.isDigit).take most = ds := by
    rw [List.takeWhile_append_of_pos hd.2, ← hlen, List.take_left]
  obtain ⟨d, ds, rfl, -⟩ := hd.exists_cons
  simp only [number, hd.trimStart_append, htake, List.drop_left]

theorem number_writeFixed {width n : Nat} (h : (Nat.toDigits 10 n).length ≤ width) :
    number width ((writeFixed width n).toList ++ rest) = some (n, rest) := by
  rw [number_append (digits_writeFixed width n) (length_writeFixed h), value_writeFixed]

theorem number_two {n : Nat} (hn : n < 100) :
    number 2 ((writeFixed 2 n).toList ++ rest) = some (n, rest) :=
  number_writeFixed ((Nat.length_toDigits_le_iff (by omega) (by omega)).mpr hn)

theorem mark_cons {c : Char} (hc : isBlank c = false) : mark c (c :: rest) = some ((), rest) := by
  simp only [mark, trimStart_cons hc, if_pos]

theorem signed_append {ds : List Char} {sign : Int} (hd : Digits ds) :
    yearNumber.signed sign (ds ++ '-' :: rest)
      = some (sign * (Nat.ofDigitChars 10 ds 0 : Nat), '-' :: rest) := by
  have htake : (ds ++ '-' :: rest).takeWhile Char.isDigit = ds :=
    takeWhile_append_cons hd.2 (by decide)
  obtain ⟨d, ds, rfl, -⟩ := hd.exists_cons
  simp only [yearNumber.signed, htake, List.drop_left]

theorem yearNumber_four {year : Int} (h : 0 ≤ year ∧ year ≤ 9999) :
    yearNumber ((writeFixed 4 year.natAbs).toList ++ '-' :: rest) = some (year, '-' :: rest) := by
  have hd := digits_writeFixed 4 year.natAbs
  have hnum : number 4 ((writeFixed 4 year.natAbs).toList ++ '-' :: rest)
      = some (year.natAbs, '-' :: rest) :=
    number_writeFixed ((Nat.length_toDigits_le_iff (by omega) (by omega)).mpr (by omega))
  have hvalue : (year.natAbs : Int) = year := Int.natAbs_of_nonneg h.1
  unfold yearNumber
  rw [hd.trimStart_append]
  obtain ⟨c, cs, he, hc⟩ := hd.exists_cons
  rw [he, List.cons_append] at hnum ⊢
  split
  · next hminus =>
    cases hminus
    exact absurd hc (by decide)
  · next hplus =>
    cases hplus
    exact absurd hc (by decide)
  · simp only [hnum, Option.map_some, hvalue]

theorem yearNumber_signed (year : Int) :
    yearNumber ((if year < 0 then "-" else "+").toList ++
      ((writeFixed 4 year.natAbs).toList ++ '-' :: rest))
      = some (year, '-' :: rest) := by
  have hd := digits_writeFixed 4 year.natAbs
  by_cases h : year < 0
  · have hvalue : -1 * (year.natAbs : Int) = year := by omega
    have hminus : "-".toList = ['-'] := rfl
    simp only [if_pos h, hminus, List.cons_append, List.nil_append, yearNumber,
      trimStart_cons (c := '-') (by decide), signed_append hd, value_writeFixed, hvalue]
  · have hvalue : 1 * (year.natAbs : Int) = year := by omega
    have hplus : "+".toList = ['+'] := rfl
    simp only [if_neg h, hplus, List.cons_append, List.nil_append, yearNumber,
      trimStart_cons (c := '+') (by decide), signed_append hd, value_writeFixed, hvalue]

theorem calendarDay_text {d : Date} (h : d.isValid) :
    calendarDay (d.text.toList ++ rest) = some (d, rest) := by
  obtain ⟨hmonth, hday⟩ := Date.isValid_lt h
  have hyear : yearNumber (d.text.toList ++ rest) = some (d.year, '-' ::
      ((writeFixed 2 d.month).toList ++ '-' :: ((writeFixed 2 d.day).toList ++ rest))) := by
    have hdash : "-".toList = ['-'] := rfl
    simp only [Date.text, String.toList_append, hdash, List.append_assoc, List.cons_append,
      List.nil_append]
    split
    · next hfour => exact yearNumber_four hfour
    · simp only [String.toList_append, List.append_assoc]
      exact yearNumber_signed d.year
  simp only [calendarDay, hyear, mark_cons (c := '-') (by decide), number_two hmonth,
    number_two hday, Option.bind_eq_bind, Option.bind_some, h, if_pos]

theorem fraction_places {width n nanos : Nat} (h : (Nat.toDigits 10 n).length ≤ width)
    (hle : width ≤ 9) (hvalue : Nat.ofDigitChars 10 (List.replicate (9 - width) '0') n = nanos) :
    fraction (("." ++ writeFixed width n).toList ++ 'Z' :: rest) = some (nanos, 'Z' :: rest) := by
  have hd := digits_writeFixed width n
  have hlen := length_writeFixed h
  have hmark (c : Char) (hc : ('Z' :: rest).head? = some c) : c.isDigit = false := by
    cases hc
    decide
  have hrun := hd.someRun_append hmark
  have htake : (writeFixed width n).toList.take 9 = (writeFixed width n).toList :=
    List.take_of_length_le (by omega)
  have hpoint : ".".toList = ['.'] := rfl
  simp only [String.toList_append, hpoint, List.cons_append, List.nil_append, fraction, hrun,
    Option.bind_eq_bind, Option.bind_some, htake, hlen, Nat.ofDigitChars_append, value_writeFixed,
    hvalue]

theorem fraction_fractionText {nanos : Nat} (h : nanos < 1000000000) :
    fraction ((fractionText nanos).toList ++ 'Z' :: rest) = some (nanos, 'Z' :: rest) := by
  have hlen {width n : Nat} (hw : 0 < width) (hn : n < 10 ^ width) :
      (Nat.toDigits 10 n).length ≤ width :=
    (Nat.length_toDigits_le_iff (by omega) hw).mpr hn
  unfold fractionText
  split
  · next hzero =>
    rw [hzero]
    rfl
  · split
    · refine fraction_places (hlen (by decide) (by omega)) (by decide) ?_
      rw [Nat.ofDigitChars_replicate_zero]
      omega
    · split
      · refine fraction_places (hlen (by decide) (by omega)) (by decide) ?_
        rw [Nat.ofDigitChars_replicate_zero]
        omega
      · exact fraction_places (hlen (by decide) (by omega)) (by decide) rfl

theorem ofLocal_zero {t : Instant} (h : t.Valid) :
    ofLocal t.date t.hour t.minute t.second t.nanos 0 = t := by
  have hhour := h.hour
  have hminute := h.minute
  have hminutes : ((t.hour * 60 + t.minute : Nat) : Int) - 0 = (t.hour * 60 + t.minute : Nat) := by
    omega
  have hdiv : (t.hour * 60 + t.minute) / 60 = t.hour := by omega
  have hmod : (t.hour * 60 + t.minute) % 60 = t.minute := by omega
  unfold ofLocal
  simp only [hminutes]
  rw [if_neg (by omega), if_neg (by omega)]
  simp only [Int.toNat_natCast, hdiv, hmod]

theorem read_text {t : Instant} (h : t.Valid) : read t.text = some t := by
  have hhour : t.hour < 100 := by have := h.hour; omega
  have hminute : t.minute < 100 := by have := h.minute; omega
  have hsecond : t.second < 100 := by have := h.second; omega
  have htext : t.text.toList = t.date.text.toList ++ 'T' :: ((writeFixed 2 t.hour).toList ++ ':' ::
      ((writeFixed 2 t.minute).toList ++ ':' :: ((writeFixed 2 t.second).toList ++
        ((fractionText t.nanos).toList ++ ['Z'])))) := by
    have hmarks : "T".toList = ['T'] ∧ ":".toList = [':'] ∧ "Z".toList = ['Z'] := ⟨rfl, rfl, rfl⟩
    simp only [text, String.toList_append, hmarks, List.append_assoc, List.cons_append,
      List.nil_append]
  have hoffset : offset ['Z'] = some (0, []) := rfl
  have hrest : (trimStart []).isEmpty := rfl
  simp only [read, htext, calendarDay_text h.date, number_two hhour, number_two hminute,
    number_two hsecond, mark_cons (c := ':') (by decide), fraction_fractionText h.nanos, hoffset,
    Option.bind_eq_bind, Option.bind_some, ofLocal_zero h, hrest, h.hour, h.minute, h.second,
    h.date]
  rfl

end Instant

end Narrative
