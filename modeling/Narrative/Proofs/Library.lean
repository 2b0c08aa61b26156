import Narrative.Library
import Narrative.Proofs.Storage.Regular
import Narrative.Proofs.Storage.Way

/-! What the library lists and what it opens. An id opens a game where it is one name in front, with
nothing behind it but steps that stay; an id that is written from the root opens the root alone. -/

namespace Narrative

namespace Path

variable {p : Path} {id : String} {c : Char}

theorem textSteps_cons (cs : List Char) (hc : c ≠ '/') :
    ∃ part rest, textSteps (c :: cs) = Step.ofSegment (c :: part) :: rest := by
  obtain ⟨part, parts, hparts⟩ := List.exists_cons_of_ne_nil (splitChar_ne_nil '/' cs)
  refine ⟨part, (parts.filter (!·.isEmpty)).map Step.ofSegment, ?_⟩
  simp [textSteps, splitChar, hc, hparts]

theorem isSome_steps (h : p.text ≠ "") : (p.steps.isEmpty && !p.isAbsolute) = false := by
  obtain ⟨c, cs, hcs⟩ := List.exists_cons_of_ne_nil (by simpa using h : p.text.toList ≠ [])
  by_cases hc : c = '/'
  · simp [isAbsolute, hcs, hc]
  · obtain ⟨part, rest, hsteps⟩ := textSteps_cons cs hc
    simp [steps_eq, hcs, hsteps]

theorem parts_of_isAbsolute (h : p.isAbsolute = true) : p.parts = p.steps.filter (· ≠ .here) := by
  unfold parts
  split
  · next hsteps => simp [hsteps, h]
  · rfl

theorem exists_steps_of_head (hne : id ≠ "") (hslash : id.toList.head? ≠ some '/')
    (hdot : id.toList.head? ≠ some '.') : ∃ n rest, (Path.mk id).steps = .name n :: rest := by
  obtain ⟨c, cs, hcs⟩ := List.exists_cons_of_ne_nil (by simpa using hne : id.toList ≠ [])
  rw [hcs, List.head?_cons] at hslash hdot
  have hc : c ≠ '.' := fun hc => hdot (congrArg some hc)
  obtain ⟨part, rest, hsteps⟩ := textSteps_cons cs fun hc => hslash (congrArg some hc)
  refine ⟨String.ofList (c :: part), rest, ?_⟩
  rw [steps_eq, hcs, hsteps]
  simp [Step.ofSegment, hc]

end Path

namespace Library

variable {d : Disk} {dir path : Path} {id n : String} {g : GameInfo}

def game (d : Disk) (dir : Path) (id : String) : GameInfo :=
  GameInfo.ofMetadata id (dir.join id) (metadata d (dir.join id))

/-- The games are the directories in the library, each under its name. -/
theorem mem_scan_iff : g ∈ scan d dir ↔
    d.IsOpen dir ∧ d.seen? (d.place dir ++ [g.id]) ≠ none ∧ d.isDir (dir.join g.id) = true ∧
      g = game d dir g.id := by
  have hmem (names : List String) (hnames : d.names dir = .ok names) :
      g ∈ scan d dir ↔ g.id ∈ names ∧ d.isDir (dir.join g.id) = true ∧ g = game d dir g.id := by
    simp only [scan, hnames, List.mem_map, List.mem_filter, List.mem_mergeSort]
    constructor
    · rintro ⟨id, ⟨hid, hdir⟩, rfl⟩
      exact ⟨hid, hdir, rfl⟩
    · rintro ⟨hid, hdir, hg⟩
      exact ⟨g.id, ⟨hid, hdir⟩, hg.symm⟩
  constructor
  · intro hg
    cases hnames : d.names dir with
    | error e => simp [scan, hnames] at hg
    | ok names =>
      have hopen := Disk.isOpen_of_names hnames
      obtain ⟨names', hnames', hseen⟩ := hopen.names
      obtain ⟨hid, hdir⟩ := (hmem names' hnames').mp hg
      exact ⟨hopen, (hseen g.id).mp hid, hdir⟩
  · rintro ⟨hopen, hid, hdir⟩
    obtain ⟨names, hnames, hseen⟩ := hopen.names
    exact (hmem names hnames).mpr ⟨(hseen g.id).mpr hid, hdir⟩

theorem gamePath?_eq_some_iff : gamePath? d dir id = some path ↔
    isPlainId id = true ∧ d.isDir (dir.join id) = true ∧ dir.join id = path := by
  simp [gamePath?, and_assoc]

theorem isPlainId_iff : isPlainId id = true ↔
    (Path.mk id).parts.length + (if (Path.mk id).isAbsolute then 1 else 0) = 1 ∧
      id.toList.head? ≠ some '.' := by
  simp [isPlainId]

theorem steps_of_isPlainId (h : isPlainId id = true) (hslash : id.toList.head? ≠ some '/') :
    ∃ n k, (Path.mk id).steps = .name n :: List.replicate k .here := by
  obtain ⟨hparts, hdot⟩ := isPlainId_iff.mp h
  have hrel : ¬ (Path.mk id).isAbsolute = true := by simpa [Path.isAbsolute] using hslash
  rw [if_neg hrel, Nat.add_zero] at hparts
  have hne : id ≠ "" := by
    rintro rfl
    simp [Path.parts, Path.steps_eq] at hparts
  obtain ⟨n, rest, hsteps⟩ := Path.exists_steps_of_head hne hslash hdot
  have hrest : rest.filter (· ≠ .here) = [] := by
    simpa [Path.parts, hsteps] using hparts
  have hstay : rest = List.replicate rest.length .here :=
    List.eq_replicate_iff.mpr ⟨rfl, fun s hs => by simpa using List.filter_eq_nil_iff.mp hrest s hs⟩
  exact ⟨n, rest.length, by rw [hsteps, ← hstay]⟩

theorem isPlainId_of_isWritten (h : Path.IsWritten (.name id)) :
    isPlainId id = true ↔ id.toList.head? ≠ some '.' := by
  have hsteps : (Path.mk id).steps = [.name id] := h.1
  have habs : (Path.mk id).isAbsolute = false := by
    simpa [Path.isAbsolute] using Path.head?_of_isWritten h
  simp [isPlainId_iff, Path.parts, hsteps, habs]

theorem exists_mem_scan (hdir : dir.text ≠ "") (hslash : id.toList.head? ≠ some '/')
    (h : gamePath? d dir id = some path) :
    ∃ g ∈ scan d dir, d.locate path = .ok (d.place dir ++ [g.id]) := by
  obtain ⟨hplain, hopen, rfl⟩ := gamePath?_eq_some_iff.mp h
  rw [Disk.isDir_iff_isOpen] at hopen
  obtain ⟨n, k, hsteps⟩ := steps_of_isPlainId hplain hslash
  have hmem : Step.name n ∈ Path.textSteps id.toList := by
    rw [← Path.steps_eq ⟨id⟩, hsteps]
    exact List.mem_cons_self
  have hn : Path.IsWritten (.name n) := Path.isWritten_of_mem hmem
  -- What stands behind the name stays where the name leads.
  have hplace : d.place (dir.join id) = d.place dir ++ [n] := by
    rw [Disk.place_join d dir hslash, ← Path.steps_eq ⟨id⟩, hsteps, Path.follow_cons,
      Path.follow_stays]
    rfl
  have hlibrary : d.IsOpen dir :=
    ⟨Path.isSome_steps hdir, fun l hl => hopen.2 l ((Disk.onWay_join d dir hslash).mpr (.inl hl))⟩
  have hthere := hopen.2 _ (d.onWay_place _)
  rw [hplace] at hthere
  have hgame := Disk.isDir_iff_isOpen.mpr (Disk.isOpen_join hlibrary hn hthere)
  exact ⟨game d dir n, mem_scan_iff.mpr ⟨hlibrary, Disk.seen?_ne_none hthere, hgame, rfl⟩,
    hplace ▸ hopen.locate⟩

theorem locate_of_isAbsolute (hslash : id.toList.head? = some '/')
    (h : gamePath? d dir id = some path) :
    d.locate path = .ok [] := by
  obtain ⟨hplain, hopen, rfl⟩ := gamePath?_eq_some_iff.mp h
  have habs : (Path.mk id).isAbsolute = true := by simpa [Path.isAbsolute] using hslash
  have hparts := (isPlainId_iff.mp hplain).1
  rw [if_pos habs, Path.parts_of_isAbsolute habs] at hparts
  have hstay : (Path.mk id).steps.all (· = .here) = true := by
    have hnil := List.eq_nil_of_length_eq_zero (Nat.succ.inj hparts)
    simpa using hnil
  have hjoin : dir.join id = ⟨id⟩ := by simp [Path.join, hslash]
  rw [hjoin, Disk.isDir_iff_isOpen] at hopen
  rw [hjoin, hopen.locate, Disk.place, Path.follow_of_here hstay, Disk.start, if_pos habs]

section Listed

variable (hd : d.Regular) (hg : g ∈ scan d dir)
include hd hg

theorem isName_of_mem_scan : Disk.IsName g.id := by
  obtain ⟨-, hseen, -⟩ := mem_scan_iff.mp hg
  exact hd _ hseen g.id (by simp)

theorem locate_of_mem_scan :
    d.locate dir = .ok (d.place dir) ∧ d.locate g.path = .ok (d.place dir ++ [g.id]) := by
  obtain ⟨hlibrary, -, hopen, hgame⟩ := mem_scan_iff.mp hg
  have hname := (isName_of_mem_scan hd hg).written
  have hpath : g.path = dir.join g.id := congrArg GameInfo.path hgame
  rw [hpath, ← Disk.place_join_name d dir hname]
  exact ⟨hlibrary.locate, (Disk.isDir_iff_isOpen.mp hopen).locate⟩

theorem gamePath?_of_mem_scan :
    gamePath? d dir g.id = if g.id.toList.head? = some '.' then none else some g.path := by
  obtain ⟨-, -, hopen, hgame⟩ := mem_scan_iff.mp hg
  have hpath : g.path = dir.join g.id := congrArg GameInfo.path hgame
  have hplain := isPlainId_of_isWritten (isName_of_mem_scan hd hg).written
  by_cases hdot : g.id.toList.head? = some '.' <;> simp [gamePath?, hplain, hopen, hpath, hdot]

end Listed

/-- The library opens the games that it lists. A relative id that opens something opens the
directory of a listed game, which is one in the directory of the library, and an id that is written
from the root opens the root. Of the games that are listed those that are not hidden are opened by
their ids. -/
theorem opens_listed (hd : d.Regular) (hdir : dir.text ≠ "") :
    (∀ id path, gamePath? d dir id = some path →
      (id.toList.head? ≠ some '/' → ∃ g ∈ scan d dir, d.locate path = d.locate g.path) ∧
        (id.toList.head? = some '/' → d.locate path = .ok [])) ∧
      ∀ g ∈ scan d dir,
        (∃ loc, d.locate dir = .ok loc ∧ d.locate g.path = .ok (loc ++ [g.id])) ∧
          gamePath? d dir g.id = if g.id.toList.head? = some '.' then none else some g.path := by
  refine ⟨fun id path h => ⟨fun hslash => ?_, fun hslash => locate_of_isAbsolute hslash h⟩,
    fun g hg => ⟨?_, ?_⟩⟩
  · obtain ⟨g, hg, hpath⟩ := exists_mem_scan hdir hslash h
    exact ⟨g, hg, hpath.trans (locate_of_mem_scan hd hg).2.symm⟩
  · exact ⟨d.place dir, locate_of_mem_scan hd hg⟩
  · exact gamePath?_of_mem_scan hd hg

def shelf : Disk :=
  Disk.filled [("library/harbor/world.toml", .text ""), ("library/.drafts/world.toml", .text "")]

theorem regular_shelf : shelf.Regular :=
  Disk.regular_filled _

theorem mem_scan_shelf {n : String}
    (hseen : (shelf.seen? (shelf.place ⟨"library"⟩ ++ [n])).isSome = true)
    (hdir : shelf.isDir ((Path.mk "library").join n) = true) :
      game shelf ⟨"library"⟩ n ∈ scan shelf ⟨"library"⟩ :=
  mem_scan_iff.mpr ⟨Disk.isDir_iff_isOpen.mp (by decide +kernel),
    Option.isSome_iff_ne_none.mp hseen, hdir, rfl⟩

/-- Steps that stay behind an id open the same game. -/
theorem opens_listed_harbor :
    let dir : Path := ⟨"library"⟩
    shelf.Regular ∧ dir.text ≠ "" ∧
      gamePath? shelf dir "harbor" = some (game shelf dir "harbor").path ∧
      gamePath? shelf dir "harbor/." = some ⟨"library/harbor/."⟩ ∧
      ∃ g ∈ scan shelf dir, shelf.locate ⟨"library/harbor/."⟩ = shelf.locate g.path := by
  intro dir
  have hdir : dir.text ≠ "" := by decide
  have hharbor : game shelf dir "harbor" ∈ scan shelf dir :=
    mem_scan_shelf (by decide +kernel) (by decide +kernel)
  have hstay : gamePath? shelf dir "harbor/." = some ⟨"library/harbor/."⟩ := by decide +kernel
  obtain ⟨hopened, hlisted⟩ := opens_listed regular_shelf hdir
  have hplain : (game shelf dir "harbor").id.toList.head? ≠ some '.' := by decide
  exact ⟨regular_shelf, hdir, (hlisted _ hharbor).2.trans (if_neg hplain), hstay,
    (hopened _ _ hstay).1 (by decide)⟩

/-- A slash opens the root, a hidden game is listed and cannot be opened, and a library without a
path opens what stands in the working directory and lists nothing. -/
theorem not_opens_listed :
    let dir : Path := ⟨"library"⟩
    shelf.Regular ∧
      (gamePath? shelf dir "/" = some ⟨"/"⟩ ∧
        ¬ ∃ g ∈ scan shelf dir, shelf.locate ⟨"/"⟩ = shelf.locate g.path) ∧
      (∃ g ∈ scan shelf dir, g.id = ".drafts" ∧ gamePath? shelf dir g.id ≠ some g.path) ∧
      gamePath? shelf ⟨""⟩ "library" = some ⟨"library"⟩ ∧ ¬ ∃ g, g ∈ scan shelf ⟨""⟩ := by
  intro dir
  have hroot : gamePath? shelf dir "/" = some ⟨"/"⟩ := by decide +kernel
  refine ⟨regular_shelf, ⟨hroot, ?_⟩, ?_, by decide +kernel, ?_⟩
  · rintro ⟨g, hg, hsame⟩
    rw [locate_of_isAbsolute (by decide) hroot, (locate_of_mem_scan regular_shelf hg).2] at hsame
    simp at hsame
  · have hdrafts := mem_scan_shelf (n := ".drafts") (by decide +kernel) (by decide +kernel)
    refine ⟨_, hdrafts, rfl, ?_⟩
    rw [gamePath?_of_mem_scan regular_shelf hdrafts, if_pos (by decide)]
    exact (Option.some_ne_none _).symm
  · rintro ⟨g, hg⟩
    exact absurd (mem_scan_iff.mp hg).1.1 (by decide)

end Library

end Narrative
