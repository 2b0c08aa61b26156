import Narrative.Proofs.Storage.Draft
import Narrative.Proofs.Storage.Seen

/-! What the actions on files do, location by location. An action that fails changes nothing, and
one that writes through a draft leaves what it should replace alone until the draft takes its
place. -/

namespace Narrative

namespace Disk

variable {d d' d₁ : Disk} {p q : Path} {loc l : List String} {n : String} {c : Content} {u : Unit}

/-- The store `d'` is `d` with a file at a place, where no directory was. -/
structure Wrote (place : List String) (c : Content) (d d' : Disk) : Prop where
  working : d'.working = d.working
  notDir : d.isDirAt place = false
  seen : ∀ l, d'.seen? l = if l = place then some (some c) else d.seen? l

theorem seen?_below_file (h : d.isDirAt loc = false) {rest : List String} (hne : rest ≠ []) :
    d.seen? (loc ++ rest) = none := by
  cases hsome : d.seen? (loc ++ rest) with
  | none => rfl
  | some c =>
    rw [isDirAt_of_below (by simp [hsome]) hne] at h
    cases h

theorem wrote_put (hdir : d.isDirAt loc = true) (hnot : d.isDirAt (loc ++ [n]) = false)
    (c : Content) : Wrote (loc ++ [n]) c d (d.put (loc ++ [n]) (.file c)) := by
  refine ⟨rfl, hnot, fun l => ?_⟩
  by_cases hl : loc ++ [n] <+: l
  · obtain ⟨rest, rfl⟩ := hl
    have hput : (d.put (loc ++ [n]) (.file c)).seen? (loc ++ [n] ++ rest) =
        (Tree.file c).seen? rest := by
      simp only [seen?, put, Tree.seen?_append _ (loc ++ [n]) rest, Tree.at?_put, Option.bind_some]
    rw [hput]
    by_cases hrest : rest = []
    · subst hrest
      rw [List.append_nil, if_pos rfl]
      rfl
    · have hne : loc ++ [n] ++ rest ≠ loc ++ [n] := fun h => hrest (List.append_right_eq_self.mp h)
      rw [if_neg hne, seen?_below_file hnot hrest, Tree.seen?_file_below hrest]
  · have hne : l ≠ loc ++ [n] := fun h => hl (h ▸ List.prefix_rfl)
    rw [if_neg hne]
    exact Tree.seen?_put (isDirAt_iff.mp hdir) hl

theorem look_bind_run {α β : Type} (f : Disk → Except DiskFault α) (g : α → Storage DiskFault β)
    (d : Disk) :
    (look f >>= g) d = match f d with
      | .ok a => g a d
      | .error e => (.error e, d) := by
  rw [bind_run, look_run]
  cases f d <;> rfl

/-- Writing a file fails and changes nothing, or the file is at its place. -/
theorem write_cases (p : Path) (c : Content) (d : Disk) :
    (∃ e, write p c d = (.error e, d)) ∨
      ∃ d', write p c d = (.ok (), d') ∧ Wrote (d.place p) c d d' ∧
        ∃ slot, d.slot p = .ok slot := by
  rw [write, look_bind_run]
  cases hslot : d.slot p with
  | error e => exact .inl ⟨e, rfl⟩
  | ok slot =>
    obtain ⟨loc, n⟩ := slot
    obtain ⟨hplace, hdir⟩ := slot_eq_ok hslot
    dsimp only
    rw [get_run]
    cases hnot : d.isDirAt (loc ++ [n]) with
    | true => exact .inl ⟨_, rfl⟩
    | false => exact .inr ⟨_, rfl, hplace ▸ wrote_put hdir hnot c, _, rfl⟩

theorem write_confined {made : List String → Prop} (p : Path) (c : Content) (d : Disk) :
    Confined made (· = d.place p) d (write p c d).2 := by
  rcases write_cases p c d with ⟨e, he⟩ | ⟨d', hd', hwrote, -⟩
  · rw [he]
    exact .refl
  · rw [hd']
    exact ⟨hwrote.working, fun l hl => .inl ((hwrote.seen l).trans (if_neg hl))⟩

theorem seen?_erase_file (h : d.seen? loc = some (some c)) (hne : loc ≠ []) (l : List String) :
    (d.erase loc).seen? l = if l = loc then none else d.seen? l := by
  by_cases hl : loc <+: l
  · obtain ⟨rest, rfl⟩ := hl
    have herase : (d.erase loc).seen? (loc ++ rest) = none := by
      simp only [seen?, erase, Tree.seen?_append, Tree.at?_remove hne, Option.bind_none]
    rw [herase]
    by_cases hrest : rest = []
    · rw [hrest, List.append_nil, if_pos rfl]
    · have hnot : d.isDirAt loc = false := isDirAt_eq_false_iff.mpr (by simp [h])
      have happend : loc ++ rest ≠ loc := fun h => hrest (List.append_right_eq_self.mp h)
      rw [if_neg happend, seen?_below_file hnot hrest]
  · have hnot : l ≠ loc := fun h => hl (h ▸ List.prefix_rfl)
    rw [if_neg hnot]
    exact Tree.seen?_remove (isSome_at?_iff.mpr (by simp [h])) hl

/-- Renaming fails and changes nothing, or the file is at its new place and no longer at the old
one. -/
theorem rename_cases (p q : Path) (d : Disk) :
    (∃ e, rename p q d = (.error e, d)) ∨
      ∃ d' c, rename p q d = (.ok (), d') ∧ d'.working = d.working ∧ d.content p = .ok c ∧
        d.isDirAt (d.place q) = false ∧ (∃ slot, d.slot q = .ok slot) ∧
        ∀ l, d'.seen? l = if l = d.place q then some (some c) else if l = d.place p then none
          else d.seen? l := by
  rw [rename, look_bind_run]
  cases hc : d.content p with
  | error e => exact .inl ⟨e, rfl⟩
  | ok c =>
    dsimp only
    rw [look_bind_run]
    cases hp : d.slot p with
    | error e => exact .inl ⟨e, rfl⟩
    | ok slot =>
      obtain ⟨loc, n⟩ := slot
      dsimp only
      rw [look_bind_run]
      cases hq : d.slot q with
      | error e => exact .inl ⟨e, rfl⟩
      | ok slot' =>
        obtain ⟨loc', n'⟩ := slot'
        obtain ⟨hplace, hdir⟩ := slot_eq_ok hp
        obtain ⟨hplace', hdir'⟩ := slot_eq_ok hq
        dsimp only
        rw [get_run]
        cases hnot : d.isDirAt (loc' ++ [n']) with
        | true => exact .inl ⟨_, rfl⟩
        | false =>
          refine .inr ⟨_, c, rfl, rfl, rfl, hplace' ▸ hnot, ⟨_, rfl⟩, fun l => ?_⟩
          have hfile : d.seen? (loc ++ [n]) = some (some c) := hplace ▸ seen?_of_content hc
          have herase := seen?_erase_file hfile (by simp)
          have hkept : ∀ l, (d.erase (loc ++ [n])).isDirAt l = d.isDirAt l := by
            intro l
            rw [Bool.eq_iff_iff, isDirAt_iff_seen, isDirAt_iff_seen, herase]
            split
            · next h => simp [h, hfile]
            · rfl
          have hput := wrote_put ((hkept loc').trans hdir') ((hkept (loc' ++ [n'])).trans hnot) c
          rw [← hplace, ← hplace', hput.seen, herase]

/-- Removing a directory fails and changes nothing, or all that was there is gone. -/
theorem removeDir_cases (p : Path) (d : Disk) :
    (∃ e, removeDir p d = (.error e, d)) ∨
      ∃ d', removeDir p d = (.ok (), d') ∧ d'.working = d.working ∧
        (∀ l, d.place p <+: l → d'.seen? l = none) ∧
        ∀ l, ¬ d.place p <+: l → d'.seen? l = d.seen? l := by
  rw [removeDir, look_bind_run]
  cases hslot : d.slot p with
  | error e => exact .inl ⟨e, rfl⟩
  | ok slot =>
    obtain ⟨loc, n⟩ := slot
    obtain ⟨hplace, -⟩ := slot_eq_ok hslot
    dsimp only
    rw [get_run]
    cases ht : d.root.at? (loc ++ [n]) with
    | none => exact .inl ⟨_, rfl⟩
    | some t =>
      cases t with
      | file c => exact .inl ⟨_, rfl⟩
      | dir es =>
        refine .inr ⟨_, rfl, rfl, ?_, ?_⟩ <;> rw [← hplace]
        · rintro l ⟨rest, rfl⟩
          have hne : loc ++ [n] ≠ [] := by simp
          rw [seen?, erase, Tree.seen?_append, Tree.at?_remove hne]
          rfl
        · exact fun l hl => Tree.seen?_remove (by simp [ht]) hl

theorem Confined.isDirAt {made inside : List String → Prop} (h : Confined made inside d d')
    (hloc : ¬ inside loc) (hdir : d.isDirAt loc = true) : d'.isDirAt loc = true := by
  rw [isDirAt_iff_seen] at hdir ⊢
  rcases h.outside loc hloc with he | ⟨-, hnone, -⟩
  · exact he.trans hdir
  · rw [hnone] at hdir
    cases hdir

theorem Wrote.isDirAt {place : List String} (h : Wrote place c d d') (hdir : d.isDirAt loc = true) :
    d'.isDirAt loc = true := by
  have hne : loc ≠ place := by
    rintro rfl
    rw [h.notDir] at hdir
    cases hdir
  have hsame : d'.seen? loc = d.seen? loc := by rw [h.seen, if_neg hne]
  exact (isDirAt_congr hsame).trans hdir

/-- A path of which the place can be written reads what is written there, as long as all directories
stay. -/
theorem content_of_slot {slot : List String × String} (hwork : d'.working = d.working)
    (hdirs : ∀ l, d.isDirAt l = true → d'.isDirAt l = true) (hslot : d.slot p = .ok slot)
    (hseen : d'.seen? (d.place p) = some (some c)) : d'.content p = .ok c := by
  obtain ⟨loc, n⟩ := slot
  obtain ⟨hplace, -⟩ := slot_eq_ok hslot
  obtain ⟨hend, ⟨before, hsteps, hwalk⟩, hdir, -⟩ := slot_inv hslot
  rw [← hplace] at hseen
  refine content_ok_iff.mpr ⟨loc ++ [n], ?_, hseen⟩
  have hsome : ¬ (p.steps.isEmpty && !p.isAbsolute) = true := by simp [hsteps]
  have hwalk' := walk_of_passes (fun r _ => hdirs r) hwalk (seen?_ne_none (hdirs loc hdir))
  rw [locate, if_neg hsome, if_neg (by simp [hend]), start_congr hwork, hsteps]
  exact walk_concat hwalk' (hdirs loc hdir) (by simp [hseen])

theorem content_of_write (h : (write p c d).1.isOk = true) : (write p c d).2.content p = .ok c := by
  rcases write_cases p c d with ⟨e, he⟩ | ⟨d', hd', hwrote, slot, hslot⟩
  · rw [he] at h
    cases h
  · rw [hd']
    exact content_of_slot hwrote.working
      (fun l hl => hwrote.isDirAt hl) hslot ((hwrote.seen _).trans (if_pos rfl))

theorem fileName?_of_slot {slot : List String × String} (h : d.slot p = .ok slot) :
    ∃ n, p.fileName? = some n := by
  obtain ⟨loc, n⟩ := slot
  obtain ⟨-, ⟨before, hsteps, -⟩, -, -⟩ := slot_inv h
  refine ⟨n, ?_⟩
  rw [Path.fileName?, Path.getLast?_parts (k := 0) hsteps (by simp)]
  rfl

section Replace

def OnLead (d : Disk) (p : Path) (loc : List String) : Prop :=
  ∃ q, p.parent? = some q ∧ d.OnWay q loc

/-- The file through which another one is written. -/
def draft (p : Path) : Path :=
  p.withExtension "json.tmp"

def makeLead (p : Path) : Storage DiskFault Unit :=
  match p.parent? with
  | some q => makeDir q
  | none => pure ()

theorem replace_eq (p : Path) (c : Content) :
    replace p c = makeLead p >>= fun _ => write (draft p) c >>= fun _ => rename (draft p) p := by
  unfold replace makeLead draft
  cases p.parent? with
  | some q => rfl
  | none => simp only [pure_bind]

theorem makeLead_confined (p : Path) (d : Disk) :
    Confined (d.OnLead p) (fun _ => False) d (makeLead p d).2 := by
  unfold makeLead
  cases hq : p.parent? with
  | none => exact .refl
  | some q => exact (makeDir_confined q d).mono (fun _ h => h) fun l hl => .inl ⟨q, hq, hl⟩

theorem place_draft (d : Disk) (h : p.fileName? = some n) : ¬ d.place p <+: d.place (draft p) := by
  obtain ⟨loc, hp, hdraft⟩ := place_withExtension d h "json.tmp" (by decide) (by decide)
  intro hprefix
  rw [draft, hp, hdraft, List.prefix_append_right_inj] at hprefix
  exact Path.extended_ne (by decide) (List.cons_prefix_cons.mp hprefix).1.symm

/-- Replacing a file fails, and then at most makes directories and leaves a draft; or the file is at
its place, and there is no draft. -/
theorem replace_cases (p : Path) (c : Content) (d : Disk) :
    (∃ e d', replace p c d = (.error e, d') ∧ (∀ l, d.isDirAt l = true → d'.isDirAt l = true) ∧
      Confined (d.OnLead p) (fun l => l = d.place (draft p) ∧ ¬ d.place p <+: l) d d') ∨
    ∃ d₁ d', replace p c d = (.ok (), d') ∧ Confined (d.OnLead p) (fun _ => False) d d₁ ∧
      d'.content p = .ok c ∧ d'.working = d.working ∧
        (∀ l, d₁.isDirAt l = true → d'.isDirAt l = true) ∧
      ∀ l, d'.seen? l =
        if l = d.place p then some (some c) else if l = d.place (draft p) then none
          else d₁.seen? l := by
  have hmake := makeLead_confined p d
  rw [replace_eq, bind_run]
  rcases hr : makeLead p d with ⟨e | u, d₁⟩ <;> rw [hr] at hmake
  · exact .inl ⟨e, d₁, rfl, fun _ => hmake.isDirAt fun h => h,
      hmake.mono (fun _ h => h.elim) fun _ h => .inl h⟩
  · have hplace := place_congr hmake.working
    dsimp only
    rw [bind_run]
    rcases write_cases (draft p) c d₁ with ⟨e, hwrite⟩ | ⟨d₂, hwrite, hwrote, slot, hslot⟩
    · rw [hwrite]
      exact .inl ⟨e, d₁, rfl, fun _ => hmake.isDirAt fun h => h,
        hmake.mono (fun _ h => h.elim) fun _ h => .inl h⟩
    · rw [hwrite]
      dsimp only
      -- A draft that can be written has a name, so it is not the file itself.
      have hname : ∃ n, p.fileName? = some n := by
        cases hn : p.fileName? with
        | some n => exact ⟨n, rfl⟩
        | none =>
          rw [draft, Path.withExtension, hn] at hslot
          obtain ⟨n, hn'⟩ := fileName?_of_slot hslot
          rw [hn] at hn'
          cases hn'
      obtain ⟨n, hn⟩ := hname
      have hdraft := place_draft d hn
      rcases rename_cases (draft p) p d₂ with ⟨e, hrename⟩ |
        ⟨d₃, c', hrename, hwork, hc', hnot, ⟨slot', hslot'⟩, hseen⟩
      · refine .inl ⟨e, d₂, hrename, fun l hl => hwrote.isDirAt (hmake.isDirAt (fun h => h) hl), ?_⟩
        refine ⟨hwrote.working.trans hmake.working, fun l hl => ?_⟩
        have hne : l ≠ d₁.place (draft p) := by
          intro hdraft'
          rw [hplace] at hdraft'
          rw [hdraft'] at hl
          exact hl ⟨rfl, hdraft⟩
        rw [hwrote.seen, if_neg hne]
        exact hmake.outside l fun h => h
      · have hplace₂ : ∀ q, d₂.place q = d.place q :=
          fun q => (place_congr hwrote.working q).trans (hplace q)
        rw [hplace₂, hplace₂] at hseen
        have hsame : c' = c := by
          have hread := seen?_of_content hc'
          rw [hplace₂, hwrote.seen, if_pos (hplace _).symm] at hread
          exact (Option.some.inj (Option.some.inj hread)).symm
        subst hsame
        have hdirs : ∀ l, d₂.isDirAt l = true → d₃.isDirAt l = true := by
          intro l hl
          have hne : l ≠ d.place p := fun h => by
            rw [h, ← hplace₂, hnot] at hl
            cases hl
          have hne' : l ≠ d.place (draft p) := fun h => by
            rw [isDirAt_iff_seen, h, hwrote.seen, if_pos (hplace _).symm] at hl
            cases hl
          have hsame : d₃.seen? l = d₂.seen? l := by rw [hseen, if_neg hne, if_neg hne']
          exact (isDirAt_congr hsame).trans hl
        refine .inr ⟨d₁, d₃, hrename, hmake, ?_, (hwork.trans hwrote.working).trans hmake.working,
          fun l hl => hdirs l (hwrote.isDirAt hl), fun l => ?_⟩
        · refine content_of_slot hwork hdirs hslot' ?_
          rw [hplace₂, hseen, if_pos rfl]
        · rw [hseen, hwrote.seen, hplace]
          split
          · rfl
          · split <;> rfl

theorem seen?_of_replace_error {e : DiskFault} (h : replace p c d = (.error e, d'))
    (hl : d.place p <+: l) :
    d'.seen? l = d.seen? l ∨ d.OnLead p l ∧ d.seen? l = none ∧ d'.seen? l = some none := by
  rcases replace_cases p c d with ⟨e, d₁, hr, -, hconf⟩ | ⟨-, d₁, hr, -⟩ <;>
    rw [hr] at h <;> cases h
  exact hconf.outside l fun hin => hin.2 hl

theorem content_of_replace_error {e : DiskFault} {c' : Content} (h : replace p c d = (.error e, d'))
    (hc : d.content p = .ok c') : d'.content p = .ok c' := by
  have hseen : d'.seen? (d.place p) = d.seen? (d.place p) := by
    rcases seen?_of_replace_error h List.prefix_rfl with he | ⟨-, hnone, -⟩
    · exact he
    · rw [seen?_of_content hc] at hnone
      cases hnone
  rcases replace_cases p c d with ⟨e, d₁, hr, hdirs, hconf⟩ | ⟨-, d₁, hr, -⟩ <;>
    rw [hr] at h <;> cases h
  exact content_of_onWay hconf.working (fun l _ => hdirs l) hc (hseen.trans (seen?_of_content hc))

theorem working_of_replace_error {e : DiskFault} (h : replace p c d = (.error e, d')) :
    d'.working = d.working := by
  rcases replace_cases p c d with ⟨e, d₁, hr, -, hconf⟩ | ⟨-, d₁, hr, -⟩ <;>
    rw [hr] at h <;> cases h
  exact hconf.working

end Replace

end Disk

end Narrative
