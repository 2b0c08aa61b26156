import Narrative.Proofs.Addon.Items

/-! Items that fit together can be stored one after the other in a directory without anything in it.
What is there then is what they ask for and nothing else. -/

namespace Narrative

/-- A directory to which a path leads through directories, none of which is in it. -/
structure Disk.Ready (d : Disk) (dest : Path) : Prop where
  makeable : dest.IsMakeable
  directories : ∀ l, d.OnWay dest l → d.isDirAt l = true
  outside : ∀ l, d.OnWay dest l → ¬ d.Inside dest l

namespace Archive

variable {i : Item} {is js : List Item} {dest : Path} {d₀ d d' : Disk}
  {base l r place : List String} {c : Content}

namespace Item

theorem Storable.isAbsolute (h : i.Storable) : i.path.isAbsolute = false := by
  have henclosed := h.enclosed
  simp only [Path.isEnclosed, Bool.and_eq_true, Bool.not_eq_true'] at henclosed
  exact henclosed.1.1

theorem Storable.depth (h : i.Storable) : (Path.depth? 0 i.path.steps).isSome = true := by
  have henclosed := h.enclosed
  simp only [Path.isEnclosed, Bool.and_eq_true] at henclosed
  rw [← Path.depth?_parts]
  exact henclosed.2

theorem Storable.head (h : i.Storable) : i.path.text.toList.head? ≠ some '/' := by
  simpa [Path.isAbsolute] using h.isAbsolute

theorem Storable.steps_eq (h : i.Storable) (hc : i.content? = some c) :
    ∃ n, i.path.steps = i.lead ++ [.name n] := by
  obtain ⟨-, n, hn⟩ := h.named (by simp [hc])
  obtain ⟨before, hbefore⟩ := List.getLast?_eq_some_iff.mp hn
  exact ⟨n, by rw [lead, hc, hbefore, List.dropLast_concat]⟩

theorem Storable.lead_prefix (h : i.Storable) : i.lead <+: i.path.steps := by
  cases hc : i.content? with
  | none =>
    have hlead : i.lead = i.path.steps := by rw [lead, hc]
    exact hlead ▸ List.prefix_rfl
  | some c =>
    obtain ⟨n, hn⟩ := h.steps_eq hc
    exact ⟨[.name n], hn.symm⟩

theorem Storable.follow_eq (h : i.Storable) (base : List String) :
    Path.follow base i.path.steps = base ++ i.place := by
  have hbelow : Path.follow (base ++ []) i.path.steps = base ++ i.place := Path.follow_below h.depth
  rwa [List.append_nil] at hbelow

theorem Storable.passes_lead (h : i.Storable) :
    Path.Passes base i.lead l ↔ ∃ r, l = base ++ r ∧ Path.Passes [] i.lead r := by
  obtain ⟨after, hafter⟩ := h.lead_prefix
  have hdepth := h.depth
  rw [← hafter] at hdepth
  have hbelow : Path.Passes (base ++ []) i.lead l ↔ ∃ r, l = base ++ r ∧ Path.Passes [] i.lead r :=
    Path.passes_below (Path.depth?_of_append hdepth)
  rwa [List.append_nil] at hbelow

theorem Storable.passes_lead_append (h : i.Storable) :
    Path.Passes base i.lead (base ++ r) ↔ Path.Passes [] i.lead r := by
  rw [h.passes_lead]
  constructor
  · rintro ⟨r', heq, hr'⟩
    rwa [List.append_cancel_left heq]
  · exact fun hr => ⟨r, rfl, hr⟩

/-- The store `d'` is `d` with an item stored at a place. -/
structure Added (place : List String) (i : Item) (d d' : Disk) : Prop where
  working : d'.working = d.working
  lead : ∀ l, Path.Passes place i.lead l → d'.isDirAt l = true
  file : ∀ c, i.content? = some c → d'.seen? (place ++ i.place) = some (some c)
  kept : ∀ l, ¬ Path.Passes place i.lead l → (i.content?.isSome = true → l ≠ place ++ i.place) →
    d'.seen? l = d.seen? l

theorem Storable.steps_join (h : i.Storable) (dest : Path) :
    (dest.join i.path.text).steps = dest.steps ++ i.path.steps :=
  Path.steps_join h.head

theorem Storable.isAbsolute_join (h : i.Storable) (dest : Path) :
    (dest.join i.path.text).isAbsolute = dest.isAbsolute :=
  Path.isAbsolute_join h.head

theorem Storable.place_join (h : i.Storable) (d : Disk) (dest : Path) :
    d.place (dest.join i.path.text) = d.place dest ++ i.place := by
  rw [Disk.place_join d dest h.head, ← h.follow_eq]
  rfl

theorem onWay_of_passes_lead {p : Path} (hsteps : p.steps = dest.steps ++ i.lead)
    (habs : p.isAbsolute = dest.isAbsolute) (hl : Path.Passes (d.place dest) i.lead l) :
      d.OnWay p l := by
  rw [Disk.OnWay, hsteps, Disk.start, habs]
  exact Path.passes_append.mpr (.inr hl)

theorem Storable.store_dir_ok (h : i.Storable) (hc : i.content? = none) (hmake : dest.IsMakeable)
    (hopen : ∀ l, d.OnWay dest l → d.isDirAt l = true)
    (hlead : ∀ l, Path.Passes (d.place dest) i.lead l → d.isDirAt l = true ∨ d.seen? l = none) :
    ∃ d', i.store dest d = (.ok (), d') ∧ Added (d.place dest) i d d' := by
  have heq : i.lead = i.path.steps := by rw [lead, hc]
  have hsteps : (dest.join i.path.text).steps = dest.steps ++ i.lead := heq ▸ h.steps_join dest
  have habs := h.isAbsolute_join dest
  obtain ⟨d', hd', hwork, hdirs, hkept⟩ := Disk.makeDir_below
    (hmake.append hsteps habs (heq ▸ h.usable) (heq ▸ h.stays)) hsteps habs hopen hlead
  refine ⟨d', ?_, hwork, fun l hl => hdirs l (onWay_of_passes_lead hsteps habs hl), ?_,
    fun l hl _ => hkept l hl⟩
  · unfold store
    rw [hc]
    dsimp only
    rw [Addon.adapt_run, hd']
    rfl
  · intro c hsome
    rw [hc] at hsome
    cases hsome

theorem Storable.store_file_ok (h : i.Storable) (hc : i.content? = some c) (hmake : dest.IsMakeable)
    (hopen : ∀ l, d.OnWay dest l → d.isDirAt l = true)
    (hlead : ∀ l, Path.Passes (d.place dest) i.lead l → d.isDirAt l = true ∨ d.seen? l = none)
    (hnot : d.isDirAt (d.place dest ++ i.place) = false)
    (hoff : ¬ Path.Passes (d.place dest) i.lead (d.place dest ++ i.place)) :
    ∃ d', i.store dest d = (.ok (), d') ∧ Added (d.place dest) i d d' := by
  obtain ⟨n, hn⟩ := h.steps_eq hc
  obtain ⟨hopenEnd, -⟩ := h.named (by simp [hc])
  have hstays : .here ∉ i.lead := fun hmem => h.stays (hn ▸ List.mem_append_left _ hmem)
  have husable : ∀ n, .name n ∈ i.lead → Disk.isUsable n = true := fun x hx =>
    h.usable x (hn ▸ List.mem_append_left _ hx)
  have htarget : (dest.join i.path.text).steps = (dest.steps ++ i.lead) ++ [.name n] := by
    rw [h.steps_join, hn, List.append_assoc]
  -- The directories on the lead are made by the path to the parent.
  obtain ⟨q, hparent, hqsteps⟩ :=
    Path.steps_parent_eq htarget (Path.getLast?_append_ne_here hmake.last hstays)
  have hqabs : q.isAbsolute = dest.isAbsolute :=
    (Path.isAbsolute_parent hparent).trans (h.isAbsolute_join dest)
  obtain ⟨d₁, hd₁, hwork, hdirs, hkept⟩ :=
    Disk.makeDir_below (hmake.append hqsteps hqabs husable hstays) hqsteps hqabs hopen hlead
  have hplace : d₁.place (dest.join i.path.text) = d.place dest ++ i.place :=
    (Disk.place_congr hwork _).trans (h.place_join d dest)
  have htext : i.path.text.toList ≠ [] := by
    intro hnil
    have hsome := List.append_ne_nil_of_right_ne_nil i.lead (List.cons_ne_nil (Step.name n) [])
    rw [← hn, Path.steps_eq, hnil] at hsome
    exact hsome rfl
  have hend : (dest.join i.path.text).endsInSlash = false :=
    (Path.endsInSlash_join htext).trans hopenEnd
  have hway : ∀ l, Path.Passes (d₁.start (dest.join i.path.text)) (dest.steps ++ i.lead) l →
      d₁.isDirAt l = true := by
    intro l hl
    refine hdirs l ?_
    rwa [Disk.OnWay, hqsteps, Disk.start, hqabs, ← h.isAbsolute_join dest, ← Disk.start,
      ← Disk.start_congr hwork]
  have hnot₁ : d₁.isDirAt (d₁.place (dest.join i.path.text)) = false := by
    rw [hplace, Disk.isDirAt_congr (hkept _ hoff), hnot]
  have hlast := h.usable n (hn ▸ List.mem_append_right _ (List.mem_singleton_self _))
  obtain ⟨d', hd', hwrote⟩ := Disk.write_ok hend htarget hway hlast hnot₁ c
  rw [hplace] at hwrote
  refine ⟨d', ?_, hwrote.working.trans hwork, fun l hl => ?_, fun c' hc' => ?_, fun l hl hne => ?_⟩
  · unfold store
    rw [hc]
    dsimp only
    rw [Disk.bind_run, Addon.adapt_run, Disk.makeLead, hparent]
    dsimp only
    rw [hd₁]
    dsimp only [Except.mapError]
    rw [Addon.adapt_run, hd']
    rfl
  · exact hwrote.isDirAt (hdirs l (onWay_of_passes_lead hqsteps hqabs hl))
  · obtain rfl := Option.some.inj (hc.symm.trans hc')
    rw [hwrote.seen, if_pos rfl]
  · rw [hwrote.seen, if_neg (hne (by simp [hc])), hkept l hl]

/-- An item can be stored if no file is in the way of its lead and no directory is in its place. -/
theorem Storable.store_ok (h : i.Storable) (hmake : dest.IsMakeable)
    (hopen : ∀ l, d.OnWay dest l → d.isDirAt l = true)
    (hlead : ∀ l, Path.Passes (d.place dest) i.lead l → d.isDirAt l = true ∨ d.seen? l = none)
    (hfile : i.content?.isSome = true → d.isDirAt (d.place dest ++ i.place) = false ∧
      ¬ Path.Passes (d.place dest) i.lead (d.place dest ++ i.place)) :
    ∃ d', i.store dest d = (.ok (), d') ∧ Added (d.place dest) i d d' := by
  cases hc : i.content? with
  | none => exact h.store_dir_ok hc hmake hopen hlead
  | some c =>
    obtain ⟨hnot, hoff⟩ := hfile (by simp [hc])
    exact h.store_file_ok hc hmake hopen hlead hnot hoff

theorem store_keeps (h : i.store dest d = (.ok (), d')) :
    d'.working = d.working ∧
      (∀ l, (∃ c, d.seen? l = some (some c)) → ∃ c, d'.seen? l = some (some c)) ∧
      (i.content?.isSome = true →
        ∃ c, d'.seen? (d.place (dest.join i.path.text)) = some (some c)) := by
  unfold store at h
  cases hc : i.content? with
  | none =>
    rw [hc] at h
    dsimp only at h
    have hmade := Disk.makeDir_confined (dest.join i.path.text) d
    rw [Addon.adapt_run] at h
    rw [show (Disk.makeDir (dest.join i.path.text) d).2 = d' from congrArg Prod.snd h] at hmade
    exact ⟨hmade.working, fun l ⟨c, hl⟩ => ⟨c, (hmade.file_iff fun h => h).mpr hl⟩,
      fun hsome => by cases hsome⟩
  | some c =>
    rw [hc] at h
    dsimp only at h
    rw [Disk.bind_run, Addon.adapt_run] at h
    have hmade := Disk.makeLead_confined (dest.join i.path.text) d
    rcases hlead : Disk.makeLead (dest.join i.path.text) d with ⟨e | ⟨⟩, d₁⟩ <;>
      rw [hlead] at h hmade
    · cases h
    · dsimp only [Except.mapError] at h
      rw [Addon.adapt_run] at h
      rcases Disk.write_cases (dest.join i.path.text) c d₁ with ⟨e, he⟩ | ⟨d₂, hd₂, hwrote, -⟩
      · rw [he] at h
        cases h
      · rw [hd₂] at h
        cases h
        refine ⟨hwrote.working.trans hmade.working, fun l ⟨c', hl⟩ => ?_, fun _ => ⟨c, ?_⟩⟩
        · rw [hwrote.seen]
          split
          · exact ⟨c, rfl⟩
          · exact ⟨c', (hmade.file_iff fun h => h).mpr hl⟩
        · rw [hwrote.seen, if_pos (Disk.place_congr hmade.working _).symm]

theorem forM_store_keeps (h : is.forM (store dest) d = (.ok (), d')) :
    d'.working = d.working ∧
      (∀ l, (∃ c, d.seen? l = some (some c)) → ∃ c, d'.seen? l = some (some c)) ∧
      ∀ i ∈ is, i.content?.isSome = true →
        ∃ c, d'.seen? (d.place (dest.join i.path.text)) = some (some c) := by
  induction is generalizing d with
  | nil =>
    cases h
    exact ⟨rfl, fun _ hl => hl, fun i hi => by cases hi⟩
  | cons i is ih =>
    have hrun : (i.store dest >>= fun _ => is.forM (store dest)) d = (.ok (), d') := h
    rw [Disk.bind_run] at hrun
    rcases hi : i.store dest d with ⟨e | ⟨⟩, d₁⟩ <;> rw [hi] at hrun
    · cases hrun
    · obtain ⟨hwork, hkept, hfile⟩ := store_keeps hi
      obtain ⟨hwork', hkept', hfiles⟩ := ih hrun
      refine ⟨hwork'.trans hwork, fun l hl => hkept' l (hkept l hl), fun j hj hsome => ?_⟩
      rcases List.mem_cons.mp hj with rfl | hj
      · exact hkept' _ (hfile hsome)
      · rw [← Disk.place_congr hwork]
        exact hfiles j hj hsome

end Item

/-- At a place and below there is what items ask for and nothing else. -/
structure Holds (place : List String) (is : List Item) (d : Disk) : Prop where
  dirs : ∀ r, d.isDirAt (place ++ r) = true ↔ r = [] ∨ ∃ i ∈ is, Path.Passes [] i.lead r
  files : ∀ r c, d.seen? (place ++ r) = some (some c) → ∃ i ∈ is, i.place = r ∧ i.content? = some c
  stored : ∀ i ∈ is, i.content?.isSome = true → ∃ c, d.seen? (place ++ i.place) = some (some c)

/-- The store `d` is `d₀` with items stored at a place. -/
structure Stored (place : List String) (is : List Item)
    (d₀ d : Disk) : Prop extends Holds place is d where
  working : d.working = d₀.working
  kept : ∀ l, ¬ place <+: l → d.seen? l = d₀.seen? l

namespace Stored

theorem start (hdir : d.isDirAt place = true)
    (hnothing : ∀ l, place <+: l → l ≠ place → d.seen? l = none) : Stored place [] d d where
  working := rfl
  kept _ _ := rfl
  dirs r := by
    constructor
    · intro hr
      refine .inl (Classical.not_not.mp
        fun hne => Disk.seen?_ne_none hr (hnothing _ (List.prefix_append _ _) ?_))
      exact fun heq => hne (List.append_right_eq_self.mp heq)
    · rintro (rfl | ⟨i, hi, -⟩)
      · rwa [List.append_nil]
      · cases hi
  files r c hr := by
    by_cases hne : r = []
    · rw [hne, List.append_nil, Disk.isDirAt_iff_seen.mp hdir] at hr
      cases hr
    · have hnone := hnothing _ (List.prefix_append place r) fun heq =>
        hne (List.append_right_eq_self.mp heq)
      rw [hnone] at hr
      cases hr
  stored i hi := by cases hi

/-- An item that fits has no directory in its place, and no file in its way. -/
theorem room (h : Stored place is d₀ d) (hfits : Fits (is ++ [i])) :
    (∀ l, Path.Passes place i.lead l → d.isDirAt l = true ∨ d.seen? l = none) ∧
      (i.content?.isSome = true → d.isDirAt (place ++ i.place) = false ∧
        ¬ Path.Passes place i.lead (place ++ i.place)) := by
  have hi : i ∈ is ++ [i] := List.mem_append_right is (List.mem_singleton_self i)
  have hstorable := hfits.storable i hi
  refine ⟨fun l hl => ?_, fun hfile => ⟨?_, fun hpass => ?_⟩⟩
  · obtain ⟨r, rfl, hr⟩ := hstorable.passes_lead.mp hl
    cases hseen : d.seen? (place ++ r) with
    | none => exact .inr rfl
    | some kind =>
      cases kind with
      | none => exact .inl (Disk.isDirAt_iff_seen.mpr hseen)
      | some c =>
        obtain ⟨j, hj, rfl, hc⟩ := h.files r c hseen
        exact absurd hr (hfits.apart j (List.mem_append_left _ hj) (by simp [hc]) i hi)
  · rw [Bool.eq_false_iff]
    intro hdir
    rcases (h.dirs _).mp hdir with hnil | ⟨j, hj, hpass⟩
    · exact hfits.apart i hi hfile i hi (hnil ▸ Path.passes_start)
    · exact hfits.apart i hi hfile j (List.mem_append_left _ hj) hpass
  · exact hfits.apart i hi hfile i hi (hstorable.passes_lead_append.mp hpass)

theorem add (h : Stored place is d₀ d) (hfits : Fits (is ++ [i])) (hadd : Item.Added place i d d') :
    Stored place (is ++ [i]) d₀ d' := by
  have hi : i ∈ is ++ [i] := List.mem_append_right is (List.mem_singleton_self i)
  have hlead : ∀ {r}, Path.Passes place i.lead (place ++ r) ↔ Path.Passes [] i.lead r :=
    (hfits.storable i hi).passes_lead_append
  have hmem : ∀ {P : Item → Prop}, (∃ j ∈ is ++ [i], P j) ↔ (∃ j ∈ is, P j) ∨ P i := by
    simp [or_and_right, exists_or]
  -- What is neither on the lead of the item nor its file is as it was.
  have hkept : ∀ r, ¬ Path.Passes [] i.lead r → (i.content?.isSome = true → r ≠ i.place) →
      d'.seen? (place ++ r) = d.seen? (place ++ r) := fun r hpass hne =>
    hadd.kept _ (fun h => hpass (hlead.mp h)) fun hfile heq =>
      hne hfile (List.append_cancel_left heq)
  refine ⟨⟨fun r => ?_, fun r c hseen => ?_, fun j hj hfile => ?_⟩, hadd.working.trans h.working,
    fun l hl => ?_⟩
  · rw [hmem]
    by_cases hpass : Path.Passes [] i.lead r
    · simp [hadd.lead _ (hlead.mpr hpass), hpass]
    · by_cases hplace : i.content?.isSome = true ∧ r = i.place
      · obtain ⟨hfile, rfl⟩ := hplace
        obtain ⟨c, hc⟩ := Option.isSome_iff_exists.mp hfile
        have hnot : d'.isDirAt (place ++ i.place) = false :=
          Disk.isDirAt_eq_false_iff.mpr (by simp [hadd.file c hc])
        have hnil : i.place ≠ [] := fun hnil => hpass (hnil ▸ Path.passes_start)
        have hnone : ¬ ∃ j ∈ is, Path.Passes [] j.lead i.place := fun ⟨j, hj, hjpass⟩ =>
          hfits.apart i hi hfile j (List.mem_append_left _ hj) hjpass
        simp [hnot, hnil, hnone, hpass]
      · rw [Disk.isDirAt_congr (hkept r hpass fun hfile heq => hplace ⟨hfile, heq⟩), h.dirs]
        simp [hpass]
  · rw [hmem]
    by_cases hpass : Path.Passes [] i.lead r
    · rw [Disk.isDirAt_iff_seen.mp (hadd.lead _ (hlead.mpr hpass))] at hseen
      cases hseen
    · by_cases hplace : i.content?.isSome = true ∧ r = i.place
      · obtain ⟨hfile, rfl⟩ := hplace
        obtain ⟨c', hc'⟩ := Option.isSome_iff_exists.mp hfile
        rw [hadd.file c' hc'] at hseen
        cases hseen
        exact .inr ⟨rfl, hc'⟩
      · rw [hkept r hpass fun hfile heq => hplace ⟨hfile, heq⟩] at hseen
        exact .inl (h.files r c hseen)
  · have hpass := hfits.apart j hj hfile i hi
    by_cases hplace : i.content?.isSome = true ∧ j.place = i.place
    · obtain ⟨c, hc⟩ := Option.isSome_iff_exists.mp hplace.1
      exact ⟨c, hplace.2 ▸ hadd.file c hc⟩
    · rw [hkept _ hpass fun hfile heq => hplace ⟨hfile, heq⟩]
      rcases List.mem_append.mp hj with hj | hj
      · exact h.stored j hj hfile
      · obtain rfl := List.mem_singleton.mp hj
        exact absurd ⟨hfile, rfl⟩ hplace
  · refine (hadd.kept l (fun hpass => ?_) fun _ heq => ?_).trans (h.kept l hl)
    · obtain ⟨r, rfl, -⟩ := (hfits.storable i hi).passes_lead.mp hpass
      exact hl (List.prefix_append _ _)
    · exact hl (heq ▸ List.prefix_append _ _)

theorem forM_ok (h : Stored (d₀.place dest) is d₀ d) (hready : d₀.Ready dest)
    (hfits : Fits (is ++ js)) :
    ∃ d', js.forM (Item.store dest) d = (.ok (), d') ∧ Stored (d₀.place dest) (is ++ js) d₀ d' := by
  induction js generalizing is d with
  | nil => exact ⟨d, rfl, by rwa [List.append_nil]⟩
  | cons i js ih =>
    rw [List.append_cons] at hfits ⊢
    have hfits' := hfits.of_append
    have hplace : d.place dest = d₀.place dest := Disk.place_congr h.working dest
    have hopen : ∀ l, d.OnWay dest l → d.isDirAt l = true := by
      intro l hl
      rw [Disk.onWay_congr h.working] at hl
      by_cases hbelow : d₀.place dest <+: l
      · have heq : l = d₀.place dest :=
          Classical.not_not.mp fun hne => hready.outside l hl ⟨hbelow, hne⟩
        rw [heq, ← List.append_nil (d₀.place dest)]
        exact (h.dirs []).mpr (.inl rfl)
      · exact (Disk.isDirAt_congr (h.kept l hbelow)).trans (hready.directories l hl)
    obtain ⟨hlead, hfile⟩ := h.room hfits'
    have hstorable := hfits'.storable i (List.mem_append_right is (List.mem_singleton_self i))
    rw [← hplace] at hlead hfile
    obtain ⟨d₁, hd₁, hadd⟩ := hstorable.store_ok hready.makeable hopen hlead hfile
    obtain ⟨d', hd', hstored⟩ := ih (h.add hfits' (hplace ▸ hadd)) hfits
    refine ⟨d', ?_, hstored⟩
    show (i.store dest >>= fun _ => js.forM (Item.store dest)) d = _
    rw [Disk.bind_run, hd₁]
    exact hd'

end Stored

/-- All items that fit together can be stored in a directory without anything in it. -/
theorem forM_store_ok (hready : d.Ready dest) (hnothing : ∀ l, d.Inside dest l → d.seen? l = none)
    (hfits : Fits is) :
    ∃ d', is.forM (Item.store dest) d = (.ok (), d') ∧ Stored (d.place dest) is d d' := by
  have hdir := hready.directories _ (d.onWay_place dest)
  exact (Stored.start hdir fun l hl hne => hnothing l ⟨hl, hne⟩).forM_ok hready hfits

end Archive

end Narrative
