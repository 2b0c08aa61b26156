import Narrative.Proofs.Storage.Confined

/-! What paths read, told by what is seen at the locations of the store. A file that can be read by
a path is read by it in every other store that has the file at its place and the directories on the
way. -/

namespace Narrative

namespace Tree

variable {t : Tree} {loc rest : List String} {x : String} {c : Content}

theorem seen?_append (t : Tree) (loc rest : List String) :
    t.seen? (loc ++ rest) = (t.at? loc).bind (·.seen? rest) := by
  rw [seen?, at?_append, Option.map_bind]
  rfl

theorem seen?_file_below (h : rest ≠ []) : (file c).seen? rest = none := by
  obtain ⟨x, rest, rfl⟩ := List.exists_cons_of_ne_nil h
  rfl

theorem isDir_iff : t.isDir = true ↔ t.content? = none := by
  cases t <;> simp [isDir, content?]

theorem child?_remove (t : Tree) (x : String) : (t.remove [x]).child? x = none := by
  simp [remove, child?, entries]

theorem at?_remove (h : loc ≠ []) : (t.remove loc).at? loc = none := by
  induction loc generalizing t with
  | nil => exact absurd rfl h
  | cons x loc ih =>
    cases loc with
    | nil => simp [at?, child?_remove]
    | cons y loc =>
      cases hc : t.child? x with
      | none => simp [remove, at?, hc]
      | some u =>
        have hu := ih (t := u) (List.cons_ne_nil y loc)
        simpa [remove, at?, hc, child?_setChild] using hu

end Tree

namespace Disk

variable {d d' : Disk} {p q : Path} {loc l rest : List String} {c : Content} {ss : List Step}
  {n : String}

theorem isDirAt_iff_seen : d.isDirAt loc = true ↔ d.seen? loc = some none := by
  rw [isDirAt_iff, seen?, Tree.seen?]
  cases d.root.at? loc with
  | none => simp
  | some t => simpa using Tree.isDir_iff

theorem isDirAt_eq_false_iff : d.isDirAt loc = false ↔ d.seen? loc ≠ some none := by
  rw [Bool.eq_false_iff, ne_eq, isDirAt_iff_seen]

theorem isDirAt_congr (h : d'.seen? loc = d.seen? loc) : d'.isDirAt loc = d.isDirAt loc := by
  rw [Bool.eq_iff_iff, isDirAt_iff_seen, isDirAt_iff_seen, h]

/-- What is seen is known from where directories are and what files hold. -/
theorem seen?_ext (hdir : d'.isDirAt loc = true ↔ d.isDirAt loc = true)
    (hfile : ∀ c, d'.seen? loc = some (some c) ↔ d.seen? loc = some (some c)) :
      d'.seen? loc = d.seen? loc := by
  rw [isDirAt_iff_seen, isDirAt_iff_seen] at hdir
  refine Option.ext fun kind => ?_
  cases kind with
  | none => exact hdir
  | some c => exact hfile c

theorem seen?_ne_none (h : d.isDirAt loc = true) : d.seen? loc ≠ none := by
  rw [isDirAt_iff_seen.mp h]
  simp

theorem isSome_at?_iff : (d.root.at? loc).isSome = true ↔ d.seen? loc ≠ none := by
  rw [← Option.isSome_iff_ne_none, seen?, Tree.seen?, Option.isSome_map]

theorem at?_eq_file_iff : d.root.at? loc = some (.file c) ↔ d.seen? loc = some (some c) := by
  rw [seen?, Tree.seen?]
  cases d.root.at? loc with
  | none => simp
  | some t => cases t <;> simp [Tree.content?]

theorem isDirAt_of_below (h : d.seen? (loc ++ rest) ≠ none) (hne : rest ≠ []) :
    d.isDirAt loc = true := by
  rw [seen?, Tree.seen?_append] at h
  rw [isDirAt]
  cases ht : d.root.at? loc with
  | none => simp [ht] at h
  | some t =>
    cases t with
    | dir es => rfl
    | file c => simp [ht, Tree.seen?_file_below hne] at h

theorem isDirAt_of_prefix (hloc : loc <+: l) (hl : d.seen? l ≠ none) (hne : loc ≠ l) :
    d.isDirAt loc = true := by
  obtain ⟨rest, rfl⟩ := hloc
  exact isDirAt_of_below hl fun h => hne (by rw [h, List.append_nil])

theorem isDirAt_of_walk (h : d.walk loc ss = .ok l) (hloc : Path.Passes loc ss rest)
    (hne : rest ≠ l) : d.isDirAt rest = true := by
  induction ss generalizing loc with
  | nil =>
    cases h
    exact absurd (Path.passes_nil.mp hloc) hne
  | cons s ss ih =>
    unfold walk at h
    split at h
    · next hdir =>
      rcases Path.passes_cons.mp hloc with rfl | hloc
      · exact hdir
      · cases s with
        | here => exact ih h hloc
        | up => exact ih h hloc
        | name n =>
          dsimp only at h
          split at h
          · exact ih h hloc
          · cases h
    · cases h

/-- A walk is possible in another store if the directories that it passes are there, and what it
leads to. -/
theorem walk_of_passes
    (hdirs : ∀ rest, Path.Passes loc ss rest → d.isDirAt rest = true → d'.isDirAt rest = true)
    (h : d.walk loc ss = .ok l) (hl : d'.seen? l ≠ none) : d'.walk loc ss = .ok l := by
  induction ss generalizing loc with
  | nil => exact h
  | cons s ss ih =>
    have hrest : ∀ rest, Path.Passes (s.move loc) ss rest → d.isDirAt rest = true →
        d'.isDirAt rest = true :=
      fun rest hr => hdirs rest hr.cons
    unfold walk at h ⊢
    split at h
    · next hdir =>
      rw [if_pos (hdirs loc Path.passes_start hdir)]
      cases s with
      | here => exact ih hrest h
      | up => exact ih hrest h
      | name n =>
        dsimp only at h ⊢
        split at h
        · have hthere : d'.seen? (loc ++ [n]) ≠ none := by
            by_cases hend : loc ++ [n] = l
            · exact hend ▸ hl
            · exact seen?_ne_none
                (hrest _ Path.passes_start (isDirAt_of_walk h Path.passes_start hend))
          rw [if_pos (isSome_at?_iff.mpr hthere)]
          exact ih hrest h
        · cases h
    · cases h

theorem walk_append (h : d.walk loc ss = .ok l) (ts : List Step) :
    d.walk loc (ss ++ ts) = d.walk l ts := by
  induction ss generalizing loc with
  | nil =>
    cases h
    rfl
  | cons s ss ih =>
    rw [List.cons_append]
    unfold walk at h
    rw [walk.eq_def d loc (s :: (ss ++ ts))]
    dsimp only
    split at h
    · next hdir =>
      rw [if_pos hdir]
      cases s with
      | here => exact ih h
      | up => exact ih h
      | name n =>
        dsimp only at h ⊢
        split at h
        · next hn =>
          rw [if_pos hn]
          exact ih h
        · cases h
    · cases h

theorem walk_concat (h : d.walk loc ss = .ok l) (hdir : d.isDirAt l = true)
    (hn : d.seen? (l ++ [n]) ≠ none) : d.walk loc (ss ++ [.name n]) = .ok (l ++ [n]) := by
  rw [walk_append h]
  simp [walk, hdir, isSome_at?_iff.mpr hn]

/-- The steps along which a path is followed: behind a slash at its end the place must be a
directory. -/
def routeSteps (p : Path) : List Step :=
  if p.endsInSlash then p.steps ++ [.here] else p.steps

theorem passes_routeSteps {start : List String} (h : Path.Passes start (routeSteps p) loc) :
    Path.Passes start p.steps loc := by
  unfold routeSteps at h
  split at h
  · rcases Path.passes_append.mp h with h | h
    · exact h
    · rcases Path.passes_cons.mp h with rfl | h
      · exact Path.passes_follow
      · rw [Path.passes_nil.mp h]
        exact Path.passes_follow
  · exact h

theorem locate_eq (h : d.locate p = .ok l) : l = d.place p := by
  unfold locate at h
  split at h
  · cases h
  · rw [walk_eq h, place]
    split
    · rw [Path.follow_append]
      rfl
    · rfl

theorem locate_of_onWay (hwork : d'.working = d.working)
    (hdirs : ∀ rest, d.OnWay p rest → d.isDirAt rest = true → d'.isDirAt rest = true)
    (h : d.locate p = .ok l) (hl : d'.seen? l ≠ none) : d'.locate p = .ok l := by
  unfold locate at h ⊢
  split at h
  · cases h
  · next hsome =>
    rw [if_neg hsome, start_congr hwork]
    exact walk_of_passes (fun rest hr => hdirs rest (passes_routeSteps hr)) h hl

theorem content_ok_iff : d.content p = .ok c ↔
    ∃ l, d.locate p = .ok l ∧ d.seen? l = some (some c) := by
  unfold content
  constructor
  · intro h
    obtain ⟨l, hl, h⟩ := bind_eq_ok.mp h
    refine ⟨l, hl, at?_eq_file_iff.mp ?_⟩
    split at h
    · next c' ht =>
      cases h
      exact ht
    · cases h
    · cases h
  · rintro ⟨l, hl, hseen⟩
    refine bind_eq_ok.mpr ⟨l, hl, ?_⟩
    rw [at?_eq_file_iff.mpr hseen]

theorem seen?_of_content (h : d.content p = .ok c) : d.seen? (d.place p) = some (some c) := by
  obtain ⟨l, hl, hseen⟩ := content_ok_iff.mp h
  rwa [← locate_eq hl]

/-- A file that a path reads is read by it wherever the directories on the way are. -/
theorem content_of_onWay {c' : Content} (hwork : d'.working = d.working)
    (hdirs : ∀ rest, d.OnWay p rest → d.isDirAt rest = true → d'.isDirAt rest = true)
    (h : d.content p = .ok c)
    (hseen : d'.seen? (d.place p) = some (some c')) : d'.content p = .ok c' := by
  obtain ⟨l, hl, -⟩ := content_ok_iff.mp h
  have hplace := locate_eq hl
  rw [← hplace] at hseen
  exact content_ok_iff.mpr ⟨l, locate_of_onWay hwork hdirs hl (by simp [hseen]), hseen⟩

end Disk

end Narrative
