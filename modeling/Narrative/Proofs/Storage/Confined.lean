import Narrative.Proofs.Except
import Narrative.Proofs.Storage.Place

/-! What the actions on the file store leave as it was. An action is confined to some places if
elsewhere it only makes directories that were missing. -/

namespace Narrative

namespace Tree

/-- What is seen at a location: whether something is there, and what it holds if it is a file. -/
def seen? (t : Tree) (loc : List String) : Option (Option Content) :=
  (t.at? loc).map content?

variable {t new : Tree} {loc other : List String} {x n : String}

@[simp] theorem seen?_nil (t : Tree) : t.seen? [] = some t.content? := rfl

theorem seen?_cons (t : Tree) (x : String) (loc : List String) :
    t.seen? (x :: loc) = (t.child? x).bind (·.seen? loc) := by
  simp only [seen?, at?, Option.map_bind]
  rfl

theorem content?_of_isDir (h : t.isDir = true) : t.content? = none := by
  cases t with
  | file c => simp [isDir] at h
  | dir es => rfl

theorem isDir_of_child? {c : Tree} (h : t.child? x = some c) : t.isDir = true := by
  cases t with
  | file c => simp [child?, entries] at h
  | dir es => rfl

theorem at?_append (t : Tree) (loc other : List String) :
    t.at? (loc ++ other) = (t.at? loc).bind (at? other) := by
  induction loc generalizing t with
  | nil => rfl
  | cons x loc ih => cases h : t.child? x <;> simp [at?, h, ih]

theorem seen?_setChild_of_ne (ht : t.isDir = true) (h : ¬ [x] <+: other) :
    (t.setChild x new).seen? other = t.seen? other := by
  cases other with
  | nil => simpa [setChild, content?] using (content?_of_isDir ht).symm
  | cons y other =>
    have hy : y ≠ x := by simpa [eq_comm] using h
    simp [seen?_cons, child?_setChild, hy]

theorem seen?_put (hdir : (t.at? loc).map isDir = some true) (h : ¬ loc ++ [n] <+: other) :
    (put new (loc ++ [n]) t).seen? other = t.seen? other := by
  induction loc generalizing t other with
  | nil => exact seen?_setChild_of_ne (by simpa [at?] using hdir) h
  | cons x loc ih =>
    obtain ⟨c, hc⟩ : ∃ c, t.child? x = some c := by
      cases hc : t.child? x with
      | none => simp [at?, hc] at hdir
      | some c => exact ⟨c, rfl⟩
    simp only [at?, hc, Option.bind_some] at hdir
    simp only [List.cons_append, put, hc, Option.getD_some]
    by_cases hx : [x] <+: other
    · obtain ⟨rest, rfl⟩ := hx
      have hrest : ¬ loc ++ [n] <+: rest := by simpa [List.cons_prefix_cons] using h
      simpa [seen?_cons, child?_setChild, hc] using ih hdir hrest
    · exact seen?_setChild_of_ne (isDir_of_child? hc) hx

theorem at?_put (new : Tree) (loc : List String) (t : Tree) :
    (put new loc t).at? loc = some new := by
  induction loc generalizing t with
  | nil => rfl
  | cons x loc ih => simp [put, at?, child?_setChild, ih]

theorem child?_filter {es : List (String × Tree)} {y : String} (h : y ≠ x) :
    (dir (es.filter fun e => !decide (e.1 = x))).child? y = (dir es).child? y := by
  have hy : ∀ e : String × Tree, decide (¬ e.1 = x ∧ e.1 = y) = decide (e.1 = y) := by
    intro e
    by_cases he : e.1 = y <;> simp [he, h]
  simp [child?, entries, List.find?_filter, hy]

theorem seen?_remove (hloc : (t.at? loc).isSome) (h : ¬ loc <+: other) :
    (t.remove loc).seen? other = t.seen? other := by
  induction loc generalizing t other with
  | nil => exact absurd List.nil_prefix h
  | cons x loc ih =>
    obtain ⟨c, hc⟩ : ∃ c, t.child? x = some c := by
      cases hc : t.child? x with
      | none => simp [at?, hc] at hloc
      | some c => exact ⟨c, rfl⟩
    have ht : t.isDir = true := isDir_of_child? hc
    cases loc with
    | nil =>
      cases other with
      | nil => simpa [remove, content?] using (content?_of_isDir ht).symm
      | cons y other =>
        have hy : y ≠ x := by simpa [eq_comm] using h
        cases t with
        | file c => simp [isDir] at ht
        | dir es => simp [remove, entries, seen?_cons, child?_filter hy]
    | cons z loc =>
      simp only [remove, hc]
      by_cases hx : [x] <+: other
      · obtain ⟨rest, rfl⟩ := hx
        have hrest : ¬ z :: loc <+: rest := by simpa [List.cons_prefix_cons] using h
        simp only [at?, hc, Option.bind_some] at hloc
        simpa [seen?_cons, child?_setChild, hc] using ih hloc hrest
      · exact seen?_setChild_of_ne ht hx

end Tree

namespace Disk

def seen? (d : Disk) (loc : List String) : Option (Option Content) :=
  d.root.seen? loc

/-- From one store to another nothing changes but what is at places of `inside`, and directories at
places of `made` that were missing. -/
structure Confined (made inside : List String → Prop) (d d' : Disk) : Prop where
  working : d'.working = d.working
  outside : ∀ loc, ¬ inside loc →
    d'.seen? loc = d.seen? loc ∨ made loc ∧ d.seen? loc = none ∧ d'.seen? loc = some none

namespace Confined

variable {made inside made' inside' : List String → Prop} {d d' d'' : Disk}

theorem refl : Confined made inside d d :=
  ⟨rfl, fun _ _ => .inl rfl⟩

theorem trans (h : Confined made inside d d') (h' : Confined made inside d' d'') :
    Confined made inside d d'' := by
  refine ⟨h'.working.trans h.working, fun loc hloc => ?_⟩
  rcases h.outside loc hloc with he | ⟨hm, hnone, hdir⟩
  · rcases h'.outside loc hloc with he' | ⟨hm', hnone', hdir'⟩
    · exact .inl (he'.trans he)
    · exact .inr ⟨hm', he ▸ hnone', hdir'⟩
  · rcases h'.outside loc hloc with he' | ⟨_, hnone', _⟩
    · exact .inr ⟨hm, hnone, he'.trans hdir⟩
    · simp [hdir] at hnone'

theorem mono (h : Confined made inside d d') (hinside : ∀ loc, inside loc → inside' loc)
    (hmade : ∀ loc, made loc → made' loc ∨ inside' loc) : Confined made' inside' d d' := by
  refine ⟨h.working, fun loc hloc => ?_⟩
  rcases h.outside loc fun hi => hloc (hinside loc hi) with he | ⟨hm, hnone, hdir⟩
  · exact .inl he
  · exact .inr ⟨(hmade loc hm).resolve_right hloc, hnone, hdir⟩

end Confined

variable {ε α β : Type} {made inside : List String → Prop}

theorem bind_run (a : Storage ε α) (f : α → Storage ε β) (d : Disk) :
    (a >>= f) d = match a d with
      | (.ok x, d') => f x d'
      | (.error e, d') => (.error e, d') := by
  show (match (a d).1 with | .ok x => _ | .error e => _ : StateM Disk _) (a d).2 = _
  rcases a d with ⟨_ | _, _⟩ <;> rfl

theorem Confined.bind {d : Disk} {a : Storage ε α} {f : α → Storage ε β}
    (ha : Confined made inside d (a d).2)
    (hf : ∀ x d', a d = (.ok x, d') → d'.working = d.working → Confined made inside d' (f x d').2) :
    Confined made inside d ((a >>= f) d).2 := by
  rw [bind_run]
  rcases hd : a d with ⟨r | x, d'⟩
  · simpa [hd] using ha
  · rw [hd] at ha
    exact ha.trans (hf x d' hd ha.working)

theorem get_run (f : Disk → Storage ε β) (d : Disk) : ((get : Storage ε Disk) >>= f) d = f d d :=
  rfl

theorem Confined.get_bind {d : Disk} {f : Disk → Storage ε β}
    (hf : Confined made inside d (f d d).2) :
    Confined made inside d (((get : Storage ε Disk) >>= f) d).2 :=
  hf

theorem look_run (f : Disk → Except DiskFault α) (d : Disk) : look f d = (f d, d) := by
  rw [look, get_run]
  cases f d <;> rfl

theorem Confined.look_bind {d : Disk} {f : Disk → Except DiskFault α} {g : α → Storage DiskFault β}
    (hg : ∀ x, f d = .ok x → Confined made inside d (g x d).2) :
    Confined made inside d ((look f >>= g) d).2 := by
  refine .bind ?_ ?_
  · rw [look_run]
    exact .refl
  · intro x d' hx _
    rw [look_run] at hx
    obtain ⟨hf, rfl⟩ := Prod.mk.inj hx
    exact hg x hf

theorem isDirAt_iff {d : Disk} {loc : List String} :
    d.isDirAt loc = true ↔ (d.root.at? loc).map Tree.isDir = some true := by
  unfold isDirAt
  cases (d.root.at? loc).map Tree.isDir <;> simp

theorem put_dir_confined {d : Disk} {loc : List String} {n : String} (hdir : d.isDirAt loc = true)
    (hnone : d.root.at? (loc ++ [n]) = none) :
    Confined (· = loc ++ [n]) inside d (d.put (loc ++ [n]) (.dir [])) := by
  refine ⟨rfl, fun other _ => ?_⟩
  by_cases h : loc ++ [n] <+: other
  · obtain ⟨rest, rfl⟩ := h
    have hold : d.seen? (loc ++ [n] ++ rest) = none := by
      simp only [seen?, Tree.seen?, Tree.at?_append _ (loc ++ [n]) rest, hnone, Option.bind_none,
        Option.map_none]
    have hnew : (d.put (loc ++ [n]) (.dir [])).seen? (loc ++ [n] ++ rest)
        = (Tree.dir []).seen? rest := by
      simp only [seen?, Tree.seen?, put, Tree.at?_append _ (loc ++ [n]) rest, Tree.at?_put,
        Option.bind_some]
    cases rest with
    | nil => exact .inr ⟨List.append_nil _, hold, hnew⟩
    | cons x rest => exact .inl (hnew.trans hold.symm)
  · exact .inl (Tree.seen?_put (isDirAt_iff.mp hdir) h)

/-- What making directories does first: it fails and changes nothing, goes on to what is there, or
makes a directory that is missing and goes on there. -/
theorem makeDirs_cases (s : Step) (ss : List Step) (loc : List String) (d : Disk) :
    (∃ e, makeDirs loc (s :: ss) d = (.error e, d)) ∨
    d.isDirAt loc = true ∧ makeDirs loc (s :: ss) d = makeDirs (s.move loc) ss d ∨
    ∃ n, s = .name n ∧ d.isDirAt loc = true ∧ d.root.at? (loc ++ [n]) = none ∧ isUsable n = true ∧
      makeDirs loc (s :: ss) d = makeDirs (loc ++ [n]) ss (d.put (loc ++ [n]) (.dir [])) := by
  rw [makeDirs, get_run]
  split
  · exact .inl ⟨_, rfl⟩
  · next hdir =>
    have hdir : d.isDirAt loc = true := by simpa using hdir
    cases s with
    | here => exact .inr (.inl ⟨hdir, rfl⟩)
    | up => exact .inr (.inl ⟨hdir, rfl⟩)
    | name n =>
      dsimp only
      split
      · next hnone =>
        split
        · exact .inl ⟨_, rfl⟩
        · split
          · exact .inl ⟨_, rfl⟩
          · next husable =>
            exact .inr (.inr ⟨n, rfl, hdir, Option.isNone_iff_eq_none.mp hnone,
              by simpa using husable, rfl⟩)
      · exact .inr (.inl ⟨hdir, rfl⟩)

theorem makeDirs_nil_cases (loc : List String) (d : Disk) :
    (∃ e, makeDirs loc [] d = (.error e, d)) ∨ d.isDirAt loc = true ∧
      makeDirs loc [] d = (.ok (), d) := by
  rw [makeDirs, get_run]
  split
  · exact .inl ⟨_, rfl⟩
  · next hdir => exact .inr ⟨by simpa using hdir, rfl⟩

theorem makeDirs_confined (ss : List Step) (loc : List String) (d : Disk) :
    Confined (Path.Passes loc ss) (fun _ => False) d (makeDirs loc ss d).2 := by
  induction ss generalizing loc d with
  | nil =>
    rcases makeDirs_nil_cases loc d with ⟨e, h⟩ | ⟨-, h⟩ <;> rw [h] <;> exact .refl
  | cons s ss ih =>
    have hrest : ∀ d', Confined (Path.Passes loc (s :: ss)) (fun _ => False) d'
        (makeDirs (s.move loc) ss d').2 :=
      fun d' => (ih (s.move loc) d').mono (fun _ h => h) fun _ h => .inl h.cons
    rcases makeDirs_cases s ss loc d with ⟨e, h⟩ | ⟨-, h⟩ | ⟨n, rfl, hdir, hnone, -, h⟩ <;> rw [h]
    · exact .refl
    · exact hrest d
    · have hmake : Confined (Path.Passes loc (.name n :: ss)) (fun _ => False) d
          (d.put (loc ++ [n]) (.dir [])) :=
        (put_dir_confined hdir hnone).mono (fun _ h => h) fun _ h =>
          .inl (h ▸ Path.passes_start.cons)
      exact hmake.trans (hrest _)

theorem makeDir_confined (p : Path) (d : Disk) :
    Confined (d.OnWay p) (fun _ => False) d (makeDir p d).2 := by
  unfold makeDir
  split
  · exact .refl
  · split
    · exact .refl
    · exact makeDirs_confined p.steps (d.start p) d

theorem slot_inv {p : Path} {d : Disk} {loc : List String} {n : String}
    (h : d.slot p = .ok (loc, n)) : p.endsInSlash = false ∧
      (∃ before, p.steps = before ++ [.name n] ∧ d.walk (d.start p) before = .ok loc) ∧
      d.isDirAt loc = true ∧ isUsable n = true := by
  unfold slot at h
  split at h
  · next m hlast =>
    dsimp only at h
    by_cases hend : p.endsInSlash = true
    · rw [if_pos hend] at h
      cases h
    · rw [if_neg hend] at h
      obtain ⟨l, hwalk, h⟩ := bind_eq_ok.mp h
      split at h
      · cases h
      · next hdir =>
        split at h
        · next husable =>
          cases h
          obtain ⟨before, hbefore⟩ := List.getLast?_eq_some_iff.mp hlast
          refine ⟨by simpa using hend, ⟨before, hbefore, ?_⟩, by simpa using hdir, husable⟩
          rwa [hbefore, List.dropLast_concat] at hwalk
        · cases h
  · cases h
  · split at h <;> cases h

theorem slot_eq_ok {p : Path} {d : Disk} {loc : List String} {n : String}
    (h : d.slot p = .ok (loc, n)) : loc ++ [n] = d.place p ∧ d.isDirAt loc = true := by
  obtain ⟨-, ⟨before, hsteps, hwalk⟩, hdir, -⟩ := slot_inv h
  refine ⟨?_, hdir⟩
  rw [place, hsteps, Path.follow_append, ← walk_eq hwalk]
  rfl

theorem removeDir_confined (p : Path) (d : Disk) :
    Confined made (d.place p <+: ·) d (removeDir p d).2 := by
  unfold removeDir
  refine .look_bind fun ⟨loc, n⟩ hslot => ?_
  obtain ⟨hplace, -⟩ := slot_eq_ok hslot
  refine .get_bind ?_
  rcases ht : d.root.at? (loc ++ [n]) with - | ⟨c | es⟩
  · exact .refl
  · exact .refl
  · refine ⟨rfl, fun other hother => .inl ?_⟩
    have hloc : (d.root.at? (loc ++ [n])).isSome := by simp [ht]
    exact Tree.seen?_remove hloc (hplace ▸ hother)

end Disk

end Narrative
