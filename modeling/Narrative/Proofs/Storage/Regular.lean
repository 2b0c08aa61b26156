import Narrative.Proofs.Storage.Written

/-! The names in a store. Whatever is done to a store in which all names are ones that files can
have, all names that are new are such names too. -/

namespace Narrative

namespace Disk

/-- A name that a file can have: as a path it is one step. -/
structure IsName (n : String) : Prop where
  usable : isUsable n = true
  written : Path.IsWritten (.name n)

/-- All that is in the store has names that files can have. -/
def Regular (d : Disk) : Prop :=
  ∀ loc, d.seen? loc ≠ none → ∀ n ∈ loc, IsName n

variable {d d' : Disk} {p q : Path} {loc l : List String} {n : String} {ss : List Step}

theorem Regular.isName_of_dir (h : d.Regular) (hdir : d.isDirAt loc = true) : ∀ n ∈ loc, IsName n :=
  h loc (seen?_ne_none hdir)

theorem regular_empty (working : List String) : (⟨.dir [], working⟩ : Disk).Regular := by
  intro loc hloc n hn
  cases loc with
  | nil => cases hn
  | cons x loc => exact absurd rfl hloc

theorem Regular.of_new (h : d.Regular)
    (hnew : ∀ l, d'.seen? l ≠ none → d.seen? l ≠ none ∨ ∀ n ∈ l, IsName n) : d'.Regular :=
  fun l hl => (hnew l hl).elim (h l) id

theorem Regular.isName_slot (h : d.Regular) (hslot : d.slot p = .ok (loc, n)) :
    ∀ x ∈ loc ++ [n], IsName x := by
  obtain ⟨-, ⟨before, hsteps, -⟩, hdir, husable⟩ := slot_inv hslot
  have hmem : Step.name n ∈ p.steps := by simp [hsteps]
  intro x hx
  rcases List.mem_append.mp hx with hx | hx
  · exact h.isName_of_dir hdir x hx
  · cases List.mem_singleton.mp hx
    exact ⟨husable, Path.isWritten_of_mem hmem⟩

def KeepsRegular {ε α : Type} (a : Storage ε α) : Prop :=
  ∀ d, d.Regular → (a d).2.Regular

namespace KeepsRegular

variable {ε ε' α β : Type}

theorem pure (x : α) : KeepsRegular (Pure.pure x : Storage ε α) :=
  fun _ h => h

theorem throw (e : ε) : KeepsRegular (throw e : Storage ε α) :=
  fun _ h => h

theorem bind {a : Storage ε α} {f : α → Storage ε β} (ha : KeepsRegular a)
    (hf : ∀ x, KeepsRegular (f x)) : KeepsRegular (a >>= f) := by
  intro d h
  have hd := ha d h
  rw [bind_run]
  rcases hr : a d with ⟨e | x, d'⟩ <;> rw [hr] at hd
  · exact hd
  · exact hf x d' hd

theorem get_bind {f : Disk → Storage ε α} (hf : ∀ d, KeepsRegular (f d)) :
    KeepsRegular ((get : Storage ε Disk) >>= f) :=
  fun d h => hf d d h

theorem adapt {a : Storage ε α} (ha : KeepsRegular a) (f : ε → ε') : KeepsRegular (a.adapt f) :=
  ha

end KeepsRegular

theorem Regular.put_dir (h : d.Regular) (hdir : d.isDirAt loc = true)
    (hnone : d.root.at? (loc ++ [n]) = none)
    (hn : IsName n) : (d.put (loc ++ [n]) (.dir [])).Regular := by
  have hput : Confined (· = loc ++ [n]) (fun _ => False) d _ := put_dir_confined hdir hnone
  refine h.of_new fun l hl => ?_
  rcases hput.outside l fun h => h with he | ⟨rfl, -⟩
  · exact .inl (he ▸ hl)
  · refine .inr fun x hx => ?_
    rcases List.mem_append.mp hx with hx | hx
    · exact h.isName_of_dir hdir x hx
    · exact List.mem_singleton.mp hx ▸ hn

theorem keepsRegular_makeDirs (hss : ∀ n, .name n ∈ ss → Path.IsWritten (.name n))
    (loc : List String) : KeepsRegular (makeDirs loc ss) := by
  intro d hd
  induction ss generalizing loc d with
  | nil =>
    rcases makeDirs_nil_cases loc d with ⟨e, h⟩ | ⟨-, h⟩ <;> rw [h] <;> exact hd
  | cons s ss ih =>
    have hrest : ∀ n, .name n ∈ ss → Path.IsWritten (.name n) :=
      fun n hn => hss n (List.mem_cons_of_mem s hn)
    rcases makeDirs_cases s ss loc d with ⟨e, h⟩ | ⟨-, h⟩ | ⟨n, rfl, hdir, hnone, husable, h⟩ <;>
      rw [h]
    · exact hd
    · exact ih hrest _ d hd
    · exact ih hrest _ _ (hd.put_dir hdir hnone ⟨husable, hss n List.mem_cons_self⟩)

theorem keepsRegular_makeDir (p : Path) : KeepsRegular (makeDir p) := by
  unfold makeDir
  split
  · exact .pure _
  · split
    · exact .throw _
    · exact .get_bind fun d => keepsRegular_makeDirs (fun n hn => Path.isWritten_of_mem hn) _

theorem keepsRegular_write (p : Path) (c : Content) : KeepsRegular (write p c) := by
  intro d hd
  rcases write_cases p c d with ⟨e, h⟩ | ⟨d', h, hwrote, ⟨loc, n⟩, hslot⟩ <;> rw [h]
  · exact hd
  · refine hd.of_new fun l hl => ?_
    rw [hwrote.seen] at hl
    split at hl
    · next hplace =>
      rw [hplace, ← (slot_eq_ok hslot).1]
      exact .inr (hd.isName_slot hslot)
    · exact .inl hl

theorem keepsRegular_rename (p q : Path) : KeepsRegular (rename p q) := by
  intro d hd
  rcases rename_cases p q d with ⟨e, h⟩ | ⟨d', c, h, -, -, -, ⟨⟨loc, n⟩, hslot⟩, hseen⟩ <;> rw [h]
  · exact hd
  · refine hd.of_new fun l hl => ?_
    rw [hseen] at hl
    split at hl
    · next hplace =>
      rw [hplace, ← (slot_eq_ok hslot).1]
      exact .inr (hd.isName_slot hslot)
    · split at hl
      · exact absurd rfl hl
      · exact .inl hl

theorem keepsRegular_removeDir (p : Path) : KeepsRegular (removeDir p) := by
  intro d hd
  rcases removeDir_cases p d with ⟨e, h⟩ | ⟨d', h, -, hgone, hkept⟩ <;> rw [h]
  · exact hd
  · refine hd.of_new fun l hl => .inl ?_
    rwa [← hkept l fun hpre => hl (hgone l hpre)]

theorem keepsRegular_makeLead (p : Path) : KeepsRegular (makeLead p) := by
  unfold makeLead
  split
  · exact keepsRegular_makeDir _
  · exact .pure _

theorem keepsRegular_replace (p : Path) (c : Content) : KeepsRegular (replace p c) := by
  rw [replace_eq]
  exact .bind (keepsRegular_makeLead p) fun _ =>
    .bind (keepsRegular_write _ _) fun _ => keepsRegular_rename _ _

def filled (files : List (String × Content)) : Disk :=
  let fill : Storage DiskFault Unit := files.forM fun f => do
    makeLead ⟨f.1⟩
    write ⟨f.1⟩ f.2
  (fill ⟨.dir [], []⟩).2

theorem regular_filled (files : List (String × Content)) : (filled files).Regular := by
  have hfill : KeepsRegular (files.forM fun f => do
      makeLead ⟨f.1⟩
      write ⟨f.1⟩ f.2 : Storage DiskFault Unit) := by
    induction files with
    | nil => exact .pure _
    | cons f files ih =>
      exact .bind (.bind (keepsRegular_makeLead _) fun _ => keepsRegular_write _ _) fun _ => ih
  exact hfill _ (regular_empty [])

end Disk

end Narrative
