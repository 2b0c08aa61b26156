import Narrative.Proofs.Addon.Manager
import Narrative.Proofs.Dict
import Narrative.Proofs.Except
import Narrative.Proofs.Storage.Regular
import Narrative.Proofs.Storage.Way

/-! What a manager finds. An add-on is found under a name if there is a manifest below that name in
the directory of add-ons, and nothing else counts. -/

namespace Narrative

namespace Manager

variable {m m' : Manager} {d d' : Disk} {dir p : Path} {preferences : Dict Preference} {n : String}
  {names : List String} {a : Addon} {c : Content}

def manifestOf : Content → Option Manifest
  | .text s => (Toml.read s).bind Manifest.ofJson
  | _ => none

def manifestAt (d : Disk) (loc : List String) : Option Manifest :=
  (d.seen? loc).join.bind manifestOf

def found? (d : Disk) (dir : Path) (preferences : Dict Preference) (n : String) : Option Addon :=
  (manifestAt d (d.place dir ++ [n, manifestName])).map fun x =>
    Addon.ofManifest n (dir.join n) x (preferences.getD n {})

theorem isFile_iff : d.isFile p = true ↔ ∃ c, d.content p = .ok c := by
  unfold Disk.isFile Disk.find?
  cases hl : d.locate p with
  | error e =>
    have hcontent : d.content p = .error e := by
      rw [Disk.content, hl]
      rfl
    simp [hcontent]
  | ok l =>
    simp only [Disk.content_ok_iff, hl, Except.ok.injEq, exists_eq_left', ← Disk.at?_eq_file_iff]
    cases d.root.at? l with
    | none => simp
    | some t => cases t <;> simp [Tree.isDir]

theorem readManifest_of_content (h : d.content p = .ok c) : readManifest d p = manifestOf c := by
  unfold readManifest Disk.readText
  rw [h]
  cases c <;> rfl

theorem isWritten_manifestName : Path.IsWritten (.name manifestName) :=
  ⟨by decide, by decide⟩

theorem place_manifest (d : Disk) (dir : Path) (hn : Disk.IsName n) :
    d.place ((dir.join n).join manifestName) = d.place dir ++ [n, manifestName] := by
  rw [Disk.place_join_name d _ isWritten_manifestName, Disk.place_join_name d dir hn.written,
    List.append_assoc, List.singleton_append]

theorem content_manifest (hopen : d.IsOpen dir) (hn : Disk.IsName n)
    (hseen : d.seen? (d.place dir ++ [n, manifestName]) = some (some c)) :
    d.content ((dir.join n).join manifestName) = .ok c := by
  have hbelow : d.seen? (d.place dir ++ [n] ++ [manifestName]) = some (some c) := by
    simpa using hseen
  have hdir : d.isDirAt (d.place dir ++ [n]) = true :=
    Disk.isDirAt_of_below (by rw [hbelow]; simp) (List.cons_ne_nil _ _)
  refine ((Disk.isOpen_join hopen hn.written hdir).content_join_iff isWritten_manifestName).mpr ?_
  rwa [Disk.place_join_name d dir hn.written]

/-- What is found under a name depends on what is seen there alone. -/
theorem find?_eq (hopen : d.IsOpen dir) (hn : Disk.IsName n) :
    find? d dir preferences n = found? d dir preferences n := by
  unfold find? found? manifestAt
  dsimp only
  by_cases hfile : ∃ c, d.content ((dir.join n).join manifestName) = .ok c
  · obtain ⟨c, hc⟩ := hfile
    rw [if_pos (isFile_iff.mpr ⟨c, hc⟩), readManifest_of_content hc, ← place_manifest d dir hn,
      Disk.seen?_of_content hc]
    rfl
  · rw [if_neg fun h => hfile (isFile_iff.mp h)]
    have hnot : ∀ c, d.seen? (d.place dir ++ [n, manifestName]) ≠ some (some c) := fun c hseen =>
      hfile ⟨c, content_manifest hopen hn hseen⟩
    rcases hseen : d.seen? (d.place dir ++ [n, manifestName]) with - | - | c
    · rfl
    · rfl
    · exact absurd hseen (hnot c)

theorem id_of_find? (h : find? d dir preferences n = some a) : a.id = n := by
  unfold find? at h
  dsimp only at h
  split at h
  · obtain ⟨x, -, rfl⟩ := Option.map_eq_some_iff.mp h
    rfl
  · cases h

theorem findAll_get? (d : Disk) (dir : Path) (preferences : Dict Preference) (names : List String)
    (n : String) :
    (findAll d dir preferences names).get? n = if n ∈ names then find? d dir preferences n
      else none := by
  have hkeys : (names.filterMap (find? d dir preferences)).map (fun a => (a.id, a))
      = names.filterMap fun n => (find? d dir preferences n).map fun a => (n, a) := by
    rw [List.map_filterMap]
    refine congrArg (fun f => names.filterMap f) (funext fun n => ?_)
    cases ha : find? d dir preferences n with
    | none => rfl
    | some a => simp [id_of_find? ha]
  rw [findAll, hkeys, Dict.get?_ofList_filterMap]

/-- The names of a directory hold all that can be found in it. -/
theorem findAll_names (hopen : d.IsOpen dir) (hreg : d.Regular) (h : d.names dir = .ok names)
    (n : String) : (findAll d dir preferences names).get? n = found? d dir preferences n := by
  obtain ⟨names', h', hmem⟩ := hopen.names
  obtain rfl : names = names' := by
    rw [h] at h'
    exact Except.ok.inj h'
  rw [findAll_get?]
  split
  · next hn => exact find?_eq hopen (hreg _ ((hmem n).mp hn) n (by simp))
  · next hn =>
    have hnone : d.seen? (d.place dir ++ [n]) = none :=
      Decidable.not_not.mp fun h => hn ((hmem n).mpr h)
    have hnot : d.isDirAt (d.place dir ++ [n]) = false :=
      Disk.isDirAt_eq_false_iff.mpr (by simp [hnone])
    have hbelow : d.seen? (d.place dir ++ [n, manifestName]) = none := by
      simpa using Disk.seen?_below_file hnot (List.cons_ne_nil manifestName [])
    simp [found?, manifestAt, hbelow]

theorem disk_run {α : Type} (a : Storage DiskFault α) (m : Manager) (d : Disk) :
    Managing.disk a m d = (((a d).1.mapError .io, m), (a d).2) :=
  rfl

theorem discover_run (m : Manager) (d : Disk) :
    discover m d = match Disk.makeDir m.dir d with
      | (.error e, d') => ((.error (.io e), m), d')
      | (.ok (), d') => match d'.names m.dir with
        | .error e => ((.error (.io e), { m with addons := ∅ }), d')
        | .ok names =>
          ((.ok (), { m with addons := findAll d' m.dir m.preferences names }), d') := by
  have hget (f : Manager → Managing Unit) : (get >>= f) m d = f m m d := rfl
  rw [discover, hget, Managing.bind_run, disk_run]
  rcases hmake : Disk.makeDir m.dir d with ⟨e | u, d'⟩
  · rfl
  · have hset (f : Unit → Managing Unit) (m₁ : Manager) : (set m₁ >>= f) m d' = f () m₁ d' := rfl
    have hdisk (f : Disk → Managing Unit) (m₁ : Manager) :
      (Managing.disk get >>= f) m₁ d' = f d' m₁ d' := rfl
    dsimp only [Except.mapError]
    rw [hset, hdisk, Managing.bind_run, disk_run, Disk.look_run]
    cases d'.names m.dir <;> rfl

theorem discover_inv {u : Unit} (h : discover m d = ((.ok u, m'), d')) :
    Disk.makeDir m.dir d = (.ok (), d') ∧ d'.IsOpen m.dir ∧
      ∃ names, d'.names m.dir = .ok names ∧
        m' = { m with addons := findAll d' m.dir m.preferences names } := by
  rw [discover_run] at h
  rcases hmake : Disk.makeDir m.dir d with ⟨e | u, d₁⟩ <;> rw [hmake] at h
  · cases h
  · dsimp only at h
    cases hnames : d₁.names m.dir with
    | error e =>
      rw [hnames] at h
      cases h
    | ok names =>
      rw [hnames] at h
      cases h
      exact ⟨rfl, Disk.isOpen_of_names hnames, names, hnames, rfl⟩

theorem discover_ok (h : d.Standing m.dir) :
    ∃ m' d', discover m d = ((.ok (), m'), d') := by
  obtain ⟨d', hmake, hopen⟩ := h.makeDir
  obtain ⟨names, hnames, -⟩ := hopen.names
  refine ⟨{ m with addons := findAll d' m.dir m.preferences names }, d', ?_⟩
  rw [discover_run, hmake]
  dsimp only
  rw [hnames]

theorem open?_of_discover {file : Path} {r : Except AddonError Unit}
    (h : discover { dir, file, preferences := readPreferences d file } d = ((r, m), d')) :
    open? dir file d = (r.map fun _ => m, d') := by
  rw [open?]
  rw [h]

end Manager

end Narrative
