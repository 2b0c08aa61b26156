import Narrative.Addon.Script
import Narrative.Proofs.Except

/-! Loading extensions. An add-on contributes the verbs of all its units or none, and among verbs of
one name the last one is there. Units are judged one by one here, without regard to how they are
run. -/

namespace Narrative

def Offer.verb (a : Addon) (o : Offer) : Verb :=
  ⟨o.name, o.arity, .addon a.id, o.handler⟩

def Script.isValid (script : Script) : Bool :=
  script.verbs.entries.all fun e => isName e.1 && e.2.params.all isName

/-- What a unit of an add-on stages, unless it fails: a list of offers in order. -/
abbrev Staging := Option (List Offer)

def Contribution.staging (c : Contribution) : Staging :=
  match c.outcome with
  | .ok () => some c.offers
  | .error _ => none

def Script.staging (script : Script) : Staging :=
  if script.isValid then some (script.verbs.entries.map Script.offer) else none

namespace Addon

variable (d : Disk) (catalog : Dict Extension) (w : World) (s : State)

/-- The unit of the script, if there is one. What cannot be read as a script is a unit that
fails. -/
def scriptUnits (a : Addon) : List Staging :=
  match d.readScript a.path with
  | .error _ => [none]
  | .ok none => []
  | .ok (some script) => [script.staging]

def nativeUnits (a : Addon) : List Staging :=
  (catalog.get? a.id).toList.map fun x => (x a w s).staging

def units (a : Addon) : List Staging :=
  a.scriptUnits d ++ a.nativeUnits catalog w s

def failing (a : Addon) : Bool :=
  (a.units d catalog w s).any Option.isNone

/-- Whether the add-on has units and all of them succeed. -/
def succeeding (a : Addon) : Bool :=
  !(a.units d catalog w s).isEmpty && (a.units d catalog w s).all Option.isSome

/-- The verbs that the units of an add-on stage, in order. -/
def staged (a : Addon) : List Verb :=
  ((a.units d catalog w s).flatMap (·.getD [])).map (Offer.verb a)

end Addon

def lastNamed (name : String) (verbs : List Verb) : Option Verb :=
  verbs.reverse.find? fun v => v.name = name

theorem lastNamed_append (name : String) (us vs : List Verb) :
    lastNamed name (us ++ vs) = (lastNamed name vs).or (lastNamed name us) := by
  rw [lastNamed, List.reverse_append, List.find?_append]
  rfl

namespace Registry

theorem get?_register (r : Registry) (v : Verb) (name : String) :
    (r.register v).get? name = (lastNamed name [v]).or (r.get? name) := by
  have hget : (r.register v).get? name = if name = v.name then some v else r.get? name :=
    Dict.get?_insert r.verbs v.name name v
  rw [hget]
  by_cases h : name = v.name
  · subst h
    simp [lastNamed]
  · have h' : ¬ v.name = name := fun heq => h heq.symm
    simp [lastNamed, h, h']

theorem get?_registerAll (r : Registry) (vs : List Verb) (name : String) :
    (vs.foldl register r).get? name = (lastNamed name vs).or (r.get? name) := by
  induction vs generalizing r with
  | nil => rfl
  | cons v vs ih =>
    have hlast : lastNamed name (v :: vs) = (lastNamed name vs).or (lastNamed name [v]) :=
      lastNamed_append name [v] vs
    rw [List.foldl_cons, ih, get?_register, hlast, Option.or_assoc]

end Registry

section Script

theorem Script.fault?_eq_none_iff (name : String) (v : ScriptVerb) :
    Script.fault? name v = none ↔ (isName name && v.params.all isName) = true := by
  unfold Script.fault?
  split <;> simp_all

theorem Script.extension_staging (script : Script) (a : Addon) (w : World) (s : State) :
    (script.extension a w s).staging = script.staging := by
  unfold Script.extension Script.staging
  have hfault : (script.verbs.entries.findSome? fun e => Script.fault? e.1 e.2) = none ↔
      script.isValid = true := by
    simp only [List.findSome?_eq_none_iff, Script.isValid, List.all_eq_true,
      Script.fault?_eq_none_iff]
  split
  · next e he =>
    rw [if_neg fun hvalid => nomatch he.symm.trans (hfault.mpr hvalid)]
    rfl
  · next he =>
    rw [if_pos (hfault.mp he)]
    rfl

end Script

namespace Extension

variable {a : Addon} {w : World} {s : State}

/-- Extensions that are run in order offer what each of them stages, and fail if one of them
does. -/
theorem runAll_spec (xs : List Extension) :
    match runAll a w s xs with
    | .ok offers => (xs.map fun x => (x a w s).staging).all Option.isSome = true ∧
        offers = (xs.map fun x => (x a w s).staging).flatMap (·.getD [])
    | .error _ => (xs.map fun x => (x a w s).staging).any Option.isNone = true := by
  induction xs with
  | nil => exact ⟨rfl, rfl⟩
  | cons x xs ih =>
    simp only [runAll, List.map_cons, List.all_cons, List.any_cons, List.flatMap_cons,
      Contribution.staging]
    cases (x a w s).outcome with
    | error e => rfl
    | ok _ =>
      cases hrest : runAll a w s xs with
      | error e =>
        rw [hrest] at ih
        exact ih
      | ok offers =>
        rw [hrest] at ih
        obtain ⟨hall, rfl⟩ := ih
        exact ⟨hall, rfl⟩

end Extension

section Load

variable {d : Disk} {catalog : Dict Extension} {w : World} {s : State} {a : Addon}

/-- The parts of an add-on are its units, unless its script cannot be read. -/
theorem Disk.parts_spec (d : Disk) (catalog : Dict Extension) (w : World) (s : State) (a : Addon) :
    match d.parts catalog a with
    | .ok xs => xs.map (fun x => (x a w s).staging) = a.units d catalog w s
    | .error _ => a.failing d catalog w s = true := by
  unfold Disk.parts Addon.failing Addon.units Addon.scriptUnits
  cases d.readScript a.path with
  | error e => rfl
  | ok script =>
    change List.map _ ((script.map Script.extension).toList ++ (catalog.get? a.id).toList) = _
    rw [List.map_append]
    cases script with
    | none => rfl
    | some script => exact congrArg (· :: _) (script.extension_staging a w s)

/-- The verbs of the add-ons of which all units succeed, in order. -/
def contributed (d : Disk) (catalog : Dict Extension) (w : World) (s : State)
    (addons : List Addon) : List Verb :=
  (addons.filter (·.succeeding d catalog w s)).flatMap (·.staged d catalog w s)

theorem contributed_append (as bs : List Addon) : contributed d catalog w s (as ++ bs)
    = contributed d catalog w s as ++ contributed d catalog w s bs := by
  rw [contributed, List.filter_append, List.flatMap_append]
  rfl

/-- What becomes of the verbs and the report while add-ons are loaded, judged by their units. -/
structure Loads (d : Disk) (catalog : Dict Extension) (w : World) (s : State) (x : Extending)
    (addons : List Addon) (y : Extending) : Prop where
  registry : ∀ name, y.registry.get? name
    = (lastNamed name (contributed d catalog w s addons)).or (x.registry.get? name)
  loaded : y.report.loaded = x.report.loaded ++
    (addons.filter (·.succeeding d catalog w s)).map Addon.id
  failed : y.report.failed.map Prod.fst
    = x.report.failed.map Prod.fst ++ (addons.filter (·.failing d catalog w s)).map Addon.id
  registered : y.report.registered = x.report.registered + (contributed d catalog w s addons).length

namespace Loads

variable {x y z : Extending} {as bs : List Addon}

theorem nil : Loads d catalog w s x [] x :=
  ⟨fun _ => rfl, (List.append_nil _).symm, (List.append_nil _).symm, rfl⟩

theorem append (hx : Loads d catalog w s x as y) (hy : Loads d catalog w s y bs z) :
    Loads d catalog w s x (as ++ bs) z where
  registry name := by
    rw [hy.registry, hx.registry, contributed_append, lastNamed_append, Option.or_assoc]
  loaded := by rw [hy.loaded, hx.loaded, List.filter_append, List.map_append, List.append_assoc]
  failed := by rw [hy.failed, hx.failed, List.filter_append, List.map_append, List.append_assoc]
  registered := by
    rw [hy.registered, hx.registered, contributed_append, List.length_append, Nat.add_assoc]

theorem not_succeeding (h : a.failing d catalog w s = true) :
    a.succeeding d catalog w s = false := by
  obtain ⟨u, hu, hnone⟩ := List.any_eq_true.mp h
  refine Bool.eq_false_iff.mpr fun hs => ?_
  have hsome := List.all_eq_true.mp (Bool.and_eq_true_iff.mp hs).2 u hu
  cases u with
  | none => cases hsome
  | some _ => cases hnone

theorem fail (h : a.failing d catalog w s = true) (e : ExtensionError) :
    Loads d catalog w s x [a] (x.fail a e) := by
  have hnot := not_succeeding h
  constructor <;> simp [Extending.fail, contributed, lastNamed, h, hnot]

theorem pass (h : a.units d catalog w s = []) : Loads d catalog w s x [a] x := by
  have hfailing : a.failing d catalog w s = false := by rw [Addon.failing, h]; rfl
  have hsucceeding : a.succeeding d catalog w s = false := by rw [Addon.succeeding, h]; rfl
  constructor <;> simp [contributed, lastNamed, hfailing, hsucceeding]

theorem succeed (h : a.succeeding d catalog w s = true) :
    Loads d catalog w s x [a] (x.succeed a ((a.units d catalog w s).flatMap (·.getD []))) := by
  have hfailing : a.failing d catalog w s = false := Bool.eq_false_iff.mpr fun hf =>
    Bool.false_ne_true ((not_succeeding hf).symm.trans h)
  have hverbs : contributed d catalog w s [a] = a.staged d catalog w s := by
    simp [contributed, h]
  constructor
  · intro name
    rw [hverbs, Addon.staged, ← Registry.get?_registerAll, List.foldl_map]
    rfl
  · simp [Extending.succeed, h]
  · simp [Extending.succeed, hfailing]
  · rw [hverbs, Addon.staged, List.length_map]
    rfl

theorem add (x : Extending) (a : Addon) :
    Loads d catalog w s x [a] (x.add w s a (d.parts catalog a)) := by
  have hparts := d.parts_spec catalog w s a
  cases hp : d.parts catalog a with
  | error e =>
    rw [hp] at hparts
    exact fail hparts e
  | ok xs =>
    rw [hp] at hparts
    have hunits : xs.map (fun x => (x a w s).staging) = a.units d catalog w s := hparts
    -- An add-on without units is in neither list, though running none of them would succeed.
    cases xs with
    | nil => exact pass hunits.symm
    | cons y ys =>
      have hrun := Extension.runAll_spec (a := a) (w := w) (s := s) (y :: ys)
      rw [hunits] at hrun
      change Loads d catalog w s x [a] (match Extension.runAll a w s (y :: ys) with
        | .ok offers => x.succeed a offers
        | .error e => x.fail a e)
      cases hr : Extension.runAll a w s (y :: ys) with
      | error e =>
        rw [hr] at hrun
        exact fail hrun e
      | ok offers =>
        rw [hr] at hrun
        obtain ⟨hall, rfl⟩ := hrun
        have hne : (a.units d catalog w s).isEmpty = false := by rw [← hunits]; rfl
        exact succeed (by rw [Addon.succeeding, hne, hall]; rfl)

theorem foldl (addons : List Addon) (x : Extending) : Loads d catalog w s x addons
    (addons.foldl (fun x a => x.add w s a (d.parts catalog a)) x) := by
  induction addons generalizing x with
  | nil => exact nil
  | cons a addons ih => exact append (add x a) (ih _)

end Loads

namespace Extending

end Extending

end Load

end Narrative
