import Narrative.Addon.Script
import Narrative.Proofs.Course.Dispatch
import Narrative.Proofs.Except

/-! Add-ons that only have scripts make no native verbs. -/

namespace Narrative

namespace Registry

theorem IsPlain.register {r : Registry} (hr : r.IsPlain) {v : Verb} (hv : v.handler.isPlain) :
    (r.register v).IsPlain := by
  intro name w hw
  unfold Registry.get? Registry.register at hw
  rw [Dict.get?_insert] at hw
  split at hw
  · cases hw
    exact hv
  · exact hr name w hw

theorem core_isPlain : core.IsPlain := by
  refine List.foldlRecOn _ _ (fun _ _ h => nomatch h) fun r hr v hv => ?_
  obtain ⟨c, _, rfl⟩ := List.mem_map.mp hv
  exact hr.register rfl

end Registry

/-- Whatever the extension is run for, it offers no native verbs. -/
def Extension.IsPlain (x : Extension) : Prop :=
  ∀ a w s, ∀ o ∈ (x a w s).offers, o.handler.isPlain

theorem Script.extension_isPlain (script : Script) : script.extension.IsPlain := by
  intro a w s o ho
  unfold Script.extension at ho
  split at ho
  · cases ho
  · obtain ⟨e, _, rfl⟩ := List.mem_map.mp ho
    rfl

theorem Extension.runAll_isPlain {a : Addon} {w : World} {s : State} {parts : List Extension}
    (hp : ∀ x ∈ parts, x.IsPlain) {offers : List Offer} (h : runAll a w s parts = .ok offers) :
    ∀ o ∈ offers, o.handler.isPlain := by
  induction parts generalizing offers with
  | nil =>
    cases h
    exact fun _ ho => nomatch ho
  | cons x parts ih =>
    obtain ⟨_, _, h⟩ := bind_eq_ok.mp h
    obtain ⟨rest, hrest, h⟩ := bind_eq_ok.mp h
    cases h
    intro o ho
    rcases List.mem_append.mp ho with ho | ho
    · exact hp x List.mem_cons_self a w s o ho
    · exact ih (fun y hy => hp y (List.mem_cons_of_mem _ hy)) hrest o ho

theorem Disk.parts_isPlain {d : Disk} {a : Addon} {parts : List Extension}
    (h : d.parts ∅ a = .ok parts) : ∀ x ∈ parts, x.IsPlain := by
  obtain ⟨script, _, h⟩ := bind_eq_ok.mp h
  cases h
  intro x hx
  have hx' : x ∈ (script.map Script.extension).toList := by
    rcases List.mem_append.mp hx with hx | hx
    · exact hx
    · cases hx
  obtain ⟨s, _, rfl⟩ := Option.map_eq_some_iff.mp (Option.mem_toList.mp hx')
  exact s.extension_isPlain

namespace Extending

theorem add_isPlain {x : Extending} (hx : x.registry.IsPlain) {w : World} {s : State} {a : Addon}
    {parts : Except ExtensionError (List Extension)}
    (hp : ∀ ps, parts = .ok ps → ∀ y ∈ ps, y.IsPlain) : (x.add w s a parts).registry.IsPlain := by
  unfold add
  split
  · exact hx
  · exact hx
  · next ps _ =>
    split
    · next offers ho =>
      have hoff := Extension.runAll_isPlain (hp ps rfl) ho
      exact List.foldlRecOn offers (accept a) hx fun r hr o hmem => hr.register (hoff o hmem)
    · exact hx

/-- Scripts alone add no native verb to a registry. -/
theorem load_isPlain {r : Registry} (hr : r.IsPlain) (d : Disk) (w : World) (s : State)
    (addons : List Addon) : (load d ∅ w s addons r).registry.IsPlain :=
  List.foldlRecOn (motive := fun x : Extending => x.registry.IsPlain) addons _ hr
    fun _ hx _ _ => add_isPlain hx fun _ h => Disk.parts_isPlain h

end Extending

end Narrative
