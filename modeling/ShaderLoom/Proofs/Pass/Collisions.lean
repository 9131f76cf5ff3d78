import Mathlib.Data.Set.Pairwise.List
import ShaderLoom.Pass.Rebind
import ShaderLoom.Proofs.Meaning.CallGraph

/-! Resources that come to share a point. The search for them goes through lists of variables, and
it finds two of them just where some entry point uses two variables that are moved to one point. -/
namespace ShaderLoom

/-- A variable is bound at a point. -/
def Facts.BoundAt (f : Facts) (n : VariableId) (point : BindingPoint) : Prop :=
  ∃ v, f.vars[n]? = some v ∧ v.bindingPoint = some point

namespace Rebind

variable {f : Facts} {image : BindingPoint → BindingPoint}

/-- Some entry point uses two variables, itself or through calls, whose points have one image. -/
def Collides (f : Facts) (image : BindingPoint → BindingPoint) : Prop :=
  ∃ e x, f.functions[e]? = some x ∧ x.isEntryPoint = true ∧ ∃ n m a b, n ≠ m ∧ f.UsesGlobal e n ∧
    f.UsesGlobal e m ∧
    f.BoundAt n a ∧ f.BoundAt m b ∧ image a = image b

/-- Nothing clashes where all places are different. -/
theorem clash_eq_none (image : BindingPoint → BindingPoint) {seen rs : List (String × BindingPoint)}
    (hseen : (seen.map Prod.snd).Nodup) :
    clash image seen rs = none ↔ (seen.map Prod.snd ++ rs.map (image ·.2)).Nodup := by
  induction rs generalizing seen with
  | nil => simpa [clash] using hseen
  | cons r rs ih =>
    obtain ⟨name, point⟩ := r
    rw [clash]
    split
    · next first place hfind =>
      have hplace : image point ∈ seen.map Prod.snd :=
        List.mem_map.2 ⟨_, List.mem_of_find?_eq_some hfind, by simpa using List.find?_some hfind⟩
      refine iff_of_false (by simp) fun hnodup => ?_
      exact (List.nodup_append.1 hnodup).2.2 _ hplace _ (by simp) rfl
    · next hfind =>
      have hnew : image point ∉ seen.map Prod.snd := by
        intro hmem
        obtain ⟨r, hr, hp⟩ := List.mem_map.1 hmem
        exact absurd (by simpa using hp) (List.find?_eq_none.1 hfind r hr)
      have hnext : ((seen ++ [(name, image point)]).map Prod.snd).Nodup := by
        rw [List.map_append, List.nodup_append]
        refine ⟨hseen, List.nodup_singleton _, fun c hc d hd hcd => hnew ?_⟩
        rwa [hcd, List.mem_singleton.1 hd] at hc
      rw [ih hnext, List.map_append, List.append_assoc]
      rfl

/-- The places of the resources of an entry point. -/
theorem places_resources (f : Facts) (image : BindingPoint → BindingPoint) (x : FunctionFacts) :
    (resources f x).map (image ·.2) = x.transitiveGlobals.filterMap fun n =>
      (f.vars[n]?.bind (·.bindingPoint)).map image := by
  rw [resources, Facts.variablesOf, List.filterMap_filterMap, List.map_filterMap]
  congr 1
  funext n
  cases f.vars[n]? with
  | none => rfl
  | some v => cases hpoint : v.bindingPoint <;> simp [hpoint]

/-- The resources of an entry point clash if two of its variables have one place. -/
theorem clash_resources {x : FunctionFacts} (hx : x.transitiveGlobals.Nodup) :
    (clash image [] (resources f x)).isSome ↔ ∃ n m a b, n ≠ m ∧ n ∈ x.transitiveGlobals ∧
      m ∈ x.transitiveGlobals ∧
      f.BoundAt n a ∧ f.BoundAt m b ∧ image a = image b := by
  have hbound : ∀ n c, (f.vars[n]?.bind (·.bindingPoint)).map image = some c ↔
      ∃ a, f.BoundAt n a ∧ image a = c := by
    intro n c
    simp only [Facts.BoundAt, Option.map_eq_some_iff, Option.bind_eq_some_iff]
  let apart (n m : VariableId) : Prop :=
    ∀ c, (f.vars[n]?.bind (·.bindingPoint)).map image = some c →
    ∀ d, (f.vars[m]?.bind (·.bindingPoint)).map image = some d → c ≠ d
  have hsymm : Std.Symm apart := ⟨fun n m h c hc d hd he => h d hd c hc he.symm⟩
  have hnone : clash image [] (resources f x) = none ↔ ∀ n ∈ x.transitiveGlobals,
      ∀ m ∈ x.transitiveGlobals, n ≠ m → apart n m := by
    rw [clash_eq_none image (by simp), List.map_nil, List.nil_append, places_resources,
      List.nodup_iff_pairwise_ne, List.pairwise_filterMap]
    exact (List.Nodup.pairwise_coe (r := apart) hx).symm
  rw [Option.isSome_iff_ne_none, Ne, hnone]
  refine ⟨fun hclash => ?_, ?_⟩
  · by_contra hno
    refine hclash fun n hn m hm hnm c hc d hd hcd => hno ?_
    obtain ⟨a, ha, rfl⟩ := (hbound n c).1 hc
    obtain ⟨b, hb, rfl⟩ := (hbound m d).1 hd
    exact ⟨n, m, a, b, hnm, hn, hm, ha, hb, hcd⟩
  · rintro ⟨n, m, a, b, hnm, hn, hm, ha, hb, hab⟩ hapart
    exact hapart n hn m hm hnm _ ((hbound n _).2 ⟨a, ha, rfl⟩) _ ((hbound m _).2 ⟨b, hb, rfl⟩) hab

/-- The search for collisions finds one if there is one. -/
theorem collision_isSome
    (hentries : ∀ e, e ∈ f.entryPoints ↔ ∃ x, f.functions[e]? = some x ∧ x.isEntryPoint = true)
    (hglobals : ∀ (e : NodeId) x, f.functions[e]? = some x → x.transitiveGlobals.Nodup ∧
      ∀ n, n ∈ x.transitiveGlobals ↔ f.UsesGlobal e n) :
    (collision f image).isSome ↔ Collides f image := by
  have hsearch : (collision f image).isSome ↔ ∃ x ∈ f.entryPointFacts,
      (clash image [] (resources f x)).isSome := by
    simp [collision, List.findSome?_isSome_iff]
  rw [hsearch]
  constructor
  · rintro ⟨x, hx, hclash⟩
    obtain ⟨e, he, hx⟩ := List.mem_filterMap.1 hx
    obtain ⟨x', hx', hstage⟩ := (hentries e).1 he
    cases hx.symm.trans hx'
    obtain ⟨hnodup, huses⟩ := hglobals e x hx
    obtain ⟨n, m, a, b, hne, hn, hm, hrest⟩ := (clash_resources hnodup).1 hclash
    exact ⟨e, x, hx, hstage, n, m, a, b, hne, (huses n).1 hn, (huses m).1 hm, hrest⟩
  · rintro ⟨e, x, hx, hstage, n, m, a, b, hne, hn, hm, hrest⟩
    obtain ⟨hnodup, huses⟩ := hglobals e x hx
    exact ⟨x, List.mem_filterMap.2 ⟨e, (hentries e).2 ⟨x, hx, hstage⟩, hx⟩,
      (clash_resources hnodup).2 ⟨n, m, a, b, hne, (huses n).2 hn, (huses m).2 hm, hrest⟩⟩

end Rebind
end ShaderLoom
