import ShaderLoom.Pass.Rebind
import ShaderLoom.Proofs.Document.Print
import ShaderLoom.Proofs.Meaning.Recorded

/-! What moving resources is to make of a program. The moved program is read off the source and the
tables alone: the attributes of every resource that the table moves say its new point, every
resource that gets another access mode has that, and nothing else is different. -/
namespace ShaderLoom

namespace Arena

variable {a b : Arena} {R : NodeId → NodeId → Prop}

/-- Parents are found from the children of nodes alone. -/
theorem parentsOf_congr (hsize : a.size = b.size) (hchildren : a.children = b.children)
    (root : NodeId) : a.parentsOf root = b.parentsOf root := by
  have hspread : ∀ n stack parents,
      a.spread root n stack parents = b.spread root n stack parents := by
    intro n
    induction n with
    | zero => exact fun _ _ => rfl
    | succ n ih =>
      intro stack parents
      cases stack with
      | nil => rfl
      | cons i stack => simp only [spread, hchildren, ih]
  rw [parentsOf, parentsOf, hsize, hspread]

/-- The group that an attribute names. -/
def groupIn (a : Arena) (i : NodeId) : Option UInt32 :=
  (a.attr? i).bind fun
    | .group v => some v
    | _ => none

/-- The binding that an attribute names. -/
def bindingIn (a : Arena) (i : NodeId) : Option UInt32 :=
  (a.attr? i).bind fun
    | .binding v => some v
    | _ => none

/-- A binding point is made of the first group and the first binding. -/
theorem bindingPointOf_eq (a : Arena) (xs : List NodeId) : Resolve.bindingPointOf a xs =
    (xs.findSome? a.groupIn).bind fun group => (xs.findSome? a.bindingIn).map fun binding =>
      ⟨group, binding⟩ := by
  have hfind : ∀ f g : AttrShape NodeId → Option UInt32, (∀ x, f x = g x) →
      a.findAttr? xs f = xs.findSome? fun i => (a.attr? i).bind g :=
        fun f g h => by rw [funext h]; rfl
  unfold Resolve.bindingPointOf
  rw [hfind _ _ fun x => ?_, hfind _ _ fun x => ?_]
  · change (xs.findSome? a.groupIn).bind _ = _
    cases xs.findSome? a.groupIn with
    | none => rfl
    | some v =>
      change (xs.findSome? a.bindingIn).bind _ = (xs.findSome? a.bindingIn).map _
      cases xs.findSome? a.bindingIn <;> rfl
  · cases x <;> rfl
  · cases x <;> rfl

theorem findSome?_eq_of_forall₂ {α β γ : Type} {R : α → β → Prop} {f : α → Option γ}
    {g : β → Option γ} {xs : List α} {ys : List β} (h : List.Forall₂ R xs ys)
    (hfg : ∀ x y, R x y → f x = g y) : xs.findSome? f = ys.findSome? g := by
  induction h with
  | nil => rfl
  | cons hxy _ ih => rw [List.findSome?_cons, List.findSome?_cons, hfg _ _ hxy, ih]

/-- Attributes that look alike name the same point. -/
theorem Mirrors.bindingPointOf (hR : a.Mirrors b R) {xs ys : List NodeId}
    (h : List.Forall₂ R xs ys) : Resolve.bindingPointOf a xs = Resolve.bindingPointOf b ys := by
  have hone : ∀ i j, R i j → a.groupIn i = b.groupIn j ∧ a.bindingIn i = b.bindingIn j := by
    intro i j hij
    rcases hR i j hij with ⟨rfl, rfl⟩ | ⟨⟨s, _⟩, ⟨t, _⟩, hn, hm, _, hrel⟩
    · exact ⟨rfl, rfl⟩
    · simp only [groupIn, bindingIn, attr?, shape?, hn, hm, Option.map_some]
      simp only at hrel
      cases hrel <;> exact ⟨rfl, rfl⟩
  rw [bindingPointOf_eq, bindingPointOf_eq, findSome?_eq_of_forall₂ h fun i j hij =>
    (hone i j hij).1, findSome?_eq_of_forall₂ h fun i j hij => (hone i j hij).2]

end Arena

namespace Program

/-- The point and the access mode that a resource is declared with. -/
def resource (p : Program) (g : NodeId) : Option (BindingPoint × Access) :=
  (p.asVariable? g).bind fun v =>
    match v.kind with
    | .var _ access => (Resolve.bindingPointOf p.toArena v.attributes).map (·, access)
    | _ => none

/-- Resources that look alike are declared alike. -/
theorem resource_of_mirrors {p q : Program} {R : NodeId → NodeId → Prop}
    (hR : p.toArena.Mirrors q.toArena R) {i j : NodeId} (h : R i j) :
    p.resource i = q.resource j := by
  rcases hR i j h with ⟨rfl, rfl⟩ | ⟨⟨s, _⟩, ⟨t, _⟩, hn, hm, _, hrel⟩
  · rfl
  · simp only [resource, Arena.asVariable?, Arena.shape?, hn, hm, Option.map_some, Option.bind_some]
    simp only at hrel
    cases hrel with
    | value _ _ _ has => simp only [Shape.asVariable?, Option.bind_some, hR.bindingPointOf has]
    | _ => rfl

/-- What is known of the resources of a program is what they are declared with. -/
def ResourcesKnown (p : Program) : Prop :=
  ∀ g v x, p.asVariable? g = some v → Rebind.isVar v = true → p.facts.variableAt g = some x →
    p.resource g = x.bindingPoint.map (·, x.access)

theorem Built.resourcesKnown {p : Program} (h : p.Built) : p.ResourcesKnown := by
  intro g v x hv hvar hx
  obtain ⟨w, hw, hx⟩ := h.variableAt hx
  obtain rfl : v = w := Option.some.inj (hv.symm.trans hw)
  rw [hx, resource, hv, Option.bind_some]
  unfold Rebind.isVar at hvar
  split at hvar
  · next hkind => simp only [Resolve.variableFacts, hkind]
  · cases hvar

end Program

namespace Rebind

variable {p : Program} {r : Remapping}

/-- The declaration of the module whose attribute a node is. -/
def owner? (p : Program) (i : NodeId) : Option NodeId :=
  p.globals.find? fun g => (p.asVariable? g).any (·.attributes.contains i)

/-- Where the resource is moved to whose attribute a node is. -/
def placeOf (p : Program) (r : Remapping) (i : NodeId) : Option BindingPoint :=
  (owner? p i).bind fun g => (p.resource g).bind fun (point, _) => r.points.find? point

/-- The access mode that a declaration of the module gets. -/
def accessOf (p : Program) (r : Remapping) (g : NodeId) : Option Access :=
  if g ∈ p.globals then (p.resource g).bind fun (point, _) => r.access.find? point else none

/-- What a node becomes that is changed. -/
def change? (p : Program) (r : Remapping) (i : NodeId) :
    Shape Symbol NodeId → Option (Shape Symbol NodeId)
  | .attr (.group _) => (placeOf p r i).map fun place => .attr (.group place.group)
  | .attr (.binding _) => (placeOf p r i).map fun place => .attr (.binding place.binding)
  | .decl (.value v) =>
    (accessOf p r i).map fun access => .decl (.value { v with kind := .var v.kind.space access })
  | _ => none

/-- A changed node has no place of its own. -/
def changed (p : Program) (r : Remapping) (i : NodeId) (n : Node) : Node :=
  match change? p r i n.shape with
  | some s => ⟨s, {}⟩
  | none => n

/-- The source with all resources moved and all access modes set. Only its nodes are new. -/
def rebound (p : Program) (r : Remapping) : Program :=
  { p with nodes := p.nodes.mapIdx fun k n => changed p r (k + 1) n }

theorem node?_rebound (i : NodeId) : (rebound p r).node? i = (p.node? i).map (changed p r i) := by
  cases i with
  | zero => rfl
  | succ k => simp [rebound, Array.getElem?_mapIdx]

theorem size_rebound : (rebound p r).size = p.size := by simp [rebound, Arena.size]

theorem root_rebound : (rebound p r).root = p.root := rfl

/-- A change keeps the children of a node, and which of them have to be present. -/
theorem parts_change? {i : NodeId} {s t : Shape Symbol NodeId} (h : change? p r i s = some t) :
    t.slots = s.slots ∧ t.required = s.required := by
  unfold change? at h
  split at h <;> first | cases h | skip
  all_goals
    obtain ⟨_, _, rfl⟩ := Option.map_eq_some_iff.1 h
    exact ⟨rfl, rfl⟩

theorem slots_changed (i : NodeId) (n : Node) : (changed p r i n).shape.slots = n.shape.slots := by
  unfold changed
  split
  · next h => exact (parts_change? h).1
  · rfl

/-- What a changed node says can be written. -/
theorem spelled_change? {i : NodeId} {s t : Shape Symbol NodeId} (h : change? p r i s = some t)
    (hs : s.Spelled) : t.Spelled := by
  unfold change? at h
  split at h
  · obtain ⟨_, _, rfl⟩ := Option.map_eq_some_iff.1 h
    trivial
  · obtain ⟨_, _, rfl⟩ := Option.map_eq_some_iff.1 h
    trivial
  · next v =>
    obtain ⟨access, _, rfl⟩ := Option.map_eq_some_iff.1 h
    have hkind : v.kind.Spelled := hs
    change (VariableKind.var v.kind.space access).Spelled
    cases hk : v.kind with
    | var space access => rwa [hk] at hkind
    | _ => exact (by decide : AddressSpace.none ∈ AddressSpace.declared)
  · cases h

/-- Only attributes of resources that are moved and resources with another access mode change. -/
theorem change?_eq_none {i : NodeId} (hplace : placeOf p r i = none)
    (haccess : accessOf p r i = none) (s : Shape Symbol NodeId) : change? p r i s = none := by
  unfold change?
  split <;> simp [hplace, haccess]

theorem change?_module (i : NodeId) (gs : List NodeId) : change? p r i (.module gs) = none := rfl

/-- The node of the moved program is the node of the source, or what becomes of it. -/
theorem node?_rebound_cases {i : NodeId} {m : Node} (h : (rebound p r).node? i = some m) :
    ∃ n, p.node? i = some n ∧
    ((change? p r i n.shape = none ∧ m = n) ∨ ∃ t, change? p r i n.shape = some t ∧
      m = ⟨t, {}⟩) := by
  rw [node?_rebound] at h
  obtain ⟨n, hn, rfl⟩ := Option.map_eq_some_iff.1 h
  refine ⟨n, hn, ?_⟩
  unfold changed
  cases change? p r i n.shape with
  | none => exact .inl ⟨rfl, rfl⟩
  | some t => exact .inr ⟨t, rfl, rfl⟩

theorem children_rebound : (rebound p r).toArena.children = p.toArena.children := by
  funext i
  simp only [Arena.children, node?_rebound, Option.map_map]
  cases p.node? i with
  | none => rfl
  | some n => simp [Node.children, slots_changed]

theorem globals_rebound (hp : p.Fit) : (rebound p r).globals = p.globals := by
  obtain ⟨n, hn, hs⟩ := Option.map_eq_some_iff.1 hp.module
  have hnode : (rebound p r).shape? p.root = some (.module p.globals) := by
    rw [Arena.shape?, node?_rebound, hn, Option.map_some, Option.map_some, changed, hs,
      change?_module]
    exact congrArg some hs
  simp only [Program.globals, root_rebound, hnode]

/-- The moved program is fit. -/
theorem fit_rebound (hp : p.Fit) : (rebound p r).Fit where
  spelled {i m} hm hi := by
    obtain ⟨n, hn, ⟨_, rfl⟩ | ⟨t, ht, rfl⟩⟩ := node?_rebound_cases hm
    · exact hp.spelled hn hi
    · exact spelled_change? ht (hp.spelled hn hi)
  present {i m} hm := by
    obtain ⟨n, hn, ⟨_, rfl⟩ | ⟨t, ht, rfl⟩⟩ := node?_rebound_cases hm
    · exact hp.present hn
    · rw [(parts_change? ht).2]
      exact hp.present hn
  below {i m} hm := by
    obtain ⟨n, hn, ⟨_, rfl⟩ | ⟨t, ht, rfl⟩⟩ := node?_rebound_cases hm
    · exact hp.below hn
    · rw [(parts_change? ht).1]
      exact hp.below hn
  root := by rw [root_rebound, size_rebound, hp.root]
  module := by
    obtain ⟨n, hn, hs⟩ := Option.map_eq_some_iff.1 hp.module
    rw [globals_rebound hp, Arena.shape?, root_rebound, node?_rebound, hn, Option.map_some,
      Option.map_some, changed, hs, change?_module]
    exact congrArg some hs
  named := hp.named
  parents := hp.parents.trans (Arena.parentsOf_congr size_rebound.symm children_rebound.symm p.root)

section Resources

variable {g : NodeId} {v : VariableShape Symbol NodeId}

theorem mem_of_owner? {i : NodeId} (h : owner? p i = some g) :
    g ∈ p.globals ∧ ∃ v, p.asVariable? g = some v ∧ i ∈ v.attributes := by
  unfold owner? at h
  have hany := List.find?_some (p := fun g => (p.asVariable? g).any (·.attributes.contains i)) h
  obtain ⟨v, hv, hi⟩ := (Option.any_eq_true _ _).1 hany
  exact ⟨List.mem_of_find?_eq_some h, v, hv, by simpa using hi⟩

/-- The attributes of a variable of the module are its own. -/
theorem owner?_attribute (hp : p.Fit) (ht : p.TreeShaped) (hg : g ∈ p.globals)
    (hv : p.asVariable? g = some v) {i : NodeId} (hi : i ∈ v.attributes) : owner? p i = some g := by
  have hheld : ∀ g v, g ∈ p.globals → p.asVariable? g = some v → i ∈ v.attributes →
      p.parent i = g := by
    intro g v hg hv hi
    obtain ⟨n, hn, hs⟩ := Option.map_eq_some_iff.1 (Arena.shape?_of_asVariable? hv)
    have h0 : i ≠ 0 := hp.present hn i (by rw [hs]; exact hi)
    exact ht.parent (hp.inTree_global hg)
      (Arena.mem_children.2 ⟨n, hn, by rw [hs]; simp [Shape.slots, hi], h0⟩)
  cases howner : owner? p i with
  | none =>
    have := List.find?_eq_none.1 howner g hg
    simp [hv, hi] at this
  | some g' =>
    obtain ⟨hg', v', hv', hi'⟩ := mem_of_owner? howner
    rw [← hheld g v hg hv hi, hheld g' v' hg' hv' hi']

/-- The variables of the moved program are those of the source, with other access modes. -/
theorem asVariable?_rebound (g : NodeId) :
    (rebound p r).asVariable? g = (p.asVariable? g).map fun v =>
    { v with kind := ((accessOf p r g).map fun access => .var v.kind.space access).getD
               v.kind } := by
  rw [Arena.asVariable?, Arena.asVariable?, Arena.shape?, Arena.shape?, node?_rebound]
  cases p.node? g with
  | none => rfl
  | some n =>
    obtain ⟨s, span⟩ := n
    simp only [Option.map_some, changed, Option.bind_some]
    cases s with
    | decl d =>
      cases d with
      | value v => cases haccess : accessOf p r g <;> simp [change?, haccess, Shape.asVariable?]
      | _ => rfl
    | attr x => cases x <;> cases hplace : placeOf p r g <;> simp [change?, hplace,
        Shape.asVariable?]
    | _ => rfl

/-- Attributes that are moved to one place say that place. -/
theorem bindingPointOf_rebound {xs : List NodeId} {place : Option BindingPoint}
    (h : ∀ i ∈ xs, placeOf p r i = place) :
    Resolve.bindingPointOf (rebound p r).toArena xs = (Resolve.bindingPointOf p.toArena xs).map
    (place.getD ·) := by
  have hone : ∀ i ∈ xs,
      (rebound p r).toArena.groupIn i = (p.toArena.groupIn i).map ((place.map (·.group)).getD ·) ∧
      (rebound p r).toArena.bindingIn i =
      (p.toArena.bindingIn i).map ((place.map (·.binding)).getD ·) := by
    intro i hi
    have hplace := h i hi
    unfold Arena.groupIn Arena.bindingIn Arena.attr? Arena.shape?
    rw [node?_rebound]
    cases hn : p.node? i with
    | none => exact ⟨rfl, rfl⟩
    | some n =>
      obtain ⟨s, span⟩ := n
      simp only [Option.map_some, changed]
      cases s with
      | attr x => cases x <;> cases place <;> simp [change?, hplace]
      | decl d =>
        cases d with
        | value v => cases haccess : accessOf p r i <;> simp [change?, haccess]
        | _ => exact ⟨rfl, rfl⟩
      | _ => exact ⟨rfl, rfl⟩
  have hfind : ∀ (f f' : NodeId → Option UInt32) (c : UInt32 → UInt32),
      (∀ i ∈ xs, f' i = (f i).map c) →
      xs.findSome? f' = (xs.findSome? f).map c := by
    intro f f' c hc
    clear h hone
    induction xs with
    | nil => rfl
    | cons i xs ih =>
      rw [List.findSome?_cons, List.findSome?_cons, hc i (by simp),
        ih fun j hj => hc j (by simp [hj])]
      cases f i <;> rfl
  rw [Arena.bindingPointOf_eq, Arena.bindingPointOf_eq, hfind _ _ _ fun i hi => (hone i hi).1,
    hfind _ _ _ fun i hi => (hone i hi).2]
  cases xs.findSome? p.toArena.groupIn with
  | none => rfl
  | some group =>
    cases xs.findSome? p.toArena.bindingIn with
    | none => rfl
    | some binding => cases place <;> rfl

/-- A resource of the moved program is at the image of its point, and has the access mode of the
table if that has one for its point. -/
theorem resource_rebound (hp : p.Fit) (ht : p.TreeShaped) (hg : g ∈ p.globals) :
    (rebound p r).resource g =
    (p.resource g).map fun (point, access) =>
      (Remapping.image r point, (r.access.find? point).getD access) := by
  cases hv : p.asVariable? g with
  | none =>
    rw [Program.resource, Program.resource, asVariable?_rebound, hv]
    rfl
  | some v =>
    have hplace : ∀ i ∈ v.attributes, placeOf p r i = (p.resource g).bind fun (point, _) =>
        r.points.find? point :=
      fun i hi => by rw [placeOf, owner?_attribute hp ht hg hv hi, Option.bind_some]
    rw [Program.resource, asVariable?_rebound, hv, Option.map_some, Option.bind_some]
    simp only [bindingPointOf_rebound hplace, accessOf, if_pos hg]
    cases hkind : v.kind with
    | var space access =>
      have hresource : p.resource g = (Resolve.bindingPointOf p.toArena v.attributes).map
          (·, access) := by
        rw [Program.resource, hv, Option.bind_some, hkind]
      rw [hresource]
      cases Resolve.bindingPointOf p.toArena v.attributes with
      | none => rfl
      | some point =>
        simp only [Option.map_some, Option.bind_some, Remapping.image]
        cases r.access.find? point <;> rfl
    | _ =>
      have hresource : p.resource g = none := by
        rw [Program.resource, hv, Option.bind_some, hkind]
      rw [hresource]
      rfl

end Resources

/-- The second program is the first one with its resources moved and their access modes set: it
cannot be told apart from the moved program, each of its resources is at the image of the point that
it had, with the access mode that the table has for that point or else its own, and what is known of
its variables are these points and access modes. -/
structure Rebinds (p : Program) (r : Remapping) (q : Program) : Prop where
  reads : (rebound p r).Reads q
  resources : List.Forall₂ (fun g g' => q.resource g' = (p.resource g).map fun (point, access) =>
    (Remapping.image r point, (r.access.find? point).getD access)) p.globals q.globals
  known : p.ResourcesKnown ∧ q.ResourcesKnown

/-- Nodes that look like those of the moved program make such a program. -/
theorem rebinds_of_mirrors {q : Program} (hp : p.Fit) (ht : p.TreeShaped) (hb : p.Built)
    (hq : q.Fit) (hqb : q.Built) {R : NodeId → NodeId → Prop}
    (hR : (rebound p r).toArena.Mirrors q.toArena R)
    (hglobals : List.Forall₂ R p.globals q.globals) : Rebinds p r q := by
  refine ⟨(fit_rebound hp).reads hq hR (by rwa [globals_rebound hp]), ?_, hb.resourcesKnown,
    hqb.resourcesKnown⟩
  have hmem : List.Forall₂ (fun g g' => g ∈ p.globals ∧ R g g') p.globals q.globals :=
    (List.forall₂_and_left _ _).2 ⟨fun _ h => h, hglobals⟩
  refine hmem.imp fun g g' ⟨hg, hgg⟩ => ?_
  rw [← Program.resource_of_mirrors hR hgg, resource_rebound hp ht hg]

end Rebind
end ShaderLoom
