import ShaderLoom.Proofs.Copy.Trim
import ShaderLoom.Proofs.Pass.Collisions
import ShaderLoom.Proofs.Pass.Rebind
import ShaderLoom.Proofs.Pass.Rebound

/-! Moving resources makes of a program what the tables say. Each change is registered once, for a
node that changes and for no other; the copy then makes the moved program. -/
namespace ShaderLoom

/-- Applying the pass ends in a problem: the program is handed back with what the problem says. -/
def Pass.Reports (t : Pass) (p : Program) (inputs : Data) (problem : PassProblem) : Prop :=
  (t.run p inputs).ending = .failed problem.toFailure ∧
    t.apply p inputs =
    .ok ⟨p.withDiagnostics [Diagnostic.errorAt .transform problem.toFault.message {}], {}⟩

/-- What the work of a pass ends in is reported. -/
theorem Pass.reports_of_work {κ σ : Type} {t : Pass} {p : Program} {inputs : Data}
    {work : Work κ σ Data} {state : σ} (hv : p.valid = true)
    (hrun : t.run p inputs = work.perform p state) {problem : PassProblem} {s : Copy.Session κ σ}
    (hwork : work (Copy.Session.start p state) = .error (.problem problem) s) :
    t.Reports p inputs problem := by
  have hend : t.run p inputs = { ending := .failed problem.toFailure } := by
    rw [hrun, Work.perform, hwork]
  refine ⟨by rw [hend], ?_⟩
  simp only [Pass.apply, Result.outcome, hv, hend, Bool.not_true, Bool.false_eq_true, if_false]
  rfl

namespace Rebind

open Copy

section Registering

variable {p : Program} {r : Remapping}

/-- A session in which nothing but replacements and nodes of the target is new. -/
def session (p : Program) (replacements : NodeId → Option (Replacement NewAccess))
    (nodes : Array Node) : Session NewAccess Unit :=
  let s := Session.start p ()
  { s with replacements, target := { s.target with nodes } }

/-- What is registered so far: replacements by what nodes are to become. The changes that are not
registered yet are at nodes to come. -/
structure Registered (p : Program) (r : Remapping) (todo : List NodeId)
    (replacements : NodeId → Option (Replacement NewAccess)) (nodes : Array Node) : Prop where
  fixed : ∀ {i j}, replacements i = some (.fixed j) →
    ∃ n t, p.node? i = some n ∧ change? p r i n.shape = some t ∧
    n.shape.asVariable? = none ∧ (session p replacements nodes).target.node? j = some ⟨t, {}⟩
  handler : ∀ {i h}, replacements i = some (.handler h) → accessOf p r i = some h.access
  missing : ∀ {i n t}, p.node? i = some n → change? p r i n.shape = some t →
    replacements i = none → i ∈ todo
  fresh : ∀ i ∈ todo, replacements i = none
  nodup : todo.Nodup

/-- A session in which changes are registered. -/
def Underway (p : Program) (r : Remapping) (todo : List NodeId) (s : Session NewAccess Unit) :
    Prop :=
  ∃ replacements nodes, s = session p replacements nodes ∧ Registered p r todo replacements nodes

variable {todo : List NodeId} {i : NodeId} {w : World NewAccess Unit} {E : Misuse → Prop}

/-- A node that does not change is passed over. -/
theorem Underway.skip {s : Session NewAccess Unit} (h : Underway p r (i :: todo) s)
    (hsame : ∀ n, p.node? i = some n → change? p r i n.shape = none) : Underway p r todo s := by
  obtain ⟨replacements, nodes, rfl, hreg⟩ := h
  refine ⟨replacements, nodes, rfl, hreg.fixed, hreg.handler, fun hn ht hnone => ?_,
    fun k hk => hreg.fresh k (List.mem_cons_of_mem _ hk), (List.nodup_cons.1 hreg.nodup).2⟩
  rcases List.mem_cons.1 (hreg.missing hn ht hnone) with rfl | hk
  · rw [hsame _ hn] at ht
    cases ht
  · exact hk

theorem Underway.skipAll {is : List NodeId} {s : Session NewAccess Unit}
    (h : Underway p r (is ++ todo) s)
    (hsame : ∀ i ∈ is, ∀ n, p.node? i = some n → change? p r i n.shape = none) :
    Underway p r todo s := by
  induction is with
  | nil => exact h
  | cons i is ih => exact ih (h.skip (hsame i (by simp))) fun k hk => hsame k (by simp [hk])

/-- A registration for the next node. -/
theorem Underway.add {replacements : NodeId → Option (Replacement NewAccess)} {nodes : Array Node}
    (h : Registered p r (i :: todo) replacements nodes) {x : Replacement NewAccess}
    {nodes' : Array Node} (hnodes : ∃ more, nodes' = nodes ++ more)
    (hfixed : ∀ j, x = .fixed j → ∃ n t, p.node? i = some n ∧ change? p r i n.shape = some t ∧
      n.shape.asVariable? = none ∧ (session p replacements nodes').target.node? j = some ⟨t, {}⟩)
    (hhandler : ∀ h, x = .handler h → accessOf p r i = some h.access) :
    Underway p r todo (session p (update replacements i (some x)) nodes') := by
  refine ⟨_, _, rfl, fun {k j} hk => ?_, fun {k y} hk => ?_, fun {k n t} hn ht hnone => ?_,
    fun k hk => ?_, (List.nodup_cons.1 h.nodup).2⟩
  · by_cases hki : k = i
    · subst hki
      rw [update_self, Option.some.injEq] at hk
      exact hfixed j hk
    · rw [update_of_ne _ _ hki] at hk
      obtain ⟨n, t, hn, ht, hvar, hj⟩ := h.fixed hk
      have hext : (session p replacements nodes).target.Extends
          (session p replacements nodes').target :=
        ⟨hnodes, ⟨#[], by simp [session, Session.start]⟩, rfl, rfl⟩
      exact ⟨n, t, hn, ht, hvar, hext.node? hj⟩
  · by_cases hki : k = i
    · subst hki
      rw [update_self, Option.some.injEq] at hk
      exact hhandler y hk
    · rw [update_of_ne _ _ hki] at hk
      exact h.handler hk
  · by_cases hki : k = i
    · subst hki
      simp at hnone
    · rw [update_of_ne _ _ hki] at hnone
      exact (List.mem_cons.1 (h.missing hn ht hnone)).resolve_left hki
  · have hki : k ≠ i := fun he => (List.nodup_cons.1 h.nodup).1 (he ▸ hk)
    rw [update_of_ne _ _ hki]
    exact h.fresh k (List.mem_cons_of_mem _ hk)

/-- A node without a replacement gets one. -/
theorem runs_register {x : Replacement NewAccess} (hnone : w.1.replacements i = none)
    {Q : PUnit → World NewAccess Unit → Prop}
    (hq : Q ⟨⟩ ({ w.1 with replacements := update w.1.replacements i (some x) }, w.2)) :
    Runs (Edit.register i x) w E Q := by
  refine Runs.bind (Runs.get ?_)
  rw [hnone]
  exact Runs.modify w.2 hq

theorem runs_checkTarget {j : NodeId} {m : Node} (hm : w.1.target.node? j = some m) :
    Runs (Edit.checkTarget j) w E fun _ w' => w' = w := by
  refine Runs.bind (Runs.get ?_)
  simp only [hm]
  exact Runs.pure w.2 rfl

/-- A changed node that is no variable becomes a new node. -/
theorem Underway.runs_replace (h : Underway p r (i :: todo) w.1) (hi : p.inTree i = true) {n : Node}
    (hn : p.node? i = some n) {t : Shape Symbol NodeId} (ht : change? p r i n.shape = some t)
    (hvar : n.shape.asVariable? = none) :
    Runs (Edit.build (Build.push t) >>= fun j => Edit.replace i j) w E fun _ w' =>
      Underway p r todo w'.1 := by
  obtain ⟨s, g⟩ := w
  obtain ⟨replacements, nodes, rfl, hreg⟩ := h
  have hnew : (session p replacements (nodes.push ⟨t, {}⟩)).target.node? (nodes.size + 1) =
      some ⟨t, {}⟩ := by
    simp [session]
  refine Runs.bind (Account.runs_build (a := nodes.size + 1)
    (b := (session p replacements (nodes.push ⟨t, {}⟩)).target)
    rfl ?_)
  unfold Edit.replace
  refine Runs.bind
    ((Account.runs_checkSource (.inl ⟨Option.isSome_iff_exists.2 ⟨n, hn⟩, hi⟩)).mono ?_)
  rintro _ _ ⟨rfl, _, _⟩
  rw [if_pos (Nat.succ_ne_zero _)]
  refine Runs.bind ((runs_checkTarget hnew).mono ?_)
  rintro _ _ rfl
  refine runs_register (hreg.fresh i List.mem_cons_self) (.add hreg ⟨#[⟨t, {}⟩], by simp⟩ ?_ nofun)
  rintro _ ⟨⟩
  exact ⟨n, t, hn, ht, hvar, hnew⟩

/-- A variable becomes what the handler makes. -/
theorem Underway.runs_replaceWith (h : Underway p r (i :: todo) w.1) (hi : p.inTree i = true)
    (hn : (p.node? i).isSome) {access : Access} (haccess : accessOf p r i = some access) :
    Runs (Edit.replaceWith i ⟨access⟩) w E fun _ w' => Underway p r todo w'.1 := by
  obtain ⟨s, g⟩ := w
  obtain ⟨replacements, nodes, rfl, hreg⟩ := h
  unfold Edit.replaceWith
  refine Runs.bind ((Account.runs_checkSource (.inl ⟨hn, hi⟩)).mono ?_)
  rintro _ _ ⟨rfl, _, _⟩
  refine runs_register (hreg.fresh i List.mem_cons_self) (.add hreg ⟨#[], by simp⟩ nofun ?_)
  rintro _ ⟨⟩
  exact haccess

/-- An attribute of a resource that is moved says the new point. -/
theorem Underway.runs_moveAttribute (h : Underway p r (i :: todo) w.1) (hi : p.inTree i = true)
    (hglobal : i ∉ p.globals) {n : Node} (hn : p.node? i = some n) {place : BindingPoint}
    (hplace : placeOf p r i = some place) :
    Runs (moveAttribute p place i) w E fun _ w' => Underway p r todo w'.1 := by
  have hattr : ∀ x, p.attr? i = some x ↔ n.shape = .attr x := by
    intro x
    unfold Arena.attr? Arena.shape?
    rw [hn, Option.map_some]
    cases n.shape <;> simp
  unfold moveAttribute
  split
  · next v ha =>
    have hs := (hattr _).1 ha
    exact h.runs_replace hi hn (by rw [hs, change?, hplace]; rfl) (by rw [hs]; rfl)
  · next v ha =>
    have hs := (hattr _).1 ha
    exact h.runs_replace hi hn (by rw [hs, change?, hplace]; rfl) (by rw [hs]; rfl)
  · next hgroup hbinding =>
    refine Runs.pure w.2 (h.skip fun m hm => ?_)
    obtain rfl : n = m := Option.some.inj (hn.symm.trans hm)
    unfold change?
    split
    · next v hs => exact absurd ((hattr _).2 hs) (hgroup v)
    · next v hs => exact absurd ((hattr _).2 hs) (hbinding v)
    · rw [accessOf, if_neg hglobal, Option.map_none]
    · rfl

/-- The nodes that may change with a declaration: the attributes of a variable, and the variable
itself. -/
def sites (p : Program) (g : NodeId) : List NodeId :=
  match p.asVariable? g with
  | some v => v.attributes ++ [g]
  | none => []

/-- What may stop the pass while it registers: another access mode for a variable that is not in
storage. -/
def Misplaced (p : Program) (r : Remapping) (stop : Stop) : Prop :=
  ∃ g ∈ p.globals, ∃ x, p.facts.variableAt g = some x ∧ x.space ≠ .storage ∧
    (accessOf p r g).isSome ∧
    stop = .problem (.accessNotStorage x.name x.space)

/-- The attributes of a variable of the module are in the tree and are no declarations of the
module. -/
theorem attribute_of_global (hp : p.Fit) (ht : p.TreeShaped) {g : NodeId} (hg : g ∈ p.globals)
    {v : VariableShape Symbol NodeId} (hv : p.asVariable? g = some v) (hi : i ∈ v.attributes) :
    i ∈ p.children g ∧ p.inTree i = true ∧ i ∉ p.globals ∧ ∃ n, p.node? i = some n := by
  obtain ⟨n, hn, hs⟩ := Option.map_eq_some_iff.1 (Arena.shape?_of_asVariable? hv)
  have h0 : i ≠ 0 := hp.present hn i (by rw [hs]; exact hi)
  have hchild : i ∈ p.children g :=
    Arena.mem_children.2 ⟨n, hn, by rw [hs]; simp [Shape.slots, hi], h0⟩
  have htree := hp.inTree_global hg
  refine ⟨hchild, hp.inTree_child htree hchild, fun hglobal => ?_, ?_⟩
  · have hparent := ht.parent htree hchild
    rw [ht.parent p.inTree_root (Program.TreeShaped.mem_children_root hglobal h0)] at hparent
    exact absurd hparent (Nat.ne_of_gt (hp.globals g hg).2)
  · exact Option.isSome_iff_exists.1 (hp.node_of_inTree (hp.inTree_child htree hchild))

section Global

variable {g : NodeId} {v : VariableShape Symbol NodeId} {x : VariableFacts}

theorem Underway.runs_move (hp : p.Fit) (ht : p.TreeShaped) (hg : g ∈ p.globals)
    (hv : p.asVariable? g = some v) {point : BindingPoint} {access : Access}
    (hresource : p.resource g = some (point, access)) {E : Stop → Prop}
    (h : Underway p r (v.attributes ++ todo) w.1) :
    Runs (move p r v point) w E fun _ w' => Underway p r todo w'.1 := by
  have hplace : ∀ i ∈ v.attributes, placeOf p r i = r.points.find? point := by
    intro i hi
    rw [placeOf, owner?_attribute hp ht hg hv hi, Option.bind_some, hresource, Option.bind_some]
  unfold move
  split
  · next place hfind =>
    refine Runs.bind
      (Runs.forIn (fun rest w => Underway p r (rest ++ todo) w.1) h (fun i rest w hi hw => ?_)
      fun w hw => Runs.pure w.2 hw)
    obtain ⟨_, htree, hglobal, n, hn⟩ := attribute_of_global hp ht hg hv hi
    exact Runs.yield
      (Work.runs_edit (hw.runs_moveAttribute htree hglobal hn ((hplace i hi).trans hfind)))
  · next hfind =>
    refine Runs.pure w.2
      (h.skipAll fun i hi n hn => change?_eq_none ((hplace i hi).trans hfind) ?_ _)
    obtain ⟨_, _, hglobal, _⟩ := attribute_of_global hp ht hg hv hi
    rw [accessOf, if_neg hglobal]

theorem Underway.runs_setAccess (hp : p.Fit) (hg : g ∈ p.globals)
    (hx : p.facts.variableAt g = some x) (hdecl : x.decl = g) {point : BindingPoint}
    {access : Access} (hresource : p.resource g = some (point, access))
    (h : Underway p r (g :: todo) w.1) :
    Runs (setAccess r x point) w (Misplaced p r) fun _ w' => Underway p r todo w'.1 := by
  have haccess : accessOf p r g = r.access.find? point := by
    rw [accessOf, if_pos hg, hresource, Option.bind_some]
  have htree := hp.inTree_global hg
  unfold setAccess
  split
  · next new hfind =>
    split
    · next hspace => exact Runs.throw ⟨g, hg, x, hx, hspace, by rw [haccess, hfind]; rfl, rfl⟩
    · rw [hdecl]
      exact Work.runs_edit
        (h.runs_replaceWith htree (hp.node_of_inTree htree) (haccess.trans hfind))
  · next hfind =>
    obtain ⟨v, hv, _⟩ := Option.bind_eq_some_iff.1 hresource
    refine Runs.pure w.2 (h.skip fun n hn => ?_)
    rw [Arena.shape_of_asVariable? hv hn, change?, haccess, hfind, Option.map_none]

/-- The changes of one declaration. -/
theorem Underway.runs_rebindGlobal (hp : p.Fit) (ht : p.TreeShaped) (hb : p.Built)
    (hg : g ∈ p.globals) (hfacts : (p.asVariable? g).isSome → ∃ x, p.facts.variableAt g = some x)
    (h : Underway p r (sites p g ++ todo) w.1) :
    Runs (rebindGlobal p r g) w (Misplaced p r) fun _ w' => Underway p r todo w'.1 := by
  unfold rebindGlobal
  cases hv : p.asVariable? g with
  | none =>
    rw [sites, hv] at h
    exact Runs.pure w.2 h
  | some v =>
    obtain ⟨x, hx⟩ := hfacts (by rw [hv]; rfl)
    rw [sites, hv, List.append_assoc] at h
    -- Nothing changes with a variable that is no resource.
    have hnone : p.resource g = none → Underway p r todo w.1 := by
      intro hresource
      refine (h.skipAll fun i hi n hn => change?_eq_none ?_ ?_ _).skip fun n hn => ?_
      · rw [placeOf, owner?_attribute hp ht hg hv hi, Option.bind_some, hresource, Option.bind_none]
      · rw [accessOf, if_neg (attribute_of_global hp ht hg hv hi).2.2.1]
      · rw [Arena.shape_of_asVariable? hv hn, change?, accessOf, if_pos hg, hresource,
          Option.bind_none, Option.map_none]
    rw [hx]
    dsimp only
    cases hvar : isVar v with
    | false =>
      refine Runs.pure w.2 (hnone ?_)
      unfold isVar at hvar
      rw [Program.resource, hv, Option.bind_some]
      split
      · simp_all
      · rfl
    | true =>
      have hresource := hb.resourcesKnown g v x hv hvar hx
      cases hpoint : x.bindingPoint with
      | none =>
        refine Runs.pure w.2 (hnone ?_)
        rw [hresource, hpoint, Option.map_none]
      | some point =>
        rw [hpoint, Option.map_some] at hresource
        refine Runs.bind ((h.runs_move hp ht hg hv hresource).mono fun _ w' hw => ?_)
        exact hw.runs_setAccess hp hg hx (hb.recorded.decl hx) hresource

end Global

/-- Different declarations change at different nodes. -/
theorem nodup_sites (hp : p.Fit) (ht : p.TreeShaped) : (p.globals.flatMap (sites p)).Nodup := by
  have hparent : ∀ g ∈ p.globals, p.parent g = p.root := fun g hg =>
    ht.parent p.inTree_root
      (Program.TreeShaped.mem_children_root hg (Nat.ne_of_gt (hp.globals g hg).1))
  -- A node is a declaration or has its declaration for a parent.
  have howner : ∀ g ∈ p.globals,
      ∀ i ∈ sites p g, (if p.parent i = p.root then i else p.parent i) = g := by
    intro g hg i hi
    unfold sites at hi
    split at hi
    · next v hv =>
      rcases List.mem_append.1 hi with hi | hi
      · obtain ⟨hchild, _⟩ := attribute_of_global hp ht hg hv hi
        rw [ht.parent (hp.inTree_global hg) hchild, if_neg (Nat.ne_of_lt (hp.globals g hg).2)]
      · rw [List.mem_singleton.1 hi, if_pos (hparent g hg)]
    · cases hi
  refine List.nodup_flatMap.2 ⟨fun g hg => ?_, ?_⟩
  · unfold sites
    split
    · next v hv =>
      have hsub : (v.attributes.filter (· != 0)).Sublist (p.children g) := by
        obtain ⟨n, hn, hs⟩ := Option.map_eq_some_iff.1 (Arena.shape?_of_asVariable? hv)
        simp only [Arena.children, hn, Option.map_some, Option.getD_some, Node.children,
          hs, Shape.slots]
        exact (List.sublist_append_left _ _).filter _
      have hpresent : v.attributes.filter (· != 0) = v.attributes :=
        List.filter_eq_self.2 fun i hi => by
        obtain ⟨_, _, _, n, hn⟩ := attribute_of_global hp ht hg hv hi
        simpa using Nat.ne_of_gt (Arena.range_of_node? hn).1
      rw [hpresent] at hsub
      refine List.nodup_append.2 ⟨hsub.nodup (ht.once (hp.inTree_global hg)),
        List.nodup_singleton _, ?_⟩
      rintro i hi _ hj rfl
      rw [List.mem_singleton.1 hj] at hi
      exact (attribute_of_global hp ht hg hv hi).2.2.1 hg
    · exact List.nodup_nil
  · have hnodup := ht.globals_nodup fun g hg => Nat.ne_of_gt (hp.globals g hg).1
    refine List.Pairwise.imp_of_mem (fun {g g'} hg hg' hne i hi hi' => hne ?_) hnodup
    rw [← howner g hg i hi, ← howner g' hg' i hi']

/-- Before anything is registered, the changes are at the nodes of the declarations. -/
theorem Underway.start (hp : p.Fit) (ht : p.TreeShaped) :
    Underway p r (p.globals.flatMap (sites p)) (Session.start p ()) := by
  refine ⟨fun _ => none, #[], rfl, nofun, nofun, fun {i n t} hn hchange _ => ?_, fun _ _ => rfl,
    nodup_sites hp ht⟩
  have hsite : ∀ g ∈ p.globals, ∀ v, p.asVariable? g = some v → i ∈ v.attributes ∨ i = g →
      i ∈ p.globals.flatMap (sites p) := by
    intro g hg v hv hi
    refine List.mem_flatMap.2 ⟨g, hg, ?_⟩
    rw [sites, hv]
    simpa using hi
  have hattribute : (placeOf p r i).isSome → i ∈ p.globals.flatMap (sites p) := by
    intro hplace
    obtain ⟨place, hplace⟩ := Option.isSome_iff_exists.1 hplace
    obtain ⟨g, hg, _⟩ := Option.bind_eq_some_iff.1 hplace
    obtain ⟨hg, v, hv, hi⟩ := mem_of_owner? hg
    exact hsite g hg v hv (.inl hi)
  unfold change? at hchange
  split at hchange
  · exact hattribute
      (Option.isSome_iff_exists.2 ((Option.map_eq_some_iff.1 hchange).imp fun _ h => h.1))
  · exact hattribute
      (Option.isSome_iff_exists.2 ((Option.map_eq_some_iff.1 hchange).imp fun _ h => h.1))
  · next v hs =>
    obtain ⟨access, haccess, _⟩ := Option.map_eq_some_iff.1 hchange
    have hg : i ∈ p.globals := by
      unfold accessOf at haccess
      split at haccess
      · assumption
      · cases haccess
    refine hsite i hg v ?_ (.inr rfl)
    rw [Arena.asVariable?, Arena.shape?, hn, Option.map_some, Option.bind_some, hs]
    rfl
  · cases hchange

/-- The pass registers all changes, unless an access mode is given to a variable that is not in
storage. -/
theorem runs_registering (hp : p.Fit) (ht : p.TreeShaped) (hb : p.Built)
    (hfacts : ∀ g ∈ p.globals, (p.asVariable? g).isSome → ∃ x, p.facts.variableAt g = some x)
    (g : NodeId → NodeId) :
    Runs (forIn p.globals PUnit.unit fun id _ => do
      rebindGlobal p r id
      pure (ForInStep.yield PUnit.unit)) ((Session.start p (), g) : World NewAccess Unit)
      (Misplaced p r)
      fun _ w => Underway p r [] w.1 :=
  Runs.forIn (fun rest w => Underway p r (rest.flatMap (sites p)) w.1) (.start hp ht)
    (fun g _ _ hg hw => Runs.yield (hw.runs_rebindGlobal hp ht hb hg (hfacts g hg))) fun _ hw => hw

end Registering

section Copying

variable {p : Program} {r : Remapping}

/-- The account of the copy: a node that changes becomes the changed node over the copies of its
parts. -/
def account (p : Program) (r : Remapping) (s : Session NewAccess Unit) :
    Account NewAccess Unit where
  mode := ⟨⟨True, False, False⟩, True⟩
  base := s
  name w x y := x = y ∧ ∃ t, p.symbols.Names x t ∧ w.1.target.symbols.Names y t
  side _ _ _ := True
  extra _ _ := False
  special w i j := ∃ n t m, p.node? i = some n ∧ change? p r i n.shape = some t ∧
    w.1.target.node? j = some m ∧ m.span = {} ∧
    Shape.Rel (fun x y => x = y ∧ ∃ t, p.symbols.Names x t ∧ w.1.target.symbols.Names y t)
    (Program.Comes w.2)
      (List.Forall₂ (Program.Comes w.2)) t m.shape
  parts i := ∀ n, p.node? i = some n → change? p r i n.shape = none
  state w := w.1.symbols = [] ∧ ∃ more, w.1.target.symbols.names = p.symbols.names ++ more

variable {s : Session NewAccess Unit} {w : World NewAccess Unit}

theorem comes_grown {w w' : World NewAccess Unit} (h : Grown w w') {i j : NodeId}
    (hij : Program.Comes w.2 i j) : Program.Comes w'.2 i j := by
  refine hij.imp_right fun ⟨hi, hj⟩ => ⟨hi, ?_⟩
  rw [h.origin j (by rwa [hj]), hj]

theorem account_stable : (account p r s).Stable where
  name h := fun ⟨hs, x, hp, hx⟩ => ⟨hs, x, hp, hx.extend h.target.names⟩
  side _ _ := trivial
  extra _ h := h
  special h := fun ⟨n, t, m, hn, ht, hm, hspan, hrel⟩ => ⟨n, t, m, hn, ht, h.target.node? hm, hspan,
    hrel.mono (fun _ _ ⟨hs, x, hp, hx⟩ => ⟨hs, x, hp, hx.extend h.target.names⟩)
    (fun _ _ => comes_grown h)
      fun _ _ hl => hl.imp fun _ _ => comes_grown h⟩
  state h _ hs := fun ⟨hn, more, hm⟩ => by
    obtain ⟨more', hm'⟩ := h.target.names
    exact ⟨hs.trans hn, more ++ more', by rw [hm', hm, Array.append_assoc]⟩

/-- Symbols are kept. -/
theorem turns_copySymbol (hs : Underway p r [] s) {x : Symbol} {t : String}
    (hx : p.symbols.Names x t) :
    (account p r s).Turns (fun _ => False) (Edit.copySymbol x) [] (fun _ => []) fun w y =>
      (account p r s).name w x y := by
  obtain ⟨replacements, nodes, rfl, _⟩ := hs
  exact Account.turns_keep rfl hx.1 fun w ⟨hnone, hmore⟩ => ⟨hnone, rfl, t, hx, hx.extend hmore⟩

theorem account_plain (hp : p.Fit) (hk : p.Known) (hs : Underway p r [] s) :
    (account p r s).Plain fun _ => False := by
  have hs' := hs
  obtain ⟨replacements, nodes, rfl, _⟩ := hs
  refine ⟨hp, rfl, rfl, fun {i node} ht hn _ x hx => ?_⟩
  obtain ⟨t, hx⟩ := hk i node ht hn x hx
  exact turns_copySymbol hs' hx

/-- Nothing is left out of a list and nothing is put in. -/
theorem comes_of_lists (hs : Underway p r [] s) {xs ys : List NodeId}
    (h : (account p r s).Lists w xs ys) : List.Forall₂ (Program.Comes w.2) xs ys := by
  obtain ⟨replacements, nodes, rfl, _⟩ := hs
  exact (h.listed.forall₂ (fun _ h => h.2) fun _ => Bool.false_ne_true).imp fun _ _ h =>
    h.imp_right fun h => ⟨h.1, h.2.1⟩

theorem comes_of_out {i j : NodeId} (h : (account p r s).Out w i j) : Program.Comes w.2 i j :=
  h.imp_right fun h => ⟨h.1, h.2.1⟩

/-- A variable that gets another access mode is a variable of the module. -/
theorem asVariable?_of_accessOf {i : NodeId} {access : Access} (h : accessOf p r i = some access) :
    i ∈ p.globals ∧ ∃ v, p.asVariable? i = some v := by
  unfold accessOf at h
  split at h
  · next hi =>
    obtain ⟨_, hresource, _⟩ := Option.bind_eq_some_iff.1 h
    obtain ⟨v, hv, _⟩ := Option.bind_eq_some_iff.1 hresource
    exact ⟨hi, v, hv⟩
  · cases h

/-- A variable with another access mode is the changed variable over the copies of its parts. -/
theorem account_handled (hp : p.Fit) (hk : p.Known) (hs : Underway p r [] s) :
    (account p r s).Handled (fun _ => False) (within p) act := by
  have hs' := hs
  obtain ⟨replacements, nodes, rfl, hreg⟩ := hs
  refine ⟨fun n i h node hc hi h0 ht hn hr => ?_, fun n i t h node _ _ _ _ _ _ hfind => ?_,
    fun n i node hi h0 hn hr _ m hm => ?_, fun _ _ _ _ _ _ _ _ => trivial⟩
  · have haccess := hreg.handler hr
    obtain ⟨hglobal, v, hv⟩ := asVariable?_of_accessOf haccess
    have hn : p.node? i = some node := hn
    have hshape := Arena.shape_of_asVariable? hv hn
    have hchange : change? p r i node.shape =
        some (.decl (.value { v with kind := .var v.kind.space h.access })) := by
      rw [hshape, change?, haccess, Option.map_some]
    have hpresent : ∀ c ∈ v.attributes, c ≠ 0 :=
      fun c hm => hp.present hn c (by rw [hshape]; exact hm)
    obtain ⟨t, hname⟩ := hk i node ht hn v.name (by rw [hshape]; exact List.mem_singleton.2 rfl)
    have hslots : (account p r (session p replacements nodes)).needs n h i node =
        (v.attributes ++ [v.type, v.initializer]).flatMap
        ((account p r (session p replacements nodes)).around n) := by
      simp only [Account.needs, account, hshape, Shape.slots, Bool.false_eq_true, if_false,
        List.nil_append]
    rw [hslots]
    refine turns_act account_stable rfl rfl hv hpresent (turns_copySymbol hs' hname)
      (fun c hm => hc c ?_)
      fun w F y ty init attrs hw hname hty hinit hattrs => ?_
    · exact (reach_within (A := account p r (session p replacements nodes)) hp).child n i node hi hn
        c (by rw [hshape]; exact hm)
    · have hne : i ≠ p.root := Nat.ne_of_lt (hp.globals i hglobal).2
      have hspelled := spelled_change? hchange (hp.spelled hn hne)
      let t : Shape Symbol NodeId := .decl (.value ⟨.var v.kind.space h.access, y, ty, init, attrs⟩)
      have hlater := hw.later_pushed t {} i
      have hmade : (account p r (session p replacements nodes)).special (Account.pushed w t {} i) i
          (w.1.target.size + 1) := by
        refine ⟨node, _, ⟨t, {}⟩, hn, hchange, ?_, rfl, ?_⟩
        · simp only [Account.pushed, Builder.Mode.node?_push, if_true, hw.good.span, ite_self]
        · exact .value (account_stable.name hlater.toGrown hname)
            (comes_grown hlater.toGrown (comes_of_out hty))
            (comes_grown hlater.toGrown (comes_of_out hinit))
            ((comes_of_lists hs' hattrs).imp fun _ _ => comes_grown hlater.toGrown)
      refine Runs.of_ok (a := w.1.target.size + 1) rfl (Account.pushed w t {} i).2
        ⟨?_, hlater, .inr ⟨h0, ?_, trivial⟩⟩
      · exact hw.push account_stable hspelled (hattrs.ne_zero hw hpresent) (fun _ => Nat.le_refl _)
          h0 ht (.inr hmade)
      · simp [Account.pushed]
  · cases hfind
  · cases hchange : change? p r i m.shape with
    | none => rfl
    | some t => cases hreg.missing hm hchange hr

/-- What the pass asks of a builder here: that it holds no node twice. -/
def counting : Builder.Demands := ⟨True, False, False⟩

/-- The origins of nodes of the target as far as they replace nodes. -/
def replaced (replacements : NodeId → Option (Replacement NewAccess)) (origin : NodeId → NodeId)
    (k : NodeId) : NodeId :=
  match replacements (origin k) with
  | some (.fixed j) => if j = k then origin k else 0
  | _ => 0

theorem replaced_ne_zero {replacements : NodeId → Option (Replacement NewAccess)}
    {origin : NodeId → NodeId} {k : NodeId} (h : replaced replacements origin k ≠ 0) :
    origin k ≠ 0 ∧ replaced replacements origin k = origin k ∧ replacements (origin k) =
    some (.fixed k) := by
  unfold replaced at h ⊢
  split at h
  · next j hj =>
    split at h
    · next hjk =>
      subst hjk
      exact ⟨h, by simp, hj⟩
    · exact absurd rfl h
  · exact absurd rfl h

/-- Once all changes are registered, the account is right: nodes that replace others are changed
nodes. -/
theorem holds_registered (hp : p.Fit) (hc : p.Counted) (hs : Underway p r [] s)
    {origin : NodeId → NodeId} (hready : (regime counting p).Ready p [] (s, origin) []) :
    ∃ origin, (account p r s).Holds (s, origin)
      ((account p r s).base.source.globals.flatMap ((account p r s).around (account p r s).depth) ++
      []) := by
  obtain ⟨replacements, nodes, rfl, hreg⟩ := hs
  refine ⟨replaced replacements origin, .refl _, ?_, fun _ _ hy => absurd hy (List.not_mem_nil),
    fun i j hf => ?_, fun k hk => ?_,
    fun k hk => ?_, fun _ _ => ⟨False.elim, False.elim, False.elim⟩, rfl, #[], by
      simp [session, Session.start]⟩
  · have hgood :=
      hready.good_globals hp (fun _ => hc) (account p r (session p replacements nodes)).depth
    rw [Account.around_congr (A := (regime counting p).account (session p replacements nodes))
      (B := account p r (session p replacements nodes)) rfl rfl rfl] at hgood
    exact ⟨hgood.toFit, hgood.free, hgood.once⟩
  · obtain ⟨n, _, hn, _⟩ := hreg.fixed hf
    have hi : origin j = i := (hready.fixed i j hf).1
    have hfixed : replacements i = some (.fixed j) := hf
    refine .inr ⟨Nat.ne_of_gt (Arena.range_of_node? hn).1, ?_, trivial⟩
    simp [replaced, hi, hfixed]
  · obtain ⟨h0, heq, hfixed⟩ := replaced_ne_zero hk
    have htree := (hready.noted k h0).1
    obtain ⟨n, t, hn, hchange, hvar, hnode⟩ := hreg.fixed hfixed
    simp only [heq]
    refine ⟨htree, .inr ⟨n, t, _, hn, hchange, hnode, rfl, ?_⟩⟩
    unfold change? at hchange
    split at hchange
    · obtain ⟨_, _, rfl⟩ := Option.map_eq_some_iff.1 hchange
      exact .group
    · obtain ⟨_, _, rfl⟩ := Option.map_eq_some_iff.1 hchange
      exact .binding
    · next hs =>
      rw [hs] at hvar
      cases hvar
    · cases hchange
  · exact (hready.noted k (replaced_ne_zero hk).1).2

/-- Copying after all changes are registered makes the moved program. -/
theorem copyModule_rebinds (hp : p.Fit) (hk : p.Known) (hc : p.Counted) (hb : p.Built)
    (hs : Underway p r [] s) {origin : NodeId → NodeId}
    (hready : (regime counting p).Ready p [] (s, origin) []) :
    ∃ s', Edit.copyModule (Edit.copy act) s = .ok () s' ∧ s'.copied = true ∧
      Rebinds p r s'.target.build := by
  obtain ⟨origin, hw⟩ := holds_registered hp hc hs hready
  have hs' := hs
  obtain ⟨replacements, nodes, rfl, hreg⟩ := hs
  obtain ⟨_, s', origin, hcopy, hw', _, hcopied, hglobals⟩ :=
    (Account.copyModule (D := within p) account_stable
    (account_plain hp hk hs') (reach_within (A := account p r (session p replacements nodes)) hp)
    (account_handled hp hk hs') (fun _ => within_global hp)
    (fun h => Bool.noConfusion h) hw).succeeds
  obtain ⟨ys, hys, _, hlist⟩ := hglobals trivial fun _ _ => ⟨rfl, rfl⟩
  refine ⟨s', hcopy, hcopied, rebinds_of_mirrors (R := Program.Comes origin) hp (hp.treeShaped hc)
    hb hw'.good.toFit.build ⟨_, [], (Program.withDiagnostics_nil _).symm⟩
    (fun i j hij => hij.imp_right fun ⟨hi, hj⟩ => ?_) ?_⟩
  · rw [Builder.globals_build, hys]
    exact ((hlist trivial).forall₂ (fun _ h => h) fun _ => Bool.false_ne_true).imp fun _ _ =>
      comes_of_out
  · have hnames : ∀ x y, (x = y ∧ ∃ t, p.symbols.Names x t ∧ s'.target.symbols.Names y t) →
        (rebound p r).nameOf x = s'.target.build.nameOf y := by
      rintro x y ⟨_, t, hx, hy⟩
      exact hx.nameFor.trans hy.nameFor.symm
    obtain ⟨_, ⟨hparts, n, m, hn, hm, hspan, hrel⟩ | ⟨n, t, m, hn, hchange, hm, hspan, hrel⟩⟩ :=
      hw'.traced j (by simp only [hj]; exact hi)
    · simp only [hj] at hn hparts
      refine ⟨n, m, ?_, Builder.node?_build_of hm, ?_,
        hrel.mono hnames (fun _ _ => comes_of_out) fun _ _ => comes_of_lists hs'⟩
      · rw [node?_rebound, show p.node? i = some n from hn, Option.map_some, changed, hparts n hn]
      · rw [hspan]
        exact Span.same_ofValid n.span
    · simp only [hj] at hn hchange
      refine ⟨⟨t, {}⟩, m, ?_, Builder.node?_build_of hm, ?_,
        hrel.mono hnames (fun _ _ h => h) fun _ _ h => h⟩
      · rw [node?_rebound, hn, Option.map_some, changed, hchange]
      · rw [hspan]
        exact ⟨rfl, fun _ => rfl⟩

end Copying

section Applying

variable {p : Program} {r : Remapping} {inputs : Data}

/-- Without a collision the pass makes the moved program, unless an access mode is misplaced. -/
theorem runs_work_rebinds (hp : p.Fit) (hk : p.Known) (hc : p.Counted) (hb : p.Built)
    (hfacts : ∀ g ∈ p.globals, (p.asVariable? g).isSome → ∃ x, p.facts.variableAt g = some x)
    (hr : inputs.get? .remapping = some r)
    (hfree : r.allowCollisions = false → collision p.facts (Remapping.image r) = none) :
    Runs (work p inputs) ((Session.start p (), fun _ => 0) : World NewAccess Unit)
    (Misplaced p r) fun out w =>
      out = {} ∧ w.1.copied = true ∧ Rebinds p r w.1.target.build := by
  unfold work
  rw [hr]
  refine Runs.bind (Runs.pure (fun _ => 0) (Runs.bind ?_))
  have hready : (regime counting p).Ready p [] (Session.start p (), fun _ => 0) [] :=
    .start hp (fun _ => trivial) fun _ => rfl
  have hcheck : Runs (checkCollisions p r) ((Session.start p (), fun _ => 0) : World NewAccess Unit)
      (Misplaced p r)
      fun _ w => w = (Session.start p (), fun _ => 0) := by
    unfold checkCollisions
    split
    · next hflag hfound =>
      rw [hfree hflag] at hfound
      cases hfound
    · exact Runs.pure _ rfl
  refine hcheck.mono ?_
  rintro _ _ rfl
  have hregister := (runs_registering (r := r) hp (hp.treeShaped hc) hb hfacts fun _ => 0).and
    (P := fun _ s => ∃ origin, (regime counting p).Ready p [] (s, origin) [])
    ((runs_rebindGlobals (r := r) (False.elim ·) hb.recorded.decl hready).mono fun _ w hw =>
      ⟨w.2, hw⟩)
  refine Runs.bind (hregister.mono fun _ w ⟨hw, origin, hready⟩ => Runs.bind ?_)
  obtain ⟨s, hcopy, hcopied, hrebinds⟩ := copyModule_rebinds hp hk hc hb hw hready
  have hedit : Work.edit (Edit.copyModule (Edit.copy act)) w.1 = .ok () s := by
    simp only [Work.edit, hcopy]
  exact Runs.of_ok hedit w.2 (Runs.pure w.2 ⟨rfl, hcopied, hrebinds⟩)

/-- A collision that is found is told as one. -/
theorem collision_form {f : Facts} {image : BindingPoint → BindingPoint} {problem : PassProblem}
    (h : collision f image = some problem) :
    ∃ entry first second point, problem = .collision entry first second point := by
  obtain ⟨x, _, hx⟩ := List.exists_of_findSome?_eq_some h
  obtain ⟨⟨first, second, point⟩, _, rfl⟩ := Option.map_eq_some_iff.1 hx
  exact ⟨x.name, first, second, point, rfl⟩

/-- Where a collision is found, the pass ends in it. -/
theorem work_of_collision (hr : inputs.get? .remapping = some r) (hflag : r.allowCollisions = false)
    {problem : PassProblem} (hfound : collision p.facts (Remapping.image r) = some problem)
    (s : Session NewAccess Unit) : work p inputs s = .error (.problem problem) s := by
  have hcheck : checkCollisions p r = Work.fail problem := by
    unfold checkCollisions
    rw [hflag, hfound]
  have hwork : work p inputs = (do
      checkCollisions p r
      for id in p.globals do rebindGlobal p r id
      Work.edit (Edit.copyModule (Edit.copy act))
      return {}) := by
    unfold work
    rw [hr]
    rfl
  rw [hwork, hcheck]
  rfl

/-- Moving resources is simultaneous, and collisions are told exactly. Where collisions are not
allowed the pass reports one if, and only if, some entry point uses two variables, itself or through
calls, whose points have one image in the table. What else it may report is another access mode for
a variable that is not in storage; and if it reports nothing, it makes the program in which every
resource is at the image of its point. -/
theorem apply_rebinds {m : Document.Module} (h : m.decode = .ok p) (hv : p.valid = true)
    (hr : inputs.get? .remapping = some r) :
    ((∃ entry first second point, pass.Reports p inputs (.collision entry first second point)) ↔
      r.allowCollisions = false ∧ Collides p.facts (Remapping.image r)) ∧
    ((∃ entry first second point, pass.Reports p inputs (.collision entry first second point)) ∨
      (∃ g ∈ p.globals, ∃ x, p.facts.variableAt g = some x ∧ x.space ≠ .storage ∧
        (accessOf p r g).isSome ∧
        pass.Reports p inputs (.accessNotStorage x.name x.space)) ∨
      ∃ q, pass.apply p inputs = .ok ⟨q, {}⟩ ∧ Rebinds p r q) := by
  obtain ⟨b, hgood, hknown, _, _, rfl⟩ := Document.decode_good h
  have hp := hgood.toFit.build
  have hcounted : b.build.Counted := hgood.counted_build trivial
  have ht := hp.treeShaped hcounted
  obtain ⟨hglobals, hentries⟩ := Program.summaries_build hv hgood.toFit ht
  have hcollides : (collision b.build.facts (Remapping.image r)).isSome ↔
      Collides b.build.facts (Remapping.image r) :=
    collision_isSome hentries hglobals
  by_cases hfree : r.allowCollisions = false → collision b.build.facts (Remapping.image r) = none
  · have hruns :=
      runs_work_rebinds hp hknown.build hcounted ⟨b, [], (Program.withDiagnostics_nil _).symm⟩
      (fun g hg => Program.variableAt_build hv hgood.toFit ht hg) hr hfree
    have hno : ¬ (r.allowCollisions = false ∧ Collides b.build.facts (Remapping.image r)) := by
      rintro ⟨hflag, hcollide⟩
      have := hcollides.2 hcollide
      rw [hfree hflag] at this
      cases this
    cases hwork : work b.build inputs (Session.start b.build ()) with
    | ok out s =>
      obtain ⟨_, rfl, hcopied, hrebinds⟩ := hruns.ok hwork
      have hrun : pass.run b.build inputs = { ending := .finished s.target s.copied } := by
        simp only [pass, Work.perform, hwork]
      have happly : pass.apply b.build inputs = .ok ⟨s.target.build, {}⟩ := by
        have hcopied : s.copied = true := hcopied
        simp [Pass.apply, Result.outcome, hv, hrun, hcopied]
      refine ⟨iff_of_false ?_ hno, .inr (.inr ⟨_, happly, hrebinds⟩)⟩
      rintro ⟨_, _, _, _, hend, _⟩
      rw [hrun] at hend
      cases hend
    | error stop s =>
      have hstop := hruns
      rw [Runs, hwork] at hstop
      obtain ⟨g, hg, x, hx, hspace, haccess, rfl⟩ := hstop
      have hreports := Pass.reports_of_work (t := pass) hv rfl hwork
      refine ⟨iff_of_false ?_ hno, .inr (.inl ⟨g, hg, x, hx, hspace, haccess, hreports⟩)⟩
      rintro ⟨_, _, _, _, hend, _⟩
      rw [hreports.1] at hend
      simp [PassProblem.toFailure, PassProblem.toFault, Fault.input] at hend
  · simp only [Classical.not_imp, ← Option.isSome_iff_ne_none, ← ne_eq] at hfree
    obtain ⟨hflag, hfound⟩ := hfree
    obtain ⟨problem, hfound⟩ := Option.isSome_iff_exists.1 hfound
    obtain ⟨entry, first, second, point, rfl⟩ := collision_form hfound
    have hreports := Pass.reports_of_work (t := pass) hv rfl
      (work_of_collision hr hflag hfound (Session.start b.build ()))
    have hsome : ∃ entry first second point,
        pass.Reports b.build inputs (.collision entry first second point) :=
      ⟨entry, first, second, point, hreports⟩
    exact ⟨iff_of_true hsome ⟨hflag, hcollides.1 (by rw [hfound]; rfl)⟩, .inl hsome⟩

/-- Did the run of the pass end in a copy? -/
def finishes (p : Program) (inputs : Data) : Bool :=
  match (pass.run p inputs).ending with
  | .finished _ copied => copied
  | _ => false

/-- Two variables in storage, both of which an entry point reads. -/
def twoBuffers : Document.Module where
  globals := [buffer "a" 0, buffer "b" 1,
    some { kind := "Function", name := "main"
           attributes := [some { kind := "StageAttribute", stage := "compute" },
             some { kind := "WorkgroupAttribute",
                    x := some { kind := "IntLiteral", int := some 1 } }]
           body := some { kind := "Block", statements := [read "x" "a", read "y" "b"] } }]
where
  buffer (name : String) (binding : UInt32) : Option Document.Record :=
    some { kind := "Var", name, type := some { kind := "I32" }
           addressSpace := "storage", access := "read"
           attributes := [some { kind := "GroupAttribute", value := some 0 },
             some { kind := "BindingAttribute", value := some binding }] }
  read (name buffer : String) : Option Document.Record :=
    some { kind := "VarDecl"
           var := some { kind := "Let", name
                         initializer := some { kind := "Ident", name := buffer } } }

/-- The two points change places, and the first one may be written to. -/
def exchanging : Remapping where
  points := [(⟨0, 0⟩, ⟨0, 1⟩), (⟨0, 1⟩, ⟨0, 0⟩)]
  access := [(⟨0, 0⟩, .readWrite)]

theorem apply_rebinds_twoBuffers : ∃ p q, twoBuffers.decode = .ok p ∧ p.valid = true ∧
    ¬ Collides p.facts (Remapping.image exchanging) ∧
    pass.apply p (Exchange.put {} .remapping exchanging) = .ok ⟨q, {}⟩ ∧
    Rebinds p exchanging q := by
  have hok : (twoBuffers.decode.toOption.any fun p => p.valid &&
    finishes p (Exchange.put {} .remapping exchanging)) = true := by
    decide +kernel
  cases hp : twoBuffers.decode with
  | error e => simp [hp, Except.toOption] at hok
  | ok p =>
    simp only [hp, Except.toOption, Option.any_some, Bool.and_eq_true] at hok
    have hnot : ∀ problem, ¬ pass.Reports p (Exchange.put {} .remapping exchanging) problem := by
      intro problem hreports
      simp [finishes, hreports.1] at hok
    have hr : (Exchange.put {} .remapping exchanging : Data).get? .remapping = some exchanging :=
      rfl
    obtain ⟨hcollides, hrest⟩ := apply_rebinds hp hok.1 hr
    refine ⟨p, ?_⟩
    rcases hrest with ⟨_, _, _, _, h⟩ | ⟨_, _, _, _, _, _, h⟩ | ⟨q, happly, hrebinds⟩
    · exact absurd h (hnot _)
    · exact absurd h (hnot _)
    · refine ⟨q, rfl, hok.1, fun hcollide => ?_, happly, hrebinds⟩
      obtain ⟨_, _, _, _, h⟩ := hcollides.2 ⟨rfl, hcollide⟩
      exact hnot _ h

end Applying

end Rebind
end ShaderLoom
