import ShaderLoom.Pass.Workgroups
import ShaderLoom.Proofs.Copy.Marks
import ShaderLoom.Proofs.Meaning.Records
import ShaderLoom.Proofs.Meaning.Uses

/-! What reading the number of workgroups from a buffer registers before the program is copied. In a
valid program that is a tree no node is registered twice: an identifier uses one parameter at most,
an access has one object, and a member is either the only one of its structure or not. -/
namespace ShaderLoom

namespace Program

variable {p : Program}

/-- Resolution of the program explains what it records of variables, structures, members and entry
points. -/
structure Explained (p : Program) : Prop where
  fit : p.Fit
  tree : p.TreeShaped
  accounted : p.Accounted
  sound : p.facts.Sound p.toArena
  entries : p.facts.entryPoints ⊆ p.globals
  formed : p.facts.table.Formed p.toArena p.globals
  selected : ∀ {i e}, p.facts.table.senses i = some e →
    Selected p.toArena p.facts.table.Recorded p.globals i e

theorem explained_build {b : Builder} (h : b.build.valid = true) (hfit : b.Fit)
    (ht : b.build.TreeShaped) : b.build.Explained := by
  have hfollows := (recorded_build h hfit ht).2.follows
  exact ⟨hfit.build, ht, accounted_build h hfit ht, Built.sound ⟨b, [], by simp⟩,
    entryPoints_build b, hfollows.1, fun he => (hfollows.2 he).2⟩

namespace Explained

variable (h : p.Explained)
include h

/-- A member of a known structure is an element of a list. -/
theorem element_of_member {d : NodeId} {m : MemberFacts} (hm : p.toArena.HasMember p.globals d m) :
    Copy.IsElement p m.decl ∧ p.parent m.decl = d := by
  obtain ⟨hd, s, ms, as, hs, hmem, _⟩ := hm
  exact Copy.isElement_of_list h.fit h.tree (h.fit.inTree_global hd) hs (l := ms)
    (by simp [Shape.lists]) hmem

theorem hasMember {d : NodeId} {st : StructFacts} (hst : p.facts.structs[d]? = some st)
    {m : MemberFacts} (hm : m ∈ st.members) :
    p.toArena.HasMember p.globals d m := h.formed d st hst m hm

/-- Users of variables are identifiers in the tree. -/
theorem user {n : VariableId} {v : VariableFacts} (hv : p.facts.vars[n]? = some v) {u : NodeId}
    (hu : u ∈ v.users) : p.inTree u = true ∧ ∃ s, p.shape? u = some (.expr (.ident s)) := by
  obtain ⟨hmention, g, hg, hb⟩ :=
    h.accounted.below u (Facts.mentions_pos hv (List.mem_cons_of_mem _ hu))
  refine ⟨h.tree.inTree_below (h.fit.inTree_global hg) hb, hmention.resolve_right fun hvalue => ?_⟩
  obtain ⟨w, hw⟩ := Option.isSome_iff_exists.1 hvalue
  obtain ⟨x, hx⟩ := h.sound.user hv u hu
  have hx : p.shape? u = some (.expr x) := hx
  rw [Arena.shape?_of_asVariable? hw] at hx
  cases hx

/-- The object of an access to a member is a structure with the member. -/
theorem member {i : NodeId} {m : MemberFacts} (hm : p.facts.member? i = some m) : ∃ o s e d n,
    p.shape? i = some (.expr (.member o s)) ∧ p.facts.exprs[o]? = some e ∧
    e.type = some (.struct d n) ∧
      p.toArena.HasMember p.globals d m := by
  obtain ⟨e, he, hem⟩ := Option.bind_eq_some_iff.1 hm
  have hsense : p.facts.table.senses i = some { e with stmt := 0 } := by
    simp [Facts.table, he]
  obtain ⟨o, s, e', d, n, hs, ho, ht, hmem⟩ := h.selected hsense m hem
  obtain ⟨e'', he'', rfl⟩ := Option.map_eq_some_iff.1 ho
  exact ⟨o, s, e'', d, n, hs, he'', ht, hmem⟩

end Explained

end Program

namespace Workgroups

open Copy

variable {p : Program} {buffer : Symbol} {plan : Plan} {param : DroppedParam}

/-- The identifiers that use a parameter. -/
def DroppedParam.users (p : Program) (param : DroppedParam) : List NodeId :=
  ((p.facts.variableAt param.decl).map (·.users)).getD []

/-- The node that is replaced for a use of a parameter, and what it becomes. -/
def DroppedParam.change (p : Program) (buffer : Symbol) (param : DroppedParam) (user : NodeId) :
    NodeId × Use :=
  match param.rebuilt, accessAround? p user with
  | none, _ => (user, .read buffer)
  | some _, some access => (access, .read buffer)
  | some st, none => (user, .construct (structName p st) buffer)

/-- Is it an access to a member that goes away? -/
def Plan.selects (p : Program) (plan : Plan) (i : NodeId) : Bool :=
  (p.facts.member? i).any (plan.members.contains ·.decl)

/-- All nodes that a plan replaces, and what they become. -/
def Plan.changes (p : Program) (buffer : Symbol) (plan : Plan) : List (NodeId × Use) :=
  (plan.params.flatMap fun param => (param.users p).map (param.change p buffer)) ++
    (p.treeIds.filter (plan.selects p)).map fun i => (i, .read buffer)

/-- The list elements that a plan leaves out. -/
def Plan.left (plan : Plan) : List NodeId :=
  plan.params.map (·.decl) ++ (plan.members ++ plan.attributes)

theorem marks_dropParam (p : Program) (buffer : Symbol) (param : DroppedParam) :
    Marks p (dropParam p buffer param) () [param.decl]
    ((param.users p).map (param.change p buffer)) := by
  have huse : ∀ user, Marks p (match param.rebuilt, accessAround? p user with
      | none, _ => do
        Edit.replaceWith user (.read buffer)
        pure (.yield ⟨⟩)
      | some _, some access => do
        Edit.replaceWith access (.read buffer)
        pure (.yield ⟨⟩)
      | some st, none => do
        Edit.replaceWith user (.construct (structName p st) buffer)
        pure (.yield ⟨⟩) :
          Edit Use Unit (ForInStep PUnit)) (.yield ⟨⟩) [] [param.change p buffer user] := by
    intro user
    unfold DroppedParam.change
    split <;> exact (Marks.replaceWith p _ _).answer _
  have hleft : [param.decl] = [param.decl] ++ (param.users p).flatMap fun _ => [] := by simp
  have hchanges : (param.users p).map (param.change p buffer) =
      [] ++ (param.users p).flatMap fun user => [param.change p buffer user] := by
    rw [List.nil_append, List.map_eq_flatMap]
  rw [hleft, hchanges]
  exact (Marks.remove p param.decl).bind
    ((Marks.forIn (param.users p) fun user _ => huse user).answer ())

theorem marks_carryOut (p : Program) (buffer : Symbol) (plan : Plan) :
    Marks p (carryOut p buffer plan) () plan.left (plan.changes p buffer) := by
  have hselected : ∀ i, Marks p (if plan.selects p i then do
        Edit.replaceWith i (.read buffer)
        pure (.yield ⟨⟩)
      else pure (.yield ⟨⟩) : Edit Use Unit (ForInStep PUnit)) (.yield ⟨⟩) []
      (if plan.selects p i then [(i, Use.read buffer)] else []) := by
    intro i
    split
    · exact (Marks.replaceWith p i _).answer _
    · exact .pure p _
  have hnone : ∀ {β : Type} (is : List NodeId),
      (is.flatMap fun _ => ([] : List β)) = [] := fun is =>
    List.flatMap_eq_nil_iff.2 fun _ _ => rfl
  have hleft : plan.left = (plan.params.flatMap fun param => [param.decl]) ++
      ((plan.members ++ plan.attributes).flatMap (fun i => [i]) ++ p.treeIds.flatMap fun _ =>
        []) := by
    rw [hnone, List.append_nil, ← List.map_eq_flatMap, ← List.map_eq_flatMap, List.map_id']
    rfl
  have hchanges : plan.changes p buffer =
      (plan.params.flatMap fun param => (param.users p).map (param.change p buffer)) ++
      ((plan.members ++ plan.attributes).flatMap (fun _ => []) ++
        p.treeIds.flatMap fun i => if plan.selects p i then [(i, Use.read buffer)] else []) := by
    have hfilter : ∀ is : List NodeId,
        (is.filter (plan.selects p)).map (fun i => (i, Use.read buffer)) =
        is.flatMap fun i => if plan.selects p i then [(i, Use.read buffer)] else [] := by
      intro is
      induction is with
      | nil => rfl
      | cons i is ih =>
        rw [List.filter_cons, List.flatMap_cons, ← ih]
        split <;> rfl
    rw [hnone, List.nil_append, ← hfilter]
    rfl
  rw [hleft, hchanges]
  unfold carryOut
  refine (Marks.forIn plan.params fun param _ => (marks_dropParam p buffer param).answer _).bind ?_
  refine (Marks.forIn (plan.members ++ plan.attributes) fun i _ => (Marks.remove p i).answer _).bind
    ?_
  exact (Marks.forIn p.treeIds fun i _ => hselected i).answer ()

section Plans

/-- A variable that is a parameter of an entry point. -/
def IsParameter (p : Program) (v : VariableFacts) : Prop :=
  ∃ (g : NodeId) (x : FunctionFacts) (n : VariableId),
  g ∈ p.facts.entryPoints ∧ p.facts.functions[g]? = some x ∧ n ∈ x.params ∧
  p.facts.vars[n]? = some v

/-- What a plan says of a program: structures that uses of parameters construct have one member, and
members that go away have others beside them. -/
structure Plan.Sensible (p : Program) (plan : Plan) : Prop where
  once : (plan.params.map (·.decl)).Nodup
  params : ∀ param ∈ plan.params, ∃ v, IsParameter p v ∧ param.decl = v.decl ∧
    ∀ st, param.rebuilt = some st →
    ∃ d n, v.type = some (.struct d n) ∧ p.facts.structs[d]? = some st ∧ st.members.length = 1
  members : ∀ i ∈ plan.members, ∃ (d : NodeId) (st : StructFacts) (m : MemberFacts),
    p.facts.structs[d]? = some st ∧
    st.members.length ≠ 1 ∧ m ∈ st.members ∧ m.decl = i
  attributes : ∀ i ∈ plan.attributes, ∃ (d : NodeId) (st : StructFacts) (m : MemberFacts),
    p.facts.structs[d]? = some st ∧
    m ∈ st.members ∧ builtinAttribute? p m.decl = some i

theorem Plan.Sensible.addParam (h : plan.Sensible p) {v : VariableFacts} (hv : IsParameter p v) :
    (plan.addParam p v).Sensible p := by
  unfold Plan.addParam
  split
  · exact h
  next hnew =>
  have honce : ∀ rebuilt,
      ((plan.params ++ [(⟨v.decl, rebuilt⟩ : DroppedParam)]).map (·.decl)).Nodup := by
    intro rebuilt
    rw [List.map_append, List.nodup_append]
    refine ⟨h.once, List.nodup_singleton _, fun d hd d' hd' => ?_⟩
    obtain ⟨param, hparam, rfl⟩ := List.mem_map.1 hd
    rw [List.map_singleton, List.mem_singleton] at hd'
    rintro rfl
    exact hnew (List.any_eq_true.2 ⟨param, hparam, by simpa using hd'⟩)
  split
  · refine { h with once := honce none, params := fun param hparam => ?_ }
    rcases List.mem_append.1 hparam with hparam | hparam
    · exact h.params param hparam
    · rw [List.mem_singleton] at hparam
      subst hparam
      exact ⟨v, hv, rfl, nofun⟩
  split
  · next d n htype =>
    split
    · exact h
    next st hst =>
    split
    · exact h
    next m hm =>
    have hmem : m ∈ st.members := List.mem_reverse.1 (List.mem_of_find?_eq_some hm)
    split
    · next hlength =>
      refine { h with once := honce _, params := fun param hparam => ?_,
                      attributes := fun i hi => ?_ }
      · rcases List.mem_append.1 hparam with hparam | hparam
        · exact h.params param hparam
        · rw [List.mem_singleton] at hparam
          subst hparam
          refine ⟨v, hv, rfl, fun st' hst' => ?_⟩
          cases hst'
          exact ⟨d, n, htype, hst, hlength⟩
      · rcases List.mem_append.1 hi with hi | hi
        · exact h.attributes i hi
        · exact ⟨d, st, m, hst, hmem, by simpa using hi⟩
    · next hlength =>
      refine { h with members := fun i hi => ?_ }
      rcases List.mem_append.1 hi with hi | hi
      · exact h.members i hi
      · exact ⟨d, st, m, hst, hlength, hmem, (List.mem_singleton.1 hi).symm⟩
  · exact h

theorem isParameter_of_mem {test : FunctionFacts → Bool} {v : VariableFacts}
    (hv : v ∈ p.facts.variablesOf ((p.facts.entryPointFacts.filter test).flatMap (·.params))) :
    IsParameter p v := by
  obtain ⟨n, hn, hv⟩ := List.mem_filterMap.1 hv
  obtain ⟨x, hx, hn⟩ := List.mem_flatMap.1 hn
  obtain ⟨g, hg, hx⟩ := List.mem_filterMap.1 (List.mem_filter.1 hx).1
  exact ⟨g, x, n, hg, hx, hn, hv⟩

theorem sensible_planned (p : Program) : (planned p).Sensible p := by
  have hall : ∀ (vs : List VariableFacts) (plan : Plan), (∀ v ∈ vs, IsParameter p v) →
      plan.Sensible p →
      (vs.foldl (Plan.addParam p) plan).Sensible p := by
    intro vs
    induction vs with
    | nil => exact fun _ _ h => h
    | cons v vs ih =>
      exact fun plan hvs h =>
        ih _ (fun u hu => hvs u (List.mem_cons_of_mem _ hu)) (h.addParam (hvs v List.mem_cons_self))
  exact hall _ _ (fun v => isParameter_of_mem) ⟨List.nodup_nil, nofun, nofun, nofun⟩

end Plans

section Explained

variable (h : p.Explained)

theorem of_accessAround? {user access : NodeId} (ha : accessAround? p user = some access) :
    access = p.parent user ∧ ∃ s, p.shape? access = some (.expr (.member user s)) := by
  unfold accessAround? at ha
  dsimp only at ha
  split at ha
  · next s _ hs =>
    split at ha
    · next ho =>
      cases ha
      exact ⟨rfl, _, ho ▸ hs⟩
    · cases ha
  · cases ha

/-- The object of an access, or any other node itself. -/
def objectOf (p : Program) (i : NodeId) : NodeId :=
  match p.shape? i with
  | some (.expr (.member o _)) => o
  | _ => i

include h

theorem mem_users {user : NodeId} (hu : user ∈ param.users p) :
    ∃ (n : VariableId) (v : VariableFacts),
    p.facts.vars[n]? = some v ∧ v.decl = param.decl ∧ user ∈ v.users := by
  unfold DroppedParam.users at hu
  cases hv : p.facts.variableAt param.decl with
  | none => simp [hv] at hu
  | some v =>
    obtain ⟨n, hn, hv'⟩ := Option.bind_eq_some_iff.1 hv
    obtain ⟨v', hv'', hd⟩ := h.sound.latest hn
    cases hv'.symm.trans hv''
    exact ⟨n, v, hv', hd, by simpa [hv] using hu⟩

/-- A use is replaced itself, or an access to it is. -/
theorem objectOf_change {user : NodeId} (hu : user ∈ param.users p) :
    objectOf p (param.change p buffer user).1 = user := by
  obtain ⟨n, v, hv, _, hu⟩ := mem_users h hu
  obtain ⟨_, s, hs⟩ := h.user hv hu
  unfold DroppedParam.change
  split
  · simp [objectOf, hs]
  · next access _ ha =>
    obtain ⟨_, s', hs'⟩ := of_accessAround? ha
    simp [objectOf, hs']
  · simp [objectOf, hs]

theorem inSource_change {user : NodeId} (hu : user ∈ param.users p) :
    InSource p (param.change p buffer user).1 := by
  obtain ⟨n, v, hv, _, hu⟩ := mem_users h hu
  obtain ⟨hin, s, hs⟩ := h.user hv hu
  have hself : InSource p user := ⟨h.fit.node_of_inTree hin, hin⟩
  unfold DroppedParam.change
  split
  · exact hself
  · next access _ ha =>
    obtain ⟨rfl, s', hs'⟩ := of_accessAround? ha
    have hne : p.parent user ≠ 0 := Arena.ne_zero_of_shape hs'
    have hin := (h.fit.parent_holds hne).2
    exact ⟨h.fit.node_of_inTree hin, hin⟩
  · exact hself

theorem nodup_users (hplan : plan.Sensible p) : (plan.params.flatMap (·.users p)).Nodup := by
  refine List.nodup_flatMap.2 ⟨fun param _ => ?_, ?_⟩
  · unfold DroppedParam.users
    cases hv : p.facts.variableAt param.decl with
    | none => exact List.nodup_nil
    | some v =>
      obtain ⟨n, _, hv⟩ := Option.bind_eq_some_iff.1 hv
      exact Facts.nodup_users h.accounted.once hv
  · refine (List.pairwise_map.1 hplan.once).imp fun {param param'} hne user hu hu' => hne ?_
    obtain ⟨n, v, hv, hd, hu⟩ := mem_users h hu
    obtain ⟨n', v', hv', hd', hu'⟩ := mem_users h hu'
    cases Facts.eq_of_mentions h.accounted.once hv hv' (List.mem_cons_of_mem _ hu)
      (List.mem_cons_of_mem _ hu')
    cases hv.symm.trans hv'
    exact hd.symm.trans hd'

/-- An access to the only member of a structure is not one to a member beside others. -/
theorem not_selects_change (hplan : plan.Sensible p) (hparam : param ∈ plan.params) {user : NodeId}
    (hu : user ∈ param.users p) : plan.selects p (param.change p buffer user).1 = false := by
  by_contra hnot
  obtain ⟨m, hm, hgone⟩ := (Option.any_eq_true _ _).1 (Bool.not_eq_false _ ▸ hnot)
  obtain ⟨o, s, e, d, k, hs, he, htype, hmember⟩ := h.member hm
  have ho : o = user := by
    have hobject : objectOf p (param.change p buffer user).1 = user := objectOf_change h hu
    rwa [objectOf, hs] at hobject
  subst ho
  obtain ⟨n, v, hv, hd, hu⟩ := mem_users h hu
  obtain ⟨_, s', hs'⟩ := h.user hv hu
  have hself : (param.change p buffer o).1 ≠ o := by
    intro hself
    rw [hself, hs'] at hs
    cases hs
  -- the use has the type of the parameter, whose structure has one member
  obtain ⟨e', he', _, hte⟩ := h.accounted.tied o s' hs' n v hv hu
  cases he.symm.trans he'
  obtain ⟨u, ⟨g, x, n', _, _, _, hu'⟩, hdecl, hrebuilt⟩ := hplan.params param hparam
  have hsame : v.decl ∈ u.mentions := by simp [VariableFacts.mentions, hd, hdecl]
  cases Facts.eq_of_mentions h.accounted.once hv hu' List.mem_cons_self hsame
  cases hv.symm.trans hu'
  have hst : ∃ st, param.rebuilt = some st := by
    by_contra hnone
    refine hself ?_
    unfold DroppedParam.change
    split
    · rfl
    · next st _ hst _ => exact absurd ⟨st, hst⟩ hnone
    · rfl
  obtain ⟨st, hst⟩ := hst
  obtain ⟨d', k', htype', hst', hlength⟩ := hrebuilt st hst
  rw [← hte, htype] at htype'
  cases htype'
  -- and the member is one of a structure with more members
  obtain ⟨d₂, st₂, m₂, hst₂, hlength₂, hm₂, hdecl₂⟩ := hplan.members m.decl (by simpa using hgone)
  have hparent := (h.element_of_member hmember).2
  rw [← hdecl₂, (h.element_of_member (h.hasMember hst₂ hm₂)).2] at hparent
  subst hparent
  cases hst'.symm.trans hst₂
  exact hlength₂ hlength

/-- Whatever a plan leaves out is in a list: of parameters, of members or of the attributes of a
member. -/
theorem element_of_left (hplan : plan.Sensible p) {i : NodeId} (hi : i ∈ plan.left) :
    IsElement p i ∧ ∃ x, p.shape? (p.parent i) = some x ∧ match x with
      | .decl (.struct _ _ _) => i ∈ plan.members
      | .decl (.function _) | .structMember _ _ _ => True
      | _ => False := by
  rcases List.mem_append.1 hi with hi | hi
  · obtain ⟨param, hparam, rfl⟩ := List.mem_map.1 hi
    obtain ⟨v, ⟨g, x, n, hg, hx, hn, hv⟩, hdecl, _⟩ := hplan.params param hparam
    obtain ⟨v', f, hv', hf, hmem⟩ := h.accounted.filed.params g x hx n hn
    cases hv.symm.trans hv'
    have hs := Arena.shape?_of_function? hf
    obtain ⟨helement, hparent⟩ :=
      isElement_of_list h.fit h.tree (h.fit.inTree_global (h.entries hg)) hs
      (l := f.params) (by simp [Shape.lists]) hmem
    rw [hdecl, hparent]
    exact ⟨helement, _, hs, trivial⟩
  rcases List.mem_append.1 hi with hi | hi
  · obtain ⟨d, st, m, hst, _, hm, rfl⟩ := hplan.members i hi
    obtain ⟨helement, hparent⟩ := h.element_of_member (h.hasMember hst hm)
    obtain ⟨_, s, ms, as, hs, _⟩ := h.hasMember hst hm
    rw [hparent]
    exact ⟨helement, _, hs, hi⟩
  · obtain ⟨d, st, m, hst, hm, hattr⟩ := hplan.attributes i hi
    have hin := (h.element_of_member (h.hasMember hst hm)).1.1.2
    unfold builtinAttribute? at hattr
    split at hattr
    · next attributes hs =>
      obtain ⟨helement, hparent⟩ :=
        isElement_of_list h.fit h.tree hin hs (l := attributes) (by simp [Shape.lists])
        (List.mem_of_find?_eq_some hattr)
      rw [hparent]
      exact ⟨helement, _, hs, trivial⟩
    · cases hattr

/-- Whatever a plan registers can be registered. -/
theorem markable_plan (hplan : plan.Sensible p) (buffer : Symbol) :
    Markable p plan.left (plan.changes p buffer) := by
  refine ⟨fun i hi => (element_of_left h hplan hi).1, fun x hx => ?_, ?_⟩
  · rcases List.mem_append.1 hx with hx | hx
    · obtain ⟨param, _, hx⟩ := List.mem_flatMap.1 hx
      obtain ⟨user, hu, rfl⟩ := List.mem_map.1 hx
      exact inSource_change h hu
    · obtain ⟨i, hi, rfl⟩ := List.mem_map.1 hx
      have hin := (List.mem_filter.1 (List.mem_filter.1 hi).1).2
      exact ⟨h.fit.node_of_inTree hin, hin⟩
  · have hfirst :
        ((plan.params.flatMap fun param => (param.users p).map (param.change p buffer)).map
          Prod.fst).Nodup := by
      refine List.Nodup.of_map (objectOf p) ?_
      have hobjects :
          ((plan.params.flatMap fun param => (param.users p).map (param.change p buffer)).map
            Prod.fst).map (objectOf p) =
          plan.params.flatMap (·.users p) := by
        rw [List.map_map, List.map_flatMap]
        refine List.flatMap_congr fun param _ => ?_
        rw [List.map_map]
        exact (List.map_congr_left fun user hu => objectOf_change h hu).trans (List.map_id _)
      rw [hobjects]
      exact nodup_users h hplan
    have hsecond : (((p.treeIds.filter (plan.selects p)).map fun i => (i, Use.read buffer)).map
      Prod.fst).Nodup := by
      rw [List.map_map]
      exact ((p.nodup_ids.filter _).filter _).map fun _ _ h => h
    rw [Plan.changes, List.map_append, List.nodup_append]
    refine ⟨hfirst, hsecond, fun i hi j hj hij => ?_⟩
    subst hij
    obtain ⟨x, hx, rfl⟩ := List.mem_map.1 hi
    obtain ⟨param, hparam, hx⟩ := List.mem_flatMap.1 hx
    obtain ⟨user, hu, rfl⟩ := List.mem_map.1 hx
    obtain ⟨y, hy, hyx⟩ := List.mem_map.1 hj
    obtain ⟨k, hk, rfl⟩ := List.mem_map.1 hy
    have hselects := (List.mem_filter.1 hk).2
    rw [show k = _ from hyx, not_selects_change h hplan hparam hu] at hselects
    cases hselects

/-- Registering a plan never fails. It leaves the marks of the plan and nothing else. -/
theorem carryOut_ok (hplan : plan.Sensible p) (buffer : Symbol) {s : Session Use Unit}
    (hs : s.source = p) (hfree : ∀ i, s.replacements i = none) :
    carryOut p buffer plan s = .ok () (s.mark plan.left (plan.changes p buffer)) :=
  marks_carryOut p buffer plan (markable_plan h hplan buffer) s hs fun x _ => hfree x.1

end Explained

end Workgroups
end ShaderLoom
