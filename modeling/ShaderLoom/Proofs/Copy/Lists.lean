import ShaderLoom.Proofs.Copy.Splice

/-! A list copied by itself. The copy of a node takes the node's lists by their names; whoever asks
for the copy of a list names its owner and its elements only, and the list is taken for the first
one of the owner that has these elements. That is the list itself unless it is empty, and where
another one is meant the two copies differ in what is put at the ends alone. -/
namespace ShaderLoom

namespace Shape

variable {ν α β : Type}

/-- The list of a node that goes by a name. -/
def list? (s : Shape ν α) (k : ListKind) : Option (List α) :=
  match s, k with
  | .module gs, .globals => some gs
  | .stmt (.block ss), .statements => some ss
  | .decl (.struct _ members _), .members => some members
  | .decl (.struct _ _ attributes), .attributes => some attributes
  | .decl (.function f), .params => some f.params
  | .decl (.function f), .attributes => some f.attributes
  | .decl (.function f), .returnAttributes => some f.returnAttributes
  | .expr (.call _ args), .args => some args
  | .structMember _ _ attributes, .attributes => some attributes
  | .decl (.value v), .attributes => some v.attributes
  | _, _ => none

theorem mem_lists_of_list? {s : Shape ν α} {k : ListKind} {ids : List α}
    (h : s.list? k = some ids) : ids ∈ s.lists := by
  unfold list? at h
  split at h <;> simp_all [lists]

theorem list?_rebuild (s : Shape ν α) (f : α → β) (l : ListKind → List α → List β) (k : ListKind) :
    (s.rebuild f l).list? k = (s.list? k).map (l k) := by
  rcases s with (_ | _ | _ | _ | _ | _ | _ | _ | _ | _ | _) |
    (_ | _ | _ | _ | _ | _ | _ | _ | _) |
    (_ | _ | _ | _ | _ | _ | _ | _ | _ | _ | _ | _ | _) |
    (_ | _ | _ | _) | _ | (_ | _ | _ | _ | _ | _ | _) | _ <;> cases k <;> rfl

/-- A list that is known by its elements has these elements. -/
theorem list?_of_listKind? [DecidableEq α] {s : Shape ν α} {k : ListKind} {ids : List α}
    (h : s.listKind? ids = some k) : s.list? k = some ids := by
  unfold listKind? at h
  split at h <;> grind [list?]

theorem listKind?_isSome [DecidableEq α] {s : Shape ν α} {k : ListKind} {ids : List α}
    (h : s.list? k = some ids) : (s.listKind? ids).isSome := by
  unfold list? at h
  split at h <;> simp_all [listKind?]
  all_goals grind

/-- No two lists of a node have an element in common where its children are different nodes. -/
theorem list?_unique {s : Shape Symbol NodeId} (h : (s.slots.filter (· != 0)).Nodup)
    {k k' : ListKind} {ids ids' : List NodeId} (hk : s.list? k = some ids)
    (hk' : s.list? k' = some ids') {c : NodeId} (hc : c ∈ ids) (hc' : c ∈ ids') (h0 : c ≠ 0) :
    k = k' := by
  rcases s with _ | (_ | _ | _ | _ | _ | _ | _ | _ | _) | (_ | _)
    | (_ | f | ⟨name, members, attributes⟩ | _) | _ | _ | _
  all_goals cases k <;> cases hk <;> cases k' <;> cases hk'
  any_goals rfl
  -- Only structures and functions have more than one list.
  all_goals
    simp only [slots, List.filter_append, List.nodup_append, List.mem_append, List.mem_filter,
      bne_iff_ne] at h
    grind

end Shape

namespace Copy

variable {p : Program} {b : Builder} {rs : List Rewrite} {s : Session Empty Unit} {o : NodeId}
    {k : ListKind} {ids : List NodeId}

/-- Nothing is put at the ends of the list. -/
def Bare (p : Program) (b : Builder) (rs : List Rewrite) (o : NodeId) (k : ListKind) : Prop :=
  ∀ x ∈ Rewrite.inserted rs .front o ++ Rewrite.inserted rs .back o, fits p b o k x = false

theorem Bare.ends (h : Bare p b rs o k) :
    (Rewrite.inserted rs .front o).filter (fits p b o k) = [] ∧
    (Rewrite.inserted rs .back o).filter (fits p b o k) = [] := by
  simp only [List.filter_eq_nil_iff, Bool.not_eq_true]
  exact ⟨fun x hx => h x (List.mem_append_left _ hx), fun x hx => h x (List.mem_append_right _ hx)⟩

/-- What is put at the ends of one of two lists that are rewritten alike is put at the ends of the
other one. -/
theorem fits_of_rewrittenList_eq {child : NodeId → Tree} {k k' : ListKind}
    (h : rewrittenList p b rs child o k ids = rewrittenList p b rs child o k' ids) {x : NodeId}
    (hx : x ∈ Rewrite.inserted rs .front o ++ Rewrite.inserted rs .back o)
    (hk : fits p b o k x = true) : fits p b o k' x = true := by
  let ends (l : ListKind) : List Tree :=
    ((Rewrite.inserted rs .front o).filter (fits p b o l)).map .given ++
    ((Rewrite.inserted rs .back o).filter (fits p b o l)).map .given
  have hmem : ∀ l, .given x ∈ ends l ↔ fits p b o l x = true := by
    intro l
    have hx : x ∈ Rewrite.inserted rs .front o ∨ x ∈ Rewrite.inserted rs .back o :=
      List.mem_append.1 hx
    simp [ends, ← or_and_right, hx]
  -- The elements and what is put next to them are the same, and so the ends are the same but for
  -- their order.
  have hperm : ∀ l, (rewrittenList p b rs child o l ids).Perm
      (ids.flatMap (rewrittenElement rs child) ++ ends l) := by
    intro l
    rw [← List.append_assoc]
    exact List.perm_append_comm.append_right _
  have hends : (ends k).Perm (ends k') :=
    (List.perm_append_left_iff _).1 ((hperm k).symm.trans (h ▸ hperm k'))
  exact (hmem k').1 (hends.mem_iff.1 ((hmem k).2 hk))

/-- Two lists with the same elements are rewritten alike just where nothing is put at the ends of
either. -/
theorem rewrittenList_eq_iff (child : NodeId → Tree) {k k' : ListKind} :
    rewrittenList p b rs child o k ids = rewrittenList p b rs child o k' ids ↔
      k = k' ∨ Bare p b rs o k ∧ Bare p b rs o k' := by
  constructor
  · intro h
    by_cases hk : k = k'
    · exact .inl hk
    · refine .inr ⟨fun x hx => ?_, fun x hx => ?_⟩
      · exact Bool.eq_false_iff.2 fun hf => hk (fits_unique hf (fits_of_rewrittenList_eq h hx hf))
      · exact Bool.eq_false_iff.2 fun hf =>
          hk (fits_unique (fits_of_rewrittenList_eq h.symm hx hf) hf)
  · rintro (rfl | ⟨h, h'⟩)
    · rfl
    · simp only [rewrittenList, h.ends, h'.ends]

/-- The lists of a copied node are seen as the rewritten lists. -/
theorem SeenAs.list {t : Builder} {d : NodeId} {m : Node} (h : SeenAs b (rewritten p b rs · o) t d)
    (hm : p.node? o = some m) (hnone : Rewrite.replaced rs o = none)
    (hk : m.shape.list? k = some ids) : ∃ sh ids', t.shape? d = some sh ∧
      sh.list? k = some ids' ∧
      ∀ n, ids'.map (Tree.view t.toArena b.size n) =
        rewrittenList p b rs (rewritten p b rs n) o k ids := by
  have h0 : o ≠ 0 := Nat.ne_of_gt (Arena.range_of_node? hm).1
  have hview : ∀ n,
      Tree.view t.toArena b.size (n + 1) d = .made (if m.span.valid then m.span else b.span)
      (m.shape.rebuild (rewritten p b rs n) (rewrittenList p b rs (rewritten p b rs n) o)) := by
    intro n
    refine (h.2 (n + 1)).trans ?_
    simp only [rewritten, hm, fixed?, h0, if_false, hnone, Option.map_none, Option.getD_none]
  have hnew : ¬ d ≤ b.size := by
    intro hd
    have := (Tree.view_given hd).symm.trans (hview 0)
    unfold Tree.ofGiven at this
    split at this <;> cases this
  obtain ⟨m', hm'⟩ : ∃ m', t.node? d = some m' := by
    cases hm' : t.node? d with
    | none => simpa [Tree.view, hnew, hm'] using hview 0
    | some m' => exact ⟨m', rfl⟩
  have hlist : ∀ n, (m'.shape.list? k).map (List.map (Tree.view t.toArena b.size n)) =
      some (rewrittenList p b rs (rewritten p b rs n) o k ids) := by
    intro n
    have hshape := hview n
    simp only [Tree.view, hnew, if_false, hm', Tree.made.injEq] at hshape
    have := congrArg (Shape.list? · k) hshape.2
    simpa only [Shape.list?_rebuild, hk, Option.map_some] using this
  obtain ⟨ids', hids', -⟩ := Option.map_eq_some_iff.1 (hlist 0)
  refine ⟨m'.shape, ids', by simp [Arena.shape?, hm'], hids', fun n => ?_⟩
  simpa [hids'] using hlist n

section Tree

variable (hp : p.TreeShaped) (hmodule : ∀ i gs, p.inTree i = true → p.shape? i = some (.module gs) →
    i = p.root)
  (hall : ∀ r ∈ rs, r.Allowed p b)
include hp hmodule hall

/-- The copy of a list that is known by its elements. -/
theorem copyList_yields {sh : Shape Symbol NodeId} (ho : p.inTree o = true)
    (hm : p.shape? o = some sh) (hfound : sh.listKind? ids = some k) (low : Nat) :
    Yields p b rs low (Edit.copyList (Edit.copy noHandlers) o ids)
      (AllSeenAs b fun n => rewrittenList p b rs (rewritten p b rs n) o k ids) := by
  have hcopy : ∀ c ∈ ids, Copies p b rs (Edit.copy noHandlers) c := by
    refine fun c hc => copy_copies hp hmodule hall fun h0 => ?_
    obtain ⟨n, hn, rfl⟩ := Option.map_eq_some_iff.1 hm
    have hslot : c ∈ n.shape.slots := Shape.required_subset _ _
      (Shape.mem_required_of_lists (Shape.mem_lists_of_list? (Shape.list?_of_listKind? hfound)) _
        hc)
    have hmem : c ∈ p.children o := Arena.mem_children.2 ⟨n, hn, hslot, h0⟩
    exact ⟨hp.inTree_child ho hmem, hp.ne_root ho hmem⟩
  intro s hs hlow
  have hsource : s.source = p := by
    obtain ⟨more, gs, c, rfl⟩ := hs.session
    rfl
  obtain ⟨out, t, hst, h⟩ := copyListOf_yields hall hcopy o k low s hs hlow
  refine ⟨out, t, ?_, h⟩
  unfold Edit.copyList
  rw [get_bind, hsource, hm, Option.bind_some, hfound]
  exact hst

end Tree

/-- A list that is copied by itself and the same list of the copied owner. The list is found if it
has an element, and for the module's list it always is; that list is declared as it was copied, each
node once. What is copied is the same just where the list is found, or nothing is put at the ends of
it nor of the list that was found in its place. -/
theorem copyList_agrees (hp : p.TreeShaped)
    (hmodule : ∀ i gs, p.inTree i = true → p.shape? i = some (.module gs) → i = p.root)
    (hb : ∀ g ∈ b.globals, g ≤ b.size)
    (hs : registerAll rs { Session.start p () with target := b } = .ok () s)
    {sh : Shape Symbol NodeId} (ho : p.inTree o = true) (hm : p.shape? o = some sh)
    (hids : sh.list? k = some ids) :
    ∃ found out t, sh.listKind? ids = some found ∧
      Edit.copyList (Edit.copy noHandlers) o ids s = .ok out t ∧
      ((∃ c ∈ ids, c ≠ 0) → found = k) ∧
      (k = .globals → found = k ∧ ∃ u new, Edit.copyModule (Edit.copy noHandlers) s = .ok () u ∧
        u.target.globals = b.globals ++ new ∧ ∀ n, new.map (Tree.view u.target.toArena b.size n) =
          declareOnce b.globals (out.map (Tree.view t.target.toArena b.size n))) ∧
      (o ≠ p.root → Rewrite.replaced rs o = none → ∃ d u sh' ids',
        Edit.copy noHandlers o s = .ok d u ∧
        u.target.shape? d = some sh' ∧ sh'.list? k = some ids' ∧
        ((∀ n, out.map (Tree.view t.target.toArena b.size n) =
          ids'.map (Tree.view u.target.toArena b.size n)) ↔
          found = k ∨ Bare p b rs o found ∧ Bare p b rs o k)) := by
  have hnil : Rewrite.Single [] := fun _ => by simp
  obtain ⟨hall, -, rfl⟩ := (registerAll_ok hnil).1 hs
  rw [List.nil_append] at hs ⊢
  have hstart : Underway p b rs (planned p b rs) := underway_planned p b rs false
  obtain ⟨found, hfound⟩ := Option.isSome_iff_exists.1 (Shape.listKind?_isSome hids)
  obtain ⟨out, t, hst, ht, -, -, hseen⟩ :=
    copyList_yields hp hmodule hall ho hm hfound 0 _ hstart (Nat.zero_le _)
  refine ⟨found, out, t, hfound, hst, ?_, ?_, ?_⟩
  · rintro ⟨c, hc, h0⟩
    obtain ⟨m, hm', rfl⟩ := Option.map_eq_some_iff.1 hm
    have honce : (m.shape.slots.filter (· != 0)).Nodup := by
      simpa [Arena.children, hm', Node.children] using hp.once ho
    exact Shape.list?_unique honce (Shape.list?_of_listKind? hfound) hids hc hc h0
  · rintro rfl
    have hsh : sh = .module ids := by
      unfold Shape.list? at hids
      split at hids <;> simp_all
    subst hsh
    obtain rfl := hmodule o ids ho hm
    obtain rfl : found = .globals := by simpa [Shape.listKind?] using hfound.symm
    obtain ⟨u, more, new, hu, htarget, hnew⟩ := copyModule_declares hp hmodule hb hall
    have hglobals : p.globals = ids := by simp [Program.globals, hm]
    refine ⟨rfl, u, new, hu, by rw [htarget], fun n => ?_⟩
    rw [hnew n, rewrittenModule, hglobals, hseen.2 n]
  · intro hr hnone
    obtain ⟨m, hm', rfl⟩ := Option.map_eq_some_iff.1 hm
    obtain ⟨d, u, hsu, -, -, -, hd⟩ :=
      copy_copies hp hmodule hall (fun _ => ⟨ho, hr⟩) 0 _ hstart (Nat.zero_le _)
    obtain ⟨sh', ids', hsh', hids', hview⟩ := hd.seen.list hm' hnone hids
    refine ⟨d, u, sh', ids', hsu, hsh', hids', ?_⟩
    simp only [hseen.2, hview, rewrittenList_eq_iff, forall_const]

/-- A statement is left out and another one put at the front, in the list and in the block alike. -/
theorem copyList_agrees_block : ∃ s out t d u sh' ids',
    registerAll [.insert .front 5 1, .remove 3]
    { Session.start aliasAndFunction.build () with target := threeNodes } =
      .ok () s ∧
    Edit.copyList (Edit.copy noHandlers) 5 [3, 4] s = .ok out t ∧
    Edit.copy noHandlers 5 s = .ok d u ∧
    u.target.shape? d = some sh' ∧ sh'.list? .statements = some ids' ∧
    ∀ n, out.map (Tree.view t.target.toArena threeNodes.size n) =
      ids'.map (Tree.view u.target.toArena threeNodes.size n) := by
  obtain ⟨s, hs⟩ : ∃ s, registerAll [.insert .front 5 1, .remove 3]
      { Session.start aliasAndFunction.build () with target := threeNodes } = .ok () s := ⟨_, rfl⟩
  obtain ⟨found, out, t, -, hout, hfound, -, hblock⟩ := copyList_agrees (o := 5) (k := .statements)
    aliasAndFunction_treeShaped (fun _ _ _ h => aliasAndFunction_module h) (by decide) hs
    (by decide) rfl rfl
  obtain ⟨d, u, sh', ids', hd, hsh', hids', hagree⟩ := hblock (by decide) (by decide)
  exact ⟨s, out, t, d, u, sh', ids', hs, hout, hd, hsh', hids',
    hagree.2 (.inl (hfound ⟨3, by decide, by decide⟩))⟩

/-- The module `fn h() {}`. -/
def emptyFunction : Builder where
  nodes := #[⟨.stmt (.block []), {}⟩, ⟨.decl (.function ⟨1, [], 0, 1, [], []⟩), {}⟩]
  symbols := { names := #["h"] }
  globals := [2]

/-- A target with an attribute. -/
def stageOnly : Builder where
  nodes := #[⟨.attr (.stage .compute), {}⟩]
  symbols := { names := #["h"] }

/-- An attribute that is put at the end of a function's empty list of attributes is in the copy of
the function and not in the copy of the list, which is taken for the list of parameters. -/
theorem copyList_loses_attribute : emptyFunction.build.TreeShaped ∧ ∃ s t d u sh sh',
    registerAll [.insert .back 2 1]
    { Session.start emptyFunction.build () with target := stageOnly } = .ok () s ∧
    emptyFunction.build.shape? 2 = some sh ∧ sh.list? .attributes = some [] ∧
    Edit.copyList (Edit.copy noHandlers) 2 [] s = .ok [] t ∧
    Edit.copy noHandlers 2 s = .ok d u ∧ u.target.shape? d = some sh' ∧
    sh'.list? .attributes = some [1] :=
  ⟨.of_check (by decide) (by decide) rfl (by decide +kernel), _, _, _, _, _, _, rfl, rfl, rfl, rfl,
    rfl, rfl, rfl⟩

end Copy
end ShaderLoom
