import ShaderLoom.Proofs.Meaning.Respelling
import ShaderLoom.Proofs.Pass.Renaming

/-! Renaming captures no names. The renamed program is the program with one symbol in place of
another, and resolution finds of every node what it found of the node that it comes from. -/
namespace ShaderLoom

namespace Rename

open Copy

variable {p q : Program} {config : RenameConfig} {symbols : List (Symbol × Symbol)}
    {origin : NodeId → NodeId}

/-- The target of a call keeps its name where resolution found a builtin function. -/
theorem keeps_target {i g : NodeId} {args : List NodeId} {s : Symbol} {e : ExprFacts}
    (hx : p.shape? i = some (.expr (.call g args))) (hs : p.shape? g = some (.expr (.ident s)))
    (hg : p.parent g = i) (he : p.facts.exprs[i]? = some e) :
    keeps p g = true ↔ e.builtin ≠ "" := by
  have hkeeps : keeps p g = (e.isCall && e.builtin != "") := by
    simp only [keeps, hs, isBuiltinTarget, hg, hx, beq_self_eq_true, Bool.true_and, Facts.call?, he]
    cases hc : e.isCall <;> simp [Option.filter, hc]
  rw [hkeeps]
  simp +contextual [ExprFacts.isCall]

/-- A builtin function's name is the target of a call. -/
theorem call_of_isBuiltinTarget {i : NodeId} (h : isBuiltinTarget p i = true) :
    ∃ args, p.shape? (p.parent i) = some (.expr (.call i args)) := by
  unfold isBuiltinTarget at h
  split at h
  · next g args hcall =>
    rw [Bool.and_eq_true, beq_iff_eq] at h
    exact ⟨args, h.1 ▸ hcall⟩
  · cases h

/-- The second program is the first one with other names. -/
structure Renames (p : Program) (config : RenameConfig) (symbols : List (Symbol × Symbol))
    (origin : NodeId → NodeId) (q : Program) : Prop where
  fit : p.Fit
  fit' : q.Fit
  tree : p.TreeShaped
  tree' : q.TreeShaped
  known : p.Known
  tracks : Tracks p config q.symbols symbols
  echoes : Program.Echoes (Named p symbols) (fun _ => False) origin p q

/-- Where the copies of nodes stand. -/
def Placed (q : Program) (origin : NodeId → NodeId) (i j : NodeId) : Prop :=
  (i = 0 ∧ j = 0) ∨ (i ≠ 0 ∧ q.inTree j = true ∧ origin j = i)

namespace Renames

variable (h : Renames p config symbols origin q)
include h

theorem placed_absent {i j : NodeId} (hij : Placed q origin i j) : i = 0 ↔ j = 0 := by
  rcases hij with ⟨rfl, rfl⟩ | ⟨hi, _, rfl⟩
  · simp
  · simp [hi, h.echoes.present hi]

theorem placed_unique : Relator.BiUnique (Placed q origin) := by
  constructor
  · rintro i j i' (⟨rfl, rfl⟩ | ⟨hi, hj, rfl⟩) hij'
    · exact ((h.placed_absent hij').2 rfl).symm
    · rcases hij' with ⟨rfl, rfl⟩ | ⟨_, _, rfl⟩
      · exact absurd rfl (h.echoes.present hi)
      · rfl
  · rintro i j j' (⟨rfl, rfl⟩ | ⟨hi, hj, rfl⟩) hij'
    · exact ((h.placed_absent hij').1 rfl).symm
    · rcases hij' with ⟨h0, _⟩ | ⟨_, hj', he⟩
      · exact absurd h0 hi
      · exact (h.echoes.injective h.tree h.fit h.fit' hj hj' hi he).symm

theorem inTree {i j : NodeId} (hij : Placed q origin i j) (hi : i ≠ 0) : p.inTree i = true := by
  obtain ⟨_, _, rfl⟩ := hij.resolve_left fun h => hi h.1
  exact (h.echoes.node j hi).1

theorem list {xs ys : List NodeId} (hl : Program.ComeLists (fun _ => False) origin xs ys)
    (hys : ∀ y ∈ ys, y ≠ 0 → q.inTree y = true) : List.Forall₂ (Placed q origin) xs ys := by
  have hall := Listed.forall₂ hl (fun _ h => h) fun _ h => h
  clear hl
  induction hall with
  | nil => exact .nil
  | cons hxy _ ih =>
    obtain ⟨hy, hys⟩ := List.forall_mem_cons.1 hys
    refine .cons (hxy.imp_right fun hxy => ?_) (ih hys)
    obtain ⟨hx, rfl⟩ := hxy
    exact ⟨hx, hy (h.echoes.present hx), rfl⟩

/-- A copy has the shape of what it comes from. -/
theorem shape {i j : NodeId} {x : Shape Symbol NodeId} (hij : Placed q origin i j)
    (hx : p.shape? i = some x) :
    ∃ y, q.shape? j = some y ∧
      Shape.Rel (Named p symbols i) (Placed q origin) (List.Forall₂ (Placed q origin)) x y := by
  obtain ⟨hi, hj, rfl⟩ := hij.resolve_left fun h0 => Arena.ne_zero_of_shape hx h0.1
  obtain ⟨_, n, m, hn, hm, hrel⟩ := h.echoes.node j hi
  have hnx : p.shape? (origin j) = some n.shape := Option.map_eq_some_iff.2 ⟨n, hn, rfl⟩
  cases hx.symm.trans hnx
  have hchild : ∀ y ∈ m.shape.slots, y ≠ 0 → q.inTree y = true := fun y hy h0 =>
    h.fit'.inTree_child hj (Arena.mem_children.2 ⟨m, hm, hy, h0⟩)
  refine ⟨m.shape, Option.map_eq_some_iff.2 ⟨m, hm, rfl⟩,
    hrel.within_both.mono (fun _ _ h => h) ?_ ?_⟩
  · rintro x y ⟨_, hy, hxy⟩
    refine hxy.imp_right fun hxy => ?_
    obtain ⟨hx, rfl⟩ := hxy
    exact ⟨hx, hchild y hy (h.echoes.present hx), rfl⟩
  · rintro xs ys ⟨_, hys, hl⟩
    exact h.list hl fun y hy => hchild y (hys y hy)

theorem globals : List.Forall₂ (Placed q origin) p.globals q.globals :=
  h.list h.echoes.globals fun _ hg _ => h.fit'.inTree_global hg

/-- A symbol that has become another one has a name, and so has the other. -/
theorem texts {s s' : Symbol} (hs : symbols.lookup s = some s') :
    p.symbols.Names s (p.nameOf s) ∧ q.symbols.Names s' (q.nameOf s') := by
  have hmem := mem_of_lookup hs
  obtain ⟨x, hx⟩ := (h.tracks.occurs _ hmem).names h.known
  obtain ⟨y, hy⟩ := h.tracks.named h.known hmem
  constructor
  · rwa [show p.nameOf s = x from hx.nameFor]
  · rwa [show q.nameOf s' = y from hy.nameFor]

theorem unique : Relator.BiUnique fun s s' => symbols.lookup s = some s' := by
  constructor
  · intro s t s' hs hs'
    have hnodup := h.tracks.values
    exact (Prod.mk.inj (List.inj_on_of_nodup_map hnodup (mem_of_lookup hs)
      (mem_of_lookup hs') rfl)).1
  · intro s t t' ht ht'
    exact Option.some.inj (ht.symm.trans ht')

theorem text {s s' r r' : Symbol} (hs : symbols.lookup s = some s')
    (hr : symbols.lookup r = some r') : p.nameOf s = p.nameOf r ↔ q.nameOf s' = q.nameOf r' := by
  obtain ⟨hs₁, hs₂⟩ := h.texts hs
  obtain ⟨hr₁, hr₂⟩ := h.texts hr
  constructor
  · intro heq
    rw [heq] at hs₁
    cases hs₁.inj hr₁
    rw [Option.some.inj (hs.symm.trans hr)]
  · intro heq
    rw [heq] at hs₂
    cases hs₂.inj hr₂
    rw [h.unique.1 hs hr]

/-- A symbol that stays has the name that it had. -/
theorem nameOf_kept {i : NodeId} {n : Node} {s : Symbol} (hi : p.inTree i = true)
    (hn : p.node? i = some n) (hs : s ∈ n.shape.names) : p.nameOf s = q.nameOf s := by
  obtain ⟨x, hx⟩ := h.known i n hi hn s hs
  exact hx.nameFor.trans (hx.extend h.tracks.more).nameFor.symm

/-- Nodes and names of either program that stand for each other. -/
def respelling : Respelling p q where
  place := Placed q origin
  name s s' := symbols.lookup s = some s'
  kept i _ := keeps p i = true
  fit := h.fit
  fit' := h.fit'
  tree := h.tree
  tree' := h.tree'
  unique := h.placed_unique
  uniqueName := h.unique
  zero := .inl ⟨rfl, rfl⟩
  inTree {i j} hij := by
    by_cases hi : i = 0
    · exact .inl ⟨hi, (h.placed_absent hij).1 hi⟩
    · exact .inr ⟨h.inTree hij hi, (hij.resolve_left fun h0 => hi h0.1).2.1⟩
  globals := h.globals
  shape {i j x} hij hx := by
    obtain ⟨y, hy, hrel⟩ := h.shape hij hx
    obtain ⟨n, hn, rfl⟩ := Option.map_eq_some_iff.1 hx
    refine ⟨y, hy, hrel.within_names.mono ?_ (fun _ _ h => h) fun _ _ h => h⟩
    rintro s t ⟨hs, _, hst⟩
    unfold Named at hst
    constructor
    · intro hk
      rw [if_pos hk] at hst
      subst hst
      exact h.nameOf_kept (h.inTree hij (Arena.ne_zero_of_shape hx)) hn hs
    · intro hk
      rwa [if_neg hk] at hst
  text := h.text
  keeps {i j} hij hk := by
    rcases keeps_cases hk with ⟨o, s, hs, _⟩ | ⟨s, hs, htarget⟩
    · exact .inl ⟨o, s, hs⟩
    · obtain ⟨args, hcall⟩ := call_of_isBuiltinTarget htarget
      have hk0 := Arena.ne_zero_of_shape hcall
      have hin := (h.fit.parent_holds hk0).2
      obtain ⟨k', hk', he⟩ :=
        (h.echoes.total (fun _ h => h) h.fit h.fit' hin).resolve_left fun hr => by
        rw [hr, h.fit.module] at hcall
        cases hcall
      have hkk : Placed q origin (p.parent i) k' := .inr ⟨hk0, hk', he⟩
      obtain ⟨y, hy, hrel⟩ := h.shape hkk hcall
      cases hrel with
      | call hg _ =>
        cases h.placed_unique.2 hij hg
        exact .inr ⟨⟨s, hs⟩, p.parent i, k', args, _, hkk, hcall, hy⟩

omit h in
theorem recorded {i : NodeId} {e : ExprFacts} (he : p.facts.table.Recorded i e) :
    ∃ e', p.facts.exprs[i]? = some e' ∧ e'.swizzle = e.swizzle ∧ e'.builtin = e.builtin := by
  obtain ⟨e', he', rfl⟩ := Option.map_eq_some_iff.1 he
  exact ⟨e', he', rfl, rfl⟩

/-- Names are kept just where they are no names of the program. -/
theorem sensible (hM : h.respelling.Scopes) : h.respelling.Sensible where
  member {i j o s e} _ hx he := by
    obtain ⟨e', he', hswizzle, _⟩ := recorded he
    change keeps p i = true ↔ _
    simp [keeps, hx, he', hswizzle]
  target {i j g g' args s e} hij hx _ hs he := by
    obtain ⟨e', he', _, hbuiltin⟩ := recorded he
    have hg := h.tree.parent (h.inTree hij (Arena.ne_zero_of_shape hx))
      (Program.mem_children_of_slot hx (by simp [Shape.slots]) (Arena.ne_zero_of_shape hs))
    rw [← hbuiltin]
    exact keeps_target hx hs hg he'
  callable {i j g g' args s s' e} hij hx hgg hs hs' he hb hnot d' hd' := by
    obtain ⟨e', he', _, hbuiltin⟩ := recorded he
    have hg := h.tree.parent (h.inTree hij (Arena.ne_zero_of_shape hx))
      (Program.mem_children_of_slot hx (by simp [Shape.slots]) (Arena.ne_zero_of_shape hs))
    have hkeeps := (keeps_target hx hs hg he').2 (hbuiltin ▸ hb)
    obtain ⟨y, hy, hrel⟩ := h.shape hgg hs
    cases hs'.symm.trans hy
    obtain ⟨n, hn, hnx⟩ := Option.map_eq_some_iff.1 hs
    obtain ⟨x, hname⟩ :=
      h.known g n (h.inTree hgg (Arena.ne_zero_of_shape hs)) hn s (by simp [hnx, Shape.names])
    obtain ⟨⟨r, d⟩, _, hr, _⟩ := Document.exists_of_forall₂ hM _ (mem_of_find? hd')
    -- What is declared under the kept name in the renamed program had this name before: no new name
    -- is kept.
    have hss : s = s' := by
      cases hrel with
      | ident hss =>
        unfold Named at hss
        rwa [if_pos hkeeps] at hss
    subst hss
    have hmem := mem_of_lookup hr
    have hrs : r = s := by
      cases hsel : selects config (p.nameOf r) with
      | true => exact absurd rfl (h.tracks.ne_new hmem hsel hname)
      | false => exact (h.tracks.kept _ hmem hsel).symm
    subst hrs
    exact h.respelling.standing.notCallable (Frame.find?_rel h.unique hM hr) hnot d' hd'

/-- What a symbol has become. -/
def becomes (symbols : List (Symbol × Symbol)) (s : Symbol) : Symbol := (symbols.lookup s).getD s

/-- Every symbol that is renamed somewhere was met. -/
theorem lookup_becomes {s : Symbol} (hs : Occurs p s) :
    symbols.lookup s = some (becomes symbols s) := by
  obtain ⟨i, n, hi, hn, hk, hmem⟩ := hs
  have hx : p.shape? i = some n.shape := by simp [Arena.shape?, hn]
  have h0 := Arena.ne_zero_of_shape hx
  obtain ⟨j, hj, he⟩ := (h.echoes.total (fun _ h => h) h.fit h.fit' hi).resolve_left fun hr => by
    rw [hr, h.fit.module] at hx
    rw [← Option.some.inj hx] at hmem
    cases hmem
  obtain ⟨y, _, hrel⟩ := h.shape (.inr ⟨h0, hj, he⟩) hx
  obtain ⟨t, _, ht⟩ := hrel.flip.mem_names s hmem
  change Named p symbols i s t at ht
  unfold Named at ht
  rw [if_neg (by simp [hk])] at ht
  rw [becomes, ht, Option.getD_some]

end Renames

/-- The second program is the first one with another symbol in place of each that is renamed: an
equal symbol stays, a selected one becomes a new one, with a name that no other symbol has. -/
structure Renaming (p : Program) (config : RenameConfig) (become : Symbol → Symbol)
    (origin : NodeId → NodeId) (q : Program) : Prop where
  tree : Program.Echoes (fun i s t => t = if keeps p i = true then s else become s)
    (fun _ => False) origin p q
  total : ∀ i, p.inTree i = true → i = p.root ∨ ∃ j, q.inTree j = true ∧ origin j = i
  once : ∀ j j', q.inTree j = true → q.inTree j' = true → origin j ≠ 0 →
    origin j' = origin j → j' = j
  injective : ∀ s r, Occurs p s → Occurs p r → become s = become r → s = r
  stays : ∀ s, Occurs p s → (become s = s ↔ selects config (p.nameOf s) = false)
  texts : ∀ i n, p.inTree i = true → p.node? i = some n → ∀ s ∈ n.shape.names,
    q.nameOf s = p.nameOf s
  fresh : ∀ s, Occurs p s → selects config (p.nameOf s) = true →
    q.nameOf (become s) ∉ p.symbols.names.toList
  apart : ∀ s r, Occurs p s → Occurs p r → s ≠ r → q.nameOf (become s) ≠ q.nameOf (become r)

/-- The pairs are the names that symbols had and have, of the renamed symbols and no others. -/
structure Remaps (p : Program) (config : RenameConfig) (become : Symbol → Symbol) (q : Program)
    (pairs : List (String × String)) : Prop where
  graph : ∀ x, x ∈ pairs ↔ ∃ s, Occurs p s ∧ selects config (p.nameOf s) = true ∧
    x = (p.nameOf s, q.nameOf (become s))
  once : (pairs.map Prod.fst).Nodup

/-- Resolution finds of a node what it finds of the node that it comes from. -/
structure ResolvesAlike (p q : Program) (origin : NodeId → NodeId) (i j : NodeId) : Prop where
  referent : Option.Rel (fun v w => Program.Comes origin v.decl w.decl) (p.facts.variableOf i)
    (q.facts.variableOf j)
  target : Option.Rel (Program.Comes origin) (p.facts.exprs[i]?.bind (·.target))
    (q.facts.exprs[j]?.bind (·.target))
  builtin : p.facts.exprs[i]?.map (·.builtin) = q.facts.exprs[j]?.map (·.builtin)
  member : Option.Rel (fun m n => Program.Comes origin m.decl n.decl) (p.facts.member? i)
    (q.facts.member? j)
  swizzle : p.facts.exprs[i]?.map (·.swizzle) = q.facts.exprs[j]?.map (·.swizzle)

namespace Renames

variable (h : Renames p config symbols origin q)
include h

theorem becomes_renaming : Renaming p config (becomes symbols) origin q where
  tree := by
    refine ⟨fun k hk => ?_, h.echoes.traced, h.echoes.globals⟩
    obtain ⟨hi, n, m, hn, hm, hrel⟩ := h.echoes.node k hk
    refine ⟨hi, n, m, hn, hm, hrel.mono (fun s t hst => ?_) (fun _ _ h => h) fun _ _ h => h⟩
    unfold Named at hst
    split at hst
    · next hkeeps => rw [if_pos hkeeps, hst]
    · next hkeeps => rw [if_neg hkeeps, becomes, hst, Option.getD_some]
  total _ hi := h.echoes.total (fun _ h => h) h.fit h.fit' hi
  once _ _ hj hj' h0 he := h.echoes.injective h.tree h.fit h.fit' hj hj' h0 he
  injective s r hs hr heq := h.unique.1 (h.lookup_becomes hs) (heq ▸ h.lookup_becomes hr)
  stays s hs := by
    have hmem := mem_of_lookup (h.lookup_becomes hs)
    obtain ⟨x, hx⟩ := hs.names h.known
    cases hsel : selects config (p.nameOf s) with
    | true => simpa using h.tracks.ne_new hmem hsel hx
    | false => simpa using h.tracks.kept _ hmem hsel
  texts i n hi hn s hs := (h.nameOf_kept hi hn hs).symm
  fresh s hs hsel := by
    obtain ⟨name, hname, hnot, _⟩ := h.tracks.fresh _ (mem_of_lookup (h.lookup_becomes hs)) hsel
    rwa [show q.nameOf (becomes symbols s) = name from hname.nameFor]
  apart s r hs hr hne heq := by
    refine hne (((h.texts (h.lookup_becomes hs)).1).inj ?_)
    rw [(h.text (h.lookup_becomes hs) (h.lookup_becomes hr)).2 heq]
    exact (h.texts (h.lookup_becomes hr)).1

theorem remaps : Remaps p config (becomes symbols) q (renamed p config q.symbols symbols) where
  graph x := by
    simp only [renamed, List.mem_map, List.mem_filter]
    constructor
    · rintro ⟨y, ⟨hy, hsel⟩, rfl⟩
      have hs := h.tracks.occurs y hy
      have hmem := mem_of_lookup (h.lookup_becomes hs)
      have hty : (y.1, becomes symbols y.1) = y :=
        List.inj_on_of_nodup_map h.tracks.keys hmem hy rfl
      exact ⟨y.1, hs, hsel, Prod.ext rfl (congrArg q.nameOf (congrArg Prod.snd hty).symm)⟩
    · rintro ⟨s, hs, hsel, rfl⟩
      exact ⟨(s, becomes symbols s), ⟨mem_of_lookup (h.lookup_becomes hs), hsel⟩, rfl⟩
  once := by
    simp only [renamed, List.map_map]
    refine List.Nodup.map_on (fun x hx y hy heq => ?_)
      ((List.Nodup.of_map _ h.tracks.keys).filter _)
    have hx' := (List.mem_filter.1 hx).1
    have hy' := (List.mem_filter.1 hy).1
    obtain ⟨a, ha⟩ := (h.tracks.occurs x hx').names h.known
    obtain ⟨c, hc⟩ := (h.tracks.occurs y hy').names h.known
    have hac : a = c := ha.nameFor.symm.trans (Eq.trans heq hc.nameFor)
    subst hac
    exact List.inj_on_of_nodup_map h.tracks.keys hx' hy' (ha.inj hc)

end Renames

variable {b b' : Builder}

/-- Everything in the renamed program resolves to what corresponds. -/
theorem Renames.resolves (h : Renames b.build config symbols origin b'.build)
    (hv : b.build.valid = true) (hb : b.Fit) (hb' : b'.Fit)
    (herrors : b'.diagnostics.hasErrors = false) :
    b'.build.valid = true ∧
      (∀ i j, i ≠ 0 → b'.build.inTree j = true → origin j = i →
        ResolvesAlike b.build b'.build origin i j) ∧
      ∀ s, Occurs b.build s → Option.Rel (Program.Comes origin) (b.build.scene.module.find? s)
        (b'.build.scene.module.find? (becomes symbols s)) := by
  obtain ⟨_, hM⟩ :=
    h.respelling.scopes (congrArg Prod.snd (Program.recorded_build hv hb h.tree).2.names)
  have hR := h.sensible hM
  obtain ⟨hvalid, _, hvars⟩ := Respelling.follows hR hv hb hb' herrors
  have hcomes : ∀ {i j}, Placed b'.build origin i j → Program.Comes origin i j :=
    fun hij => hij.imp_right fun h => ⟨h.1, h.2.2⟩
  refine ⟨hvalid, fun i j h0 hj he => ?_, fun s hs => ?_⟩
  · have hsenses := Respelling.resolves hR hv hb hb' herrors (i := i) (j := j) (.inr ⟨h0, hj, he⟩)
    have hvar : ∀ n : VariableId,
        Option.Rel (fun v w => Program.Comes origin v.decl w.decl) b.build.facts.vars[n]?
        b'.build.facts.vars[n]? := by
      intro n
      have hn := hvars n
      simp only [Facts.table] at hn
      generalize b.build.facts.vars[n]? = v at hn
      generalize b'.build.facts.vars[n]? = w at hn
      cases v <;> cases w <;> cases hn
      · exact .none
      · next hvw => exact .some (hcomes hvw)
    simp only [Facts.table] at hsenses
    generalize hx : b.build.facts.exprs[i]? = x at hsenses
    generalize hy : b'.build.facts.exprs[j]? = y at hsenses
    cases x <;> cases y <;> cases hsenses
    · constructor <;> simp [Facts.variableOf, Facts.member?, hx, hy]
    · next e e' ha =>
      refine ⟨?_, ?_, ?_, ?_, ?_⟩
      · simp only [Facts.variableOf, hx, hy, Option.bind_some]
        rw [show e.variableId = e'.variableId from ha.variableId]
        cases e'.variableId with
        | none => exact .none
        | some n => exact hvar n
      · simpa [hx, hy] using rel_imp ha.target fun _ _ h => hcomes h
      · simpa [hx, hy] using ha.builtin
      · simpa [Facts.member?, hx, hy] using rel_imp ha.member fun _ _ h => hcomes h
      · simpa [hx, hy] using ha.swizzle
  · exact rel_imp (Frame.find?_rel h.unique hM (h.lookup_becomes hs)) fun _ _ h => hcomes h.1

/-- The pass copies the program by the account of the configuration. -/
theorem work_copies {inputs : Data} (hconfig : (inputs.get? .renaming).getD {} = config)
    {s : Session Keep Unit} (hs : Edit.copyModule (Edit.copy act) (base p config) = .ok () s) :
    work p inputs (Session.start p ()) =
    .ok (Exchange.put {} .renamed (renamed p config s.target.symbols s.symbols)) s := by
  subst hconfig
  have hedit : ∀ {x : Edit Keep Unit Unit}, x (Session.start p ()) = .ok () s →
      Work.edit x (Session.start p ()) = .ok () s := by
    intro x hx
    simp only [Work.edit, hx]
  unfold work
  simp only [bind, EStateM.bind]
  rw [hedit]
  · rfl
  · exact hs

/-- Renaming succeeds, and its result is the program with other names. -/
theorem apply_respells (hb : b.Fit) (hk : b.build.Known) (hc : b.build.Counted)
    (hv : b.build.valid = true) {inputs : Data}
    (hconfig : (inputs.get? .renaming).getD {} = config) :
    ∃ (t : Builder) (symbols : List (Symbol × Symbol)) (origin : NodeId → NodeId),
      pass.apply b.build inputs =
      .ok ⟨t.build, Exchange.put {} .renamed (renamed b.build config t.symbols symbols)⟩ ∧ t.Fit ∧
      t.diagnostics.hasErrors = false ∧ Renames b.build config symbols origin t.build := by
  have hp := hb.build
  obtain ⟨s, origin, hs, hcopied, hfit, hqc, hqk, hdiagnostics, htracks, hechoes⟩ :=
    copyModule_echoes hp hk config
  have hrun : pass.run b.build inputs =
      { outputs := Exchange.put {} .renamed (renamed b.build config s.target.symbols s.symbols),
        ending := .finished s.target s.copied } := by
    simp only [pass, Work.perform, work_copies hconfig hs]
  have herrors : s.target.diagnostics.hasErrors = false := by
    rw [hdiagnostics]
    simp only [Program.valid, Diagnostics.hasErrors, Bool.not_eq_true', List.any_eq_false] at hv ⊢
    exact fun d hd => hv d (List.mem_filter.1 hd).1
  refine ⟨s.target, s.symbols,
    origin, by simp [Pass.apply, Result.outcome, hv, hrun, hcopied], hfit, herrors, ?_⟩
  exact ⟨hp, hfit.build, hp.treeShaped hc, hfit.build.treeShaped hqc, hk, htracks, hechoes⟩

/-- Renaming captures no names: it succeeds, its result is valid and is the program with one symbol
in place of another, everything in it resolves to what corresponds, and what it tells are the
symbols that it renamed. -/
theorem apply_renames {m : Document.Module} (h : m.decode = .ok p) (hv : p.valid = true)
    {inputs : Data} (hconfig : (inputs.get? .renaming).getD {} = config) :
    ∃ q origin become pairs, pass.apply p inputs = .ok ⟨q, Exchange.put {} .renamed pairs⟩ ∧
      q.valid = true ∧
      Renaming p config become origin q ∧ Remaps p config become q pairs ∧
      (∀ i j, i ≠ 0 → q.inTree j = true → origin j = i → ResolvesAlike p q origin i j) ∧
      ∀ s, Occurs p s →
        Option.Rel (Program.Comes origin) (p.scene.module.find? s)
        (q.scene.module.find? (become s)) := by
  obtain ⟨b, hgood, hknown, _, _, rfl⟩ := Document.decode_good h
  have hcounted : b.build.Counted := fun x hx => by
    simpa [Arena.held, Builder.held, Builder.build, Shape.slots] using hgood.once trivial x hx
  obtain ⟨t, symbols, origin, happly, hfit, herrors, hrenames⟩ :=
    apply_respells hgood.toFit hknown.build hcounted hv hconfig
  obtain ⟨hvalid, hresolves, hscopes⟩ := hrenames.resolves hv hgood.toFit hfit herrors
  exact ⟨t.build, origin, Renames.becomes symbols, _, happly, hvalid, hrenames.becomes_renaming,
    hrenames.remaps, hresolves, hscopes⟩

/-- The structure `x` with a member `x`, and
`fn f(max : vec2<i32>) -> i32 { return max(max.x, x(1).x); }`. -/
def overloaded : Document.Module where
  globals := [
    some { kind := "Struct", name := "x", members := [
      some { kind := "StructMember", name := "x", type := some { kind := "I32" } }] },
    some { kind := "Function", name := "f", returnType := some { kind := "I32" }
           params := [some { kind := "Parameter", name := "max"
                             type := some { kind := "Vector", elem := some { kind := "I32" }
                                            width := 2 } }]
           body := some { kind := "Block", statements := [
             some { kind := "Return"
                    expr := some { kind := "Call", target := some { kind := "Ident", name := "max" }
                                   args := [some selected, some made] } }] } }]
where
  selected : Document.Record :=
    { kind := "Member", name := "x", object := some { kind := "Ident", name := "max" } }
  made : Document.Record :=
    { kind := "Member", name := "x"
      object := some { kind := "Call", target := some { kind := "Ident", name := "x" }
                       args := [some { kind := "IntLiteral", int := some 1 }] } }

theorem apply_renames_overloaded : ∃ p q origin become pairs, overloaded.decode = .ok p ∧
    (p.ids.filter (keeps p)).length = 2 ∧
    pass.apply p {} = .ok ⟨q, Exchange.put {} .renamed pairs⟩ ∧ q.valid = true ∧
    Renaming p {} become origin q ∧ Remaps p {} become q pairs := by
  have hok : (overloaded.decode.toOption.any fun p => p.valid && (p.ids.filter (keeps p)).length ==
    2) = true := by
    decide +kernel
  cases hp : overloaded.decode with
  | error e => simp [hp, Except.toOption] at hok
  | ok p =>
    simp only [hp, Except.toOption, Option.any_some, Bool.and_eq_true, beq_iff_eq] at hok
    obtain ⟨q, origin, become, pairs, happly, hvalid, hrenaming, hremaps, _⟩ :=
      apply_renames hp hok.1 (show (({} : Data).get? .renaming).getD {} = {} from rfl)
    exact ⟨p, q, origin, become, pairs, rfl, hok.2, happly, hvalid, hrenaming, hremaps⟩

end Rename
end ShaderLoom
