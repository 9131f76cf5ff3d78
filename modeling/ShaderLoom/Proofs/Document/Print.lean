import ShaderLoom.Proofs.Document.Mirror

/-! Alike nodes have the same text in every place. A node takes up to four places before its
children are printed, which is what the fuel of the printer allows for. -/
namespace ShaderLoom.Print

open Arena

variable {a b : Arena} {R : NodeId → NodeId → Prop}

/-- Shapes of alike nodes. -/
abbrev Alike (a b : Arena) (R : NodeId → NodeId → Prop) :
    Shape Symbol NodeId → Shape Symbol NodeId → Prop :=
  Shape.Rel (fun s t => a.nameOf s = b.nameOf t) R (List.Forall₂ R)

theorem zero_iff (hR : a.Mirrors b R) {i j : NodeId} (h : R i j) : i = 0 ↔ j = 0 := by
  rcases hR i j h with ⟨hi, hj⟩ | ⟨n, m, hn, hm, _⟩
  · simp [hi, hj]
  · have hi := (range_of_node? hn).1
    have hj := (range_of_node? hm).1
    grind

section Texts

variable {i j : NodeId} {child child' : NodeId → String}

/-- Children, and children of children, below a pair of nodes have the same texts. -/
def Below (R : NodeId → NodeId → Prop) (i j : NodeId) (child child' : NodeId → String) : Prop :=
  ∀ c d, R c d → c < i → d < j → child c = child' d

theorem Below.list (h : Below R i j child child') {cs ds : List NodeId} (hl : List.Forall₂ R cs ds)
    (hc : ∀ c ∈ cs, c < i) (hd : ∀ d ∈ ds, d < j) : cs.map child = ds.map child' :=
  map_eq_of_forall₂ hl fun c hcm d hdm hcd => h c d hcd (hc c hcm) (hd d hdm)

theorem Below.commaList (h : Below R i j child child') (hR : a.Mirrors b R) {cs ds : List NodeId}
    (hl : List.Forall₂ R cs ds) (hc : ∀ c ∈ cs, c < i) (hd : ∀ d ∈ ds, d < j) :
    Print.commaList child cs = Print.commaList child' ds := by
  have hf : List.Forall₂ R (cs.filter (· != 0)) (ds.filter (· != 0)) := by
    clear hc hd
    induction hl with
    | nil => exact .nil
    | @cons c d cs ds hcd _ ih =>
      have := zero_iff hR hcd
      by_cases h0 : c = 0
      · simpa [h0, this.1 h0] using ih
      · have h1 : d ≠ 0 := fun hd => h0 (this.2 hd)
        simpa [h0, h1] using List.Forall₂.cons hcd ih
  rw [Print.commaList, Print.commaList, h.list hf]
  · exact fun c hcm => hc c (List.mem_of_mem_filter hcm)
  · exact fun d hdm => hd d (List.mem_of_mem_filter hdm)

theorem Below.attributeList (h : Below R i j child child') {cs ds : List NodeId}
    (hl : List.Forall₂ R cs ds) (hc : ∀ c ∈ cs, c < i) (hd : ∀ d ∈ ds, d < j) (trail : String) :
    Print.attributeList child cs trail = Print.attributeList child' ds trail := by
  have he : cs.isEmpty = ds.isEmpty := by cases hl <;> rfl
  rw [Print.attributeList, Print.attributeList, he, h.list hl hc hd]

theorem Below.exprText (h : Below R i j child child') (hR : a.Mirrors b R)
    {e e' : ExprShape Symbol NodeId} (hrel : Alike a b R (.expr e) (.expr e'))
    (hc : ∀ c ∈ (Shape.expr e : Shape Symbol NodeId).slots, c < i)
    (hd : ∀ d ∈ (Shape.expr e' : Shape Symbol NodeId).slots, d < j) :
    Print.exprText a child e = Print.exprText b child' e' := by
  cases hrel with
  | ident hn => exact hn
  | binary hl hr =>
    simp only [Shape.slots, List.mem_cons, List.not_mem_nil, or_false, forall_eq_or_imp, forall_eq]
      at hc hd
    simp only [Print.exprText, h _ _ hl hc.1 hd.1, h _ _ hr hc.2 hd.2]
  | unary he =>
    simp only [Shape.slots, List.mem_cons, List.not_mem_nil, or_false, forall_eq] at hc hd
    simp only [Print.exprText, h _ _ he hc hd]
  | call ht has =>
    simp only [Shape.slots, List.mem_cons, forall_eq_or_imp] at hc hd
    simp only [Print.exprText, h _ _ ht hc.1 hd.1, h.commaList hR has hc.2 hd.2]
  | index ho hi =>
    simp only [Shape.slots, List.mem_cons, List.not_mem_nil, or_false, forall_eq_or_imp, forall_eq]
      at hc hd
    simp only [Print.exprText, h _ _ ho hc.1 hd.1, h _ _ hi hc.2 hd.2]
  | member ho hn =>
    simp only [Shape.slots, List.mem_cons, List.not_mem_nil, or_false, forall_eq] at hc hd
    simp only [Print.exprText, h _ _ ho hc hd, hn]
  | int | float | boolean => rfl

theorem Below.typeText (h : Below R i j child child') {t t' : TypeShape Symbol NodeId}
    (hrel : Alike a b R (.type t) (.type t'))
    (hc : ∀ c ∈ (Shape.type t : Shape Symbol NodeId).slots, c < i)
    (hd : ∀ d ∈ (Shape.type t' : Shape Symbol NodeId).slots, d < j) :
    Print.typeText a child t = Print.typeText b child' t' := by
  cases hrel with
  | named hn => exact hn
  | vector he | matrix he | array he | sampledTexture he =>
    simp only [Shape.slots, List.mem_cons, List.not_mem_nil, or_false, forall_eq] at hc hd
    simp only [Print.typeText, h _ _ he hc hd]
  | bool | i32 | u32 | f32 | sampler | externalTexture => rfl

theorem Below.attrText (h : Below R i j child child') (hR : a.Mirrors b R) {x x' : AttrShape NodeId}
    (hrel : Alike a b R (.attr x) (.attr x'))
    (hc : ∀ c ∈ (Shape.attr x : Shape Symbol NodeId).slots, c < i)
    (hd : ∀ d ∈ (Shape.attr x' : Shape Symbol NodeId).slots, d < j) :
    Print.attrText child x = Print.attrText child' x' := by
  cases hrel with
  | workgroup hx hy hz =>
    have hsizes := h.commaList hR (.cons hx (.cons hy (.cons hz .nil))) hc hd
    exact congrArg (fun text => "@workgroup_size(" ++ text ++ ")") hsizes
  | stage | builtin | location | group | binding | id => rfl

/-- Alike variables have the same text as declarations and as parameters. -/
theorem Below.variableText (h : Below R i j child child') (hR : a.Mirrors b R)
    {v v' : VariableShape Symbol NodeId} (hrel : Alike a b R (.decl (.value v)) (.decl (.value v')))
    (hc : ∀ c ∈ (Shape.decl (.value v) : Shape Symbol NodeId).slots, c < i)
    (hd : ∀ d ∈ (Shape.decl (.value v') : Shape Symbol NodeId).slots, d < j) :
    Print.variableText a child v = Print.variableText b child' v' ∧
      Print.attributeList child v.attributes " " ++ a.nameOf v.name ++ " : " ++ child v.type =
        Print.attributeList child' v'.attributes " " ++ b.nameOf v'.name ++ " : " ++
        child' v'.type := by
  cases hrel with
  | value hn ht hi has =>
    simp only [Shape.slots, List.mem_append, List.mem_cons, List.not_mem_nil, or_false] at hc hd
    have hattr := h.attributeList has (fun c hm => hc c (.inl hm)) (fun d hm => hd d (.inl hm)) " "
    have htype := h _ _ ht (hc _ (by simp)) (hd _ (by simp))
    have hinit := h _ _ hi (hc _ (by simp)) (hd _ (by simp))
    simp only [Print.variableText, hattr, hn, htype, hinit, ne_eq, zero_iff hR ht, zero_iff hR hi,
      and_self]

/-- Alike nodes are variables together. -/
theorem asVariable?_cases (hR : a.Mirrors b R) {c d : NodeId} (h : R c d) :
    (a.asVariable? c = none ∧ b.asVariable? d = none) ∨ ∃ v v' n m, a.asVariable? c = some v ∧
      b.asVariable? d = some v' ∧ a.node? c = some n ∧ b.node? d = some m ∧
      n.shape = .decl (.value v) ∧ m.shape = .decl (.value v') ∧
      Alike a b R (.decl (.value v)) (.decl (.value v')) := by
  rcases hR c d h with ⟨rfl, rfl⟩ | ⟨n, m, hn, hm, _, hrel⟩
  · exact .inl ⟨rfl, rfl⟩
  · simp only [asVariable?, shape?, hn, hm, Option.map_some, Option.bind_some]
    generalize hs : n.shape = s at hrel
    generalize ht : m.shape = t at hrel
    cases hrel with
    | value h₁ h₂ h₃ h₄ =>
      exact .inr ⟨_, _, n, m, rfl, rfl, rfl, rfl, hs, ht, .value h₁ h₂ h₃ h₄⟩
    | _ => exact .inl ⟨rfl, rfl⟩

theorem Below.parameterText (h : Below R i j child child') (ha : a.Ordered) (hb : b.Ordered)
    (hR : a.Mirrors b R) {c d : NodeId} (hcd : R c d) (hc : c < i) (hd : d < j) :
    Print.parameterText a child c = Print.parameterText b child' d := by
  unfold Print.parameterText
  rcases asVariable?_cases hR hcd with ⟨hv, hv'⟩ | ⟨v, v', n, m, hv, hv', hn, hm, hs, ht, hrel⟩
  · simp only [hv, hv']
  · simp only [hv, hv']
    refine (h.variableText hR hrel (fun x hx => ?_) fun y hy => ?_).2
    · exact Nat.lt_trans (ha c n hn x (hs ▸ hx)) hc
    · exact Nat.lt_trans (hb d m hm y (ht ▸ hy)) hd

theorem Below.functionHead (h : Below R i j child child') (ha : a.Ordered) (hb : b.Ordered)
    (hR : a.Mirrors b R) {f f' : FunctionShape Symbol NodeId}
    (hrel : Alike a b R (.decl (.function f)) (.decl (.function f')))
    (hc : ∀ c ∈ (Shape.decl (.function f) : Shape Symbol NodeId).slots, c < i)
    (hd : ∀ d ∈ (Shape.decl (.function f') : Shape Symbol NodeId).slots, d < j) :
    Print.functionHead a child f = Print.functionHead b child' f' := by
  cases hrel with
  | function hn hps hr hbody has hras =>
    simp only [Shape.slots, List.mem_append, List.mem_cons, List.not_mem_nil, or_false] at hc hd
    have hattr := h.attributeList has (fun c hm => hc c (by simp [hm]))
      (fun d hm => hd d (by simp [hm])) "\n"
    have hrattr :=
      h.attributeList hras (fun c hm => hc c (by simp [hm])) (fun d hm => hd d (by simp [hm])) " "
    have hret := h _ _ hr (hc _ (by simp)) (hd _ (by simp))
    have hparams := map_eq_of_forall₂ (f := Print.parameterText a child)
      (g := Print.parameterText b child') hps fun c hm d hm' hcd =>
        h.parameterText ha hb hR hcd (hc c (by simp [hm])) (hd d (by simp [hm']))
    simp only [Print.functionHead, hattr, hrattr, hret, hparams, hn, ne_eq, zero_iff hR hr]

theorem Below.simpleText (h : Below R i j child child') (ha : a.Ordered) (hb : b.Ordered)
    (hR : a.Mirrors b R) {s s' : StmtShape NodeId} (hrel : Alike a b R (.stmt s) (.stmt s'))
    (hc : ∀ c ∈ (Shape.stmt s : Shape Symbol NodeId).slots, c < i)
    (hd : ∀ d ∈ (Shape.stmt s' : Shape Symbol NodeId).slots, d < j) :
    Print.simpleText a child s = Print.simpleText b child' s' := by
  cases hrel with
  | varDecl hv =>
    simp only [Shape.slots, List.mem_cons, List.not_mem_nil, or_false, forall_eq] at hc hd
    simp only [Print.simpleText]
    rcases asVariable?_cases hR hv with ⟨hv, hv'⟩ | ⟨v, v', n, m, hv, hv', hn, hm, hs, ht, hrel⟩
    · simp only [hv, hv', Option.elim_none]
    · simp only [hv, hv', Option.elim_some, Option.some.injEq]
      refine (h.variableText hR hrel (fun x hx => ?_) fun y hy => ?_).1
      · exact Nat.lt_trans (ha _ n hn x (hs ▸ hx)) hc
      · exact Nat.lt_trans (hb _ m hm y (ht ▸ hy)) hd
  | assign hl hr =>
    simp only [Shape.slots, List.mem_cons, List.not_mem_nil, or_false, forall_eq_or_imp, forall_eq]
      at hc hd
    simp only [Print.simpleText, h _ _ hl hc.1 hd.1, h _ _ hr hc.2 hd.2]
  | increment hl =>
    simp only [Shape.slots, List.mem_cons, List.not_mem_nil, or_false, forall_eq] at hc hd
    simp only [Print.simpleText, h _ _ hl hc hd]
  | callStatement he =>
    simp only [Shape.slots, List.mem_cons, List.not_mem_nil, or_false, forall_eq] at hc hd
    simp only [Print.simpleText, h _ _ he hc hd]
  | ret hv =>
    simp only [Shape.slots, List.mem_cons, List.not_mem_nil, or_false, forall_eq] at hc hd
    simp only [Print.simpleText, h _ _ hv hc hd, ne_eq, zero_iff hR hv]
  | _ => rfl

end Texts

/-- Alike nodes are blocks together. -/
theorem block?_cases (hR : a.Mirrors b R) {c d : NodeId} (h : R c d) :
    List.Forall₂ R ((a.block? c).getD []) ((b.block? d).getD []) := by
  rcases hR c d h with ⟨rfl, rfl⟩ | ⟨n, m, hn, hm, _, hrel⟩
  · exact .nil
  · simp only [block?, shape?, hn, hm, Option.map_some, Option.bind_some]
    generalize n.shape = s at hrel
    generalize m.shape = t at hrel
    cases hrel with
    | block hss => exact hss
    | _ => exact .nil

theorem mem_block? {a : Arena} {c x : NodeId} (ha : a.Ordered) (h : x ∈ (a.block? c).getD []) :
    x < c := by
  cases hn : a.node? c with
  | none => simp [block?, shape?, hn] at h
  | some n =>
    refine ha c n hn x ?_
    simp only [block?, shape?, hn, Option.map_some, Option.bind_some] at h
    unfold Shape.block? at h
    split at h
    · next hs => simpa [hs, Shape.slots] using h
    · simp at h

/-- Statements that are printed without their line. -/
def inLine : StmtShape NodeId → Bool
  | .varDecl _ | .assign _ _ | .increment _ _ | .callStatement _ | .ret _ | .breakLoop
    | .continueLoop
  | .discard => true
  | _ => false

theorem isSome_simpleText (a : Arena) (child : NodeId → String) (s : StmtShape NodeId) :
    (simpleText a child s).isSome = inLine s := by
  cases s <;> rfl

/-- How many places a node takes from a place on. -/
def places : Place → Option (Shape Symbol NodeId) → Nat
  | .node, some (.decl (.value _)) => 1
  | .node, some (.decl _) => 2
  | .node, some (.stmt s) => if inLine s then 2 else 3
  | .node, _ => 1
  | .header, some (.stmt s) => if inLine s then 1 else 4
  | .header, some (.decl (.value _)) => 2
  | .header, some (.decl _) => 3
  | .header, some _ => 2
  | .header, none => 1
  | .block, _ => 1
  | .ifChain, _ => 1
  | .line, some (.stmt (.forLoop _ _ _ _)) => 1
  | .line, some (.stmt (.whileLoop _ _)) => 1
  | .line, some (.stmt (.loop _ _)) => 1
  | .line, some (.stmt _) => 2
  | .line, some (.decl (.value _)) => 3
  | .line, some (.decl _) => 4
  | .line, some _ => 3
  | .line, none => 2
  | .global, some (.decl _) => 1
  | .global, some (.stmt s) => if inLine s then 3 else 4
  | .global, _ => 2

theorem places_le (p : Place) (s : Option (Shape Symbol NodeId)) :
    1 ≤ places p s ∧ places p s ≤ 4 := by
  unfold places
  split <;> (try split) <;> omega

section Families

variable {u : Shape Symbol NodeId}

theorem alike_type {t : TypeShape Symbol NodeId} (h : Alike a b R (.type t) u) :
    ∃ t', u = .type t' := by
  cases h <;> exact ⟨_, rfl⟩

theorem alike_expr {e : ExprShape Symbol NodeId} (h : Alike a b R (.expr e) u) :
    ∃ e', u = .expr e' := by
  cases h <;> exact ⟨_, rfl⟩

theorem alike_stmt {s : StmtShape NodeId} (h : Alike a b R (.stmt s) u) :
    ∃ s', u = .stmt s' ∧ inLine s' = inLine s := by
  cases h <;> exact ⟨_, rfl, rfl⟩

theorem alike_attr {x : AttrShape NodeId} (h : Alike a b R (.attr x) u) : ∃ x', u = .attr x' := by
  cases h <;> exact ⟨_, rfl⟩

theorem alike_decl {d : DeclShape Symbol NodeId} (h : Alike a b R (.decl d) u) :
    ∃ d', u = .decl d' := by
  cases h <;> exact ⟨_, rfl⟩

end Families

/-- A node takes as many places as one that looks like it. -/
theorem places_eq {s t : Shape Symbol NodeId} (h : Alike a b R s t) (p : Place) :
    places p (some s) = places p (some t) := by
  cases h <;> cases p <;> rfl

section Places

/-! One place at a time, over subtexts that agree on the children and on the places yet to be
taken. -/

variable {style : Style} {sub sub' : Place → Nat → NodeId → String} {level : Nat} {i j : NodeId}
variable {s t : Shape Symbol NodeId} {place : Place}

/-- Two nodes of two arenas that look alike, and their subtexts: those below them agree, and those
of the nodes themselves in the places that come after `place`. -/
structure Twins (a b : Arena) (R : NodeId → NodeId → Prop)
    (sub sub' : Place → Nat → NodeId → String) (place : Place) (i j : NodeId)
    (s t : Shape Symbol NodeId) : Prop where
  first : a.Ordered
  second : b.Ordered
  mirrors : a.Mirrors b R
  shape : a.shape? i = some s
  shape' : b.shape? j = some t
  alike : Alike a b R s t
  slots : ∀ c ∈ s.slots, c < i
  slots' : ∀ d ∈ t.slots, d < j
  below : ∀ place level, Below R i j (sub place level) (sub' place level)
  same : ∀ later level, places later (some s) < places place (some s) →
    sub later level i = sub' later level j

theorem Twins.nodeText (h : Twins a b R sub sub' .node i j s t) :
    Print.nodeText a sub level i = Print.nodeText b sub' level j := by
  have hchild := h.below .node level
  have hrel := h.alike
  have hc := h.slots
  have hd := h.slots'
  simp only [Print.nodeText, h.shape, h.shape']
  cases s with
  | type u =>
    obtain ⟨u', rfl⟩ := alike_type hrel
    exact hchild.typeText hrel hc hd
  | expr e =>
    obtain ⟨e', rfl⟩ := alike_expr hrel
    exact hchild.exprText h.mirrors hrel hc hd
  | attr x =>
    obtain ⟨x', rfl⟩ := alike_attr hrel
    exact hchild.attrText h.mirrors hrel hc hd
  | stmt s =>
    obtain ⟨s', rfl, hline⟩ := alike_stmt hrel
    simp only [isSome_simpleText, hline]
    split
    · next hl => exact h.same .header level (by simp [places, hl])
    · next hl =>
      refine h.same .line level ?_
      cases s <;> first | exact absurd rfl hl | simp [places, inLine]
  | decl d =>
    cases hrel with
    | value h₁ h₂ h₃ h₄ => exact (hchild.variableText h.mirrors (.value h₁ h₂ h₃ h₄) hc hd).1
    | function | struct | typeAlias => exact h.same .global level (by simp [places])
  | structMember | module =>
    cases hrel
    rfl

theorem Twins.headerText (h : Twins a b R sub sub' .header i j s t) :
    Print.headerText a sub level i = Print.headerText b sub' level j := by
  simp only [Print.headerText, h.shape, h.shape']
  have hrel := h.alike
  cases s with
  | stmt s =>
    obtain ⟨s', rfl, hline⟩ := alike_stmt hrel
    have htext := (h.below .node level).simpleText h.first h.second h.mirrors hrel h.slots h.slots'
    simp only [htext]
    cases ho : Print.simpleText b (sub' .node level) s' with
    | some text => rfl
    | none =>
      have hl := isSome_simpleText b (sub' .node level) s'
      rw [ho, hline] at hl
      exact h.same .node level (by simp [places, ← hl])
  | type u =>
    obtain ⟨u', rfl⟩ := alike_type hrel
    exact h.same .node level (by simp [places])
  | expr e =>
    obtain ⟨e', rfl⟩ := alike_expr hrel
    exact h.same .node level (by simp [places])
  | attr x =>
    obtain ⟨x', rfl⟩ := alike_attr hrel
    exact h.same .node level (by simp [places])
  | decl d =>
    obtain ⟨d', rfl⟩ := alike_decl hrel
    exact h.same .node level (by cases d <;> simp [places])
  | structMember | module =>
    cases hrel
    exact h.same .node level (by simp [places])

theorem Twins.mapBlock (h : Twins a b R sub sub' place i j s t) (level : Nat) {c d : NodeId}
    (hcd : R c d) (hc : c ≤ i) (hd : d ≤ j) : ((a.block? c).getD []).map (sub .line (level + 1)) =
      ((b.block? d).getD []).map (sub' .line (level + 1)) :=
  map_eq_of_forall₂ (block?_cases h.mirrors hcd) fun x hx y hy hxy =>
    h.below .line (level + 1) x y hxy (Nat.lt_of_lt_of_le (mem_block? h.first hx) hc)
      (Nat.lt_of_lt_of_le (mem_block? h.second hy) hd)

theorem Twins.blockText (h : Twins a b R sub sub' place i j s t) (hij : R i j) :
    Print.blockText a style sub level i = Print.blockText b style sub' level j := by
  simp only [Print.blockText, h.mapBlock level hij (Nat.le_refl i) (Nat.le_refl j)]

/-- What is printed after a conditional's body depends on whether it is a conditional itself. -/
theorem Twins.elseText (h : Twins a b R sub sub' place i j s t) {c d : NodeId} (hcd : R c d)
    (hc : c < i) (hd : d < j) : Print.elseText a sub level c = Print.elseText b sub' level d := by
  have hchain := h.below .ifChain level c d hcd hc hd
  have hblock := h.below .block level c d hcd hc hd
  simp only [Print.elseText, zero_iff h.mirrors hcd]
  split
  · rfl
  · next h0 =>
    rcases h.mirrors c d hcd with ⟨_, rfl⟩ | ⟨⟨u, _⟩, ⟨v, _⟩, hx, hy, _, hrel⟩
    · exact absurd rfl h0
    · simp only [Arena.shape?, hx, hy, Option.map_some, hchain, hblock]
      cases hrel <;> rfl

theorem Twins.ifText (h : Twins a b R sub sub' .ifChain i j s t) :
    Print.ifText a sub level i = Print.ifText b sub' level j := by
  have hrel := h.alike
  have hc := h.slots
  have hd := h.slots'
  simp only [Print.ifText, h.shape, h.shape']
  cases hrel with
  | ifElse h₁ h₂ h₃ =>
    simp only [Shape.slots, List.mem_cons, List.not_mem_nil, or_false, forall_eq_or_imp, forall_eq]
      at hc hd
    simp only [h.below .node level _ _ h₁ hc.1 hd.1, h.below .block level _ _ h₂ hc.2.1 hd.2.1,
      h.elseText h₃ hc.2.2 hd.2.2]
  | _ => rfl

theorem Twins.loopText (h : Twins a b R sub sub' place i j s t) {b₁ b₂ c₁ c₂ : NodeId}
    (hb : R b₁ b₂) (hc : R c₁ c₂) (hb₁ : b₁ < i) (hb₂ : b₂ < j) (hc₁ : c₁ < i) (hc₂ : c₂ < j) :
    Print.loopText a style sub level b₁ c₁ = Print.loopText b style sub' level b₂ c₂ := by
  have hlines := h.mapBlock level hb (Nat.le_of_lt hb₁) (Nat.le_of_lt hb₂)
  have hempty : ((a.block? b₁).getD []).isEmpty = ((b.block? b₂).getD []).isEmpty := by
    have hlen := (block?_cases h.mirrors hb).length_eq
    rw [Bool.eq_iff_iff, List.isEmpty_iff_length_eq_zero, List.isEmpty_iff_length_eq_zero, hlen]
  simp only [Print.loopText, hlines, hempty, zero_iff h.mirrors hc,
    h.below .block (level + 1) c₁ c₂ hc hc₁ hc₂]

theorem Twins.lineText (h : Twins a b R sub sub' .line i j s t) :
    Print.lineText a style sub level i = Print.lineText b style sub' level j := by
  have hrel := h.alike
  have hc := h.slots
  have hd := h.slots'
  have hsame := fun later => h.same later level
  simp only [Print.lineText, h.shape, h.shape']
  cases hrel with
  | forLoop h₁ h₂ h₃ h₄ =>
    simp only [Shape.slots, List.mem_cons, List.not_mem_nil, or_false, forall_eq_or_imp, forall_eq]
      at hc hd
    simp only [h.below .header level _ _ h₁ hc.1 hd.1, h.below .node level _ _ h₂ hc.2.1 hd.2.1,
      h.below .header level _ _ h₃ hc.2.2.1 hd.2.2.1, h.below .block level _ _ h₄ hc.2.2.2 hd.2.2.2]
  | whileLoop h₁ h₂ =>
    simp only [Shape.slots, List.mem_cons, List.not_mem_nil, or_false, forall_eq_or_imp, forall_eq]
      at hc hd
    simp only [h.below .node level _ _ h₁ hc.1 hd.1, h.below .block level _ _ h₂ hc.2 hd.2]
  | loop h₁ h₂ =>
    simp only [Shape.slots, List.mem_cons, List.not_mem_nil, or_false, forall_eq_or_imp, forall_eq]
      at hc hd
    simp only [h.loopText h₁ h₂ hc.1 hd.1 hc.2 hd.2]
  | block => simp only [hsame .block (by simp [places])]
  | ifElse => simp only [hsame .ifChain (by simp [places])]
  | _ => simp only [hsame .header (by simp [places, inLine])]

theorem Twins.memberText (h : Twins a b R sub sub' place i j s t) {c d : NodeId} (hcd : R c d)
    (hc : c < i) (hd : d < j) : Print.memberText a style level (sub .node (level + 1)) c =
      Print.memberText b style level (sub' .node (level + 1)) d := by
  have hchild := h.below .node (level + 1)
  unfold Print.memberText
  rcases h.mirrors c d hcd with ⟨rfl, rfl⟩ | ⟨⟨u, _⟩, ⟨v, _⟩, hx, hy, _, hrel⟩
  · rfl
  · have hci : ∀ x ∈ u.slots, x < i := fun x hm => Nat.lt_trans (h.first c _ hx x hm) hc
    have hdj : ∀ y ∈ v.slots, y < j := fun y hm => Nat.lt_trans (h.second d _ hy y hm) hd
    simp only [Arena.shape?, hx, hy, Option.map_some]
    simp only at hrel
    cases hrel with
    | structMember hn ht has =>
      simp only [Shape.slots, List.mem_append, List.mem_cons, List.not_mem_nil, or_false] at hci hdj
      have hattr := hchild.attributeList has (fun x hm => hci x (.inl hm))
        (fun y hm => hdj y (.inl hm)) " "
      simp only [hattr, hn, hchild _ _ ht (hci _ (.inr rfl)) (hdj _ (.inr rfl))]
    | _ => rfl

theorem Twins.globalText (h : Twins a b R sub sub' .global i j s t) :
    Print.globalText a style sub level i = Print.globalText b style sub' level j := by
  have hrel := h.alike
  have hc := h.slots
  have hd := h.slots'
  have hchild := h.below .node level
  have hsame := h.same .node level
  simp only [Print.globalText, h.shape, h.shape']
  cases hrel with
  | struct hn hms has =>
    simp only [Shape.slots, List.mem_append] at hc hd
    have hattr := hchild.attributeList has (fun x hm => hc x (.inl hm))
      (fun y hm => hd y (.inl hm)) "\n"
    have hmembers := map_eq_of_forall₂ (f := Print.memberText a style level (sub .node (level + 1)))
      (g := Print.memberText b style level (sub' .node (level + 1))) hms fun x hx y hy hxy =>
        h.memberText hxy (hc x (.inr hx)) (hd y (.inr hy))
    simp only [hattr, hn, hmembers]
  | typeAlias hn ht =>
    simp only [Shape.slots, List.mem_cons, List.not_mem_nil, or_false, forall_eq] at hc hd
    simp only [hn, hchild _ _ ht hc hd]
  | function hn hps hr hb has hras =>
    have hhead := hchild.functionHead h.first h.second h.mirrors (.function hn hps hr hb has hras)
      hc hd
    simp only [hhead, h.below .block level _ _ hb (hc _ (by simp [Shape.slots]))
      (hd _ (by simp [Shape.slots]))]
  | value hn ht hi has => simp only [(hchild.variableText h.mirrors (.value hn ht hi has) hc hd).1]
  | _ => exact hsame (by simp [places, inLine])

end Places

/-- Alike nodes have the same text in every place, with any fuel that reaches their leaves. -/
theorem render_eq (ha : a.Ordered) (hb : b.Ordered) (hR : a.Mirrors b R) (style : Style) {n m : Nat}
    {place : Place} {level i j : Nat} (h : R i j)
    (hn : 4 * i + places place (a.shape? i) ≤ n) (hm : 4 * j + places place (b.shape? j) ≤ m) :
    render a style n place level i = render b style m place level j := by
  induction n generalizing m place level i j with
  | zero =>
    have := (places_le place (a.shape? i)).1
    omega
  | succ n ih =>
    cases m with
    | zero =>
      have := (places_le place (b.shape? j)).1
      omega
    | succ m =>
      have hsub : ∀ place level,
          Below R i j (render a style n place level) (render b style m place level) := by
        intro place' level' c d hcd hc hd
        have h₁ := (places_le place (a.shape? i)).1
        have h₂ := (places_le place (b.shape? j)).1
        have h₃ := (places_le place' (a.shape? c)).2
        have h₄ := (places_le place' (b.shape? d)).2
        exact ih hcd (by grind) (by grind)
      rcases hR i j h with ⟨rfl, rfl⟩ | ⟨⟨s, px⟩, ⟨t, py⟩, hx, hy, _, hrel⟩
      · have hsame : ∀ later, places later none < places place none →
            render a style n later level 0 = render b style m later level 0 := by
          intro later hlt
          simp only [shape?, node?_zero, Option.map_none] at hn hm
          exact ih h (by simp only [shape?, node?_zero, Option.map_none]; omega)
            (by simp only [shape?, node?_zero, Option.map_none]; omega)
        cases place with
        | node | header | ifChain | block => rfl
        | line =>
          have := hsame .header (by simp [places])
          simp only [render, lineText, shape?, node?_zero, Option.map_none, this]
        | global => exact hsame .node (by simp [places])
      · have hs : a.shape? i = some s := by simp [shape?, hx]
        have ht : b.shape? j = some t := by simp [shape?, hy]
        simp only at hrel
        have htwins : Twins a b R (render a style n) (render b style m) place i j s t := by
          refine ⟨ha, hb, hR, hs, ht, hrel, ha i _ hx, hb j _ hy, hsub, ?_⟩
          intro later level' hlt
          rw [hs] at hn
          rw [ht, ← places_eq hrel] at hm
          exact ih h (by rw [hs]; omega) (by rw [ht, ← places_eq hrel]; omega)
        cases place with
        | node => exact htwins.nodeText
        | header => exact htwins.headerText
        | line => exact htwins.lineText
        | block => exact htwins.blockText h
        | ifChain => exact htwins.ifText
        | global => exact htwins.globalText

end ShaderLoom.Print

namespace ShaderLoom.Program

open Arena

variable {p q : Program} {R : NodeId → NodeId → Prop}

theorem Fit.ordered (h : p.Fit) : p.toArena.Ordered := fun _ _ hn => h.below hn

/-- The two programs cannot be told apart by their documents or by their texts. -/
def Reads (p q : Program) : Prop := Document.ofProgram p = Document.ofProgram q ∧ p.text = q.text

/-- Programs whose globals look alike read the same. -/
theorem Fit.reads (hp : p.Fit) (hq : q.Fit) (hR : p.toArena.Mirrors q.toArena R)
    (hg : List.Forall₂ R p.globals q.globals) : p.Reads q := by
  have hrange : ∀ g ∈ p.globals, ∀ g' ∈ q.globals, g < p.size ∧ g' < q.size := by
    intro g hm g' hm'
    rw [← hp.root, ← hq.root]
    exact ⟨(hp.globals g hm).2, (hq.globals g' hm').2⟩
  refine ⟨?_, ?_⟩
  · have hrecords : p.globals.map (Document.record p.toArena (p.size + 1)) =
        q.globals.map (Document.record q.toArena (q.size + 1)) := by
      refine map_eq_of_forall₂ hg fun g hm g' hm' hgg => ?_
      obtain ⟨h₁, h₂⟩ := hrange g hm g' hm'
      exact Document.record_eq hp.ordered hq.ordered hR (Nat.lt_succ_of_lt h₁)
        (Nat.lt_succ_of_lt h₂) hgg
    rw [Document.ofProgram, Document.ofProgram, hrecords]
  · have htexts :
        p.globals.map (fun g => Print.render p.toArena {} (Print.fuelFor p.toArena) .global 0 g ++
          "\n") =
        q.globals.map (fun g => Print.render q.toArena {} (Print.fuelFor q.toArena) .global 0
          g ++ "\n") := by
      refine map_eq_of_forall₂ hg fun g hm g' hm' hgg => ?_
      obtain ⟨h₁, h₂⟩ := hrange g hm g' hm'
      have hle := (Print.places_le .global (p.shape? g)).2
      have hle' := (Print.places_le .global (q.shape? g')).2
      rw [Print.render_eq hp.ordered hq.ordered hR {} hgg]
      · exact Nat.le_trans (Nat.add_le_add_left hle _) (by simp only [Print.fuelFor]; grind)
      · exact Nat.le_trans (Nat.add_le_add_left hle' _) (by simp only [Print.fuelFor]; grind)
    simp only [text, textWith, Print.declarations, htexts]

end ShaderLoom.Program
