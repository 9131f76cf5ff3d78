import ShaderLoom.Proofs.Copy.Trim
import ShaderLoom.Proofs.Document.RoundTrip
import ShaderLoom.Proofs.Meaning.ExpressionSteps

/-! Resolution of a module takes the small steps: its variables are made first, then functions get
their heads, and then their bodies are gone through one after another. -/
namespace ShaderLoom

open Resolve

namespace Resolve

theorem Calm.levels (r : Resolver) (frames : List Frame) : Calm r { r with frames } :=
  ⟨rfl, rfl, rfl, rfl, rfl, rfl, rfl⟩

/-- The behaviors of a statement do not tell where it stands. -/
theorem Calm.behaviors (r : Resolver) (i stmt : NodeId) (b : Behaviors) : Calm r { r with
    stmt
    facts := { r.facts with stmts := r.facts.stmts.modify i fun s => { s with behaviors := b } } }
    where
  exprs := rfl
  vars := rfl
  links := rfl
  around := funext fun x =>
    view_modify (v := StmtFacts.function) (g := fun s => { s with behaviors := b })
      (fun _ => rfl) i x
  function := rfl
  seenGlobals := rfl
  seenCallees := rfl

/-- What is said of a function apart from its uses is nothing new. -/
theorem Idle.updated (r : Resolver) (id : NodeId) {g : FunctionFacts → FunctionFacts}
    (hg : ∀ f, links (g f) = links f) :
    Idle r { r with facts := { r.facts with functions := r.facts.functions.modify id g } } where
  exprs := rfl
  vars := rfl
  links := funext fun x => view_modify (v := links) hg id x
  around := rfl
  function := rfl
  seenGlobals := rfl
  seenCallees := rfl
  latest := rfl
  frames := rfl
  stmt := rfl

theorem Calm.heads {r r' : Resolver} (h : Calm r r') (g : NodeId) :
    (r'.facts.functions[g]?).isSome = (r.facts.functions[g]?).isSome := by
  simpa [linksOf] using congrArg (fun f => (f g).isSome) h.links

theorem heads_noteGlobal (r : Resolver) (n : VariableId) (g : NodeId) :
    ((r.noteGlobal n).facts.functions[g]?).isSome = (r.facts.functions[g]?).isSome := by
  unfold Resolver.noteGlobal
  split
  · rfl
  · split
    · rfl
    · exact isSome_modify

theorem heads_noteCallee (r : Resolver) (d g : NodeId) :
    ((r.noteCallee d).facts.functions[g]?).isSome = (r.facts.functions[g]?).isSome := by
  unfold Resolver.noteCallee
  split
  · rfl
  · split
    · rfl
    · exact isSome_modify

theorem heads_useVariable (r : Resolver) (e stmt : NodeId) (n : VariableId) (v : VariableFacts)
    (g : NodeId) :
    ((r.useVariable e stmt n v).facts.functions[g]?).isSome = (r.facts.functions[g]?).isSome := by
  unfold Resolver.useVariable
  dsimp only
  split
  · exact heads_noteGlobal _ n g
  · rfl

end Resolve

namespace Program

variable {p : Program} {r r₁ r' : Resolver} {is js : List NodeId} {i d e : NodeId}

/-- Where resolution stands before parts of a function that lie apart: nothing is recorded of what
is in them. -/
structure Inside (p : Program) (r : Resolver) (is : List NodeId) : Prop where
  clear : p.Clear [] [] is
  function : r.function.isSome = true
  within : ∀ i ∈ is, i ≠ 0 → p.function? i = none → r.function = some (p.functionOf i)
  known : LocalsKnown r.frames r.facts.table
  made : p.ValuesMade r
  fresh : ∀ i ∈ is, i ≠ 0 → ∀ j, p.Below i j → r.facts.exprs[j]? = none

namespace Passed

/-- A level is opened and closed around what is passed. -/
theorem level (h : p.Passed [] [] is { r with frames := [] :: r.frames } r₁) :
    p.Passed [] [] is r { r₁ with frames := r₁.frames.drop 1 } :=
  { h with
    course := .head (.calm (.levels r _)) (h.course.trans (.single (.calm (.levels r₁ _))))
    known := fun hk l hl => h.known hk.opened l (List.mem_of_mem_drop hl) }

/-- A statement gets its entry, what is in it is passed, and its behaviors are added. -/
theorem statement {live : Bool} {b : Behaviors}
    (hi : p.function? i = none → r.function = some (p.functionOf i))
    (h : p.Passed [] [] [i] (({ r with stmt := i } : Resolver).enter i live) r₁) :
    p.Passed [] [] [i] r { r₁ with
      stmt := r.stmt
      facts :=
  { r₁.facts with stmts := r₁.facts.stmts.modify i fun s => { s with behaviors := b } } } :=
  { h with
    course :=
      have hcalm : Calm r { r with stmt := i } := ⟨rfl, rfl, rfl, rfl, rfl, rfl, rfl⟩
      .head (.calm hcalm)
      (.head (.entered live hi) (h.course.trans (.single (.calm (.behaviors r₁ i _ b)))))
    stmt := rfl }

end Passed

namespace Inside

theorem sublist (h : p.Inside r is) (hjs : js.Sublist is) : p.Inside r js :=
  ⟨h.clear.sublist hjs, h.function, fun i hi => h.within i (hjs.subset hi), h.known, h.made,
    fun i hi => h.fresh i (hjs.subset hi)⟩

theorem perm (h : p.Inside r is) (hjs : is.Perm js) : p.Inside r js :=
  ⟨h.clear.perm hjs, h.function, fun i hi => h.within i (hjs.mem_iff.2 hi), h.known, h.made,
    fun i hi => h.fresh i (hjs.mem_iff.2 hi)⟩

/-- What is still to come after what comes first. -/
theorem passed (h : p.Inside r (is ++ js)) (hr : p.Passed [] [] is r r') : p.Inside r' js := by
  have hright := h.sublist (List.sublist_append_right is js)
  refine ⟨hright.clear, hr.function ▸ h.function, hr.function ▸ hright.within, hr.known h.known,
    h.made.mono hr.latest, fun i hi h0 j hb => ?_⟩
  rcases hr.kept j with heq | ⟨k, hk, hk0, hkb⟩ | ⟨g, hg, _, hwhen⟩
  · exact heq.trans (hright.fresh i hi h0 j hb)
  · exact absurd hb ((List.pairwise_append.1 h.clear.apart).2.2 k hk i hi hk0 h0 j hkb)
  · have hnew := (hwhen (.inr h.function)).2.1
    have := h.made g hg
    simp [hnew] at this

/-- A level is opened. -/
theorem opened (h : p.Inside r is) : p.Inside { r with frames := [] :: r.frames } is :=
  { h with known := h.known.opened }

section Rooted

variable (hp : p.Rooted p.scene.module) (hw : p.Walked)
include hp hw

/-- The children of a part of a function. -/
theorem children (h : p.Inside r [i]) {s : Shape Symbol NodeId} (hs : p.shape? i = some s)
    (hf : p.function? i = none) (hjs : js.Sublist s.slots) : p.Inside r js := by
  have hmem : i ∈ [i] := List.mem_singleton.2 rfl
  have h0 := Arena.ne_zero_of_shape hs
  have hin := h.clear.inTree i hmem h0
  have hchild : ∀ c ∈ js, c ≠ 0 → c ∈ p.children i :=
    fun c hc hc0 => mem_children_of_slot hs (hjs.subset hc) hc0
  refine ⟨h.clear.children hp.tree hs hjs, h.function, fun c hc hc0 hcf => ?_, h.known, h.made,
    fun c hc hc0 j hb => ?_⟩
  · rw [hw.functionOf_eq hc0, hcf, hp.tree.parent hin (hchild c hc hc0)]
    exact h.within i hmem h0 hf
  · exact h.fresh i hmem h0 j (.of_child (hchild c hc hc0) hb)

omit hw in
/-- An expression is faced where a part of a function reads it. -/
theorem facing (h : p.Inside r [e]) {s : Shape Symbol NodeId} (hs : p.shape? i = some s)
    (hi : p.inTree i = true) (he : e ∈ s.slots) (hnot : ∀ x, s ≠ .expr x)
    (hstmt : e ≠ 0 → r.stmt = p.statementOf e) : p.Facing [] [] r [e] := by
  refine ⟨h.clear, fun e' he' x hx => ?_, fun e' he' h0 j x hj hx hm => ?_, h.known, .inl h.made,
    fun _ => h.fresh, fun _ g hg hnone => ?_, fun _ u hu => absurd hu List.not_mem_nil⟩
  · obtain rfl := List.mem_singleton.1 he'
    have h0 := Arena.ne_zero_of_shape hx
    rw [h.within e' he' h0 (by simp [Arena.function?, hx, Shape.function?])]
    exact ⟨hstmt h0, rfl⟩
  · obtain rfl := List.mem_singleton.1 he'
    have hj' := hp.tree.parent hj (mem_children_of_slot hx (x.operands_slots.subset hm) h0)
    rw [hp.tree.parent hi (mem_children_of_slot hs he h0)] at hj'
    subst hj'
    exact absurd (Option.some.inj (hs.symm.trans hx)) (hnot x)
  · have := h.made g hg
    simp [hnone] at this

/-- An expression that a statement reads is passed. -/
theorem read (h : p.Inside r [e]) {x : StmtShape NodeId} (hs : p.shape? i = some (.stmt x))
    (hi : p.inTree i = true) (he : e ∈ Shape.slots (ν := Symbol) (.stmt x)) (hstmt : r.stmt = i)
    (n : Nat) : Ends (expr p.scene n e) r fun _ r' => p.Passed [] [] [e] r r' := by
  have hface : p.Facing [] [] r [e] := by
    refine h.facing hp hs hi he (fun _ hx => by cases hx) fun h0 => ?_
    have hparent := hp.tree.parent hi (mem_children_of_slot hs he h0)
    rw [hw.statementOf_child (hparent ▸ Arena.ne_zero_of_shape hs), hparent, hs]
    exact hstmt
  exact ((course_expressions hp hw n).1 [] [] e r hface).mono fun _ _ hr => hr.1

/-- A variable of a function is made after its initializer. -/
theorem declared (h : p.Inside r [d]) {v : VariableShape Symbol NodeId}
    (hv : p.asVariable? d = some v) (hstmt : r.stmt = p.statementOf d) (n : Nat)
    (scope : VariableScope) :
    Ends (resolveVariable p.scene n d v scope) r fun _ r' => p.Passed [] [] [d] r r' := by
  have hshape := Arena.shape?_of_asVariable? hv
  have hin := h.clear.inTree d (List.mem_singleton.2 rfl) (Arena.ne_zero_of_shape hshape)
  have hslot : v.initializer ∈ Shape.slots (ν := Symbol) (.decl (.value v)) := by simp [Shape.slots]
  have hinit : p.Inside r [v.initializer] :=
    h.children hp hw hshape (by simp [Arena.function?, hshape, Shape.function?])
      (List.singleton_sublist.2 hslot)
  have hface : p.Facing [] [] r [v.initializer] := by
    refine hinit.facing hp hshape hin hslot (fun _ hx => by cases hx) fun h0 => ?_
    have hparent := hp.tree.parent hin (mem_children_of_slot hshape hslot h0)
    rw [hw.statementOf_child (hparent ▸ Arena.ne_zero_of_shape hshape), hparent, hshape]
    exact hstmt
  refine ((course_expressions hp hw n).2.2 [] [] d v scope r hv hface).mono fun made r' hr => ?_
  rcases hr with ⟨_, hidle⟩ | ⟨r₁, hr₁, hmakes⟩
  · exact .of_idle hidle
  · have hmade : p.Passed [] [] [] r₁ r' := hmakes.passed
    exact (hr₁.trans hmade).of_children hshape (by simpa using hslot)

end Rooted

end Inside

section Statements

/-- Statements are passed one after another. -/
theorem course_inOrder {one : NodeId → Bool → Resolve Behaviors}
    (hone : ∀ i live r, p.Inside r [i] → Ends (one i live) r fun _ r' => p.Passed [] [] [i] r r')
    (live : Bool) (ss : List NodeId) (sofar : Behaviors) (r : Resolver) (h : p.Inside r ss) :
    Ends (inOrder one live ss sofar) r fun _ r' => p.Passed [] [] ss r r' := by
  induction ss generalizing sofar r with
  | nil => exact .pure (.refl p [] [] [] r)
  | cons s ss ih =>
    have h : p.Inside r ([s] ++ ss) := h
    unfold inOrder
    refine .bind ((hone s _ r (h.sublist (by simp))).mono fun b r₁ h₁ => ?_)
    exact (ih _ r₁ (h.passed h₁)).mono fun _ _ h₂ => h₁.trans h₂

variable (hp : p.Rooted p.scene.module) (hw : p.Walked)
include hp hw

/-- The body of a loop is passed, and has an entry of its own if it is a block. -/
theorem course_openBody {one : NodeId → Bool → Resolve Behaviors}
    (hone : ∀ i live r, p.Inside r [i] → Ends (one i live) r fun _ r' => p.Passed [] [] [i] r r')
    (live : Bool) (h : p.Inside r [d]) :
    Ends (openBody p.scene one d live) r fun _ r' => p.Passed [] [] [d] r r' := by
  unfold openBody
  split
  · next ss hss =>
    have hs : p.shape? d = some (.stmt (.block ss)) := Arena.shape?_of_block? hss
    have hf : p.function? d = none := by simp [Arena.function?, hs, Shape.function?]
    have hin := h.within d (List.mem_singleton.2 rfl) (Arena.ne_zero_of_shape hs)
    have hss' : p.Inside (r.enter d live) ss := { h.children hp hw hs hf (.refl _) with }
    refine .bind (.modify (.bind ((course_inOrder hone live ss _ _ hss').mono fun b r₁ h₁ =>
      .bind (.modify (.pure ?_)))))
    have h₁ := h₁.of_children hs fun c hc => hc
    exact { h₁ with
      course := .head (.entered live hin)
        (h₁.course.trans (.single (.calm (.behaviors r₁ d r₁.stmt b)))) }
  · exact .pure (.refl p [] [] [d] r)

/-- What is in a statement is passed in its order. -/
theorem course_inside {one : NodeId → Bool → Resolve Behaviors}
    (hone : ∀ i live r, p.Inside r [i] → Ends (one i live) r fun _ r' => p.Passed [] [] [i] r r')
    (live : Bool) {x : StmtShape NodeId} (hs : p.shape? i = some (.stmt x)) (hi : p.inTree i = true)
    (h : p.Inside r (Shape.slots (ν := Symbol) (.stmt x))) (hstmt : r.stmt = i) :
    Ends (inside p.scene one i live (some (.stmt x))) r fun _ r' => p.Passed [] [] [i] r r' := by
  have hread : ∀ {e : NodeId} {r : Resolver}, e ∈ Shape.slots (ν := Symbol) (.stmt x) → r.stmt = i →
      p.Inside r [e] →
      Ends (expr p.scene p.scene.fuel e) r fun _ r' => p.Passed [] [] [e] r r' := fun he hr h =>
    h.read hp hw hs hi he hr p.scene.fuel
  have hall : ∀ {is : List NodeId} {r r' : Resolver},
      (∀ c ∈ is, c ∈ Shape.slots (ν := Symbol) (.stmt x)) →
      p.Passed [] [] is r r' → p.Passed [] [] [i] r r' := fun his hr => hr.of_children hs his
  cases x with
  | block ss =>
    refine .bind (.modify (.bind ((course_inOrder hone live ss _ _ h.opened).mono fun b r₁ h₁ =>
      .bind (.modify (.pure ?_)))))
    exact hall (fun c hc => hc) h₁.level
  | varDecl d =>
    have hd : p.Inside r [d] := h
    refine .bind (Ends.mono (Q := fun _ r' => p.Passed [] [] [d] r r') ?_ fun _ _ h₁ =>
      .pure (hall (fun c hc => hc) h₁))
    unfold localVariable
    split
    · next v hv =>
      have hparent := hp.tree.parent hi (mem_children_of_slot hs (by simp [Shape.slots])
        (Arena.ne_zero_of_shape (Arena.shape?_of_asVariable? hv)))
      have hdecl : r.stmt = p.statementOf d := by
        rw [hw.statementOf_child (hparent ▸ Arena.ne_zero_of_shape hs), hparent, hs]
        exact hstmt
      exact .bind ((hd.declared hp hw hv hdecl _ .local).mono fun _ _ h₁ => .pure h₁)
    · exact .pure (.refl p [] [] [d] r)
  | assign l k =>
    have h : p.Inside r ([l] ++ [k]) := h
    refine .bind ((hread (by simp [Shape.slots]) hstmt (h.sublist (by simp))).mono fun _ r₁ h₁ =>
      ?_)
    refine .bind ((hread (by simp [Shape.slots]) (h₁.stmt.trans hstmt) (h.passed h₁)).mono
      fun _ r₂ h₂ => .pure ?_)
    exact hall (fun c hc => hc) (h₁.trans h₂)
  | increment l _ =>
    exact .bind ((hread (by simp [Shape.slots]) hstmt h).mono fun _ _ h₁ =>
      .pure (hall (fun c hc => hc) h₁))
  | callStatement e =>
    exact .bind ((hread (by simp [Shape.slots]) hstmt h).mono fun _ _ h₁ =>
      .pure (hall (fun c hc => hc) h₁))
  | ifElse cond body otherwise =>
    have h : p.Inside r ([cond] ++ ([body] ++ [otherwise])) := h
    refine .bind ((hread (by simp [Shape.slots]) hstmt (h.sublist (by simp))).mono fun _ r₁ h₁ =>
      ?_)
    have hrest := h.passed h₁
    refine .bind ((hone body live r₁ (hrest.sublist (by simp))).mono fun _ r₂ h₂ => ?_)
    refine .bind ((hone otherwise live r₂ (hrest.passed h₂)).mono fun _ r₃ h₃ => .pure ?_)
    exact hall (fun c hc => hc) (h₁.trans (h₂.trans h₃))
  | forLoop init cond continuing body =>
    -- The body comes before the continuing part, which stands before it.
    have h : p.Inside r ([init] ++ ([cond] ++ ([body] ++ [continuing]))) :=
      h.perm (.cons init (.cons cond (.swap body continuing [])))
    have h₀ := h.opened
    refine .bind
      (.modify (.bind ((hone init live _ (h₀.sublist (by simp))).mono fun _ r₁ h₁ => ?_)))
    have hrest := h₀.passed h₁
    refine .bind ((hread (by simp [Shape.slots]) (h₁.stmt.trans hstmt)
      (hrest.sublist (by simp))).mono fun _ r₂ h₂ => ?_)
    have hrest := hrest.passed h₂
    refine .bind ((hone body live r₂ (hrest.sublist (by simp))).mono fun _ r₃ h₃ => ?_)
    refine .bind ((hone continuing live r₃ (hrest.passed h₃)).mono fun _ r₄ h₄ =>
      .bind (.modify (.pure ?_)))
    exact hall (by simp [Shape.slots]) (h₁.trans (h₂.trans (h₃.trans h₄))).level
  | whileLoop cond body =>
    have h : p.Inside r ([cond] ++ [body]) := h
    refine .bind ((hread (by simp [Shape.slots]) hstmt (h.sublist (by simp))).mono fun _ r₁ h₁ =>
      ?_)
    refine .bind ((hone body live r₁ (h.passed h₁)).mono fun _ r₂ h₂ => .pure ?_)
    exact hall (fun c hc => hc) (h₁.trans h₂)
  | loop body continuing =>
    have h : p.Inside r ([body] ++ [continuing]) := h
    refine .bind
      (.modify (.bind ((course_openBody hp hw hone live (h.opened.sublist (by simp))).mono
        fun _ r₁ h₁ => ?_)))
    refine .bind ((hone continuing live r₁ (h.opened.passed h₁)).mono fun _ r₂ h₂ =>
      .bind (.modify (.pure ?_)))
    exact hall (fun c hc => hc) (h₁.trans h₂).level
  | breakLoop => exact .pure (.refl p [] [] [i] r)
  | continueLoop => exact .pure (.refl p [] [] [i] r)
  | discard => exact .pure (.refl p [] [] [i] r)
  | ret e =>
    exact .bind ((hread (by simp [Shape.slots]) hstmt h).mono fun _ _ h₁ =>
      .pure (hall (fun c hc => hc) h₁))

/-- Statements are passed, whatever the bound on how deep resolution looks. -/
theorem course_statement (n : Nat) (i : NodeId) (live : Bool) (r : Resolver) (h : p.Inside r [i]) :
    Ends (Resolve.statement p.scene n i live) r fun _ r' => p.Passed [] [] [i] r r' := by
  have hreport : ∀ (message : String) (r : Resolver), Ends (report p.scene i message) r fun _ r' =>
      p.Passed [] [] [i] r r' :=
    fun message r => .modify (.of_idle ⟨⟨rfl, rfl, rfl, rfl, rfl, rfl, rfl⟩, rfl, rfl, rfl⟩)
  induction n generalizing i live r with
  | zero =>
    unfold Resolve.statement
    exact .bind (.bind ((hreport _ r).mono fun _ _ h₁ => .pure (.pure h₁)))
  | succ n ih =>
    unfold Resolve.statement
    split
    · exact .pure (.refl p [] [] [i] r)
    · next h0 =>
      have hmem : i ∈ [i] := List.mem_singleton.2 rfl
      refine .get (.bind (.modify (.bind (.modify (.bind ?_)))))
      refine Ends.mono
        (Q := fun _ r' => p.Passed [] [] [i] (({ r with stmt := i } : Resolver).enter i live) r') ?_
        fun b r₁ h₁ => .bind (.modify (.bind (.modify (.pure (h₁.statement (h.within i hmem h0))))))
      change Ends (inside p.scene (Resolve.statement p.scene n) i live (p.shape? i)) _ _
      cases hs : p.shape? i with
      | none => exact .bind ((hreport _ _).mono fun _ _ h₁ => .pure h₁)
      | some s =>
        cases s with
        | stmt x =>
          have hf : p.function? i = none := by simp [Arena.function?, hs, Shape.function?]
          have hslots := h.children hp hw hs hf (.refl _)
          have hrec : ∀ i live r, p.Inside r [i] →
              Ends (Resolve.statement p.scene n i live) r fun _ r' =>
              p.Passed [] [] [i] r r' := fun i live r h => ih i live r h fun message r =>
            .modify (.of_idle ⟨⟨rfl, rfl, rfl, rfl, rfl, rfl, rfl⟩, rfl, rfl, rfl⟩)
          exact course_inside hp hw hrec live hs (h.clear.inTree i hmem h0) { hslots with } rfl
        | _ => exact .bind ((hreport _ _).mono fun _ _ h₁ => .pure h₁)

end Statements

/-- Heads of functions stay, and functions alone have heads. -/
theorem Advance.heads {a b : List NodeId × Resolver} (h : p.Advance a b) (g : NodeId) :
    ((a.2.facts.functions[g]?).isSome → (b.2.facts.functions[g]?).isSome) ∧
      ((b.2.facts.functions[g]?).isSome → (a.2.facts.functions[g]?).isSome ∨ p.IsFunction g) := by
  have hsame : ∀ {fs fs' : NodeMap FunctionFacts}, (fs'[g]?).isSome = (fs[g]?).isSome →
      ((fs[g]?).isSome → (fs'[g]?).isSome) ∧
      ((fs'[g]?).isSome → (fs[g]?).isSome ∨ p.IsFunction g) := fun h =>
    ⟨fun hg => h ▸ hg, fun hg => .inl (h ▸ hg)⟩
  cases h with
  | calm h => exact hsame (h.heads g)
  | used => exact hsame (heads_useVariable _ _ _ _ _ g)
  | called => exact hsame (heads_noteCallee _ _ g)
  | headed f hf _ _ =>
    simp only [Resolver.head, Std.TreeMap.getElem?_insert, Nat.compare_eq_eq]
    by_cases hg : f.decl = g
    · simp [hg, hg ▸ hf]
    · simp only [hg, if_false]
      exact hsame rfl
  | _ => exact hsame rfl

theorem Course.heads {a b : List NodeId × Resolver} (h : p.Course a b) (g : NodeId) :
    (a.2.facts.functions[g]?).isSome → (b.2.facts.functions[g]?).isSome := by
  induction h with
  | refl => exact fun hg => hg
  | tail _ hstep ih => exact fun hg => (hstep.heads g).1 (ih hg)

/-- Where resolution stands between the declarations of the module. -/
structure Outside (p : Program) (r : Resolver) : Prop where
  course : p.Course ([], p.unresolved) ([], r)
  function : r.function = none
  stmt : r.stmt = 0
  known : LocalsKnown r.frames r.facts.table

/-- While variables of the module are made: those that are not among the ones to come have been. -/
structure Opening (p : Program) (r : Resolver) (rest : List NodeId) : Prop extends Outside p r where
  headless : ∀ g : NodeId, r.facts.functions[g]? = none
  inValues : ∀ j : NodeId, (r.facts.exprs[j]?).isSome = true → p.InValue j
  waiting : p.Founded → ∀ g, p.IsValue g → r.facts.latest[g]? = none →
    ∀ j, p.Below g j → r.facts.exprs[j]? = none
  made : ∀ g, p.IsValue g → g ∈ rest ∨ (r.facts.latest[g]?).isSome = true

/-- While functions get their heads: those that are not among the ones to come have one. -/
structure Heading (p : Program) (r : Resolver) (rest : List NodeId) : Prop extends Outside p r where
  nodup : rest.Nodup
  headed : ∀ g : NodeId, (r.facts.functions[g]?).isSome = true ↔ p.IsFunction g ∧ g ∉ rest
  inValues : ∀ j : NodeId, (r.facts.exprs[j]?).isSome = true → p.InValue j
  made : p.ValuesMade r

/-- While bodies are gone through: nothing is recorded of what is in those to come. -/
structure Closing (p : Program) (r : Resolver) (rest : List NodeId) : Prop extends Outside p r where
  nodup : rest.Nodup
  headed : ∀ g : NodeId, p.IsFunction g → (r.facts.functions[g]?).isSome = true
  fresh : ∀ g ∈ rest, p.IsFunction g → ∀ j, p.Below g j → r.facts.exprs[j]? = none
  made : p.ValuesMade r

section Module

variable {g : NodeId} {rest : List NodeId}

theorem IsFunction.not_isValue (h : p.IsFunction g) : ¬ p.IsValue g := by
  rintro ⟨_, hv⟩
  obtain ⟨v, hv⟩ := Option.isSome_iff_exists.1 hv
  have hf := h.2
  simp [Arena.function?, Arena.shape?_of_asVariable? hv, Shape.function?] at hf

theorem Outside.idle (h : p.Outside r) (hi : Idle r r') : p.Outside r' :=
  have hp : p.Passed [] [] [] r r' := .of_idle hi
  ⟨h.course.trans hp.course, hi.function.trans h.function, hi.stmt.trans h.stmt, hp.known h.known⟩

variable (hp : p.Rooted p.scene.module)
include hp

theorem Rooted.function_apart {g' j : NodeId} (hg : g ∈ p.globals) (hg' : g' ∈ p.globals)
    (hne : g ≠ g') (hb : p.Below g j) : ¬ p.Below g' j :=
  hp.tree.disjoint p.inTree_root (hp.globals g hg) (hp.globals g' hg') hne hb

variable (hw : p.Walked)

include hw in
/-- A variable of the module is made where it is declared, if it was not used before. -/
theorem Opening.declares (h : p.Opening r (g :: rest)) (hg : g ∈ p.globals) :
    Ends (declaration p.scene g) r fun _ r' => p.Opening r' rest := by
  have hidle : ∀ {r' : Resolver}, ¬ p.IsValue g ∨ (r.facts.latest[g]?).isSome = true →
      (∀ x : NodeId, headAt r'.facts x = headAt r.facts x) → Idle r r' → p.Opening r' rest := by
    intro r' hnot hheads hi
    refine { h.toOutside.idle hi with headless := fun x => ?_, inValues := ?_, waiting := ?_,
                                      made := fun x hx => ?_ }
    · simpa [headAt, h.headless x] using hheads x
    · simpa only [hi.exprs] using h.inValues
    · simpa only [hi.exprs, hi.latest] using h.waiting
    · rw [hi.latest]
      refine (h.made x hx).elim (fun hm => (List.mem_cons.1 hm).elim (fun he => .inr ?_) .inl) .inr
      subst he
      exact hnot.elim (absurd hx) fun hs => hs
  refine Ends.mono (Q := fun _ r' => (∀ x : NodeId, headAt r'.facts x = headAt r.facts x) ∧
    ((∀ x : NodeId, headAt r'.facts x = headAt r.facts x) → p.Opening r' rest)) ?_ fun _ _ hr =>
      hr.2 hr.1
  refine ((touch_declaration p.scene g : Moves (Touch True) _).headAt r).and ?_
  have htype : ∀ {r : Resolver}, (∀ v, p.shape? g ≠ some (.decl (.value v))) → ¬ p.IsValue g := by
    rintro - hnot ⟨_, hv⟩
    obtain ⟨v, hv⟩ := Option.isSome_iff_exists.1 hv
    exact hnot v (Arena.shape?_of_asVariable? hv)
  unfold declaration
  split
  · next hs =>
    have hs : p.shape? g = _ := hs
    refine .bind (((typeTouch_types _ _).2 _).idle r |>.mono fun _ r' hi =>
      .pure fun hheads => hidle (.inl ?_) hheads hi)
    exact htype (r := r) fun v hv => by simp [hs] at hv
  · next hs =>
    have hs : p.shape? g = _ := hs
    refine .bind (((typeTouch_types _ _).2 _).idle r |>.mono fun _ r' hi =>
      .pure fun hheads => hidle (.inl ?_) hheads hi)
    exact htype (r := r) fun v hv => by simp [hs] at hv
  · next v hs =>
    have hv : p.asVariable? g = some v := by
      have hs : p.shape? g = _ := hs
      simp [Arena.asVariable?, hs, Shape.asVariable?]
    have hval : p.IsValue g := ⟨hg, by simp [hv]⟩
    refine .get ?_
    split
    · next hknown => exact .pure fun hheads => hidle (.inr (by simpa using hknown)) hheads (.refl r)
    · next hnew =>
      have hnew : r.facts.latest[g]? = none := by simpa using hnew
      have hfounded : p.Once r → p.Founded := fun ho => ho.resolve_right (by simp [h.function])
      have hface : p.Facing [g] [] r [v.initializer] :=
        .of_value hp hw hval hv h.function h.stmt h.known
        (fun ho => h.waiting (hfounded ho) g hval hnew)
          (fun ho x hx hx0 _ => h.waiting (hfounded ho) x hx hx0)
        fun hf u hu w hw' => by
          obtain rfl := List.mem_singleton.1 hu
          cases hv.symm.trans hw'
          exact hp.not_leads_back hf hval hv
      obtain ⟨n, hn⟩ : ∃ n, p.scene.fuel = n + 1 :=
        ⟨p.scene.fuel - 1, by have := p.length_lt_fuel; omega⟩
      rw [hn]
      have hexpr := (course_expressions hp hw n).1 [g] [] v.initializer r hface
      refine .bind ((course_variable .global (hexpr.mono fun _ _ hr => hr.1)).mono fun _ r' hr =>
        .pure fun hheads => ?_)
      obtain ⟨r₁, hr₁, hmakes⟩ := hr
      have hrest : p.Facing [g] [] r₁ [] :=
        (show p.Facing [g] [] r ([v.initializer] ++ []) from hface).passed hp hr₁
      refine ⟨⟨(h.course.trans hr₁.course).trans hmakes.course,
        (hmakes.function.trans hr₁.function).trans h.function,
        (hmakes.stmt.trans hr₁.stmt).trans h.stmt, hmakes.known (hr₁.known h.known)⟩, fun x =>
          ?_, fun j hj => ?_,
        fun hf x hx hx0 j hb => ?_, fun x hx => ?_⟩
      · simpa [headAt, h.headless x] using hheads x
      · rw [hmakes.exprs] at hj
        rcases hr₁.kept j with heq | ⟨e, he, he0, hb⟩ | ⟨x, hx, hb, _⟩
        · exact h.inValues j (heq ▸ hj)
        · obtain rfl := List.mem_singleton.1 he
          exact ⟨g, hval.1, hval.2,
            .of_child (mem_children_of_slot hs (by simp [Shape.slots]) he0) hb⟩
        · exact ⟨x, hx.1, hx.2, hb⟩
      · have hxg : x ≠ g := by
          rintro rfl
          have := (hmakes.latest x).2 (.inl rfl)
          simp [hx0] at this
        rw [hmakes.exprs]
        exact hrest.waiting (.inl hf) x hx (unmade (fun d hd => (hmakes.latest d).2 (.inr hd)) hx0)
          (by simpa using hxg) j hb
      · rcases h.made x hx with hm | hs
        · exact (List.mem_cons.1 hm).elim (fun he => .inr ((hmakes.latest x).2 (.inl he))) .inl
        · exact .inr ((hmakes.latest x).2 (.inr (hr₁.latest x hs)))
  · next hstruct halias hvalue =>
    exact .pure fun hheads => hidle (.inl (htype (r := r) hvalue)) hheads (.refl r)

omit hp in
/-- The head of a function is an entry without uses, and what is added to it are no uses. -/
theorem ends_signature (c : Scene) (f : FunctionShape Symbol NodeId) (r : Resolver) :
    Ends (signature c g f) r fun _ r' =>
      ∃ x : FunctionFacts, x.decl = g ∧ links x = ([], [], [], []) ∧
      Idle (r.head x) r' := by
  unfold signature
  refine .bind (.modify ?_)
  have hlast : ∀ (t : Option Ty) (r₁ : Resolver),
      Idle (r.head { decl := g, name := c.arena.nameOf f.name }) r₁ →
      Ends (updateFunction g fun x => { x with
        returnType := t
        stage := stageOf c.arena f.attributes
        workgroup := workgroupOf c.arena f.attributes }) r₁ fun _ r' =>
          ∃ x : FunctionFacts, x.decl = g ∧
          links x = ([], [], [], []) ∧ Idle (r.head x) r' := fun t r₁ h₁ =>
    .modify ⟨_, rfl, rfl, h₁.trans (.updated r₁ g fun _ => rfl)⟩
  split
  · exact .bind (((typeTouch_types c c.fuel).1 _).idle _ |>.mono fun t r₁ h₁ => hlast t r₁ h₁)
  · exact .bind (.pure (hlast _ _ (.refl _)))

omit hp in
/-- A function gets its head. -/
theorem Heading.heads (h : p.Heading r (g :: rest)) (hg : p.IsFunction g)
    (f : FunctionShape Symbol NodeId) :
    Ends (signature p.scene g f) r fun _ r' => p.Heading r' rest := by
  obtain ⟨hnotin, hnodup⟩ := List.nodup_cons.1 h.nodup
  have hnone : r.facts.functions[g]? = none := by
    rw [← Option.not_isSome_iff_eq_none, h.headed]
    exact fun hx => hx.2 List.mem_cons_self
  refine (ends_signature p.scene f r).mono fun _ r' hr => ?_
  obtain ⟨x, rfl, hlinks, hidle⟩ := hr
  have hout : p.Outside (r.head x) :=
    ⟨h.course.tail (.headed x hg hnone hlinks), h.function, h.stmt, h.known⟩
  refine ⟨hout.idle hidle, hnodup, fun k => ?_, ?_, ?_⟩
  · rw [hidle.toCalm.heads, Resolver.head, Std.TreeMap.getElem?_insert]
    by_cases hk : x.decl = k
    · subst hk
      simp [hg, hnotin]
    · rw [if_neg (by simpa using hk), h.headed, List.mem_cons]
      simp [Ne.symm hk]
  · rw [hidle.exprs]
    exact h.inValues
  · unfold ValuesMade
    rw [hidle.latest]
    exact h.made

include hw in
/-- Parameters are made one after another. -/
theorem course_parameters (fn : NodeId) (ds : List NodeId) (r : Resolver) (h : p.Inside r ds)
    (hstmt : ∀ d ∈ ds, ∀ v, p.asVariable? d = some v → r.stmt = p.statementOf d) :
    Ends (ds.forM (parameter p.scene fn)) r fun _ r' => p.Passed [] [] ds r r' := by
  induction ds generalizing r with
  | nil => exact .pure (.refl p [] [] [] r)
  | cons d ds ih =>
    have h : p.Inside r ([d] ++ ds) := h
    have hone : Ends (parameter p.scene fn d) r fun _ r' => p.Passed [] [] [d] r r' := by
      have hreport : Ends (report p.scene d "expected a parameter") r fun _ r' =>
          p.Passed [] [] [d] r r' :=
        .modify (.of_idle ⟨⟨rfl, rfl, rfl, rfl, rfl, rfl, rfl⟩, rfl, rfl, rfl⟩)
      unfold parameter
      split
      · next v hv =>
        split
        · refine .bind
            (((h.sublist (by simp)).declared hp hw hv (hstmt d List.mem_cons_self v hv) _
              .parameter).mono
            fun made r₁ h₁ => .modify ?_)
          have hidle : Idle r₁ _ :=
            .updated r₁ fn (g := fun x => { x with params := x.params ++ made.toList }) fun _ => rfl
          have hlisted : p.Passed [] [] [] r₁ _ := .of_idle hidle
          exact (h₁.trans hlisted).mono (by simp)
        · exact hreport
      · exact hreport
    refine .bind (hone.mono fun _ r₁ h₁ => ?_)
    refine (ih r₁ (h.passed h₁) fun c hc v hv => ?_).mono fun _ _ h₂ => h₁.trans h₂
    rw [h₁.stmt]
    exact hstmt c (List.mem_cons_of_mem _ hc) v hv

include hw in
/-- No parameter is in a statement. -/
theorem Rooted.statementOf_parameter (hg : p.IsFunction g) {f : FunctionShape Symbol NodeId}
    (hf : p.function? g = some f) (hd : d ∈ f.params) (h0 : d ≠ 0) : p.statementOf d = 0 := by
  have hs : p.shape? g = some (.decl (.function f)) := Arena.shape?_of_function? hf
  have hin := hp.tree.inTree_child p.inTree_root (hp.globals g hg.1)
  have hparent := hp.tree.parent hin (mem_children_of_slot hs (by simp [Shape.slots, hd]) h0)
  rw [hw.statementOf_child (hparent ▸ Arena.ne_zero_of_shape hs), hparent, hs]
  exact hp.statementOf_declared hw hg.1

include hw in
/-- The body of a function is gone through in the function. -/
theorem Closing.closes (h : p.Closing r (g :: rest)) (hg : p.IsFunction g)
    {f : FunctionShape Symbol NodeId} (hf : p.function? g = some f) :
    Ends (body p.scene g f) r fun _ r' => p.Closing r' rest := by
  obtain ⟨hnotin, hnodup⟩ := List.nodup_cons.1 h.nodup
  have hs : p.shape? g = some (.decl (.function f)) := Arena.shape?_of_function? hf
  have h0 := Arena.ne_zero_of_shape hs
  have hroot := hp.globals g hg.1
  have hin := hp.tree.inTree_child p.inTree_root hroot
  have hsub : (f.params ++ [f.body]).Sublist (Shape.slots (ν := Symbol) (.decl (.function f))) := by
    simp [Shape.slots]
  have hchild : ∀ c ∈ f.params ++ [f.body], c ≠ 0 → c ∈ p.children g := fun c hc hc0 =>
    mem_children_of_slot hs (hsub.subset hc) hc0
  have hunmet := h.fresh g List.mem_cons_self hg
  let r₀ : Resolver :=
    { r with function := some g, seenGlobals := [], seenCallees := [], frames := [[]] }
  have hopened : p.Advance ([], r) ([], r₀) := by
    refine .opened h0 (h.headed g hg) fun e he hfn => ?_
    have hb := hw.below_functionOf (i := e) (hfn ▸ h0)
    rw [hunmet e (hfn ▸ hb)] at he
    cases he
  have hinside : p.Inside r₀ (f.params ++ [f.body]) := by
    refine ⟨(hp.clear_globals (List.singleton_sublist.2 hg.1)).children hp.tree hs hsub, rfl,
      fun c hc hc0 hcf => ?_, fun l hl x hx => ?_, h.made, fun c hc hc0 j hb =>
        hunmet j (.of_child (hchild c hc hc0) hb)⟩
    · rw [hw.functionOf_eq hc0, hcf, hp.tree.parent hin (hchild c hc hc0), hw.functionOf_eq h0, hf]
      rfl
    · rw [List.mem_singleton.1 hl] at hx
      cases hx
  have hparam : ∀ d ∈ f.params,
      ∀ v, p.asVariable? d = some v → r₀.stmt = p.statementOf d := fun d hd v hv =>
    h.stmt.trans (hp.statementOf_parameter hw hg hf hd
      (Arena.ne_zero_of_shape (Arena.shape?_of_asVariable? hv))).symm
  unfold body
  refine .bind
    (.modify (.bind ((course_parameters hp hw g f.params r₀ (hinside.sublist (by simp)) hparam).mono
    fun _ r₁ h₁ => ?_)))
  refine .bind ((course_statement hp hw _ f.body true r₁ (hinside.passed h₁)).mono fun b r₂ h₂ =>
    ?_)
  refine .bind (.modify (.modify ?_))
  have hall := h₁.trans h₂
  have hadvance : p.Course ([], r) ([], { r₂ with facts := { r₂.facts with
      functions := r₂.facts.functions.modify g fun x => { x with behaviors := b } } }) :=
    .head hopened (hall.course.tail (.calm
      (Idle.updated r₂ g (g := fun x => { x with behaviors := b }) fun _ => rfl).toCalm))
  refine ⟨⟨h.course.trans (hadvance.tail .closed), rfl, hall.stmt.trans h.stmt,
    fun l hl => absurd hl List.not_mem_nil⟩,
    hnodup, fun k hk => Course.heads hadvance k (h.headed k hk), fun k hk hkf j hb =>
      ?_, h.made.mono hall.latest⟩
  rcases hall.kept j with heq | ⟨c, hc, hc0, hcb⟩ | ⟨x, hx, _, hwhen⟩
  · exact heq.trans (h.fresh k (List.mem_cons_of_mem _ hk) hkf j hb)
  · refine absurd hb (hp.function_apart hg.1 hkf.1 ?_ (.of_child (hchild c hc hc0) hcb))
    rintro rfl
    exact hnotin hk
  · have hnew := (hwhen (.inr rfl)).2.1
    have := h.made x hx
    rw [show r.facts.latest[x]? = none from hnew] at this
    cases this

include hw in
/-- Resolution of a module takes the small steps and then sums up. -/
theorem course_module :
    Ends (module p.scene p.globals) p.unresolved fun _ r' =>
      ∃ r, p.Course ([], p.unresolved) ([], r) ∧
    (∀ g, p.IsFunction g → (r.facts.functions[g]?).isSome = true) ∧
    r'.facts = r.facts.summarize p.globals := by
  have hnodup := hp.tree.globals_nodup fun g hg => Arena.ne_zero_of_mem_children (hp.globals g hg)
  have hstart : p.Opening p.unresolved p.globals :=
    ⟨⟨.refl, rfl, rfl, fun l hl => absurd hl List.not_mem_nil⟩, fun g => by simp [unresolved],
      fun j hj => by simp [unresolved] at hj, fun _ _ _ _ _ _ => by
        simp [unresolved], fun g hg => .inl hg.1⟩
  unfold module
  refine .bind (.forIn (fun rest r => p.Opening r rest) hstart (fun g rest r hg h => ?_)
    fun r₁ h₁ => ?_)
  · split
    · exact .bind ((h.declares hp hw hg).mono fun _ r' h' => .pure ⟨rfl, h'⟩)
    · next hf =>
      refine .pure ⟨rfl, { h with made := fun x hx => (h.made x hx).imp_left fun hm => ?_ }⟩
      refine (List.mem_cons.1 hm).resolve_left ?_
      rintro rfl
      have hf : ¬ (p.function? x).isNone = true := hf
      exact IsFunction.not_isValue ⟨hg, by simpa [Option.isSome_iff_ne_none] using hf⟩ hx
  have hheading : p.Heading r₁ p.globals := by
    refine ⟨h₁.toOutside, hnodup, fun g => ?_, h₁.inValues,
      fun g hg => (h₁.made g hg).resolve_left List.not_mem_nil⟩
    rw [h₁.headless g]
    simp only [Option.isSome_none, Bool.false_eq_true, false_iff, not_and, not_not]
    exact fun hg => hg.1
  refine .bind (.forIn (fun rest r => p.Heading r rest) hheading (fun g rest r hg h => ?_)
    fun r₂ h₂ => ?_)
  · split
    · next f hf =>
      have hf : p.function? g = some f := hf
      exact .bind ((h.heads ⟨hg, by simp [hf]⟩ f).mono fun _ r' h' => .pure ⟨rfl, h'⟩)
    · next hf =>
      refine .pure ⟨rfl, { h with nodup := (List.nodup_cons.1 h.nodup).2, headed := fun k => ?_ }⟩
      rw [h.headed, List.mem_cons, not_or]
      refine and_congr_right fun hk => and_iff_right ?_
      rintro rfl
      obtain ⟨f, hf'⟩ := Option.isSome_iff_exists.1 hk.2
      exact hf f hf'
  have hclosing : p.Closing r₂ p.globals := by
    refine ⟨h₂.toOutside, hnodup, fun g hg => (h₂.headed g).2 ⟨hg, List.not_mem_nil⟩,
      fun g hg hgf j hb => ?_, h₂.made⟩
    by_contra hs
    exact hp.not_inFunction (h₂.inValues j (Option.isSome_iff_ne_none.2 hs)) ⟨g, hg, hgf.2, hb⟩
  refine .bind (.forIn (fun rest r => p.Closing r rest) hclosing (fun g rest r hg h => ?_)
    fun r₃ h₃ => ?_)
  · split
    · next f hf =>
      have hf : p.function? g = some f := hf
      exact .bind ((h.closes hp hw ⟨hg, by simp [hf]⟩ hf).mono fun _ r' h' => .pure ⟨rfl, h'⟩)
    · exact .pure ⟨rfl, { h with
        nodup := (List.nodup_cons.1 h.nodup).2, fresh :=
          fun k hk => h.fresh k (List.mem_cons_of_mem _ hk) }⟩
  · exact .modify ⟨r₃, h₃.course, h₃.headed, rfl⟩

end Module

/-- What resolution of a program comes to before it sums up. -/
structure Resolved (p : Program) (r : Resolver) : Prop where
  rooted : p.Rooted p.scene.module
  walked : p.Walked
  course : p.Course ([], p.unresolved) ([], r)
  heads : ∀ g, p.IsFunction g → (r.facts.functions[g]?).isSome = true
  facts : p.facts = r.facts.summarize p.globals

/-- A program that is a tree is resolved by small steps, unless something was wrong with it
before. -/
theorem TreeShaped.exists_resolved {b : Builder} (ht : b.build.TreeShaped) (h0 : 0 ∉ b.globals)
    (hd : b.diagnostics.hasErrors = false) : ∃ r, b.build.Resolved r := by
  have hp := ht.rooted h0
  obtain ⟨r, hcourse, hheads, hfacts⟩ := (course_module hp b.walked_build).run
  refine ⟨r, hp, b.walked_build, hcourse, hheads, ?_⟩
  rw [(outcome_build hd).1]
  exact hfacts

/-- So is a program of a document, whatever it says. -/
theorem exists_resolved {m : Document.Module} (h : m.decode = .ok p) : ∃ r, p.Resolved r := by
  obtain ⟨b, hgood, _, _, hnone, rfl⟩ := Document.decode_good h
  exact (hgood.toFit.build.treeShaped (hgood.counted_build trivial)).exists_resolved
    (fun h => Nat.lt_irrefl _ (hgood.toFit.globals 0 h).1) (by simp [hnone, Diagnostics.hasErrors])

end Program
end ShaderLoom
