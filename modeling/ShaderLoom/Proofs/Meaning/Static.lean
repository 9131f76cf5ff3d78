import ShaderLoom.Proofs.Meaning.Complete
import ShaderLoom.Proofs.Meaning.Settled
import ShaderLoom.Proofs.Meaning.Sound

/-! Well typed modules without tables for the bodies of their functions. The declarations of the
module are resolved in their order, at their first use, and from then on everything about the module
is known. -/
namespace ShaderLoom

section Growth

variable {a : Arena} {M : Frame} {F : NodeId → ExprFacts → Prop} {T T₁ T₂ T' : Table}

/-- Variables are numbered from zero on, and every number stands for one. -/
structure Table.Numbered (T : Table) (V : List Made) : Prop where
  vars : ∀ n, T.vars n = V[n]?
  size : T.size = V.length
  latest : ∀ d n, T.latest d = some n → n < V.length

/-- Nothing known is forgotten, and the numbering goes on. -/
structure Table.Grows (T T' : Table) : Prop where
  types : ∀ d, (T.types d).isSome → (T'.types d).isSome
  latest : ∀ d, (T.latest d).isSome → (T'.latest d).isSome
  numbered : ∀ V, T.Numbered V → ∃ V', T'.Numbered V'

namespace Table.Grows

theorem refl (T : Table) : T.Grows T := ⟨fun _ h => h, fun _ h => h, fun V h => ⟨V, h⟩⟩

theorem trans (h : T.Grows T₁) (h' : T₁.Grows T₂) : T.Grows T₂ :=
  ⟨fun d hd => h'.types d (h.types d hd), fun d hd => h'.latest d (h.latest d hd), fun V hV =>
    let ⟨V', hV'⟩ := h.numbered V hV
    h'.numbered V' hV'⟩

theorem of_beyond (h : T.SameBeyondTypes T') (ht : ∀ d, (T.types d).isSome → (T'.types d).isSome) :
    T.Grows T' :=
  ⟨ht, fun d hd => by rwa [h.latest], fun V hV =>
    ⟨V, fun n => by rw [h.vars, hV.vars], by
      rw [h.size, hV.size], fun d n hn => hV.latest d n (by rwa [h.latest] at hn)⟩⟩

theorem setType (i : NodeId) (t : Ty) : T.Grows (T.setType i t) := by
  refine of_beyond ⟨rfl, rfl, rfl, rfl, rfl⟩ fun d hd => ?_
  change (Function.update T.types i (some t) d).isSome
  rw [Function.update_apply]
  split
  · rfl
  · exact hd

theorem keepType (i : NodeId) (t : Option Ty) : T.Grows (T.keepType i t) := by
  cases t with
  | none => exact refl T
  | some t => exact setType i t

theorem note (i : NodeId) (e : ExprFacts) : T.Grows (T.note i e) :=
  ⟨fun _ h => h, fun _ h => h, fun V h => ⟨V, ⟨h.vars, h.size, h.latest⟩⟩⟩

theorem keepSense (i : NodeId) (o : Option ExprFacts) : T.Grows (T.keepSense i o) := by
  cases o with
  | none => exact refl T
  | some e => exact note i e

theorem setResult (d : NodeId) (t : Option Ty) : T.Grows (T.setResult d t) :=
  ⟨fun _ h => h, fun _ h => h, fun V h => ⟨V, ⟨h.vars, h.size, h.latest⟩⟩⟩

theorem addValue (d : NodeId) (t : Option Ty) : T.Grows (T.addValue d t) := by
  refine ⟨fun _ h => h, fun x hx => ?_,
    fun V h => ⟨V ++ [⟨d, t⟩], fun n => ?_, ?_, fun x n hn => ?_⟩⟩
  · rw [latest_addValue, Function.update_apply]
    split
    · rfl
    · exact hx
  · change Function.update T.vars T.size _ n = _
    rw [h.size]
    by_cases hn : n = V.length
    · rw [hn, Function.update_self, List.getElem?_concat_length]
    · rw [Function.update_of_ne hn, h.vars]
      rcases Nat.lt_or_gt_of_ne hn with hlt | hgt
      · rw [List.getElem?_append_left hlt]
      · rw [List.getElem?_eq_none (Nat.le_of_lt hgt),
          List.getElem?_eq_none (by rw [List.length_append]; exact hgt)]
  · simp [Table.addValue, h.size]
  · rw [latest_addValue, Function.update_apply] at hn
    rw [List.length_append, List.length_singleton]
    split at hn
    · cases hn
      rw [h.size]
      exact Nat.lt_succ_self _
    · exact Nat.lt_succ_of_lt (h.latest x n hn)

end Table.Grows

theorem Typing.grows {P : List NodeId} {f : TypeFinding} (h : Typing a M P T f T') :
    T.Grows T' := by
  induction h with
  | absent => exact .refl _
  | plain => exact .setType _ _
  | around _ _ _ ih => exact ih.trans (.keepType _ _)
  | @named _ T _ i _ d _ _ _ _ _ ih =>
    have hname : T.Grows (T.setName i d) :=
      ⟨fun _ h => h, fun _ h => h, fun V h => ⟨V, ⟨h.vars, h.size, h.latest⟩⟩⟩
    exact (hname.trans ih).trans (.keepType _ _)
  | known => exact .refl _
  | @struct _ T T' d s ms as found _ _ _ _ ih =>
    have hset : ∀ (T : Table) d x, T.Grows (T.setStruct d x) := fun T d x =>
      ⟨fun _ h => h, fun _ h => h, fun V h => ⟨V, ⟨h.vars, h.size, h.latest⟩⟩⟩
    exact (((hset _ _ _).trans (.setType _ _)).trans ih).trans (hset _ _ _)
  | typeAlias _ _ _ _ ih => exact ih.trans (.keepType _ _)
  | nil => exact .refl _
  | member _ _ _ ih₁ ih₂ => exact ih₁.trans ih₂
  | stray _ _ ih => exact ih

theorem Valued.grows {v : VariableShape Symbol NodeId} {t₀ t : Option Ty}
    (h : Valued a M v t₀ T t T') : T.Grows T' := by
  cases h with
  | named _ h => exact h.grows
  | inferred _ _ => exact .refl _

theorem Calling.grows {g : NodeId} {k : Callee} (h : Calling a M T g k T') : T.Grows T' := by
  cases h with
  | typed _ h => exact h.grows
  | declared _ _ _ h => exact h.grows
  | function _ _ _ _ => exact .refl _
  | builtin _ _ _ => exact .refl _

theorem Sensing.grows {Γ : List Frame} {f : ExprFinding} (h : Sensing a M F Γ T f T') :
    T.Grows T' := by
  induction h with
  | absent => exact .refl _
  | known => exact (Table.Grows.note _ _).trans (.keepSense _ _)
  | entered _ _ _ _ _ hval _ ih =>
    exact ((((Table.Grows.note _ _).trans ih).trans hval.grows).trans (.addValue _ _)).trans
      (.keepSense _ _)
  | plain _ _ _ _ ih => exact ((Table.Grows.note _ _).trans ih).trans (.keepSense _ _)
  | call _ _ hk _ ih => exact (((Table.Grows.note _ _).trans ih).trans hk.grows).trans (.note _ _)
  | nil => exact .refl _
  | cons _ _ ih₁ ih₂ => exact ih₁.trans ih₂

theorem Introducing.grows {d : NodeId} (h : Introducing a M F d T T') : T.Grows T' := by
  cases h with
  | type _ h => exact h.grows
  | known _ _ => exact .refl _
  | value _ _ hinit hval => exact (hinit.grows.trans hval.grows).trans (.addValue _ _)
  | other _ _ => exact .refl _

theorem Heading.grows {d : NodeId} (h : Heading a M d T T') : T.Grows T' := by
  cases h with
  | typed _ _ h => exact ((Table.Grows.setResult _ _).trans h.grows).trans (.setResult _ _)
  | void _ _ => exact .setResult _ _
  | other _ => exact .refl _

theorem Along.grows {step : NodeId → Table → Table → Prop}
    (hstep : ∀ {d T T'}, step d T T' → T.Grows T') {gs : List NodeId} (h : Along step gs T T') :
    T.Grows T' := by
  induction h with
  | nil => exact .refl _
  | cons h _ ih => exact (hstep h).trans ih

end Growth

/-- Every type node that a type or an alias has to have is there. -/
structure Arena.TypesPresent (a : Arena) : Prop where
  around : ∀ {i x e f}, a.shape? i = some (.type x) → x.around? = some (e, f) → e ≠ 0
  typeAlias : ∀ {d s ty}, a.shape? d = some (.decl (.typeAlias s ty)) → ty ≠ 0

theorem Program.Fit.typesPresent {p : Program} (hp : p.Fit) : p.toArena.TypesPresent := by
  constructor
  · intro i x e f hx he
    obtain ⟨n, hn, hs⟩ := Option.map_eq_some_iff.1 hx
    refine hp.present hn e ?_
    rw [hs]
    cases x <;> simp [TypeShape.around?] at he <;> simp [Shape.required, Shape.slots, he.1]
  · intro d s ty hd
    obtain ⟨n, hn, hs⟩ := Option.map_eq_some_iff.1 hd
    exact hp.present hn ty (by simp [hs, Shape.required, Shape.slots])

section Known

variable {a : Arena} {M : Frame} {F : NodeId → ExprFacts → Prop} {T T₁ T₂ T' : Table}

/-- There is a type, and a structure or alias that has it is known. -/
def TypeFinding.Present (T : Table) : TypeFinding → Prop
  | node i t => i ≠ 0 → t.isSome
  | decl d t => t.isSome ∧ (T.types d).isSome
  | members _ _ => True

theorem Typing.present (ha : a.TypesPresent) {P : List NodeId} {f : TypeFinding}
    (h : Typing a M P T f T') : f.Present T' := by
  induction h with
  | absent => exact fun h0 => absurd rfl h0
  | plain => exact fun _ => rfl
  | around hx he _ ih =>
    intro _
    rw [Option.isSome_map]
    exact ih (ha.around hx he)
  | named _ _ _ _ ih => exact fun _ => ih.1
  | known ht => exact ⟨rfl, by simp [ht]⟩
  | @struct _ _ _ d _ _ _ _ _ _ _ hms => exact ⟨rfl, hms.grows.types d (by simp [Table.setType])⟩
  | typeAlias hd _ _ _ ih =>
    obtain ⟨u, rfl⟩ := Option.isSome_iff_exists.1 (ih (ha.typeAlias hd))
    exact ⟨rfl, by simp [Table.keepType, Table.setType]⟩
  | nil => trivial
  | member => trivial
  | stray => trivial

theorem Introducing.makes_known (ha : a.TypesPresent) {d : NodeId} (h : Introducing a M F d T T') :
    ((a.shape? d).any Shape.isTypeDecl = true → (T'.types d).isSome) ∧
      ((a.asVariable? d).isSome → (T'.latest d).isSome) := by
  cases h with
  | type hd h =>
    refine ⟨fun _ => (h.present ha).2, fun hv => ?_⟩
    obtain ⟨v, hv⟩ := Option.isSome_iff_exists.1 hv
    rw [Arena.shape?_of_asVariable? hv] at hd
    cases hd
  | known hv hn =>
    refine ⟨fun hd => ?_, fun _ => by simp [hn]⟩
    rw [Arena.shape?_of_asVariable? hv] at hd
    cases hd
  | value hv _ _ _ =>
    refine ⟨fun hd => ?_, fun _ => by simp⟩
    rw [Arena.shape?_of_asVariable? hv] at hd
    cases hd
  | other hd hv => exact ⟨fun h => by simp [h] at hd, fun h => by simp [hv] at h⟩

theorem Along.makes_known (ha : a.TypesPresent) {gs : List NodeId}
    (h : Along (Introducing a M F) gs T T') :
    ∀ d ∈ gs, ((a.shape? d).any Shape.isTypeDecl = true → (T'.types d).isSome) ∧
      ((a.asVariable? d).isSome → (T'.latest d).isSome) := by
  induction h with
  | nil => simp
  | cons hd hrest ih =>
    refine List.forall_mem_cons.2 ⟨?_, ih⟩
    have hgrow := hrest.grows Introducing.grows
    obtain ⟨ht, hl⟩ := hd.makes_known ha
    exact ⟨fun h => hgrow.types _ (ht h), fun h => hgrow.latest _ (hl h)⟩

/-- Once the declarations and the heads of functions are through, everything about the module is
known. -/
theorem settled_of_phases (ha : a.TypesPresent) {gs : List NodeId}
    (hM : ∀ s d, M.find? s = some d → d ∈ gs) (h₁ : Along (Introducing a M F) gs .empty T₁)
    (h₂ : Along (Heading a M) gs T₁ T₂) : T₂.Settled a M ∧ ∃ V, T₂.Numbered V := by
  have hgrow := h₂.grows Heading.grows
  obtain ⟨V₁, hV₁⟩ := (h₁.grows Introducing.grows).numbered
    [] ⟨fun _ => by simp [Table.empty], rfl, fun _ _ h => by cases h⟩
  obtain ⟨V, hV⟩ := hgrow.numbered V₁ hV₁
  refine ⟨⟨fun s d hs hd => hgrow.types d ((h₁.makes_known ha d (hM s d hs)).1 hd),
    fun s d hs hd => hgrow.latest d ((h₁.makes_known ha d (hM s d hs)).2 hd), fun d n hn => ?_⟩, V,
    hV⟩
  rw [hV.vars]
  simpa using hV.latest d n hn

end Known

/-- A module whose declarations have different names is well typed if its types and values are, then
its functions' heads, and their bodies where the module is known. -/
structure Static (a : Arena) (F : NodeId → ExprFacts → Prop) (gs : List NodeId) (M : Frame)
    (E : Table) (V : List Made) : Prop where
  names : gs.foldl (Resolve.collect a) ([], []) = (M, [])
  heads : ∃ T, Along (Introducing a M F) gs .empty T ∧ Along (Heading a M) gs T E
  bodies : ∃ V₀, E.Numbered V₀ ∧ Along (Holds a M E F) gs V₀ V

namespace Table

variable {a : Arena} {M : Frame} {E T : Table} {Δ : Levels} {V : List Made}

theorem Numbered.reflects (h : E.Numbered V) : E.Reflects a M E [] V :=
  ⟨fun _ _ => rfl, rfl, rfl, fun _ _ _ => rfl,
    fun n x hx => by rw [← h.vars, hx], h.vars, h.size, by simp⟩

/-- What was in scope inside a function does not matter after it. -/
theorem Reflects.leave (h : T.Reflects a M E Δ V) : T.Reflects a M E [] V :=
  { h with locals := by simp }

end Table

namespace Program

variable {p : Program} {M : Frame} {E T T' : Table} {F : NodeId → ExprFacts → Prop}
    {V V' : List Made}

/-- The declarations of the module are children of its root, and so are those that have names. -/
structure Rooted (p : Program) (M : Frame) : Prop where
  tree : p.TreeShaped
  globals : ∀ g ∈ p.globals, g ∈ p.children p.root
  names : ∀ s d, M.find? s = some d → d ∈ p.globals

variable (hp : p.Rooted M)
include hp

theorem Rooted.clear {d : NodeId} (hd : d ∈ p.globals) {f : FunctionShape Symbol NodeId}
    (hf : p.function? d = some f) : p.Clear M [[]] (f.params ++ [f.body]) :=
  .function hp.tree hf (hp.globals d hd) fun s g hg => hp.globals g (hp.names s g hg)

theorem Rooted.holds (hE : E.Settled p.toArena M) {d : NodeId} (hd : d ∈ p.globals)
    (h : Containing p.toArena M F d T T') (hT : T.Reflects p.toArena M E [] V) :
    ∃ V', Holds p.toArena M E F d V V' ∧ T'.Reflects p.toArena M E [] V' := by
  cases h with
  | function hf hparams hbody =>
    have hc := hp.clear hd hf
    obtain ⟨Δ₁, V₁, hΓ₁, hparams', hT₁⟩ :=
      hparams.takes hE (hc.sublist (List.sublist_append_left _ _)) rfl hT.opened
    obtain ⟨Δ₂, V₂, _, hbody', hT₂⟩ := hbody.ranges hp.tree hE (hc.steps hparams'.enters) hΓ₁ hT₁
    exact ⟨V₂, .function hf hparams' hbody', hT₂.leave⟩
  | other hf => exact ⟨V, .other hf, hT⟩

theorem Rooted.containing (hE : E.Settled p.toArena M) {d : NodeId} (hd : d ∈ p.globals)
    (h : Holds p.toArena M E F d V V') (hT : T.Reflects p.toArena M E [] V) :
    ∃ T', Containing p.toArena M F d T T' ∧ T'.Reflects p.toArena M E [] V' := by
  cases h with
  | function hf hparams hbody =>
    have hc := hp.clear hd hf
    obtain ⟨T₁, hparams', hT₁⟩ :=
      hparams.parameters hE (hc.sublist (List.sublist_append_left _ _)) hT.opened
    obtain ⟨T₂, hbody', hT₂⟩ := hbody.scoping hp.tree hE (hc.steps hparams.enters) hT₁
    exact ⟨T₂, .function hf hparams' hbody', hT₂.leave⟩
  | other hf => exact ⟨T, .other hf, hT⟩

/-- The bodies of a well typed module, without tables. -/
theorem Rooted.static (ha : p.toArena.TypesPresent) (h : WellTyped p.toArena F p.globals M T) :
    ∃ E V, Static p.toArena F p.globals M E V ∧ T.Reflects p.toArena M E [] V := by
  obtain ⟨hnames, T₁, E, h₁, h₂, h₃⟩ := h
  obtain ⟨hE, V₀, hV₀⟩ := settled_of_phases ha hp.names h₁ h₂
  have hbodies : ∀ {gs T T' V}, (∀ d ∈ gs, d ∈ p.globals) →
      Along (Containing p.toArena M F) gs T T' →
      T.Reflects p.toArena M E [] V → ∃ V', Along (Holds p.toArena M E F) gs V V' ∧
        T'.Reflects p.toArena M E [] V' := by
    intro gs T T' V hgs h hT
    induction h generalizing V with
    | nil => exact ⟨V, .nil, hT⟩
    | cons hd _ ih =>
      obtain ⟨V₁, hd', hT₁⟩ := hp.holds hE (hgs _ List.mem_cons_self) hd hT
      obtain ⟨V₂, hds, hT₂⟩ := ih (fun d h => hgs d (List.mem_cons_of_mem _ h)) hT₁
      exact ⟨V₂, .cons hd' hds, hT₂⟩
  obtain ⟨V, h₃', hT⟩ := hbodies (fun _ h => h) h₃ hV₀.reflects
  exact ⟨E, V, ⟨hnames, ⟨T₁, h₁, h₂⟩, V₀, hV₀, h₃'⟩, hT⟩

/-- Tables for the bodies of a module that is well typed without. -/
theorem Rooted.wellTyped (ha : p.toArena.TypesPresent) (h : Static p.toArena F p.globals M E V) :
    ∃ T, WellTyped p.toArena F p.globals M T ∧ T.Reflects p.toArena M E [] V := by
  obtain ⟨hnames, ⟨T₁, h₁, h₂⟩, V₀, hV₀, h₃⟩ := h
  obtain ⟨hE, _⟩ := settled_of_phases ha hp.names h₁ h₂
  have hbodies : ∀ {gs T V V'}, (∀ d ∈ gs, d ∈ p.globals) → Along (Holds p.toArena M E F) gs V V' →
      T.Reflects p.toArena M E [] V → ∃ T', Along (Containing p.toArena M F) gs T T' ∧
        T'.Reflects p.toArena M E [] V' := by
    intro gs T V V' hgs h hT
    induction h generalizing T with
    | nil => exact ⟨T, .nil, hT⟩
    | cons hd _ ih =>
      obtain ⟨T₁, hd', hT₁⟩ := hp.containing hE (hgs _ List.mem_cons_self) hd hT
      obtain ⟨T₂, hds, hT₂⟩ := ih (fun d h => hgs d (List.mem_cons_of_mem _ h)) hT₁
      exact ⟨T₂, .cons hd' hds, hT₂⟩
  obtain ⟨T, h₃', hT⟩ := hbodies (fun _ h => h) h₃ hV₀.reflects
  exact ⟨T, ⟨hnames, T₁, E, h₁, h₂, h₃'⟩, hT⟩

end Program
end ShaderLoom
