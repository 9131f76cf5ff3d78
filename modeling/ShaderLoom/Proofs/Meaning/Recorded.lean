import ShaderLoom.Proofs.Meaning.Complete
import ShaderLoom.Proofs.Meaning.Heads
import ShaderLoom.Proofs.Meaning.OnceRecorded
import ShaderLoom.Proofs.Meaning.Records
import ShaderLoom.Proofs.Meaning.Sound

/-! In a program that is a tree, all that is found out is what the record says. In a valid one,
functions are declarations of the module and its variables have facts; these are read off the
declaration, whether or not the program is valid. -/
namespace ShaderLoom

variable {a : Arena} {M : Frame} {F : NodeId → ExprFacts → Prop} {Γ : List Frame} {T T' : Table}

theorem Table.Finds.isSome (h : T.Finds F T') {j : NodeId} (hj : (T.senses j).isSome) :
    (T'.senses j).isSome := by
  rcases h j with h | ⟨e, h, _⟩
  · rwa [h]
  · simp [h]

/-- Whatever is gone through is in the record. -/
theorem Sensing.noted {noted : NodeId → Prop} {f : ExprFinding} (h : Sensing a M F Γ T f T')
    (hN : ∀ i, (T'.senses i).isSome → noted i) :
    Sensing a M (fun i e => F i e ∧ noted i) Γ T f T' := by
  have hkeep : ∀ {T : Table} {i o}, (T.senses i).isSome → ((T.keepSense i o).senses i).isSome := by
    intro T i o h
    cases o with
    | none => exact h
    | some e => simp [Table.keepSense, Table.note]
  have hmono : ∀ {T : Table} {i o j}, (T.senses j).isSome →
      ((T.keepSense i o).senses j).isSome := by
    intro T i o j h
    cases o with
    | none => exact h
    | some e =>
      change (Function.update T.senses i _ j).isSome
      rw [Function.update_apply]
      split
      · rfl
      · exact h
  induction h with
  | absent => exact .absent
  | known hs hd hn hF => exact .known hs hd hn ⟨hF, hN _ (hkeep (by simp [Table.note]))⟩
  | @entered T T₁ T₂ i s d v t₀ t hs hd hnone hv hinit hval hF ih =>
    have hsenses : (T₂.addValue d t).senses = T₁.senses := (Valued.beyond hval).senses
    have hall : ∀ j, (T₁.senses j).isSome → noted j := fun j hj => hN j (hmono (hsenses ▸ hj))
    exact .entered hs hd hnone hv (ih hall) hval
      ⟨hF, hall i (hinit.finds.isSome (by simp [Table.note]))⟩
  | plain hx hes ho hF ih =>
    have hall := fun j hj => hN j (hmono hj)
    exact .plain hx (ih hall) ho ⟨hF, hall _ (hes.finds.isSome (by simp [Table.note]))⟩
  | @call T T₁ T₂ i g args ts k hx hes hk hF ih =>
    have hall : ∀ j, (T₁.senses j).isSome → noted j := fun j hj =>
      hN j (hmono (o := some (k.sense ts)) ((Calling.beyond hk).senses ▸ hj))
    exact .call hx (ih hall) hk ⟨hF, hall _ (hes.finds.isSome (by simp [Table.note]))⟩
  | nil => exact .nil
  | cons _ hes ih₁ ih₂ => exact .cons (ih₁ fun j hj => hN j (hes.finds.isSome hj)) (ih₂ hN)

theorem Introducing.noted {noted : NodeId → Prop} {d : NodeId} (h : Introducing a M F d T T')
    (hN : ∀ i, (T'.senses i).isSome → noted i) :
    Introducing a M (fun i e => F i e ∧ noted i) d T T' := by
  cases h with
  | type hd ht => exact .type hd ht
  | known hv hn => exact .known hv hn
  | value hv hnone hinit hval =>
    exact .value hv hnone (hinit.noted fun i hi => hN i ((Valued.beyond hval).senses ▸ hi)) hval
  | other hd hv => exact .other hd hv

theorem Along.noted {noted : NodeId → Prop} {gs : List NodeId}
    (h : Along (Introducing a M F) gs T T') (hN : ∀ i, (T'.senses i).isSome → noted i) :
    Along (Introducing a M fun i e => F i e ∧ noted i) gs T T' := by
  induction h with
  | nil => exact .nil
  | cons h hrest ih =>
    exact .cons (h.noted fun i hi => hN i ((hrest.finds Introducing.finds).isSome hi)) (ih hN)

theorem Along.senses {gs : List NodeId} (h : Along (Heading a M) gs T T') :
    T'.senses = T.senses := by
  induction h with
  | nil => rfl
  | cons h _ ih => exact ih.trans h.senses

/-- What is inside functions is all that there is to do for bodies. -/
theorem Along.functions {gs : List NodeId} (h : Along (Containing a M F) gs T T') :
    Along (Containing a M F) (gs.filter fun d => (a.function? d).isSome) T T' := by
  induction h with
  | nil => exact .nil
  | @cons T T₁ T₂ d ds hd _ ih =>
    rw [List.filter_cons]
    split
    · exact .cons hd ih
    · next hnot =>
      cases hd with
      | function hf _ _ => simp [hf] at hnot
      | other _ => exact ih

namespace Program

variable {p : Program}

/-- The inside of the module's functions. -/
def InFunction (p : Program) (i : NodeId) : Prop :=
  ∃ g ∈ p.globals, (p.function? g).isSome ∧ p.Below g i

/-- The inside of the module's own values. -/
def InValue (p : Program) (i : NodeId) : Prop :=
  ∃ g ∈ p.globals, (p.asVariable? g).isSome ∧ p.Below g i

theorem Rooted.not_inFunction (hp : p.Rooted M) {i : NodeId} (hi : p.InValue i) :
    ¬ p.InFunction i := by
  obtain ⟨d, hd, hv, hb⟩ := hi
  rintro ⟨g, hg, hf, hb'⟩
  by_cases hdg : d = g
  · subst hdg
    obtain ⟨v, hv⟩ := Option.isSome_iff_exists.1 hv
    simp [Arena.function?, Arena.shape?_of_asVariable? hv, Shape.function?] at hf
  · exact hp.tree.disjoint p.inTree_root (hp.globals d hd) (hp.globals g hg) hdg hb hb'

theorem Rooted.closedRegion (hp : p.Rooted M) : ClosedRegion p.toArena M p.InValue where
  operands {i x} hi hx e he h0 := by
    obtain ⟨d, hd, hv, hb⟩ := hi
    exact ⟨d, hd, hv, hb.child (mem_children_of_slot hx (x.operands_slots.subset he) h0)⟩
  initializer {s d v} hd hv h0 :=
    ⟨d, hp.names s d hd, by simp [hv], Below.self.child
      (mem_children_of_slot (Arena.shape?_of_asVariable? hv) (by simp [Shape.slots]) h0)⟩

theorem Rooted.clear_globals (hp : p.Rooted M) {gs : List NodeId} (hgs : gs.Sublist p.globals) :
    p.Clear [] [] gs := by
  have hmem : ∀ g ∈ gs, g ∈ p.children p.root := fun g hg => hp.globals g (hgs.subset hg)
  refine ⟨fun g hg _ => hp.tree.inTree_child p.inTree_root (hmem g hg),
    ?_, by simp, fun s d hd => by cases hd⟩
  have hnodup := hp.tree.globals_nodup fun g hg => Arena.ne_zero_of_mem_children (hp.globals g hg)
  refine ((hgs.nodup hnodup).imp_of_mem fun {g g'} hg hg' hne _ _ x hx hx' => ?_)
  exact hp.tree.disjoint p.inTree_root (hmem g hg) (hmem g' hg') hne hx hx'

/-- Everything found out in a tree is what the record says of it in the end. -/
theorem Rooted.recorded (hp : p.Rooted M) (ha : p.toArena.TypesPresent) {S : Table}
    (h : WellTyped p.toArena F p.globals M S) : WellTyped p.toArena S.Recorded p.globals M S := by
  obtain ⟨hnames, T, E, h₁, h₂, h₃⟩ := h
  obtain ⟨hE, _⟩ := settled_of_phases ha hp.names h₁ h₂
  obtain ⟨hlast, _, _⟩ := initialized_of_phases ha h₁ h₂
  have hvalues : ValuesKnown p.toArena M E := hE.values
  obtain ⟨_, hbodies⟩ := h₃.once (S := S) hp.tree hvalues (hp.clear_globals (.refl _))
  obtain ⟨hsame, _⟩ :=
    h₃.functions.once (S := S) hp.tree hvalues (hp.clear_globals List.filter_sublist)
  -- bodies leave alone what is in the values
  have hkept : ∀ i, p.InValue i → S.senses i = T.senses i := by
    intro i hi
    rw [hsame i fun g hg _ hb => ?_, h₂.senses]
    obtain ⟨hg, hf⟩ := List.mem_filter.1 hg
    exact hp.not_inFunction hi ⟨g, hg, hf, hb⟩
  have hsome := hlast.noted fun _ (h : (T.senses _).isSome) => h
  have hnoted : Along (Introducing p.toArena M S.Recorded) p.globals .empty T := by
    refine hsome.imp fun d hd {T T'} hstep =>
      Introducing.restrict hp.closedRegion (fun {i e} hi hfound => ?_)
      (fun {v} hv h0 => ⟨d,
        hd, by simp [hv], Below.self.child (mem_children_of_slot (Arena.shape?_of_asVariable? hv)
        (by simp [Shape.slots]) h0)⟩) hstep
    obtain ⟨⟨_, hfound⟩, hsome⟩ := hfound
    obtain ⟨e', he'⟩ := Option.isSome_iff_exists.1 hsome
    rcases hlast.finds Introducing.finds i with hnone | ⟨e'', he'', _, hfound''⟩
    · rw [he'] at hnone
      cases hnone
    · cases hfound.unique hfound''
      exact (hkept i hi).trans he''
  exact ⟨hnames, T, E, hnoted, h₂, hbodies fun _ _ => rfl⟩

/-- The declarations of a program that is a tree are children of its root, if none is absent. -/
theorem TreeShaped.rooted {b : Builder} (ht : b.build.TreeShaped) (h0 : 0 ∉ b.globals) :
    b.build.Rooted b.build.scene.module := by
  refine ⟨ht, fun g hg => TreeShaped.mem_children_root hg ?_, fun _ _ => Resolve.mem_of_collect⟩
  rw [Builder.globals_build] at hg
  rintro rfl
  exact h0 hg

theorem rooted_build {b : Builder} (hfit : b.Fit) (ht : b.build.TreeShaped) :
    b.build.Rooted b.build.scene.module :=
  ht.rooted fun h => Nat.lt_irrefl _ (hfit.globals 0 h).1

/-- A valid program is well typed, and what is found out about its expressions is what its record
says. -/
theorem recorded_build {b : Builder} (h : b.build.valid = true) (hfit : b.Fit)
    (ht : b.build.TreeShaped) :
    b.build.Rooted b.build.scene.module ∧
      WellTyped b.build.toArena b.build.facts.table.Recorded b.build.globals b.build.scene.module
      b.build.facts.table := by
  have hp := rooted_build hfit ht
  exact ⟨hp, hp.recorded hfit.build.typesPresent (wellTyped_build h)⟩

end Program

section Declared

variable {a : Arena} {M : Frame} {T T' : Table} {i d : NodeId} {gs : List NodeId}

theorem Heading.results (h : Heading a M d T T') (hi : i ≠ d) : T'.results i = T.results i := by
  cases h with
  | typed _ _ ht =>
    refine (Function.update_of_ne hi _ _).trans ?_
    rw [ht.beyond.results]
    exact Function.update_of_ne hi _ _
  | void _ _ => exact Function.update_of_ne hi _ _
  | other _ => rfl

theorem Along.results (h : Along (Heading a M) gs T T') (hi : i ∉ gs) :
    T'.results i = T.results i := by
  induction h with
  | nil => rfl
  | cons h _ ih =>
    exact (ih (List.not_mem_of_not_mem_cons hi)).trans (h.results (List.ne_of_not_mem_cons hi))

end Declared

namespace Program

variable {b : Builder}

/-- The functions of a valid program are declarations of its module. -/
theorem mem_globals_of_function (hv : b.build.valid = true) (hfit : b.Fit) (ht : b.build.TreeShaped)
    {i : NodeId} (hi : (b.build.facts.functions[i]?).isSome) : i ∈ b.build.globals := by
  obtain ⟨hroot, htyped⟩ := recorded_build hv hfit ht
  obtain ⟨E, V, ⟨_, ⟨T₁, h₁, h₂⟩, _⟩, hreflects⟩ := hroot.static hfit.build.typesPresent htyped
  by_contra hnot
  have hresults : b.build.facts.table.results i = none := by
    rw [hreflects.results, h₂.results hnot]
    exact (h₁.underway (.empty _ _)).1.results i
  simp only [Facts.table, Option.map_eq_none_iff] at hresults
  simp [hresults] at hi

/-- The variables of a valid module have facts. -/
theorem variableAt_build (hv : b.build.valid = true) (hfit : b.Fit) (ht : b.build.TreeShaped)
    {g : NodeId} (hg : g ∈ b.build.globals) (hvar : (b.build.asVariable? g).isSome) :
    ∃ x, b.build.facts.variableAt g = some x := by
  obtain ⟨hroot, htyped⟩ := recorded_build hv hfit ht
  obtain ⟨E, V, ⟨hnames, ⟨T₁, h₁, h₂⟩, _⟩, hreflects⟩ := hroot.static hfit.build.typesPresent htyped
  obtain ⟨s, -, hs⟩ := (Resolve.find?_of_collect hnames).2 g hg
  have hknown : (b.build.facts.table.latest g).isSome := by
    rw [hreflects.globals s g hs]
    exact (h₂.grows Heading.grows).latest g ((h₁.makes_known hfit.build.typesPresent g hg).2 hvar)
  obtain ⟨n, hn⟩ := Option.isSome_iff_exists.1 hknown
  obtain ⟨x, hx, _⟩ := Built.sound ⟨b, [], (withDiagnostics_nil _).symm⟩ |>.latest hn
  have hn : b.build.facts.latest[g]? = some n := hn
  exact ⟨x, by simp [Facts.variableAt, hn, hx]⟩

/-- The facts of a variable are those of its declaration. -/
theorem Built.variableAt {p : Program} (h : p.Built) {i : NodeId} {x : VariableFacts}
    (hx : p.facts.variableAt i = some x) :
    ∃ w, p.asVariable? i = some w ∧
      x = { Resolve.variableFacts p.toArena i w x.scope x.type with users := x.users } := by
  have hdecl := h.recorded.decl hx
  obtain ⟨n, _, hx⟩ := Option.bind_eq_some_iff.1 hx
  exact hdecl ▸ h.sound.made hx

end Program
end ShaderLoom
