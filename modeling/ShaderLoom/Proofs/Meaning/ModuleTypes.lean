import ShaderLoom.Proofs.Copy.Trim
import ShaderLoom.Proofs.Document.Acceptance
import ShaderLoom.Proofs.Document.RoundTrip
import ShaderLoom.Proofs.Meaning.Recursion

/-! Resolution of a whole module, as far as types go. Types are looked for while no declaration is
pending, and nothing else changes what is known of them; so what the rules keep is kept to the end,
and what they find out of a declaration at its turn stays. -/
namespace ShaderLoom.Resolve

section Rounds

variable {α : Type} {c : Scene} {r r' : Resolver}

/-- What is known of types while none is looked for. -/
structure Consistent (c : Scene) (r : Resolver) : Prop where
  idle : r.pending = []
  one : ∀ {d s ms as}, c.arena.shape? d = some (.decl (.struct s ms as)) →
    OneType c d (.struct d (c.arena.nameOf s)) r
  named : ∀ {i d : NodeId}, IsStruct c d → r.facts.typeDecls[i]? = some d → StandsFor c d i ∧
    (r.facts.types[i]?).isSome
  cyclic : NoneCyclic c r

theorem Consistent.entered (h : Consistent c r) : Entered c r := by
  intro d hd
  rw [h.idle] at hd
  cases hd

/-- What stands for a structure and has a type has the structure's. -/
theorem Consistent.type_of_standsFor (h : Consistent c r) {d i : NodeId} {s : Symbol}
    {ms as : List NodeId} (hd : c.arena.shape? d = some (.decl (.struct s ms as)))
    (hi : StandsFor c d i) (ht : (r.facts.types[i]?).isSome) :
    r.facts.types[i]? = some (.struct d (c.arena.nameOf s)) := by
  obtain ⟨t, ht⟩ := Option.isSome_iff_exists.1 ht
  rw [ht, h.one hd i hi t ht]

theorem Settles.consistent {f : TypeFinding} (h : Settles c r f r') (hr : Consistent c r) :
    Consistent c r' := by
  refine ⟨h.pending.trans hr.idle, fun hs => (h.oneType hs (hr.one hs)).2, fun hs hi => ?_,
    (h.cycles hr.cyclic).2⟩
  rcases (h.typed hr.entered).2 _ _ hs hi with hbefore | hafter
  · exact ⟨(hr.named hs hbefore).1, h.later.types _ (hr.named hs hbefore).2⟩
  · exact hafter

/-- One step of resolution: what a look for a type does while nothing is pending, or something
beside types. -/
inductive Round (c : Scene) (r r' : Resolver) : Prop
  | settled : (r.pending = [] → ∃ f, Settles c r f r') → Round c r r'
  | beside : r'.pending = r.pending → r'.facts.types = r.facts.types →
    r'.facts.typeDecls = r.facts.typeDecls →
    r.diagnostics <+: r'.diagnostics → Round c r r'

theorem Round.consistent (h : Round c r r') (hr : Consistent c r) :
    Consistent c r' ∧ Later r r' := by
  cases h with
  | settled h =>
    obtain ⟨f, h⟩ := h hr.idle
    exact ⟨h.consistent hr, h.later⟩
  | beside hpending htypes hnames hdiagnostics =>
    refine ⟨⟨hpending.trans hr.idle, fun hs x hx u hu => ?_, fun hs hi => ?_, fun a ha => ?_⟩,
      fun x hx => ?_, hdiagnostics⟩
    · rw [htypes] at hu
      exact hr.one hs x hx u hu
    · rw [hnames] at hi
      rw [htypes]
      exact hr.named hs hi
    · rw [htypes]
      exact hr.cyclic a ha
    · rw [htypes]
      exact hx

/-- What is known stays consistent through all steps. -/
theorem Moves.consistent {step : Resolve α} (h : Moves (Round c) step) (hr : Consistent c r) :
    Ends step r fun _ r' => Consistent c r' ∧ Later r r' :=
  (h r).mono fun _ r' hrun => by
    induction hrun with
    | refl => exact ⟨hr, .refl r⟩
    | tail _ hround ih =>
      obtain ⟨hkept, hlater⟩ := hround.consistent ih.1
      exact ⟨hkept, ih.2.trans hlater⟩

theorem Round.of_facts {facts : Facts} (htypes : facts.types = r.facts.types)
    (hnames : facts.typeDecls = r.facts.typeDecls) : Round c r { r with facts } :=
  .beside rfl htypes hnames List.prefix_rfl

end Rounds

section Modules

variable {c : Scene} {tree : NodeId → Prop} {rank : NodeId → Nat} {gs : List NodeId} {L : Nat}
  (hc : Charted c tree rank gs L) (htree : ∀ i x, c.arena.shape? i = some x → tree i)
include hc

theorem ends_typeDecl {r : Resolver} (hr : r.pending = []) {d : NodeId} (hd : d ∈ gs)
    (hdecl : (c.arena.shape? d).any Shape.isTypeDecl = true) :
    Ends (typeDecl c c.fuel d) r fun t r' => Settles c r (.decl d t) r' :=
  settles_typeDecl hc (Nat.le_refl _) (by simp [hr]) (by simp [hr]) hd hdecl

/-- What is known of a declaration once its turn is over. -/
def KnownDecl (c : Scene) (d : NodeId) (r : Resolver) : Prop :=
  (IsStruct c d → (r.facts.types[d]?).isSome) ∧ (Cyclic c d → CycleReported c d r)

omit hc in
theorem KnownDecl.later {d : NodeId} {r r' : Resolver} (h : KnownDecl c d r) (hlater : Later r r') :
    KnownDecl c d r' :=
  ⟨fun hs => hlater.types d (h.1 hs), fun hcyclic => (h.2 hcyclic).later hlater⟩

omit hc in
/-- There is nothing to know of what is neither a structure nor an alias. -/
theorem known_of_not_typeDecl {d : NodeId} (h : (c.arena.shape? d).any Shape.isTypeDecl = false)
    (r : Resolver) : KnownDecl c d r := by
  constructor
  · rintro ⟨s, ms, as, hs⟩
    rw [hs] at h
    cases h
  · intro hcyclic
    obtain ⟨s, ty, b, ha, _⟩ := hcyclic.next
    rw [ha] at h
    cases h

include htree

theorem covers_round : Covers c (· ∈ gs) True (Round c) where
  module := hc.module
  node i r := by
    have hround : Ends (type c c.fuel i) r fun _ r' => Round c r r' := by
      by_cases hr : r.pending = []
      · exact (settles_type hc (Nat.le_refl _) (by simp [hr]) (by simp [hr]) htree i).mono
          fun t _ h => .settled fun _ => ⟨.node i t, h⟩
      · exact (ends_after _ r).mono fun _ _ _ => .settled fun h => absurd h hr
    exact hround.mono fun _ _ => .single
  decl := by
    intro d hd hdecl r
    have hround : Ends (typeDecl c c.fuel d) r fun _ r' => Round c r r' := by
      by_cases hr : r.pending = []
      · exact (ends_typeDecl hc hr hd hdecl).mono fun t _ h => .settled fun _ => ⟨.decl d t, h⟩
      · exact (ends_after _ r).mono fun _ _ _ => .settled fun h => absurd h hr
    exact hround.mono fun _ _ => .single
  report _ d _ := .beside rfl rfl rfl (List.prefix_append _ [d])
  noted _ _ _ := .beside rfl rfl rfl List.prefix_rfl
  framed _ _ _ := .beside rfl rfl rfl List.prefix_rfl
  expr _ _ _ := .of_facts rfl rfl
  mistaken _ _ _ := .of_facts rfl rfl
  made _ _ _ _ := .of_facts rfl rfl
  used _ _ _ := .of_facts rfl rfl
  function _ _ _ _ := .of_facts rfl rfl

theorem statementCovers_round : StatementCovers c (· ∈ gs) (Round c) where
  toCovers := covers_round hc htree
  entered _ _ := .beside rfl rfl rfl List.prefix_rfl
  recorded _ _ := .of_facts rfl rfl

theorem rounds_signature (g : NodeId) (f : FunctionShape Symbol NodeId) :
    Moves (Round c) (signature c g f) := by
  have hlast : ∀ k, Moves (Round c) (updateFunction g k) :=
    fun k => .modify fun _ => .of_facts rfl rfl
  unfold signature
  refine .bind (.modify fun _ => .of_facts rfl rfl) fun _ => ?_
  split
  · exact .bind ((covers_round hc htree).node _) fun _ => hlast _
  · exact .bind (.pure _) fun _ => hlast _

theorem rounds_body (g : NodeId) (f : FunctionShape Symbol NodeId) :
    Moves (Round c) (body c g f) := by
  have hcovers := statementCovers_round hc htree
  unfold body
  exact .bind (.modify fun _ => .beside rfl rfl rfl List.prefix_rfl) fun _ =>
    .bind (.forM f.params (hcovers.moves_parameter trivial g)) fun _ =>
      .bind (hcovers.moves_statement _ _ _) fun _ =>
    .bind (.modify fun _ => .of_facts rfl rfl) fun _ =>
      .modify fun _ => .beside rfl rfl rfl List.prefix_rfl

omit htree in
/-- What is referred to is among the declarations. -/
theorem Charted.globals_of_refers {d i : NodeId} (h : Refers c d i) : d ∈ gs := by
  induction h with
  | name _ hfind => exact hc.module hfind
  | around _ _ _ ih => exact ih

/-- After its turn a declaration is known. -/
theorem resolves_declaration {r : Resolver} (hr : Consistent c r) {d : NodeId} (hd : d ∈ gs) :
    Ends (declaration c d) r fun _ r' => (Consistent c r' ∧ Later r r') ∧ KnownDecl c d r' := by
  refine (((covers_round hc htree).moves_declaration hd).consistent hr).and ?_
  by_cases hdecl : (c.arena.shape? d).any Shape.isTypeDecl = true
  · have hsettled := (ends_typeDecl hc hr.idle hd hdecl).mono
      fun t r' (h : Settles c r (.decl d t) r') =>
        (⟨fun hs => ((h.typed hr.entered).1 hs).2, fun hcyclic =>
        ((h.cycles hr.cyclic).1 hcyclic).2⟩ : KnownDecl c d r')
    unfold declaration
    rcases Arena.shape?_of_isTypeDecl hdecl with ⟨s, ms, as, hs⟩ | ⟨s, ty, hs⟩
    · rw [hs]
      exact .bind (hsettled.mono fun _ _ h => .pure h)
    · rw [hs]
      exact .bind (hsettled.mono fun _ _ h => .pure h)
  · exact (ends_after _ r).mono fun _ r' _ => known_of_not_typeDecl (by simpa using hdecl) r'

/-- When a module is resolved, all its declarations are known. The first loop has a turn for each
structure and alias; no later step loses what it found out. -/
theorem resolves_module {r : Resolver} (hr : Consistent c r) :
    Ends (module c gs) r fun _ r' => Consistent c r' ∧ ∀ d ∈ gs, KnownDecl c d r' := by
  unfold module
  refine .bind ((Ends.forIn (fun rest r' => Consistent c r' ∧ ∀ d ∈ gs, d ∈ rest ∨ KnownDecl c d r')
    ⟨hr, fun d hd => .inl hd⟩ (Q := fun _ r' => Consistent c r' ∧ ∀ d ∈ gs, KnownDecl c d r') ?_
    ?_).mono fun _ r₁ h₁ => ?_)
  · intro d rest r₁ hd hinv
    obtain ⟨hr₁, hrest⟩ := hinv
    have hdone : ∀ r₂, Consistent c r₂ → Later r₁ r₂ → KnownDecl c d r₂ → Consistent c r₂ ∧
        ∀ x ∈ gs, x ∈ rest ∨ KnownDecl c x r₂ := by
      refine fun r₂ hr₂ hlater hd₂ => ⟨hr₂, fun x hx => ?_⟩
      rcases hrest x hx with hmem | hx
      · rcases List.mem_cons.1 hmem with rfl | hmem
        · exact .inr hd₂
        · exact .inl hmem
      · exact .inr (hx.later hlater)
    split
    · exact .bind ((resolves_declaration hc htree hr₁ hd).mono fun _ r₂ h₂ =>
        .pure ⟨rfl, hdone r₂ h₂.1.1 h₂.1.2 h₂.2⟩)
    · next hfun =>
      refine .pure ⟨rfl, hdone r₁ hr₁ (.refl r₁) (known_of_not_typeDecl ?_ r₁)⟩
      cases hs : c.arena.shape? d with
      | none => rfl
      | some x =>
        cases x with
        | decl x =>
          cases x with
          | function f => rfl
          | _ => simp [Arena.function?, hs, Shape.function?] at hfun
        | _ => rfl
  · intro r₁ hinv
    exact ⟨hinv.1, fun d hd => (hinv.2 d hd).resolve_left List.not_mem_nil⟩
  · have hstep : ∀ {step : Resolve PUnit}, Moves (Round c) step →
        Moves (Round c) (do step; pure (ForInStep.yield PUnit.unit)) :=
          fun h => .bind h fun _ => .pure _
    refine ((Moves.bind (.forIn gs fun g _ => ?_) fun _ => .bind (.forIn gs fun g _ => ?_) fun _ =>
      .modify fun r => ?_).consistent h₁.1).mono fun _ r' h' =>
        ⟨h'.1, fun d hd => (h₁.2 d hd).later h'.2⟩
    · split
      · exact hstep (rounds_signature hc htree g _)
      · exact .pure _
    · split
      · exact hstep (rounds_body hc htree g _)
      · exact .pure _
    · obtain ⟨functions, entryPoints, hsummary⟩ := r.facts.summarize_eq gs
      dsimp only
      rw [hsummary]
      exact .of_facts rfl rfl

end Modules
end ShaderLoom.Resolve

namespace ShaderLoom.Document

open Relation (TransGen)
open Resolve

variable {m : Module} {p : Program}

/-- The nodes of a document are charted, all of them in the tree. -/
theorem decode_charted (h : m.decode = .ok p) :
    (∃ rank, Charted p.scene (fun i => p.inTree i = true) rank p.globals p.treeIds.length) ∧
      ∀ i x, p.shape? i = some x → p.inTree i = true := by
  constructor
  · obtain ⟨b, hgood, _, _, _, rfl⟩ := decode_good h
    have hp := hgood.toFit.build
    have hroot : b.build.root ≤ b.build.size :=
      Nat.le_of_eq (by rw [Builder.root_build, Builder.size_build])
    exact (hp.treeShaped (hgood.counted_build trivial)).charted hroot fun g hg =>
      Nat.ne_of_gt (hp.globals g hg).1
  · intro i x hx
    have hnode := Option.isSome_iff_exists.2 ((Option.map_eq_some_iff.1 hx).imp fun _ h => h.1)
    exact decode_inTree h (Arena.mem_ids.2 (Arena.node?_isSome_iff.1 hnode))

/-- What is known of a document, and what is wrong with it, is what resolution ends with. -/
theorem decode_outcome (h : m.decode = .ok p) :
    p.facts = p.outcome.facts ∧ p.diagnostics = p.outcome.diagnostics := by
  obtain ⟨b, _, _, _, hnone, rfl⟩ := decode_good h
  have houtcome := Program.outcome_build (b := b) (by rw [hnone]; rfl)
  rwa [hnone, List.nil_append] at houtcome

/-- Nothing is known when resolution starts. -/
theorem consistent_unresolved (p : Program) : Consistent p.scene p.unresolved where
  idle := rfl
  one _ x _ u hu := by simp [Program.unresolved] at hu
  named _ hi := by simp [Program.unresolved] at hi
  cyclic a _ := by simp [Program.unresolved]

/-- Resolution of types ends, whatever leads back to itself in a document. From any state in which
declarations of the module are pending, and at any bound from the module's own on, what is found out
about a type node, a structure or an alias is exactly what the rules say, which know of no bound. A
structure has one type, and so has each type node that was found to name it; what stands for it
through names and aliases has no other. Aliases that lead back to themselves have no types, and the
program is invalid, with their cycle reported at one of the aliases on it. -/
theorem decode_settles (h : m.decode = .ok p) :
    (∀ r : Resolver, r.pending.Nodup → (∀ d ∈ r.pending, d ∈ p.globals) → ∀ n, p.scene.fuel ≤ n →
      (∀ i t r', (type p.scene n i).run r = (t, r') ↔ Settles p.scene r (.node i t) r') ∧
      ∀ d ∈ p.globals, (p.shape? d).any Shape.isTypeDecl = true →
        ∀ t r', (typeDecl p.scene n d).run r = (t, r') ↔ Settles p.scene r (.decl d t) r') ∧
    (∀ d ∈ p.globals, ∀ s ms as, p.shape? d = some (.decl (.struct s ms as)) →
      p.facts.types[d]? = some (.struct d (p.nameOf s)) ∧
      (∀ i : NodeId, p.facts.typeDecls[i]? = some d →
        p.facts.types[i]? = some (.struct d (p.nameOf s))) ∧
      ∀ i, StandsFor p.scene d i → ∀ t ∈ p.facts.types[i]?, t = .struct d (p.nameOf s)) ∧
    ∀ a, TransGen (AliasTo p.scene) a a → p.facts.types[a]? = none ∧ p.valid = false ∧
      ∃ b, TransGen (AliasTo p.scene) a b ∧ TransGen (AliasTo p.scene) b a ∧
        Diagnostic.errorAt .resolver "cyclic type declaration" (p.spanOf b) ∈ p.diagnostics := by
  obtain ⟨⟨rank, hc⟩, htree⟩ := decode_charted h
  obtain ⟨hfacts, hdiagnostics⟩ := decode_outcome h
  obtain ⟨hend, hknown⟩ := (resolves_module hc htree (consistent_unresolved p)).run
  rw [hfacts]
  refine ⟨fun r hnodup hP n hn => ⟨fun i => ?_, fun d hd hdecl => ?_⟩, fun d hd s ms as hs => ?_,
    fun a ha => ?_⟩
  · exact fun t r' => run_type_iff hc hn hnodup hP htree
  · exact fun t r' => run_typeDecl_iff hc hn hnodup hP hd hdecl
  · refine ⟨hend.type_of_standsFor hs .itself ((hknown d hd).1 ⟨s, ms, as, hs⟩),
      fun i hi => ?_, hend.one hs⟩
    obtain ⟨hstands, htyped⟩ := hend.named ⟨s, ms, as, hs⟩ hi
    exact hend.type_of_standsFor hs hstands htyped
  · have hglobal : a ∈ p.globals := by
      obtain ⟨_, _, _, _, _, hrefers⟩ := Relation.TransGen.tail'_iff.1 ha
      exact hc.globals_of_refers hrefers
    obtain ⟨b, hab, hba, hmem⟩ := (hknown a hglobal).2 ha
    have hreported :
        Diagnostic.errorAt .resolver "cyclic type declaration" (p.spanOf b) ∈ p.diagnostics := by
      rw [hdiagnostics]
      exact hmem
    have hinvalid : p.diagnostics.hasErrors = true := List.any_eq_true.2 ⟨_, hreported, rfl⟩
    exact ⟨hend.cyclic a ha, by rw [Program.valid, hinvalid]; rfl, b, hab, hba, hreported⟩

/-- The declarations `alias A = array<B, 2>; alias B = A; struct S { s: array<S> }`. -/
def rings : Module where
  globals := [
    some { kind := "Alias", name := "A"
           type := some { kind := "Array", elem := some { kind := "TypeName", name := "B" }
                          count := 2 } },
    some { kind := "Alias", name := "B", type := some { kind := "TypeName", name := "A" } },
    some { kind := "Struct", name := "S", members := [
      some { kind := "StructMember", name := "s"
             type := some { kind := "Array"
                            elem := some { kind := "TypeName", name := "S" } } }] }]

theorem decode_settles_rings :
    ∃ p d a, rings.decode = .ok p ∧ d ∈ p.globals ∧ TransGen (AliasTo p.scene) a a ∧
    p.facts.types[d]? = some (.struct d "S") ∧ p.facts.types[a]? = none ∧ p.valid = false := by
  have hok : (rings.decode.toOption.any fun p => decide (9 ∈ p.globals ∧
      p.shape? 9 = some (.decl (.struct 3 [8] [])) ∧ p.nameOf 3 = "S" ∧
      p.shape? 3 = some (.decl (.typeAlias 1 2)) ∧ p.shape? 2 = some (.type (.array 1 2)) ∧
      p.shape? 1 = some (.type (.named 2)) ∧ p.scene.module.find? 2 = some 5 ∧
      p.shape? 5 = some (.decl (.typeAlias 2 4)) ∧ p.shape? 4 = some (.type (.named 1)) ∧
      p.scene.module.find? 1 = some 3)) = true := by decide +kernel
  cases hp : rings.decode with
  | error e => simp [hp, Except.toOption] at hok
  | ok p =>
    simp only [hp, Except.toOption, Option.any_some, decide_eq_true_eq] at hok
    obtain ⟨hmem, hs, hname, ha, harray, hb, hfindB, hb', ha', hfindA⟩ := hok
    have hab : AliasTo p.scene 3 5 := ⟨1, 2, ha, .around harray rfl (.name hb hfindB)⟩
    have hba : AliasTo p.scene 5 3 := ⟨2, 4, hb', .name ha' hfindA⟩
    have hring : TransGen (AliasTo p.scene) 3 3 := .tail (.single hab) hba
    obtain ⟨_, hstructs, hcycles⟩ := decode_settles hp
    obtain ⟨hnone, hinvalid, _⟩ := hcycles 3 hring
    exact ⟨p, 9, 3, rfl, hmem, hring, hname ▸ (hstructs 9 hmem 3 [8] [] hs).1, hnone, hinvalid⟩

end ShaderLoom.Document
