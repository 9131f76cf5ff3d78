import ShaderLoom.Proofs.Pass.Names
import ShaderLoom.Proofs.Pass.Promoted
import ShaderLoom.Proofs.Pass.Restored

/-! Promotion in one run. On a valid program of a document whose statements and parameters are of
the documented kinds, promotion succeeds and leaves nothing to be promoted, and its result is the
source with some expressions named. -/
namespace ShaderLoom

theorem Program.Derived.known {p : Program} {allowed : Data → Prop} (h : p.Derived allowed) :
    p.Known :=
  fun _ _ _ hn s hs => h.spelledOut.known hn s hs

section Tests

namespace Arena

def isIfElse (a : Arena) (i : NodeId) : Bool := (a.shape? i).any (· matches .stmt (.ifElse _ _ _))

def isPlain (a : Arena) (i : NodeId) : Bool :=
  (a.shape? i).any (· matches .stmt (.varDecl _) | .stmt (.assign _ _) | .stmt
    (.increment _ _) | .stmt (.callStatement _))

/-- The test of a node whether the statements that it holds are of the kinds that belong there. -/
def documents (a : Arena) : Shape Symbol NodeId → Bool
  | .stmt (.ifElse _ b e) =>
    (a.block? b).isSome && optional (fun e => (a.block? e).isSome || a.isIfElse e) e
  | .stmt (.forLoop i _ t b) => optional a.isPlain i && optional a.isPlain t && (a.block? b).isSome
  | .stmt (.whileLoop _ b) => (a.block? b).isSome
  | .stmt (.loop b t) => (a.block? b).isSome && optional (fun t => (a.block? t).isSome) t
  | .decl (.function f) => (a.block? f.body).isSome
  | _ => true

variable {a : Arena} {i : NodeId}

theorem isIf_of_isIfElse (h : a.isIfElse i = true) : a.isIf i := by
  obtain ⟨s, hs, hmatch⟩ := (Option.any_eq_true _ _).1 h
  split at hmatch
  · exact ⟨_, _, _, hs⟩
  · cases hmatch

theorem isSimple_of_isPlain (h : a.isPlain i = true) : a.isSimple i := by
  obtain ⟨s, hs, hmatch⟩ := (Option.any_eq_true _ _).1 h
  split at hmatch
  · exact ⟨_, hs, trivial⟩
  · exact ⟨_, hs, trivial⟩
  · exact ⟨_, hs, trivial⟩
  · exact ⟨_, hs, trivial⟩
  · cases hmatch

theorem documented_of_documents {s : Shape Symbol NodeId} (h : a.documents s = true) :
    a.Documented s := by
  have hoptional : ∀ {test i} {P : NodeId → Prop}, optional test i = true →
      (∀ i, test i = true → P i) → i = 0 ∨ P i := by
    intro test i P hi htest
    simp only [optional, Bool.or_eq_true, beq_iff_eq] at hi
    exact hi.imp_right (htest i)
  cases s with
  | stmt x =>
    cases x with
    | ifElse _ b e =>
      obtain ⟨hb, he⟩ := Bool.and_eq_true_iff.1 h
      have he : e = 0 ∨ _ := hoptional (P := fun e => a.isBlock e ∨ a.isIf e) he fun e he =>
        (Bool.or_eq_true_iff.1 he).imp_right isIf_of_isIfElse
      exact ⟨hb, he⟩
    | forLoop i _ t b =>
      obtain ⟨hheader, hb⟩ := Bool.and_eq_true_iff.1 h
      obtain ⟨hi, ht⟩ := Bool.and_eq_true_iff.1 hheader
      exact ⟨hoptional hi fun _ => isSimple_of_isPlain, hoptional ht fun _ => isSimple_of_isPlain,
        hb⟩
    | whileLoop _ b => exact h
    | loop b t =>
      obtain ⟨hb, ht⟩ := Bool.and_eq_true_iff.1 h
      exact ⟨hb, hoptional ht fun _ => id⟩
    | _ => trivial
  | decl d =>
    cases d with
    | function f => exact h
    | _ => trivial
  | _ => trivial

end Arena

theorem Program.tidy_of_documents {p : Program} (hp : p.Fit)
    (h : (p.treeIds.all fun i => (p.shape? i).all p.documents) = true) : p.Tidy := by
  intro i s hi hs
  have hall := List.all_eq_true.1 h i (hp.mem_treeIds.2 hi)
  rw [hs, Option.all_some] at hall
  exact Arena.documented_of_documents hall

end Tests

namespace Promote

open Copy Hoist

theorem plainParameters_of_all {p : Program}
    (h : (p.globals.all fun g => (p.function? g).all fun f => f.params.all fun d =>
      (p.asVariable? d).all (·.initializer == 0)) = true) : PlainParameters p := by
  rintro d v ⟨g, f, ⟨hg, -⟩, hf, hd⟩ hv
  have hg := List.all_eq_true.1 h g hg
  rw [hf, Option.all_some] at hg
  have hd := List.all_eq_true.1 hg d hd
  rw [hv, Option.all_some] at hd
  simpa using hd

/-- The builder holds the program with its constructors moved. Each of them has a declaration with a
name of its own that the source does not use. Where each name is replaced by what it is declared to
be, expressions read as those that they come from, and all of them come from the source but the
negated conditions of loops. Nothing of the source is lost. -/
structure Promoted (p : Program) (ms : List Moved) (b : Builder) (origin : NodeId → NodeId) :
    Prop where
  hoisted : Hoisted p ms b origin
  moved : ms.map (·.expr) = promotables p
  declared : ∀ m ∈ ms, b.build.inTree m.decl = true ∧
    b.build.asVariable? m.decl = some ⟨.letValue, m.name, 0, m.value, []⟩ ∧ origin m.value = m.expr
  unused : ∀ m ∈ ms, b.build.nameOf m.name ∉ p.symbols.names.toList ∧
    ∀ i x, p.inTree i = true → p.shape? i = some x → ∀ s ∈ x.names,
      p.nameOf s ≠ b.build.nameOf m.name
  distinct : (ms.map fun m => b.build.nameOf m.name).Nodup
  declarations : ∀ d v, b.build.inTree d = true → b.build.asVariable? d = some v →
    (∃ m ∈ ms, m.decl = d) ∨
    p.inTree (origin d) = true ∧
      ∃ u, p.asVariable? (origin d) = some u ∧ u.kind = v.kind ∧
        p.nameOf u.name = b.build.nameOf v.name
  expressions : ∀ j x, b.build.inTree j = true → b.build.shape? j = some (.expr x) →
    (p.inTree (origin j) = true ∧ (∃ y, p.shape? (origin j) = some (.expr y)) ∧
      ∀ n, 2 * p.size ≤ n → Document.unfolded b.build.toArena (valueOf ms) n j =
        Document.whole p.toArena (origin j)) ∨
    ∃ c, x = .unary .not c ∧ IsCondition p (origin c)
  present : ∀ i, p.inTree i = true → i ≠ p.root →
    ∃ j, b.build.inTree j = true ∧ Comes ms b.toArena origin i j

end Promote

namespace Hoist

open Promote

section Recast

variable {p : Program} {ms : List Moved} {b : Arena} {origin : NodeId → NodeId} {i j : NodeId}

theorem LoweredLoop.isStmt {out : NodeId → NodeId → Prop} {l : PendingLoop} {h : Header}
    (hl : LoweredLoop b out l h j) : ∃ x, b.shape? j = some (.stmt x) := by
  cases hl with
  | bare _ hl =>
    cases hl with
    | loop _ _ _ _ hj => exact ⟨_, hj⟩
  | after _ _ _ hj => exact ⟨_, hj⟩

/-- Loops and conditionals in their lowered forms are statements; a node of another kind is made of
parts, or refers to the declaration of an expression that was moved. -/
theorem Recast.cases_of_not_stmt (h : Recast p ms b origin i j) {x : Shape Symbol NodeId}
    (hj : b.shape? j = some x) (hs : x.isStatement = false) :
    (∃ m ∈ ms, m.expr = i ∧ x = .expr (.ident m.name)) ∨ ∃ y, p.shape? i = some y ∧
      Shape.Rel (SameName p b) (Comes ms b origin) (Woven (before p ms) (Comes ms b origin)) y
      x := by
  cases h with
  | parts _ _ hn hm _ hrel =>
    cases hj.symm.trans (Arena.shape?_of_node? hm)
    exact .inr ⟨_, Arena.shape?_of_node? hn, hrel⟩
  | reference hm hk => exact .inl ⟨_, hm, rfl, Option.some.inj (hj.symm.trans hk)⟩
  | loop _ _ _ hl =>
    obtain ⟨y, hy⟩ := hl.isStmt
    cases hj.symm.trans hy
    cases hs
  | otherwise _ _ hl =>
    cases hl with
    | block _ _ _ _ hk =>
      cases hj.symm.trans hk
      cases hs

end Recast

namespace Hoisted

variable {p : Program} {ms : List Moved} {b : Builder} {origin : NodeId → NodeId}
    (h : Hoisted p ms b origin)
include h

theorem name_not_mem {m : Moved} (hm : m ∈ ms) :
    b.build.nameOf m.name ∉ p.symbols.names.toList := by
  obtain ⟨t, ht, hnew⟩ := (h.made m hm).named
  rwa [show b.build.nameOf m.name = t from ht.nameFor]

/-- The source does not use the names of the declarations. -/
theorem name_unused (hk : p.Known) {m : Moved} (hm : m ∈ ms) {i : NodeId} (hi : p.inTree i = true)
    {x : Shape Symbol NodeId} (hx : p.shape? i = some x) {s : Symbol} (hs : s ∈ x.names) :
    p.nameOf s ≠ b.build.nameOf m.name := by
  obtain ⟨n, hn, rfl⟩ := Option.map_eq_some_iff.1 hx
  obtain ⟨t, ht⟩ := hk i n hi hn s hs
  intro heq
  rw [show p.nameOf s = t from ht.nameFor] at heq
  exact h.name_not_mem hm (heq ▸ ht.mem)

theorem distinct_names : (ms.map fun m => b.build.nameOf m.name).Nodup := by
  refine (List.nodup_map_iff_inj_on (List.Nodup.of_map _ h.distinct)).2 fun m hm m' hm' heq => ?_
  obtain ⟨t, ht, -⟩ := (h.made m hm).named
  obtain ⟨t', ht', -⟩ := (h.made m' hm').named
  obtain rfl : t = t' := ht.nameFor.symm.trans (heq.trans ht'.nameFor)
  exact List.inj_on_of_nodup_map h.distinct hm hm' (ht.inj ht')

/-- What comes from the source stands below the module. -/
theorem shape?_of_build {j : NodeId} (hj : origin j ≠ 0) {x : Shape Symbol NodeId}
    (hx : b.build.shape? j = some x) : b.shape? j = some x := by
  obtain ⟨-, ⟨-, hle⟩, -⟩ := h.traced j hj
  obtain ⟨n, hn, rfl⟩ := Option.map_eq_some_iff.1 hx
  rw [Builder.node?_build, if_neg (Nat.ne_of_lt (Nat.lt_succ_of_le hle))] at hn
  exact Arena.shape?_of_node? hn

/-- A variable is the declaration of an expression that was moved, or comes from a variable of the
source. -/
theorem variable_origin {d : NodeId} {v : VariableShape Symbol NodeId}
    (hd : b.build.inTree d = true) (hv : b.build.asVariable? d = some v) :
    (∃ m ∈ ms, m.decl = d) ∨ p.inTree (origin d) = true ∧
      ∃ u, p.asVariable? (origin d) = some u ∧ u.kind = v.kind ∧
        p.nameOf u.name = b.build.nameOf v.name := by
  have hs := Arena.shape?_of_asVariable? hv
  have hroot : d ≠ b.build.root := by
    rintro rfl
    cases h.fit.build.module.symm.trans hs
  rcases h.accounted hd hroot with hz | hadded
  · obtain ⟨hin, -, hrecast⟩ := h.traced d hz
    rcases hrecast.cases_of_not_stmt (h.shape?_of_build hz hs) rfl with ⟨m, -, -, hm⟩
      | ⟨y, hy, hrel⟩
    · cases hm
    · refine .inr ⟨hin, ?_⟩
      generalize hvs : Shape.decl (DeclShape.value v) = x at hrel
      cases hrel with
      | value hname =>
        cases hvs
        have hu := congrArg (·.bind Shape.asVariable?) hy
        exact ⟨_, hu, rfl, hname.nameOf⟩
      | _ => cases hvs
  · refine .inl ?_
    cases hadded with
    | decl hm => exact ⟨_, hm, rfl⟩
    | stmt hm => cases hs.symm.trans (Builder.shape?_build_of (h.made _ hm).stmt)
    | negation hk => cases hs.symm.trans (Builder.shape?_build_of hk)
    | made hk => cases hs.symm.trans (Builder.shape?_build_of hk)

variable (hp : p.Fit) (hc : p.Counted) (hkinds : p.kinded = true) (hms : FromBodies p ms)
include hp hc hkinds hms

/-- An expression reads as the expression that it comes from, once all references are replaced, or
it is the negated condition of a loop. -/
theorem reads_origin {j : NodeId} {x : ExprShape Symbol NodeId} (hj : b.build.inTree j = true)
    (hx : b.build.shape? j = some (.expr x)) :
    (p.inTree (origin j) = true ∧ (∃ y, p.shape? (origin j) = some (.expr y)) ∧
      ∀ n, 2 * p.size ≤ n →
      Document.unfolded b.build.toArena (valueOf ms) n j = Document.whole p.toArena (origin j)) ∨
    ∃ c, x = .unary .not c ∧ IsCondition p (origin c) := by
  have hroot : j ≠ b.build.root := by
    rintro rfl
    cases h.fit.build.module.symm.trans hx
  rcases h.accounted hj hroot with hz | hadded
  · obtain ⟨hin, -, hrecast⟩ := h.traced j hz
    obtain ⟨y, hy⟩ : ∃ y, p.shape? (origin j) = some (.expr y) := by
      rcases hrecast.cases_of_not_stmt (h.shape?_of_build hz hx) rfl
        with ⟨m, hm, he, -⟩ | ⟨y, hy, hrel⟩
      · exact he ▸ (hms m hm).1
      · generalize hxs : Shape.expr x = z at hrel
        cases hrel <;> first | exact ⟨_, hy⟩ | cases hxs
    have hle :=
      Nat.succ_le_of_lt (hp.lt_root hin fun hr => by cases hp.module.symm.trans (hr ▸ hy)).2
    rw [hp.root] at hle
    refine .inl ⟨hin, ⟨y, hy⟩, fun n hn => ?_⟩
    exact h.unfolded_eq hp hc hin (Program.quiet_of_kinded hkinds hp (hp.treeShaped hc) hin hy)
      rfl (by omega)
  · refine .inr ?_
    cases hadded with
    | decl hm => cases hx.symm.trans (Builder.shape?_build_of (h.made _ hm).decl)
    | stmt hm => cases hx.symm.trans (Builder.shape?_build_of (h.made _ hm).stmt)
    | negation hk hcond =>
      cases hx.symm.trans (Builder.shape?_build_of hk)
      exact ⟨_, rfl, hcond⟩
    | made hk => cases hx.symm.trans (Builder.shape?_build_of hk)

end Hoisted
end Hoist

namespace Promote

open Hoist

/-- Moving the constructors that are to be moved makes the promoted program. -/
theorem promoted_of_hoisted {b b' : Builder} {ms : List Moved} {origin : NodeId → NodeId}
    (h : Hoisted b.build ms b' origin)
    (hms : ms.map (fun m => (m.expr, m.kind)) = (promotables b.build).map fun i => (i, .letValue))
    (hv : b.build.valid = true) (hb : b.Fit) (hk : b.build.Known) (hc : b.build.Counted)
    (hkinds : b.build.kinded = true) (htidy : b.build.Tidy) : Promoted b.build ms b' origin := by
  have hp := hb.build
  have ht := hp.treeShaped hc
  have hroot := Program.rooted_build hb ht
  have hexprs : ms.map (·.expr) = promotables b.build := by
    simpa [Function.comp_def] using congrArg (List.map Prod.fst) hms
  have hbodies := fromBodies hv hb ht hexprs
  refine { hoisted := h, moved := hexprs, distinct := h.distinct_names, declared := fun m hm => ?_,
           unused := fun m hm => ?_, declarations := fun d v hd hv => h.variable_origin hd hv,
           expressions := fun j x hj hx => h.reads_origin hp hc hkinds hbodies hj hx,
           present := fun i hi hr => (h.present hp hc hroot b.walked_build htidy hbodies hi hr).1 }
  · obtain ⟨i, -, hi⟩ := List.mem_map.1 (hms ▸ List.mem_map_of_mem hm : (m.expr, m.kind) ∈ _)
    have hkind : m.kind = .letValue := (congrArg Prod.snd hi).symm
    refine ⟨h.inTree_decl hp hc hroot b.walked_build htidy hbodies hm, ?_, (h.made m hm).comes⟩
    rw [← hkind]
    exact congrArg (·.bind Shape.asVariable?) (Builder.shape?_build_of (h.made m hm).decl)
  · exact ⟨h.name_not_mem hm, fun i x hi hx s hs => h.name_unused hk hm hi hx hs⟩

/-- Promotion reaches its goal in one run. On a valid program of a document whose fields hold nodes
of the documented kinds and whose parameters have no initializers, it succeeds, what comes out is
valid and has no constructor left to be moved, so that another run need not be made and would change
nothing; and the program is the source with its constructors moved. -/
theorem apply_promotes {m : Document.Module} {p : Program} (h : m.decode = .ok p)
    (hv : p.valid = true) (hkinds : p.kinded = true) (htidy : p.Tidy) (hparams : PlainParameters p)
    (inputs : Data) :
    ∃ (b : Builder) (ms : List Moved) (origin : NodeId → NodeId),
      pass.apply p inputs = .ok ⟨b.build, {}⟩ ∧
      b.build.valid = true ∧ promotables b.build = [] ∧ Promoted p ms b origin ∧
      ∀ more, pass.shouldRun b.build more = false ∧ ∃ q data,
        pass.apply b.build more = .ok ⟨q, data⟩ ∧
        Document.ofProgram q = Document.ofProgram b.build ∧ q.text = b.build.text := by
  obtain ⟨b, hgood, hknown, _, _, rfl⟩ := Document.decode_good h
  have hfit := hgood.toFit
  have hcounted := hgood.counted_build trivial
  obtain ⟨out, s, origin, hrun, rfl, hcopied, ms, hms, hw⟩ :=
    (runs_promotion hv hfit hknown.build hcounted hkinds htidy hparams).succeeds
  have hrun : work b.build (Copy.Session.start b.build {}) = .ok {} s := hrun
  have hcopied : s.copied = true := hcopied
  have hw : Hoisted b.build ms s.target origin := hw
  have hexprs : ms.map (·.expr) = promotables b.build := by
    simpa [Function.comp_def] using congrArg (List.map Prod.fst) hms
  have happly : pass.apply b.build inputs = .ok ⟨s.target.build, {}⟩ := by
    have hperform : pass.run b.build inputs = (work b.build).perform b.build {} := rfl
    simp [Pass.apply, Result.outcome, hv, hperform, Work.perform, hrun, hcopied]
  have hbodies := fromBodies hv hfit (hfit.build.treeShaped hcounted) hexprs
  have hvalid := (hw.resolves hv hfit hcounted htidy hbodies).1
  have hnone := promotables_made hw hexprs hv hfit hcounted htidy
  have hderived : s.target.build.Derived fun _ => True :=
    .applied (.decoded h) (by simp [Pass.all]) trivial happly
  refine ⟨s.target, ms, origin, happly, hvalid, hnone,
    promoted_of_hoisted hw hms hv hfit hknown.build hcounted hkinds htidy, fun more => ?_⟩
  have hskip : pass.shouldRun s.target.build more = false := by simp [pass, hnone]
  obtain ⟨c, data, hagain, ⟨hdocument, htext⟩, -⟩ := idle hw.fit.build hderived.known hvalid hskip
  exact ⟨hskip, c.build, data, hagain, hdocument.symm, htext.symm⟩

/-- Structures that are made in the header of a loop and after `else`, one of them inside another:
`struct S { a: i32 }; fn f(k: i32) { for (var i = S(1).a; S(S(i).a).a < k; i = S(i).a) { }
if (k == 1) { } else if (S(k).a == 2) { } }`. -/
def nested : Document.Module where
  globals := [
    some { kind := "Struct", name := "S", members := [
      some { kind := "StructMember", name := "a", type := some { kind := "I32" } }] },
    some { kind := "Function", name := "f"
           params := [some { kind := "Parameter", name := "k", type := some { kind := "I32" } }]
           body := some { kind := "Block", statements := [
             some { kind := "For", body := some { kind := "Block" }
                    initializer := some { kind := "VarDecl"
                                          var := some { kind := "Var", name := "i"
                                                        initializer := some (made (number 1)) } }
                    condition := some { kind := "Binary", op := "<"
                                        lhs := some (made (made (name "i")))
                                        rhs := some (name "k") }
                    continuing := some { kind := "Assign", lhs := some (name "i")
                                         rhs := some (made (name "i")) } },
             some { kind := "If"
                    condition := some { kind := "Binary", op := "=="
                                        lhs := some (name "k"), rhs := some (number 1) }
                    body := some { kind := "Block" }
                    otherwise := some { kind := "If", body := some { kind := "Block" }
                                        condition := some { kind := "Binary", op := "=="
                                                            lhs := some (made (name "k"))
                                                            rhs := some (number 2) } } }] } }]
where
  name (x : String) : Document.Record := { kind := "Ident", name := x }
  number (n : Int) : Document.Record := { kind := "IntLiteral", int := some n }
  /-- The member of a structure that is made of a value. -/
  made (r : Document.Record) : Document.Record :=
    { kind := "Member", name := "a"
      object := some { kind := "Call", target := some (name "S"), args := [some r] } }

theorem apply_promotes_nested :
    ∃ p, nested.decode = .ok p ∧ (p.valid = true ∧ p.kinded = true ∧ p.Tidy ∧ PlainParameters p) ∧
    (promotables p).length = 5 ∧
    ∃ (b : Builder) (ms : List Moved) (origin : NodeId → NodeId),
      pass.apply p {} = .ok ⟨b.build, {}⟩ ∧
      b.build.valid = true ∧ promotables b.build = [] ∧ Promoted p ms b origin ∧
      ∀ more, pass.shouldRun b.build more = false ∧ ∃ q data,
        pass.apply b.build more = .ok ⟨q, data⟩ ∧
        Document.ofProgram q = Document.ofProgram b.build ∧ q.text = b.build.text := by
  have hok : (nested.decode.toOption.any fun p => p.valid && p.kinded &&
    (promotables p).length == 5 &&
      (p.treeIds.all fun i => (p.shape? i).all p.documents) && p.globals.all fun g =>
        (p.function? g).all fun f =>
        f.params.all fun d => (p.asVariable? d).all (·.initializer == 0)) = true := by
    decide +kernel
  cases hp : nested.decode with
  | error e => simp [hp, Except.toOption] at hok
  | ok p =>
    simp only [hp, Except.toOption, Option.any_some, Bool.and_eq_true, beq_iff_eq] at hok
    obtain ⟨⟨⟨⟨hv, hkinds⟩, hlength⟩, hdocuments⟩, hparams⟩ := hok
    have htidy : p.Tidy := by
      obtain ⟨b, hgood, -, -, -, rfl⟩ := Document.decode_good hp
      exact Program.tidy_of_documents hgood.toFit.build hdocuments
    have hplain := plainParameters_of_all hparams
    exact ⟨p, rfl, ⟨hv, hkinds, htidy, hplain⟩, hlength,
      apply_promotes hp hv hkinds htidy hplain {}⟩

end Promote
end ShaderLoom
