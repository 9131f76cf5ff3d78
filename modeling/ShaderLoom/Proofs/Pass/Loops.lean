import ShaderLoom.Proofs.Pass.Executed

/-! Moving expressions out of the header of a loop. In a valid program whose statements are of the
kinds that belong where they stand, it succeeds, and the lowered loop is executed as the loop was,
unless something is written to an expression that is moved. -/
namespace ShaderLoom

open Execution
open ShaderLoom.Flow (Nested)

section Met

variable (p : Program) (M : Frame) (E : Table) (F : NodeId → ExprFacts → Prop)

/-- The part of a body is read in what is in scope somewhere. -/
def Met (part : Part) : Prop := ∃ Δ V Δ' V', Ranges p.toArena M E F Δ V part Δ' V'

variable {p M E F} {i c s : NodeId} {ss : List NodeId}

theorem Met.element (h : Met p M E F (.all ss)) (hc : c ∈ ss) : Met p M E F (.one c) := by
  obtain ⟨Δ, V, Δ', V', h⟩ := h
  induction ss generalizing Δ V with
  | nil => cases hc
  | cons s ss ih =>
    cases h with
    | cons h₁ h₂ =>
      rcases List.mem_cons.1 hc with rfl | hc
      · exact ⟨_, _, _, _, h₁⟩
      · exact ih hc _ _ h₂

/-- The statements in a statement are met, or stand in a block that is. -/
theorem Met.inside (h : Met p M E F (.one i)) {x : StmtShape NodeId}
    (hx : p.shape? i = some (.stmt x)) (hbody : ∀ b k, x = .loop b k → p.isBlock b)
    (hc : c ∈ Flow.substatements x) :
    Met p M E F (.one c) ∨ ∃ ss, p.block? c = some ss ∧ Met p M E F (.all ss) := by
  obtain ⟨Δ, V, Δ', V', h⟩ := h
  cases h with
  | absent => cases hx
  | simple hy hes =>
    cases hx.symm.trans hy
    cases x <;> first | (cases hes; done) | cases hc
  | varDecl hy | stray hy =>
    cases hx.symm.trans hy
    cases hc
  | block hy hall =>
    cases hx.symm.trans hy
    exact .inl (Met.element ⟨_, _, _, _, hall⟩ hc)
  | ifElse hy _ h₁ h₂ =>
    cases hx.symm.trans hy
    rcases List.mem_pair.1 hc with rfl | rfl
    exacts [.inl ⟨_, _, _, _, h₁⟩, .inl ⟨_, _, _, _, h₂⟩]
  | forLoop hy h₁ _ h₂ h₃ =>
    cases hx.symm.trans hy
    simp only [Flow.substatements, List.mem_cons, List.not_mem_nil, or_false] at hc
    rcases hc with rfl | rfl | rfl
    exacts [.inl ⟨_, _, _, _, h₁⟩, .inl ⟨_, _, _, _, h₂⟩, .inl ⟨_, _, _, _, h₃⟩]
  | whileLoop hy _ h =>
    cases hx.symm.trans hy
    exact .inl (List.mem_singleton.1 hc ▸ ⟨_, _, _, _, h⟩)
  | loop hy h₁ h₂ =>
    cases hx.symm.trans hy
    rcases List.mem_pair.1 hc with rfl | rfl
    · cases h₁ with
      | opened hb h => exact .inr ⟨_, hb, _, _, _, _, h⟩
      | lacking hb => simpa [Arena.isBlock, hb] using hbody _ _ rfl
    · exact .inl ⟨_, _, _, _, h₂⟩

/-- So are the statements at any depth. -/
theorem Met.nested (hbodies : Flow.BlockBodies p) (ht : p.TreeShaped) (hi : p.inTree i = true)
    (h : Met p M E F (.one i)) (hs : Nested p.toArena i s) :
    p.inTree s = true ∧
      (Met p M E F (.one s) ∨ ∃ ss, p.block? s = some ss ∧ Met p M E F (.all ss)) := by
  induction hs with
  | self => exact ⟨hi, .inl h⟩
  | @step y x c _ hx hc h0 ih =>
    obtain ⟨hy, hmet⟩ := ih
    refine ⟨ht.inTree_child hy (Flow.mem_children_of_substatement hx hc h0), ?_⟩
    rcases hmet with hmet | ⟨ss, hss, hmet⟩
    · exact hmet.inside hx (fun b k hloop => hbodies hy (hloop ▸ hx)) hc
    · cases hx.symm.trans (Arena.shape?_of_block? hss)
      exact .inl (hmet.element hc)

/-- What a loop with a header and its continuing part hold is read, so that there are no statements
in it. -/
theorem Met.quiet (htidy : p.Tidy) (hi : p.inTree i = true) {x : StmtShape NodeId}
    {l : Hoist.Header} (hx : p.shape? i = some (.stmt x)) (hl : Hoist.header? x = some l)
    (h : Met p M E F (.one i)) : p.Quiet l.condition ∧
      ∀ e, Reading p.toArena l.continuing e → p.Quiet e := by
  obtain ⟨Δ, V, Δ', V', h⟩ := h
  cases x with
  | forLoop init c k b =>
    cases hl
    cases h with
    | absent => cases hx
    | forLoop hy _ hread _ hcont =>
      cases hx.symm.trans hy
      refine ⟨hread.quiet _ (List.mem_singleton_self _), fun e he => ?_⟩
      obtain ⟨t, ht⟩ := hcont.reads he fun init' c' k' b' hs => by
        have hsimple := (htidy i _ hi hx).2.1.resolve_left (Arena.ne_zero_of_shape hs)
        have hheader := (Hoist.of_isSimple hsimple).1
        rw [Hoist.isLoopHeader_of_forLoop hs] at hheader
        cases hheader
      exact ht.quiet _ (List.mem_singleton_self _)
    | simple hy hes =>
      cases hx.symm.trans hy
      cases hes
    | varDecl hy | stray hy | block hy | ifElse hy | whileLoop hy | loop hy =>
      cases hx.symm.trans hy
  | whileLoop c b =>
    cases hl
    obtain ⟨t, ht⟩ := h.reads (.whileLoop hx) fun _ _ _ _ hs => by cases hx.symm.trans hs
    refine ⟨ht.quiet _ (List.mem_singleton_self _), fun e he => ?_⟩
    cases he with
    | simple hs | initializer hs | ifElse hs | forLoop hs | whileLoop hs => cases hs
  | _ => cases hl

end Met

namespace Hoist

section Headers

variable (p : Program) (l : Header)

/-- A statement without other statements in it holds the expression: in what it evaluates, or in an
attribute of the variable that it declares. -/
inductive Holds (s e : NodeId) : Prop
  | evaluated {r} : Reading p.toArena s r → p.Below r e → Holds s e
  | attached {d v a} : p.shape? s = some (.stmt (.varDecl d)) → p.asVariable? d = some v →
    a ∈ v.attributes → p.Quiet a → p.Below a e → Holds s e

/-- The expression is in the condition of the loop, or in its continuing part, and that does not
write to it. -/
def InHeader (e : NodeId) : Prop :=
  (∃ x, p.shape? e = some (.expr x)) ∧ (p.Below l.condition e ∨
    Holds p l.continuing e ∧ ¬ ∃ t, Writes p.toArena l.continuing t ∧ PartOf p.toArena t e)

variable {p l} {b : Builder} {s e : NodeId} {x : StmtShape NodeId}

theorem Holds.statementOf (h : Holds p s e) (ht : p.TreeShaped) (hw : p.Walked)
    (hs : p.inTree s = true) (hquiet : ∀ r, Reading p.toArena s r → p.Quiet r) (he0 : e ≠ 0) :
    p.inTree e = true ∧ p.statementOf e = s ∧ p.Quiet e := by
  have hinner : ∀ {r}, p.Quiet r → p.Below r e → (r ≠ 0 → p.inTree r = true ∧ p.statementOf r = s) →
      p.inTree e = true ∧ p.statementOf e = s ∧ p.Quiet e := by
    intro r hr hre hrs
    obtain ⟨hrin, hrstmt⟩ := hrs <| by
      rintro rfl
      exact he0 hre.eq_zero
    obtain ⟨hin, hstmt⟩ := Program.statementOf_below ht hw hrin hr hre
    exact ⟨hin, hstmt.trans hrstmt, fun i hi => hr i (hre.trans hi)⟩
  cases h with
  | evaluated hr hre =>
    exact hinner (hquiet _ hr) hre (Program.statementOf_reading ht hw hs hr)
  | attached hd hv ha hquiet hae =>
    refine hinner hquiet hae fun ha0 => ?_
    have hdecl := Arena.shape?_of_asVariable? hv
    obtain ⟨hdin, hstmt⟩ := Program.statementOf_child ht hw hs hd (by simp [Shape.slots])
      (Arena.ne_zero_of_shape hdecl)
    obtain ⟨hain, houter⟩ := Program.statementOf_child ht hw hdin hdecl
      (by simp [Shape.slots, ha]) ha0
    exact ⟨hain, houter.trans hstmt⟩

theorem Holds.ne_zero (h : Holds p s e) : s ≠ 0 := by
  rintro rfl
  cases h with
  | evaluated hr _ =>
    cases hr with
    | simple hs | initializer hs | ifElse hs | forLoop hs | whileLoop hs => cases hs
  | attached hs => cases hs

/-- No variable has another object in it. -/
theorem PartOf.eq_of_ident {a : Arena} {t e : NodeId} {y : Symbol} (h : PartOf a t e)
    (ht : a.shape? t = some (.expr (.ident y))) : e = t := by
  induction h with
  | self => rfl
  | index _ ho ih | member _ ho ih =>
    subst ih
    cases ht.symm.trans ho

/-- There is a place for the declaration of an expression in the header of a loop. -/
theorem InHeader.placed (h : InHeader p l e) (ht : p.TreeShaped) (hw : p.Walked) (htidy : p.Tidy)
    (hs : p.inTree s = true) (hx : p.shape? s = some (.stmt x)) (hl : header? x = some l)
    (hquiet : p.Quiet l.condition ∧ ∀ r, Reading p.toArena l.continuing r → p.Quiet r) :
    p.inTree e = true ∧ p.Quiet e ∧ ¬ IsTarget p e ∧
      (place p e = some (.condition s) ∨ place p e = some (.continuing s)) := by
  obtain ⟨⟨y, hy⟩, h⟩ := h
  have he0 := Arena.ne_zero_of_shape hy
  have hheader := isLoopHeader_iff.2 ⟨x, l, hx, hl⟩
  rcases h with hcond | ⟨hholds, hwrites⟩
  · have hc0 : l.condition ≠ 0 := by
      rintro h0
      rw [h0] at hcond
      exact he0 hcond.eq_zero
    obtain ⟨hcin, hcstmt⟩ :=
      Program.statementOf_child ht hw hs hx (Remade.Header.slots hl).1 hc0
    obtain ⟨hin, hstmt⟩ := Program.statementOf_below ht hw hcin hquiet.1 hcond
    replace hstmt : p.statementOf e = s := hstmt.trans hcstmt
    refine ⟨hin, fun i hi => hquiet.1 i (hcond.trans hi), ?_, .inl ?_⟩
    · rintro ⟨t, ⟨_, hwrite⟩ | ⟨_, hwrite⟩, -⟩ <;>
        · rw [hstmt] at hwrite
          cases hx.symm.trans hwrite
          cases hl
    · rw [place_condition (hstmt ▸ hheader), hstmt]
  · have hk0 := hholds.ne_zero
    cases x with
    | forLoop init c k b =>
      cases hl
      have hkin := (Program.statementOf_child ht hw hs hx (by simp [Shape.slots]) hk0).1
      obtain ⟨hin, hstmt, hinner⟩ := hholds.statementOf ht hw hkin hquiet.2 he0
      obtain ⟨hloop, helse, -⟩ := of_isSimple ((htidy s _ hs hx).2.1.resolve_left hk0)
      refine ⟨hin, hinner, fun htarget => ?_, .inr ?_⟩
      · obtain ⟨t, hwrite, hpart⟩ := htarget
        rw [hstmt] at hwrite
        exact hwrites ⟨t, hwrite, hpart⟩
      · exact place_continuing ht htidy hs hx hk0 (.inl ⟨hstmt, hloop, helse⟩)
    | whileLoop c b =>
      cases hl
      exact absurd rfl hk0
    | _ => cases hl

end Headers

/-- What comes from the statements of functions is in the program that is made. -/
theorem Hoisted.exists_comes {p : Program} {ms : List Moved} {b : Builder}
    {origin : NodeId → NodeId} (h : Hoisted p ms b origin)
    (hexpr : ∀ m ∈ ms, ∃ x, p.shape? m.expr = some (.expr x)) {g s : NodeId}
    {f : FunctionShape Symbol NodeId} (hg : g ∈ p.globals) (hf : p.function? g = some f)
    (hs : Nested p.toArena f.body s) (h0 : s ≠ 0) :
    ∃ j, b.build.inTree j = true ∧ Comes ms b.toArena origin s j := by
  have ht := h.fit.build.treeShaped h.counted
  have hchild : ∀ {i j c x}, b.build.inTree j = true → Comes ms b.toArena origin i j →
      p.shape? i = some x → (∀ y, x ≠ .expr y) → c ∈ x.slots → c ≠ 0 →
      ∃ j, b.build.inTree j = true ∧ Comes ms b.toArena origin c j := by
    intro i j c x hj hij hx hnot hc hc0
    have hi0 := Arena.ne_zero_of_shape hx
    obtain ⟨-, horigin, -⟩ := hij.resolve_left fun hz => hi0 hz.1
    obtain ⟨c', hcc, hbelow⟩ := h.below_child hi0 horigin (.inl fun m hm he => by
      obtain ⟨y, hy⟩ := hexpr m hm
      exact hnot y (Option.some.inj (hx.symm.trans (he ▸ hy)))) hx hc hc0
    exact ⟨c', ht.inTree_below hj hbelow, hcc⟩
  induction hs with
  | self =>
    obtain ⟨g', hg', hgg⟩ := Document.exists_of_forall₂ h.globals.flip g hg
    have hg0 : g' ≠ 0 := Nat.ne_of_gt (h.fit.globals g' hg').1
    refine hchild (ht.inTree_global ((Builder.globals_build b).symm ▸ hg') hg0) hgg
      (Arena.shape?_of_function? hf) (fun _ h => by cases h) (by simp [Shape.slots]) h0
  | step _ hx hc hc0 ih =>
    obtain ⟨j, hj, hij⟩ := ih (Arena.ne_zero_of_shape hx)
    exact hchild hj hij hx (fun _ h => by cases h) (Flow.substatements_subset_slots _ _ hc) hc0

/-- In a valid program a loop of a function is resolved, and what its header holds is read, so that
there are no statements in it. -/
theorem quiet_header {b : Builder} (hv : b.build.valid = true) (hfit : b.Fit)
    (ht : b.build.TreeShaped) (htidy : b.build.Tidy) {g s : NodeId}
    {f : FunctionShape Symbol NodeId} (hg : g ∈ b.build.globals)
    (hf : b.build.function? g = some f) (hs : Nested b.build.toArena f.body s)
    {x : StmtShape NodeId} {l : Header} (hx : b.build.shape? s = some (.stmt x))
    (hl : header? x = some l) : b.build.inTree s = true ∧ b.build.Quiet l.condition ∧
      ∀ r, Reading b.build.toArena l.continuing r → b.build.Quiet r := by
  have hbody : f.body ≠ 0 := by
    rintro h0
    have hbelow := hs.isBelow
    rw [h0] at hbelow
    exact Arena.ne_zero_of_shape hx hbelow.eq_zero
  obtain ⟨⟨E, V, hstatic⟩, -⟩ := Program.sited_build hv hfit ht
  obtain ⟨V₀, -, halong⟩ := hstatic.bodies
  obtain ⟨V₁, V₂, hholds⟩ := halong.exists_of_mem hg
  cases hholds with
  | other hnone => cases hf.symm.trans hnone
  | function hf' _ hranges =>
    cases hf.symm.trans hf'
    have hfunction := Arena.shape?_of_function? hf
    have hin : b.build.inTree f.body = true :=
      ht.inTree_child (ht.inTree_global hg (Arena.ne_zero_of_shape hfunction))
        (Program.mem_children_of_slot hfunction (by simp [Shape.slots]) hbody)
    obtain ⟨hsin, hmet⟩ := Met.nested (fun hk hloop => (htidy _ _ hk hloop).1) ht hin
      ⟨_, _, _, _, hranges⟩ hs
    refine ⟨hsin, Met.quiet htidy hsin hx hl (hmet.resolve_right ?_)⟩
    rintro ⟨ss, hss, -⟩
    cases hx.symm.trans (Arena.shape?_of_block? hss)
    cases hl

/-- A loop whose continuing part writes to `x`:
`fn f() { var x = 0; for (var y = 0; y < 1; x = x + 1) { y = 1; } }`. -/
def stepping : Document.Module where
  globals := [
    some { kind := "Function", name := "f"
           body := some { kind := "Block", statements := [
             some (declare "x"),
             some { kind := "For", initializer := some (declare "y")
                    condition := some (binary "<" (name "y") (number 1))
                    continuing := some (assign "x" (binary "+" (name "x") (number 1)))
                    body := some { kind := "Block"
                                   statements := [some (assign "y" (number 1))] } }] } }]
where
  name (x : String) : Document.Record := { kind := "Ident", name := x }
  number (n : Int) : Document.Record := { kind := "IntLiteral", int := some n }
  binary (op : String) (l r : Document.Record) : Document.Record :=
    { kind := "Binary", op := op, lhs := some l, rhs := some r }
  assign (x : String) (r : Document.Record) : Document.Record :=
    { kind := "Assign", lhs := some (name x), rhs := some r }
  declare (x : String) : Document.Record :=
    { kind := "VarDecl"
      var := some { kind := "Var", name := x, initializer := some (number 0) } }

def stepping.requests : List Request := [⟨7, true, ""⟩, ⟨9, true, ""⟩, ⟨13, false, ""⟩]

theorem stepping_decodes : ∃ p f, stepping.decode = .ok p ∧ (p.valid = true ∧ p.Tidy) ∧
    (p.globals = [21] ∧ p.function? 21 = some f ∧ f.body = 20) ∧
    (p.shape? 20 = some (.stmt (.block [3, 19])) ∧
      p.shape? 19 = some (.stmt (.forLoop 6 9 14 18)) ∧
      p.shape? 14 = some (.stmt (.assign 10 13))) ∧
    p.shape? 7 = some (.expr (.ident 3)) ∧ p.shape? 9 = some (.expr (.binary .less 7 8)) ∧
      p.shape? 10 = some (.expr (.ident 2)) ∧
      p.shape? 13 = some (.expr (.binary .add 11 12)) := by
  have hok : (stepping.decode.toOption.any fun p => p.valid &&
      (p.treeIds.all fun i => (p.shape? i).all p.documents) && p.globals == [21] &&
      ((p.function? 21).any fun f => f.body == 20) &&
      decide ((p.shape? 20 = some (.stmt (.block [3, 19])) ∧
          p.shape? 19 = some (.stmt (.forLoop 6 9 14 18)) ∧
          p.shape? 14 = some (.stmt (.assign 10 13))) ∧
        p.shape? 7 = some (.expr (.ident 3)) ∧ p.shape? 9 = some (.expr (.binary .less 7 8)) ∧
          p.shape? 10 = some (.expr (.ident 2)) ∧
          p.shape? 13 = some (.expr (.binary .add 11 12)))) = true := by decide +kernel
  cases hp : stepping.decode with
  | error e => simp [hp, Except.toOption] at hok
  | ok p =>
    simp only [hp, Except.toOption, Option.any_some, Bool.and_eq_true, beq_iff_eq,
      decide_eq_true_eq, Option.any_eq_true] at hok
    obtain ⟨⟨⟨⟨hv, hdocuments⟩, hglobals⟩, f, hf, hbody⟩, hshapes⟩ := hok
    have htidy : p.Tidy := by
      obtain ⟨b, hgood, -, -, -, rfl⟩ := Document.decode_good hp
      exact Program.tidy_of_documents hgood.toFit.build hdocuments
    exact ⟨p, f, rfl, ⟨hv, htidy⟩, ⟨hglobals, hf, hbody⟩, hshapes⟩

/-- The program that is made where expressions are moved. -/
def movedOut (p : Program) (rs : List Request) : Option Program :=
  match moving id rs (Copy.Session.start p {}) with
  | .ok _ t => some t.target.build
  | .error _ _ => none

/-- What is computed with integers, where a test that fails is zero. -/
def computed : Shape String Int → Unit → Int
  | .expr (.int v _), _ => v
  | .expr (.binary .add l r), _ => l + r
  | .expr (.binary .less l r), _ => if l < r then 1 else 0
  | .expr (.unary .not v), _ => if v = 0 then 1 else 0
  | _, _ => 0

def integers : Machine Int Unit where
  absent := 0
  free _ _ := 0
  make := computed
  holds v := v != 0
  holds_not v _ := by by_cases h : v = 0 <;> simp [computed, h]
  next down v := if down then v - 1 else v + 1
  put _ _ v := v
  write _ _ _ m := m
  call _ m := m
  initial _ := 0

/-- Where the loop of the document begins. -/
def beginning : Store Int Unit := ⟨[[("x", 0)]], ()⟩

end Hoist
end ShaderLoom
