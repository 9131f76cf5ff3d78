import ShaderLoom.Proofs.Pass.Values

/-! Loops whose headers had expressions moved out of them are executed as before. What happens in
the program that is made tells what happens in the source: the same statements are executed and the
same conditions are tested, in the same order, with executions of new declarations between them, and
with tests of negated conditions and breaks in place of tests that leave a loop. -/
namespace ShaderLoom

open Execution
open ShaderLoom.Flow (Exit)

namespace Hoist

section Traces

variable (ms : List Moved) (b : Arena) (origin : NodeId → NodeId) {V : Type}

/-- What happens in the source, and what happens in its place. -/
inductive Retold : List (Event V) → List (Event V) → Prop
  | nil : Retold [] []
  | executed {s t es fs} : Comes ms b origin s t → Retold es fs →
    Retold (.executed s :: es) (.executed t :: fs)
  | returned {s t v es fs} : Comes ms b origin s t → Retold es fs →
    Retold (.returned s v :: es) (.returned t v :: fs)
  | tested {c d holds es fs} : Comes ms b origin c d → Retold es fs →
    Retold (.tested c holds :: es) (.tested d holds :: fs)
  | declared {m es fs} : m ∈ ms → Retold es fs → Retold es (.executed m.stmt :: fs)
  | stays {c d n es fs} : Comes ms b origin c d → b.shape? n = some (.expr (.unary .not d)) →
    Retold es fs → Retold (.tested c true :: es) (.tested n false :: fs)
  | leaves {c d n leave es fs} : Comes ms b origin c d →
    b.shape? n = some (.expr (.unary .not d)) → b.shape? leave = some (.stmt .breakLoop) →
    Retold es fs → Retold (.tested c false :: es) (.tested n true :: .executed leave :: fs)

variable {ms b origin}

theorem Retold.compares : Compares (Retold (V := V) ms b origin) where
  nil := .nil
  append {es es' fs fs'} h h' := by
    induction h with
    | nil => exact h'
    | executed hs _ ih => exact .executed hs ih
    | returned hs _ ih => exact .returned hs ih
    | tested hc _ ih => exact .tested hc ih
    | declared hm _ ih => exact .declared hm ih
    | stays hc hn _ ih => exact .stays hc hn ih
    | leaves hc hn hl _ ih => exact .leaves hc hn hl ih

theorem Retold.declaredAt {p : Program} {x : Place} {es fs : List (Event V)}
    (h : Retold ms b origin es fs) :
    Retold ms b origin es ((declaredAt p ms x).map .executed ++ fs) := by
  have hall : ∀ ss : List NodeId, (∀ s ∈ ss, ∃ m ∈ ms, m.stmt = s) →
      Retold ms b origin es (ss.map .executed ++ fs) := by
    intro ss hss
    induction ss with
    | nil => exact h
    | cons s ss ih =>
      obtain ⟨m, hm, rfl⟩ := hss s List.mem_cons_self
      exact .declared hm (ih fun s hs => hss s (List.mem_cons_of_mem _ hs))
  refine hall _ fun s hs => ?_
  obtain ⟨m, hm, -, hstmt⟩ := mem_declaredAt.1 hs
  exact ⟨m, hm, hstmt⟩

end Traces

namespace FromHeaders

variable {p : Program} {ms : List Moved} {b : Builder} {origin : NodeId → NodeId}
  (Φ : FromHeaders p ms b origin) {V M : Type} {μ : Machine V M} {k : Nat} {σ τ : Store V M}
  {sh : List Layer} {i j c d : NodeId}

/-- One outcome is that of the source, the other one is that of the program that is made. -/
abbrev Alike (Φ : FromHeaders p ms b origin) (sh : List Layer) (r r' : Execution.Outcome V M) :
    Prop :=
  Execution.Alike (Retold ms b.toArena origin) (Φ.Beside sh) r r'

variable (μ k) in
/-- Where the stores are beside each other, the statements do alike. The declarations of expressions
in the first one are in scope, if it is no loop; and it declares nothing in a scope that the source
has not. -/
def Simulates (i j : NodeId) : Prop :=
  ∀ sh σ τ, Φ.Beside sh σ τ →
    (isLoopHeader p i = false → ∀ m ∈ ms, p.statementOf m.expr = i → Φ.Found μ σ τ m) →
    ((∃ d, p.shape? i = some (.stmt (.varDecl d))) → sh.head? ≠ some .further) →
    Φ.Alike sh (execute p.toArena μ k i σ) (execute b.build.toArena μ k j τ)

variable (μ k) in
/-- What comes before the statement is simulated. -/
def Before (i : NodeId) : Prop :=
  ∀ c d, c < i → (c ≠ 0 → p.inTree c = true) → Comes ms b.toArena origin c d →
    Φ.Simulates μ k c d

include Φ

theorem placed_child {m : Moved} (hm : m ∈ ms) (hi : c ∈ p.children i)
    (heq : p.statementOf m.expr = c) (hloop : isLoopHeader p c = false) :
    place p m.expr = some (.continuing i) ∧
      ∃ init cond body, p.shape? i = some (.stmt (.forLoop init cond c body)) := by
  obtain ⟨k, hk | hk⟩ := Φ.header m hm
  · obtain ⟨rfl, hheader⟩ := from_of_place Φ.tree Φ.tidy hk
    rw [heq, hloop] at hheader
    cases hheader
  · obtain ⟨init, cond, body, hs⟩ := from_of_place Φ.tree Φ.tidy hk
    have hk' : c ∈ p.children k := by
      rw [← heq]
      refine Program.mem_children_of_slot hs (by simp [Shape.slots]) ?_
      rw [heq]
      exact Arena.ne_zero_of_mem_children hi
    obtain rfl := Φ.counted.holder hi hk'
    exact ⟨hk, init, cond, body, heq ▸ hs⟩

section Parts

variable {x : StmtShape NodeId} (ih : Φ.Before μ k i) (hi : p.inTree i = true)
  (hx : p.shape? i = some (.stmt x))
include ih hi hx

theorem simulates_child (hc : c ≠ 0 → c ∈ (Shape.stmt (ν := Symbol) x).slots)
    (hcd : Comes ms b.toArena origin c d) : Φ.Simulates μ k c d := by
  refine ih c d ?_ (fun h0 => Φ.tree.inTree_child hi (Program.mem_children_of_slot hx (hc h0) h0))
    hcd
  by_cases h0 : c = 0
  · rw [h0]
    exact Nat.pos_of_ne_zero (Arena.ne_zero_of_shape hx)
  · exact Φ.fit.lt_of_mem_children (Program.mem_children_of_slot hx (hc h0) h0)

/-- A part of a statement that does not close the turns of a loop needs no declarations. -/
theorem alike_part (hc : c ≠ 0 → c ∈ (Shape.stmt (ν := Symbol) x).slots)
    (hcd : Comes ms b.toArena origin c d)
    (hopen : c ≠ 0 → ∀ init cond body, x ≠ .forLoop init cond c body)
    (hd : (∃ d, p.shape? c = some (.stmt (.varDecl d))) → sh.head? ≠ some .further)
    (hb : Φ.Beside sh σ τ) :
    Φ.Alike sh (execute p.toArena μ k c σ) (execute b.build.toArena μ k d τ) := by
  refine Φ.simulates_child ih hi hx hc hcd sh σ τ hb (fun hloop m hm heq => ?_) hd
  have h0 : c ≠ 0 := by
    rintro rfl
    obtain ⟨x, hx⟩ := Φ.hoisted.placed m hm
    rw [place_eq_none heq] at hx
    cases hx
  obtain ⟨-, init, cond, body, hs⟩ :=
    Φ.placed_child hm (Program.mem_children_of_slot hx (hc h0) h0) heq hloop
  cases hx.symm.trans hs
  exact absurd rfl (hopen h0 init cond body)

omit hx in
/-- The elements of a block. -/
theorem alike_elements {ss ts : List NodeId} (hx : p.shape? i = some (.stmt (.block ss)))
    (hst : List.Forall₂ (Comes ms b.toArena origin) ss ts) {y : Layer} (hy : y ≠ .further)
    (hb : Φ.Beside (y :: sh) σ τ) :
    Φ.Alike (y :: sh) (inOrder (execute p.toArena μ k) ss σ)
      (inOrder (execute b.build.toArena μ k) ts τ) := by
  refine .inOrder Retold.compares ?_ hb
  refine ((List.forall₂_and_left _ _).2 ⟨fun s hs => hs, hst⟩).imp fun s t ⟨hs, hst⟩ σ τ hb => ?_
  exact Φ.alike_part ih hi hx (fun _ => hs) hst (fun _ _ _ _ h => by cases h)
    (fun _ => by simpa using hy) hb

end Parts

section Loops

variable {x : StmtShape NodeId} {l : Header}

omit Φ in
theorem execute_header {a : Arena} (ha : a.Ordered) (hs : a.shape? i = some (.stmt x))
    (hx : header? x = some l) : execute a μ k i =
      initialized (execute a μ k) l.init
        (headed a μ k (execute a μ k) l.condition l.continuing l.body) := by
  rw [execute_eq ha hs]
  cases x <;> cases hx <;> rfl

variable (hi : p.inTree i = true) (hs : p.shape? i = some (.stmt x)) (hx : header? x = some l)
include hi hs hx

/-- Only the continuing part of a loop closes its turns. -/
theorem header_open (hc : c = l.init ∨ c = l.condition ∨ c = l.body) (h0 : c ≠ 0) :
    ∀ init cond body, x ≠ .forLoop init cond c body := by
  rintro init cond body rfl
  cases hx
  have honce := List.nodup_iff_count_le_one.1 (Φ.tree.nodup_slots hi hs) c
  rw [List.count_filter (by simpa using h0)] at honce
  rcases hc with rfl | rfl | rfl <;>
    simp only [Shape.slots, List.count_cons, beq_self_eq_true, if_true] at honce <;> omega

theorem body_not_varDecl : ∀ d, p.shape? l.body ≠ some (.stmt (.varDecl d)) := by
  have hdoc := Φ.tidy i _ hi hs
  have hblock : p.isBlock l.body := by
    cases x <;> cases hx
    · exact hdoc.2.2
    · exact hdoc
  exact Remade.not_varDecl_of_isBlock (.inl hblock)

/-- The condition has its value, where the declarations of expressions in it are in scope. -/
theorem value_condition (hb : Φ.Beside sh σ τ)
    (hfound : ∀ m ∈ ms, p.statementOf m.expr = i → Φ.Found μ σ τ m)
    (hcd : Comes ms b.toArena origin l.condition d) :
    value b.build.toArena μ τ d = value p.toArena μ σ l.condition :=
  Φ.value_in hb hfound hcd fun h0 =>
    Program.statementOf_child Φ.tree Φ.walked hi hs (Remade.Header.slots hx).1 h0

variable (ih : Φ.Before μ k i)
include ih

theorem alike_body (hcd : Comes ms b.toArena origin l.body d) (hb : Φ.Beside sh σ τ) :
    Φ.Alike sh (execute p.toArena μ k l.body σ) (execute b.build.toArena μ k d τ) :=
  Φ.alike_part ih hi hs (fun _ => (Remade.Header.slots hx).2.1) hcd
    (Φ.header_open hi hs hx (.inr (.inr rfl)))
    (fun ⟨d, hd⟩ => absurd hd (Φ.body_not_varDecl hi hs hx d)) hb

theorem alike_init {next next' : Store V M → Execution.Outcome V M}
    (hcd : Comes ms b.toArena origin l.init d)
    (hn : ∀ σ τ, Φ.Beside (.same :: sh) σ τ → Φ.Alike (.same :: sh) (next σ) (next' τ))
    (hb : Φ.Beside sh σ τ) :
    Φ.Alike sh
      (Execution.inScope (fun σ => (execute p.toArena μ k l.init σ).followed onNext next) σ)
      (Execution.inScope (fun τ => (execute b.build.toArena μ k d τ).followed onNext next') τ) := by
  refine .inScope (y := .same) (by decide) (fun σ τ hb => ?_) hb
  refine Alike.followed Retold.compares ?_ hn
  exact Φ.alike_part ih hi hs (Remade.Header.slots hx).2.2.1 hcd
    (Φ.header_open hi hs hx (.inl rfl)) (fun _ => by simp) hb

/-- The part that closes the turns of a loop, where the declarations of expressions in it are in
scope. -/
theorem alike_continuing (hcd : Comes ms b.toArena origin l.continuing d) {y : Layer}
    (hy : y ≠ .further) (hb : Φ.Beside (y :: sh) σ τ)
    (hfound : ∀ m ∈ ms, place p m.expr = some (.continuing i) → Φ.Found μ σ τ m) :
    Φ.Alike (y :: sh) (execute p.toArena μ k l.continuing σ)
      (execute b.build.toArena μ k d τ) := by
  refine Φ.simulates_child ih hi hs (Remade.Header.slots hx).2.2.2 hcd _ σ τ hb
    (fun hloop m hm heq => ?_) fun _ => by simpa using hy
  have h0 : l.continuing ≠ 0 := by
    rintro h0
    obtain ⟨x, hx⟩ := Φ.hoisted.placed m hm
    rw [place_eq_none (heq.trans h0)] at hx
    cases hx
  have hchild := Program.mem_children_of_slot hs ((Remade.Header.slots hx).2.2.2 h0) h0
  exact hfound m hm (Φ.placed_child hm hchild heq hloop).1

/-- A loop that keeps its header. -/
theorem alike_headed (hloop : ¬ LoopWith p ms i) {l' : Header}
    (hcond : Comes ms b.toArena origin l.condition l'.condition)
    (hcont : Comes ms b.toArena origin l.continuing l'.continuing)
    (hbody : Comes ms b.toArena origin l.body l'.body) (hb : Φ.Beside sh σ τ) :
    Φ.Alike sh (headed p.toArena μ k (execute p.toArena μ k) l.condition l.continuing l.body σ)
      (headed b.build.toArena μ k (execute b.build.toArena μ k) l'.condition l'.continuing l'.body
        τ) := by
  refine .turns Retold.compares (fun σ τ hb => .turn Retold.compares (fun σ τ hb => ?_)
    (fun σ τ hb => ?_) hb) hb
  · refine Alike.followed Retold.compares ?_ fun σ τ hb => Φ.alike_body hi hs hx ih hbody hb
    have hvalue := Φ.value_condition (μ := μ) hi hs hx hb (fun m hm heq => by
      have hheader := isLoopHeader_iff.2 ⟨x, l, hs, hx⟩
      exact absurd ⟨m, hm, .inl (heq ▸ place_condition (heq ▸ hheader))⟩ hloop) hcond
    simp only [guarded, Φ.absent hcond, hvalue]
    split
    · exact .done Retold.compares hb
    · exact ⟨.tested hcond .nil, hb, rfl⟩
  · refine .inScope (y := .same) (by decide) (fun σ τ hb => ?_) hb
    exact Φ.alike_continuing hi hs hx ih hcont (by decide) hb
      fun m hm hplace => absurd ⟨m, hm, .inr hplace⟩ hloop

end Loops

section Lowered

variable {x : StmtShape NodeId} {l : Header}

/-- The test of a loop without a header: nothing, or a break. -/
theorem execute_test {cond negated leave body test : NodeId}
    (hnegated : b.shape? negated = some (.expr (.unary .not cond)))
    (hleave : b.shape? leave = some (.stmt .breakLoop))
    (hbody : b.shape? body = some (.stmt (.block [leave])))
    (htest : b.shape? test = some (.stmt (.ifElse negated body 0))) (τ : Store V M) :
    execute b.build.toArena μ k test τ =
      if μ.holds (value b.build.toArena μ τ cond) then ⟨[.tested negated false], τ, .next⟩
      else ⟨[.tested negated true, .executed leave], τ, .brk⟩ := by
  have hvalue : μ.holds (value b.build.toArena μ τ negated) =
      !μ.holds (value b.build.toArena μ τ cond) := by
    rw [value_eq Φ.ordered (Builder.shape?_build_of hnegated)]
    exact μ.holds_not _ _
  have hbreak : execute b.build.toArena μ k body τ = ⟨[.executed leave], τ, .brk⟩ := by
    rw [execute_eq Φ.ordered (Builder.shape?_build_of hbody)]
    simp only [statement, Execution.inScope, inOrder]
    rw [execute_eq Φ.ordered (Builder.shape?_build_of hleave)]
    rfl
  rw [execute_eq Φ.ordered (Builder.shape?_build_of htest)]
  simp only [statement, hvalue]
  cases μ.holds (value b.build.toArena μ τ cond)
  · exact congrArg (Execution.Outcome.after _) hbreak
  · rw [Bool.not_true, if_neg Bool.false_ne_true, execute_zero]
    rfl

variable (hi : p.inTree i = true) (hs : p.shape? i = some (.stmt x)) (hx : header? x = some l)
include hi hs hx

/-- The tests of a loop without a header do what the header does. -/
theorem alike_tests {tests : List NodeId} (ts : List NodeId)
    {next : Store V M → Execution.Outcome V M}
    (h : Tests b.toArena (Comes ms b.toArena origin) l.condition tests) (hb : Φ.Beside sh σ τ)
    (hfound : ∀ m ∈ ms, p.statementOf m.expr = i → Φ.Found μ σ τ m)
    (hn : ∀ σ τ, Φ.Beside sh σ τ →
      Φ.Alike sh (next σ) (inOrder (execute b.build.toArena μ k) ts τ)) :
    Φ.Alike sh ((guarded p.toArena μ l.condition σ).followed onNext next)
      (inOrder (execute b.build.toArena μ k) (tests ++ ts) τ) := by
  cases h with
  | none h0 =>
    rw [guarded, if_pos h0]
    exact hn σ τ hb
  | test h0 hcond hnegated hleave hbody htest =>
    refine Alike.followed Retold.compares ?_ hn
    have hvalue := Φ.value_condition (μ := μ) hi hs hx hb hfound hcond
    rw [guarded, if_neg h0, Φ.execute_test hnegated hleave hbody htest, hvalue]
    cases μ.holds (value p.toArena μ σ l.condition)
    · exact ⟨.leaves hcond hnegated hleave .nil, hb, rfl⟩
    · exact ⟨.stays hcond hnegated .nil, hb, rfl⟩

variable (ih : Φ.Before μ k i)
include ih

/-- What closes the turns of a loop without a header does what the header does. -/
theorem alike_continued (h : Continued b.toArena (Comes ms b.toArena origin)
    (pending p ms i).continuing l.continuing j) (hb : Φ.Beside sh σ τ) :
    Φ.Alike sh (Execution.inScope (execute p.toArena μ k l.continuing) σ)
      (execute b.build.toArena μ k j τ) := by
  cases h with
  | none h0 =>
    rw [h0, execute_zero, execute_zero]
    exact .done Retold.compares hb
  | block _ hlast hblock =>
    rw [execute_eq Φ.ordered (Builder.shape?_build_of hblock)]
    refine .inScope (y := .more) (by decide) (fun σ τ hb => ?_) hb
    obtain ⟨τ₁, hruns, hb', hfound⟩ :=
      Φ.runs_declared (μ := μ) (k := k) (by decide) hb (.continuing i)
    have hlast := Φ.alike_continuing hi hs hx ih hlast (by decide) hb' hfound
    rw [pending, hruns, inOrder_singleton]
    exact ⟨hlast.trace.declaredAt, hlast.store, hlast.exit⟩

/-- A loop without a header does what the loop with the header does. -/
theorem alike_looped
    (h : Looped b.toArena (Comes ms b.toArena origin) (pending p ms i) l j) (hb : Φ.Beside sh σ τ) :
    Φ.Alike sh (headed p.toArena μ k (execute p.toArena μ k) l.condition l.continuing l.body σ)
      (execute b.build.toArena μ k j τ) := by
  cases h with
  | @loop tests inner whole j' _ htests hinner hwhole hcont hj =>
    have hblock : b.build.block? whole = some ((pending p ms i).condition ++ tests ++ [inner]) := by
      rw [Arena.block?, Builder.shape?_build_of hwhole]
      rfl
    rw [execute_eq Φ.ordered (Builder.shape?_build_of hj)]
    simp only [statement, hblock, Option.getD_some, List.append_assoc]
    refine .turns Retold.compares (fun σ τ hb => .further (fun τ hb => ?_) hb) hb
    refine .turn Retold.compares (fun σ τ hb => ?_)
      (fun σ τ hb => Φ.alike_continued hi hs hx ih hcont hb) hb
    obtain ⟨τ₁, hruns, hb', hfound⟩ :=
      Φ.runs_declared (μ := μ) (k := k) (by decide) hb (.condition i)
    have htests := Φ.alike_tests (μ := μ) hi hs hx [inner] htests hb' (fun m hm heq => by
        have hheader := isLoopHeader_iff.2 ⟨x, l, hs, hx⟩
        exact hfound m hm (heq ▸ place_condition (heq ▸ hheader)))
      fun σ τ hb => by
        rw [inOrder_singleton]
        exact Φ.alike_body hi hs hx ih hinner hb
    rw [pending, hruns]
    exact ⟨htests.trace.declaredAt, htests.store, htests.exit⟩

/-- So does the loop in a block with what initializes it. -/
theorem alike_lowered
    (h : LoweredLoop b.toArena (Comes ms b.toArena origin) (pending p ms i) l j)
    (hb : Φ.Beside sh σ τ) :
    Φ.Alike sh (execute p.toArena μ k i σ) (execute b.build.toArena μ k j τ) := by
  rw [execute_header Φ.fit.ordered hs hx]
  cases h with
  | bare h0 h =>
    rw [initialized, if_pos h0]
    exact Φ.alike_looped hi hs hx ih h hb
  | @after first loop _ h0 hfirst h hj =>
    rw [initialized, if_neg h0, execute_eq Φ.ordered (Builder.shape?_build_of hj), statement]
    refine Φ.alike_init hi hs hx ih hfirst (fun σ τ hb => ?_) hb
    rw [inOrder_singleton]
    exact Φ.alike_looped hi hs hx ih h hb

end Lowered

section Statements

/-- Nothing is put before the elements of blocks. -/
theorem forall₂_of_woven {ss ts : List NodeId}
    (h : Woven (before p ms) (Comes ms b.toArena origin) ss ts) :
    List.Forall₂ (Comes ms b.toArena origin) ss ts := by
  refine Hoist.forall₂_of_woven h fun s _ => List.eq_nil_iff_forall_not_mem.2 fun y hy => ?_
  obtain ⟨m, hm, hplace, -⟩ := mem_declaredAt.1 hy
  obtain ⟨k, hk | hk⟩ := Φ.header m hm <;> cases hplace.symm.trans hk

/-- A statement becomes one of the same form, or it is a loop that is lowered. -/
theorem forms (hij : Comes ms b.toArena origin i j) {x : StmtShape NodeId}
    (hx : p.shape? i = some (.stmt x)) :
    (∃ y, b.build.shape? j = some (.stmt y) ∧ ¬ LoopWith p ms i ∧
      Shape.Rel (SameName p b.toArena) (Comes ms b.toArena origin)
        (List.Forall₂ (Comes ms b.toArena origin)) (.stmt x) (.stmt y)) ∨
      ∃ l, header? x = some l ∧
        LoweredLoop b.toArena (Comes ms b.toArena origin) (pending p ms i) l j := by
  obtain ⟨h0, rfl, -⟩ := hij.resolve_left fun hz => Arena.ne_zero_of_shape hx hz.1
  have hrecast := (Φ.hoisted.traced j h0).2.2
  generalize origin j = i at *
  cases hrecast with
  | parts hloop _ hn hm _ hrel =>
    rw [Option.some.inj ((Arena.shape?_of_node? hn).symm.trans hx)] at hrel
    obtain ⟨y, hy⟩ := hrel.stmt
    rw [hy] at hrel
    exact .inl ⟨y, Builder.shape?_build_of (hy ▸ Arena.shape?_of_node? hm), hloop,
      hrel.mono (fun _ _ h => h) (fun _ _ h => h) fun _ _ => Φ.forall₂_of_woven⟩
  | reference hm _ =>
    obtain ⟨y, hy⟩ := Φ.expr _ hm
    cases hx.symm.trans hy
  | loop _ hs hheader hl =>
    cases hx.symm.trans hs
    exact .inr ⟨_, hheader, hl⟩
  | otherwise helse _ _ =>
    obtain ⟨m, hm, hplace⟩ := helse
    obtain ⟨k, hk | hk⟩ := Φ.header m hm <;> cases hplace.symm.trans hk

variable {x y : StmtShape NodeId} (ih : Φ.Before μ k i) (hi : p.inTree i = true)
  (hx : p.shape? i = some (.stmt x)) (hy : b.build.shape? j = some (.stmt y))
  (hrel : Shape.Rel (SameName p b.toArena) (Comes ms b.toArena origin)
    (List.Forall₂ (Comes ms b.toArena origin)) (.stmt x) (.stmt y))
include ih hi hx hy hrel

/-- A loop that keeps its header becomes one. -/
theorem alike_header (hloop : ¬ LoopWith p ms i) {l : Header} (hl : header? x = some l)
    (hb : Φ.Beside sh σ τ) :
    Φ.Alike sh (execute p.toArena μ k i σ) (execute b.build.toArena μ k j τ) := by
  obtain ⟨l', hl', hinit, hcond, hcont, hbody⟩ : ∃ l', header? y = some l' ∧
      Comes ms b.toArena origin l.init l'.init ∧
      Comes ms b.toArena origin l.condition l'.condition ∧
      Comes ms b.toArena origin l.continuing l'.continuing ∧
      Comes ms b.toArena origin l.body l'.body := by
    cases hrel with
    | forLoop hinit hcond hcont hbody =>
      cases hl
      exact ⟨_, rfl, hinit, hcond, hcont, hbody⟩
    | whileLoop hcond hbody =>
      cases hl
      exact ⟨_, rfl, .inl ⟨rfl, rfl⟩, hcond, .inl ⟨rfl, rfl⟩, hbody⟩
    | _ => cases hl
  have hturns : ∀ sh (σ τ : Store V M), Φ.Beside sh σ τ → Φ.Alike sh _ _ := fun sh σ τ hb =>
    Φ.alike_headed (μ := μ) (k := k) hi hx hl ih hloop hcond hcont hbody hb
  rw [execute_header Φ.fit.ordered hx hl, execute_header Φ.ordered hy hl', initialized, initialized]
  by_cases h0 : l.init = 0
  · rw [if_pos h0, if_pos ((Φ.absent hinit).1 h0)]
    exact hturns sh σ τ hb
  · rw [if_neg h0, if_neg (mt (Φ.absent hinit).2 h0)]
    exact Φ.alike_init hi hx hl ih hinit (hturns _) hb

/-- A statement that becomes one of the same form does alike. -/
theorem alike_of_rel (hij : Comes ms b.toArena origin i j) (hloop : ¬ LoopWith p ms i)
    (hb : Φ.Beside sh σ τ)
    (hfound : isLoopHeader p i = false → ∀ m ∈ ms, p.statementOf m.expr = i → Φ.Found μ σ τ m)
    (hd : (∃ d, p.shape? i = some (.stmt (.varDecl d))) → sh.head? ≠ some .further) :
    Φ.Alike sh (execute p.toArena μ k i σ) (execute b.build.toArena μ k j τ) := by
  by_cases hheader : ∃ l, header? x = some l
  · obtain ⟨l, hl⟩ := hheader
    exact Φ.alike_header ih hi hx hy hrel hloop hl hb
  have hnone : header? x = none := Option.eq_none_iff_forall_ne_some.2 fun l hl => hheader ⟨l, hl⟩
  have hfound := hfound (isLoopHeader_eq_false hx hnone)
  have hpart : ∀ {c d sh} {σ τ : Store V M}, c ∈ (Shape.stmt (ν := Symbol) x).slots →
      Comes ms b.toArena origin c d → (p.isBlock c ∨ p.isIf c ∨ c = 0) → Φ.Beside sh σ τ →
      Φ.Alike sh (execute p.toArena μ k c σ) (execute b.build.toArena μ k d τ) := by
    intro c d sh σ τ hc hcd hkind hb
    refine Φ.alike_part ih hi hx (fun _ => hc) hcd (fun _ _ _ _ hfor => ?_) (fun ⟨d, hs⟩ => ?_) hb
    · rw [hfor] at hnone
      cases hnone
    · rcases hkind with hblock | ⟨_, _, _, hif⟩ | rfl
      · exact absurd hs (Remade.not_varDecl_of_isBlock (.inl hblock) d)
      · cases hs.symm.trans hif
      · cases hs
  have hvalue : ∀ {c d}, c ∈ (Shape.stmt (ν := Symbol) x).slots → Comes ms b.toArena origin c d →
      value b.build.toArena μ τ d = value p.toArena μ σ c := fun hc hcd =>
    Φ.value_in hb hfound hcd fun h0 => Program.statementOf_child Φ.tree Φ.walked hi hx hc h0
  have heffect := Φ.effect_of_rel (μ := μ) hb hi hfound hx hrel fun d hd' => hd ⟨d, hd' ▸ hx⟩
  have hdoc := Φ.tidy i _ hi hx
  rw [execute_eq Φ.fit.ordered hx, execute_eq Φ.ordered hy]
  cases hrel with
  | block hss =>
    exact .inScope (y := .same) (by decide)
      (fun σ τ hb => Φ.alike_elements ih hi hx hss (by decide) hb) hb
  | ifElse hc ht he =>
    simp only [statement, hvalue (by simp [Shape.slots]) hc]
    refine .after Retold.compares (.tested hc .nil) ?_
    split
    · exact hpart (by simp [Shape.slots]) ht (.inl hdoc.1) hb
    · refine hpart (by simp [Shape.slots]) he ?_ hb
      exact hdoc.2.elim (.inr ∘ .inr) (.imp_right .inl)
  | @loop body body' cont cont' hbody hcont =>
    obtain ⟨ss, hss⟩ := Option.isSome_iff_exists.1 hdoc.1
    have hblock := Arena.shape?_of_block? hss
    obtain ⟨ts, hts, hst⟩ : ∃ ts, b.build.block? body' = some ts ∧
        List.Forall₂ (Comes ms b.toArena origin) ss ts := by
      rcases Φ.forms hbody hblock with ⟨y, hy, -, hrel⟩ | ⟨l, hl, -⟩
      · cases hrel with
        | block hst => exact ⟨_, by rw [Arena.block?, hy]; rfl, hst⟩
      · cases hl
    have hchild : body ∈ p.children i :=
      Program.mem_children_of_slot hx (by simp [Shape.slots]) (Arena.ne_zero_of_shape hblock)
    have hbefore : Φ.Before μ k body := fun c d hc =>
      ih c d (Nat.lt_trans hc (Φ.fit.lt_of_mem_children hchild))
    simp only [statement, hss, hts, Option.getD_some]
    refine .turns Retold.compares (fun σ τ hb => .inScope (y := .same) (by decide)
      (fun σ τ hb => .turn Retold.compares (fun σ τ hb => ?_) (fun σ τ hb => ?_) hb) hb) hb
    · exact Φ.alike_elements hbefore (Φ.tree.inTree_child hi hchild) hblock hst (by decide) hb
    · refine hpart (by simp [Shape.slots]) hcont ?_ hb
      exact hdoc.2.elim (.inr ∘ .inr) .inl
  | ret he =>
    refine ⟨?_, hb, rfl⟩
    simp only [statement, hvalue (by simp [Shape.slots]) he]
    exact .returned hij .nil
  | forLoop | whileLoop => cases hnone
  | _ => exact ⟨.executed hij .nil, heffect, rfl⟩

end Statements

theorem no_stmt_of_comes (hij : Comes ms b.toArena origin i j) (hs : p.NoStatement i) :
    ∀ x, b.build.shape? j ≠ some (.stmt x) := by
  intro x hx
  rcases hij with ⟨rfl, rfl⟩ | ⟨h0, horigin, -⟩
  · cases hx
  rcases Φ.hoisted.echoes_or_reference Φ.tree h0 horigin hs with
    ⟨n, k, hn, hk, -, hrel⟩ | ⟨m, -, -, hj⟩
  · have hk := Option.some.inj ((Builder.shape?_build_of (Arena.shape?_of_node? hk)).symm.trans hx)
    rw [hk] at hrel
    obtain ⟨y, hy⟩ := hrel.flip.stmt
    rw [Arena.NoStatement, Arena.shape?_of_node? hn, hy] at hs
    cases hs
  · cases hx.symm.trans (Builder.shape?_build_of hj)

/-- Every statement does alike what it did. -/
theorem simulates (hij : Comes ms b.toArena origin i j) (hi : i ≠ 0 → p.inTree i = true) :
    Φ.Simulates μ k i j := by
  induction i using Nat.strongRecOn generalizing j with
  | ind i ih =>
    intro sh σ τ hb hfound hd
    have hbefore : Φ.Before μ k i := fun c d hc hin hcd => ih c hc hcd hin
    by_cases hstmt : ∃ x, p.shape? i = some (.stmt x)
    · obtain ⟨x, hx⟩ := hstmt
      have hi := hi (Arena.ne_zero_of_shape hx)
      rcases Φ.forms hij hx with ⟨y, hy, hloop, hrel⟩ | ⟨l, hl, hlowered⟩
      · exact Φ.alike_of_rel hbefore hi hx hy hrel hij hloop hb hfound hd
      · exact Φ.alike_lowered hi hx hl hbefore hlowered hb
    · have hplain : p.NoStatement i := by
        cases hs : p.shape? i with
        | none => simp [Arena.NoStatement, hs]
        | some x => cases x <;> simp_all [Arena.NoStatement, Shape.isStatement]
      rw [execute_of_no_stmt fun x hx => hstmt ⟨x, hx⟩,
        execute_of_no_stmt (Φ.no_stmt_of_comes hij hplain)]
      exact .done Retold.compares hb

end FromHeaders
end Hoist
end ShaderLoom
