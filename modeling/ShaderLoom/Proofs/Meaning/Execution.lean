import ShaderLoom.Proofs.Document.Mirror
import ShaderLoom.Proofs.Meaning.Flow
import ShaderLoom.Proofs.Meaning.Typed

/-! What functions compute. Expressions are functions of a store, which has the values of the
variables in scope, and statements change it. What the values are is left open: a machine says what
is made of them. No loop makes more turns than a bound allows, so that an execution without an end
is known by its beginnings; one that ends within a bound is the same for all greater ones. -/
namespace ShaderLoom

namespace Shape

variable {ν μ α β : Type}

/-- The shape with other names and other children. -/
def map (f : ν → μ) (g : α → β) (s : Shape ν α) : Shape μ β :=
  Id.run (s.traverse (fun x => pure (f x)) (fun c => pure (g c)) fun _ cs => pure (cs.map g))

theorem Rel.map_eq {γ δ : Type} {N : ν → μ → Prop} {C : α → β → Prop}
    {L : List α → List β → Prop} {s : Shape ν α} {t : Shape μ β} (h : Rel N C L s t) {f : ν → γ}
    {f' : μ → γ} {g : α → δ} {g' : β → δ} (hN : ∀ x y, N x y → f x = f' y)
    (hC : ∀ c d, C c d → g c = g' d) (hL : ∀ cs ds, L cs ds → cs.map g = ds.map g') :
    s.map f g = t.map f' g' := by
  have h : Rel (fun x y => f x = f' y) (fun c d => g c = g' d)
    (fun cs ds => cs.map g = ds.map g') s t := h.mono hN hC hL
  cases h <;> simp_all [Shape.map, traverse]

/-- What becomes of the children counts for nothing else. -/
theorem map_congr {f : ν → μ} {g g' : α → β} {s : Shape ν α} (h : ∀ c ∈ s.slots, g c = g' c) :
    s.map f g = s.map f g' := by
  have hrefl : Rel Eq Eq Eq s s := .refl (fun _ => rfl) (fun _ => rfl) (fun _ => rfl) s
  refine hrefl.within.map_eq (by simp) ?_ ?_
  · rintro c _ ⟨hc, rfl⟩
    exact h c hc
  · rintro cs _ ⟨hcs, rfl⟩
    exact List.map_congr_left fun c hc => h c (hcs c hc)

end Shape

namespace Arena

section Recursion

variable {R : Type} (a : Arena) (absent : R)
  (step : (NodeId → R) → NodeId → Shape Symbol NodeId → R)

/-- What a step makes of a node when it is known what it makes of others, to a depth. -/
def recurseTo : Nat → NodeId → R
  | 0, _ => absent
  | n + 1, i => ((a.shape? i).map (step (recurseTo n) i)).getD absent

def recurse (i : NodeId) : R := a.recurseTo absent step (i + 1) i

/-- The step needs to know what it makes of nodes before the node. -/
def Backward : Prop := ∀ i s rec rec', a.shape? i = some s → (∀ c < i, rec c = rec' c) →
  step rec i s = step rec' i s

variable {a absent step}

/-- What holds of what two steps make holds of what is made in the end. -/
theorem recurse_rel {Q : R → R → Prop} {step' : (NodeId → R) → NodeId → Shape Symbol NodeId → R}
    (h0 : Q absent absent)
    (h : ∀ rec rec', (∀ c, Q (rec c) (rec' c)) → ∀ i s, Q (step rec i s) (step' rec' i s))
    (i : NodeId) : Q (a.recurse absent step i) (a.recurse absent step' i) := by
  have hto : ∀ n i, Q (a.recurseTo absent step n i) (a.recurseTo absent step' n i) := by
    intro n
    induction n with
    | zero => exact fun _ => h0
    | succ n ih =>
      intro i
      rw [recurseTo, recurseTo]
      cases a.shape? i with
      | none => exact h0
      | some s => exact h _ _ ih i s
  exact hto (i + 1) i

variable (h : a.Backward step) {i : NodeId}
include h

theorem recurseTo_of_lt {n : Nat} (hn : i < n) :
    a.recurseTo absent step n i = a.recurse absent step i := by
  induction i using Nat.strongRecOn generalizing n with
  | ind i ih =>
    obtain ⟨n, rfl⟩ := Nat.exists_eq_succ_of_ne_zero (Nat.ne_of_gt (Nat.zero_lt_of_lt hn))
    unfold recurse
    cases hs : a.shape? i with
    | none => simp [recurseTo, hs]
    | some s =>
      simp only [recurseTo, hs, Option.map_some, Option.getD_some]
      exact h i s _ _ hs fun c hc =>
        (ih c hc (Nat.lt_of_lt_of_le hc (Nat.le_of_lt_succ hn))).trans (ih c hc hc).symm

theorem recurse_eq {s : Shape Symbol NodeId} (hs : a.shape? i = some s) :
    a.recurse absent step i = step (a.recurse absent step) i s := by
  rw [recurse, recurseTo, hs, Option.map_some, Option.getD_some]
  exact h i s _ _ hs fun c hc => recurseTo_of_lt h hc

omit h in
theorem recurse_of_none (hs : a.shape? i = none) : a.recurse absent step i = absent := by
  simp [recurse, recurseTo, hs]

end Recursion

theorem Ordered.lt {a : Arena} (ha : a.Ordered) {i c : NodeId} {s : Shape Symbol NodeId}
    (hs : a.shape? i = some s) (hc : c ∈ s.slots) : c < i := by
  obtain ⟨n, hn, rfl⟩ := Option.map_eq_some_iff.1 hs
  exact ha i n hn c hc

end Arena

namespace Execution

open ShaderLoom.Flow (Exit)

/-- A step from a variable into its value: to an element or to a member. -/
inductive Step (V : Type) where
  | index (v : V)
  | member (name : String)

/-- What is computed with values `V`, where `M` is what a program sees beyond the variables of its
functions. An expression is made of what its parts are, and nothing else counts but `M`. -/
structure Machine (V M : Type) where
  absent : V
  /-- What a name stands for that is no variable of a function. -/
  free : String → M → V
  make : Shape String V → M → V
  holds : V → Bool
  holds_not : ∀ v m, holds (make (.expr (.unary .not v)) m) = !holds v
  /-- One more, or one less. -/
  next : Bool → V → V
  /-- The first value with the second one in a part of it. -/
  put : List (Step V) → V → V → V
  write : String → List (Step V) → V → M → M
  /-- What the statement that makes a call changes, by what the call is. -/
  call : V → M → M
  /-- The value of a variable of a type that nothing initializes. -/
  initial : V → V

abbrev Scope (V : Type) := List (String × V)

/-- The variables in scope, the innermost scope first, and what there is beyond them. -/
structure Store (V M : Type) where
  scopes : List (Scope V)
  rest : M

section Scopes

variable {V : Type}

def find? (ls : List (Scope V)) (x : String) : Option V := ls.findSome? (·.lookup x)

/-- A variable of the innermost scope. -/
def declare (x : String) (v : V) : List (Scope V) → List (Scope V)
  | [] => []
  | l :: ls => ((x, v) :: l) :: ls

/-- Another value for the innermost variable of the name. -/
def update (x : String) (f : V → V) : List (Scope V) → List (Scope V)
  | [] => []
  | l :: ls =>
    if (l.lookup x).isSome then l.map (fun y => if y.1 = x then (x, f y.2) else y) :: ls
    else l :: update x f ls

end Scopes

section Values

variable {V M : Type} (a : Arena) (μ : Machine V M) (σ : Store V M)

/-- The value of an expression, or what a type is, by what its parts are. -/
def valueBy (rec : NodeId → V) : Shape Symbol NodeId → V
  | .expr (.ident s) => (find? σ.scopes (a.nameOf s)).getD (μ.free (a.nameOf s) σ.rest)
  | .expr x => μ.make ((Shape.expr x).map a.nameOf rec) σ.rest
  | .type x => μ.make ((Shape.type x).map a.nameOf rec) σ.rest
  | _ => μ.absent

def value : NodeId → V := a.recurse μ.absent fun rec _ => valueBy a μ σ rec

/-- The variable that is written to, and the way to the part of it that is. -/
def targetBy (rec : NodeId → Option (String × List (Step V))) :
    Shape Symbol NodeId → Option (String × List (Step V))
  | .expr (.ident s) => some (a.nameOf s, [])
  | .expr (.index o k) => (rec o).map fun t => (t.1, t.2 ++ [.index (value a μ σ k)])
  | .expr (.member o s) => (rec o).map fun t => (t.1, t.2 ++ [.member (a.nameOf s)])
  | _ => none

def target : NodeId → Option (String × List (Step V)) :=
  a.recurse none fun rec _ => targetBy a μ σ rec

/-- A value is put where the target leads: into a variable in scope, or beyond. -/
def write (t : Option (String × List (Step V))) (v : V) : Store V M :=
  match t with
  | none => σ
  | some (x, path) =>
    if (find? σ.scopes x).isSome then
      { σ with scopes := update x (fun old => μ.put path old v) σ.scopes }
    else { σ with rest := μ.write x path v σ.rest }

/-- What a declaration in a function makes of the store. -/
def declared (v : VariableShape Symbol NodeId) : Store V M :=
  let first := if v.initializer = 0 then μ.initial (value a μ σ v.type)
    else value a μ σ v.initializer
  { σ with scopes := declare (a.nameOf v.name) first σ.scopes }

/-- What a statement without other statements in it makes of the store. -/
def effect : StmtShape NodeId → Store V M
  | .varDecl d => ((a.asVariable? d).map (declared a μ σ)).getD σ
  | .assign l r => write μ σ (target a μ σ l) (value a μ σ r)
  | .increment l down => write μ σ (target a μ σ l) (μ.next down (value a μ σ l))
  | .callStatement c => { σ with rest := μ.call (value a μ σ c) σ.rest }
  | _ => σ

end Values

/-- What happens: statements without other statements in them are executed, and conditions are
tested. -/
inductive Event (V : Type) where
  | executed (s : NodeId)
  | returned (s : NodeId) (v : V)
  | tested (condition : NodeId) (holds : Bool)

/-- What an execution comes to: what happens in it, the store after it, and how it ends. -/
structure Outcome (V M : Type) where
  trace : List (Event V)
  store : Store V M
  exit : Exit

section Outcomes

variable {V M : Type}

def done (σ : Store V M) : Outcome V M := ⟨[], σ, .next⟩

namespace Outcome

/-- Something happens before. -/
def after (es : List (Event V)) (r : Outcome V M) : Outcome V M := { r with trace := es ++ r.trace }

/-- What comes after an outcome, if that goes on in one of some ways. -/
def followed (r : Outcome V M) (goes : Exit → Bool) (next : Store V M → Outcome V M) :
    Outcome V M :=
  if goes r.exit then (next r.store).after r.trace else r

/-- A break has done its work once the loop is left. -/
def left (r : Outcome V M) : Outcome V M :=
  { r with exit := if r.exit = .brk then .next else r.exit }

/-- A scope ends. -/
def outOfScope (r : Outcome V M) : Outcome V M :=
  { r with store := { r.store with scopes := r.store.scopes.drop 1 } }

end Outcome

def onNext (e : Exit) : Bool := e = .next

def onTurn (e : Exit) : Bool := e = .next || e = .cont

def onContinue (e : Exit) : Bool := e = .cont

/-- A step over and over, as long as it goes on, for a number of times at most. -/
def iterate (goes : Exit → Bool) (step : Store V M → Outcome V M) : Nat → Store V M → Outcome V M
  | 0, σ => ⟨[], σ, .running⟩
  | k + 1, σ => (step σ).followed goes (iterate goes step k)

/-- Inside a scope of its own. -/
def inScope (step : Store V M → Outcome V M) (σ : Store V M) : Outcome V M :=
  (step { σ with scopes := [] :: σ.scopes }).outOfScope

/-- Statements in order. -/
def inOrder (step : NodeId → Store V M → Outcome V M) : List NodeId → Store V M → Outcome V M
  | [], σ => done σ
  | s :: ss, σ => (step s σ).followed onNext (inOrder step ss)

end Outcomes

section Statements

variable {V M : Type} (a : Arena) (μ : Machine V M) (k : Nat)

/-- A test at the beginning of a turn, which leaves the loop if it fails. -/
def guarded (condition : NodeId) (σ : Store V M) : Outcome V M :=
  if condition = 0 then done σ
  else
    let h := μ.holds (value a μ σ condition)
    ⟨[.tested condition h], σ, if h then .next else .brk⟩

/-- A turn, and what closes it. A `continue` in what closes it begins that again. -/
def turn (body closing : Store V M → Outcome V M) (σ : Store V M) : Outcome V M :=
  (body σ).followed onTurn (iterate onContinue closing k)

/-- The turns of a loop, until it is left. -/
def turns (step : Store V M → Outcome V M) (σ : Store V M) : Outcome V M :=
  (iterate onTurn step k σ).left

/-- The turns of a loop with a header. What closes a turn is in a scope of its own. -/
def headed (rec : NodeId → Store V M → Outcome V M) (condition continuing body : NodeId) :
    Store V M → Outcome V M :=
  turns k <| turn k (fun σ => (guarded a μ condition σ).followed onNext (rec body))
    (inScope (rec continuing))

/-- Something after what initializes it, which is in a scope with it, if there is anything. -/
def initialized (rec : NodeId → Store V M → Outcome V M) (init : NodeId)
    (next : Store V M → Outcome V M) : Store V M → Outcome V M :=
  if init = 0 then next else inScope fun σ => (rec init σ).followed onNext next

/-- A statement, where the statements in it are executed by `rec`. -/
def statement (rec : NodeId → Store V M → Outcome V M) (i : NodeId) :
    StmtShape NodeId → Store V M → Outcome V M
  | .block ss => inScope (inOrder rec ss)
  | .ifElse c t e => fun σ =>
    let h := μ.holds (value a μ σ c)
    (rec (if h then t else e) σ).after [.tested c h]
  | .forLoop init c t b => initialized rec init (headed a μ k rec c t b)
  | .whileLoop c b => headed a μ k rec c 0 b
  | .loop b t =>
    -- what closes a turn sees what the body declares
    turns k (inScope (turn k (inOrder rec ((a.block? b).getD [])) (rec t)))
  | .breakLoop => fun σ => ⟨[.executed i], σ, .brk⟩
  | .continueLoop => fun σ => ⟨[.executed i], σ, .cont⟩
  | .discard => fun σ => ⟨[.executed i], σ, .discard⟩
  | .ret e => fun σ => ⟨[.returned i (value a μ σ e)], σ, .ret⟩
  | x => fun σ => ⟨[.executed i], effect a μ σ x, .next⟩

/-- A node that is no statement does nothing. -/
def executeBy (rec : NodeId → Store V M → Outcome V M) (i : NodeId) :
    Shape Symbol NodeId → Store V M → Outcome V M
  | .stmt x => statement a μ k rec i x
  | _ => done

/-- The execution of a statement where no loop makes more than `k` turns. -/
def execute : NodeId → Store V M → Outcome V M := a.recurse done (executeBy a μ k)

end Statements

section Parts

variable {V M : Type} {a : Arena} {μ : Machine V M} {σ : Store V M} {k : Nat} {i : NodeId}

theorem valueBy_congr {rec rec' : NodeId → V} {s : Shape Symbol NodeId}
    (h : ∀ c ∈ s.slots, rec c = rec' c) : valueBy a μ σ rec s = valueBy a μ σ rec' s := by
  have hmap := Shape.map_congr (f := a.nameOf) h
  rcases s with t | e | _ | _ | _ | _ | _
  · simp only [valueBy, hmap]
  · cases e <;> simp only [valueBy, hmap]
  all_goals rfl

theorem targetBy_congr {rec rec' : NodeId → Option (String × List (Step V))}
    {s : Shape Symbol NodeId} (h : ∀ c ∈ s.slots, rec c = rec' c) :
    targetBy a μ σ rec s = targetBy a μ σ rec' s := by
  rcases s with t | e | _ | _ | _ | _ | _
  · rfl
  · cases e <;> first | rfl | simp only [targetBy, h _ List.mem_cons_self]
  all_goals rfl

theorem inOrder_congr {rec rec' : NodeId → Store V M → Outcome V M} {ss : List NodeId}
    (h : ∀ s ∈ ss, rec s = rec' s) : inOrder rec ss = inOrder rec' ss := by
  induction ss with
  | nil => rfl
  | cons s ss ih =>
    funext σ
    rw [inOrder, inOrder, h s List.mem_cons_self, ih fun s hs => h s (List.mem_cons_of_mem _ hs)]

variable (ha : a.Ordered)
include ha

theorem value_eq {s : Shape Symbol NodeId} (hs : a.shape? i = some s) :
    value a μ σ i = valueBy a μ σ (value a μ σ) s := by
  have hback : a.Backward fun rec (_ : NodeId) => valueBy a μ σ rec :=
    fun _ _ _ _ hs h => valueBy_congr fun c hc => h c (ha.lt hs hc)
  exact Arena.recurse_eq hback hs

theorem target_eq {s : Shape Symbol NodeId} (hs : a.shape? i = some s) :
    target a μ σ i = targetBy a μ σ (target a μ σ) s := by
  have hback : a.Backward fun rec (_ : NodeId) => targetBy a μ σ rec :=
    fun _ _ _ _ hs h => targetBy_congr fun c hc => h c (ha.lt hs hc)
  exact Arena.recurse_eq hback hs

theorem execute_eq {x : StmtShape NodeId} (hs : a.shape? i = some (.stmt x)) :
    execute a μ k i = statement a μ k (execute a μ k) i x := by
  suffices hback : a.Backward (executeBy a μ k) from Arena.recurse_eq hback hs
  intro i s rec rec' hs h
  cases s with
  | stmt x =>
    have hpart : ∀ c ∈ (Shape.stmt (ν := Symbol) x).slots, rec c = rec' c :=
      fun c hc => h c (ha.lt hs hc)
    cases x with
    | block ss =>
      have hss : inOrder rec ss = inOrder rec' ss := inOrder_congr hpart
      simp only [executeBy, statement, hss]
    | ifElse c t e =>
      have ht := hpart t (by simp [Shape.slots])
      have he := hpart e (by simp [Shape.slots])
      funext σ
      simp only [executeBy, statement]
      split <;> simp only [ht, he]
    | forLoop init c t b =>
      simp only [executeBy, statement, headed, initialized, hpart init (by simp [Shape.slots]),
        hpart t (by simp [Shape.slots]), hpart b (by simp [Shape.slots])]
    | whileLoop c b =>
      have h0 : rec 0 = rec' 0 := h 0 (Nat.pos_of_ne_zero (Arena.ne_zero_of_shape hs))
      simp only [executeBy, statement, headed, h0, hpart b (by simp [Shape.slots])]
    | loop b t =>
      have hb : inOrder rec ((a.block? b).getD []) = inOrder rec' ((a.block? b).getD []) := by
        cases hss : a.block? b with
        | none => rfl
        | some ss =>
          refine inOrder_congr fun s hmem => h s ?_
          have hb : b < i := ha.lt hs (by simp [Shape.slots])
          exact Nat.lt_trans (ha.lt (Arena.shape?_of_block? hss) hmem) hb
      simp only [executeBy, statement, hb, hpart t (by simp [Shape.slots])]
    | _ => rfl
  | _ => rfl

omit ha in
theorem value_of_none (hs : a.shape? i = none) : value a μ σ i = μ.absent :=
  Arena.recurse_of_none hs

omit ha in
theorem target_of_none (hs : a.shape? i = none) : target a μ σ i = none :=
  Arena.recurse_of_none hs

omit ha in
theorem value_of_stmt {x : StmtShape NodeId} (hs : a.shape? i = some (.stmt x)) :
    value a μ σ i = μ.absent := by
  simp only [value, Arena.recurse, Arena.recurseTo, hs, Option.map_some, valueBy, Option.getD_some]

omit ha in
theorem target_of_stmt {x : StmtShape NodeId} (hs : a.shape? i = some (.stmt x)) :
    target a μ σ i = none := by
  simp only [target, Arena.recurse, Arena.recurseTo, hs, Option.map_some, targetBy,
    Option.getD_some]

omit ha in
theorem execute_of_no_stmt (hs : ∀ x, a.shape? i ≠ some (.stmt x)) :
    execute a μ k i = done := by
  unfold execute Arena.recurse Arena.recurseTo
  cases hi : a.shape? i with
  | none => rfl
  | some s =>
    cases s with
    | stmt x => exact absurd hi (hs x)
    | _ => rfl

omit ha in
theorem execute_zero : execute a μ k 0 = done := execute_of_no_stmt fun _ h => by cases h

end Parts

section Scopes

variable {V : Type} {ls : List (Scope V)} {x y : String}

theorem find?_declare_self (h : ls ≠ []) (x : String) (v : V) :
    find? (declare x v ls) x = some v := by
  cases ls with
  | nil => exact absurd rfl h
  | cons l ls => simp [find?, declare]

theorem find?_declare_of_ne (h : y ≠ x) (v : V) (ls : List (Scope V)) :
    find? (declare x v ls) y = find? ls y := by
  cases ls with
  | nil => rfl
  | cons l ls =>
    simp only [find?, declare, List.findSome?_cons, List.lookup_cons, beq_false_of_ne h]

end Scopes

namespace Outcome

variable {V M : Type} (r : Outcome V M)

theorem after_nil : r.after [] = r := rfl

theorem after_after (es fs : List (Event V)) : (r.after fs).after es = r.after (es ++ fs) := by
  simp [after]

theorem followed_done : r.followed onNext done = r := by
  obtain ⟨es, σ, e⟩ := r
  by_cases he : e = .next <;> simp [followed, onNext, he, done, after]

end Outcome

theorem inOrder_singleton {V M : Type} (rec : NodeId → Store V M → Outcome V M) (s : NodeId) :
    inOrder rec [s] = rec s :=
  funext fun σ => (rec s σ).followed_done

section Bounds

variable {V M : Type} {a : Arena} {μ : Machine V M} {goes : Exit → Bool}
  {r r' : Outcome V M} {step step' : Store V M → Outcome V M} {k k' : Nat}

/-- The second outcome is the first one, if that has come to an end. -/
def Outcome.Within (r r' : Outcome V M) : Prop := r.exit ≠ .running → r' = r

/-- The second step does what the first one does wherever that comes to an end. -/
def Extends (step step' : Store V M → Outcome V M) : Prop := ∀ σ, (step σ).Within (step' σ)

theorem Outcome.Within.followed (h : r.Within r') (hgoes : goes .running = false)
    (hn : Extends step step') : (r.followed goes step).Within (r'.followed goes step') := by
  intro hend
  by_cases hr : r.exit = .running
  · rw [Outcome.followed, hr, hgoes] at hend
    exact absurd hr hend
  · rw [h hr]
    unfold Outcome.followed at hend ⊢
    split
    · next hg =>
      rw [if_pos hg] at hend
      rw [hn _ hend]
    · rfl

theorem Extends.followed {first first' : Store V M → Outcome V M} (h : Extends first first')
    (hgoes : goes .running = false) (hn : Extends step step') :
    Extends (fun σ => (first σ).followed goes step) fun σ => (first' σ).followed goes step' :=
  fun σ => (h σ).followed hgoes hn

theorem Extends.iterate (h : Extends step step') (hgoes : goes .running = false) (hk : k ≤ k') :
    Extends (Execution.iterate goes step k) (Execution.iterate goes step' k') := by
  induction k generalizing k' with
  | zero => exact fun _ hend => absurd rfl hend
  | succ k ih =>
    obtain ⟨k', rfl⟩ := Nat.exists_eq_succ_of_ne_zero (Nat.ne_of_gt (Nat.zero_lt_of_lt hk))
    exact fun σ => (h σ).followed hgoes (ih (Nat.le_of_succ_le_succ hk))

theorem Extends.inScope (h : Extends step step') :
    Extends (Execution.inScope step) (Execution.inScope step') :=
  fun σ hend => congrArg Outcome.outOfScope (h { σ with scopes := [] :: σ.scopes } hend)

theorem Extends.turns (h : Extends step step') (hk : k ≤ k') :
    Extends (Execution.turns k step) (Execution.turns k' step') := by
  intro σ hend
  refine congrArg Outcome.left (h.iterate rfl hk σ fun hr => hend ?_)
  simp [Execution.turns, Outcome.left, hr]

theorem Extends.turn {body body' : Store V M → Outcome V M} (hb : Extends body body')
    (h : Extends step step') (hk : k ≤ k') :
    Extends (Execution.turn k body step) (Execution.turn k' body' step') :=
  fun σ => (hb σ).followed rfl (h.iterate rfl hk)

variable {rec rec' : NodeId → Store V M → Outcome V M}

theorem Extends.inOrder (h : ∀ s, Extends (rec s) (rec' s)) (ss : List NodeId) :
    Extends (Execution.inOrder rec ss) (Execution.inOrder rec' ss) := by
  induction ss with
  | nil => exact fun _ _ => rfl
  | cons s ss ih => exact fun σ => (h s σ).followed rfl ih

theorem Extends.initialized (h : ∀ s, Extends (rec s) (rec' s)) (init : NodeId)
    (hn : Extends step step') :
    Extends (Execution.initialized rec init step) (Execution.initialized rec' init step') := by
  unfold Execution.initialized
  split
  · exact hn
  · exact .inScope (.followed (h init) rfl hn)

theorem Extends.headed (h : ∀ s, Extends (rec s) (rec' s)) (hk : k ≤ k') (c t b : NodeId) :
    Extends (Execution.headed a μ k rec c t b) (Execution.headed a μ k' rec' c t b) := by
  refine .turns (.turn (fun σ => ?_) (.inScope (h t)) hk) hk
  exact Outcome.Within.followed (fun _ => rfl) rfl (h b)

theorem Extends.statement (h : ∀ s, Extends (rec s) (rec' s)) (hk : k ≤ k') (i : NodeId)
    (x : StmtShape NodeId) :
    Extends (Execution.statement a μ k rec i x) (Execution.statement a μ k' rec' i x) := by
  cases x with
  | block ss => exact .inScope (.inOrder h ss)
  | ifElse c t e => exact fun σ hend => congrArg (Outcome.after _) (h _ σ hend)
  | forLoop init c t b => exact .initialized h init (.headed h hk c t b)
  | whileLoop c b => exact .headed h hk c 0 b
  | loop b t => exact .turns (.inScope (.turn (.inOrder h _) (h t) hk)) hk
  | _ => exact fun _ _ => rfl

/-- An execution that ends within a bound is the same for all greater ones. -/
theorem execute_mono (hk : k ≤ k') (i : NodeId) : Extends (execute a μ k i) (execute a μ k' i) := by
  refine Arena.recurse_rel (fun _ _ => rfl) (fun rec rec' h i s => ?_) i
  cases s with
  | stmt x => exact .statement h hk i x
  | _ => exact fun _ _ => rfl

end Bounds

end Execution
end ShaderLoom
