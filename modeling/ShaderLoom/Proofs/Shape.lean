import ShaderLoom.Proofs.Runs
import ShaderLoom.Syntax.Traverse

/-! Shapes that differ in their names and children only. Going through a shape with effects yields
such a shape, and what the effects keep for names, children and lists they keep for the whole. -/
namespace ShaderLoom.Shape

variable {ν μ α β : Type}

/-- The second shape is the first one with other names, children and lists of children, related to
the old ones by `N`, `C` and `L`. -/
inductive Rel (N : ν → μ → Prop) (C : α → β → Prop) (L : List α → List β → Prop) :
    Shape ν α → Shape μ β → Prop
  | bool : Rel N C L (type .bool) (type .bool)
  | i32 : Rel N C L (type .i32) (type .i32)
  | u32 : Rel N C L (type .u32) (type .u32)
  | f32 : Rel N C L (type .f32) (type .f32)
  | vector {e e' w} : C e e' → Rel N C L (type (.vector e w)) (type (.vector e' w))
  | matrix {e e' c r} : C e e' → Rel N C L (type (.matrix e c r)) (type (.matrix e' c r))
  | array {e e' n} : C e e' → Rel N C L (type (.array e n)) (type (.array e' n))
  | sampledTexture {d e e'} : C e e' →
    Rel N C L (type (.sampledTexture d e)) (type (.sampledTexture d e'))
  | sampler {c} : Rel N C L (type (.sampler c)) (type (.sampler c))
  | externalTexture : Rel N C L (type .externalTexture) (type .externalTexture)
  | named {s s'} : N s s' → Rel N C L (type (.named s)) (type (.named s'))
  | ident {s s'} : N s s' → Rel N C L (expr (.ident s)) (expr (.ident s'))
  | int {v s} : Rel N C L (expr (.int v s)) (expr (.int v s))
  | float {v} : Rel N C L (expr (.float v)) (expr (.float v))
  | boolean {v} : Rel N C L (expr (.bool v)) (expr (.bool v))
  | binary {op l l' r r'} : C l l' → C r r' →
    Rel N C L (expr (.binary op l r)) (expr (.binary op l' r'))
  | unary {op e e'} : C e e' → Rel N C L (expr (.unary op e)) (expr (.unary op e'))
  | call {t t' as as'} : C t t' → L as as' → Rel N C L (expr (.call t as)) (expr (.call t' as'))
  | index {o o' i i'} : C o o' → C i i' → Rel N C L (expr (.index o i)) (expr (.index o' i'))
  | member {o o' s s'} : C o o' → N s s' → Rel N C L (expr (.member o s)) (expr (.member o' s'))
  | block {ss ss'} : L ss ss' → Rel N C L (stmt (.block ss)) (stmt (.block ss'))
  | varDecl {v v'} : C v v' → Rel N C L (stmt (.varDecl v)) (stmt (.varDecl v'))
  | assign {l l' r r'} : C l l' → C r r' → Rel N C L (stmt (.assign l r)) (stmt (.assign l' r'))
  | increment {l l' d} : C l l' → Rel N C L (stmt (.increment l d)) (stmt (.increment l' d))
  | callStatement {c c'} : C c c' → Rel N C L (stmt (.callStatement c)) (stmt (.callStatement c'))
  | ifElse {c c' b b' e e'} : C c c' → C b b' → C e e' →
    Rel N C L (stmt (.ifElse c b e)) (stmt (.ifElse c' b' e'))
  | forLoop {i i' c c' t t' b b'} : C i i' → C c c' → C t t' → C b b' →
    Rel N C L (stmt (.forLoop i c t b)) (stmt (.forLoop i' c' t' b'))
  | whileLoop {c c' b b'} : C c c' → C b b' →
    Rel N C L (stmt (.whileLoop c b)) (stmt (.whileLoop c' b'))
  | loop {b b' t t'} : C b b' → C t t' → Rel N C L (stmt (.loop b t)) (stmt (.loop b' t'))
  | breakLoop : Rel N C L (stmt .breakLoop) (stmt .breakLoop)
  | continueLoop : Rel N C L (stmt .continueLoop) (stmt .continueLoop)
  | discard : Rel N C L (stmt .discard) (stmt .discard)
  | ret {v v'} : C v v' → Rel N C L (stmt (.ret v)) (stmt (.ret v'))
  | value {k s s' t t' i i' as as'} : N s s' → C t t' → C i i' → L as as' →
    Rel N C L (decl (.value ⟨k, s, t, i, as⟩)) (decl (.value ⟨k, s', t', i', as'⟩))
  | function {s s' ps ps' r r' b b' as as' ras ras'} :
    N s s' → L ps ps' → C r r' → C b b' → L as as' → L ras ras' →
    Rel N C L (decl (.function ⟨s, ps, r, b, as, ras⟩))
    (decl (.function ⟨s', ps', r', b', as', ras'⟩))
  | struct {s s' ms ms' as as'} : N s s' → L ms ms' → L as as' →
    Rel N C L (decl (.struct s ms as)) (decl (.struct s' ms' as'))
  | typeAlias {s s' t t'} : N s s' → C t t' →
    Rel N C L (decl (.typeAlias s t)) (decl (.typeAlias s' t'))
  | structMember {s s' t t' as as'} : N s s' → C t t' → L as as' →
    Rel N C L (structMember s t as) (structMember s' t' as')
  | stage {s} : Rel N C L (attr (.stage s)) (attr (.stage s))
  | builtin {b} : Rel N C L (attr (.builtin b)) (attr (.builtin b))
  | location {v} : Rel N C L (attr (.location v)) (attr (.location v))
  | group {v} : Rel N C L (attr (.group v)) (attr (.group v))
  | binding {v} : Rel N C L (attr (.binding v)) (attr (.binding v))
  | id {v} : Rel N C L (attr (.id v)) (attr (.id v))
  | workgroup {x x' y y' z z'} : C x x' → C y y' → C z z' →
    Rel N C L (attr (.workgroup x y z)) (attr (.workgroup x' y' z'))
  | module {gs gs'} : L gs gs' → Rel N C L (module gs) (module gs')

theorem Rel.mono {N N' : ν → μ → Prop} {C C' : α → β → Prop} {L L' : List α → List β → Prop}
    {s : Shape ν α} {t : Shape μ β} (h : Rel N C L s t) (hN : ∀ x y, N x y → N' x y)
    (hC : ∀ x y, C x y → C' x y) (hL : ∀ xs ys, L xs ys → L' xs ys) : Rel N' C' L' s t := by
  cases h <;> constructor <;> first | apply hN | apply hC | apply hL
  all_goals assumption

/-- The names in a shape. -/
def names : Shape ν α → List ν
  | type (.named s) => [s]
  | expr (.ident s) => [s]
  | expr (.member _ s) => [s]
  | decl (.value v) => [v.name]
  | decl (.function f) => [f.name]
  | decl (.struct s _ _) => [s]
  | decl (.typeAlias s _) => [s]
  | structMember s _ _ => [s]
  | _ => []

section Rel

variable {N : ν → μ → Prop} {C : α → β → Prop} {L : List α → List β → Prop} {s : Shape ν α}
  {t : Shape μ β}

theorem Rel.mem_names (h : Rel N C L s t) : ∀ y ∈ t.names, ∃ x ∈ s.names, N x y := by
  cases h <;> simp_all [names]

theorem Rel.mem_slots (h : Rel N C L s t) (hL : ∀ xs ys, L xs ys → ∀ y ∈ ys, ∃ x ∈ xs, C x y) :
    ∀ y ∈ t.slots, ∃ x ∈ s.slots, C x y := by
  cases h <;> simp only [slots, List.mem_append, List.mem_cons, List.not_mem_nil, or_false] <;>
    grind

theorem Rel.refl {N : ν → ν → Prop} {C : α → α → Prop} {L : List α → List α → Prop}
    (hN : ∀ x, N x x) (hC : ∀ x, C x x) (hL : ∀ xs, L xs xs) (s : Shape ν α) : Rel N C L s s := by
  rcases s with t | e | s | d | ⟨x, t, as⟩ | a | gs
  · cases t <;> constructor <;> apply_assumption
  · cases e <;> constructor <;> apply_assumption
  · cases s <;> constructor <;> apply_assumption
  · cases d <;> constructor <;> apply_assumption
  · exact .structMember (hN x) (hC t) (hL as)
  · cases a <;> constructor <;> apply_assumption
  · exact .module (hL gs)

/-- The related children are children of the shape. -/
theorem Rel.within (h : Rel N C L s t) : Rel N (fun x y => x ∈ s.slots ∧ C x y)
    (fun xs ys => (∀ x ∈ xs, x ∈ s.slots) ∧ L xs ys) s t := by
  cases h <;> constructor <;> first | assumption | refine ⟨?_, ‹_›⟩
  all_goals simp +contextual [slots]

/-- The related names are names of the shapes. -/
theorem Rel.within_names (h : Rel N C L s t) :
    Rel (fun x y => x ∈ s.names ∧ y ∈ t.names ∧ N x y) C L s t := by
  cases h <;> constructor <;> first | assumption | simpa [names]

theorem Rel.flip (h : Rel N C L s t) :
    Rel (fun y x => N x y) (fun y x => C x y) (fun ys xs => L xs ys) t s := by
  cases h <;> constructor <;> assumption

/-- Two changes in a row are one. -/
theorem Rel.comp {ν' α' : Type} {N' : μ → ν' → Prop} {C' : β → α' → Prop}
    {L' : List β → List α' → Prop} {u : Shape ν' α'} (h : Rel N C L s t) (h' : Rel N' C' L' t u) :
    Rel (fun x z => ∃ y, N x y ∧ N' y z) (fun x z => ∃ y, C x y ∧ C' y z)
      (fun xs zs => ∃ ys, L xs ys ∧ L' ys zs) s u := by
  cases h <;> cases h' <;> constructor <;> exact ⟨_, ‹_›, ‹_›⟩

end Rel

/-- What copying the parts of a shape keeps. A state `w` satisfies `inv` with the children that are
free to be put into a new shape, each as often as it is listed; a child `c` of the old shape brings
`res c`. -/
structure Copying (W ν μ α β : Type) [DecidableEq β] where
  inv : W → List β → Prop
  le : W → W → Prop
  name : W → ν → μ → Prop
  child : W → α → β → Prop
  list : W → List α → List β → Prop
  res : α → List β
  le_refl : ∀ w, le w w
  le_trans : ∀ {u v w}, le u v → le v w → le u w
  weaken : ∀ {w l l'}, inv w l → (∀ x, l'.count x ≤ l.count x) → inv w l'
  name_mono : ∀ {v w s t}, le v w → name v s t → name w s t
  child_mono : ∀ {v w c d}, le v w → child v c d → child w c d
  list_mono : ∀ {v w xs ys}, le v w → list v xs ys → list w xs ys

namespace Copying

variable {ε σ γ δ δ' : Type} [DecidableEq β] (K : Copying (σ × γ) ν μ α β) {E : ε → Prop}

/-- Shapes whose parts are related in a state. -/
def Shapes (w : σ × γ) : Shape ν α → Shape μ β → Prop := Rel (K.name w) (K.child w) (K.list w)

variable {K} in
theorem Shapes.mono {v w : σ × γ} (h : K.le v w) {s : Shape ν α} {t : Shape μ β}
    (hs : K.Shapes v s t) :
    K.Shapes w s t :=
  Rel.mono hs (fun _ _ => K.name_mono h) (fun _ _ => K.child_mono h) (fun _ _ => K.list_mono h)

/-- A step turns something with the resources `uses` into something that is related to it and may be
put into a shape as `gives` says. -/
def Turns (E : ε → Prop) (step : EStateM ε σ δ) (uses : List β) (gives : δ → List β)
    (R : σ × γ → δ → Prop) : Prop :=
  ∀ w F, K.inv w (uses ++ F) →
    Runs step w E fun b w' => K.inv w' (gives b ++ F) ∧ K.le w w' ∧ R w' b

theorem Turns.bind {step : EStateM ε σ δ} {next : δ → EStateM ε σ δ'} {uses : List β}
    {gives : δ → List β} {R : σ × γ → δ → Prop} (h : K.Turns E step uses gives R) {w : σ × γ}
    {Q : δ' → σ × γ → Prop} {l : List β} (F : List β) (hw : K.inv w l)
    (hl : ∀ x, (uses ++ F).count x ≤ l.count x)
    (hnext : ∀ b w', K.inv w' (gives b ++ F) → K.le w w' → R w' b → Runs (next b) w' E Q) :
    Runs (step >>= next) w E Q :=
  Runs.bind ((h w F (K.weaken hw hl)).mono fun b w' ⟨hi, hle, hr⟩ => hnext b w' hi hle hr)

section Traverse

variable {K} {name : ν → EStateM ε σ μ} {child : α → EStateM ε σ β}
  {list : ListKind → List α → EStateM ε σ (List β)}

/-- One child and nothing else. -/
theorem one {s : Shape ν α} {c : α}
    (h : K.Turns E (child c) (K.res c) (fun d => [d]) fun w d => K.child w c d) (f : β → Shape μ β)
    (hs : s.slots = [c]) (hf : ∀ d, (f d).slots = [d])
    (hr : ∀ w d, K.child w c d → K.Shapes w s (f d)) :
    K.Turns E (do return f (← child c)) (s.slots.flatMap K.res) slots fun w t =>
      K.Shapes w s t := by
  intro w F hw
  refine h.bind K F hw (by simp [hs]) fun d w' hi hle hd => ?_
  exact Runs.pure w'.2 ⟨by rwa [hf], hle, hr w' d hd⟩

/-- Two children, one after the other. -/
theorem two {s : Shape ν α} {a b : α}
    (ha : K.Turns E (child a) (K.res a) (fun d => [d]) fun w d => K.child w a d)
    (hb : K.Turns E (child b) (K.res b) (fun d => [d]) fun w d => K.child w b d)
    (f : β → β → Shape μ β) (hs : s.slots = [a, b]) (hf : ∀ c d, (f c d).slots = [c, d])
    (hr : ∀ w c d, K.child w a c → K.child w b d → K.Shapes w s (f c d)) :
    K.Turns E (do
      let c ← child a
      let d ← child b
      return f c d) (s.slots.flatMap K.res) slots fun w t => K.Shapes w s t := by
  intro w F hw
  refine ha.bind K (K.res b ++ F) hw (by simp [hs]) fun c w₁ h₁ hle₁ hc => ?_
  refine hb.bind K (c :: F) h₁ (by simp only [List.count_append, List.count_cons]; omega)
    fun d w₂ h₂ hle₂ hd => ?_
  refine Runs.pure w₂.2 ⟨K.weaken h₂ ?_, K.le_trans hle₁ hle₂, hr w₂ c d (K.child_mono hle₂ hc) hd⟩
  intro x
  simp only [hf, List.count_append, List.count_cons, List.count_nil]
  omega

/-- Three children. -/
theorem three {s : Shape ν α} {a b c : α}
    (ha : K.Turns E (child a) (K.res a) (fun d => [d]) fun w d => K.child w a d)
    (hb : K.Turns E (child b) (K.res b) (fun d => [d]) fun w d => K.child w b d)
    (hc : K.Turns E (child c) (K.res c) (fun d => [d]) fun w d => K.child w c d)
    (f : β → β → β → Shape μ β) (hs : s.slots = [a, b, c])
    (hf : ∀ x y z, (f x y z).slots = [x, y, z])
    (hr : ∀ w x y z, K.child w a x → K.child w b y → K.child w c z → K.Shapes w s (f x y z)) :
    K.Turns E (do
      let x ← child a
      let y ← child b
      let z ← child c
      return f x y z) (s.slots.flatMap K.res) slots fun w t => K.Shapes w s t := by
  intro w F hw
  refine ha.bind K (K.res b ++ K.res c ++ F) hw (by simp [hs]) fun x w₁ h₁ hle₁ hx => ?_
  refine hb.bind K (K.res c ++ x :: F) h₁ (by simp only [List.count_append, List.count_cons]; omega)
    fun y w₂ h₂ hle₂ hy => ?_
  refine hc.bind K (y :: x :: F) h₂ (by simp only [List.count_append, List.count_cons]; omega)
    fun z w₃ h₃ hle₃ hz => ?_
  have hle := K.le_trans hle₂ hle₃
  refine Runs.pure w₃.2 ⟨K.weaken h₃ ?_, K.le_trans hle₁ hle, ?_⟩
  · intro x
    simp only [hf, List.count_append, List.count_cons, List.count_nil]
    omega
  · exact hr w₃ x y z (K.child_mono hle hx) (K.child_mono hle₃ hy) hz

/-- A name and nothing else. -/
theorem onlyName {s : Shape ν α} {x : ν}
    (h : K.Turns E (name x) [] (fun _ => []) fun w y => K.name w x y) (f : μ → Shape μ β)
    (hs : s.slots = []) (hf : ∀ y, (f y).slots = [])
    (hr : ∀ w y, K.name w x y → K.Shapes w s (f y)) :
    K.Turns E (do return f (← name x)) (s.slots.flatMap K.res) slots fun w t => K.Shapes w s t := by
  intro w F hw
  refine h.bind K F hw (by simp [hs]) fun y w' hi hle hy => ?_
  exact Runs.pure w'.2 ⟨by simpa [hf] using hi, hle, hr w' y hy⟩

/-- A list and nothing else. -/
theorem onlyList {s : Shape ν α} {k : ListKind} {xs : List α}
    (h : K.Turns E (list k xs) (xs.flatMap K.res) id fun w ys => K.list w xs ys)
    (f : List β → Shape μ β) (hs : s.slots = xs) (hf : ∀ ys, (f ys).slots = ys)
    (hr : ∀ w ys, K.list w xs ys → K.Shapes w s (f ys)) :
    K.Turns E (do return f (← list k xs)) (s.slots.flatMap K.res) slots fun w t =>
      K.Shapes w s t := by
  intro w F hw
  refine h.bind K F hw (by simp [hs]) fun ys w' hi hle hy => ?_
  exact Runs.pure w'.2 ⟨by simpa [hf] using hi, hle, hr w' ys hy⟩

/-- Going through a shape yields a related one, made of what became of its children. -/
theorem traverse {s : Shape ν α}
    (hname : ∀ x ∈ s.names, K.Turns E (name x) [] (fun _ => []) fun w y => K.name w x y)
    (hchild : ∀ c ∈ s.slots, K.Turns E (child c) (K.res c) (fun d => [d]) fun w d => K.child w c d)
    (hlist : ∀ k, ∀ xs ∈ s.lists, K.Turns E (list k xs) (xs.flatMap K.res) id fun w ys =>
      K.list w xs ys) :
    K.Turns E (s.traverse name child list) (s.slots.flatMap K.res) Shape.slots
      fun w t => K.Shapes w s t := by
  cases s with
  | type t =>
    cases t with
    | bool | i32 | u32 | f32 | sampler _ | externalTexture =>
      exact fun w F hw => Runs.pure w.2 ⟨hw, K.le_refl w, by constructor⟩
    | vector e n =>
      exact one (hchild e (by simp [slots])) _ rfl (fun _ => rfl) fun _ _ => .vector
    | matrix e c r =>
      exact one (hchild e (by simp [slots])) _ rfl (fun _ => rfl) fun _ _ => .matrix
    | array e n => exact one (hchild e (by simp [slots])) _ rfl (fun _ => rfl) fun _ _ => .array
    | sampledTexture d e =>
      exact one (hchild e (by simp [slots])) _ rfl (fun _ => rfl) fun _ _ => .sampledTexture
    | named x => exact onlyName (hname x (by simp [names])) _ rfl (fun _ => rfl) fun _ _ => .named
  | expr e =>
    cases e with
    | int _ _ | float _ | bool _ =>
      exact fun w F hw => Runs.pure w.2 ⟨hw, K.le_refl w, by constructor⟩
    | ident x => exact onlyName (hname x (by simp [names])) _ rfl (fun _ => rfl) fun _ _ => .ident
    | binary op l r =>
      exact two (hchild l (by simp [slots])) (hchild r (by simp [slots])) _ rfl (fun _ _ => rfl)
        fun _ _ _ => .binary
    | unary op e => exact one (hchild e (by simp [slots])) _ rfl (fun _ => rfl) fun _ _ => .unary
    | call t args =>
      intro w F hw
      refine (hchild t (by simp [slots])).bind K (args.flatMap K.res ++ F) hw (by simp [slots])
        fun t' w₁ h₁ hle₁ ht => ?_
      refine (hlist .args args (by simp [lists])).bind K (t' :: F) h₁
        (by simp only [List.count_append, List.count_cons]; omega) fun as w₂ h₂ hle₂ has => ?_
      refine Runs.pure w₂.2 ⟨K.weaken h₂ ?_, K.le_trans hle₁ hle₂, .call (K.child_mono hle₂ ht) has⟩
      intro x
      simp only [slots, id, List.count_append, List.count_cons]
      omega
    | index o i =>
      exact two (hchild o (by simp [slots])) (hchild i (by simp [slots])) _ rfl (fun _ _ => rfl)
        fun _ _ _ => .index
    | member o x =>
      intro w F hw
      refine (hchild o (by simp [slots])).bind K F hw (by simp [slots]) fun o' w₁ h₁ hle₁ ho => ?_
      refine (hname x (by simp [names])).bind K (o' :: F) h₁ (by simp) fun y w₂ h₂ hle₂ hy => ?_
      exact Runs.pure w₂.2 ⟨h₂, K.le_trans hle₁ hle₂, .member (K.child_mono hle₂ ho) hy⟩
  | stmt s =>
    cases s with
    | breakLoop | continueLoop | discard =>
      exact fun w F hw => Runs.pure w.2 ⟨hw, K.le_refl w, by constructor⟩
    | block ss =>
      exact onlyList (hlist .statements ss (by simp [lists])) _ rfl (fun _ => rfl) fun _ _ => .block
    | varDecl v => exact one (hchild v (by simp [slots])) _ rfl (fun _ => rfl) fun _ _ => .varDecl
    | assign l r =>
      exact two (hchild l (by simp [slots])) (hchild r (by simp [slots])) _ rfl (fun _ _ => rfl)
        fun _ _ _ => .assign
    | increment l d =>
      exact one (hchild l (by simp [slots])) _ rfl (fun _ => rfl) fun _ _ => .increment
    | callStatement c =>
      exact one (hchild c (by simp [slots])) _ rfl (fun _ => rfl) fun _ _ => .callStatement
    | ifElse c b e =>
      exact three (hchild c (by simp [slots])) (hchild b (by simp [slots]))
        (hchild e (by simp [slots]))
        _ rfl (fun _ _ _ => rfl) fun _ _ _ _ => .ifElse
    | forLoop i c t b =>
      intro w F hw
      refine (hchild i (by simp [slots])).bind K (K.res c ++ K.res t ++ K.res b ++ F) hw
        (by simp [slots]) fun i' w₁ h₁ hle₁ hi => ?_
      refine (hchild c (by simp [slots])).bind K (K.res t ++ K.res b ++ i' :: F) h₁
        (by simp only [List.count_append, List.count_cons]; omega) fun c' w₂ h₂ hle₂ hc => ?_
      refine (hchild t (by simp [slots])).bind K (K.res b ++ c' :: i' :: F) h₂
        (by simp only [List.count_append, List.count_cons]; omega) fun t' w₃ h₃ hle₃ ht => ?_
      refine (hchild b (by simp [slots])).bind K (t' :: c' :: i' :: F) h₃
        (by simp only [List.count_append, List.count_cons]; omega) fun b' w₄ h₄ hle₄ hb => ?_
      have hle₃ := K.le_trans hle₃ hle₄
      have hle₂ := K.le_trans hle₂ hle₃
      refine Runs.pure w₄.2 ⟨K.weaken h₄ ?_, K.le_trans hle₁ hle₂,
        .forLoop (K.child_mono hle₂ hi) (K.child_mono hle₃ hc) (K.child_mono hle₄ ht) hb⟩
      intro x
      simp only [slots, List.count_append, List.count_cons, List.count_nil]
      omega
    | whileLoop c b =>
      exact two (hchild c (by simp [slots])) (hchild b (by simp [slots])) _ rfl (fun _ _ => rfl)
        fun _ _ _ => .whileLoop
    | loop b t =>
      exact two (hchild b (by simp [slots])) (hchild t (by simp [slots])) _ rfl (fun _ _ => rfl)
        fun _ _ _ => .loop
    | ret v => exact one (hchild v (by simp [slots])) _ rfl (fun _ => rfl) fun _ _ => .ret
  | decl d =>
    cases d with
    | value v =>
      intro w F hw
      refine (hname v.name (by simp [names])).bind K _ hw (fun _ => Nat.le_refl _)
        fun s' w₁ h₁ hle₁ hs => ?_
      refine (hchild v.type (by simp [slots])).bind K
        (v.attributes.flatMap K.res ++ K.res v.initializer ++ F) h₁
        (by intro x; simp [slots]; omega) fun t' w₂ h₂ hle₂ ht => ?_
      refine (hchild v.initializer (by simp [slots])).bind K (v.attributes.flatMap K.res ++ t' :: F)
        h₂
        (by simp only [List.count_append, List.count_cons]; omega) fun i' w₃ h₃ hle₃ hi => ?_
      refine (hlist .attributes v.attributes (by simp [lists])).bind K (i' :: t' :: F) h₃
        (by simp only [List.count_append, List.count_cons]; omega) fun as w₄ h₄ hle₄ has => ?_
      have hle₃ := K.le_trans hle₃ hle₄
      have hle₂ := K.le_trans hle₂ hle₃
      refine Runs.pure w₄.2 ⟨K.weaken h₄ ?_, K.le_trans hle₁ hle₂,
        .value (K.name_mono hle₂ hs) (K.child_mono hle₃ ht) (K.child_mono hle₄ hi) has⟩
      intro x
      simp only [slots, id, List.count_append, List.count_cons, List.count_nil]
      omega
    | function f =>
      intro w F hw
      refine (hname f.name (by simp [names])).bind K _ hw (fun _ => Nat.le_refl _)
        fun s' w₁ h₁ hle₁ hs => ?_
      refine (hlist .params f.params (by simp [lists])).bind K
        (f.attributes.flatMap K.res ++ f.returnAttributes.flatMap K.res ++ K.res f.returnType ++
          K.res f.body ++ F) h₁
        (by intro x; simp [slots]; omega) fun ps w₂ h₂ hle₂ hps => ?_
      refine (hchild f.returnType (by simp [slots])).bind K
        (f.attributes.flatMap K.res ++ f.returnAttributes.flatMap K.res ++ K.res f.body ++ ps ++ F)
        h₂
        (by simp only [id, List.count_append]; omega) fun r' w₃ h₃ hle₃ hr => ?_
      refine (hchild f.body (by simp [slots])).bind K
        (f.attributes.flatMap K.res ++ f.returnAttributes.flatMap K.res ++ ps ++ r' :: F) h₃
        (by simp only [List.count_append, List.count_cons]; omega) fun b' w₄ h₄ hle₄ hb => ?_
      refine (hlist .attributes f.attributes (by simp [lists])).bind K
        (f.returnAttributes.flatMap K.res ++ ps ++ r' :: b' :: F) h₄
        (by simp only [List.count_append, List.count_cons]; omega) fun as w₅ h₅ hle₅ has => ?_
      refine (hlist .returnAttributes f.returnAttributes (by simp [lists])).bind K
        (as ++ ps ++ r' :: b' :: F) h₅
        (by simp only [id, List.count_append, List.count_cons]; omega) fun ras w₆ h₆ hle₆ hras => ?_
      have hle₅ := K.le_trans hle₅ hle₆
      have hle₄ := K.le_trans hle₄ hle₅
      have hle₃ := K.le_trans hle₃ hle₄
      have hle₂ := K.le_trans hle₂ hle₃
      refine Runs.pure w₆.2 ⟨K.weaken h₆ ?_, K.le_trans hle₁ hle₂,
        .function (K.name_mono hle₂ hs) (K.list_mono hle₃ hps) (K.child_mono hle₄ hr)
          (K.child_mono hle₅ hb) (K.list_mono hle₆ has) hras⟩
      intro x
      simp only [slots, id, List.count_append, List.count_cons, List.count_nil]
      omega
    | struct x members attributes =>
      intro w F hw
      refine (hname x (by simp [names])).bind K _ hw (fun _ => Nat.le_refl _)
        fun s' w₁ h₁ hle₁ hs => ?_
      refine (hlist .members members (by simp [lists])).bind K (attributes.flatMap K.res ++ F) h₁
        (by intro x; simp [slots]; omega) fun ms w₂ h₂ hle₂ hms => ?_
      refine (hlist .attributes attributes (by simp [lists])).bind K (ms ++ F) h₂
        (by simp only [id, List.count_append]; omega) fun as w₃ h₃ hle₃ has => ?_
      have hle₂ := K.le_trans hle₂ hle₃
      refine Runs.pure w₃.2 ⟨K.weaken h₃ ?_, K.le_trans hle₁ hle₂,
        .struct (K.name_mono hle₂ hs) (K.list_mono hle₃ hms) has⟩
      intro x
      simp only [slots, id, List.count_append]
      omega
    | typeAlias x t =>
      intro w F hw
      refine (hname x (by simp [names])).bind K _ hw (fun _ => Nat.le_refl _)
        fun s' w₁ h₁ hle₁ hs => ?_
      refine (hchild t (by simp [slots])).bind K F h₁ (by simp [slots]) fun t' w₂ h₂ hle₂ ht => ?_
      exact Runs.pure w₂.2 ⟨h₂, K.le_trans hle₁ hle₂, .typeAlias (K.name_mono hle₂ hs) ht⟩
  | structMember x t attributes =>
    intro w F hw
    refine (hname x (by simp [names])).bind K _ hw (fun _ => Nat.le_refl _) fun s' w₁ h₁ hle₁ hs =>
      ?_
    refine (hchild t (by simp [slots])).bind K (attributes.flatMap K.res ++ F) h₁
      (by intro x; simp [slots]; omega) fun t' w₂ h₂ hle₂ ht => ?_
    refine (hlist .attributes attributes (by simp [lists])).bind K (t' :: F) h₂
      (by simp only [List.count_append, List.count_cons]; omega) fun as w₃ h₃ hle₃ has => ?_
    have hle₂ := K.le_trans hle₂ hle₃
    refine Runs.pure w₃.2 ⟨K.weaken h₃ ?_, K.le_trans hle₁ hle₂,
      .structMember (K.name_mono hle₂ hs) (K.child_mono hle₃ ht) has⟩
    intro x
    simp only [slots, id, List.count_append, List.count_cons, List.count_nil]
    omega
  | attr a =>
    cases a with
    | stage _ | builtin _ | location _ | group _ | binding _ | id _ =>
      exact fun w F hw => Runs.pure w.2 ⟨hw, K.le_refl w, by constructor⟩
    | workgroup x y z =>
      exact three (hchild x (by simp [slots])) (hchild y (by simp [slots]))
        (hchild z (by simp [slots]))
        _ rfl (fun _ _ _ => rfl) fun _ _ _ _ => .workgroup
  | module gs =>
    exact onlyList (hlist .globals gs (by simp [lists])) _ rfl (fun _ => rfl) fun _ _ => .module

end Traverse

end Copying
end ShaderLoom.Shape
