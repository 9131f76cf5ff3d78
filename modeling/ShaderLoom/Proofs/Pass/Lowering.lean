import ShaderLoom.Pass.Promote
import ShaderLoom.Proofs.Copy.Engine

/-! What becomes of loops and conditionals with declarations in their headers. The forms that they
take are described apart from the steps that make them; the steps make them under any account of a
copy in which the record of what waits does not change. -/
namespace ShaderLoom

open Copy Builder.Mode

namespace Hoist

/-- A list searched by keys, after the element with a key was changed, or was added to a list that
had none. -/
theorem find?_changed {α : Type} {key : α → NodeId} (blank : NodeId → α) {f : α → α}
    (hb : ∀ k, key (blank k) = k) (hf : ∀ x, key (f x) = key x) (xs : List α) (id k : NodeId) :
    ((if xs.any (key · == id) then xs.map fun x => if key x == id then f x else x
      else xs ++ [f (blank id)]).find? (key · == k)).getD (blank k) =
      if k = id then f ((xs.find? (key · == id)).getD (blank id))
      else (xs.find? (key · == k)).getD (blank k) := by
  by_cases hany : xs.any (key · == id)
  · -- Elements keep their keys, so that the search stops where it stopped before.
    have hmap : (xs.map fun x => if key x == id then f x else x).find? (key · == k) =
        (xs.find? (key · == k)).map fun x => if key x == id then f x else x := by
      rw [List.find?_map]
      congr 2
      funext x
      simp only [Function.comp]
      split <;> simp [hf]
    rw [if_pos hany, hmap]
    by_cases hk : k = id
    · subst hk
      obtain ⟨x, hx, hid⟩ := List.any_eq_true.1 hany
      cases hfind : xs.find? (key · == k) with
      | none => exact absurd hid (List.find?_eq_none.1 hfind x hx)
      | some y =>
        have hy : (key y == k) = true := List.find?_some (p := (key · == k)) hfind
        simp [beq_iff_eq.1 hy]
    · cases hfind : xs.find? (key · == k) with
      | none => simp [hk]
      | some y =>
        have hy : (key y == k) = true := List.find?_some (p := (key · == k)) hfind
        simp [hk, beq_iff_eq.1 hy]
  · have hnone : xs.find? (key · == id) = none :=
      List.find?_eq_none.2 fun x hx hid => hany (List.any_eq_true.2 ⟨x, hx, hid⟩)
    rw [if_neg hany, List.find?_append]
    by_cases hk : k = id
    · subst hk
      simp [hnone, hf, hb]
    · simp [hk, hf, hb, Ne.symm hk]

section Record

variable (h : Hoist) (id k : NodeId)

theorem loopOf_onLoop {f : PendingLoop → PendingLoop} (hf : ∀ l, (f l).id = l.id) :
    (h.onLoop id f).loopOf k = if k = id then f (h.loopOf id) else h.loopOf k := by
  refine .trans ?_ (find?_changed (fun k => { id := k }) (fun _ => rfl) hf h.loops id k)
  unfold loopOf onLoop
  split <;> rfl

theorem elseOf_onElse {f : PendingElse → PendingElse} (hf : ∀ e, (f e).id = e.id) :
    (h.onElse id f).elseOf k = if k = id then f (h.elseOf id) else h.elseOf k := by
  refine .trans ?_ (find?_changed (fun k => { id := k }) (fun _ => rfl) hf h.elseIfs id k)
  unfold elseOf onElse
  split <;> rfl

@[simp] theorem elseOf_onLoop (f : PendingLoop → PendingLoop) :
    (h.onLoop id f).elseOf k = h.elseOf k := by
  unfold onLoop
  split <;> rfl

@[simp] theorem loopOf_onElse (f : PendingElse → PendingElse) :
    (h.onElse id f).loopOf k = h.loopOf k := by
  unfold onElse
  split <;> rfl

/-- The declarations that wait for a node. -/
def waiting : List NodeId :=
  (h.loopOf k).condition ++ (h.loopOf k).continuing ++ (h.elseOf k).condition

end Record

section Parts

variable {κ σ : Type} [Hoisting κ σ]

/-- The test of a loop, which may have none. -/
def testing (copy : NodeId → Edit κ σ NodeId) (cond : NodeId) : Edit κ σ (List NodeId) :=
  if cond = 0 then pure [] else do pure [← breakUnless copy cond]

/-- The continuing part of a loop, which may have none. -/
def continued (copy : NodeId → Edit κ σ NodeId) (id continuing : NodeId) : Edit κ σ NodeId :=
  if continuing = 0 then pure 0 else do
    let before := ((← record).loopOf id).continuing
    let last ← copy continuing
    Edit.build (Build.block (before ++ [last]))

/-- The parts of a loop with a header; those that it may lack may be absent. -/
structure Header where
  init : NodeId := 0
  condition : NodeId
  continuing : NodeId := 0
  body : NodeId

def header? : StmtShape NodeId → Option Header
  | .forLoop init condition continuing body => some { init, condition, continuing, body }
  | .whileLoop condition body => some { condition, body }
  | _ => none

/-- What becomes of a loop with a header, part by part. -/
theorem act_lowerLoop (copy : NodeId → Edit κ σ NodeId) {s : Session κ σ} {id : NodeId}
    {x : StmtShape NodeId} {h : Header} (hs : s.source.shape? id = some (.stmt x))
    (hx : header? x = some h) (hcond : ∀ c b, x = .whileLoop c b → c ≠ 0) :
    act copy (.lowerLoop id) s = (do
      let pending := (← record).loopOf id
      let test ← testing copy h.condition
      let inner ← copy h.body
      let cont ← continued copy id h.continuing
      let loop ← Edit.build do
        let b ← Build.block (pending.condition ++ test ++ [inner])
        Build.stmt (.loop b cont)
      if h.init = 0 then return loop
      let first ← copy h.init
      Edit.build (Build.block [first, loop]) : Edit κ σ NodeId) s := by
  have hget : ∀ next : Session κ σ → Edit κ σ NodeId, (get >>= next) s = next s s := fun _ => rfl
  unfold act testing continued
  rw [hget]
  cases x with
  | forLoop init cond continuing body =>
    cases hx
    by_cases hc : cond = 0 <;> by_cases ht : continuing = 0 <;>
      simp only [hs, hc, ht, if_true, if_false, bind_assoc, pure_bind]
  | whileLoop cond body =>
    cases hx
    simp only [hs, hcond cond body rfl, if_true, if_false, bind_assoc, pure_bind, List.append_assoc,
      List.cons_append, List.nil_append, bind_pure]
  | _ => cases hx

end Parts

section Forms

variable (b : Arena) (out : NodeId → NodeId → Prop)

/-- The tests of a loop. One for a condition leaves the loop unless that holds. -/
inductive Tests (condition : NodeId) : List NodeId → Prop
  | none : condition = 0 → Tests condition []
  | test {c negated leave body test} : condition ≠ 0 → out condition c →
    b.shape? negated = some (.expr (.unary .not c)) → b.shape? leave = some (.stmt .breakLoop) →
    b.shape? body = some (.stmt (.block [leave])) →
    b.shape? test = some (.stmt (.ifElse negated body 0)) →
    Tests condition [test]

/-- The continuing part of a loop: a block of what waits and what was the continuing part. -/
inductive Continued (waiting : List NodeId) (continuing : NodeId) : NodeId → Prop
  | none : continuing = 0 → Continued waiting continuing 0
  | block {last k} : continuing ≠ 0 → out continuing last →
    b.shape? k = some (.stmt (.block (waiting ++ [last]))) →
    Continued waiting continuing k

/-- A loop without a header: first what waits for the condition, then the test, then the body. -/
inductive Looped (l : PendingLoop) (h : Header) : NodeId → Prop
  | loop {tests inner whole k j} : Tests b out h.condition tests → out h.body inner →
    b.shape? whole = some (.stmt (.block (l.condition ++ tests ++ [inner]))) →
    Continued b out l.continuing h.continuing k →
    b.shape? j = some (.stmt (.loop whole k)) → Looped l h j

/-- The initializer of a header stands before the loop, in a block with it. -/
inductive LoweredLoop (l : PendingLoop) (h : Header) : NodeId → Prop
  | bare {j} : h.init = 0 → Looped b out l h j → LoweredLoop l h j
  | after {first loop j} : h.init ≠ 0 → out h.init first → Looped b out l h loop →
    b.shape? j = some (.stmt (.block [first, loop])) → LoweredLoop l h j

/-- A conditional in a block of its own, after what waits for it. -/
inductive LoweredElse (waiting : List NodeId) (condition body otherwise : NodeId) : NodeId → Prop
  | block {c d e inner j} : out condition c → out body d → out otherwise e →
    b.shape? inner = some (.stmt (.ifElse c d e)) →
    b.shape? j = some (.stmt (.block (waiting ++ [inner]))) →
    LoweredElse waiting condition body otherwise j

variable {b out} {b' : Arena} {out' : NodeId → NodeId → Prop}

section Mono

variable (hb : ∀ {k s}, b.shape? k = some s → b'.shape? k = some s) (ho : ∀ c d, out c d → out' c d)
include hb ho

theorem Tests.mono {c : NodeId} {ts : List NodeId} (h : Tests b out c ts) : Tests b' out' c ts := by
  cases h with
  | none h0 => exact .none h0
  | test h0 hc hn hl hd ht => exact .test h0 (ho _ _ hc) (hb hn) (hb hl) (hb hd) (hb ht)

theorem Continued.mono {ws : List NodeId} {c k : NodeId} (h : Continued b out ws c k) :
    Continued b' out' ws c k := by
  cases h with
  | none h0 => exact .none h0
  | block h0 hc hk => exact .block h0 (ho _ _ hc) (hb hk)

theorem Looped.mono {l : PendingLoop} {h : Header} {j : NodeId} (hl : Looped b out l h j) :
    Looped b' out' l h j := by
  cases hl with
  | loop ht hi hw hk hj => exact .loop (ht.mono hb ho) (ho _ _ hi) (hb hw) (hk.mono hb ho) (hb hj)

theorem LoweredLoop.mono {l : PendingLoop} {h : Header} {j : NodeId}
    (hl : LoweredLoop b out l h j) : LoweredLoop b' out' l h j := by
  cases hl with
  | bare h0 hl => exact .bare h0 (hl.mono hb ho)
  | after h0 hi hl hj => exact .after h0 (ho _ _ hi) (hl.mono hb ho) (hb hj)

theorem LoweredElse.mono {ws : List NodeId} {c d e j : NodeId} (h : LoweredElse b out ws c d e j) :
    LoweredElse b' out' ws c d e j := by
  cases h with
  | block hc hd he hi hj => exact .block (ho _ _ hc) (ho _ _ hd) (ho _ _ he) (hb hi) (hb hj)

end Mono

end Forms

section Steps

variable {A : Account Rule Hoist} {E : Misuse → Prop} {copy : NodeId → Edit Rule Hoist NodeId}
    {n : Nat} {i : NodeId}
  {w : World Rule Hoist} {F : List NodeId}

/-- A step of the builder that adds a node. -/
theorem push_build (b : Builder) (s : Shape Symbol NodeId) :
    ∃ b', Build.push s {} b = .ok (b.size + 1) b' ∧
    b'.size = b.size + 1 ∧ ∀ k, b'.shape? k = if k = b.size + 1 then some s else b.shape? k := by
  refine ⟨(b.push s {}).2, rfl, by simp [Builder.push, Arena.size], fun k => ?_⟩
  simp only [Arena.shape?, Builder.Mode.node?_push]
  split <;> rfl

theorem bind_build {α β : Type} {step : Build α} {next : α → Build β} {b b' : Builder} {a : α}
    (h : step b = .ok a b') : (step >>= next) b = next a b' := by
  simp only [Bind.bind, EStateM.bind, h]

/-- The nodes of a test. -/
theorem breakUnless_build (t : Builder) (c : NodeId) : ∃ j t',
    (do let test ← Build.unary .not (.node c)
        let leave ← Build.stmt .breakLoop
        let body ← Build.block [leave]
        Build.stmt (.ifElse test body 0) : Build NodeId) t = .ok j t' ∧
      ∃ negated leave body, t'.shape? negated = some (.expr (.unary .not c)) ∧
        t'.shape? leave = some (.stmt .breakLoop) ∧
        t'.shape? body = some (.stmt (.block [leave])) ∧
        t'.shape? j = some (.stmt (.ifElse negated body 0)) := by
  obtain ⟨t₁, hp₁, hs₁, h₁⟩ := push_build t (.expr (.unary .not c))
  obtain ⟨t₂, hp₂, hs₂, h₂⟩ := push_build t₁ (.stmt .breakLoop)
  obtain ⟨t₃, hp₃, hs₃, h₃⟩ := push_build t₂ (.stmt (.block [t₁.size + 1]))
  obtain ⟨t₄, hp₄, _, h₄⟩ := push_build t₃ (.stmt (.ifElse (t.size + 1) (t₂.size + 1) 0))
  refine ⟨t₃.size + 1, t₄, ?_, t.size + 1, t₁.size + 1, t₂.size + 1, ?_⟩
  · exact (bind_build hp₁).trans ((bind_build hp₂).trans ((bind_build hp₃).trans hp₄))
  · simp [h₄, h₃, h₂, h₁, hs₁, hs₂, hs₃]

variable (A E) in
/-- The account is right of the copies of the parts of a node, and the record is what it was. -/
structure Copied (D : NodeId → Prop) (copy : NodeId → Edit Rule Hoist NodeId) (n : Nat) : Prop where
  stable : A.Stable
  frozen : ∀ {w l}, A.Holds w l → w.1.state = A.base.state
  part : ∀ c, D c → A.Turns E (copy c) (A.below n c) (fun j => [j]) fun w j => A.Out w c j

/-- What a part uses up that may be lacking. -/
def belowPart (A : Account Rule Hoist) (n : Nat) (c : NodeId) : List NodeId :=
  if c = 0 then [] else A.below n c

theorem count_belowPart_le (c x : NodeId) : (belowPart A n c).count x ≤ (A.around n c).count x := by
  unfold belowPart
  split
  · simp
  · simp only [Account.around, List.count_append]
    omega

/-- What the parts of a loop use up is what its slots do. -/
theorem Header.count_le {x : StmtShape NodeId} {h : Header} (hx : header? x = some h) (y : NodeId) :
    (belowPart A n h.init ++ belowPart A n h.condition ++ belowPart A n h.continuing ++
      A.below n h.body).count y ≤
      ((Shape.stmt (ν := Symbol) x).slots.flatMap (A.around n)).count y := by
  have hbody : ∀ c, (A.below n c).count y ≤ (A.around n c).count y := fun c => by
    simp only [Account.around, List.count_append]
    omega
  cases x with
  | forLoop init cond continuing body =>
    cases hx
    have := count_belowPart_le (A := A) (n := n) init y
    have := count_belowPart_le (A := A) (n := n) cond y
    have := count_belowPart_le (A := A) (n := n) continuing y
    have := hbody body
    simp only [Shape.slots, List.flatMap_cons, List.flatMap_nil, List.count_append, List.count_nil]
    omega
  | whileLoop cond body =>
    cases hx
    have := count_belowPart_le (A := A) (n := n) cond y
    have := hbody body
    simp only [belowPart, if_true, Shape.slots, List.flatMap_cons, List.flatMap_nil,
      List.count_append, List.count_nil] at *
    omega
  | _ => cases hx

/-- What holds of all children of a loop holds of its parts. -/
theorem Header.parts {x : StmtShape NodeId} {h : Header} (hx : header? x = some h)
    {P : NodeId → Prop} (hp : ∀ c ∈ (Shape.stmt (ν := Symbol) x).slots, P c) :
    (h.init ≠ 0 → P h.init) ∧ (h.condition ≠ 0 → P h.condition) ∧
      (h.continuing ≠ 0 → P h.continuing) ∧ (h.body ≠ 0 → P h.body) := by
  cases x <;> cases hx <;> simp_all [Shape.slots]

variable {D : NodeId → Prop} (hc : Copied A E D copy n)
include hc

theorem runs_record {α : Type} {l : List NodeId} {next : Hoist → Edit Rule Hoist α}
    {Q : α → World Rule Hoist → Prop} (hw : A.Holds w l) (h : Runs (next A.base.state) w E Q) :
    Runs (record >>= next) w E Q := by
  refine Runs.bind (Runs.bind (Runs.get (Runs.pure w.2 ?_)))
  change Runs (next w.1.state) w E Q
  rwa [hc.frozen hw]

theorem turns_breakUnless {c : NodeId} (hd : D c) (h0 : c ≠ 0) :
    A.Turns E (breakUnless copy c) (A.below n c) (fun j => [j])
      fun w j => j ≠ 0 ∧ Tests w.1.target.toArena (A.Out w) c [j] := by
  intro w F hw
  refine (hc.part c hd).bind F hw (fun _ => Nat.le_refl _) fun test w₁ h₁ l₁ ho => ?_
  have hyields : A.mode.Yields (do
      let test ← Build.unary .not (.node test)
      let leave ← Build.stmt .breakLoop
      let body ← Build.block [leave]
      Build.stmt (.ifElse test body 0)) [test] := by
    refine .chain (Yields.unary (e := .node test) (by decide) trivial).makes fun test => ?_
    have hleave : A.mode.Yields (Build.stmt .breakLoop) [] :=
      Yields.push' trivial (by simp [Shape.required, Shape.slots]) (by simp [Shape.slots])
        (fun _ => trivial) (by simp) fun _ => trivial
    refine .first hleave.makes fun leave => ?_
    exact .ifThen test [leave]
  refine ((Account.turns_new hc.stable hyields ?_ w₁ F h₁).and (D := E)
    (P := fun j s => ∃ negated leave body,
    s.target.shape? negated = some (.expr (.unary .not test)) ∧
    s.target.shape? leave = some (.stmt .breakLoop) ∧
    s.target.shape? body = some (.stmt (.block [leave])) ∧
    s.target.shape? j = some (.stmt (.ifElse negated body 0))) ?_).mono fun j w₂ h => ?_
  · simpa using (ho.ne_zero h₁ h0).symm
  · obtain ⟨j, t, hs, hshapes⟩ := breakUnless_build w₁.1.target test
    exact Account.runs_build hs hshapes
  · obtain ⟨⟨h₂, l₂, hj, _⟩, negated, leave, body, hn, hl, hb, ht⟩ := h
    exact ⟨h₂, l₁.trans l₂, hj, .test h0 (ho.grown hc.stable l₂.toGrown) hn hl hb ht⟩

theorem turns_testing {c : NodeId} (hd : c ≠ 0 → D c) :
    A.Turns E (testing copy c) (belowPart A n c) id
      fun w js => 0 ∉ js ∧ Tests w.1.target.toArena (A.Out w) c js := by
  unfold testing belowPart
  split
  · next h0 => exact fun w F hw => Runs.pure w.2 ⟨hw, .refl w, by simp, .none h0⟩
  · next h0 =>
    intro w F hw
    refine (turns_breakUnless hc (hd h0) h0).bind F hw (fun _ => Nat.le_refl _) fun j w₁ h₁ l₁ hj =>
      ?_
    exact Runs.pure w₁.2 ⟨h₁, l₁, by simpa using Ne.symm hj.1, hj.2⟩

theorem turns_continued (id : NodeId) {c : NodeId} (hd : c ≠ 0 → D c)
    (h0 : 0 ∉ (A.base.state.loopOf id).continuing) :
    A.Turns E (continued copy id c) ((A.base.state.loopOf id).continuing ++ belowPart A n c)
    (fun j => [j])
      fun w j => (c = 0 ↔ j = 0) ∧
        Continued w.1.target.toArena (A.Out w) (A.base.state.loopOf id).continuing c j := by
  unfold continued belowPart
  split
  · next hc0 => exact fun w F hw => Runs.pure w.2 ⟨hw.absent, .refl w, by simp [hc0], .none hc0⟩
  · next hc0 =>
    intro w F hw
    refine runs_record hc hw
      ((hc.part c (hd hc0)).bind ((A.base.state.loopOf id).continuing ++ F) hw (fun x => ?_)
      fun last w₂ h₂ l₂ ho => ?_)
    · simp only [List.count_append]
      omega
    have hnew := Account.runs_new (E := E) (F := F) hc.stable
      (Yields.block ((A.base.state.loopOf id).continuing ++ [last]) w₂.1.target) ?_
      (h₂.weaken fun x => ?_)
    · refine (hnew.and (D := E) (P := fun j s =>
        s.target.shape? j = some (.stmt (.block ((A.base.state.loopOf id).continuing ++ [last]))))
          ?_).mono fun j w₃ h => ?_
      · obtain ⟨t, ht, _, hshape⟩ :=
          push_build w₂.1.target (.stmt (.block ((A.base.state.loopOf id).continuing ++ [last])))
        exact Account.runs_build ht (by simp [hshape])
      · obtain ⟨⟨h₃, l₃, hj, _⟩, hblock⟩ := h
        exact ⟨h₃, l₂.trans l₃, by
          simp [hc0, hj], .block hc0 (ho.grown hc.stable l₃.toGrown) hblock⟩
    · simp only [List.mem_append, List.mem_singleton, not_or]
      exact ⟨h0, (ho.ne_zero h₂ hc0).symm⟩
    · simp only [List.count_append, List.count_cons, List.count_nil]
      omega

/-- A loop over a new block. -/
theorem runs_loop (ss : List NodeId) {cont : NodeId} (h0 : 0 ∉ ss)
    (hcont : cont ≠ 0 → w.1.target.isBlock cont) (hw : A.Holds w (ss ++ cont :: F)) :
    Runs (Edit.build (do
      let b ← Build.block ss
      Build.stmt (.loop b cont))) w E fun j w' => A.Holds w' (j :: F) ∧ A.Later w w' ∧
        j ≠ 0 ∧ w'.2 j = 0 ∧
        ∃ whole, w'.1.target.shape? whole = some (.stmt (.block ss)) ∧
          w'.1.target.shape? j = some (.stmt (.loop whole cont)) := by
  have hover : ∀ uses : List NodeId, (∀ x, x ≠ 0 → [cont].count x ≤ uses.count x) →
      A.mode.YieldsAt w.1.target (do
        let b ← Build.block ss
        Build.stmt (.loop b cont)) (ss ++ uses) := by
    intro uses hu
    refine .overBlock ss (fun b => .stmt (.loop b cont)) (fun _ => trivial)
      (fun b => by simp [Shape.required]) (fun b x hx => ?_) (fun a b he hb _ => ⟨hb, ?_⟩) (by simp)
      fun _ => trivial
    · have := hu x hx
      simp only [Shape.slots, List.count_cons] at this ⊢
      omega
    · exact (Decidable.em (cont = 0)).imp_right fun h => he.isBlock (hcont h)
  have hnew : Runs (Edit.build (do
      let b ← Build.block ss
      Build.stmt (.loop b cont))) w E fun j w' => A.Holds w' (j :: F) ∧ A.Later w w' ∧ j ≠ 0 ∧
        w'.2 j = 0 := by
    by_cases hc0 : cont = 0
    · refine Account.runs_new hc.stable (hover [] fun x hx => ?_) (by simpa using h0)
        (hw.weaken fun x => ?_)
      · simp [hc0, Ne.symm hx]
      · simp only [List.count_append, List.count_cons, List.count_nil]
        omega
    · refine Account.runs_new hc.stable (hover [cont] fun _ _ => Nat.le_refl _) ?_
        (hw.weaken fun x => ?_)
      · simp only [List.mem_append, List.mem_singleton, not_or]
        exact ⟨h0, Ne.symm hc0⟩
      · simp
  refine (hnew.and (D := E)
    (P := fun j s => ∃ whole, s.target.shape? whole = some (.stmt (.block ss)) ∧
    s.target.shape? j = some (.stmt (.loop whole cont))) ?_).mono fun j w' h =>
      ⟨h.1.1, h.1.2.1, h.1.2.2.1, h.1.2.2.2, h.2⟩
  obtain ⟨t, ht, hsize, hshape⟩ := push_build w.1.target (.stmt (.block ss))
  obtain ⟨t', ht', _, hshape'⟩ := push_build t (.stmt (.loop (w.1.target.size + 1) cont))
  exact Account.runs_build ((bind_build ht).trans ht')
    ⟨w.1.target.size + 1, by simp [hshape', hshape, hsize]⟩

/-- A loop with a header becomes one without. -/
theorem turns_lowerLoop {x : StmtShape NodeId} {h : Header}
    (hs : A.base.source.shape? i = some (.stmt x)) (hx : header? x = some h)
    (hcond : ∀ c b, x = .whileLoop c b → c ≠ 0) (hbody : h.body ≠ 0)
    (h0 : 0 ∉ A.base.state.waiting i) (hd : ∀ c ∈ (Shape.stmt (ν := Symbol) x).slots, D c) :
    A.Turns E (act copy (.lowerLoop i))
    (A.base.state.waiting i ++ (belowPart A n h.init ++ belowPart A n h.condition ++
      belowPart A n h.continuing ++ A.below n h.body)) (fun j => [j]) fun w j => j ≠ 0 ∧ w.2 j = 0 ∧
        LoweredLoop w.1.target.toArena (A.Out w) (A.base.state.loopOf i) h j := by
  obtain ⟨hdinit, hdcond, hdcont, hdbody⟩ := Header.parts hx hd
  have h0cond : 0 ∉ (A.base.state.loopOf i).condition := fun h => h0 (by simp [waiting, h])
  have h0cont : 0 ∉ (A.base.state.loopOf i).continuing := fun h => h0 (by simp [waiting, h])
  intro w F hw
  refine Runs.congr (act_lowerLoop copy (by rwa [hw.tables.source]) hx hcond) (runs_record hc hw ?_)
  refine (turns_testing hc hdcond).bind
    ((A.base.state.loopOf i).condition ++ ((A.base.state.loopOf i).continuing ++
      belowPart A n h.continuing) ++ belowPart A n h.init ++ A.below n h.body ++ F) hw (fun x => ?_)
      fun test w₂ h₂ l₂ htest => ?_
  · simp only [waiting, List.count_append]
    omega
  refine (hc.part h.body (hdbody hbody)).bind
    (test ++ (A.base.state.loopOf i).condition ++ ((A.base.state.loopOf i).continuing ++
      belowPart A n h.continuing) ++ belowPart A n h.init ++
      F) h₂ (fun x => ?_) fun inner w₃ h₃ l₃ hinner => ?_
  · simp only [id, List.count_append]
    omega
  refine (turns_continued hc i hdcont h0cont).bind
    ((A.base.state.loopOf i).condition ++ test ++ [inner] ++
      belowPart A n h.init ++ F) h₃ (fun x => ?_) fun cont w₄ h₄ l₄ hcont => ?_
  · simp only [List.count_append]
    omega
  have h0all : 0 ∉ (A.base.state.loopOf i).condition ++ test ++ [inner] := by
    simp only [List.mem_append, List.mem_singleton, not_or]
    exact ⟨⟨h0cond, htest.1⟩, (hinner.ne_zero h₃ hbody).symm⟩
  have hblock : cont ≠ 0 → w₄.1.target.isBlock cont := by
    rcases hcont.2 with h | ⟨_, _, hk⟩
    · exact fun h => absurd rfl h
    · exact fun _ => by simp [Arena.isBlock, Arena.block?, hk, Shape.block?]
  refine Runs.bind ((runs_loop (F := belowPart A n h.init ++ F) hc _ h0all hblock
    (h₄.weaken fun x => ?_)).mono fun loop w₅ h => ?_)
  · simp only [List.count_append, List.count_cons, List.count_nil]
    omega
  obtain ⟨h₅, l₅, hl0, hl, whole, hwhole, hloop⟩ := h
  have hlater := ((l₂.trans l₃).trans l₄).trans l₅
  have hlooped : Looped w₅.1.target.toArena (A.Out w₅) (A.base.state.loopOf i) h loop := by
    refine .loop ?_ (hinner.grown hc.stable (l₄.trans l₅).toGrown) hwhole ?_ hloop
    · exact htest.2.mono ((l₃.trans l₄).trans l₅).target.shape? fun _ _ =>
        .grown hc.stable ((l₃.trans l₄).trans l₅).toGrown
    · exact hcont.2.mono l₅.target.shape? fun _ _ => .grown hc.stable l₅.toGrown
  unfold belowPart at h₅
  split
  · next hinit =>
      exact Runs.pure w₅.2 ⟨by simpa [hinit] using h₅, hlater, hl0, hl, .bare hinit hlooped⟩
  · next hinit =>
    rw [if_neg hinit] at h₅
    refine (hc.part h.init (hdinit hinit)).bind (loop :: F) h₅ (fun x => ?_)
      fun first w₆ h₆ l₆ hfirst => ?_
    · simp only [List.count_append, List.count_cons]
      omega
    have hnew := Account.runs_new (E := E) (F := F) hc.stable
      (Yields.block [first, loop] w₆.1.target) ?_ h₆
    · refine (hnew.and (D := E)
        (P := fun j s => s.target.shape? j = some (.stmt (.block [first, loop]))) ?_).mono
        fun j w₇ h => ?_
      · obtain ⟨t, ht, _, hshape⟩ := push_build w₆.1.target (.stmt (.block [first, loop]))
        exact Account.runs_build ht (by simp [hshape])
      · obtain ⟨⟨h₇, l₇, hj0, hj⟩, hfinal⟩ := h
        refine ⟨h₇, (hlater.trans l₆).trans l₇, hj0, hj,
          .after hinit (hfirst.grown hc.stable l₇.toGrown) ?_ hfinal⟩
        exact hlooped.mono (l₆.trans l₇).target.shape? fun _ _ =>
          .grown hc.stable (l₆.trans l₇).toGrown
    · simp only [List.mem_cons, List.not_mem_nil, or_false, not_or]
      exact ⟨(hfirst.ne_zero h₆ hinit).symm, Ne.symm hl0⟩

/-- A conditional after an `else` becomes a block with a conditional in it. -/
theorem turns_lowerElse {cond body otherwise : NodeId}
    (hs : A.base.source.shape? i = some (.stmt (.ifElse cond body otherwise))) (hcond : cond ≠ 0)
    (hbody : body ≠ 0) (h0 : 0 ∉ A.base.state.waiting i) (hd : ∀ c ∈ [cond, body, otherwise], D c)
    (htidy : A.mode.tidy → ∀ {w : World Rule Hoist} {b e}, A.Out w body b → A.Out w otherwise e →
      w.1.target.isBlock b ∧ (e = 0 ∨ w.1.target.isBlock e ∨ w.1.target.isIf e)) :
    A.Turns E (act copy (.lowerElse i))
    (A.base.state.waiting i ++ (A.below n cond ++ A.below n body ++
      A.below n otherwise)) (fun j => [j]) fun w j => j ≠ 0 ∧ w.2 j = 0 ∧
        LoweredElse w.1.target.toArena (A.Out w) (A.base.state.elseOf i).condition cond body
        otherwise j := by
  have h0else : 0 ∉ (A.base.state.elseOf i).condition := fun h => h0 (by simp [waiting, h])
  intro w F hw
  unfold act
  refine Runs.bind (Runs.get ?_)
  simp only [hw.tables.source, hs]
  refine (hc.part cond (hd cond (by simp))).bind
    ((A.base.state.elseOf i).condition ++ A.below n body ++ A.below n otherwise ++ F) hw
    (fun x => ?_) fun c w₁ h₁ l₁ ho₁ => ?_
  · simp only [waiting, List.count_append]
    omega
  refine (hc.part body (hd body (by simp))).bind
    (c :: (A.base.state.elseOf i).condition ++ A.below n otherwise ++ F) h₁ (fun x => ?_)
    fun b w₂ h₂ l₂ ho₂ => ?_
  · simp only [List.count_append, List.count_cons, List.count_nil]
    omega
  refine (hc.part otherwise (hd otherwise (by simp))).bind
    (b :: c :: (A.base.state.elseOf i).condition ++ F) h₂ (fun x => ?_)
    fun e w₃ h₃ l₃ ho₃ => ?_
  · simp only [List.count_append, List.count_cons, List.count_nil]
    omega
  have hyields : ∀ uses : List NodeId, (∀ x, x ≠ 0 → [e].count x ≤ uses.count x) →
      A.mode.YieldsAt w₃.1.target (do
        let inner ← Build.stmt (.ifElse c b e)
        Build.block ((A.base.state.elseOf i).condition ++ [inner]))
        (c :: b :: uses ++ (A.base.state.elseOf i).condition) := by
    intro uses hu
    refine .bind (.push trivial (by simp [Shape.required]) (fun x hx => ?_)
      ⟨fun hd => (Builder.Mode.extends_push _ _ _).documented
        (htidy hd (ho₂.grown hc.stable l₃.toGrown) ho₃),
        fun _ => by simp, fun _ => trivial⟩) fun inner b' _ => ?_
    · have := hu x hx
      simp only [Shape.slots, List.count_cons] at this ⊢
      omega
    · refine (Yields.block _).weaken (fun x => ?_) b'
      simp only [List.count_append, List.count_cons, List.count_nil]
      omega
  have h0' : ∀ uses : List NodeId,
      0 ∉ uses → 0 ∉ c :: b :: uses ++ (A.base.state.elseOf i).condition := by
    intro uses hu
    simp only [List.cons_append, List.mem_cons, List.mem_append, not_or]
    exact ⟨(ho₁.ne_zero h₁ hcond).symm, (ho₂.ne_zero h₂ hbody).symm, hu, h0else⟩
  have hnew : Runs (Edit.build (do
      let inner ← Build.stmt (.ifElse c b e)
      Build.block ((A.base.state.elseOf i).condition ++ [inner]))) w₃ E fun j w' =>
        A.Holds w' (j :: F) ∧ A.Later w₃ w' ∧ j ≠ 0 ∧ w'.2 j = 0 := by
    by_cases he : e = 0
    · refine Account.runs_new hc.stable (hyields [] fun x hx => ?_) (h0' [] (by simp))
        (h₃.weaken fun x => ?_)
      · simp [he, Ne.symm hx]
      · simp only [List.count_append, List.count_cons, List.count_nil]
        omega
    · refine Account.runs_new hc.stable (hyields [e] fun _ _ => Nat.le_refl _)
        (h0' [e] (by simpa using Ne.symm he))
        (h₃.weaken fun x => ?_)
      simp only [List.count_append, List.count_cons, List.count_nil]
      omega
  refine runs_record hc h₃ ((hnew.and (D := E) (P := fun j s => ∃ inner,
    s.target.shape? inner = some (.stmt (.ifElse c b e)) ∧
    s.target.shape? j = some (.stmt (.block ((A.base.state.elseOf i).condition ++ [inner]))))
    ?_).mono fun j w₄ h => ?_)
  · obtain ⟨t, ht, hsize, hshape⟩ := push_build w₃.1.target (.stmt (.ifElse c b e))
    obtain ⟨t', ht', _, hshape'⟩ :=
      push_build t (.stmt (.block ((A.base.state.elseOf i).condition ++ [w₃.1.target.size + 1])))
    exact Account.runs_build ((bind_build ht).trans ht')
      ⟨w₃.1.target.size + 1, by simp [hshape', hshape, hsize]⟩
  · obtain ⟨⟨h₄, l₄, hj0, hj⟩, inner, hinner, hblock⟩ := h
    refine ⟨h₄, ((l₁.trans l₂).trans l₃).trans l₄, hj0, hj, .block ?_ ?_ ?_ hinner hblock⟩
    · exact ho₁.grown hc.stable ((l₂.trans l₃).trans l₄).toGrown
    · exact ho₂.grown hc.stable (l₃.trans l₄).toGrown
    · exact ho₃.grown hc.stable l₄.toGrown

end Steps
end Hoist
end ShaderLoom
