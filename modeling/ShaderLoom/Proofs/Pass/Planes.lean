import ShaderLoom.Pass.Planes
import ShaderLoom.Proofs.Copy.Register

/-! Turning external textures into planes keeps programs fit, and where nodes are kept tidy no
external texture is left. -/
namespace ShaderLoom.Planes

open Copy Builder.Mode

section Makes

variable {M : Builder.Mode}

theorem makes_paramsStruct (hc : ¬ M.closed) : M.Makes (do
    let s ← Build.freshSymbol "ExternalTextureParams"
    let count ← Build.structMember "numPlanes" (← Build.type .u32) []
    let rest ← ["vr", "ug", "vg", "ub"].mapM fun field => do
      Build.structMember field (← Build.type .f32) []
    let _ ← Build.structSym s (count :: rest)
    return s) [] fun _ => [] := by
  refine .first (.freshSymbol _) fun s => ?_
  refine .first (Yields.type (t := .u32) trivial (by simp) rfl).makes fun u => ?_
  refine .chain (Yields.structMember (by decide) u).makes fun count => ?_
  have hrest : M.Makes (["vr", "ug", "vg", "ub"].mapM fun field => do
      Build.structMember field (← Build.type .f32) []) [] fun ids => ids := by
    have hnil : ["vr", "ug", "vg", "ub"].flatMap (fun _ => ([] : List NodeId)) = [] := rfl
    refine (Makes.mapM (u := fun _ => []) (g := fun id => [id]) fun f hm => ?_).weaken
      (by simp [hnil])
      (by simp)
    refine (Yields.chain (Yields.type (t := .f32) trivial (by simp) rfl).makes fun t =>
      .structMember ?_ t).makes
    rintro rfl
    simp at hm
  refine .bind (U := [count]) hrest fun rest => ?_
  refine (Makes.chain (.structSym hc s (count :: rest)) fun _ =>
    .pure s fun _ => Nat.le_refl _).weaken ?_
    fun _ _ => Nat.le_refl _
  intro x
  simp only [List.count_append, List.count_cons, List.count_nil]
  omega

theorem makes_freshCompanions : M.Makes freshCompanions [] fun _ => [] :=
  .first (.freshSymbol _) fun _ => .first (.freshSymbol _) fun _ => .pure _ fun _ => Nat.le_refl _

theorem makes_bindAt (hc : ¬ M.closed) (s : Symbol) (type : NodeId) {space : AddressSpace}
    (hs : space ∈ AddressSpace.declared) (point : BindingPoint) :
    M.Makes (bindAt s type space point) [type] fun _ => [] := by
  refine .first (Yields.attr (a := .group point.group) trivial rfl).makes fun group => ?_
  refine .first (Yields.attr (a := .binding point.binding) trivial rfl).makes fun binding => ?_
  refine (Makes.chain (.globalVarSym hc hs s type [group, binding])
    fun _ => .pure _ fun _ => Nat.le_refl _).weaken ?_ fun _ _ => Nat.le_refl _
  intro x
  simp only [List.count_append, List.count_cons, List.count_nil]
  omega

theorem makes_freshLocals : M.Makes freshLocals [] fun _ => [] := by
  unfold freshLocals
  refine .first (.freshSymbol _) fun _ => .first (.freshSymbol _) fun _ =>
    .first (.freshSymbol _) fun _ =>
    .first (.freshSymbol _) fun _ => .first (.freshSymbol _) fun _ =>
      .first (.freshSymbol _) fun _ =>
    .first (.freshSymbol _) fun _ => .first (.freshSymbol _) fun _ =>
      .first (.freshSymbol _) fun _ =>
    .first (.freshSymbol _) fun _ => .first (.freshSymbol _) fun _ =>
      .first (.freshSymbol _) fun _ => ?_
  exact .pure _ fun _ => Nat.le_refl _

namespace Helper

theorem yields_parameter (s : Symbol) {type : Build NodeId} (ht : M.Yields type []) :
    M.Yields (Helper.parameter s type) [] :=
  .chain ht.makes fun t => .typed (k := .parameter) trivial trivial s t

theorem yields_vector {e : TypeShape Symbol NodeId} {width : Int} (hs : (Shape.type e).Spelled)
    (hslots : (Shape.type e).slots = []) (he : e ≠ .externalTexture) (hw : 2 ≤ width ∧ width ≤ 4) :
    M.Yields (Helper.vector e width) [] :=
  .chain (Yields.type hs he hslots).makes fun t => .type (t := .vector t width) hw (by simp) rfl

theorem makes_parameters (fetch : Fetch) (l : Locals) (struct : Symbol) :
    M.Makes (Helper.parameters fetch l struct) [] fun ids => ids := by
  refine .first (yields_parameter _ .texture2d).makes fun plane0 => ?_
  refine .first (yields_parameter _ .texture2d).makes fun plane1 => ?_
  -- What comes last does not depend on the parameters in between.
  have hlast : ∀ place : List NodeId, M.Makes (do
      let params ← Helper.parameter l.params (Build.type (.named struct))
      pure ([plane0, plane1] ++ place ++ [params])) (place ++ ([plane1] ++ ([plane0] ++ [])))
        fun ids => ids := by
    intro place
    refine .first (yields_parameter _ (.type (t := .named struct) trivial (by simp) rfl)).makes
      fun params => ?_
    refine .pure _ fun x => ?_
    simp only [List.count_append, List.count_cons, List.count_nil]
    omega
  cases fetch with
  | sample =>
    refine .first (yields_parameter _ (.type (t := .sampler false) trivial (by simp) rfl)).makes
      fun smp => ?_
    refine .first (yields_parameter _
      (yields_vector (e := .f32) trivial rfl (by simp) (by decide))).makes
      fun coord => ?_
    refine (hlast [smp, coord]).weaken (fun x => ?_) fun _ _ => Nat.le_refl _
    simp only [List.count_append, List.count_cons, List.count_nil]
    omega
  | load =>
    refine .first (yields_parameter _
      (yields_vector (e := .i32) trivial rfl (by simp) (by decide))).makes
      fun coord => ?_
    exact hlast [coord]

theorem builtin_ne (fetch : Fetch) : fetch.builtin ≠ "" := by cases fetch <;> decide

theorem yields_readPlane (fetch : Fetch) (l : Locals) (plane : Symbol) :
    M.Yields (Helper.readPlane fetch l plane) [] := by
  refine .first (Yields.identSym plane).makes fun texture => ?_
  cases fetch with
  | sample =>
    refine .first (Yields.identSym l.smp).makes fun smp => ?_
    refine .first (Yields.identSym l.coord).makes fun coord => ?_
    refine (Yields.call (a := [.node texture, .node smp, .node coord, .float .zero])
      (builtin_ne .sample) (by simp [Operand.Known])).weaken fun x => ?_
    simp only [List.flatMap_cons, List.flatMap_nil, Operand.uses, List.count_append,
      List.count_cons, List.count_nil]
    omega
  | load =>
    refine .first (Yields.identSym l.coord).makes fun coord => ?_
    refine (Yields.call (a := [.node texture, .node coord, .int 0]) (builtin_ne .load)
      (by simp [Operand.Known])).weaken fun x => ?_
    simp only [List.flatMap_cons, List.flatMap_nil, Operand.uses, List.count_append,
      List.count_cons, List.count_nil]
    omega

theorem yields_component (s : Symbol) {field : String} (hf : field ≠ "") :
    M.Yields (Helper.component s field) [] :=
  .first (Yields.identSym s).makes fun o => .member (o := .node o) trivial hf

theorem yields_param (l : Locals) {field : String} (hf : field ≠ "") :
    M.Yields (Helper.param l field) [] :=
  yields_component l.params hf

theorem yields_declareLet (s : Symbol) (value : NodeId) :
    M.Yields (Helper.declareLet s value) [value] :=
  .chain (Yields.initialized (k := .letValue) trivial trivial s value).makes fun v => .declare v

theorem yields_level (fetch : Fetch) (l : Locals) (plane : Symbol) {components : String}
    (hc : components ≠ "") (base : Binary64) :
    M.Yields (Helper.level fetch l plane components base) [] := by
  refine .first (yields_readPlane fetch l plane).makes fun value => ?_
  refine .chain (Yields.member (o := .node value) trivial hc).makes fun part => ?_
  exact .binary (x := .node part) (y := .float base) (by decide) trivial trivial

theorem yields_luma (l : Locals) : M.Yields (Helper.luma l) [] :=
  .first (Yields.identSym l.y).makes fun y =>
    .binary (x := .float Helper.scale) (y := .node y) (by decide) trivial trivial

/-- The operands are made one after the other and used up at once. -/
theorem yields_combine {op : BinaryOp} (ho : op ∈ BinaryOp.declared) {lhs rhs : Build NodeId}
    (hl : M.Yields lhs []) (hr : M.Yields rhs []) : M.Yields (Helper.combine op lhs rhs) [] := by
  refine .first hl.makes fun x => .first hr.makes fun y => ?_
  refine (Yields.binary (x := .node x) (y := .node y) ho trivial trivial).weaken fun z => ?_
  simp only [Operand.uses, List.count_append, List.count_cons, List.count_nil]
  omega

theorem yields_chroma (l : Locals) {field : String} (hf : field ≠ "") (s : Symbol) :
    M.Yields (Helper.chroma l field s) [] :=
  yields_combine (by decide) (yields_param l hf) (.identSym s)

theorem yields_singlePlane (fetch : Fetch) (l : Locals) :
    M.Yields (Helper.singlePlane fetch l) [] := by
  refine .first (yields_param l (by decide)).makes fun planes => ?_
  refine .first (Yields.expr (e := .int 1 .u) trivial rfl).makes fun one => ?_
  refine (Yields.bind (U := []) (Yields.binary (b := .equal) (x := .node planes) (y := .node one)
    (by decide) trivial trivial).makes fun test => ?_).weaken ?_
  · refine .first (yields_readPlane fetch l l.plane0).makes fun value => ?_
    refine .bind (U := [test]) (Yields.returnValue (v := .node value) trivial).makes fun last => ?_
    exact Yields.ifThen test [last]
  · intro x
    simp only [Operand.uses, List.count_append, List.count_cons, List.count_nil]
    omega

theorem makes_body (fetch : Fetch) (l : Locals) :
    M.Makes (Helper.body fetch l) [] fun ids => ids := by
  -- Each statement is free until the last step lists them all.
  have hlet : ∀ {uses : List NodeId} {β : Type} {s : Symbol} {value : Build NodeId}
      {next : NodeId → Build β} {g : β → List NodeId}, M.Yields value [] →
      (∀ id, M.Makes (next id) ([id] ++ uses) g) →
      M.Makes (do
        let v ← value
        let id ← Helper.declareLet s v
        next id) uses g := by
    intro uses β s value next g hv hn
    exact .first hv.makes fun v => .bind (U := uses) (yields_declareLet s v).makes hn
  refine .first (yields_singlePlane fetch l).makes fun single => ?_
  refine hlet (yields_level fetch l l.plane0 (by decide) _) fun y => ?_
  refine hlet (yields_level fetch l l.plane1 (by decide) _) fun uv => ?_
  refine hlet (yields_component l.uv (by decide)) fun u => ?_
  refine hlet (yields_component l.uv (by decide)) fun v => ?_
  refine hlet (yields_combine (by decide) (yields_luma l) (yields_chroma l (by decide) l.v))
    fun r => ?_
  refine hlet (yields_combine (by decide) (yields_combine (by decide) (yields_luma l)
    (yields_chroma l (by decide) l.u)) (yields_chroma l (by decide) l.v)) fun g => ?_
  refine hlet (yields_combine (by decide) (yields_luma l) (yields_chroma l (by decide) l.u))
    fun b => ?_
  refine .first (yields_vector (e := .f32) trivial rfl (by simp) (by decide)).makes fun type => ?_
  refine .first (Yields.identSym l.r).makes fun red => ?_
  refine .first (Yields.identSym l.g).makes fun green => ?_
  refine .first (Yields.identSym l.b).makes fun blue => ?_
  refine (Makes.bind (U := [b, g, r, v, u, uv, y, single]) (Yields.construct (t := type)
    (a := [.node red, .node green, .node blue, .float Helper.one]) (by simp [Operand.Known])).makes
    fun colour => ?_).weaken ?_ fun _ _ => Nat.le_refl _
  · refine .bind (U := [b, g, r, v, u, uv, y, single])
      (Yields.returnValue (v := .node colour) trivial).makes
      fun last => ?_
    refine .pure _ fun x => ?_
    simp only [List.count_append, List.count_cons, List.count_nil]
    omega
  · intro x
    simp only [List.flatMap_cons, List.flatMap_nil, Operand.uses, List.count_append,
      List.count_cons, List.count_nil]
    omega

theorem makes_declare (hc : ¬ M.closed) (fetch : Fetch) (s struct : Symbol) (l : Locals) :
    M.Makes (Helper.declare fetch s struct l) [] fun _ => [] := by
  refine .first (makes_parameters fetch l struct) fun params => ?_
  refine .first (makes_body fetch l) fun statements => ?_
  refine .first (yields_vector (e := .f32) trivial rfl (by simp) (by decide)).makes fun type => ?_
  refine (Makes.chain (.functionSym hc s params type statements) fun _ =>
    .pure _ fun _ => Nat.le_refl _).weaken
    (fun x => ?_) fun _ _ => Nat.le_refl _
  simp only [List.count_append, List.count_cons, List.count_nil]
  omega

end Helper
end Makes

/-- The handlers of families. -/
def families : List (Tag × Use) :=
  [(.kind "ExternalTexture" .texture, .plane), (.kind "TypeName" .typeNode, .named)]

/-- The handler of a shape's family. -/
def family? : Shape Symbol NodeId → Option (Tag × Use)
  | .type .externalTexture => some (.kind "ExternalTexture" .texture, .plane)
  | .type (.named _) => some (.kind "TypeName" .typeNode, .named)
  | _ => none

theorem find?_families (s : Shape Symbol NodeId) :
    families.find? (fun (t, _) => s.tag.is t) = family? s := by
  rcases s with t | e | s | v | ⟨x, t, as⟩ | x | gs
  · cases t <;> rfl
  · cases e <;> rfl
  · cases s <;> rfl
  · rcases v with ⟨k, x, t, i, as⟩ | f | _ | _
    · cases k <;> rfl
    all_goals rfl
  · rfl
  · cases x <;> rfl
  · rfl

/-- Calls alone are converted, with their own arguments. -/
def regime (d : Builder.Demands) (p : Program) : Regime Use Made where
  toDemands := d
  keep _ _ := True
  replaced i use := ∃ fetch c target args, use = .converted fetch c args ∧
    p.shape? i = some (.expr (.call target args))
  parts i := p.shape? i ≠ some (.type .externalTexture)

variable {p : Program} {inputs : Data} {d : Builder.Demands} {w : World Use Made} {F : List NodeId}
  {hs : List (Tag × Use)} {s : Session Use Made}

section Copying

theorem turns_setState (st : Made) :
    ((regime d p).account s).Turns Regime.any (Edit.setState st) [] (fun _ => [])
      fun _ _ => True := by
  intro w F hw
  have hl : ((regime d p).account s).Later w ({ w.1 with state := st }, w.2) :=
    ⟨⟨⟨rfl, rfl, rfl, rfl, rfl, rfl, rfl, rfl, rfl⟩, .refl _, fun _ _ => rfl, fun _ _ h => h⟩,
      rfl, fun _ => rfl⟩
  exact Runs.modify w.2 ⟨hw.alike (Regime.stable (fun _ _ => trivial) s) hl.toGrown rfl rfl hw.good
    ⟨trivial, rfl, nofun⟩, hl, trivial⟩

theorem turns_getState :
    ((regime d p).account s).Turns Regime.any Edit.getState [] (fun _ => []) fun _ _ => True :=
  fun w _ hw => Runs.bind (Runs.get (Runs.pure w.2 ⟨hw, .refl w, trivial⟩))

theorem turns_makes {α : Type} {step : Build α} {g : α → List NodeId}
    (hm : (regime d p).mode.Makes step [] g) :
    ((regime d p).account s).Turns Regime.any (Edit.build step) [] g fun _ _ => True :=
  Account.turns_makes (Regime.stable (fun _ _ => trivial) s) hm (by simp)

theorem turns_locals : ((regime d p).account s).Turns Regime.any locals [] (fun _ => [])
    fun _ _ => True := by
  unfold locals
  refine .first turns_getState fun m => ?_
  split
  · exact .pure
  · refine .first (turns_makes makes_freshLocals) fun l => .first turns_getState fun m => ?_
    exact .first (turns_setState _) fun _ => .pure

/-- A conversion function is declared at its first use. -/
theorem turns_helper (fetch : Fetch) : ((regime d p).account s).Turns Regime.any (helper fetch) []
    (fun _ => []) fun _ _ => True := by
  unfold helper
  refine .first turns_getState fun m => ?_
  split
  · exact .pure
  · refine .first (turns_makes (.freshSymbol fetch.helper)) fun name =>
      .first turns_locals fun l => ?_
    refine .first turns_getState fun m => ?_
    refine .first (turns_makes (Helper.makes_declare (fun h => h) fetch name _ l)) fun _ => ?_
    exact .first turns_getState fun m => .first (turns_setState _) fun _ => .pure

/-- Arguments, copied one after another. -/
theorem turns_arguments {copy : NodeId → Edit Use Made NodeId} {n : Nat} {args : List NodeId}
    (hcopy : ∀ c, ((regime d p).account s).Turns Regime.any (copy c)
      (((regime d p).account s).below n c) (fun j => [j])
      fun w j => ((regime d p).account s).Out w c j) (h0 : ∀ c ∈ args, c ≠ 0) :
    ((regime d p).account s).Turns Regime.any (args.mapM copy)
      (args.flatMap (((regime d p).account s).below n)) id fun _ js => ∀ j ∈ js, j ≠ 0 := by
  induction args with
  | nil => exact fun w F hw => Runs.pure w.2 ⟨hw, .refl w, by simp⟩
  | cons c args ih =>
    intro w F hw
    rw [List.mapM_cons]
    refine (hcopy c).bind (args.flatMap (((regime d p).account s).below n) ++ F) hw ?_
      fun j w₁ h₁ l₁ hj => ?_
    · simp
    refine (ih fun c hc => h0 c (by simp [hc])).bind (j :: F) h₁ ?_ fun js w₂ h₂ l₂ hjs => ?_
    · intro x
      simp only [List.count_append, List.count_cons, List.count_nil]
      omega
    · refine Runs.pure w₂.2 ⟨h₂.weaken fun x => ?_, l₁.trans l₂, ?_⟩
      · simp only [id, List.count_append, List.count_cons]
        omega
      · intro e he
        rcases List.mem_cons.1 he with rfl | he
        · exact hj.ne_zero h₁ (h0 c (by simp))
        · exact hjs e he

theorem turns_texture2d {i : NodeId} (hi : i ≠ 0) (ht : s.source.inTree i = true)
    (hs : s.source.NoStatement i) :
    ((regime d p).account s).Turns Regime.any (Edit.build Build.texture2d) []
      (fun j => [j]) fun w j => ((regime d p).account s).Out w i j :=
  Regime.turns_built (fun _ _ => trivial) .texture2d (by simp) hi ht fun _ => hs

/-- A call of a conversion function. -/
theorem turns_converted (hp : p.Fit) (hsource : s.source = p) {n : Nat} {i t : NodeId} {node : Node}
    {fetch : Fetch} {c : Companions} {args : List NodeId}
    (hc : ((regime d p).account s).Copies Regime.any (fun _ _ => True) act n) (hi : i ≠ 0)
    (ht : s.source.inTree i = true) (hn : s.source.node? i = some node)
    (hshape : node.shape = .expr (.call t args)) :
    ((regime d p).account s).Turns Regime.any (act (Edit.copyTo act n) (.converted fetch c args) i)
      (node.shape.slots.flatMap (((regime d p).account s).around n)) (fun j => [j])
      fun w j => ((regime d p).account s).Out w i j := by
  have hR : (regime d p).Steady := fun _ _ => trivial
  have hA := Regime.stable hR s
  have h0 : ∀ c ∈ args, c ≠ 0 := by
    intro c hm
    rw [hsource] at hn
    exact hp.present hn c (by simp [hshape, Shape.required, Shape.slots, hm])
  have hargs : ∀ as : List NodeId, (∀ c ∈ as, c ∈ args) → _ := fun as hm =>
    turns_arguments (d := d) (p := p) (s := s) (fun c => hc c trivial) fun c h => h0 c (hm c h)
  have hident : ∀ x, ((regime d p).account s).Turns Regime.any (Edit.build (Build.identSym x)) []
      (fun j => [j]) fun w j => j ≠ 0 ∧ w.2 j = 0 :=
        fun x => Account.turns_new hA (Yields.identSym x) (by simp)
  refine (Account.Turns.first (turns_helper fetch) fun name => ?_).weaken
    (u := args.flatMap (((regime d p).account s).below n)) fun x => ?_
  · intro w F hw
    refine (hargs (args.take 1) fun c => List.mem_of_mem_take).bind
      ((args.drop 1).flatMap (((regime d p).account s).below n) ++ F) hw ?_
      fun texture w₁ h₁ l₁ ht₁ => ?_
    · intro x
      exact Nat.le_of_eq (by rw [← List.append_assoc, ← List.flatMap_append, List.take_append_drop])
    refine (hident c.plane1).bind
      (texture ++ ((args.drop 1).flatMap (((regime d p).account s).below n) ++ F)) h₁
      (fun _ => Nat.le_refl _) fun plane1 w₂ h₂ l₂ hplane => ?_
    refine (hargs (args.drop 1) fun c => List.mem_of_mem_drop).bind (plane1 :: texture ++ F) h₂ ?_
      fun rest w₃ h₃ l₃ hr₃ => ?_
    · intro x
      simp only [List.count_append, List.count_cons, List.count_nil]
      omega
    refine (hident c.params).bind (rest ++ (plane1 :: texture ++ F)) h₃
      (fun _ => Nat.le_refl _) fun params w₄ h₄ l₄ hparams => ?_
    have hcall : (regime d p).mode.Yields
        (Build.callSym name ((texture ++ [plane1] ++ rest ++ [params]).map .node))
        (texture ++ [plane1] ++ rest ++ [params]) := by
      have huses : ((texture ++ [plane1] ++ rest ++ [params]).map Operand.node).flatMap
          Operand.uses =
          texture ++ [plane1] ++ rest ++ [params] := by
        rw [List.flatMap_map]
        exact List.flatMap_singleton' _
      have hyields := Yields.callSym (M := (regime d p).mode) name
        (a := (texture ++ [plane1] ++ rest ++ [params]).map .node) fun o ho => by
          obtain ⟨_, _, rfl⟩ := List.mem_map.1 ho
          trivial
      rwa [huses] at hyields
    refine (Regime.turns_built hR hcall ?_ hi ht (fun _ => ?_) w₄ F (h₄.weaken fun x => ?_)).mono
      fun j w₅ h => ⟨h.1, (((l₁.trans l₂).trans l₃).trans l₄).trans h.2.1, h.2.2⟩
    · intro hm
      simp only [List.mem_append, List.mem_singleton] at hm
      rcases hm with ((hm | hm) | hm) | hm
      · exact ht₁ 0 hm rfl
      · exact hplane.1 hm.symm
      · exact hr₃ 0 hm rfl
      · exact hparams.1 hm.symm
    · simp [Arena.NoStatement, Arena.shape?, hn, hshape, Shape.isStatement]
    · simp only [List.count_append, List.count_cons, List.count_nil]
      omega
  · -- What was put around the arguments is left out together with their list.
    simp only [hshape, Shape.slots, List.flatMap_cons, List.count_append]
    have hle : ∀ as : List NodeId, (as.flatMap (((regime d p).account s).below n)).count x ≤
        (as.flatMap (((regime d p).account s).around n)).count x := by
      intro as
      induction as with
      | nil => simp
      | cons a as ih =>
        simp only [List.flatMap_cons, List.count_append, Account.around]
        omega
    have := hle args
    omega

theorem handled (hp : p.Fit) (h : (regime d p).Ready p families w F) :
    ((regime d p).account w.1).Handled Regime.any (fun _ _ => True) act := by
  refine Regime.handled rfl rfl (fun n i use node hc hi ht hn hr => ?_) ?_ fun i node hn hfind => ?_
  · obtain ⟨fetch, c, target, args, rfl, hshape⟩ := h.replaced i use hr
    refine turns_converted hp h.source hc hi ht hn (t := target) ?_
    rw [h.source] at hn
    simpa [Arena.shape?, hn] using hshape
  · intro n i t use node hc hi ht hn hfind w' F' hw'
    rw [h.handlers, find?_families] at hfind
    have hsource : w.1.source.shape? i = some node.shape := by simp [Arena.shape?, hn]
    have htexture : w.1.source.NoStatement i →
        Runs (Edit.build Build.texture2d) w' Regime.any fun j w'' =>
        (j = 0 ∧ w'' = w' ∧ (regime d p).parts i) ∨
          (j ≠ 0 ∧ ((regime d p).account w.1).Holds w'' (j :: F') ∧
          ((regime d p).account w.1).Later w' w'' ∧ ((regime d p).account w.1).Out w'' i j) := by
      intro hs
      refine (turns_texture2d hi ht hs w' F' (hw'.weaken fun x => ?_)).mono fun j w'' h =>
        .inr ⟨h.2.2.ne_zero h.1 hi, h⟩
      simp only [List.nil_append, List.count_append]
      omega
    unfold family? at hfind
    split at hfind
    · next hshape =>
      cases hfind
      exact htexture (by simp [Arena.NoStatement, hsource, hshape, Shape.isStatement])
    · next hshape =>
      cases hfind
      unfold act
      refine Runs.bind (Runs.bind (Runs.get (Runs.pure w'.2 ?_)))
      split
      · exact htexture (by simp [Arena.NoStatement, hsource, hshape, Shape.isStatement])
      · refine Runs.pure w'.2 (.inl ⟨rfl, rfl, ?_⟩)
        rw [h.source] at hsource
        simp [regime, hsource, hshape]
    · cases hfind
  · rw [h.handlers, find?_families] at hfind
    rw [h.source] at hn
    rintro hshape
    simp only [Arena.shape?, hn, Option.map_some, Option.some.injEq] at hshape
    simp [hshape, family?] at hfind

end Copying

section Register

theorem runs_getState (h : (regime d p).Ready p hs w F) :
    Runs Edit.getState w Regime.any fun _ w' => (regime d p).Ready p hs w' F :=
  Runs.bind (Runs.get (Runs.pure w.2 h))

theorem runs_setState (st : Made) (h : (regime d p).Ready p hs w F) :
    Runs (Edit.setState st) w Regime.any fun _ w' => (regime d p).Ready p hs w' F :=
  Runs.modify w.2 (h.keepState trivial rfl)

theorem runs_makes {α : Type} {step : Build α} (hm : (regime d p).mode.Makes step [] fun _ => [])
    (h : (regime d p).Ready p hs w F) :
    Runs (Edit.build step) w Regime.any fun _ w' => (regime d p).Ready p hs w' F :=
  h.makes (u := []) (fun _ _ => trivial) hm

theorem runs_paramsStruct (h : (regime d p).Ready p hs w F) :
    Runs paramsStruct w Regime.any fun _ w' => (regime d p).Ready p hs w' F := by
  unfold paramsStruct
  refine Runs.bind ((runs_getState h).mono fun m w₁ h₁ => ?_)
  split
  · exact Runs.pure w₁.2 h₁
  · refine Runs.bind ((runs_makes (makes_paramsStruct fun h => h) h₁).mono fun x w₂ h₂ => ?_)
    refine Runs.bind ((runs_getState h₂).mono fun m w₃ h₃ => ?_)
    exact Runs.bind ((runs_setState _ h₃).mono fun _ w₄ h₄ => Runs.pure w₄.2 h₄)

theorem runs_remember (id : NodeId) (c : Companions) (h : (regime d p).Ready p hs w F) :
    Runs (remember id c) w Regime.any fun _ w' => (regime d p).Ready p hs w' F :=
  Runs.bind ((runs_getState h).mono fun _ _ h₁ => runs_setState _ h₁)

theorem runs_addGlobal (points : PointMap PlanePoints) (v : VariableFacts)
    (h : (regime d p).Ready p hs w F) :
    Runs (addGlobal points v) w (fun _ => True) fun _ w' => (regime d p).Ready p hs w' F := by
  unfold addGlobal
  refine Runs.bind (Work.runs_need trivial fun point _ => ?_)
  refine Runs.bind (Work.runs_need trivial fun planes _ => ?_)
  refine Work.runs_edit (Runs.bind ((runs_paramsStruct h).mono fun struct w₁ h₁ => ?_))
  refine Runs.bind ((runs_makes makes_freshCompanions h₁).mono fun c w₂ h₂ => ?_)
  refine Runs.bind ((runs_makes ?_ h₂).mono fun _ w₃ h₃ => runs_remember _ c h₃)
  refine .first Yields.texture2d.makes fun texture => ?_
  refine .chain (makes_bindAt (fun h => h) c.plane1 texture (by decide) planes.plane1) fun _ => ?_
  refine .chain (Yields.type (t := .named struct) trivial (by simp) rfl).makes fun type => ?_
  exact makes_bindAt (fun h => h) c.params type (by decide) planes.params

theorem runs_addParameter (id : NodeId) (h : (regime d p).Ready p hs w F) :
    Runs (addParameter id) w Regime.any fun _ w' => (regime d p).Ready p hs w' F := by
  unfold addParameter
  refine Runs.bind ((runs_paramsStruct h).mono fun struct w₁ h₁ => ?_)
  refine Runs.bind ((runs_makes makes_freshCompanions h₁).mono fun c w₂ h₂ => ?_)
  have hparam : ∀ (x : Symbol) {type : Build NodeId}, (regime d p).mode.Yields type [] →
      (regime d p).mode.Makes (do Build.variableSym .parameter x (← type) 0 []) [] fun id => [id] :=
    fun x _ hm => (Helper.yields_parameter x hm).makes
  refine Runs.bind ((h₂.makes (u := []) (fun _ _ => trivial) (hparam c.plane1 .texture2d)).mono
    fun plane w₃ h₃ => ?_)
  refine Runs.bind (h₃.insertAfter.mono fun _ w₄ h₄ => ?_)
  refine Runs.bind ((h₄.makes (u := []) (fun _ _ => trivial)
    (hparam c.params (.type (t := .named struct) trivial (by simp) rfl))).mono fun params w₅ h₅ =>
      ?_)
  exact Runs.bind (h₅.insertAfter.mono fun _ w₆ h₆ => runs_remember id c h₆)

theorem runs_passOn (arg : NodeId) (h : (regime d p).Ready p hs w F) :
    Runs (passOn p arg) w Regime.any fun _ w' => (regime d p).Ready p hs w' F := by
  unfold passOn companionsOf
  refine Runs.bind (Runs.bind ((runs_getState h).mono fun m w₁ h₁ => Runs.pure w₁.2 ?_))
  split
  · next c _ =>
    refine Runs.bind
      ((h₁.makes (u := []) (fun _ _ => trivial) (Yields.identSym c.plane1).makes).mono
      fun plane w₂ h₂ => ?_)
    refine Runs.bind (h₂.insertAfter.mono fun _ w₃ h₃ => ?_)
    refine Runs.bind
      ((h₃.makes (u := []) (fun _ _ => trivial) (Yields.identSym c.params).makes).mono
      fun params w₄ h₄ => ?_)
    exact h₄.insertAfter
  · exact Runs.pure w₁.2 h₁

theorem runs_addCall {id target : NodeId} {args : List NodeId} (call : ExprFacts)
    (hs : p.shape? id = some (.expr (.call target args))) (h : (regime d p).Ready p families w F) :
    Runs (addCall p id args call) w Regime.any fun _ w' => (regime d p).Ready p families w' F := by
  unfold addCall
  split
  · exact Runs.bind (Runs.forIn (fun _ w => (regime d p).Ready p families w F) h
      (fun arg _ w _ hw => Runs.yield (runs_passOn arg hw)) fun w hw => Runs.pure w.2 hw)
  · split
    · next texture rest hargs =>
      unfold companionsOf
      refine Runs.bind (Runs.bind ((runs_getState h).mono fun m w₁ h₁ => Runs.pure w₁.2 ?_))
      split
      · next c _ =>
        dsimp only
        split
        · next fetch _ =>
          exact h₁.replaceWith ⟨fetch, c, target, _, rfl, hs⟩
        · exact Runs.pure w₁.2 h₁
      · exact Runs.pure w₁.2 h₁
    · exact Runs.pure w.2 h

theorem runs_work (hp : p.Fit) (hc : d.counted → p.Counted) :
    Runs (work p inputs) ((Session.start p {}, fun _ => 0) : World Use Made) (fun _ => True)
      fun out w => (regime d p).Done p out w.1.target := by
  unfold work
  refine Runs.bind (Work.runs_need trivial fun points _ => ?_)
  refine Runs.bind (Runs.forIn (fun _ w => (regime d p).Ready p [] w [])
    (.start hp (fun _ => trivial) fun _ => rfl) (fun id _ w _ hw => ?_) fun w hw => ?_)
  · split
    · exact Runs.yield (runs_addGlobal points _ hw)
    · exact Runs.pure w.2 ⟨rfl, hw⟩
  refine Runs.bind (Work.runs_edit ?_)
  refine Runs.bind (Runs.forIn (fun _ w => (regime d p).Ready p [] w []) hw (fun id _ w _ hw => ?_)
    fun w hw => ?_)
  · split
    · exact Runs.yield (runs_addParameter id hw)
    · exact Runs.pure w.2 ⟨rfl, hw⟩
  refine Runs.bind (hw.replaceAll.mono fun _ w₁ h₁ => ?_)
  refine Runs.bind (h₁.replaceAll.mono fun _ w₂ h₂ => ?_)
  refine Runs.bind
    (Runs.forIn (fun _ w => (regime d p).Ready p families w []) h₂ (fun id _ w _ hw => ?_)
    fun w hw => ?_)
  · split
    · exact Runs.yield hw.remove
    · exact Runs.pure w.2 ⟨rfl, hw⟩
  refine Runs.bind
    (Runs.forIn (fun _ w => (regime d p).Ready p families w []) hw (fun id _ w _ hw => ?_)
    fun w hw => ?_)
  · split
    · next target args call hs _ => exact Runs.yield (runs_addCall call hs hw)
    · exact Runs.pure w.2 ⟨rfl, hw⟩
  exact (hw.copyModule (fun _ _ => trivial) hp hc (handled hp hw)).mono fun _ w' h =>
    Runs.pure w'.2 ⟨h, fun _ _ _ => rfl⟩

end Register
end ShaderLoom.Planes
