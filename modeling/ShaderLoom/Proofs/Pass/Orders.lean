import Mathlib.Data.List.Dedup
import ShaderLoom.Proofs.Copy.Trim
import ShaderLoom.Proofs.Document.RoundTrip
import ShaderLoom.Proofs.Meaning.CallGraph
import ShaderLoom.Proofs.Pass.Registration

/-! Sets that are gone through in no particular order. Resolution tells the functions that an entry
point reaches about it, and reading the number of workgroups from a buffer registers the parameters,
members and attributes that go away. Whatever the orders are, the programs that come out are the
same. -/
namespace ShaderLoom

/-- An order in which the elements of a list are gone through, for every list. -/
structure Choice (α : Type) where
  order : List α → List α
  perm : ∀ l, (order l).Perm l

def Choice.reverse {α : Type} : Choice α := ⟨List.reverse, List.reverse_perm⟩

section Modify

open Std.DTreeMap.Internal (Impl)

variable {β : Type} (f : β → β) (i j : NodeId)

/-- A value is modified at its key. -/
theorem modify_inner (size : Nat) (k : NodeId) (v : β) (l r : Impl NodeId fun _ => β) :
    Impl.Const.modify i f (.inner size k v l r) = match compare i k with
      | .lt => .inner size k v (Impl.Const.modify i f l) r
      | .gt => .inner size k v l (Impl.Const.modify i f r)
      | .eq => .inner size k (f v) l r := by
  cases h : compare i k with
  | eq =>
    obtain rfl := Nat.compare_eq_eq.1 h
    simp only [Impl.Const.modify, h]
  | _ => simp only [Impl.Const.modify, h]

theorem modify_modify (t : Impl NodeId fun _ => β) :
    Impl.Const.modify j f (Impl.Const.modify i f t) =
    Impl.Const.modify i f (Impl.Const.modify j f t) := by
  induction t with
  | leaf => rfl
  | inner size k v l r ihl ihr =>
    cases hi : compare i k <;> cases hj : compare j k <;> simp only [modify_inner, hi, hj, ihl, ihr]

/-- A map to which the same is done at two keys. -/
theorem NodeMap.modify_comm (m : NodeMap β) :
    (m.modify i f).modify j f = (m.modify j f).modify i f := by
  obtain ⟨⟨t, ht⟩⟩ := m
  simp only [Std.TreeMap.modify, Std.DTreeMap.Const.modify, Std.TreeMap.mk.injEq,
    Std.DTreeMap.mk.injEq]
  exact modify_modify f i j t

theorem NodeMap.foldl_modify_perm {is js : List NodeId} (h : is.Perm js) (m : NodeMap β) :
    is.foldl (fun m i => m.modify i f) m = js.foldl (fun m i => m.modify i f) m :=
  h.foldl_eq' (fun i _ j _ m => modify_comm f i j m) m

end Modify

namespace Facts

/-- Adds the summary of one function, and tells the set of functions that it reaches in some
order. -/
def summarizeOneIn (c : Choice NodeId) (globals : List NodeId) (f : Facts) (id : NodeId) : Facts :=
  match f.functions[id]? with
  | none => f
  | some g =>
    let reached := f.reachedFunctions globals id
    let f := { f with functions := f.functions.modify id fun g =>
      { g with transitiveGlobals := g.transitiveGlobals ++ f.globalsOf reached } }
    if g.isEntryPoint then
      { f with
        entryPoints := f.entryPoints ++ [id]
        functions := ((c.order reached.dedup).filter (· != id)).foldl (fun fs r =>
          fs.modify r fun g => { g with ancestors := g.ancestors ++ [id] }) f.functions }
    else f

/-- Adds the summaries of a module, with an order for each entry point. -/
def summarizeIn (cs : Nat → Choice NodeId) (f : Facts) (globals : List NodeId) : Facts :=
  globals.foldl (fun f id => f.summarizeOneIn (cs f.entryPoints.length) globals id) f

theorem summarizeOneIn_eq (c : Choice NodeId) (globals : List NodeId) (f : Facts) (id : NodeId) :
    f.summarizeOneIn c globals id = f.summarizeOne globals id := by
  have hset : (f.reachedFunctions globals id).dedup = f.reachedFunctions globals id :=
    (f.reachedFunctions_nodup globals id).dedup
  have hperm := (c.perm (f.reachedFunctions globals id)).filter (· != id)
  unfold summarizeOneIn summarizeOne
  cases f.functions[id]? with
  | none => rfl
  | some g =>
    dsimp only
    rw [hset, NodeMap.foldl_modify_perm (fun g : FunctionFacts =>
      { g with ancestors := g.ancestors ++ [id] }) hperm]

theorem summarizeIn_eq (cs : Nat → Choice NodeId) (f : Facts) (globals : List NodeId) :
    f.summarizeIn cs globals = f.summarize globals := by
  unfold summarizeIn summarize
  simp only [summarizeOneIn_eq]

end Facts

/-! Everything that a module says, with orders for its summaries. -/

/-- Resolves a module as `Resolve.module` does. -/
def Resolve.moduleIn (cs : Nat → Choice NodeId) (c : Scene) (globals : List NodeId) :
    Resolve Unit := do
  for id in globals do
    if (c.arena.function? id).isNone then declaration c id
  for id in globals do
    if let some f := c.arena.function? id then signature c id f
  for id in globals do
    if let some f := c.arena.function? id then body c id f
  mapFacts (·.summarizeIn cs globals)

def resolveIn (cs : Nat → Choice NodeId) (a : Arena) (globals : List NodeId) (held : Nat) :
    Facts × Diagnostics :=
  let (frame, ds) := globals.foldl (Resolve.collect a) ([], [])
  let scene : Scene := ⟨a, frame, (held + 2) * (held + 2)⟩
  let r := ((Resolve.moduleIn cs scene globals).run { diagnostics := ds }).2
  (r.facts, r.diagnostics)

def Builder.buildIn (cs : Nat → Choice NodeId) (b : Builder) : Program :=
  let nodes := b.nodes.push ⟨.module b.globals, b.span⟩
  let arena : Arena := ⟨nodes, b.symbols⟩
  let tree : Program := { arena with root := nodes.size, parents := arena.parentsOf nodes.size }
  let (facts, found) := if b.diagnostics.hasErrors then ({}, [])
    else resolveIn cs arena b.globals tree.treeIds.length
  { tree with facts, diagnostics := b.diagnostics ++ found }

def Document.Module.decodeIn (cs : Nat → Choice NodeId) (m : Module) : Except DecodeError Program :=
  if m.version ≠ 0 ∧ m.version ≠ formatVersion then .error (.unsupportedVersion m.version)
  else match Decode.globals 0 m.globals {} with
    | .ok () b => .ok (b.buildIn cs)
    | .error e _ => .error e

def Result.outcomeIn {κ : Type} {π : κ → Type} (cs : Nat → Choice NodeId) (r : Result κ π)
    (name : String) (p : Program) : Except Misuse (Outcome κ π) :=
  match r.ending with
  | .misused m => .error m
  | .failed e =>
    .ok ⟨p.withDiagnostics [Diagnostic.errorAt .transform e.diagnosticText {}], r.outputs⟩
  | .finished target copied =>
    if copied then .ok ⟨target.buildIn cs, r.outputs⟩ else .error (.moduleNotCopied name)

def Pass.applyIn (cs : Nat → Choice NodeId) (t : Pass) (p : Program) (inputs : Data) :
    Except Misuse Output :=
  if !p.valid then .ok ⟨p, {}⟩ else (t.run p inputs).outcomeIn cs t.name p

theorem Builder.buildIn_eq (cs : Nat → Choice NodeId) : Builder.buildIn cs = Builder.build := by
  have hmodule : Resolve.moduleIn cs = Resolve.module := by
    funext c globals
    have hsummary : (fun f : Facts => f.summarizeIn cs globals) = fun f => f.summarize globals :=
      funext fun f => f.summarizeIn_eq cs globals
    unfold Resolve.moduleIn Resolve.module
    rewrite [hsummary]
    rfl
  have hresolve : resolveIn cs = resolve := by
    funext a globals held
    simp only [resolveIn, resolve, hmodule]
  funext b
  simp only [buildIn, build, hresolve]

theorem Document.Module.decodeIn_eq (cs : Nat → Choice NodeId) (m : Module) :
    m.decodeIn cs = m.decode := by
  unfold decodeIn decode
  rewrite [Builder.buildIn_eq]
  rfl

namespace Workgroups

open Copy

variable {p : Program} {buffer : Symbol} {plan plan' : Plan}

/-- Plans that go through the same sets. -/
structure Plan.Same (plan plan' : Plan) : Prop where
  params : plan.params.Perm plan'.params
  members : ∀ i, i ∈ plan.members ↔ i ∈ plan'.members
  attributes : ∀ i, i ∈ plan.attributes ↔ i ∈ plan'.attributes

/-- What a sensible plan registers does not depend on orders. -/
theorem carryOut_same (hp : p.Explained) (hplan : plan.Sensible p) (h : plan.Same plan')
    {s : Session Use Unit} (hs : s.source = p) (hfree : ∀ i, s.replacements i = none) :
    carryOut p buffer plan s = carryOut p buffer plan' s := by
  have hselects : plan.selects p = plan'.selects p := by
    funext i
    unfold Plan.selects
    cases p.facts.member? i with
    | none => rfl
    | some m =>
      rw [Option.any_some, Option.any_some, Bool.eq_iff_iff, List.contains_iff_mem,
        List.contains_iff_mem]
      exact h.members m.decl
  refine (marks_carryOut p buffer plan).eq (marks_carryOut p buffer plan') (fun i => ?_) ?_
    (markable_plan hp hplan buffer) hs hfree
  · simp only [Plan.left, List.mem_append, h.members, h.attributes, (h.params.map (·.decl)).mem_iff]
  · rw [Plan.changes, Plan.changes, hselects]
    exact (h.params.flatMap_right _).append_right _

/-- Orders for the sets of a plan. -/
structure Orders where
  params : Choice DroppedParam
  members : Choice NodeId
  attributes : Choice NodeId

/-- The plan with its sets in some order. -/
def Plan.inOrder (o : Orders) (plan : Plan) : Plan where
  params := o.params.order plan.params
  members := o.members.order plan.members.dedup
  attributes := o.attributes.order plan.attributes.dedup

theorem Plan.same_inOrder (o : Orders) (plan : Plan) : plan.Same (plan.inOrder o) where
  params := (o.params.perm _).symm
  members i := by simp [inOrder, (o.members.perm _).mem_iff]
  attributes i := by simp [inOrder, (o.attributes.perm _).mem_iff]

theorem bind_congr_at {α β : Type} {step : Work Use Unit α} {next next' : α → Work Use Unit β}
    {s : Session Use Unit} (h : ∀ a t, step s = .ok a t → next a t = next' a t) :
    (step >>= next) s = (step >>= next') s := by
  simp only [bind, EStateM.bind]
  cases hs : step s with
  | ok a t => exact h a t hs
  | error e t => rfl

/-- The work of the pass, which goes through its sets in some order. -/
def workIn (o : Orders) (p : Program) (inputs : Data) : Work Use Unit Data := do
  let point ← Work.need (.missingData name) (inputs.get? .numWorkgroups)
  let plan := planned p
  unless plan.params.isEmpty && plan.members.isEmpty do
    let buffer ← Work.build (declareBuffer point)
    Work.edit (carryOut p buffer (plan.inOrder o))
  Work.edit (Edit.copyModule (Edit.copy act))
  return {}

def passIn (o : Orders) : Pass :=
  { pass with run := fun p inputs => (workIn o p inputs).perform p () }

/-- Steps on the target leave alone what is registered. -/
theorem registered_build {α : Type} {step : Build α} {a : α} {s t : Session Use Unit}
    (h : Work.build step s = .ok a t) : t.source = s.source ∧ t.replacements = s.replacements := by
  unfold Work.build Work.edit Edit.build at h
  cases hs : step s.target with
  | ok x b =>
    simp only [hs] at h
    cases h
    exact ⟨rfl, rfl⟩
  | error e b =>
    simp only [hs] at h
    cases h

theorem workIn_eq (o : Orders) (hp : p.Explained) (inputs : Data) :
    workIn o p inputs (Session.start p ()) = work p inputs (Session.start p ()) := by
  unfold workIn work
  refine bind_congr_at fun point s hs => ?_
  have hstart : s = Session.start p () := by
    cases hdata : inputs.get? .numWorkgroups with
    | none =>
      simp only [hdata] at hs
      cases hs
    | some x =>
      simp only [hdata] at hs
      cases hs
      rfl
  subst hstart
  dsimp only
  split
  · rfl
  refine bind_congr_at fun buffer s hs => ?_
  obtain ⟨hsource, hreplacements⟩ := registered_build hs
  have hsame : Work.edit (carryOut p buffer ((planned p).inOrder o)) s =
      Work.edit (carryOut p buffer (planned p)) s := by
    unfold Work.edit
    rw [carryOut_same hp (sensible_planned p) ((planned p).same_inOrder o) hsource fun i =>
      congrFun hreplacements i]
  simp only [bind, EStateM.bind, hsame]

/-- No order shows in what the pass makes of a program. -/
theorem applyIn_eq (cs : Nat → Choice NodeId) (o : Orders) (hp : p.Explained) (inputs : Data) :
    (passIn o).applyIn cs p inputs = pass.apply p inputs := by
  have hrun : (passIn o).run p inputs = pass.run p inputs := by
    change (workIn o p inputs).perform p () = (work p inputs).perform p ()
    unfold Work.perform
    rw [workIn_eq o hp inputs]
  unfold Pass.applyIn Pass.apply Result.outcomeIn Result.outcome
  rewrite [hrun, Builder.buildIn_eq]
  rfl

/-- Orders in which sets are gone through never show. A valid program of a document is the same in
whatever order resolution tells the functions that entry points reach, and so is all that the pass
makes of it, in whatever order it goes through the parameters, members and attributes that go away:
tree, text, diagnostics and what is told. -/
theorem orders_never_show {m : Document.Module} {p : Program} (h : m.decode = .ok p)
    (hv : p.valid = true) (inputs : Data) (cs cs' : Nat → Choice NodeId) (o : Orders) :
    m.decodeIn cs = .ok p ∧ (passIn o).applyIn cs' p inputs = pass.apply p inputs := by
  refine ⟨by rw [m.decodeIn_eq, h], ?_⟩
  obtain ⟨b, hgood, _, _, _, rfl⟩ := Document.decode_good h
  have hfit := hgood.toFit
  have htree := hfit.build.treeShaped (hgood.counted_build trivial)
  exact applyIn_eq cs' o (Program.explained_build hv hfit htree) inputs

/-- Two entry points that call `shared`, which calls `leaf`. The first one takes the number of
workgroups and a structure `Grid` of it, the second one a structure `Inputs` of it and an index. -/
def sharing : Document.Module where
  globals := [
    some { kind := "Struct", name := "Grid",
           members := [some (member "size" size "num_workgroups")] },
    some { kind := "Struct", name := "Inputs", members := [
      some (member "size" size "num_workgroups"),
      some (member "index" { kind := "U32" } "local_invocation_index")] },
    some (function "leaf" [] [] []),
    some (function "shared" [] [some (called "leaf")] []),
    some (function "first" [
      some { kind := "Parameter", name := "count", type := some size,
             attributes := [some (builtin "num_workgroups")] },
      some { kind := "Parameter", name := "grid",
             type := some { kind := "TypeName", name := "Grid" } }]
      [some (called "shared"), some (kept "count"), some (kept "grid")] compute),
    some (function "second"
      [some { kind := "Parameter", name := "inputs",
              type := some { kind := "TypeName", name := "Inputs" } }]
      [some (called "shared"), some (kept "inputs")] compute)]
where
  size : Document.Record := { kind := "Vector", elem := some { kind := "U32" }, width := 3 }
  builtin (b : String) : Document.Record := { kind := "BuiltinAttribute", builtin := b }
  member (name : String) (type : Document.Record) (b : String) : Document.Record :=
    { kind := "StructMember", name, type := some type, attributes := [some (builtin b)] }
  called (name : String) : Document.Record :=
    { kind := "CallStatement",
      call := some { kind := "Call", target := some { kind := "Ident", name } } }
  kept (name : String) : Document.Record :=
    { kind := "VarDecl"
      var := some { kind := "Let", name := name ++ "1"
                    initializer := some { kind := "Ident", name } } }
  compute : List (Option Document.Record) := [some { kind := "StageAttribute", stage := "compute" },
    some { kind := "WorkgroupAttribute", x := some { kind := "IntLiteral", int := some 1 } }]
  function (name : String) (params body attributes : List (Option Document.Record)) :
    Document.Record :=
    { kind := "Function", name, params, body := some { kind := "Block", statements := body },
      attributes }

theorem orders_never_show_sharing :
    ∃ p, sharing.decode = .ok p ∧ p.valid = true ∧ (planned p).params.length = 2 ∧
    sharing.decodeIn (fun _ => .reverse) = .ok p ∧ ∀ inputs,
      (passIn ⟨.reverse, .reverse, .reverse⟩).applyIn (fun _ => .reverse) p inputs =
      pass.apply p inputs := by
  have hok : (sharing.decode.toOption.any fun p => p.valid && (planned p).params.length == 2) =
      true := by
    decide +kernel
  cases hp : sharing.decode with
  | error e => simp [hp, Except.toOption] at hok
  | ok p =>
    simp only [hp, Except.toOption, Option.any_some, Bool.and_eq_true, beq_iff_eq] at hok
    have h := fun inputs => orders_never_show hp hok.1 inputs (fun _ => .reverse)
      (fun _ => .reverse) ⟨.reverse, .reverse, .reverse⟩
    exact ⟨p, rfl, hok.1, hok.2, (h {}).1, fun inputs => (h inputs).2⟩

end Workgroups
end ShaderLoom
