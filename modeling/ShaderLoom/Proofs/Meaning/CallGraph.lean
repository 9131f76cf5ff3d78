import ShaderLoom.Proofs.Meaning.Recorded

/-! What functions reach through calls. The walk of the call graph meets just those functions to
which some chain of calls leads, so that the summary of a function lists each variable of the module
once that it uses itself or through calls, recursive ones included. -/
namespace ShaderLoom

section Walk

variable {next : NodeId → List NodeId} {all : List NodeId}

/-- How many steps lead on from the nodes that a walk has not met yet. -/
def stepsAhead (next : NodeId → List NodeId) (all seen : List NodeId) : Nat :=
  (all.flatMap fun i => if i ∈ seen then [] else next i).length

/-- Meeting a node takes its steps off the account. -/
theorem stepsAhead_snoc {seen : List NodeId} {i : NodeId} (hi : i ∉ seen)
    (hnext : next i ≠ [] → i ∈ all) :
    (next i).length + stepsAhead next all (seen ++ [i]) ≤ stepsAhead next all seen := by
  have hle : ∀ js : List NodeId,
      (if i ∈ js then (next i).length else 0) + stepsAhead next js (seen ++ [i]) ≤
      stepsAhead next js seen := by
    intro js
    induction js with
    | nil => simp [stepsAhead]
    | cons j js ih =>
      have hsame : j ∈ seen ++ [i] ↔ j ∈ seen ∨ j = i := by simp
      simp only [stepsAhead, List.flatMap_cons, List.length_append, hsame, List.mem_cons (b := j)]
        at ih ⊢
      by_cases hji : j = i
      · subst hji
        simp only [hi, true_or, or_true, if_true, if_false, List.length_nil]
        split at ih <;> omega
      · have hij : i ≠ j := fun h => hji h.symm
        simp only [hji, hij, or_false, false_or]
        omega
  by_cases hnone : next i = []
  · have := hle all
    simp only [hnone, List.length_nil] at this ⊢
    omega
  · simpa [hnext hnone] using hle all

/-- A walk with a bound that is large enough keeps what it has met, meets all it is still to meet,
and leaves no step untried. -/
theorem reachFrom_closed (hnext : ∀ i, next i ≠ [] → i ∈ all) {n : Nat} {work seen : List NodeId}
    (hn : work.length + stepsAhead next all seen ≤ n)
    (hseen : ∀ i ∈ seen, ∀ j ∈ next i, j ∈ seen ∨ j ∈ work) :
    (∀ i, i ∈ seen ∨ i ∈ work → i ∈ reachFrom next n work seen) ∧
      ∀ i ∈ reachFrom next n work seen, ∀ j ∈ next i, j ∈ reachFrom next n work seen := by
  induction n generalizing work seen with
  | zero =>
    obtain rfl : work = [] := List.eq_nil_of_length_eq_zero (by omega)
    simpa [reachFrom] using hseen
  | succ n ih =>
    cases work with
    | nil => simpa [reachFrom] using hseen
    | cons i work =>
      rw [reachFrom]
      simp only [List.length_cons] at hn
      split
      · next hi =>
        have hi : i ∈ seen := by simpa using hi
        have hmet : ∀ k ∈ seen, ∀ j ∈ next k, j ∈ seen ∨ j ∈ work := fun k hk j hj =>
          (hseen k hk j hj).elim .inl fun hj =>
            (List.mem_cons.1 hj).elim (fun h => .inl (h ▸ hi)) .inr
        obtain ⟨hall, hclosed⟩ := ih (by omega) hmet
        refine ⟨fun k hk => hall k ?_, hclosed⟩
        rcases hk with hk | hk
        · exact .inl hk
        · exact (List.mem_cons.1 hk).elim (fun h => .inl (h ▸ hi)) .inr
      · next hi =>
        have hi : i ∉ seen := by simpa using hi
        have hsnoc := stepsAhead_snoc hi (hnext i)
        have hmet : ∀ k ∈ seen ++ [i], ∀ j ∈ next k, j ∈ seen ++ [i] ∨ j ∈ next i ++ work := by
          intro k hk j hj
          rcases List.mem_append.1 hk with hk | hk
          · rcases hseen k hk j hj with hj | hj
            · exact .inl (List.mem_append_left _ hj)
            · rcases List.mem_cons.1 hj with rfl | hj
              · exact .inl (by simp)
              · exact .inr (List.mem_append_right _ hj)
          · rw [List.mem_singleton.1 hk] at hj
            exact .inr (List.mem_append_left _ hj)
        obtain ⟨hall, hclosed⟩ := ih (by rw [List.length_append]; omega) hmet
        refine ⟨fun k hk => hall k ?_, hclosed⟩
        rcases hk with hk | hk
        · exact .inl (List.mem_append_left _ hk)
        · rcases List.mem_cons.1 hk with rfl | hk
          · exact .inl (by simp)
          · exact .inr (List.mem_append_right _ hk)

/-- The walk without a bound: it goes on for as long as there is work. -/
inductive Strolls (next : NodeId → List NodeId) : List NodeId → List NodeId → List NodeId → Prop
  | done {seen} : Strolls next [] seen seen
  | again {i work seen out} : i ∈ seen → Strolls next work seen out →
    Strolls next (i :: work) seen out
  | enter {i work seen out} : i ∉ seen → Strolls next (next i ++ work) (seen ++ [i]) out →
    Strolls next (i :: work) seen out

/-- A walk with a bound that is large enough ends by itself. -/
theorem strolls_reachFrom (hnext : ∀ i, next i ≠ [] → i ∈ all) {n : Nat} {work seen : List NodeId}
    (hn : work.length + stepsAhead next all seen ≤ n) :
    Strolls next work seen (reachFrom next n work seen) := by
  induction n generalizing work seen with
  | zero =>
    obtain rfl : work = [] := List.eq_nil_of_length_eq_zero (by omega)
    exact .done
  | succ n ih =>
    cases work with
    | nil => exact .done
    | cons i work =>
      rw [reachFrom]
      simp only [List.length_cons] at hn
      split
      · next hi => exact .again (by simpa using hi) (ih (by omega))
      · next hi =>
        have hi : i ∉ seen := by simpa using hi
        have hsnoc := stepsAhead_snoc hi (hnext i)
        exact .enter hi (ih (by rw [List.length_append]; omega))

/-- A walk meets no node twice. -/
theorem reachFrom_nodup {n : Nat} {work seen : List NodeId} (h : seen.Nodup) :
    (reachFrom next n work seen).Nodup := by
  induction n generalizing work seen with
  | zero => exact h
  | succ n ih =>
    cases work with
    | nil => exact h
    | cons i work =>
      rw [reachFrom]
      split
      · exact ih h
      · next hi =>
        have hnew : ∀ j ∈ seen, j ≠ i := fun j hj he => hi (by simpa [he] using hj)
        exact ih (List.nodup_append.2 ⟨h, List.nodup_singleton _, by simpa using hnew⟩)

/-- A walk meets nothing but what its steps lead to. -/
theorem reachFrom_sound {n : Nat} {work seen : List NodeId} {i : NodeId}
    (hi : i ∈ reachFrom next n work seen) :
    i ∈ seen ∨ ∃ w ∈ work, Relation.ReflTransGen (fun i j => j ∈ next i) w i := by
  induction n generalizing work seen with
  | zero => exact .inl hi
  | succ n ih =>
    cases work with
    | nil => exact .inl hi
    | cons w work =>
      rw [reachFrom] at hi
      split at hi
      · exact (ih hi).imp_right fun ⟨v, hv, h⟩ => ⟨v, List.mem_cons_of_mem _ hv, h⟩
      · rcases ih hi with hseen | ⟨v, hv, h⟩
        · rcases List.mem_append.1 hseen with hseen | hseen
          · exact .inl hseen
          · exact .inr ⟨w, List.mem_cons_self, List.mem_singleton.1 hseen ▸ .refl⟩
        · rcases List.mem_append.1 hv with hv | hv
          · exact .inr ⟨w, List.mem_cons_self, h.head hv⟩
          · exact .inr ⟨v, List.mem_cons_of_mem _ hv, h⟩

end Walk

namespace Facts

variable {f : Facts} {gs : List NodeId} {i j : NodeId} {n : VariableId}

/-- A chain of calls, possibly of none, leads from one function to another. -/
def Reaches (f : Facts) : NodeId → NodeId → Prop :=
  Relation.ReflTransGen fun i j => j ∈ f.calleesOf i

/-- A function uses a variable of the module, itself or through a chain of calls. -/
def UsesGlobal (f : Facts) (i : NodeId) (n : VariableId) : Prop :=
  ∃ j, f.Reaches i j ∧ n ∈ f.directGlobalsOf j

/-- The bound of the walk is large enough if functions are declarations of the module. -/
theorem bound_reachedFunctions (f : Facts) (gs : List NodeId) (i : NodeId) :
    [i].length + stepsAhead f.calleesOf gs [] ≤
    gs.foldl (fun n g => n + (f.calleesOf g).length) 0 + 2 := by
  have hcalls : ∀ (js : List NodeId) (n : Nat), js.foldl (fun n g => n + (f.calleesOf g).length) n =
      n + stepsAhead f.calleesOf js [] := by
    intro js
    induction js with
    | nil => exact fun _ => rfl
    | cons j js ih =>
      intro n
      rw [List.foldl_cons, ih]
      simp [stepsAhead, Nat.add_assoc]
  rw [hcalls, List.length_singleton]
  omega

theorem strolls_reachedFunctions (h : ∀ i, f.calleesOf i ≠ [] → i ∈ gs) (i : NodeId) :
    Strolls f.calleesOf [i] [] (f.reachedFunctions gs i) :=
  strolls_reachFrom h (f.bound_reachedFunctions gs i)

theorem reachedFunctions_nodup (f : Facts) (gs : List NodeId) (i : NodeId) :
    (f.reachedFunctions gs i).Nodup :=
  reachFrom_nodup List.nodup_nil

theorem mem_reachedFunctions (h : ∀ i, f.calleesOf i ≠ [] → i ∈ gs) :
    j ∈ f.reachedFunctions gs i ↔ f.Reaches i j := by
  obtain ⟨hall, hclosed⟩ := reachFrom_closed h (f.bound_reachedFunctions gs i) fun _ hk =>
    absurd hk List.not_mem_nil
  refine ⟨fun hj => ?_, fun hj => ?_⟩
  · obtain ⟨w, hw, hreach⟩ := (reachFrom_sound hj).resolve_left List.not_mem_nil
    exact List.mem_singleton.1 hw ▸ hreach
  · induction hj with
    | refl => exact hall i (.inr (List.mem_singleton.2 rfl))
    | tail _ hstep ih => exact hclosed _ ih _ hstep

/-- A list of variables lists those of the functions, each once. -/
theorem globalsOf_spec (f : Facts) (is : List NodeId) :
    (f.globalsOf is).Nodup ∧ ∀ n, n ∈ f.globalsOf is ↔ ∃ i ∈ is, n ∈ f.directGlobalsOf i := by
  have hfold : ∀ (ns seen : List VariableId), seen.Nodup →
      (ns.foldl (fun seen g => if seen.contains g then seen else seen ++ [g]) seen).Nodup ∧
      ∀ n, n ∈ ns.foldl (fun seen g => if seen.contains g then seen else seen ++ [g]) seen ↔
        n ∈ seen ∨ n ∈ ns := by
    intro ns
    induction ns with
    | nil => exact fun seen h => ⟨h, by simp⟩
    | cons m ns ih =>
      intro seen h
      rw [List.foldl_cons]
      split
      · next hm =>
        have hm : m ∈ seen := by simpa using hm
        refine ⟨(ih seen h).1, fun n => ?_⟩
        rw [(ih seen h).2, List.mem_cons]
        grind
      · next hm =>
        have hm : m ∉ seen := by simpa using hm
        have h' : (seen ++ [m]).Nodup := List.nodup_append.2 ⟨h, List.nodup_singleton _, by grind⟩
        refine ⟨(ih _ h').1, fun n => ?_⟩
        rw [(ih _ h').2, List.mem_append, List.mem_singleton, List.mem_cons, or_assoc]
  obtain ⟨hnodup, hmem⟩ := hfold (is.flatMap f.directGlobalsOf) [] List.nodup_nil
  refine ⟨hnodup, fun n => (hmem n).trans ?_⟩
  simp

/-- Functions call the same functions and use the same variables. -/
structure SameCalls (f f' : Facts) : Prop where
  callees : f'.calleesOf = f.calleesOf
  globals : f'.directGlobalsOf = f.directGlobalsOf

/-- Facts that differ in nothing but what summaries are about. -/
theorem SameCalls.of_views {f' : Facts} (h : ∀ {β : Type} (view : FunctionFacts → β),
    (∀ x globals ancestors, view { x with transitiveGlobals := globals, ancestors } = view x) →
    ∀ i : NodeId, (f'.functions[i]?).map view = (f.functions[i]?).map view) : f.SameCalls f' :=
  ⟨funext fun i => congrArg (Option.getD · []) (h (·.callees) (fun _ _ _ => rfl) i),
    funext fun i => congrArg (Option.getD · []) (h (·.directGlobals) (fun _ _ _ => rfl) i)⟩

theorem sameCalls_summarizeOne (f : Facts) (gs : List NodeId) (id : NodeId) :
    f.SameCalls (f.summarizeOne gs id) :=
  .of_views fun _ hview i => Resolve.view_summarizeOne hview f gs id i

theorem sameCalls_summarize (f : Facts) (gs : List NodeId) : f.SameCalls (f.summarize gs) :=
  .of_views fun _ hview i => Resolve.view_summarize hview f gs i

/-- The variables that the summary of a function adds. -/
def summaryOf (f : Facts) (gs : List NodeId) (i : NodeId) : List VariableId :=
  f.globalsOf (f.reachedFunctions gs i)

theorem SameCalls.summaryOf {f' : Facts} (h : f.SameCalls f') (gs : List NodeId) :
    f'.summaryOf gs = f.summaryOf gs := by
  funext i
  simp only [Facts.summaryOf, globalsOf, reachedFunctions, h.callees, h.globals]

theorem mem_summaryOf (h : ∀ i, f.calleesOf i ≠ [] → i ∈ gs) :
    n ∈ f.summaryOf gs i ↔ f.UsesGlobal i n := by
  rw [summaryOf, (f.globalsOf_spec _).2]
  simp only [mem_reachedFunctions h, UsesGlobal]

theorem transitiveGlobals_summarizeOne (f : Facts) (gs : List NodeId) (id i : NodeId) :
    ((f.summarizeOne gs id).functions[i]?).map (·.transitiveGlobals) =
      (f.functions[i]?).map fun x =>
        if i = id then x.transitiveGlobals ++ f.summaryOf gs id else x.transitiveGlobals := by
  have hmodify : ((f.functions.modify id fun g =>
      { g with transitiveGlobals := g.transitiveGlobals ++ f.summaryOf gs id })[i]?).map
        (·.transitiveGlobals) =
      (f.functions[i]?).map fun x =>
        if i = id then x.transitiveGlobals ++ f.summaryOf gs id else x.transitiveGlobals := by
    rw [Std.TreeMap.getElem?_modify]
    by_cases hi : id = i
    · subst hi
      simp [Function.comp_def]
    · have hne : i ≠ id := fun h => hi h.symm
      simp [hi, hne]
  unfold summarizeOne
  split
  · next hnone =>
    by_cases hi : i = id
    · simp [hi, hnone]
    · simp [hi]
  · dsimp only
    split
    · exact (Resolve.view_foldl_modify (g := fun g => { g with ancestors := g.ancestors ++ [id] })
        (fun _ => rfl) _ _ i).trans hmodify
    · exact hmodify

theorem entryPoints_summarizeOne (f : Facts) (gs : List NodeId) (id : NodeId) :
    (f.summarizeOne gs id).entryPoints = f.entryPoints ++ if (f.functions[id]?).any
    (·.isEntryPoint) then [id] else [] := by
  unfold summarizeOne
  split
  · next hnone => simp [hnone]
  · next g hg =>
    dsimp only
    split
    · next he => simp [hg, he]
    · next he => simp [hg, he]

/-- One change at each of several entries, none of which is listed twice. -/
theorem foldl_modify {α : Type} {g : α → α} {rs : List NodeId} (hrs : rs.Nodup) (m : NodeMap α)
    (x : NodeId) :
    (rs.foldl (fun m r => m.modify r g) m)[x]? = if x ∈ rs then (m[x]?).map g else m[x]? := by
  induction rs generalizing m with
  | nil => simp
  | cons r rs ih =>
    obtain ⟨hr, hrs⟩ := List.nodup_cons.1 hrs
    rw [List.foldl_cons, ih hrs, Std.TreeMap.getElem?_modify]
    by_cases hx : r = x
    · subst hx
      simp [hr]
    · simp [hx, Ne.symm hx]

/-- An entry point is told to the other functions that it reaches. -/
theorem ancestors_summarizeOne (f : Facts) (gs : List NodeId) (id i : NodeId) :
    ((f.summarizeOne gs id).functions[i]?).map (·.ancestors) = (f.functions[i]?).map fun x =>
      x.ancestors ++
      if (f.functions[id]?).any (·.isEntryPoint) ∧ i ≠ id ∧ i ∈ f.reachedFunctions gs id then
      [id] else [] := by
  have hsame : ((f.functions.modify id fun g =>
      { g with transitiveGlobals := g.transitiveGlobals ++
                 f.globalsOf (f.reachedFunctions gs id) })[i]?).map (·.ancestors) =
      (f.functions[i]?).map (·.ancestors) := by
    refine Resolve.view_modify (v := FunctionFacts.ancestors) (fun g => ?_) id i
    rfl
  unfold summarizeOne
  split
  · next hnone => simp [hnone]
  · next y hy =>
    dsimp only
    split
    · next hentry =>
      rw [foldl_modify ((f.reachedFunctions_nodup gs id).filter _)]
      split
      · next hi =>
        have hi : i ∈ f.reachedFunctions gs id ∧ i ≠ id := by simpa [List.mem_filter] using hi
        have htold := congrArg (Option.map (· ++ [id])) hsame
        simp only [Option.map_map] at htold ⊢
        simpa [hy, hentry, hi, Function.comp_def] using htold
      · next hi =>
        have hi : ¬ (i ≠ id ∧ i ∈ f.reachedFunctions gs id) :=
          fun h => hi (List.mem_filter.2 ⟨h.2, by simpa using h.1⟩)
        simpa [hy, hi] using hsame
    · next hentry => simpa [hy, hentry] using hsame

/-- The entry points among declarations that are told to a function. -/
def tellers (f : Facts) (gs ids : List NodeId) (i : NodeId) : List NodeId :=
  ids.filter fun id => (f.functions[id]?).any (·.isEntryPoint) ∧ i ≠ id ∧
    i ∈ f.reachedFunctions gs id

theorem isEntryPoint_summarizeOne (f : Facts) (gs : List NodeId) (id i : NodeId) :
    ((f.summarizeOne gs id).functions[i]?).any (·.isEntryPoint) =
    (f.functions[i]?).any (·.isEntryPoint) := by
  have h : ((f.summarizeOne gs id).functions[i]?).map (·.isEntryPoint) =
      (f.functions[i]?).map (·.isEntryPoint) :=
    Resolve.view_summarizeOne (fun _ _ _ => rfl) f gs id i
  simpa [Option.any_map, Function.comp_def] using congrArg (Option.any fun x => x) h

/-- What all summaries tell a function. -/
theorem ancestors_summarize (f : Facts) (gs ids : List NodeId) (i : NodeId) :
    ((ids.foldl (summarizeOne gs) f).functions[i]?).map (·.ancestors) =
      (f.functions[i]?).map fun x => x.ancestors ++ f.tellers gs ids i := by
  induction ids generalizing f with
  | nil => simp [tellers]
  | cons id ids ih =>
    have hreached : (f.summarizeOne gs id).reachedFunctions gs = f.reachedFunctions gs := by
      funext j
      simp only [reachedFunctions, (sameCalls_summarizeOne f gs id).callees]
    have htellers : (f.summarizeOne gs id).tellers gs ids i = f.tellers gs ids i := by
      simp only [tellers, isEntryPoint_summarizeOne, hreached]
    have hcomp : ∀ o : Option FunctionFacts, (o.map fun x => x.ancestors ++ f.tellers gs ids i) =
        (o.map (·.ancestors)).map (· ++ f.tellers gs ids i) := fun o => by cases o <;> rfl
    rw [List.foldl_cons, ih, htellers, hcomp, ancestors_summarizeOne, Option.map_map]
    refine congrArg (Option.map · _) (funext fun x => ?_)
    simp only [Function.comp_apply, List.append_assoc]
    refine congrArg (x.ancestors ++ ·) ?_
    rw [tellers, tellers, List.filter_cons]
    by_cases h : (f.functions[id]?).any (·.isEntryPoint) ∧ i ≠ id ∧
      i ∈ f.reachedFunctions gs id <;> simp [h]

/-- What summaries make of declarations that stand once in the module each. -/
theorem summarize_spec (f : Facts) (gs : List NodeId) {ids : List NodeId} (hids : ids.Nodup) :
    (∀ i : NodeId, ((ids.foldl (summarizeOne gs) f).functions[i]?).map (·.transitiveGlobals) =
      (f.functions[i]?).map fun x =>
        if i ∈ ids then x.transitiveGlobals ++ f.summaryOf gs i else x.transitiveGlobals) ∧
    (ids.foldl (summarizeOne gs) f).entryPoints =
      f.entryPoints ++ ids.filter fun i => (f.functions[i]?).any (·.isEntryPoint) := by
  induction ids generalizing f with
  | nil => simp
  | cons id ids ih =>
    obtain ⟨hid, hids⟩ := List.nodup_cons.1 hids
    obtain ⟨hglobals, hentries⟩ := ih (f.summarizeOne gs id) hids
    refine ⟨fun i => ?_, ?_⟩
    · have hone := transitiveGlobals_summarizeOne f gs id i
      rw [List.foldl_cons, hglobals, (sameCalls_summarizeOne f gs id).summaryOf]
      have hcomp : ∀ o : Option FunctionFacts,
          (o.map fun x => if i ∈ ids then x.transitiveGlobals ++ f.summaryOf gs i
            else x.transitiveGlobals) =
          (o.map (·.transitiveGlobals)).map fun ns =>
            if i ∈ ids then ns ++ f.summaryOf gs i else ns := by
        intro o
        cases o <;> rfl
      rw [hcomp, hone, Option.map_map]
      refine congrArg (Option.map · _) (funext fun x => ?_)
      by_cases hi : i = id
      · subst hi
        simp [hid]
      · simp [hi]
    · rw [List.foldl_cons, hentries, entryPoints_summarizeOne, List.filter_cons, List.append_assoc]
      simp only [isEntryPoint_summarizeOne]
      split <;> simp

/-- Facts before anything is summed up. -/
structure Plain (f : Facts) : Prop where
  entries : f.entryPoints = []
  untold : ∀ (i : NodeId) x, f.functions[i]? = some x → x.transitiveGlobals = []

theorem Plain.empty : ({} : Facts).Plain := ⟨rfl, by simp⟩

end Facts

namespace Resolve

variable {a : Arena} {r r' : Resolver}

theorem Change.plain (h : Change a r r') (hr : r.facts.Plain) : r'.facts.Plain := by
  cases h with
  | noted h _ => rwa [h]
  | called functions h =>
    refine ⟨hr.entries, fun i x hx => ?_⟩
    rcases h i x hx with hnone | ⟨y, hy, hsame⟩
    · exact hnone
    · exact hsame.trans (hr.untold i y hy)
  | _ => exact ⟨hr.entries, hr.untold⟩

/-- Everything but the summaries keeps facts plain. -/
theorem plain_of_steps (h : Relation.ReflTransGen (Step a []) r r') (hr : r.facts.Plain) :
    r'.facts.Plain := by
  induction h with
  | refl => exact hr
  | tail _ hs ih =>
    cases hs with
    | change h => exact h.plain ih
    | stmts => exact ⟨ih.entries, ih.untold⟩
    | summary => exact ih

/-- A module is summed up once everything else about it is known. -/
theorem summarized_module (c : Scene) (globals : List NodeId) (hr : r.facts.Plain) :
    Ends (module c globals) r fun _ r' =>
      ∃ f : Facts, f.Plain ∧ r'.facts = f.summarize globals := by
  have hround : ∀ {body : NodeId → PUnit → Resolve (ForInStep PUnit)},
      (∀ id u, Moves (Step c.arena []) (body id u)) →
      ∀ r : Resolver, r.facts.Plain → Ends (forIn globals PUnit.unit body) r fun _ r' =>
        r'.facts.Plain :=
    fun h r hr => (Moves.forIn globals h r).mono fun _ _ hs => plain_of_steps hs hr
  unfold module
  refine .bind ((hround (fun id _ => ?_) r hr).mono fun _ r₁ h₁ =>
    .bind ((hround (fun id _ => ?_) r₁ h₁).mono fun _ r₂ h₂ =>
    .bind ((hround (fun id _ => ?_) r₂ h₂).mono fun _ r₃ h₃ => .modify ⟨_, h₃, rfl⟩)))
  · split
    · exact .bind (moves_declaration c id).steps fun _ => .pure _
    · exact .pure _
  · split
    · exact .bind (moves_signature c id _).steps fun _ => .pure _
    · exact .pure _
  · split
    · exact .bind (steps_body id _) fun _ => .pure _
    · exact .pure _

end Resolve

namespace Program

variable {b : Builder}

/-- The facts of a valid program are plain facts, summed up. -/
theorem facts_build (hv : b.build.valid = true) :
    ∃ f : Facts, f.Plain ∧ b.build.facts = f.summarize b.build.globals := by
  rw [(outcome_build (noErrors_of_valid hv).1).1]
  exact (Resolve.summarized_module b.build.scene b.build.globals .empty).run

/-- What summaries make of a valid program: a function lists each variable of the module once that
it uses itself or through calls, and the functions with a stage are the entry points. -/
theorem summaries_build (hv : b.build.valid = true) (hfit : b.Fit) (ht : b.build.TreeShaped) :
    (∀ (i : NodeId) x, b.build.facts.functions[i]? = some x → x.transitiveGlobals.Nodup ∧
      ∀ n, n ∈ x.transitiveGlobals ↔ b.build.facts.UsesGlobal i n) ∧
    ∀ i, i ∈ b.build.facts.entryPoints ↔ ∃ x, b.build.facts.functions[i]? = some x ∧
      x.isEntryPoint = true := by
  obtain ⟨f, hplain, hf⟩ := facts_build hv
  have hsame : f.SameCalls b.build.facts := hf ▸ f.sameCalls_summarize _
  have hnodup := ht.globals_nodup fun g hg => Nat.ne_of_gt (hfit.build.globals g hg).1
  have hmem : ∀ i : NodeId, (b.build.facts.functions[i]?).isSome → i ∈ b.build.globals := fun i =>
    mem_globals_of_function hv hfit ht
  have hcallees : ∀ i, b.build.facts.calleesOf i ≠ [] → i ∈ b.build.globals := by
    intro i hi
    refine hmem i ?_
    cases h : b.build.facts.functions[i]? with
    | none => simp [Facts.calleesOf, h] at hi
    | some x => rfl
  obtain ⟨hglobals, hentries⟩ := f.summarize_spec b.build.globals hnodup
  rw [← Facts.summarize, ← hf] at hglobals hentries
  refine ⟨fun i x hx => ?_, fun i => ?_⟩
  · have hlist := hglobals i
    rw [hx, Option.map_some] at hlist
    obtain ⟨y, hy, hlist⟩ := Option.map_eq_some_iff.1 hlist.symm
    rw [if_pos (hmem i (by simp [hx])), hplain.untold i y hy, List.nil_append, ← hsame.summaryOf]
      at hlist
    rw [← hlist]
    exact ⟨(Facts.globalsOf_spec _ _).1, fun n => Facts.mem_summaryOf hcallees⟩
  · have hstage : (b.build.facts.functions[i]?).map (·.isEntryPoint) =
        (f.functions[i]?).map (·.isEntryPoint) := by
      rw [hf]
      exact Resolve.view_summarize (fun _ _ _ => rfl) f _ i
    have hany : (f.functions[i]?).any (·.isEntryPoint) = (b.build.facts.functions[i]?).any
        (·.isEntryPoint) := by
      simpa [Option.any_map, Function.comp_def] using congrArg (Option.any fun x => x) hstage.symm
    rw [hentries, hplain.entries, List.nil_append, List.mem_filter, hany, Option.any_eq_true]
    refine ⟨And.right, fun h => ⟨hmem i ?_, h⟩⟩
    obtain ⟨x, hx, _⟩ := h
    simp [hx]

end Program
end ShaderLoom
