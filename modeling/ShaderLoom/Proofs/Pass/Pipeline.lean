import ShaderLoom.Pass.Pipeline

/-! Pipelines as a whole. Running one list of transforms after another is running their
concatenation, wherever one is skipped or fails, if those of the first list leave their inputs
alone; and one that fails ends the run with the program as it was before it, its errors added once,
and nothing of those behind it. -/
namespace ShaderLoom

namespace Exchange

variable {κ : Type} [DecidableEq κ] {π : κ → Type} {d e f : Exchange κ π} {t u : κ} {v w : π t}

theorem has_iff : d.has t = true ↔ t ∈ d.topics := by
  simp [has, topics]

theorem has_put : (d.put t v).has u = (d.has u || decide (t = u)) := by
  rw [Bool.eq_iff_iff]
  simp only [has_iff, topics_put, Bool.or_eq_true, decide_eq_true_eq]
  split
  · next h =>
    refine ⟨.inl, ?_⟩
    rintro (hu | rfl)
    · exact hu
    · exact h
  · simp [eq_comm]

theorem has_put_of_has (h : d.has u = true) : (d.put t v).has u = true := by
  simp [has_put, h]

theorem entries_put_of_has (h : d.has t = true) :
    (d.put t v).entries = d.entries.map fun e => if e.1 = t then ⟨t, v⟩ else e := by
  simp [put, h]

omit [DecidableEq κ] in
theorem ext_entries (h : d.entries = e.entries) : d = e := by
  cases d
  cases e
  exact congrArg _ h

/-- The later payload of a topic counts. -/
theorem put_put : (d.put t v).put t w = d.put t w := by
  apply ext_entries
  rw [entries_put_of_has (by simp [has_put])]
  unfold put
  split
  · simp only [List.map_map]
    refine List.map_congr_left fun e _ => ?_
    by_cases h : e.1 = t <;> simp [h]
  · next h =>
    simp only [List.map_append, List.map_cons, List.map_nil, if_true]
    congr 1
    refine (List.map_congr_left fun e he => ?_).trans (List.map_id _)
    have : e.1 ≠ t := fun ht => h (List.any_eq_true.2 ⟨e, he, by simp [ht]⟩)
    simp [this]

/-- A topic that is there keeps its place, whatever comes before its new payload. -/
theorem put_comm {x : π u} (h : t ≠ u) (hd : d.has t = true) :
    (d.put t v).put u x = (d.put u x).put t v := by
  apply ext_entries
  rw [entries_put_of_has (has_put_of_has hd)]
  by_cases hu : d.has u = true
  · rw [entries_put_of_has (has_put_of_has hu), entries_put_of_has hd, entries_put_of_has hu]
    simp only [List.map_map]
    refine List.map_congr_left fun e _ => ?_
    by_cases het : e.1 = t
    · simp [het, h]
    · by_cases heu : e.1 = u <;> simp [het, heu, h.symm]
  · have hu' : (d.put t v).has u = false := by simp [has_put, hu, h]
    rw [put, hu', if_neg Bool.false_ne_true, entries_put_of_has hd]
    simp [put, hu, h.symm]

/-- Payloads of a topic that come on top of an earlier one may be changed at the end. -/
theorem foldl_put_replaced (l : List ((t : κ) × π t)) (hd : d.has t = true) :
    (l.map fun e => if e.1 = t then ⟨t, v⟩ else e).foldl (fun d e => d.put e.1 e.2) (d.put t v) =
      (l.foldl (fun d e => d.put e.1 e.2) d).put t v := by
  induction l generalizing d with
  | nil => rfl
  | cons x l ih =>
    obtain ⟨u, x⟩ := x
    by_cases h : u = t
    · subst h
      have hstep : (d.put u v).put u v = (d.put u x).put u v := by rw [put_put, put_put]
      simpa [hstep] using ih (has_put_of_has hd)
    · have hstep := put_comm (v := v) (x := x) (Ne.symm h) hd
      simpa [h, hstep] using ih (has_put_of_has hd)

theorem merge_put : d.merge (e.put t v) = (d.merge e).put t v := by
  by_cases h : e.has t = true
  · unfold merge
    rw [entries_put_of_has h]
    rw [has, List.any_eq_true] at h
    obtain ⟨x, hx, ht⟩ := h
    generalize e.entries = l at hx
    induction l generalizing d with
    | nil => cases hx
    | cons y l ih =>
      obtain ⟨u, y⟩ := y
      by_cases hu : u = t
      · subst hu
        have := foldl_put_replaced (d := d.put u y) (v := v) l (by simp [has_put])
        simpa [put_put] using this
      · have hx : x ∈ l := by
          rcases List.mem_cons.1 hx with rfl | hx
          · exact absurd (by simpa using ht) hu
          · exact hx
        simpa [hu] using ih hx
  · have hput : e.put t v = ⟨e.entries ++ [⟨t, v⟩]⟩ := by simp [put, h]
    rw [hput, merge, List.foldl_append]
    rfl

theorem merge_assoc : (d.merge e).merge f = d.merge (e.merge f) := by
  obtain ⟨l⟩ := f
  induction l generalizing e with
  | nil => rfl
  | cons x l ih =>
    have hstep : (d.merge e).merge ⟨x :: l⟩ = ((d.merge e).put x.1 x.2).merge ⟨l⟩ := rfl
    rw [hstep, ← merge_put, ih]
    rfl

end Exchange

section

variable {κ : Type} {π : κ → Type}

namespace Transform

/-- Every run copies the module, unless it fails. -/
def Copies (t : Transform κ π) : Prop :=
  ∀ p inputs, p.valid = true →
    (∃ e, (t.run p inputs).1.ending = .failed e) ∨
      ∃ b, (t.run p inputs).1.ending = .finished b true

/-- Neither asking nor running changes the inputs. -/
def OnlyReads (t : Transform κ π) : Prop :=
  ∀ p inputs, (t.shouldRun p inputs).2 = inputs ∧ (t.run p inputs).2 = inputs

/-- The run ends in a failure or in an invalid program. -/
def Fails (t : Transform κ π) (p : Program) (inputs : Exchange κ π) : Prop :=
  (∃ e, (t.run p inputs).1.ending = .failed e) ∨
    ∃ b, (t.run p inputs).1.ending = .finished b true ∧ b.build.valid = false

end Transform

theorem Program.valid_iff {p : Program} : p.valid = true ↔ p.diagnostics.errors = [] := by
  simp [valid, Diagnostics.hasErrors_eq_false_iff]

theorem Program.not_valid_of_error {p : Program} {d : Diagnostic} (h : d.isError = true) :
    (p.withDiagnostics [d]).valid = false := by
  simp [valid, Diagnostics.hasErrors, h]

namespace Transform

variable {t : Transform κ π} {p : Program} {inputs : Exchange κ π}

theorem apply_of_valid (hp : p.valid = true) :
    t.apply p inputs = ((t.run p inputs).1.outcome t.name p, (t.run p inputs).2) := by
  simp [apply, hp]

theorem Copies.apply (h : t.Copies) (hp : p.valid = true) (inputs : Exchange κ π) :
    ∃ out, t.apply p inputs = (.ok out, (t.run p inputs).2) := by
  rw [apply_of_valid hp]
  obtain ⟨e, he⟩ | ⟨b, hb⟩ := h p inputs hp
  · exact ⟨_, by simp only [Result.outcome, he]; rfl⟩
  · exact ⟨_, by simp only [Result.outcome, hb]; rfl⟩

theorem Fails.apply (h : t.Fails p inputs) (hp : p.valid = true) :
    ∃ out, t.apply p inputs = (.ok out, (t.run p inputs).2) ∧ out.program.valid = false := by
  rw [apply_of_valid hp]
  obtain ⟨e, he⟩ | ⟨b, hb, hv⟩ := h
  · exact ⟨_, by simp only [Result.outcome, he]; rfl, Program.not_valid_of_error rfl⟩
  · exact ⟨_, by simp only [Result.outcome, hb]; rfl, hv⟩

end Transform

namespace Pass

theorem onlyReads_toTransform (t : Pass) : t.toTransform.OnlyReads := fun _ _ => ⟨rfl, rfl⟩

theorem toTransform_apply (t : Pass) (p : Program) (inputs : Data) :
    t.toTransform.apply p inputs = (t.apply p inputs, inputs) := by
  unfold Transform.apply apply
  split <;> rfl

end Pass

/-- A program without errors has nothing that could be mistaken for a new one: all errors of the
next program count, whether or not it carries the earlier diagnostics along. -/
theorem newErrors_eq {before after : Diagnostics} (h : before.errors = []) :
    newErrors before after = after.errors := by
  unfold newErrors
  split
  · next hp =>
    obtain ⟨more, rfl⟩ := List.isPrefixOf_iff_prefix.1 hp
    simp [h]
  · rfl

end

namespace Pipeline

variable {κ : Type} {π : κ → Type}

/-- Where a run stands once it has asked a transform. -/
def State.asked (s : State κ π) (t : Transform κ π) : State κ π :=
  { s with data := (t.shouldRun s.current s.data).2 }

variable [DecidableEq κ] {t : Transform κ π} {ts us : List (Transform κ π)} {s : State κ π}
  {out : Outcome κ π} {left : Exchange κ π}

/-- Where the run of a list of transforms stands at its start. -/
def start (p : Program) (inputs : Exchange κ π) : State κ π := ⟨p, Exchange.merge {} inputs, {}⟩

/-- Where a run goes on after a transform that made a valid program and left the data in some
way. -/
def State.next (s : State κ π) (out : Outcome κ π) (left : Exchange κ π) : State κ π :=
  ⟨out.program, left.merge out.data, s.outputs.merge out.data⟩

/-- What is left of a run that a transform has ended. -/
def State.stopped (s : State κ π) (out : Outcome κ π) : Outcome κ π :=
  ⟨s.current.withDiagnostics out.program.diagnostics.errors, s.outputs.merge out.data⟩

/-- A transform that has nothing to do is passed over. -/
theorem runFrom_skip (h : (t.shouldRun s.current s.data).1 = false) :
    runFrom (t :: ts) s =
      note .debug s!"transform {t.name}: skipped" (runFrom ts (s.asked t)) := by
  simp [runFrom, h, State.asked]

theorem runFrom_next (h : (t.shouldRun s.current s.data).1 = true)
    (ha : t.apply s.current (s.asked t).data = (.ok out, left)) (hv : out.program.valid = true) :
    runFrom (t :: ts) s =
      note .debug s!"transform {t.name}: running" (runFrom ts (s.next out left)) := by
  simp only [State.asked] at ha
  simp [runFrom, h, ha, hv, State.next]

theorem runFrom_stop (hs : s.current.valid = true) (h : (t.shouldRun s.current s.data).1 = true)
    (ha : t.apply s.current (s.asked t).data = (.ok out, left)) (hv : out.program.valid = false) :
    runFrom (t :: ts) s = note .debug s!"transform {t.name}: running"
      ([⟨.info, s!"transform {t.name} failed: {out.program.diagnostics.errors.text}"⟩],
        .ok (s.stopped out)) := by
  simp only [State.asked] at ha
  simp [runFrom, h, ha, hv, State.stopped, newErrors_eq (Program.valid_iff.1 hs)]

theorem runFrom_misused {m : Misuse} (h : (t.shouldRun s.current s.data).1 = true)
    (ha : t.apply s.current (s.asked t).data = (.error m, left)) :
    runFrom (t :: ts) s = note .debug s!"transform {t.name}: running" ([], .error m) := by
  simp only [State.asked] at ha
  simp [runFrom, h, ha]

theorem State.stopped_not_valid (hv : out.program.valid = false) :
    (s.stopped out).program.valid = false := by
  have hne : out.program.diagnostics.errors ≠ [] := fun h => by
    rw [Program.valid_iff.2 h] at hv
    cases hv
  have : (s.stopped out).program.diagnostics.errors ≠ [] := by
    simp only [State.stopped, Program.diagnostics_withDiagnostics, Diagnostics.errors_append]
    simpa [Diagnostics.errors] using fun _ => hne
  exact Bool.eq_false_iff.2 fun h => this (Program.valid_iff.1 h)

/-- What transforms have put out before has no part in the run but to be put out in the end. -/
theorem runFrom_outputs (p : Program) (data outputs : Exchange κ π) :
    (runFrom ts ⟨p, data, outputs⟩).2 =
      (runFrom ts ⟨p, data, {}⟩).2.map fun o => ⟨o.program, outputs.merge o.data⟩ := by
  induction ts generalizing p data outputs with
  | nil => rfl
  | cons t ts ih =>
    simp only [runFrom]
    split
    · simp only [note]
      obtain ⟨result, left⟩ := t.apply p (t.shouldRun p data).2
      cases result with
      | error m => rfl
      | ok out =>
        simp only
        split
        · rw [ih, ih _ _ (Exchange.merge {} out.data)]
          cases (runFrom ts ⟨out.program, left.merge out.data, {}⟩).2 with
          | error m => rfl
          | ok o =>
            simp [Except.map, ← Exchange.merge_assoc, show outputs.merge {} = outputs from rfl]
        · simp [Except.map, ← Exchange.merge_assoc, show outputs.merge {} = outputs from rfl]
    · exact ih p _ outputs

/-- A run of two lists in a row is a run of the first, followed by a run of the second unless the
first one was ended. What transforms may read is the inputs with what was put out so far, as long as
none of them has changed it. -/
theorem runFrom_append (h : ∀ t ∈ ts, t.Copies ∧ t.OnlyReads) (us : List (Transform κ π))
    (base : Exchange κ π) (hs : s.current.valid = true) (hd : s.data = base.merge s.outputs) :
    ∃ o, (runFrom ts s).2 = .ok o ∧
      (runFrom (ts ++ us) s).2 = if o.program.valid then
        (runFrom us ⟨o.program, base.merge o.data, o.data⟩).2 else .ok o := by
  induction ts generalizing s with
  | nil => exact ⟨_, rfl, by simp [hs, ← hd]⟩
  | cons t ts ih =>
    obtain ⟨ht, hreads⟩ := h t (List.mem_cons_self ..)
    have hrest : ∀ t ∈ ts, t.Copies ∧ t.OnlyReads := fun t ht => h t (List.mem_cons_of_mem _ ht)
    have hasked : s.asked t = s := by simp only [State.asked, (hreads s.current s.data).1]
    cases hr : (t.shouldRun s.current s.data).1 with
    | false =>
      rw [List.cons_append, runFrom_skip hr, runFrom_skip hr, hasked]
      exact ih hrest hs hd
    | true =>
      obtain ⟨out, ha⟩ := ht.apply hs (s.asked t).data
      have hleft : (t.run s.current (s.asked t).data).2 = s.data := by
        rw [hasked, (hreads s.current s.data).2]
      rw [hleft] at ha
      cases hv : out.program.valid with
      | true =>
        rw [List.cons_append, runFrom_next hr ha hv, runFrom_next hr ha hv]
        exact ih hrest hv (by simp [State.next, hd, Exchange.merge_assoc])
      | false =>
        rw [List.cons_append, runFrom_stop hs hr ha hv, runFrom_stop hs hr ha hv]
        exact ⟨_, rfl, by simp [State.stopped_not_valid hv, note]⟩

theorem runFrom_ends (h : ∀ t ∈ ts, t.Copies) (hs : s.current.valid = true) :
    ∃ o, (runFrom ts s).2 = .ok o := by
  induction ts generalizing s with
  | nil => exact ⟨_, rfl⟩
  | cons t ts ih =>
    have hrest : ∀ t ∈ ts, t.Copies := fun t ht => h t (List.mem_cons_of_mem _ ht)
    cases hr : (t.shouldRun s.current s.data).1 with
    | false =>
      rw [runFrom_skip hr]
      exact ih hrest hs
    | true =>
      obtain ⟨out, ha⟩ := (h t (List.mem_cons_self ..)).apply hs (s.asked t).data
      cases hv : out.program.valid with
      | true =>
        rw [runFrom_next hr ha hv]
        exact ih hrest hv
      | false =>
        rw [runFrom_stop hs hr ha hv]
        exact ⟨_, rfl⟩

theorem run_of_valid {p : Program} (hp : p.valid = true) (ts : List (Transform κ π))
    (inputs : Exchange κ π) : run ts p inputs = runFrom ts (start p inputs) := by
  simp [run, hp, start]

theorem run_of_not_valid {p : Program} (hp : p.valid = false) (ts : List (Transform κ π))
    (inputs : Exchange κ π) : (run ts p inputs).2 = .ok ⟨p, {}⟩ := by
  simp [run, hp]

/-- Transforms that copy the module run to an end. -/
theorem run_ends (h : ∀ t ∈ ts, t.Copies) (p : Program) (inputs : Exchange κ π) :
    ∃ o, (run ts p inputs).2 = .ok o := by
  cases hp : p.valid with
  | false => exact ⟨_, run_of_not_valid hp ts inputs⟩
  | true =>
    rw [run_of_valid hp]
    exact runFrom_ends h hp

/-- Pipelines compose: running two lists of transforms, the second on what the first made and put
out, is running the one list that they make together, whatever is skipped or fails and also if the
program is invalid to begin with. Those of the first list have to leave their inputs alone. -/
theorem run_append (h : ∀ t ∈ ts ++ us, t.Copies) (hreads : ∀ t ∈ ts, t.OnlyReads) (p : Program)
    (inputs : Exchange κ π) :
    ∃ first second, (run ts p inputs).2 = .ok first ∧
      (run us first.program (inputs.merge first.data)).2 = .ok second ∧
      (run (ts ++ us) p inputs).2 = .ok ⟨second.program, first.data.merge second.data⟩ := by
  have hts : ∀ t ∈ ts, t.Copies ∧ t.OnlyReads :=
    fun t ht => ⟨h t (List.mem_append_left _ ht), hreads t ht⟩
  have hus : ∀ t ∈ us, t.Copies := fun t ht => h t (List.mem_append_right _ ht)
  cases hp : p.valid with
  | false =>
    exact ⟨⟨p, {}⟩, ⟨p, {}⟩, run_of_not_valid hp ts inputs, run_of_not_valid hp us _,
      run_of_not_valid hp (ts ++ us) inputs⟩
  | true =>
    obtain ⟨first, hfirst, happend⟩ :=
      runFrom_append (s := start p inputs) hts us (Exchange.merge {} inputs) hp rfl
    obtain ⟨second, hsecond⟩ := run_ends hus first.program (inputs.merge first.data)
    refine ⟨first, second, by rw [run_of_valid hp, hfirst], hsecond, ?_⟩
    rw [run_of_valid hp, happend]
    cases hv : first.program.valid with
    | false =>
      have : second = ⟨first.program, {}⟩ := by
        have := (run_of_not_valid hv us (inputs.merge first.data)).symm.trans hsecond
        exact (Except.ok.inj this).symm
      subst this
      rfl
    | true =>
      rw [run_of_valid hv, start, ← Exchange.merge_assoc] at hsecond
      rw [if_pos rfl, runFrom_outputs, hsecond]
      rfl

/-- A transform that always makes the same program, and removes an entry point's name from the
inputs or leaves it. -/
def constant (b : Builder) (forgets : Bool) : Transform Topic Payload where
  name := "constant"
  shouldRun _ inputs := (true, inputs)
  run _ inputs :=
    ({ ending := .finished b true }, if forgets then inputs.remove .entryPoint else inputs)

/-- A transform that has something to do if an entry point is named. It puts out a seed and
fails. -/
def failing : Transform Topic Payload where
  name := "failing"
  shouldRun _ inputs := (inputs.has .entryPoint, inputs)
  run _ inputs :=
    ({ outputs := Exchange.put {} .shuffling 3, ending := .failed (.fault (.input "STOP" "no")) },
      inputs)

theorem copies_constant_failing (forgets : Bool) :
    ∀ t ∈ [constant {} forgets] ++ [failing], t.Copies := by
  intro t ht
  simp only [List.cons_append, List.nil_append, List.mem_cons, List.not_mem_nil, or_false] at ht
  rcases ht with rfl | rfl
  · exact fun _ _ _ => .inr ⟨{}, rfl⟩
  · exact fun _ _ _ => .inl ⟨_, rfl⟩

theorem run_append_failing :
    ((∀ t ∈ [constant {} false] ++ [failing], t.Copies) ∧
      ∀ t ∈ [constant {} false], t.OnlyReads) ∧
    ∃ first second,
      (run [constant {} false] ({} : Builder).build (Exchange.put {} .entryPoint "main")).2 =
        .ok first ∧
      (run [failing] first.program
        (Exchange.merge (Exchange.put {} .entryPoint "main") first.data)).2 = .ok second ∧
      (run ([constant {} false] ++ [failing]) ({} : Builder).build
        (Exchange.put {} .entryPoint "main")).2 =
        .ok ⟨second.program, first.data.merge second.data⟩ := by
  have hreads : ∀ t ∈ [constant {} false], t.OnlyReads := by
    simp only [List.mem_singleton, forall_eq]
    exact fun _ _ => ⟨rfl, rfl⟩
  exact ⟨⟨copies_constant_failing false, hreads⟩,
    run_append (copies_constant_failing false) hreads ({} : Builder).build
      (Exchange.put {} .entryPoint "main")⟩

/-- A transform that forgets an input forgets it for those behind it in its own pipeline alone: the
next pipeline starts from the inputs of its caller. -/
theorem run_append_forgetting : (∀ t ∈ [constant {} true] ++ [failing], t.Copies) ∧
    ¬ ∃ first second,
      (run [constant {} true] ({} : Builder).build (Exchange.put {} .entryPoint "main")).2 =
        .ok first ∧
      (run [failing] first.program
        (Exchange.merge (Exchange.put {} .entryPoint "main") first.data)).2 = .ok second ∧
      (run ([constant {} true] ++ [failing]) ({} : Builder).build
        (Exchange.put {} .entryPoint "main")).2 =
        .ok ⟨second.program, first.data.merge second.data⟩ := by
  refine ⟨copies_constant_failing true, ?_⟩
  rintro ⟨first, second, hfirst, hsecond, htogether⟩
  obtain rfl : (⟨({} : Builder).build, {}⟩ : Outcome Topic Payload) = first := Except.ok.inj hfirst
  -- alone, the failing transform is asked with the entry point's name and puts out its seed
  have halone : second.data.size = 1 :=
    (Option.some.inj (congrArg (fun o => o.toOption.map fun o => o.data.size) hsecond)).symm
  -- behind the forgetting one it is skipped
  have hnone : 0 = (Exchange.merge {} second.data).size :=
    Option.some.inj (congrArg (fun o => o.toOption.map fun o => o.data.size) htogether)
  obtain ⟨e, he⟩ := List.length_eq_one_iff.1 halone
  rw [show second.data = ⟨[e]⟩ from Exchange.ext_entries he] at hnone
  cases hnone

/-- The transforms of a list, each skipped or done with a valid result, lead from one state to
another. What those that ran have put out is listed. -/
inductive Passed :
    List (Transform κ π) → State κ π → State κ π → List (Exchange κ π) → Prop
  | nil {s : State κ π} : Passed [] s s []
  | skip {t : Transform κ π} {ts : List (Transform κ π)} {s s' : State κ π}
    {ds : List (Exchange κ π)} : (t.shouldRun s.current s.data).1 = false →
    Passed ts (s.asked t) s' ds → Passed (t :: ts) s s' ds
  | done {t : Transform κ π} {ts : List (Transform κ π)} {s s' : State κ π}
    {ds : List (Exchange κ π)} {out : Outcome κ π} {left : Exchange κ π} :
    (t.shouldRun s.current s.data).1 = true →
    t.apply s.current (s.asked t).data = (.ok out, left) → out.program.valid = true →
    Passed ts (s.next out left) s' ds → Passed (t :: ts) s s' (out.data :: ds)

namespace Passed

variable {s' : State κ π} {ds : List (Exchange κ π)}

theorem valid (h : Passed ts s s' ds) (hs : s.current.valid = true) : s'.current.valid = true := by
  induction h with
  | nil => exact hs
  | skip _ _ ih => exact ih hs
  | done _ _ hv _ ih => exact ih hv

theorem outputs (h : Passed ts s s' ds) : s'.outputs = ds.foldl Exchange.merge s.outputs := by
  induction h with
  | nil => rfl
  | skip _ _ ih => exact ih
  | done _ _ _ _ ih => exact ih

/-- What is logged on the way does not depend on what comes after, and the result does not depend on
what came before but through the state. -/
theorem runFrom (h : Passed ts s s' ds) : ∃ log : Log, ∀ us,
    runFrom (ts ++ us) s = (log ++ (Pipeline.runFrom us s').1, (Pipeline.runFrom us s').2) := by
  induction h with
  | nil => exact ⟨[], fun us => rfl⟩
  | skip hr _ ih =>
    obtain ⟨log, hlog⟩ := ih
    exact ⟨_ :: log, fun us => by rw [List.cons_append, runFrom_skip hr, hlog]; rfl⟩
  | done hr ha hv _ ih =>
    obtain ⟨log, hlog⟩ := ih
    exact ⟨_ :: log, fun us => by rw [List.cons_append, runFrom_next hr ha hv, hlog]; rfl⟩

end Passed

/-- A transform that fails after others have passed ends the run. The program is the one before it,
tree, names and facts, with the errors of its own output behind the diagnostics that were there; the
data is what all that ran have put out, the failing one among them; and neither the result nor the
log has anything of those that would have come later. -/
theorem run_stops {p : Program} {inputs : Exchange κ π} {s' : State κ π} {ds : List (Exchange κ π)}
    (hp : p.valid = true) (hpassed : Passed ts (start p inputs) s' ds)
    (hrun : (t.shouldRun s'.current s'.data).1 = true)
    (hfails : t.Fails s'.current (s'.asked t).data) :
    ∃ out left log, t.apply s'.current (s'.asked t).data = (.ok out, left) ∧
      ∀ later, run (ts ++ t :: later) p inputs =
        (log, .ok {
          program := { s'.current with
            diagnostics := s'.current.diagnostics ++ out.program.diagnostics.errors }
          data := (ds ++ [out.data]).foldl Exchange.merge {} }) := by
  have hs : s'.current.valid = true := hpassed.valid hp
  obtain ⟨out, ha, hv⟩ := hfails.apply hs
  obtain ⟨log, hlog⟩ := hpassed.runFrom
  refine ⟨out, _, log ++ (Pipeline.runFrom [t] s').1, ha, fun later => ?_⟩
  rw [run_of_valid hp, hlog, runFrom_stop hs hrun ha hv, runFrom_stop hs hrun ha hv]
  simp only [State.stopped, hpassed.outputs, List.foldl_append, List.foldl_cons, List.foldl_nil]
  rfl

theorem run_stops_second : ({} : Builder).build.valid = true ∧
    Passed [constant {} false] (start ({} : Builder).build (Exchange.put {} .entryPoint "main"))
      (start ({} : Builder).build (Exchange.put {} .entryPoint "main")) [.empty] ∧
    failing.Fails ({} : Builder).build (Exchange.put {} .entryPoint "main") ∧
    ∃ out left log, failing.apply ({} : Builder).build (Exchange.put {} .entryPoint "main") =
        (.ok out, left) ∧
      ∀ later, run ([constant {} false] ++ failing :: later) ({} : Builder).build
          (Exchange.put {} .entryPoint "main") =
        (log, .ok {
          program := { ({} : Builder).build with
            diagnostics := ({} : Builder).build.diagnostics ++ out.program.diagnostics.errors }
          data := [Exchange.empty, out.data].foldl Exchange.merge {} }) := by
  have hpassed : Passed [constant {} false]
      (start ({} : Builder).build (Exchange.put {} .entryPoint "main"))
      (start ({} : Builder).build (Exchange.put {} .entryPoint "main")) [.empty] := by
    refine .done rfl (show _ = (Except.ok ⟨({} : Builder).build, {}⟩, _) from rfl) rfl .nil
  have hfails : failing.Fails ({} : Builder).build (Exchange.put {} .entryPoint "main") :=
    .inl ⟨_, rfl⟩
  exact ⟨rfl, hpassed, hfails, run_stops rfl hpassed rfl hfails⟩

end Pipeline
end ShaderLoom
