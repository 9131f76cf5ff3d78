import ShaderLoom.Proofs.Copy.Marks
import ShaderLoom.Proofs.Copy.Trim
import ShaderLoom.Proofs.Document.Places
import ShaderLoom.Proofs.Random

/-! Shuffling declarations. Each declaration is copied ahead of the module, in an order that was
drawn, and then left out of it. Every copy looks like the declaration that it was made of and goes
on to do so while others are copied, so that the document that comes out has the declarations of the
one that went in, in the order that was drawn. -/
namespace ShaderLoom

namespace Arena

variable {a b c : Arena}

/-- The second arena has the nodes of the first one and all names of its symbols. -/
structure Within (a b : Arena) : Prop where
  node? : ∀ {k n}, a.node? k = some n → b.node? k = some n
  names : ∀ {s x}, a.symbols.Names s x → b.symbols.Names s x

theorem Within.rfl : a.Within a := ⟨fun h => h, fun h => h⟩

theorem Within.trans (h : a.Within b) (h' : b.Within c) : a.Within c :=
  ⟨fun hn => h'.node? (h.node? hn), fun hs => h'.names (h.names hs)⟩

/-- The nodes look alike, whatever comes into the second arena. -/
def Twins (a b : Arena) (i j : NodeId) : Prop :=
  ∃ R : NodeId → NodeId → Prop, (∀ c, b.Within c → a.Mirrors c R) ∧ R i j

theorem Twins.later {i j : NodeId} (h : Twins a b i j) (hb : b.Within c) : Twins a c i j := by
  obtain ⟨R, hR, hij⟩ := h
  exact ⟨R, fun d hd => hR d (hb.trans hd), hij⟩

theorem mirrors_twins (a b : Arena) : a.Mirrors b (Twins a b) := by
  rintro i j ⟨R, hR, hij⟩
  cases hR b .rfl i j hij with
  | inl h0 => exact .inl h0
  | inr h =>
    obtain ⟨n, m, hn, hm, hspan, hrel⟩ := h
    have htwins : ∀ c d, R c d → Twins a b c d := fun c d hcd => ⟨R, hR, hcd⟩
    exact .inr ⟨n, m, hn, hm, hspan, hrel.mono (fun _ _ h => h) htwins fun _ _ h => h.imp htwins⟩

end Arena

namespace Builder

theorem Extends.within {b c : Builder} (h : b.Extends c) : b.toArena.Within c.toArena :=
  ⟨h.node?, fun hs => hs.extend h.names⟩

theorem within_build (b : Builder) : b.toArena.Within b.build.toArena :=
  ⟨node?_build_of, fun h => h⟩

end Builder

namespace Copy

theorem Session.SameTables.mark {κ σ : Type} {s t : Session κ σ} (h : s.SameTables t)
    (ds : List NodeId) (rs : List (NodeId × κ)) : (s.mark ds rs).SameTables (t.mark ds rs) where
  source := h.source
  replacements := by simp only [Session.mark, h.replacements]
  removed := by simp only [Session.mark, h.removed]
  before := h.before
  after := h.after
  front := h.front
  back := h.back
  handlers := h.handlers
  symbolRule := h.symbolRule

end Copy

namespace Shuffle

open Copy

variable {p : Program}

/-- Elements that are left out add nothing to a list. -/
theorem foldElements_of_removed {β κ σ : Type} {copy : NodeId → Edit κ σ NodeId}
    {yield : β → NodeId → Edit κ σ β} {s : Session κ σ} {ids : List NodeId}
    (h : ∀ i ∈ ids, s.before i = [] ∧ s.after i = [] ∧ s.removed i = true) (b : β) :
    Edit.foldElements copy yield ids b s = .ok b s := by
  induction ids with
  | nil => rfl
  | cons i ids ih =>
    obtain ⟨hbefore, hafter, hremoved⟩ := h i List.mem_cons_self
    rw [Edit.foldElements, get_bind, hbefore]
    refine bind_ok.2 ⟨b, s, rfl, ?_⟩
    rw [get_bind, hremoved]
    refine bind_ok.2 ⟨b, s, rfl, ?_⟩
    beta_reduce
    rw [get_bind, hafter]
    exact bind_ok.2 ⟨b, s, rfl, ih fun j hj => h j (List.mem_cons_of_mem _ hj)⟩

/-- A module whose declarations are left out adds nothing to the target. -/
theorem copyModule_of_removed {κ σ : Type} {copy : NodeId → Edit κ σ NodeId} {s : Session κ σ}
    (hcopied : s.copied = false) (hfront : ∀ i k, s.front i k = []) (hback : ∀ i k, s.back i k = [])
    (h : ∀ i ∈ s.source.globals, s.before i = [] ∧ s.after i = [] ∧ s.removed i = true) :
    Edit.copyModule copy s = .ok () { s with copied := true } := by
  unfold Edit.copyModule
  rw [get_bind, hcopied]
  refine bind_ok.2 ⟨(), _, rfl, bind_ok.2 ⟨s.target.globals, _, ?_, rfl⟩⟩
  unfold Edit.foldList
  rw [get_bind, hfront]
  have helements : Edit.foldElements copy Edit.addOnce s.source.globals s.target.globals
      { s with copied := true } =
      .ok s.target.globals { s with copied := true } :=
        foldElements_of_removed (s := { s with copied := true }) h _
  refine bind_ok.2 ⟨_, _, rfl, bind_ok.2 ⟨_, _, helements, ?_⟩⟩
  rw [get_bind, hback]
  rfl

/-- Some declarations have been copied and left out, and nothing else has happened. -/
structure Moved (p : Program) (done : List NodeId) (s : Session Empty Unit) : Prop where
  tables : ((Session.start p () : Session Empty Unit).mark done []).SameTables s
  symbols : s.symbols = []
  copied : s.copied = false
  good : Builder.Mode.Good ⟨⟨True, False, False⟩, True⟩ s.target []
  names : ∃ more, s.target.symbols.names = p.symbols.names ++ more
  diagnostics : s.target.diagnostics = p.diagnostics.without .resolver
  twins : List.Forall₂ (p.toArena.Twins s.target.toArena) done s.target.globals

theorem moved_start (hp : p.Fit) : Moved p [] (Session.start p ()) where
  tables := by
    rw [Session.mark_nil]
    exact .refl _
  symbols := rfl
  copied := rfl
  good := .empty rfl rfl hp.named rfl
  names := ⟨#[], by simp [Session.start]⟩
  diagnostics := rfl
  twins := .nil

/-- A declaration is held by the root alone. -/
theorem eq_root_of_global (hp : p.Fit) (ht : p.TreeShaped) {g i : NodeId} {n : Node}
    (hg : g ∈ p.globals) (hi : p.inTree i = true) (hn : p.node? i = some n)
    (hmem : g ∈ n.shape.slots) : i = p.root := by
  have h0 : g ≠ 0 := Nat.ne_of_gt (hp.globals g hg).1
  have hroot :=
    (isElement_of_list hp ht p.inTree_root hp.module (l := p.globals) (by simp [Shape.lists]) hg).2
  exact (ht.parent hi (Arena.mem_children.2 ⟨n, hn, hmem, h0⟩)).symm.trans hroot

/-- While declarations are left out, nodes that come from others look like them. -/
theorem mirrors_out (hp : p.Fit) (ht : p.TreeShaped) {s : Session Empty Unit}
    (hsource : s.source = p) (hremoved : ∀ i, s.removed i = true → i ∈ p.globals)
    {w : World Empty Unit} {l : List NodeId} (hw : (ongoing s).Holds w l) {c : Arena}
    (hc : w.1.target.toArena.Within c) : p.toArena.Mirrors c ((ongoing s).Out w) := by
  subst hsource
  intro i j hij
  refine hij.imp_right fun ⟨hi, hj, _⟩ => ?_
  obtain ⟨hin, hparts | hspecial⟩ := hw.traced j (by rwa [hj])
  case inr => exact hspecial.elim
  rw [hj] at hin hparts
  obtain ⟨-, n, m, hn, hm, hspan, hrel⟩ := hparts
  have hroot : i ≠ s.source.root := by
    rintro rfl
    have hmodule : n.shape = .module s.source.globals := by
      have hshape : s.source.shape? s.source.root = some n.shape :=
        Option.map_eq_some_iff.2 ⟨n, hn, rfl⟩
      exact Option.some.inj (hshape.symm.trans hp.module)
    have hspelled := hw.good.spelled hm
    rw [hmodule] at hrel
    generalize m.shape = shape at hrel hspelled
    cases hrel
    exact hspelled
  refine ⟨n, m, hn, hc.node? hm, ?_, hrel.within_both.mono ?_ ?_ ?_⟩
  · rw [hspan]
    exact Span.same_ofValid n.span
  · rintro x y ⟨rfl, text, hx, hy⟩
    exact hx.nameFor.trans (hc.names hy).nameFor.symm
  · exact fun _ _ h => h.2.2
  · rintro xs ys ⟨hxs, -, hlists⟩
    -- no list below the root holds a declaration, so nothing is left out of it
    have hgone : ∀ x ∈ xs, ¬ (ongoing s).gone x := fun x hx hgone =>
      hroot (eq_root_of_global hp ht (hremoved x hgone) hin hn (hxs x hx))
    have hlisted := hlists.listed
    clear hlists hxs
    induction hlisted with
    | nil => exact .nil
    | insert hy _ _ => exact hy.2.elim
    | keep _ hxy _ ih => exact .cons hxy (ih fun x hx => hgone x (List.mem_cons_of_mem _ hx))
    | drop hx _ _ => exact absurd hx (hgone _ List.mem_cons_self)

/-- One declaration more. -/
theorem runs_move (hp : p.Fit) (hk : p.Known) (ht : p.TreeShaped) {g : NodeId} {done : List NodeId}
    (hg : g ∈ p.globals) (hdone : ∀ i ∈ done, i ∈ p.globals) {w : World Empty Unit}
    (hw : Moved p done w.1) :
    Runs (do
      let t ← Work.edit (Edit.copy noHandlers g)
      Work.build (Build.addGlobal t)
      Work.edit (Edit.remove g)
      pure (ForInStep.yield PUnit.unit)) w (fun _ => False) fun r w' =>
        r = .yield ⟨⟩ ∧ Moved p (done ++ [g]) w'.1 := by
  obtain ⟨s, origin⟩ := w
  have hsource : s.source = p := hw.tables.source
  have hremoved : ∀ i, s.removed i = true → i ∈ p.globals := by
    intro i hi
    rw [hw.tables.removed] at hi
    exact hdone i (by simpa [Session.mark, Session.start] using hi)
  have hreplacements : s.replacements = fun _ => none := hw.tables.replacements
  have hhandlers : Idles s.source s.handlers noHandlers := by
    rw [show s.handlers = [] from hw.tables.handlers]
    exact .nil
  have hbegin : (ongoing s).Holds (s, fun _ => 0)
      ((ongoing s).below (ongoing s).depth g ++ []) := by
    have hstart :=
      Account.Holds.begin (A := ongoing s) hw.good (fun _ => ⟨False.elim, False.elim, False.elim⟩)
      (fun i => congrFun hw.tables.before i) (fun i => congrFun hw.tables.after i) (fun _ => rfl)
      (fun i j => by simp [ongoing, hreplacements]) ⟨hw.symbols, hsource ▸ hw.names⟩
    apply hstart.weaken
    intro x
    rw [Account.below_eq_nil (fun i => congrFun hw.tables.before i)
      (fun i => congrFun hw.tables.after i) (fun _ => rfl)
      (fun i j => by simp [ongoing, hreplacements])]
    exact Nat.zero_le _
  have hfit : s.source.Fit := hsource ▸ hp
  have hcopies : (ongoing s).Copies (fun _ => False) (within s.source) noHandlers
      (ongoing s).depth :=
    Account.copies ongoing_stable
      (ongoing_plain hfit (hsource ▸ hk) hw.tables.front hw.tables.back hw.tables.symbolRule)
      (reach_within hfit)
      (ongoing_handled hreplacements hhandlers) _
  have hcopy := Account.turns_copy hcopies (within_global hfit (hsource ▸ hg))
  -- nothing is known yet of where the nodes of the target come from
  apply Runs.of_session fun _ => 0
  apply Runs.bind
  apply Work.runs_edit
  apply (hcopy _ [] hbegin).mono
  rintro t w₁ ⟨h₁, hlater, hout⟩
  have ht0 : t ≠ 0 := hout.ne_zero h₁ (Nat.ne_of_gt (hp.globals g hg).1)
  have hgood : Builder.Mode.Good ⟨⟨True, False, False⟩, True⟩ w₁.1.target [t] := by
    have hfree := h₁.good
    rwa [List.append_nil, List.filter_cons_of_pos (by simpa using ht0), List.filter_nil] at hfree
  let s' : Session Empty Unit :=
    { w₁.1 with target := { w₁.1.target with globals := w₁.1.target.globals ++ [t] } }
  have hsource' : s'.source = p := h₁.tables.source.trans hsource
  have helement : IsElement p g :=
    (isElement_of_list hp ht p.inTree_root hp.module (l := p.globals) (by simp [Shape.lists]) hg).1
  have hremove := Marks.remove (κ := Empty) (σ := Unit) p g
    ⟨by simpa using helement, by simp, List.nodup_nil⟩ s' hsource' (by simp)
  apply Runs.bind
  apply Runs.of_ok (a := ()) (s := s') rfl w₁.2
  apply Runs.bind
  apply Work.runs_edit
  apply Runs.of_ok hremove w₁.2
  refine Runs.pure w₁.2 ⟨rfl, ?tables, h₁.state.1, hlater.copied.trans hw.copied, hgood.addGlobal,
    hsource ▸ h₁.state.2, hlater.target.diagnostics.trans hw.diagnostics, ?twins⟩
  case tables =>
    have htables := (hw.tables.trans hlater.tables).trans (.of_target w₁.1 s'.target)
    have hmark := htables.mark [g] []
    rwa [Session.mark_mark] at hmark
  case twins =>
    have hglobals : w₁.1.target.globals = s.target.globals := hlater.globals trivial
    change List.Forall₂ _ _ (w₁.1.target.globals ++ [t])
    rw [hglobals]
    apply List.rel_append
    · exact hw.twins.imp fun _ _ h => h.later hlater.target.within
    · exact .cons ⟨_, fun c hc => mirrors_out hp ht hsource hremoved h₁ hc, hout⟩ .nil

/-- What follows once the order of the declarations is known. -/
def workIn (order : List NodeId) : Work Empty Unit Data := do
  let copy := Edit.copy noHandlers
  for id in order do
    let t ← Work.edit (copy id)
    Work.build (Build.addGlobal t)
    Work.edit (Edit.remove id)
  Work.edit (Edit.copyModule copy)
  return {}

theorem runs_workIn (hp : p.Fit) (hk : p.Known) (ht : p.TreeShaped) {order : List NodeId}
    (hperm : order.Perm p.globals) :
    Runs (workIn order) ((Session.start p (), fun _ => 0) : World Empty Unit)
    (fun _ => False) fun _ w =>
      w.1.copied = true ∧ w.1.target.Fit ∧
      w.1.target.diagnostics = p.diagnostics.without .resolver ∧
        List.Forall₂ (p.toArena.Twins w.1.target.toArena) order w.1.target.globals := by
  apply Runs.bind
  -- what has been copied and what is to come make up the order
  apply Runs.forIn fun rest w => ∃ done, done ++ rest = order ∧ Moved p done w.1
  · exact ⟨[], rfl, moved_start hp⟩
  · rintro g rest w hg ⟨done, rfl, hw⟩
    have hdone : ∀ i ∈ done, i ∈ p.globals :=
      fun i hi => hperm.mem_iff.1 (List.mem_append_left _ hi)
    apply (runs_move hp hk ht (hperm.mem_iff.1 hg) hdone hw).mono
    rintro r w' ⟨rfl, hw'⟩
    exact ⟨rfl, done ++ [g], by rw [List.append_assoc, List.singleton_append], hw'⟩
  · rintro w ⟨done, hdone, hw⟩
    rw [List.append_nil] at hdone
    subst hdone
    have hleft : Edit.copyModule (Edit.copy noHandlers) w.1 =
        .ok () { w.1 with copied := true } := by
      apply copyModule_of_removed hw.copied
      · exact fun i k => congrFun₂ hw.tables.front i k
      · exact fun i k => congrFun₂ hw.tables.back i k
      · intro i hi
        refine ⟨congrFun hw.tables.before i, congrFun hw.tables.after i, ?_⟩
        rw [hw.tables.source] at hi
        rw [hw.tables.removed]
        simpa [Session.mark, Session.start] using hperm.mem_iff.2 hi
    apply Runs.bind
    apply Work.runs_edit
    apply Runs.of_ok hleft w.2
    exact Runs.pure w.2 ⟨rfl, hw.good.toFit, hw.diagnostics, hw.twins⟩

/-- Declarations that look like others have their records. -/
theorem globals_of_twins {b : Builder} (hp : p.Fit) (hb : b.Fit) {order : List NodeId}
    (hsub : ∀ i ∈ order, i ∈ p.globals)
    (h : List.Forall₂ (p.toArena.Twins b.toArena) order b.globals) :
    (Document.ofProgram b.build).globals = order.map (Document.record p.toArena (p.size + 1)) := by
  symm
  change _ = b.build.globals.map _
  rw [b.globals_build]
  apply Arena.map_eq_of_forall₂ (h.imp fun _ _ h => h.later b.within_build)
  intro g hg g' hg' htwins
  have hlt : g < p.size + 1 := by
    rw [← hp.root]
    exact Nat.lt_succ_of_lt (hp.globals g (hsub g hg)).2
  have hlt' : g' < b.build.size + 1 := by
    rw [← hb.build.root]
    exact Nat.lt_succ_of_lt (hb.build.globals g' (by rwa [b.globals_build])).2
  exact Document.record_eq hp.ordered hb.build.ordered (Arena.mirrors_twins _ _) hlt hlt' htwins

/-- The pass, with the places to exchange drawn in any way from the seed and the number of
declarations. -/
def drawing (draw : UInt64 → Nat → Nat → Nat) : Pass where
  name
  shouldRun := pass.shouldRun
  run p inputs := Work.perform (do
    let seed ← Work.need (.missingData name) (inputs.get? .shuffling)
    workIn (Pcg.rearrange (draw seed p.globals.length) p.globals)) p ()

theorem drawing_drawn : drawing Pcg.drawn = pass := by
  unfold drawing pass work workIn
  simp only [← Pcg.shuffle_eq]

/-- Shuffling reorders. Whatever is drawn, a valid program of a document is shuffled without a
failure; the declarations of the document that comes out are those of the one that went in, each
with its record, and stand where the draws for their number put them. The pass draws as its
generator does. -/
theorem apply_reorders {m : Document.Module} (h : m.decode = .ok p) (hv : p.valid = true)
    {inputs : Data} {seed : UInt64} (hseed : inputs.get? .shuffling = some seed) :
    drawing Pcg.drawn = pass ∧ ∀ draw, ∃ out order,
      (drawing draw).apply p inputs = .ok out ∧
      order = Pcg.rearrange (draw seed (Document.ofProgram p).globals.length)
      (List.range (Document.ofProgram p).globals.length) ∧
      order.Perm (List.range (Document.ofProgram p).globals.length) ∧
      (Document.ofProgram out.program).globals =
      order.map (fun i => (Document.ofProgram p).globals.getD i none) ∧
      (Document.ofProgram out.program).globals.Perm (Document.ofProgram p).globals := by
  refine ⟨drawing_drawn, fun draw => ?_⟩
  obtain ⟨b, hgood, hknown, _, _, rfl⟩ := Document.decode_good h
  have hp := hgood.toFit.build
  have ht := hp.treeShaped (hgood.counted_build trivial)
  have hlength : (Document.ofProgram b.build).globals.length = b.build.globals.length :=
    List.length_map _
  have hperm := Pcg.rearrange_perm (draw seed b.build.globals.length) b.build.globals
  obtain ⟨data, s, _, hs, hcopied, hfit, _, htwins⟩ :=
    (runs_workIn hp hknown.build ht hperm).succeeds
  have hs : workIn _ (Session.start b.build ()) = .ok data s := hs
  have hglobals : (Document.ofProgram s.target.build).globals =
      Pcg.rearrange (draw seed b.build.globals.length) (Document.ofProgram b.build).globals := by
    rw [globals_of_twins hp hfit (fun i hi => hperm.mem_iff.1 hi) htwins]
    exact (Pcg.rearrange_map _ _ _).symm
  refine ⟨⟨s.target.build, data⟩, _, ?applied, rfl, Pcg.rearrange_perm _ _, ?_, ?_⟩
  case applied =>
    have hcopied : s.copied = true := hcopied
    simp [Pass.apply, Result.outcome, hv, drawing, hseed, Work.need, Work.perform, hs, hcopied]
  · rw [hglobals, ← hlength]
    exact Pcg.rearrange_eq_map_range _ _ none
  · rw [hglobals]
    exact Pcg.rearrange_perm _ _

theorem apply_reorders_small :
    ∃ p out, small.decode = .ok p ∧ p.valid = true ∧ p.globals.length = 2 ∧
    pass.apply p (Exchange.put {} .shuffling 7) = .ok out ∧
    (Document.ofProgram out.program).globals.Perm (Document.ofProgram p).globals := by
  have hok : (small.decode.toOption.any fun p => p.valid && p.globals.length == 2) = true := by
    decide +kernel
  cases hp : small.decode with
  | error e => simp [hp, Except.toOption] at hok
  | ok p =>
    simp only [hp, Except.toOption, Option.any_some, Bool.and_eq_true, beq_iff_eq] at hok
    have hseed : (Exchange.put {} .shuffling 7 : Data).get? .shuffling = some 7 := rfl
    obtain ⟨hpass, hdraw⟩ := apply_reorders hp hok.1 hseed
    obtain ⟨out, _, happly, _, _, _, hperm⟩ := hdraw Pcg.drawn
    exact ⟨p, out, rfl, hok.1, hok.2, hpass ▸ happly, hperm⟩

end Shuffle
end ShaderLoom
