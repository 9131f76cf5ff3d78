import Mathlib.Logic.Relation
import ShaderLoom.Proofs.Document.Grammar
import ShaderLoom.Proofs.Held
import ShaderLoom.Proofs.Ledger

/-! Reading accepts exactly the well-formed documents. -/
namespace ShaderLoom

/-- The second node lies below the first, or is it. -/
def Arena.Leads (a : Arena) : NodeId → NodeId → Prop :=
  Relation.ReflTransGen fun i c => c ∈ a.children i

theorem Builder.Extends.children {b b' : Builder} (h : b.Extends b') {i c : NodeId}
    (hc : c ∈ b.children i) : c ∈ b'.children i := by
  obtain ⟨n, hn, hc⟩ := Arena.mem_children.1 hc
  exact Arena.mem_children.2 ⟨n, h.node? hn, hc⟩

theorem Builder.Extends.leads {b b' : Builder} (h : b.Extends b') {i k : NodeId}
    (hk : b.Leads i k) : b'.Leads i k :=
  Relation.ReflTransGen.mono (fun _ _ => h.children) _ _ hk

theorem Arena.Leads.pos {a : Arena} {i k : NodeId} (h : a.Leads i k) (hk : 0 < k) : i ≠ 0 := by
  rintro rfl
  rcases Relation.ReflTransGen.cases_head h with rfl | ⟨c, hc, _⟩
  · exact absurd hk (Nat.lt_irrefl 0)
  · simp [Arena.children] at hc

namespace Document

variable {E : DecodeError → Prop}

/-- What reading adds to a builder: a node for each record that counts, each of them below one that
was asked for. -/
def planting : Shape.Ledger Builder Field NodeId where
  row b fs js b' := b.Extends b' ∧ b'.globals = b.globals ∧
    b'.size = b.size + (fs.map fun f => Record.nodesOf (Record.keptField f.record)).sum ∧
    ∀ k, b.size < k → k ≤ b'.size → ∃ j ∈ js, b'.Leads j k
  nil b := ⟨.refl b, rfl, by simp, fun k h h' => absurd h (Nat.not_lt.2 h')⟩
  add := by
    rintro b₀ b₁ b₂ fs fs' js js' ⟨hext, hglobals, hsize, hleads⟩
      ⟨hext', hglobals', hsize', hleads'⟩
    refine ⟨hext.trans hext', hglobals'.trans hglobals, ?_, fun k hk hk' => ?_⟩
    · rw [hsize', hsize, Multiset.map_add, Multiset.sum_add, Nat.add_assoc]
    · by_cases hle : k ≤ b₁.size
      · obtain ⟨j, hj, hjk⟩ := hleads k hk hle
        exact ⟨j, Multiset.mem_add.2 (.inl hj), hext'.leads hjk⟩
      · obtain ⟨j, hj, hjk⟩ := hleads' k (Nat.lt_of_not_le hle) hk'
        exact ⟨j, Multiset.mem_add.2 (.inr hj), hjk⟩

theorem sum_nodes (fs : List Field) :
    ((fs : Multiset Field).map fun f => Record.nodesOf (Record.keptField f.record)).sum =
      Record.nodesIn ((fs.map Field.record).map Record.keptField) := by
  induction fs with
  | nil => rfl
  | cons f fs ih => rw [← Multiset.cons_coe, Multiset.map_cons, Multiset.sum_cons, ih]; rfl

/-- A step after which the builder has a row more. -/
abbrev Plants {δ : Type} (step : Decode δ) (fs : Multiset Field) (js : δ → Multiset NodeId) :
    Prop :=
  planting.Books (γ := Unit) (fun _ : DecodeError => True) step fs js

theorem register_extends (b : Builder) (name : String) : b.Extends (b.register name).2 :=
  ⟨⟨#[], by simp [Builder.register]⟩, SymbolTable.register_extends _ _, rfl, rfl⟩

theorem plants_symbol (path name : String) : Plants (Decode.symbol path name) 0 fun _ => 0 := by
  intro w
  unfold Decode.symbol
  split
  · exact Runs.throw trivial
  · have hext := register_extends w.1 name
    refine Runs.modifyGet w.2 ⟨hext, rfl, ?_, ?_⟩
    · simp [Builder.register, Arena.size]
    · exact fun k hk hk' => absurd hk (Nat.not_lt.2 hk')

theorem plants_fields {fs : List Field} (h : ∀ f ∈ fs, Plants (Decode.field f) {f} fun j => {j}) :
    Plants (fs.mapM Decode.field) fs fun js => js := by
  induction fs with
  | nil => exact fun w => Runs.pure w.2 (planting.nil w.1)
  | cons f fs ih =>
    intro w
    rw [List.mapM_cons]
    refine (h f (by simp)).next (planting.nil w.1) fun j w₁ h₁ => ?_
    exact (ih fun g hg => h g (by simp [hg])).next h₁ fun js w₂ h₂ => Runs.pure w₂.2 h₂

theorem plants_parts {path : String} {s : Shape String Field}
    (hfield : ∀ f ∈ s.slots, Plants (Decode.field f) {f} fun j => {j}) :
    Plants (Decode.parts path s) s.slots fun t => t.slots := by
  have hlist : ∀ fs ∈ s.lists, Plants (fs.mapM Decode.field) fs fun js => js :=
    fun fs hfs => plants_fields fun f hf =>
      hfield f (Shape.required_subset _ f (Shape.mem_required_of_lists hfs f hf))
  unfold Decode.parts
  split
  · next f =>
    intro w
    refine (plants_symbol path f.name).next (planting.nil w.1) fun _ w₁ h₁ => ?_
    refine (hlist f.params (by simp [Shape.lists])).next h₁ fun _ w₂ h₂ => ?_
    refine (hfield f.returnType (by simp [Shape.slots])).next h₂ fun _ w₃ h₃ => ?_
    refine (hlist f.returnAttributes (by simp [Shape.lists])).next h₃ fun _ w₄ h₄ => ?_
    refine (hfield f.body (by simp [Shape.slots])).next h₄ fun _ w₅ h₅ => ?_
    refine (hlist f.attributes (by simp [Shape.lists])).next h₅ fun _ w₆ h₆ => Runs.pure w₆.2 ?_
    refine Shape.Ledger.sorted h₆ ?_ ?_ <;>
      (simp only [Shape.slots, Shape.Ledger.coe_append, Shape.Ledger.coe_cons, Multiset.coe_nil];
        abel)
  · exact Shape.Ledger.traverse (fun x _ => plants_symbol path x) hfield fun _ => hlist

theorem plants_node (r : Record) :
    ∀ path, Plants (Decode.node path r) {⟨path, true, some r⟩} fun j => {j} := by
  induction r using Record.induct with
  | h r ih =>
    intro path w
    rw [Decode.node_eq]
    cases hs : Decode.shape path r with
    | error e => exact Runs.throw trivial
    | ok s =>
      have hfield : ∀ f ∈ s.slots, Plants (Decode.field f) {f} fun j => {j} := by
        rintro ⟨path', required, record⟩ hf
        have hparts := (Decode.shaped hs).parts _ hf
        cases record with
        | none =>
          cases required with
          | true => exact fun w => Runs.throw trivial
          | false =>
            exact fun w => Runs.pure w.2 ⟨.refl _, rfl, by simp [Record.keptField, Record.nodesOf],
              fun k hk hk' => absurd hk (Nat.not_lt.2 hk')⟩
        | some c => cases required <;> exact ih c hparts path'
      rw [Decode.make_ok]
      refine Runs.bind ((plants_parts hfield w).mono ?_)
      rintro t w₁ ⟨hext, hglobals, hsize, hleads⟩
      have hpush := Builder.Mode.extends_push w₁.1 t (r.span.getD {})
      have hnew := Builder.Mode.node?_push w₁.1 t (r.span.getD {}) (w₁.1.size + 1)
      rw [if_pos rfl] at hnew
      have hsize' : (w₁.1.push t (r.span.getD {})).2.size = w₁.1.size + 1 := by
        simp [Builder.push, Arena.size]
      refine Runs.modifyGet w₁.2
        ⟨hext.trans hpush, hglobals, ?_, fun k hk hk' => ⟨_, Multiset.mem_singleton_self _, ?_⟩⟩
      · rw [hsize', hsize, sum_nodes]
        simp [Record.keptField, Record.nodesOf, nodes_kept hs]
        omega
      · rcases Nat.lt_or_ge w₁.1.size k with hlt | hle
        · rw [show k = w₁.1.size + 1 by grind]
          exact .refl
        · obtain ⟨j, hj, hjk⟩ := hleads k hk hle
          refine .head (Arena.mem_children.2 ⟨_, hnew, hj, ?_⟩) (hpush.leads hjk)
          exact hjk.pos (by grind)

/-- A builder whose nodes come after their children and are spelled with its names. -/
structure Ready (b : Builder) : Prop where
  ordered : b.Ordered
  known : b.Known
  span : b.span = {}

/-- Nodes look the same in every arena that has them, with the same names. -/
theorem whole_kept {a a' : Arena} (ha : a.Ordered) (ha' : a'.Ordered)
    (hnode : ∀ i n, a.node? i = some n → a'.node? i = some n)
    (hname : ∀ i n, a.node? i = some n → ∀ x ∈ n.shape.names, a'.nameOf x = a.nameOf x) {i : NodeId}
    (hi : i ≤ a.size) : whole a' i = whole a i := by
  have hfound : ∀ i, 0 < i → i ≤ a.size →
      ∃ n, a.node? i = some n ∧ a'.node? i = some n := fun i hpos hi =>
    (Option.isSome_iff_exists.1 (Arena.node?_isSome_iff.2 ⟨hpos, hi⟩)).imp fun n hn =>
      ⟨hn, hnode i n hn⟩
  have hi' : i ≤ a'.size := by
    rcases Nat.eq_zero_or_pos i with rfl | hpos
    · exact Nat.zero_le _
    · obtain ⟨n, _, hn'⟩ := hfound i hpos hi
      exact (Arena.range_of_node? hn').2
  refine record_eq ha' ha (R := fun i j => i = j ∧ i ≤ a.size) ?_ (Nat.lt_succ_of_le hi')
    (Nat.lt_succ_of_le hi)
    ⟨rfl, hi⟩
  rintro i _ ⟨rfl, hi⟩
  rcases Nat.eq_zero_or_pos i with rfl | hpos
  · exact .inl ⟨rfl, rfl⟩
  · obtain ⟨n, hn, hn'⟩ := hfound i hpos hi
    refine .inr ⟨n, n, hn', hn, ⟨rfl, fun _ => rfl⟩, ?_⟩
    have hslots : ∀ c ∈ n.shape.slots, c ≤ a.size :=
      fun c hc => Nat.le_of_lt (Nat.lt_of_lt_of_le (ha i n hn c hc) hi)
    have hrel := Shape.Rel.refl (N := Eq) (C := Eq) (L := Eq) (fun _ => rfl) (fun _ => rfl)
      (fun _ => rfl) n.shape
    refine hrel.within.within_names.mono ?_ ?_ ?_
    · rintro x _ ⟨hx, _, rfl⟩
      exact hname i n hn x hx
    · rintro c _ ⟨hc, rfl⟩
      exact ⟨rfl, hslots c hc⟩
    · rintro cs _ ⟨hcs, rfl⟩
      exact List.forall₂_same.2 fun c hc => ⟨rfl, hslots c (hcs c hc)⟩

theorem whole_extends {b b' : Builder} (h : b.Extends b') (hb : Ready b) (hb' : Ready b')
    {i : NodeId} (hi : i ≤ b.size) : whole b'.toArena i = whole b.toArena i := by
  refine whole_kept hb.ordered hb'.ordered (fun _ _ => h.node?) (fun i n hn x hx => ?_) hi
  obtain ⟨name, hname⟩ := hb.known i n hn x hx
  exact (hname.extend h.names).nameFor.trans hname.nameFor.symm

/-- The node looks like a record, and is absent if there is none. -/
structure Shows (b : Builder) (o : Option Record) (j : NodeId) : Prop where
  ready : Ready b
  range : j ≤ b.size
  whole : whole b.toArena j = o

/-- A later state of the same reading. -/
structure After (b b' : Builder) : Prop where
  target : b.Extends b'
  globals : b'.globals = b.globals
  ready : Ready b → Ready b'

theorem After.refl (b : Builder) : After b b := ⟨.refl b, rfl, id⟩

theorem After.trans {b b' b'' : Builder} (h : After b b') (h' : After b' b'') : After b b'' :=
  ⟨h.target.trans h'.target, h'.globals.trans h.globals, h'.ready ∘ h.ready⟩

theorem Shows.later {b b' : Builder} {o : Option Record} {j : NodeId} (h : Shows b o j)
    (hb : b.Extends b') (hb' : Ready b') : Shows b' o j :=
  ⟨hb', Nat.le_trans h.range hb.size_le, (whole_extends hb h.ready hb' h.range).trans h.whole⟩

theorem Shows.after {b b' : Builder} {o : Option Record} {j : NodeId} (h : Shows b o j)
    (hb : After b b') : Shows b' o j :=
  h.later hb.target (hb.ready h.ready)

/-- A field with a well-formed record has become a node that looks like what counts of the
record. -/
def Taken (b : Builder) (f : Field) (j : NodeId) : Prop :=
  f.Sound ∧ Shows b (Record.keptField f.record) j

/-- How reading takes the fields of a record. -/
def taking : Shape.Copying (Builder × Unit) String Symbol Field NodeId where
  inv w _ := Ready w.1
  le w w' := After w.1 w'.1
  name w x y := x ≠ "" ∧ w.1.symbols.Names y x
  child w := Taken w.1
  list w := List.Forall₂ (Taken w.1)
  res _ := []
  le_refl w := .refl w.1
  le_trans := After.trans
  weaken h _ := h
  name_mono h hn := hn.imp_right fun hn => hn.extend h.target.names
  child_mono h := And.imp_right fun hs => hs.after h
  list_mono h := List.Forall₂.imp fun _ _ => And.imp_right fun hs => hs.after h

theorem takes_symbol {path x : String} (h : x ≠ "" ∨ E (.invalid path .missingName)) :
    taking.Turns E (Decode.symbol path x) [] (fun _ => []) fun w y =>
      x ≠ "" ∧ w.1.symbols.Names y x := by
  intro w F hw
  unfold Decode.symbol
  split
  · next he => exact Runs.throw (h.resolve_left (by simpa using he))
  · next he =>
    have hext := register_extends w.1 x
    have hready : Ready w.1 → Ready (w.1.register x).2 :=
      fun hr => ⟨hr.ordered, hr.known.renamed rfl hext.names, hr.span⟩
    exact Runs.modifyGet w.2
      ⟨hready hw, ⟨hext, rfl, hready⟩, by simpa using he, SymbolTable.names_of_register _ _⟩

theorem fieldwise_taking : Decode.Fieldwise taking := ⟨fun _ => rfl, fun _ => rfl⟩

/-- A record that may be read: a well-formed one, unless every failure is allowed. -/
def Acceptable (E : DecodeError → Prop) (r : Record) : Prop := (∀ e, E e) ∨ r.WellFormed

/-- Reading a record succeeds if it is well-formed, and only then, and makes what counts of it. -/
theorem takes_node (r : Record) : Acceptable E r → ∀ path,
    taking.Turns E (Decode.node path r) [] (fun j => [j]) fun w j =>
      r.WellFormed ∧ Shows w.1 (some r.kept) j := by
  induction r using Record.induct with
  | h r ih =>
    intro hr path
    rw [Decode.node_eq]
    cases hs : Decode.shape path r with
    | error e =>
      intro w F _
      refine Runs.throw (hr.elim (fun hE => hE _) fun hwell => ?_)
      obtain ⟨_, hs', _⟩ := (wellFormed_iff path).1 hwell
      rw [hs] at hs'
      cases hs'
    | ok s =>
      have hgood : (∀ e, E e) ∨ (∀ x ∈ s.names, x ≠ "") ∧ ∀ f ∈ s.slots, f.Sound := by
        refine hr.imp_right fun hwell => ?_
        obtain ⟨_, hs', hgood⟩ := (wellFormed_iff path).1 hwell
        cases hs.symm.trans hs'
        exact hgood
      have hname : ∀ x ∈ s.names, taking.Turns E (Decode.symbol path x) [] (fun _ => [])
          fun w y => taking.name w x y :=
        fun x hx => takes_symbol (hgood.elim (fun hE => .inr (hE _)) fun h => .inl (h.1 x hx))
      have hfield : ∀ f ∈ s.slots, taking.Turns E (Decode.field f) [] (fun j => [j])
          fun w j => taking.child w f j := by
        rintro ⟨path', required, record⟩ hf
        have hsound : (∀ e, E e) ∨ Field.Sound ⟨path', required, record⟩ :=
          hgood.imp_right fun h => h.2 _ hf
        have hparts := (Decode.shaped hs).parts _ hf
        cases record with
        | none =>
          cases required with
          | true => exact fun w F _ => Runs.throw (hsound.elim (fun hE => hE _) fun h =>
              absurd rfl (h.1 rfl))
          | false =>
            refine fun w F hw =>
              Runs.pure w.2 ⟨hw, .refl w.1, ⟨by simp, by simp⟩, hw, Nat.zero_le _, rfl⟩
        | some c =>
          have hc := ih c hparts (hsound.imp_right fun h => h.2 c rfl) path'
          have hshown : taking.Turns E (Decode.node path' c) [] (fun j => [j])
              fun w j => Taken w.1 ⟨path', required, some c⟩ j :=
            fun w F hw => (hc w F hw).mono fun j w' ⟨hi, hle, hwell, hshows⟩ =>
              ⟨hi, hle, ⟨by simp, by rintro _ ⟨⟩; exact hwell⟩, hshows⟩
          cases required <;> exact hshown
      rw [Decode.make_ok]
      intro w F hw
      refine (Decode.turns_parts fieldwise_taking hname hfield).bind _ F hw (fun _ => Nat.le_refl _)
        fun t w₁ h₁ hle₁ hrel => ?_
      let b₂ := (w₁.1.push t (r.span.getD {})).2
      have hnew := Builder.Mode.node?_push w₁.1 t (r.span.getD {}) (w₁.1.size + 1)
      rw [if_pos rfl, h₁.span] at hnew
      have hslots : ∀ c ∈ t.slots, c ≤ w₁.1.size := by
        intro c hc
        obtain ⟨f, _, hf⟩ := Shape.Rel.mem_slots hrel (fun _ _ => exists_of_forall₂) c hc
        exact hf.2.range
      have hready : Ready b₂ := by
        refine ⟨fun i n hn c hc => ?_, Builder.Mode.known_push h₁.known fun x hx => ?_, h₁.span⟩
        · rw [Builder.Mode.node?_push] at hn
          split at hn
          · next hi =>
            cases hn
            exact hi ▸ Nat.lt_succ_of_le (hslots c hc)
          · exact h₁.ordered i n hn c hc
        · obtain ⟨name, _, hn⟩ := Shape.Rel.mem_names hrel x hx
          exact ⟨name, hn.2⟩
      have hle₂ : After w₁.1 b₂ := ⟨Builder.Mode.extends_push _ _ _, rfl, fun _ => hready⟩
      have hrel₂ : taking.Shapes (b₂, w₁.2) s t := Shape.Copying.Shapes.mono (v := w₁) hle₂ hrel
      have hwell : r.WellFormed := by
        refine (wellFormed_iff path).2 ⟨s, hs, fun x hx => ?_, fun f hf => ?_⟩
        · obtain ⟨_, _, hx⟩ := hrel.flip.mem_names x hx
          exact hx.1
        · obtain ⟨_, _, hf⟩ :=
            hrel.flip.mem_slots (fun _ _ hall => exists_of_forall₂ hall.flip) f hf
          exact hf.1
      refine Runs.modifyGet w₁.2 ⟨hready, hle₁.trans hle₂, hwell, hready, ?_, ?_⟩
      · simp [Builder.push, Arena.size]
      · refine (whole_eq hready.ordered hnew).trans
          (congrArg some (ofNode_kept hs (Shape.Rel.mono hrel₂ ?_ ?_ ?_)))
        · exact fun x y hxy => hxy.2.nameFor
        · exact fun f c hf => hf.2.whole
        · intro fs cs hall
          rw [Record.keptList_eq, List.map_map]
          exact (Arena.map_eq_of_forall₂ hall fun f _ c _ hf => hf.2.whole.symm).symm

/-- Reading the declarations of a document, each of which becomes a global. -/
theorem takes_globals {rs : List (Option Record)}
    (hrs : (∀ e, E e) ∨ (none ∉ rs ∧ ∀ r, some r ∈ rs → r.WellFormed)) (i : Nat)
    {w : Builder × Unit} (hw : Ready w.1) :
    Runs (Decode.globals i rs) w E fun _ w' => w.1.Extends w'.1 ∧ Ready w'.1 ∧
      (none ∉ rs ∧ ∀ r, some r ∈ rs → r.WellFormed) ∧
      ∃ js, w'.1.globals = w.1.globals ++ js ∧
        List.Forall₂ (fun o j => Shows w'.1 (Record.keptField o) j) rs js := by
  induction rs generalizing i w with
  | nil => exact Runs.pure w.2 ⟨.refl w.1, hw, by simp, [], by simp, .nil⟩
  | cons o rs ih =>
    rw [Decode.globals]
    cases o with
    | none =>
      rw [Decode.required]
      exact Runs.bind (Runs.throw (hrs.elim (fun hE => hE _) fun h => absurd (by simp) h.1))
    | some r =>
      rw [Decode.required]
      have hr : Acceptable E r := hrs.imp_right fun h => h.2 r (by simp)
      refine (takes_node r hr _).bind _ [] hw (fun _ => Nat.le_refl _) fun j w₁ h₁ hle₁ hj => ?_
      have hext : w₁.1.Extends { w₁.1 with globals := w₁.1.globals ++ [j] } :=
        ⟨⟨#[], by simp⟩, ⟨#[], by simp⟩, rfl, rfl⟩
      have hready : Ready { w₁.1 with globals := w₁.1.globals ++ [j] } :=
        ⟨h₁.ordered, h₁.known.renamed rfl ⟨#[], by simp⟩, h₁.span⟩
      have hrest : (∀ e, E e) ∨ (none ∉ rs ∧ ∀ r, some r ∈ rs → r.WellFormed) :=
        hrs.imp_right fun h =>
          ⟨fun hnone => h.1 (by simp [hnone]), fun r hr => h.2 r (by simp [hr])⟩
      refine Runs.bind (Runs.modify w₁.2 ?_)
      refine (ih hrest (i + 1) (w := (_, w₁.2)) hready).mono ?_
      rintro _ w₂ ⟨hext₂, hready₂, ⟨hpresent, hwell⟩, js, hglobals, hall⟩
      have hext₁ := hext.trans hext₂
      refine ⟨hle₁.target.trans hext₁, hready₂, ⟨by simpa using hpresent, ?_⟩, j :: js, ?_,
        .cons (hj.2.later hext₁ hready₂) hall⟩
      · intro c hc
        rcases List.mem_cons.1 hc with hc | hc
        · cases hc
          exact hj.1
        · exact hwell c hc
      · rw [hglobals, hle₁.globals, List.append_assoc, List.singleton_append]

/-- What reading the declarations of a document makes. -/
theorem plants_globals (rs : List (Option Record)) (i : Nat) (w : Builder × Unit) :
    Runs (Decode.globals i rs) w (fun _ : DecodeError => True) fun _ w' => w.1.Extends w'.1 ∧
      w'.1.size = w.1.size + Record.nodesIn (Record.keptList rs) ∧
      ∃ js, w'.1.globals = w.1.globals ++ js ∧ ∀ k, w.1.size < k → k ≤ w'.1.size →
        ∃ j ∈ js, w'.1.Leads j k := by
  induction rs generalizing i w with
  | nil =>
    exact Runs.pure w.2 ⟨.refl w.1, rfl, [], by simp, fun k hk hk' => absurd hk (Nat.not_lt.2 hk')⟩
  | cons o rs ih =>
    rw [Decode.globals]
    cases o with
    | none =>
      rw [Decode.required]
      exact Runs.bind (Runs.throw trivial)
    | some r =>
      rw [Decode.required]
      refine Runs.bind ((plants_node r _ w).mono ?_)
      rintro j w₁ ⟨hext, hglobals, hsize, hleads⟩
      have hext₁ : w₁.1.Extends { w₁.1 with globals := w₁.1.globals ++ [j] } :=
        ⟨⟨#[], by simp⟩, ⟨#[], by simp⟩, rfl, rfl⟩
      refine Runs.bind (Runs.modify w₁.2 ?_)
      refine (ih (i + 1) (_, w₁.2)).mono ?_
      rintro _ w₂ ⟨hext₂, hsize₂, js, hglobals₂, hleads₂⟩
      have hsize₁ : w₁.1.size = w.1.size + r.kept.nodes := by
        simpa [Record.keptField, Record.nodesOf] using hsize
      have hext₃ := hext₁.trans hext₂
      refine ⟨hext.trans hext₃, ?_, j :: js, ?_, fun k hk hk' => ?_⟩
      · rw [hsize₂]
        simp only [Record.keptList, Record.nodesIn, Record.keptField, Record.nodesOf, Arena.size]
          at hsize₁ ⊢
        omega
      · rw [hglobals₂, hglobals, List.append_assoc, List.singleton_append]
      · by_cases hle : k ≤ w₁.1.size
        · obtain ⟨i, hi, hik⟩ := hleads k hk hle
          rw [Multiset.mem_singleton.1 hi] at hik
          exact ⟨j, by simp, hext₃.leads hik⟩
        · obtain ⟨i, hi, hik⟩ := hleads₂ k (Nat.lt_of_not_le hle) hk'
          exact ⟨i, by simp [hi], hik⟩

theorem ready_empty : Ready {} := by
  refine ⟨fun i n hn => ?_, known_empty, rfl⟩
  cases i <;> simp at hn

/-- A builder with the declarations of a document. -/
structure Built (m : Module) (b : Builder) : Prop where
  ready : Ready b
  grammar : none ∉ m.globals ∧ ∀ r, some r ∈ m.globals → r.WellFormed
  size : b.size = m.kept.nodes
  shown : List.Forall₂ (fun o j => Shows b (Record.keptField o) j) m.globals b.globals
  held : ∀ k, 0 < k → k ≤ b.size → ∃ g ∈ b.globals, b.Leads g k

theorem built_of_globals {m : Module} {b : Builder} (h : Decode.globals 0 m.globals {} = .ok () b) :
    Built m b := by
  have htaken : Runs (Decode.globals 0 m.globals) (({}, ()) : Builder × Unit) _ _ :=
    takes_globals (E := fun _ => True) (.inl fun _ => trivial) 0 ready_empty
  have hplanted := plants_globals m.globals 0 ({}, ())
  obtain ⟨_, _, hready, hgrammar, js, hjs, hall⟩ := htaken.ok h
  obtain ⟨_, _, hsize, ks, hks, hleads⟩ := hplanted.ok h
  simp only [List.nil_append] at hjs hks
  rw [← hjs] at hall
  rw [← hks] at hleads
  have hempty : ({} : Builder).size = 0 := rfl
  simp only [hempty, Nat.zero_add] at hsize hleads
  exact ⟨hready, hgrammar, hsize, hall, hleads⟩

theorem decode_ok_iff {m : Module} {p : Program} : m.decode = .ok p ↔
    (m.version = 0 ∨ m.version = formatVersion) ∧ ∃ b, Decode.globals 0 m.globals {} = .ok () b ∧
      p = b.build := by
  unfold Module.decode
  split
  · next hv => simp [hv.1, hv.2]
  · next hv =>
    have hversion : m.version = 0 ∨ m.version = formatVersion := by
      simpa [Decidable.or_iff_not_imp_left] using hv
    split
    · next b hb =>
      simp only [hversion, hb, true_and, EStateM.Result.ok.injEq, Except.ok.injEq,
        exists_eq_left', @eq_comm _ p]
    · next hb => simp [hb]

theorem decode_fit {m : Module} {p : Program} (h : m.decode = .ok p) : p.Fit := by
  obtain ⟨_, hgood, _, _, _, rfl⟩ := decode_good h
  exact hgood.toFit.build

/-- Whatever is read is in the tree of the module. -/
theorem decode_inTree {m : Module} {p : Program} (h : m.decode = .ok p) {i : NodeId}
    (hi : i ∈ p.ids) : p.inTree i = true := by
  have hfit := decode_fit h
  obtain ⟨_, b, hb, rfl⟩ := decode_ok_iff.1 h
  have hbuilt := built_of_globals hb
  obtain ⟨hpos, hle⟩ := Arena.mem_ids.1 hi
  rw [b.size_build] at hle
  rcases Nat.lt_or_ge b.size i with hlt | hge
  · have hroot : i = b.build.root := b.root_build ▸ Nat.le_antisymm hle hlt
    exact hroot ▸ b.build.inTree_root
  · obtain ⟨g, hg, hgi⟩ := hbuilt.held i hpos hge
    refine Relation.ReflTransGen.rec (motive := fun i _ => b.build.inTree i = true) ?_ ?_ hgi
    · exact hfit.inTree_global (b.globals_build ▸ hg)
    · intro j c _ hc hj
      obtain ⟨n, hn, hc⟩ := Arena.mem_children.1 hc
      exact hfit.inTree_child hj (Arena.mem_children.2 ⟨n, Builder.node?_build_of hn, hc⟩)

/-- Reading accepts exactly the documents of the grammar. What it makes of one has a node for each
record that counts, all of them in the tree of the module, and is written back as what counts of the
document. -/
theorem decode_accepts (m : Module) :
    ((∃ p, m.decode = .ok p) ↔ m.WellFormed) ∧
      ∀ p, m.decode = .ok p → p.size = m.kept.nodes + 1 ∧ (∀ i ∈ p.ids, p.inTree i = true) ∧
        ofProgram p = m.kept := by
  refine ⟨⟨?_, fun hm => ?_⟩, fun p hp => ?_⟩
  · rintro ⟨p, hp⟩
    obtain ⟨hversion, b, hb, _⟩ := decode_ok_iff.1 hp
    obtain ⟨hpresent, hglobals⟩ := (built_of_globals hb).grammar
    exact ⟨hversion, hpresent, hglobals⟩
  · obtain ⟨_, b, _, hb, _⟩ :=
      (takes_globals (E := fun _ => False) (.inr ⟨hm.present, hm.globals⟩) 0
      (w := ({}, ())) ready_empty).succeeds
    exact ⟨b.build, decode_ok_iff.2 ⟨hm.version, b, hb, rfl⟩⟩
  · have hfit := decode_fit hp
    obtain ⟨_, b, hb, rfl⟩ := decode_ok_iff.1 hp
    have hbuilt := built_of_globals hb
    refine ⟨by rw [b.size_build, hbuilt.size], fun i => decode_inTree hp, ?_⟩
    have hwhole : ∀ j, j ≤ b.size → whole b.build.toArena j = whole b.toArena j := fun j hj =>
      whole_kept hbuilt.ready.ordered hfit.ordered (fun _ _ => Builder.node?_build_of)
        (fun _ _ _ _ _ => rfl) hj
    have hmap : b.globals.map (whole b.build.toArena) = m.globals.map Record.keptField :=
      (Arena.map_eq_of_forall₂ hbuilt.shown fun o _ j _ h =>
        ((hwhole j h.range).trans h.whole).symm).symm
    rw [ofProgram, Module.kept, Record.keptList_eq, ← hmap, b.globals_build]
    rfl

end Document
end ShaderLoom
