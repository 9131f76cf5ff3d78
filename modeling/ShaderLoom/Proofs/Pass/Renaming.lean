import ShaderLoom.Proofs.Copy.Trim
import ShaderLoom.Proofs.Pass.Rename
import ShaderLoom.Proofs.Symbols

/-! What renaming makes of a program: the same tree, in which a symbol has become one and the same
symbol wherever it is renamed. A selected symbol becomes a new one, and any other stays. -/
namespace ShaderLoom

/-- A node pushed to the target is what becomes of a node. -/
theorem Copy.Account.runs_push {κ σ : Type} {A : Account κ σ} {w : World κ σ} {l F : List NodeId}
    {E : Misuse → Prop} (hA : A.Stable) (hw : A.Holds w l) {s : Shape Symbol NodeId} {i : NodeId}
    (hs : s.Spelled) (hr : ∀ c ∈ s.required, c ≠ 0) (hl : ∀ x, (s.slots ++ F).count x ≤ l.count x)
    (hi : i ≠ 0) (ht : A.base.source.inTree i = true)
    (hd : ∀ w' j, w'.1.target.shape? j = some s → A.Later w w' → A.special w' i j ∧ A.side w' i j) :
    Runs (Edit.build (Build.push s)) w E fun j w' => j ≠ 0 ∧ A.Holds w' (j :: F) ∧ A.Later w w' ∧
      A.Out w' i j := by
  refine Runs.of_ok (a := w.1.target.size + 1) rfl (pushed w s {} i).2 ?_
  have hlater := hw.later_pushed s {} i
  have hshape : (pushed w s {} i).1.target.shape? (w.1.target.size + 1) = some s := by
    simp only [Arena.shape?, pushed, Builder.Mode.node?_push, if_true, Option.map_some]
  obtain ⟨hspecial, hside⟩ := hd _ _ hshape hlater
  exact ⟨Nat.succ_ne_zero _, hw.push hA hs hr hl hi ht (.inr hspecial), hlater,
    .inr ⟨hi, by simp [pushed], hside⟩⟩

namespace Rename

open Copy

variable {p : Program} {config : RenameConfig}

/-- Component selections and called builtin functions keep their names, where resolution found
them. -/
def keeps (p : Program) (i : NodeId) : Bool :=
  match p.shape? i with
  | some (.expr (.member _ _)) => (p.facts.exprs[i]?).any (·.swizzle.isSome)
  | some (.expr (.ident _)) => isBuiltinTarget p i
  | _ => false

/-- A symbol stands in the tree where symbols are renamed. -/
def Occurs (p : Program) (s : Symbol) : Prop :=
  ∃ i n, p.inTree i = true ∧ p.node? i = some n ∧ keeps p i = false ∧ s ∈ n.shape.names

/-- What has become of the symbols that were met: each has its own symbol, selected ones a new
one. -/
structure Tracks (p : Program) (config : RenameConfig) (table : SymbolTable)
    (symbols : List (Symbol × Symbol)) : Prop where
  more : ∃ more, table.names = p.symbols.names ++ more
  occurs : ∀ x ∈ symbols, Occurs p x.1
  keys : (symbols.map Prod.fst).Nodup
  values : (symbols.map Prod.snd).Nodup
  kept : ∀ x ∈ symbols, selects config (p.nameOf x.1) = false → x.2 = x.1
  fresh : ∀ x ∈ symbols, selects config (p.nameOf x.1) = true →
    ∃ name, table.Names x.2 name ∧ name ∉ p.symbols.names.toList ∧
      ∃ k, name = SymbolTable.candidate SymbolTable.defaultName k

theorem Occurs.names (hk : p.Known) {s : Symbol} (h : Occurs p s) : ∃ x, p.symbols.Names s x := by
  obtain ⟨i, n, ht, hn, _, hs⟩ := h
  exact hk i n ht hn s hs

namespace Tracks

/-- Nothing has become anything yet. -/
theorem nil (h : ∃ more, table.names = p.symbols.names ++ more) : Tracks p config table [] :=
  ⟨h, by simp, .nil, .nil, by simp, by simp⟩

variable {table table' : SymbolTable} {symbols : List (Symbol × Symbol)}

/-- More names in the table change nothing. -/
theorem extend (h : Tracks p config table symbols)
    (hmore : ∃ more, table'.names = table.names ++ more) : Tracks p config table' symbols := by
  refine { h with more := ?_, fresh := fun x hx hs => ?_ }
  · obtain ⟨more, hm⟩ := h.more
    obtain ⟨more', hm'⟩ := hmore
    exact ⟨more ++ more', by rw [hm', hm, Array.append_assoc]⟩
  · obtain ⟨name, hname, hnot⟩ := h.fresh x hx hs
    exact ⟨name, hname.extend hmore, hnot⟩

/-- Whatever a symbol has become has a name. -/
theorem named (h : Tracks p config table symbols) (hk : p.Known) {x : Symbol × Symbol}
    (hx : x ∈ symbols) : ∃ name, table.Names x.2 name := by
  cases hs : selects config (p.nameOf x.1) with
  | true =>
    obtain ⟨name, hname, _⟩ := h.fresh x hx hs
    exact ⟨name, hname⟩
  | false =>
    obtain ⟨name, hname⟩ := (h.occurs x hx).names hk
    rw [h.kept x hx hs]
    exact ⟨name, hname.extend h.more⟩

/-- No symbol of the program is new. -/
theorem ne_new (h : Tracks p config table symbols) {x : Symbol × Symbol} (hx : x ∈ symbols)
    (hs : selects config (p.nameOf x.1) = true) {s : Symbol} {name : String}
    (hname : p.symbols.Names s name) : x.2 ≠ s := by
  rintro rfl
  obtain ⟨name', hname', hnot, _⟩ := h.fresh x hx hs
  cases hname'.name_eq (hname.extend h.more)
  exact hnot hname.mem

/-- One more symbol that stays. -/
theorem keep (h : Tracks p config table symbols) (hk : p.Known) {s : Symbol} (hs : Occurs p s)
    (hnot : s ∉ symbols.map Prod.fst) (hsel : selects config (p.nameOf s) = false) :
    Tracks p config table ((s, s) :: symbols) where
  more := h.more
  occurs := List.forall_mem_cons.2 ⟨hs, h.occurs⟩
  keys := List.nodup_cons.2 ⟨hnot, h.keys⟩
  values := by
    refine List.nodup_cons.2 ⟨fun hmem => ?_, h.values⟩
    obtain ⟨x, hx, rfl⟩ := List.mem_map.1 hmem
    obtain ⟨name, hname⟩ := hs.names hk
    cases hxs : selects config (p.nameOf x.1) with
    | true => exact h.ne_new hx hxs hname rfl
    | false =>
      rw [h.kept x hx hxs] at hnot
      exact hnot (List.mem_map_of_mem hx)
  kept := List.forall_mem_cons.2 ⟨fun _ => rfl, h.kept⟩
  fresh := List.forall_mem_cons.2 ⟨fun hsel' => (Bool.false_ne_true (hsel.symm.trans hsel')).elim,
    h.fresh⟩

/-- One more symbol that becomes a new one. -/
theorem renew (h : Tracks p config table symbols) (hk : p.Known) {s : Symbol} (hs : Occurs p s)
    (hnot : s ∉ symbols.map Prod.fst) (hsel : selects config (p.nameOf s) = true) :
    Tracks p config (table.fresh "").2 ((s, (table.fresh "").1) :: symbols) := by
  obtain ⟨name, hnew, hsymbol, hnames⟩ := table.fresh_new ""
  have hgrown := h.extend ⟨#[name], hnames.trans Array.push_eq_append⟩
  obtain ⟨k, hname⟩ := table.fresh_candidate ""
  have hpushed := SymbolTable.names_push hnames
  rw [← hsymbol] at hpushed
  obtain rfl := hname.name_eq hpushed
  refine { hgrown with
    occurs := List.forall_mem_cons.2 ⟨hs, h.occurs⟩
    keys := List.nodup_cons.2 ⟨hnot, h.keys⟩
    values := List.nodup_cons.2 ⟨fun hmem => ?_, h.values⟩
    kept := List.forall_mem_cons.2 ⟨fun hsel' => (Bool.false_ne_true (hsel'.symm.trans hsel)).elim,
      h.kept⟩
    fresh := List.forall_mem_cons.2 ⟨fun _ => ⟨_, hname, fun hmem => ?_, k, rfl⟩, hgrown.fresh⟩ }
  · obtain ⟨x, hx, hx'⟩ := List.mem_map.1 hmem
    obtain ⟨_, hbefore⟩ := h.named hk hx
    have hle := hbefore.le_size.2
    rw [hx', hsymbol] at hle
    exact Nat.not_succ_le_self _ hle
  · obtain ⟨more, hmore⟩ := h.more
    refine hnew ?_
    rw [hmore, Array.toList_append]
    exact List.mem_append_left _ hmem

end Tracks

/-- The session before the copy. -/
def base (p : Program) (config : RenameConfig) : Session Keep Unit :=
  { Session.start p () with
    handlers := [(.kind "Member" .expression, .component), (.kind "Ident" .expression, .builtin)]
    symbolRule := some (rule p config) }

/-- The account of a copy with other names. -/
def account (p : Program) (config : RenameConfig) : Account Keep Unit where
  mode := ⟨⟨True, False, False⟩, True⟩
  base := base p config
  name w s t := w.1.symbols.lookup s = some t
  side _ _ _ := True
  extra _ _ := False
  special w i j := keeps p i = true ∧ ∃ x y, p.shape? i = some x ∧ w.1.target.shape? j = some y ∧
    Shape.Rel Eq (Program.Comes w.2) (List.Forall₂ (Program.Comes w.2)) x y
  parts i := keeps p i = false
  state w := Tracks p config w.1.target.symbols w.1.symbols

theorem Comes.grown {κ σ : Type} {w w' : World κ σ} (h : Grown w w') {i j : NodeId}
    (hij : Program.Comes w.2 i j) : Program.Comes w'.2 i j := by
  refine hij.imp_right fun ⟨hi, hj⟩ => ⟨hi, ?_⟩
  rw [h.origin j (by rwa [hj]), hj]

theorem account_stable : (account p config).Stable where
  name h hs := h.symbols _ _ hs
  side _ _ := trivial
  extra _ h := h
  special h := by
    rintro ⟨hkeeps, x, y, hx, hy, hrel⟩
    exact ⟨hkeeps, x, y, hx, h.target.shape? hy,
      hrel.mono (fun _ _ h => h) (fun _ _ => Comes.grown h)
      fun _ _ hl => hl.imp fun _ _ => Comes.grown h⟩
  state h _ hs := fun ht => by
    have hgrown := Tracks.extend ht h.target.names
    rwa [← hs] at hgrown

theorem mem_of_lookup {s t : Symbol} {symbols : List (Symbol × Symbol)}
    (h : symbols.lookup s = some t) : (s, t) ∈ symbols := by
  obtain ⟨before, after, rfl, _⟩ := List.lookup_eq_some_iff.1 h
  simp

theorem lookup_eq_none {s : Symbol} {symbols : List (Symbol × Symbol)}
    (h : symbols.lookup s = none) : s ∉ symbols.map Prod.fst := by
  intro hmem
  obtain ⟨x, hx, rfl⟩ := List.mem_map.1 hmem
  simpa using List.lookup_eq_none_iff.1 h x hx

/-- The copy of a symbol is what it has become, now or before. -/
theorem turns_copySymbol (hk : p.Known) {s : Symbol} (hs : Occurs p s) :
    (account p config).Turns (fun _ => False) (Edit.copySymbol s) [] (fun _ => [])
      fun w t => (account p config).name w s t := by
  intro w F hw
  obtain ⟨x, hx⟩ := hs.names hk
  unfold Edit.copySymbol
  rw [if_neg hx.1]
  refine Runs.bind (Runs.get ?_)
  have hrule : w.1.symbolRule = some (rule p config) := hw.tables.symbolRule
  split
  · next t hlookup => exact Runs.pure w.2 ⟨hw, .refl w, hlookup⟩
  · next rule' hlookup hrule' =>
    cases hrule.symm.trans hrule'
    have hnot := lookup_eq_none hlookup
    have htracks : Tracks p config (rule p config s w.1.target.symbols).2
        ((s, (rule p config s w.1.target.symbols).1) :: w.1.symbols) := by
      unfold rule
      split
      · next hsel => exact hw.state.renew hk hs hnot hsel
      · next hsel => exact hw.state.keep hk hs hnot (by simpa using hsel)
    obtain ⟨hmore, hempty⟩ := rule_tame p config s w.1.target.symbols hw.good.named
    refine Runs.bind (Runs.set w.2 (Runs.pure w.2 ?_))
    have hlater : (account p config).Later w ({ w.1 with
        target := { w.1.target with symbols := (rule p config s w.1.target.symbols).2 }
        symbols := (s, (rule p config s w.1.target.symbols).1) :: w.1.symbols }, w.2) := by
      refine ⟨⟨⟨rfl, rfl, rfl, rfl, rfl, rfl, rfl, rfl, rfl⟩, ⟨⟨#[], by simp⟩, hmore, rfl, rfl⟩,
        fun _ _ => rfl, fun r t hr => ?_⟩, rfl, fun _ => rfl⟩
      have hne : r ≠ s := by
        rintro rfl
        rw [hlookup] at hr
        cases hr
      simpa [List.lookup_cons, beq_false_of_ne hne] using hr
    exact ⟨hw.alike account_stable hlater.toGrown rfl rfl (hw.good.renamed hempty) htracks, hlater,
      List.lookup_cons_self⟩
  · next hnone =>
    rw [hrule] at hnone
    cases hnone

theorem account_plain (hp : p.Fit) (hk : p.Known) : (account p config).Plain fun _ => False where
  source := hp
  front := rfl
  back := rfl
  name {i node} ht hn hparts _ hs := turns_copySymbol hk ⟨i, node, ht, hn, hparts, hs⟩

/-- Only component selections and the targets of calls keep their names. -/
theorem keeps_cases {i : NodeId} (h : keeps p i = true) :
    (∃ o s, p.shape? i = some (.expr (.member o s)) ∧
      (p.facts.exprs[i]?).any (·.swizzle.isSome) = true) ∨
      ∃ s, p.shape? i = some (.expr (.ident s)) ∧ isBuiltinTarget p i = true := by
  unfold keeps at h
  split at h
  · next o s hs => exact .inl ⟨o, s, hs, h⟩
  · next s hs => exact .inr ⟨s, hs, h⟩
  · cases h

theorem find_member (o : NodeId) (s : Symbol) :
    (base p config).handlers.find?
    (fun (t, _) => (Shape.expr (ν := Symbol) (.member o s)).tag.is t) =
      some (.kind "Member" .expression, .component) := rfl

theorem find_ident (s : Symbol) :
    (base p config).handlers.find? (fun (t, _) => (Shape.expr (α := NodeId) (.ident s)).tag.is t) =
      some (.kind "Ident" .expression, .builtin) := rfl

/-- Nodes that keep their names are made anew but for the names, and the others as usual. -/
theorem account_handled (hp : p.Fit) :
    (account p config).Handled (fun _ => False) (within p) act where
  replaced _ _ _ _ _ _ _ _ _ h := nomatch h
  side _ _ _ _ _ _ _ _ := trivial
  anew n i node _ _ hn _ hnone := by
    have hs : p.shape? i = some node.shape := Option.map_eq_some_iff.2 ⟨node, hn, rfl⟩
    refine Bool.eq_false_iff.2 fun hkeeps => ?_
    rcases keeps_cases hkeeps with ⟨o, s, hx, _⟩ | ⟨s, hx, _⟩
    · rw [Option.some.inj (hs.symm.trans hx)] at hnone
      cases (find_member o s).symm.trans hnone
    · rw [Option.some.inj (hs.symm.trans hx)] at hnone
      cases (find_ident s).symm.trans hnone
  family n i t h node hc hi h0 ht hn _ hfind w F hw := by
    have hs : p.shape? i = some node.shape := Option.map_eq_some_iff.2 ⟨node, hn, rfl⟩
    have hsource : w.1.source = p := hw.tables.source
    unfold act
    refine Runs.bind (Runs.get ?_)
    rw [hsource]
    dsimp only
    split
    · next object s hx =>
      have hshape : node.shape = .expr (.member object s) := Option.some.inj (hs.symm.trans hx)
      split
      · next hswizzle =>
        have hkeeps : keeps p i = true := by simpa [keeps, hx] using hswizzle
        have hslot : object ∈ node.shape.slots := by simp [hshape, Shape.slots]
        have hreach := (reach_within (A := account p config) hp).child n i node hi hn object hslot
        refine (hc object hreach).bind F hw ?_ fun o w₁ h₁ l₁ ho => ?_
        · intro x
          simp only [hshape, Shape.slots, List.flatMap_cons, List.flatMap_nil, Account.around,
            List.count_append, List.count_nil]
          omega
        · have ho0 : o ≠ 0 :=
            ho.ne_zero h₁ (hp.present hn object (by simp [hshape, Shape.required, Shape.slots]))
          refine (Account.runs_push (F := F) account_stable h₁ (s := .expr (.member o s))
            trivial ?_ ?_ h0 ht fun w' j hj hle =>
              ⟨⟨hkeeps, _, _, hx, hj, .member ?_ rfl⟩, trivial⟩).mono ?_
          · simpa [Shape.required, Shape.slots] using ho0
          · simp [Shape.slots]
          · exact (ho.grown account_stable hle.toGrown).imp_right fun h => ⟨h.1, h.2.1⟩
          · exact fun j w₂ h => .inr ⟨h.1, h.2.1, l₁.trans h.2.2.1, h.2.2.2⟩
      · next hswizzle =>
        refine Runs.pure w.2 (.inl ⟨rfl, rfl, ?_⟩)
        change keeps p i = false
        simpa [keeps, hx] using hswizzle
    · next s hx =>
      have hshape : node.shape = .expr (.ident s) := Option.some.inj (hs.symm.trans hx)
      split
      · next htarget =>
        have hkeeps : keeps p i = true := by simpa [keeps, hx] using htarget
        refine (Account.runs_push (F := F) account_stable hw (s := .expr (.ident s))
          trivial ?_ ?_ h0 ht fun w' j hj _ =>
            ⟨⟨hkeeps, _, _, hx, hj, .ident rfl⟩, trivial⟩).mono ?_
        · simp [Shape.required, Shape.slots]
        · simp [Shape.slots, hshape]
        · exact fun j w₂ h => .inr h
      · next htarget =>
        refine Runs.pure w.2 (.inl ⟨rfl, rfl, ?_⟩)
        change keeps p i = false
        simpa [keeps, hx] using htarget
    · next hnot₁ hnot₂ =>
      refine Runs.pure w.2 (.inl ⟨rfl, rfl, Bool.eq_false_iff.2 fun hkeeps => ?_⟩)
      rcases keeps_cases hkeeps with ⟨o, s, hx, _⟩ | ⟨s, hx, _⟩
      · rw [Option.some.inj (hs.symm.trans hx)] at hfind
        cases (find_member o s).symm.trans hfind
        exact hnot₁ _ _ rfl hx
      · rw [Option.some.inj (hs.symm.trans hx)] at hfind
        cases (find_ident s).symm.trans hfind
        exact hnot₂ _ rfl hx

/-- What a symbol in a node becomes. -/
def Named (p : Program) (symbols : List (Symbol × Symbol)) (i : NodeId) (s t : Symbol) : Prop :=
  if keeps p i = true then s = t else symbols.lookup s = some t

/-- Copying with other names succeeds. -/
theorem copyModule_echoes (hp : p.Fit) (hk : p.Known) (config : RenameConfig) :
    ∃ (s : Session Keep Unit) (origin : NodeId → NodeId),
      Edit.copyModule (Edit.copy act) (base p config) = .ok () s ∧ s.copied = true ∧ s.target.Fit ∧
      s.target.build.Counted ∧ s.target.build.Known ∧
      s.target.diagnostics = p.diagnostics.without .resolver ∧
      Tracks p config s.target.symbols s.symbols ∧
      Program.Echoes (Named p s.symbols) (fun _ => False) origin p s.target.build := by
  have hstart :=
    Account.Holds.start (A := account p config) rfl rfl hp.named rfl (fun _ => rfl) (fun _ => rfl)
    (fun _ => rfl) (fun _ _ => by simp [account, base, Session.start])
      (.nil ⟨#[], by simp [account, base, Session.start]⟩)
  obtain ⟨_, s, origin, hs, hw, hgrown, hcopied, hglobals⟩ := (Account.copyModule account_stable
    (account_plain hp hk) (reach_within hp) (account_handled hp) (fun _ => within_global hp)
    (fun h => absurd h (by simp [account, base, Session.start])) hstart).succeeds
  have hcount : s.target.build.Counted := hw.good.counted_build trivial
  have not_gone : ∀ {x}, ¬ (account p config).gone x := by
    simp [Account.gone, account, base, Session.start]
  have hcome : ∀ {xs ys}, List.Forall₂ ((account p config).Out (s, origin)) xs ys →
      Program.ComeLists (fun _ => False) origin xs ys :=
    fun h => .of_forall₂ (h.imp fun _ _ h => h.imp_right fun h => ⟨h.1, h.2.1⟩) fun _ h => h
  have hlists : ∀ xs ys, (account p config).Lists (s, origin) xs ys →
      Program.ComeLists (fun _ => False) origin xs ys :=
    fun xs ys h => hcome (h.listed.forall₂ (fun _ h => h.2) fun _ => not_gone)
  have hnode : ∀ k, origin k ≠ 0 → p.inTree (origin k) = true ∧ ∃ n m, p.node? (origin k) = some n ∧
      s.target.node? k = some m ∧ Shape.Rel (Named p s.symbols (origin k)) (Program.Comes origin)
        (Program.ComeLists (fun _ => False) origin) n.shape m.shape := by
    intro k hk
    obtain ⟨htree, ⟨hparts, n, m, hn, hm, _, hrel⟩ | ⟨hkeeps, x, y, hx, hy, hrel⟩⟩ := hw.traced k hk
    · refine ⟨htree, n, m, hn, hm,
        hrel.mono (fun x y hxy => ?_) (fun _ _ h => h.imp_right fun h => ⟨h.1, h.2.1⟩) hlists⟩
      unfold Named
      rw [if_neg (Bool.eq_false_iff.1 hparts)]
      exact hxy
    · obtain ⟨n, hn, rfl⟩ := Option.map_eq_some_iff.1 hx
      obtain ⟨m, hm, rfl⟩ := Option.map_eq_some_iff.1 hy
      refine ⟨htree, n, m, hn, hm, hrel.mono (fun x y hxy => ?_) (fun _ _ h => h) fun _ _ h =>
        .of_forall₂ h fun _ h => h⟩
      unfold Named
      rwa [if_pos hkeeps]
  have htraced : ∀ k, s.target.build.inTree k = true → k = s.target.build.root ∨ origin k ≠ 0 := by
    refine fun k =>
      hw.traced_of_inTree (j := k) trivial hglobals (fun _ _ => ⟨rfl, rfl⟩) (fun _ h => h) ?_
    rintro i j m ⟨_, x, y, _, hy, hrel⟩ hm c hc h0
    cases (Option.map_eq_some_iff.2 ⟨m, hm, rfl⟩ : s.target.shape? j = _).symm.trans hy
    obtain ⟨z, _, hz⟩ := hrel.mem_slots (fun _ _ h => Document.exists_of_forall₂ h) c hc
    rcases hz with ⟨_, rfl⟩ | ⟨hz, rfl⟩
    · exact absurd rfl h0
    · exact hz
  refine ⟨s, origin, hs, hcopied, hw.good.toFit, hcount, ?_, hgrown.target.diagnostics, hw.state,
    ?_, htraced, ?_⟩
  · intro j m hj hm t ht
    rw [Builder.node?_build, ← Builder.root_build] at hm
    split at hm
    · cases hm
      simp [Shape.names] at ht
    · next hr =>
      obtain ⟨htree, n, m', hn, hm', hrel⟩ := hnode j ((htraced j hj).resolve_left hr)
      cases hm.symm.trans hm'
      obtain ⟨x, hx, hxt⟩ := hrel.mem_names t ht
      obtain ⟨name, hname⟩ := hk _ n htree hn x hx
      unfold Named at hxt
      split at hxt
      · cases hxt
        exact ⟨name, hname.extend (Tracks.more hw.state)⟩
      · exact Tracks.named hw.state hk (mem_of_lookup hxt)
  · intro k hk
    obtain ⟨htree, n, m, hn, hm, hrel⟩ := hnode k hk
    exact ⟨htree, n, m, hn, Builder.node?_build_of hm, hrel⟩
  · obtain ⟨ys, hys, _, hlist⟩ := hglobals trivial fun _ _ => ⟨rfl, rfl⟩
    rw [Builder.globals_build, hys]
    exact hcome ((hlist trivial).forall₂ (fun _ h => h) fun _ => not_gone)

end Rename
end ShaderLoom
