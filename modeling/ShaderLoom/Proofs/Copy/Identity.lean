import ShaderLoom.Proofs.Copy.Engine
import ShaderLoom.Proofs.Document.RoundTrip

/-! Copying a program in which nothing is to change. The copy reads the same as the program, and so
does the copy of the copy. -/
namespace ShaderLoom

/-- Every name in the tree is a symbol of the table. -/
def Program.Known (p : Program) : Prop :=
  ∀ i n, p.inTree i = true → p.node? i = some n → ∀ s ∈ n.shape.names, ∃ x, p.symbols.Names s x

theorem Builder.Known.build {b : Builder} (h : b.Known) : b.build.Known := by
  intro i n _ hn s hs
  rw [node?_build] at hn
  split at hn
  · cases hn
    simp [Shape.names] at hs
  · exact h i n hn s hs

namespace Copy

/-- A list in which nothing is left out and to which nothing is added. -/
theorem Listed.forall₂ {extra gone : NodeId → Prop} {out : NodeId → NodeId → Prop}
    {xs ys : List NodeId} (h : Listed extra gone out xs ys) (he : ∀ y, ¬ extra y)
    (hg : ∀ x, ¬ gone x) : List.Forall₂ out xs ys := by
  induction h with
  | nil => exact .nil
  | insert hy _ _ => exact absurd hy (he _)
  | keep _ hxy _ ih => exact .cons hxy ih
  | drop hx _ _ => exact absurd hx (hg _)

theorem Listed.of_forall₂ {extra gone : NodeId → Prop} {out : NodeId → NodeId → Prop}
    {xs ys : List NodeId} (h : List.Forall₂ out xs ys) (hg : ∀ x, ¬ gone x) :
    Listed extra gone out xs ys := by
  induction h with
  | nil => exact .nil
  | cons hxy _ ih => exact .keep (hg _) hxy ih

section

variable {κ σ : Type} {A : Account κ σ} {w : World κ σ} {l : List NodeId}

/-- Where nothing is put in and what handlers make holds copies only, every node in the tree of the
target comes from a node of the source. -/
theorem Account.Holds.traced_of_inTree (h : A.Holds w l) (hc : A.mode.closed) (hg : A.Globals [] w)
    (hins : ∀ g ∈ A.base.source.globals, A.base.before g = [] ∧ A.base.after g = [])
    (he : ∀ y, ¬ A.extra w y)
    (hs : ∀ {i j m}, A.special w i j → w.1.target.node? j = some m → ∀ c ∈ m.shape.slots,
      c ≠ 0 → w.2 c ≠ 0) {j : NodeId} (hj : w.1.target.build.inTree j = true) :
    j = w.1.target.build.root ∨ w.2 j ≠ 0 := by
  have hout : ∀ x y, A.Out w x y → y ≠ 0 → w.2 y ≠ 0 := by
    rintro x y (⟨_, rfl⟩ | ⟨hx, hy, _⟩) h0
    · exact absurd rfl h0
    · rwa [hy]
  refine h.good.toFit.build.tree_induct (P := fun j => j = w.1.target.build.root ∨ w.2 j ≠ 0)
    (.inl rfl) ?_ hj
  intro i n c _ hi hn hc h0
  right
  rw [Builder.node?_build, ← Builder.root_build] at hn
  split at hn
  · obtain ⟨ys, hys, hall, _⟩ := hg ‹_› hins
    cases hn
    obtain ⟨x, _, _, hxy⟩ := hall c (by simpa [hys, Shape.slots] using hc)
    exact hout x c hxy h0
  · next hr =>
    obtain ⟨_, hd⟩ := h.traced i (hi.resolve_left hr)
    rcases hd with ⟨_, _, m, _, hm, _, hrel⟩ | hd
    · cases hn.symm.trans hm
      have hlists : ∀ xs ys, A.Lists w xs ys → ∀ y ∈ ys, ∃ x ∈ xs, A.Out w x y := by
        intro xs ys hl y hy
        obtain ⟨x, hx, _, ho⟩ := (hl.listed.mem hy).resolve_left fun hy => he y hy.2
        exact ⟨x, hx, ho⟩
      obtain ⟨x, _, hxy⟩ := hrel.mem_slots hlists c hc
      exact hout x c hxy h0
    · exact hs hd hn c hc h0

end

/-- The nodes that are copied to a depth: those of the tree below it. -/
def within (p : Program) (n : Nat) (i : NodeId) : Prop :=
  i < n ∧ (i ≠ 0 → p.inTree i = true ∧ i ≠ p.root)

/-- The globals of a program are not too deep to be copied. -/
theorem within_global {p : Program} (hp : p.Fit) {g : NodeId} (hg : g ∈ p.globals) :
    within p (2 * p.size + 2) g := by
  have hlt := (hp.globals g hg).2
  refine ⟨?_, fun _ => ⟨hp.inTree_global hg, Nat.ne_of_lt hlt⟩⟩
  rw [hp.root] at hlt
  grind

/-- Copying a node of the tree leads to nodes of the tree only. -/
theorem reach_within {κ σ : Type} {A : Account κ σ} (hp : A.base.source.Fit) :
    A.Reach (fun _ => False) (within A.base.source) where
  zero i hi := absurd hi.1 (Nat.not_lt_zero i)
  inTree n i hi h0 := .inl ⟨hp.node_of_inTree (hi.2 h0).1, (hi.2 h0).1⟩
  child n i node hi hn c hc := by
    have hlt := hp.below hn c hc
    have hi0 : i ≠ 0 := Nat.ne_of_gt (Arena.range_of_node? hn).1
    obtain ⟨ht, hr⟩ := hi.2 hi0
    refine ⟨Nat.lt_of_lt_of_le hlt (Nat.le_of_lt_succ hi.1), fun h0 => ⟨?_, ?_⟩⟩
    · exact hp.inTree_child ht (Arena.mem_children.2 ⟨node, hn, hc, h0⟩)
    · exact Nat.ne_of_lt (Nat.lt_trans hlt (hp.lt_root ht hr).2)
  module n hi := (hi.2 hp.root_pos).2 rfl

section Unchanged

variable {κ σ : Type} {p : Program} {s : Session κ σ} {state : σ} {handlers : List (Tag × κ)}
    {act : Act κ σ}

/-- The account of copies that go on from a session and change nothing. -/
def ongoing (s : Session κ σ) : Account κ σ where
  mode := ⟨⟨True, False, False⟩, True⟩
  base := s
  name w x y := x = y ∧ ∃ text, s.source.symbols.Names x text ∧ w.1.target.symbols.Names y text
  side _ _ _ := True
  extra _ _ := False
  special _ _ _ := False
  parts _ := True
  state w := w.1.symbols = [] ∧ ∃ more, w.1.target.symbols.names = s.source.symbols.names ++ more

theorem ongoing_stable : (ongoing s).Stable where
  name h := fun ⟨hs, x, hp, hx⟩ => ⟨hs, x, hp, hx.extend h.target.names⟩
  side _ _ := trivial
  extra _ h := h
  special _ h := h
  state h _ hs := fun ⟨hn, more, hm⟩ => by
    obtain ⟨more', hm'⟩ := h.target.names
    exact ⟨hs.trans hn, more ++ more', by rw [hm', hm, Array.append_assoc]⟩

/-- Symbols without a rule are kept. -/
theorem ongoing_plain (hp : s.source.Fit) (hk : s.source.Known) (hfront : s.front = fun _ _ => [])
    (hback : s.back = fun _ _ => []) (hrule : s.symbolRule = none) :
    (ongoing s).Plain fun _ => False where
  source := hp
  front := hfront
  back := hback
  name {i node} ht hn _ x hx := by
    obtain ⟨text, htext⟩ := hk i node ht hn x hx
    exact Account.turns_keep hrule htext.1 fun w ⟨hnone, hmore⟩ =>
      ⟨hnone, rfl, text, htext, htext.extend hmore⟩

/-- The handlers make nothing of the nodes of the program, so that these are copied as they are. -/
def Idles (p : Program) (handlers : List (Tag × κ)) (act : Act κ σ) : Prop :=
  ∀ (copy : NodeId → Edit κ σ NodeId) t h i n (s : Session κ σ), s.source = p → p.inTree i = true →
    p.node? i = some n →
    handlers.find? (fun (t, _) => n.shape.tag.is t) = some (t, h) → act copy h i s = .ok 0 s

theorem Idles.nil : Idles p [] act := by
  intro copy t h i n s _ _ _ hfind
  cases hfind

theorem ongoing_handled (hreplacements : s.replacements = fun _ => none)
    (h : Idles s.source s.handlers act) :
    (ongoing s).Handled (fun _ => False) (within s.source) act where
  replaced _ i _ _ _ _ _ _ _ hr := by
    have hr : s.replacements i = _ := hr
    rw [hreplacements] at hr
    cases hr
  family n i t x node _ _ _ hi hn _ hfind w F hw := by
    have hstep : act (Edit.copyTo act n) x i w.1 = .ok 0 w.1 :=
      h _ t x i node w.1 hw.tables.source hi hn hfind
    exact Runs.of_ok hstep w.2 (.inl ⟨rfl, rfl, trivial⟩)
  anew _ _ _ _ _ _ _ _ := trivial
  side _ _ _ _ _ _ _ _ := trivial

/-- The account of a copy without changes, whatever handlers it has. -/
def unchanged (p : Program) (state : σ) (handlers : List (Tag × κ)) : Account κ σ :=
  ongoing { Session.start p state with handlers }

theorem unchanged_stable : (unchanged p state handlers).Stable := ongoing_stable

theorem unchanged_plain (hp : p.Fit) (hk : p.Known) :
    (unchanged p state handlers).Plain fun _ => False :=
  ongoing_plain hp hk rfl rfl rfl

theorem unchanged_handled (h : Idles p handlers act) :
    (unchanged p state handlers).Handled (fun _ => False) (within p) act := ongoing_handled rfl h

theorem unchanged_start (hp : p.Fit) :
    (unchanged p state handlers).Holds ({ Session.start p state with handlers }, fun _ => 0)
    (p.globals.flatMap ((unchanged p state handlers).around (unchanged p state handlers).depth) ++
      []) :=
  Account.Holds.start (A := unchanged p state handlers) rfl rfl hp.named rfl (fun _ => rfl)
    (fun _ => rfl)
    (fun _ => rfl) (fun _ _ => nofun) ⟨rfl, #[], by simp [unchanged, ongoing, Session.start]⟩

/-- Whatever comes from a node is made anew from the copies of its parts. -/
theorem unchanged_traced {w : World κ σ} {l : List NodeId}
    (hw : (unchanged p state handlers).Holds w l) {j : NodeId} (hj : w.2 j ≠ 0) :
    ∃ n m, p.node? (w.2 j) = some n ∧ w.1.target.node? j = some m ∧
      m.span = (if n.span.valid then n.span else {}) ∧
      Shape.Rel ((unchanged p state handlers).name w)
        ((unchanged p state handlers).Out w) ((unchanged p state handlers).Lists w)
        n.shape m.shape :=
  (hw.traced j hj).2.elim And.right False.elim

/-- A program whose declarations are unchanged copies reads the same. -/
theorem reads_of_unchanged (hp : p.Fit) {w : World κ σ} {l : List NodeId}
    (hw : (unchanged p state handlers).Holds w l)
    (hglobals : List.Forall₂ ((unchanged p state handlers).Out w) p.globals w.1.target.globals) :
    p.Reads w.1.target.build := by
  have hlists : ∀ xs ys, (unchanged p state handlers).Lists w xs ys →
      List.Forall₂ ((unchanged p state handlers).Out w) xs ys :=
    fun xs ys h => h.listed.forall₂ (fun _ h => h.2) fun _ => Bool.false_ne_true
  refine hp.reads hw.good.toFit.build (R := (unchanged p state handlers).Out w)
    (fun i j hij => hij.imp_right fun h => ?_)
    (by rwa [Builder.globals_build])
  obtain ⟨hi, hj, _⟩ := h
  obtain ⟨n, m, hn, hm, hspan, hrel⟩ := unchanged_traced hw (j := j) (by rwa [hj])
  rw [hj] at hn
  refine ⟨n, m, hn, Builder.node?_build_of hm, ?_, hrel.mono ?_ (fun _ _ h => h) hlists⟩
  · rw [hspan]
    exact Span.same_ofValid n.span
  · rintro x y ⟨rfl, name, hx, hy⟩
    exact hx.nameFor.trans hy.nameFor.symm

/-- Copying with handlers that make nothing succeeds, and the copy reads the same. -/
theorem copyModule_reads (hp : p.Fit) (hk : p.Known) (state : σ) (h : Idles p handlers act) :
    ∃ s : Session κ σ,
      Edit.copyModule (Edit.copy act) { Session.start p state with handlers } = .ok () s ∧
      s.copied = true ∧ s.target.diagnostics = p.diagnostics.without .resolver ∧
      s.target.build.Fit ∧ s.target.build.Known ∧ p.Reads s.target.build := by
  have hreach : (unchanged p state handlers).Reach (fun _ => False) (within p) := reach_within hp
  obtain ⟨_, s, origin, hs, hw, hgrown, hcopied, hglobals⟩ := (Account.copyModule unchanged_stable
    (unchanged_plain hp hk) hreach (unchanged_handled h) (fun _ => within_global hp)
    (fun h => absurd h (by simp [Session.start])) (unchanged_start hp)).succeeds
  obtain ⟨ys, hys, _, hlist⟩ := hglobals trivial fun _ _ => ⟨rfl, rfl⟩
  refine ⟨s, hs, hcopied, hgrown.target.diagnostics, hw.good.toFit.build, ?_,
    reads_of_unchanged (w := (s, origin)) hp hw ?_⟩
  · intro j m hj hm x hx
    rw [Builder.node?_build, ← Builder.root_build] at hm
    split at hm
    · cases hm
      simp [Shape.names] at hx
    · next hr =>
      have hj := (hw.traced_of_inTree trivial hglobals (fun _ _ => ⟨rfl, rfl⟩) (fun _ h => h)
        (fun h => h.elim) hj).resolve_left hr
      obtain ⟨_, m', _, hm', _, hrel⟩ := unchanged_traced hw hj
      cases hm.symm.trans hm'
      obtain ⟨_, _, _, y, _, hy⟩ := hrel.mem_names x hx
      exact ⟨y, hy⟩
  · rw [hys]
    exact Listed.forall₂ (hlist trivial) (fun _ h => h) fun _ => Bool.false_ne_true

end Unchanged

variable {p : Program}

/-- Copying without changes succeeds, and the copy reads the same. -/
theorem plainCopy_reads (hp : p.Fit) (hk : p.Known) :
    ∃ q, plainCopy p = .ok q ∧ q.Fit ∧ q.Known ∧ p.Reads q := by
  obtain ⟨s, hs, _, _, hfit, hknown, hreads⟩ :=
    copyModule_reads hp hk () (show Idles p [] noHandlers from .nil)
  refine ⟨s.target.build, ?_, hfit, hknown, hreads⟩
  have hs' : Edit.copyModule (Edit.copy noHandlers) (Session.start p ()) = .ok () s := hs
  simp only [plainCopy, hs']

/-- One copy after another. -/
def plainCopies : Nat → Program → Except Misuse Program
  | 0, p => .ok p
  | n + 1, p => do plainCopies n (← plainCopy p)

theorem plainCopies_reads (n : Nat) (hp : p.Fit) (hk : p.Known) :
    ∃ q, plainCopies n p = .ok q ∧ q.Fit ∧ q.Known ∧ p.Reads q := by
  induction n generalizing p with
  | zero => exact ⟨p, rfl, hp, hk, rfl, rfl⟩
  | succ n ih =>
    obtain ⟨q, hq, hfit, hknown, hreads⟩ := plainCopy_reads hp hk
    obtain ⟨q', hq', hfit', hknown', hreads'⟩ := ih hfit hknown
    refine ⟨q', ?_, hfit', hknown', hreads.1.trans hreads'.1, hreads.2.trans hreads'.2⟩
    simp only [plainCopies, hq]
    exact hq'

/-- Copying the program of a document without changes always succeeds and keeps its document, places
included, and its text; however often it is copied, they stay. -/
theorem plainCopy_identity {m : Document.Module} (h : m.decode = .ok p) :
    (∃ q, plainCopy p = .ok q ∧ Document.ofProgram q = Document.ofProgram p ∧ q.text = p.text) ∧
    ∀ n, ∃ q, plainCopies n p = .ok q ∧ Document.ofProgram q = Document.ofProgram p ∧
      q.text = p.text := by
  obtain ⟨b, hgood, hknown, _, _, rfl⟩ := Document.decode_good h
  refine ⟨?_, fun n => ?_⟩
  · obtain ⟨q, hq, _, _, hdoc, htext⟩ := plainCopy_reads hgood.toFit.build hknown.build
    exact ⟨q, hq, hdoc.symm, htext.symm⟩
  · obtain ⟨q, hq, _, _, hdoc, htext⟩ := plainCopies_reads n hgood.toFit.build hknown.build
    exact ⟨q, hq, hdoc.symm, htext.symm⟩

/-- An alias of a type and a function that returns at once. -/
def small : Document.Module where
  globals := [
    some { kind := "Alias", name := "real", type := some { kind := "F32" } },
    some { kind := "Function", name := "f",
           body := some { kind := "Block", statements := [some { kind := "Return" }] } }]

theorem plainCopy_identity_small : ∃ p, small.decode = .ok p ∧
    (∃ q, plainCopy p = .ok q ∧ Document.ofProgram q = Document.ofProgram p ∧ q.text = p.text) ∧
    ∀ n, ∃ q, plainCopies n p = .ok q ∧ Document.ofProgram q = Document.ofProgram p ∧
      q.text = p.text := by
  have hok : small.decode.isOk = true := by decide +kernel
  cases hp : small.decode with
  | error e => simp [hp, Except.isOk, Except.toBool] at hok
  | ok p => exact ⟨p, rfl, plainCopy_identity hp⟩

end Copy
end ShaderLoom
