import ShaderLoom.Proofs.Copy.Frame
import ShaderLoom.Proofs.Copy.Refusal
import ShaderLoom.Proofs.Runs

/-! What the copy of a module declares. Declarations get into the target on two ways: handlers
declare what they make, at once, and the copy itself declares what it has put together, and looks
only at what was declared before it began or by itself. So nothing is declared twice as long as
handlers keep their declarations to themselves: what they give back, put somewhere or register is
not declared, and what they declare is new. -/
namespace ShaderLoom

namespace Builder

/-- A node of the builder that is not declared, unless it is known to be. -/
structure Free (b : Builder) (known : List NodeId) (x : NodeId) : Prop where
  le : x ≤ b.size
  known : x ∈ b.globals → x ∈ known

/-- The second builder has further nodes, and some of these are declared behind what the first one
declares. -/
structure Declares (b b' : Builder) : Prop where
  size : b.size ≤ b'.size
  globals : ∃ new, b'.globals = b.globals ++ new ∧ new.Nodup ∧ ∀ g ∈ new, b.size < g ∧ g ≤ b'.size

variable {b b' b'' : Builder} {known : List NodeId} {x : NodeId}

theorem Declares.of_globals (hsize : b.size ≤ b'.size) (h : b'.globals = b.globals) :
    b.Declares b' :=
  ⟨hsize, [], by simp [h], .nil, by simp⟩

theorem Declares.trans (h : b.Declares b') (h' : b'.Declares b'') : b.Declares b'' := by
  obtain ⟨new, hg, hnodup, hnew⟩ := h.globals
  obtain ⟨new', hg', hnodup', hnew'⟩ := h'.globals
  refine ⟨Nat.le_trans h.size h'.size,
    new ++ new', by rw [hg', hg, List.append_assoc], ?_, fun g hm => ?_⟩
  · refine List.nodup_append.2 ⟨hnodup, hnodup', fun g hm g' hm' hne => ?_⟩
    exact absurd (hne ▸ (hnew g hm).2) (Nat.not_le.2 (hnew' g' hm').1)
  · rcases List.mem_append.1 hm with hm | hm
    · exact ⟨(hnew g hm).1, Nat.le_trans (hnew g hm).2 h'.size⟩
    · exact ⟨Nat.lt_of_le_of_lt h.size (hnew' g hm).1, (hnew' g hm).2⟩

/-- A new declaration is none of the nodes that there were. -/
theorem Free.declares (h : b.Free known x) (hb : b.Declares b') : b'.Free known x := by
  obtain ⟨new, hg, -, hnew⟩ := hb.globals
  refine ⟨Nat.le_trans h.le hb.size, fun hx => ?_⟩
  rw [hg, List.mem_append] at hx
  rcases hx with hx | hx
  · exact h.known hx
  · exact absurd h.le (Nat.not_le.2 (hnew x hx).1)

end Builder

namespace Build

variable {α β : Type}

/-- The step makes nodes and declares none but these. -/
def Declaring (step : Build α) : Prop := ∀ b a b', step b = .ok a b' → b.Declares b'

/-- The step makes a node and declares nothing. -/
def Making (step : Build NodeId) : Prop :=
  ∀ b x b', step b = .ok x b' → b.size < x ∧ x ≤ b'.size ∧ b'.globals = b.globals

theorem ok_of_bind {step : Build α} {next : α → Build β} {b b' : Builder} {y : β}
    (h : (step >>= next) b = .ok y b') : ∃ a c, step b = .ok a c ∧ next a c = .ok y b' := by
  simp only [bind, EStateM.bind] at h
  cases hs : step b with
  | ok a c =>
    rw [hs] at h
    exact ⟨a, c, rfl, h⟩
  | error e c =>
    rw [hs] at h
    cases h

theorem Making.declaring {step : Build NodeId} (h : Making step) :
    Declaring step := fun b x b' hs =>
  have ⟨hlt, hle, hg⟩ := h b x b' hs
  .of_globals (Nat.le_trans (Nat.le_of_lt hlt) hle) hg

theorem Declaring.bind {step : Build α} {next : α → Build β} (h : Declaring step)
    (hn : ∀ a, Declaring (next a)) : Declaring (step >>= next) := fun b _ b' hs =>
  have ⟨a, c, hs, hn'⟩ := ok_of_bind hs
  (h b a c hs).trans (hn a c _ b' hn')

theorem making_push (shape : Shape Symbol NodeId) (span : Span) :
    Making (push shape span) := fun b x b' h => by
  cases h
  simp [Arena.size]

theorem symbol_globals {name : String} {b c : Builder} {s : Symbol} (h : symbol name b = .ok s c) :
    c.size = b.size ∧ c.globals = b.globals := by
  cases h
  exact ⟨rfl, rfl⟩

theorem declaring_symbol (name : String) : Declaring (symbol name) := fun _ _ _ h =>
  have ⟨hsize, hg⟩ := symbol_globals h
  .of_globals (Nat.le_of_eq hsize.symm) hg

/-- And other nodes may be made first. -/
theorem Making.after {step : Build NodeId} {next : NodeId → Build NodeId} (h : Making step)
    (hn : ∀ j, Making (next j)) : Making (step >>= next) := fun b x b' hs => by
  obtain ⟨j, c, hc, hs⟩ := ok_of_bind hs
  obtain ⟨hlt, hle, hg⟩ := h b j c hc
  obtain ⟨hlt', hle', hg'⟩ := hn j c x b' hs
  exact ⟨Nat.lt_trans hlt (Nat.lt_of_le_of_lt hle hlt'), hle', hg'.trans hg⟩

/-- What is made may be declared. -/
theorem Making.global {make : Build NodeId} (h : Making make) :
    Declaring (global make) := fun b x b' hs => by
  obtain ⟨j, c, hc, hs⟩ := ok_of_bind hs
  obtain ⟨hlt, hle, hg⟩ := h b j c hc
  cases hs
  exact ⟨Nat.le_trans (Nat.le_of_lt hlt) hle, [x], by simp [hg], by simp, by simpa using ⟨hlt, hle⟩⟩

variable (name : String) (type init : NodeId) (xs ys zs attrs : List NodeId) (space : AddressSpace)

theorem declaring_function : Declaring (function name xs type ys zs attrs) :=
  (declaring_symbol name).bind fun _ => ((making_push _ _).after fun _ => making_push _ _).global

end Build

namespace Copy

variable {κ σ α β : Type}

/-- The session has the node at hand for the copy: it is nothing, or it stands for a node, or it is
put somewhere. -/
def Session.Offers (s : Session κ σ) (x : NodeId) : Prop :=
  x = 0 ∨ (∃ i, s.replacements i = some (.fixed x)) ∨ (∃ i, x ∈ s.before i) ∨ (∃ i, x ∈ s.after i) ∨
    (∃ i k, x ∈ s.front i k) ∨ ∃ i k, x ∈ s.back i k

namespace Session.Offers

variable {s : Session κ σ} {x i : NodeId} {k : ListKind}

theorem absent : s.Offers 0 := .inl rfl

theorem fixed (h : s.replacements i = some (.fixed x)) : s.Offers x := .inr (.inl ⟨i, h⟩)

theorem before (h : x ∈ s.before i) : s.Offers x := .inr (.inr (.inl ⟨i, h⟩))

theorem after (h : x ∈ s.after i) : s.Offers x := .inr (.inr (.inr (.inl ⟨i, h⟩)))

theorem front (h : x ∈ s.front i k) : s.Offers x := .inr (.inr (.inr (.inr (.inl ⟨i, k, h⟩))))

theorem back (h : x ∈ s.back i k) : s.Offers x := .inr (.inr (.inr (.inr (.inr ⟨i, k, h⟩))))

end Session.Offers

/-- Nothing is declared twice, and no declaration is at hand for the copy but those that are
known. -/
structure Session.Tidy (known : List NodeId) (s : Session κ σ) : Prop where
  declared : known ⊆ s.target.globals
  nodup : s.target.globals.Nodup
  range : ∀ g ∈ s.target.globals, g ≤ s.target.size
  free : ∀ x, s.Offers x → s.target.Free known x

/-- The target has grown, and what it declared stands in front of what it declares now. -/
structure Session.Later (s t : Session κ σ) : Prop where
  size : s.target.size ≤ t.target.size
  globals : s.target.globals <+: t.target.globals

variable {base known : List NodeId} {s t u : Session κ σ}

theorem Session.Later.refl (s : Session κ σ) : s.Later s := ⟨Nat.le_refl _, List.prefix_refl _⟩

theorem Session.Later.trans (h : s.Later t) (h' : t.Later u) : s.Later u :=
  ⟨Nat.le_trans h.size h'.size, h.globals.trans h'.globals⟩

theorem Session.Later.of_declares {b : Builder} (h : s.target.Declares b) :
    s.Later { s with target := b } := by
  obtain ⟨new, hg, -⟩ := h.globals
  exact ⟨h.size, new, hg.symm⟩

theorem Session.Tidy.declares (h : s.Tidy known) {b : Builder} (hb : s.target.Declares b) :
    ({ s with target := b } : Session κ σ).Tidy known := by
  obtain ⟨new, hg, hnodup, hnew⟩ := hb.globals
  refine ⟨fun g hm => hg ▸ List.mem_append_left _ (h.declared hm), ?_, fun g hm => ?_,
    fun x hx => (h.free x hx).declares hb⟩
  · refine hg ▸ List.nodup_append.2 ⟨h.nodup, hnodup, fun g hm g' hm' hne => ?_⟩
    exact absurd (hne ▸ h.range g hm) (Nat.not_le.2 (hnew g' hm').1)
  · rw [hg, List.mem_append] at hm
    exact hm.elim (fun hm => Nat.le_trans (h.range g hm) hb.size) fun hm => (hnew g hm).2

/-- The step keeps the session tidy, and its answer satisfies `Q`. -/
def Orderly (known : List NodeId) (s : Session κ σ) (step : Edit κ σ α)
    (Q : Session κ σ → α → Prop) : Prop :=
  Runs step (s, ()) (fun _ => True) fun a w => w.1.Tidy known ∧ s.Later w.1 ∧ Q w.1 a

/-- The step keeps every session tidy, whatever its answer. -/
def Steady (known : List NodeId) (step : Edit κ σ α) : Prop :=
  ∀ s, s.Tidy known → Orderly known s step fun _ _ => True

/-- The step gives back nodes that are not declared, unless they are known to be; those of `base`
are. -/
def Reserved (base : List NodeId) (step : Edit κ σ NodeId) : Prop :=
  ∀ known s, base ⊆ known → s.Tidy known → Orderly known s step fun t x => t.target.Free known x

/-- Handlers keep their declarations to themselves where copying does. They may give back what
`base` has. -/
def Reticent (base : List NodeId) (act : Act κ σ) : Prop :=
  ∀ copy, (∀ i, Reserved base (copy i)) → ∀ h i, Reserved base (act copy h i)

section Steps

variable {step : Edit κ σ α} {next : α → Edit κ σ β} {Q : Session κ σ → α → Prop}
    {R : Session κ σ → β → Prop}

theorem Orderly.pure {a : α} (hs : s.Tidy known) (hq : Q s a) : Orderly known s (Pure.pure a) Q :=
  Runs.pure () ⟨hs, .refl s, hq⟩

theorem Orderly.throw (e : Misuse) : Orderly known s (throw e : Edit κ σ α) Q := Runs.throw trivial

theorem Orderly.bind (h : Orderly known s step Q)
    (hn : ∀ a t, t.Tidy known → s.Later t → Q t a → Orderly known t (next a) R) :
    Orderly known s (step >>= next) R :=
  Runs.bind (h.mono fun a w ⟨hw, hl, hq⟩ => (hn a w.1 hw hl hq).mono fun _ _ ⟨hw', hl', hr⟩ =>
    ⟨hw', hl.trans hl', hr⟩)

theorem Orderly.mono {Q' : Session κ σ → α → Prop} (h : Orderly known s step Q)
    (hq : ∀ t a, Q t a → Q' t a) : Orderly known s step Q' :=
  Runs.mono h fun a w ⟨hw, hl, ha⟩ => ⟨hw, hl, hq w.1 a ha⟩

theorem Orderly.get (hs : s.Tidy known) :
    Orderly known s (get : Edit κ σ (Session κ σ)) fun t u => t = s ∧ u = s :=
  Runs.get ⟨hs, .refl s, rfl, rfl⟩

theorem Steady.pure (a : α) : Steady known (Pure.pure a : Edit κ σ α) :=
  fun _ hs => .pure hs trivial

theorem Steady.bind (h : Steady known step) (hn : ∀ a, Steady known (next a)) :
    Steady known (step >>= next) :=
  fun s hs => (h s hs).bind fun a t ht _ _ => hn a t ht

theorem Reserved.steady {step : Edit κ σ NodeId} (h : Reserved base step) (hbase : base ⊆ known) :
    Steady known step :=
  fun s hs => (h known s hbase hs).mono fun _ _ _ => trivial

/-- A step that only looks. -/
theorem Orderly.of_look (hs : s.Tidy known) (h : ∀ a t, step s = .ok a t → t = s) :
    Orderly known s step fun t _ => t = s := by
  cases hr : step s with
  | ok a t =>
    obtain rfl := h a t hr
    exact Runs.of_ok hr () ⟨hs, .refl _, rfl⟩
  | error e t => exact Runs.of_error hr trivial

theorem Orderly.build (hs : s.Tidy known) {step : Build α} (h : Build.Declaring step) :
    Orderly known s (Edit.build step) fun t a =>
      ∃ b, step s.target = .ok a b ∧ t = { s with target := b } := by
  cases hr : step s.target with
  | ok a b =>
    refine Runs.of_ok (a := a) (s := { s with target := b }) ?_ () ⟨hs.declares (h _ _ _ hr),
      .of_declares (h _ _ _ hr), b, rfl, rfl⟩
    simp only [Edit.build, hr]
  | error e b => exact Runs.of_error (by simp only [Edit.build, hr]; rfl) trivial

/-- What is made, and not declared. -/
theorem Orderly.make (hs : s.Tidy known) {step : Build NodeId} (h : Build.Making step) :
    Orderly known s (Edit.build step) fun t x => t.target.Free known x := by
  refine (Orderly.build hs h.declaring).mono ?_
  rintro _ x ⟨b, hb, rfl⟩
  obtain ⟨hlt, hle, hg⟩ := h _ _ _ hb
  refine ⟨hle, fun hx => absurd (hs.range x ?_) (Nat.not_le.2 hlt)⟩
  exact hg ▸ hx

end Steps

/-- The symbol of a copied symbol is asked for and noted. -/
theorem steady_copySymbol (x : Symbol) : Steady known (Edit.copySymbol x : Edit κ σ Symbol) := by
  intro s hs
  unfold Edit.copySymbol
  split
  · exact .pure hs trivial
  · refine (Orderly.get hs).bind ?_
    rintro _ _ ht - ⟨rfl, rfl⟩
    split
    · exact .pure hs trivial
    · next rule _ _ =>
      exact Runs.bind
        (Runs.set () (Runs.pure ()
          ⟨⟨hs.declared, hs.nodup, hs.range, fun x hx => ⟨(hs.free x hx).le, (hs.free x hx).known⟩⟩,
          ⟨Nat.le_refl _, List.prefix_refl _⟩, trivial⟩))
    · exact .pure hs trivial

section Lists

variable {J : β → List NodeId} {yield : β → NodeId → Edit κ σ β} {copy : NodeId → Edit κ σ NodeId}

/-- A way to take up nodes one by one, where `J` says what is known to be declared once some were
taken up. -/
def Takes (J : β → List NodeId) (yield : β → NodeId → Edit κ σ β) : Prop :=
  ∀ b x (s : Session κ σ), s.Tidy (J b) → s.target.Free (J b) x →
    Runs (yield b x) (s, ()) (fun _ => True) fun b' w =>
    J b ⊆ J b' ∧ w.1.Tidy (J b') ∧ s.Later w.1 ∧ ∀ y, s.target.Free (J b) y →
      w.1.target.Free (J b') y

/-- The steps leave a tidy session that is later than the first one, and what was known is known. -/
structure Lasting (base : List NodeId) (J : β → List NodeId) (s : Session κ σ) (b : β)
    (w : Session κ σ × Unit) : Prop where
  base : base ⊆ J b
  tidy : w.1.Tidy (J b)
  later : s.Later w.1

theorem Takes.all (h : Takes J yield) {xs : List NodeId} {b : β} (hbase : base ⊆ J b)
    (hs : s.Tidy (J b)) (hx : ∀ x ∈ xs, s.Offers x) :
    Runs (xs.foldlM yield b) (s, ()) (fun _ => True) (Lasting base J s) := by
  refine Runs.foldlM (fun rest b w => Lasting base J s b w ∧ ∀ x ∈ rest, w.1.target.Free (J b) x)
    ⟨⟨hbase, hs, .refl s⟩, fun x hm => hs.free x (hx x hm)⟩ ?_ fun b w h => h.1
  rintro x rest b ⟨t, _⟩ - ⟨⟨hb, ht, hl⟩, hfree⟩
  refine (h b x t ht (hfree x List.mem_cons_self)).mono ?_
  rintro b' w ⟨hsub, hw, hl', hkeep⟩
  exact ⟨⟨List.Subset.trans hb hsub, hw, hl.trans hl'⟩,
    fun y hy => hkeep y (hfree y (List.mem_cons_of_mem _ hy))⟩

theorem Takes.elements (h : Takes J yield) (hcopy : ∀ i, Reserved base (copy i)) (ids : List NodeId)
    {b : β} (hbase : base ⊆ J b) (hs : s.Tidy (J b)) :
    Runs (Edit.foldElements copy yield ids b) (s, ()) (fun _ => True) (Lasting base J s) := by
  induction ids generalizing s b with
  | nil => exact Runs.pure () ⟨hbase, hs, .refl s⟩
  | cons i ids ih =>
    -- What stands before the element is taken up, then its copy, then what stands after it.
    refine Runs.bind (Runs.get (Runs.bind ((h.all hbase hs fun x hx => .before hx).mono ?_)))
    rintro b₁ ⟨t, _⟩ ⟨hb₁, ht, hl⟩
    have hrest : ∀ (b : β) (u : Session κ σ), base ⊆ J b → u.Tidy (J b) → t.Later u → Runs (do
        let b ← ((← get).after i).foldlM yield b
        Edit.foldElements copy yield ids b) (u, ()) (fun _ => True) (Lasting base J s) := by
      intro b u hb hu hl'
      refine Runs.bind (Runs.get (Runs.bind ((h.all hb hu fun x hx => .after hx).mono ?_)))
      rintro b₂ ⟨v, _⟩ ⟨hb₂, hv, hl''⟩
      exact (ih hb₂ hv).mono fun b₃ w ⟨hb₃, hw, hl₃⟩ =>
        ⟨hb₃, hw, ((hl.trans hl').trans hl'').trans hl₃⟩
    refine Runs.bind (Runs.get ?_)
    dsimp only
    split
    · exact Runs.bind (Runs.pure () (hrest b₁ t hb₁ ht (.refl t)))
    · refine Runs.bind (Runs.mono (hcopy i (J b₁) t hb₁ ht) ?_)
      rintro x ⟨u, _⟩ ⟨hu, hl', hx⟩
      split
      · exact Runs.bind (Runs.pure () (hrest b₁ u hb₁ hu hl'))
      · refine Runs.bind ((h b₁ x u hu hx).mono ?_)
        rintro b₂ ⟨v, _⟩ ⟨hsub, hv, hl'', -⟩
        exact hrest b₂ v (List.Subset.trans hb₁ hsub) hv (hl'.trans hl'')

theorem Takes.list (h : Takes J yield) (hcopy : ∀ i, Reserved base (copy i)) (owner : NodeId)
    (kind : ListKind) (ids : List NodeId) {b : β} (hbase : base ⊆ J b) (hs : s.Tidy (J b)) :
    Runs (Edit.foldList copy yield owner kind ids b) (s, ()) (fun _ => True)
    (Lasting base J s) := by
  refine Runs.bind (Runs.get (Runs.bind ((h.all hbase hs fun x hx => .front hx).mono ?_)))
  rintro b₁ ⟨t, _⟩ ⟨hb₁, ht, hl⟩
  refine Runs.bind ((h.elements hcopy ids hb₁ ht).mono ?_)
  rintro b₂ ⟨u, _⟩ ⟨hb₂, hu, hl'⟩
  refine Runs.bind (Runs.get ((h.all hb₂ hu fun x hx => .back hx).mono ?_))
  exact fun b₃ w ⟨hb₃, hw, hl''⟩ => ⟨hb₃, hw, (hl.trans hl').trans hl''⟩

theorem steady_copyListOf (hcopy : ∀ i, Reserved base (copy i)) (hbase : base ⊆ known)
    (owner : NodeId) (kind : ListKind) (ids : List NodeId) :
    Steady known (Edit.copyListOf copy owner kind ids) := by
  intro s hs
  have htakes : Takes (fun _ => known) fun out id =>
      (pure (out ++ [id]) : Edit κ σ (List NodeId)) :=
    fun out x s hs _ => Runs.pure () ⟨fun _ hg => hg, hs, .refl s, fun _ hy => hy⟩
  exact (htakes.list hcopy owner kind ids hbase hs).mono fun _ w ⟨_, hw, hl⟩ => ⟨hw, hl, trivial⟩

/-- What the copy declares itself is known from then on. -/
theorem takes_addOnce : Takes (κ := κ) (σ := σ) id Edit.addOnce := by
  intro seen x s hs hx
  unfold Edit.addOnce
  split
  · exact Runs.pure () ⟨fun _ hg => hg, hs, .refl s, fun _ hy => hy⟩
  · next hnew =>
    have hnew : x ∉ s.target.globals := fun hm => hnew (by simpa using hx.known hm)
    have hfree : ∀ y, s.target.Free seen y →
        Builder.Free { s.target with globals := s.target.globals ++ [x] } (x :: seen) y := by
      intro y hy
      refine ⟨hy.le, fun hm => ?_⟩
      rcases List.mem_append.1 hm with hm | hm
      · exact List.mem_cons_of_mem _ (hy.known hm)
      · exact List.mem_singleton.1 hm ▸ List.mem_cons_self
    refine Runs.bind (Runs.of_ok (a := ())
      (s := { s with target := { s.target with globals := s.target.globals ++ [x] } }) rfl ()
      (Runs.pure () ⟨fun _ hg => List.mem_cons_of_mem _ hg,
        ⟨fun g hg => ?_, ?_, ?_, fun y hy => hfree y (hs.free y hy)⟩,
        ⟨Nat.le_refl _, List.prefix_append _ _⟩, hfree⟩))
    · rcases List.mem_cons.1 hg with rfl | hg
      · exact List.mem_append_right _ (List.mem_singleton.2 rfl)
      · exact List.mem_append_left _ (hs.declared hg)
    · refine List.nodup_append.2 ⟨hs.nodup, List.pairwise_singleton _ x,
        fun g hg g' hg' hne => hnew ?_⟩
      rwa [← List.mem_singleton.1 hg', ← hne]
    · intro g hg
      rcases List.mem_append.1 hg with hg | hg
      · exact hs.range g hg
      · exact List.mem_singleton.1 hg ▸ hx.le

end Lists

section Engine

variable {copy : NodeId → Edit κ σ NodeId}

theorem reserved_copyParts (hcopy : ∀ i, Reserved base (copy i)) (i : NodeId) (n : Node) :
    Reserved base (Edit.copyParts copy i n) := by
  intro known s hbase hs
  unfold Edit.copyParts
  split
  · exact .throw _
  · have htraverse :
        Steady known (n.shape.traverse Edit.copySymbol copy (Edit.copyListOf copy i)) :=
      Shape.traverse_of (K := Steady known) .pure .bind steady_copySymbol
        (fun c => (hcopy c).steady hbase)
        (steady_copyListOf hcopy hbase i) _
    exact (htraverse s hs).bind fun shape t ht _ _ => .make ht (Build.making_push shape n.span)

theorem reserved_copyStep {act : Act κ σ} (hact : Reticent base act)
    (hcopy : ∀ i, Reserved base (copy i)) (i : NodeId) :
    Reserved base (Edit.copyStep act copy i) := by
  intro known s hbase hs
  unfold Edit.copyStep
  split
  · exact .pure hs (hs.free 0 .absent)
  refine (Orderly.of_look hs fun n t h => (checkSource_ok.1 h).2.2).bind ?_
  rintro n _ - - rfl
  refine (Orderly.get hs).bind ?_
  rintro _ _ - - ⟨rfl, rfl⟩
  split
  · next x hx => exact .pure hs (hs.free x (.fixed hx))
  · next h _ => exact hact copy hcopy h i known _ hbase hs
  · split
    · next h _ =>
      refine (hact copy hcopy h i known _ hbase hs).bind fun x t ht _ hx => ?_
      split
      · exact reserved_copyParts hcopy i n known t hbase ht
      · exact .pure ht hx
    · exact reserved_copyParts hcopy i n known _ hbase hs

theorem reserved_copy {act : Act κ σ} (hact : Reticent base act) (i : NodeId) :
    Reserved base (Edit.copy act i) := by
  have hto : ∀ n i, Reserved base (Edit.copyTo act n i) := by
    intro n
    induction n with
    | zero => exact fun i known s _ _ => .throw _
    | succ n ih => exact fun i => reserved_copyStep hact ih i
  intro known s hbase hs
  unfold Edit.copy
  refine (Orderly.get hs).bind ?_
  rintro _ _ - - ⟨rfl, rfl⟩
  exact hto _ i known _ hbase hs

end Engine

/-- What a session names of its target is there. -/
structure Session.Grounded (s : Session κ σ) : Prop where
  globals : ∀ g ∈ s.target.globals, g ≤ s.target.size
  offers : ∀ x, s.Offers x → x ≤ s.target.size

section Grounded

theorem grounded_start (p : Program) (state : σ) : (Session.start p state : Session κ σ).Grounded :=
  ⟨nofun, fun _ hx => hx.elim Nat.le_of_eq fun hx => by simp [Session.start] at hx⟩

theorem mem_update_append {γ : Type} [DecidableEq γ] {table : γ → List NodeId} {key k : γ}
    {x y : NodeId} (h : x ∈ update table key (table key ++ [y]) k) : x ∈ table k ∨ x = y := by
  by_cases hk : k = key
  · subst hk
    simpa using h
  · rw [update_of_ne _ _ hk] at h
    exact .inl h

theorem register_of_ok {i : NodeId} {r : Replacement κ} (h : Edit.register i r s = .ok () t) :
    t = { s with replacements := update s.replacements i (some r) } := by
  unfold Edit.register at h
  rw [get_bind] at h
  by_cases hr : (s.replacements i).isSome
  · simp only [hr, if_true] at h
    cases h
  · simp only [hr] at h
    exact modify_ok.1 h

/-- What was not at hand is at hand because of the replacement. -/
theorem offers_of_replacement {i x : NodeId} {r : Replacement κ}
    (hx : ({ s with replacements := update s.replacements i (some r) } : Session κ σ).Offers x) :
    s.Offers x ∨ r = .fixed x := by
  rcases hx with h0 | ⟨j, hj⟩ | hx
  · exact .inl (.inl h0)
  · change update s.replacements i (some r) j = _ at hj
    by_cases hij : j = i
    · rw [hij, update_self] at hj
      exact .inr (Option.some.inj hj)
    · rw [update_of_ne _ _ hij] at hj
      exact .inl (.fixed hj)
  · exact .inl (.inr (.inr hx))

theorem mem_update_ends {table : NodeId → ListKind → List NodeId} {i j x y : NodeId}
    {k l : ListKind} (h : x ∈ update table i (update (table i) k (table i k ++ [y])) j l) :
    x ∈ table j l ∨ x = y := by
  by_cases hj : j = i
  · subst hj
    rw [update_self] at h
    exact mem_update_append h
  · rw [update_of_ne _ _ hj] at h
    exact .inl h

theorem offers_of_insert {side : Side} {i y x : NodeId}
    (h : (Rewrite.insert side i y).register s = .ok () t) (hx : t.Offers x) :
    t.target = s.target ∧ (s.Offers x ∨ x = y) := by
  cases side with
  | before =>
    obtain ⟨-, rfl⟩ := beside_ok.1 h
    rcases hx with h0 | hr | ⟨j, hb⟩ | hx
    · exact ⟨rfl, .inl (.inl h0)⟩
    · exact ⟨rfl, .inl (.inr (.inl hr))⟩
    · exact ⟨rfl, (mem_update_append hb).imp_left .before⟩
    · exact ⟨rfl, .inl (.inr (.inr (.inr hx)))⟩
  | after =>
    obtain ⟨-, rfl⟩ := beside_ok.1 h
    rcases hx with h0 | hr | hb | ⟨j, ha⟩ | hx
    · exact ⟨rfl, .inl (.inl h0)⟩
    · exact ⟨rfl, .inl (.inr (.inl hr))⟩
    · exact ⟨rfl, .inl (.inr (.inr (.inl hb)))⟩
    · exact ⟨rfl, (mem_update_append ha).imp_left .after⟩
    · exact ⟨rfl, .inl (.inr (.inr (.inr (.inr hx))))⟩
  | front =>
    obtain ⟨-, k, -, rfl⟩ := ends_ok.1 h
    rcases hx with h0 | hr | hb | ha | ⟨j, l, hf⟩ | hx
    · exact ⟨rfl, .inl (.inl h0)⟩
    · exact ⟨rfl, .inl (.inr (.inl hr))⟩
    · exact ⟨rfl, .inl (.inr (.inr (.inl hb)))⟩
    · exact ⟨rfl, .inl (.inr (.inr (.inr (.inl ha))))⟩
    · exact ⟨rfl, (mem_update_ends hf).imp_left .front⟩
    · exact ⟨rfl, .inl (.inr (.inr (.inr (.inr (.inr hx)))))⟩
  | back =>
    obtain ⟨-, k, -, rfl⟩ := ends_ok.1 h
    rcases hx with h0 | hr | hb | ha | hf | ⟨j, l, hk⟩
    · exact ⟨rfl, .inl (.inl h0)⟩
    · exact ⟨rfl, .inl (.inr (.inl hr))⟩
    · exact ⟨rfl, .inl (.inr (.inr (.inl hb)))⟩
    · exact ⟨rfl, .inl (.inr (.inr (.inr (.inl ha))))⟩
    · exact ⟨rfl, .inl (.inr (.inr (.inr (.inr (.inl hf)))))⟩
    · exact ⟨rfl, (mem_update_ends hk).imp_left .back⟩

/-- A registration puts nothing at hand but the node of the target that takes part in it, and leaves
the target alone. -/
theorem offers_of_perform {r : Registration κ} {x : NodeId} (h : r.perform s = .ok () t)
    (hx : t.Offers x) : t.target = s.target ∧ (s.Offers x ∨ r.target? = some x) := by
  cases r with
  | rewrite r =>
    cases r with
    | replace i y =>
      have ht : t = { s with replacements := update s.replacements i (some (.fixed y)) } := by
        obtain ⟨_, u, hn, h'⟩ := bind_ok.1 h
        obtain ⟨-, -, rfl⟩ := checkSource_ok.1 hn
        split at h'
        · obtain ⟨_, v, hm, h''⟩ := bind_ok.1 h'
          obtain ⟨-, rfl⟩ := checkTarget_ok.1 hm
          exact register_of_ok h''
        · exact register_of_ok h'
      subst ht
      refine ⟨rfl, (offers_of_replacement hx).elim .inl fun hy => ?_⟩
      obtain rfl : y = x := Replacement.fixed.inj hy
      by_cases h0 : y = 0
      · exact .inl (h0 ▸ .absent)
      · exact .inr (if_neg h0)
    | remove i =>
      obtain ⟨_, u, hn, h'⟩ := bind_ok.1 h
      obtain ⟨-, rfl⟩ := checkElement_ok.1 hn
      obtain rfl := modify_ok.1 h'
      exact ⟨rfl, .inl hx⟩
    | insert side i y =>
      exact (offers_of_insert h hx).imp_right fun h => h.imp_right fun hy => congrArg some hy.symm
  | handler i h' =>
    obtain ⟨_, u, hn, h''⟩ := bind_ok.1 h
    obtain ⟨-, -, rfl⟩ := checkSource_ok.1 hn
    obtain rfl := register_of_ok h''
    exact ⟨rfl, (offers_of_replacement hx).imp_right nofun⟩
  | family tag h' =>
    unfold Registration.perform Edit.replaceAll at h
    dsimp only at h
    rw [get_bind] at h
    generalize List.find? _ s.handlers = found at h
    cases found with
    | some x => cases h
    | none =>
      obtain rfl := modify_ok.1 h
      exact ⟨rfl, .inl hx⟩
  | symbolRule rule =>
    unfold Registration.perform Edit.setSymbolRule at h
    dsimp only at h
    rw [get_bind] at h
    split at h
    · cases h
    · obtain rfl := modify_ok.1 h
      exact ⟨rfl, .inl hx⟩

/-- Registering keeps a session grounded, since what takes part has to be in the target. -/
theorem Session.Grounded.perform (hs : s.Grounded) {r : Registration κ}
    (h : r.perform s = .ok () t) : t.Grounded := by
  have htarget : t.target = s.target := (offers_of_perform h .absent).1
  refine ⟨by simpa [htarget] using hs.globals, fun x hx => htarget ▸ ?_⟩
  rcases (offers_of_perform h hx).2 with hx | hx
  · exact hs.offers x hx
  · have hin : InTarget s.target x := Classical.byContradiction fun hno =>
      (r.judges s).ok h _ (.target hx hno)
    exact (Arena.node?_isSome_iff.1 hin).2

end Grounded

/-- A module is copied without declaring anything twice if no handler gives back, puts somewhere or
registers what it declares itself, and whatever was declared before stays in front of what the copy
adds. -/
theorem copyModule_nodup {act : Act κ σ} (hact : Reticent s.target.globals act) (hs : s.Grounded)
    (hnodup : s.target.globals.Nodup) (h : Edit.copyModule (Edit.copy act) s = .ok () t) :
    t.target.globals.Nodup ∧ s.target.globals <+: t.target.globals := by
  have hcopy : Runs (Edit.copyModule (Edit.copy act)) (s, ()) (fun _ => True) fun _ w =>
      w.1.target.globals.Nodup ∧ s.target.globals <+: w.1.target.globals := by
    unfold Edit.copyModule
    refine Runs.bind (Runs.get ?_)
    dsimp only
    split
    · exact Runs.bind (Runs.throw trivial)
    refine Runs.bind (Runs.modify () ?_)
    have htidy : ({ s with copied := true } : Session κ σ).Tidy s.target.globals :=
      ⟨fun _ hg => hg, hnodup, hs.globals, fun x hx => ⟨hs.offers x hx, id⟩⟩
    refine Runs.bind
      ((takes_addOnce.list (reserved_copy hact) s.source.root .globals s.source.globals
      (fun _ hg => hg) htidy).mono ?_)
    rintro _ ⟨t, _⟩ ⟨-, ht, hl⟩
    exact Runs.pure () ⟨ht.nodup, hl.globals⟩
  obtain ⟨_, hq⟩ := hcopy.ok h
  exact hq

/-- The module `fn g() { break; }`. -/
def breakOnly : Builder where
  nodes := #[⟨.stmt .breakLoop, {}⟩, ⟨.stmt (.block [1]), {}⟩,
    ⟨.decl (.function ⟨1, [], 0, 2, [], []⟩), {}⟩]
  symbols := { names := #["g"] }
  globals := [3]

/-- Declares the function `fn helper() {}`, and gives that back or nothing. -/
def declareHelper (own : Bool) : Act Unit Unit := fun _ _ _ => do
  let helper ← Edit.build (Build.function "helper" [] 0 [] [] [])
  return if own then helper else 0

theorem reticent_declareHelper (base : List NodeId) : Reticent base (declareHelper false) := by
  intro copy _ h i known s _ hs
  refine (Orderly.build hs (Build.declaring_function "helper" 0 [] [] [] [])).bind fun _ t ht _ _ =>
    ?_
  exact .pure ht (ht.free 0 .absent)

/-- The function gives way to one that is declared on the way. -/
theorem copyModule_nodup_breakOnly : ∃ s t,
    Edit.replaceWith 3 () (Session.start breakOnly.build ()) = .ok () s ∧
    Edit.copyModule (Edit.copy (declareHelper false)) s = .ok () t ∧ t.target.globals = [2] ∧
    (t.target.globals.Nodup ∧ s.target.globals <+: t.target.globals) := by
  obtain ⟨s, t, hs, hnodup, ht, hglobals⟩ : ∃ s t,
      Edit.replaceWith 3 () (Session.start breakOnly.build ()) = .ok () s ∧ s.target.globals.Nodup ∧
      Edit.copyModule (Edit.copy (declareHelper false)) s = .ok () t ∧ t.target.globals = [2] :=
    ⟨_, _, rfl, .nil, rfl, rfl⟩
  have hgrounded : s.Grounded := (grounded_start _ _).perform (r := .handler 3 ()) hs
  exact ⟨s, t, hs, ht, hglobals, copyModule_nodup (reticent_declareHelper _) hgrounded hnodup ht⟩

/-- A function that is declared on the way and given back is declared twice. -/
theorem copyModule_declares_twice : ∃ s t,
    Edit.replaceWith 3 () (Session.start breakOnly.build ()) = .ok () s ∧ s.target.globals.Nodup ∧
    Edit.copyModule (Edit.copy (declareHelper true)) s = .ok () t ∧ t.target.globals = [2, 2] ∧
    ¬ t.target.globals.Nodup :=
  ⟨_, _, rfl, .nil, rfl, rfl, by decide⟩

end Copy
end ShaderLoom
