import ShaderLoom.Proofs.Copy.Frame
import ShaderLoom.Proofs.Copy.Identity
import ShaderLoom.Proofs.Tags

/-! Handlers of families in another order. The families of a session's handlers are apart, so a node
is of one of them at most and it does not matter which handler is asked first. Whatever is done with
a session without a look at the handlers themselves then goes the same way in any order in which
they were registered, the copy of the module among it. -/
namespace ShaderLoom.Copy

variable {κ σ α β : Type}

/-- No two families overlap. -/
def Apart (hs : List (Tag × κ)) : Prop := hs.Pairwise fun f g => f.1.related g.1 = false

namespace Apart

variable {hs gs : List (Tag × κ)}

theorem perm (h : Apart hs) (hp : hs.Perm gs) : Apart gs := by
  apply (hp.pairwise_iff _).1 h
  intro f g hfg
  rwa [Tag.related_comm]

/-- A node is of one family at most: two families of one node overlap. -/
theorem filter_length_le (h : Apart hs) (t : Tag) : (hs.filter fun f => t.is f.1).length ≤ 1 := by
  have hmatching : ∀ f ∈ hs.filter fun f => t.is f.1, t.is f.1 = true :=
    fun f hf => (List.mem_filter.1 hf).2
  have hpairwise := List.Pairwise.filter (fun f => t.is f.1) h
  cases hm : hs.filter fun f => t.is f.1 with
  | nil => exact Nat.zero_le 1
  | cons f rest =>
    cases rest with
    | nil => exact Nat.le_refl 1
    | cons g rest =>
      rw [hm] at hmatching hpairwise
      have hrelated := Tag.related_of_is (hmatching f (by simp)) (hmatching g (by simp))
      rw [List.rel_of_pairwise_cons hpairwise List.mem_cons_self] at hrelated
      cases hrelated

theorem find?_perm (h : Apart hs) (hp : hs.Perm gs) (t : Tag) :
    hs.find? (fun f => t.is f.1) = gs.find? fun f => t.is f.1 := by
  have hmatching := hp.filter fun f => t.is f.1
  have hle := h.filter_length_le t
  rw [← List.head?_filter, ← List.head?_filter]
  cases hm : hs.filter fun f => t.is f.1 with
  | nil =>
    rw [hm] at hmatching
    rw [List.nil_perm.1 hmatching]
  | cons f rest =>
    rw [hm, List.length_cons] at hle
    obtain rfl : rest = [] := List.length_eq_zero_iff.1 (by omega)
    rw [hm] at hmatching
    rw [List.singleton_perm.1 hmatching]

theorem append_singleton_iff {f : Tag × κ} :
    Apart (hs ++ [f]) ↔ Apart hs ∧ ∀ g ∈ hs, f.1.related g.1 = false := by
  simp only [Apart, List.pairwise_append, List.pairwise_singleton, List.mem_singleton,
    forall_eq, true_and, Tag.related_comm f.1]

end Apart

/-- Sessions that are the same but for the order of their handlers. -/
structure Reordered (s s' : Session κ σ) : Prop where
  same : s' = { s with handlers := s'.handlers }
  perm : s.handlers.Perm s'.handlers
  apart : Apart s.handlers

/-- The same mistake. An overlap may be told of another one of the handlers that the new one
overlaps with. -/
inductive SameMistake : Misuse → Misuse → Prop
  | refl (e : Misuse) : SameMistake e e
  | overlap (family first second : String) :
    SameMistake (.overlappingHandlers family first) (.overlappingHandlers family second)

/-- Both runs succeed with the same answer or fail with the same mistake, in sessions that are the
same but for the order of their handlers. -/
inductive Alike :
    EStateM.Result Misuse (Session κ σ) α → EStateM.Result Misuse (Session κ σ) α → Prop
  | ok (a : α) {t t' : Session κ σ} (h : Reordered t t') : Alike (.ok a t) (.ok a t')
  | error {e e' : Misuse} {t t' : Session κ σ} (he : SameMistake e e') (h : Reordered t t') :
    Alike (.error e t) (.error e' t')

/-- The step goes the same way in every order of the handlers. -/
def Blind (step : Edit κ σ α) : Prop :=
  ∀ ⦃s s' : Session κ σ⦄, Reordered s s' → Alike (step s) (step s')

/-- The outcome with other handlers. -/
def withHandlers (hs : List (Tag × κ)) :
    EStateM.Result Misuse (Session κ σ) α → EStateM.Result Misuse (Session κ σ) α
  | .ok a t => .ok a { t with handlers := hs }
  | .error e t => .error e { t with handlers := hs }

/-- The step does not look at the handlers and leaves them as they are. -/
def Heedless (step : Edit κ σ α) : Prop :=
  ∀ s hs, step { s with handlers := hs } = withHandlers hs (step s)

namespace Heedless

theorem build (step : Build α) : Heedless (Edit.build step : Edit κ σ α) := by
  intro s hs
  unfold Edit.build
  cases step s.target <;> rfl

theorem checkSource (i : NodeId) : Heedless (Edit.checkSource i : Edit κ σ Node) := by
  intro s hs
  unfold Edit.checkSource
  rw [get_bind, get_bind]
  cases s.source.node? i with
  | none => rfl
  | some n =>
    dsimp only
    split <;> rfl

theorem copySymbol (x : Symbol) : Heedless (Edit.copySymbol x : Edit κ σ Symbol) := by
  intro s hs
  unfold Edit.copySymbol
  split
  · rfl
  · obtain ⟨_, _, _, _, _, _, _, _, _, _, symbols, rule, _⟩ := s
    rw [get_bind, get_bind]
    dsimp only
    cases symbols.lookup x with
    | some y => rfl
    | none => cases rule <;> rfl

end Heedless

namespace Blind

theorem pure (a : α) : Blind (pure a : Edit κ σ α) := fun _ _ h => .ok a h

theorem throw (e : Misuse) : Blind (throw e : Edit κ σ α) := fun _ _ h => .error (.refl e) h

theorem bind {step : Edit κ σ α} {next : α → Edit κ σ β} (h : Blind step)
    (hn : ∀ a, Blind (next a)) : Blind (step >>= next) := by
  intro s s' hs
  have halike := h hs
  change Alike (EStateM.bind step next s) (EStateM.bind step next s')
  unfold EStateM.bind
  generalize step s = r at halike ⊢
  generalize step s' = r' at halike ⊢
  cases halike with
  | ok a ht => exact hn a ht
  | error he ht => exact .error he ht

theorem tryCatch {step : Edit κ σ α} {next : Misuse → Edit κ σ α} (h : Blind step)
    (hn : ∀ e, Blind (next e)) (hsame : ∀ e e', SameMistake e e' → next e = next e') :
    Blind (tryCatch step next) := by
  intro s s' hs
  have halike := h hs
  change Alike (EStateM.tryCatch step next s) (EStateM.tryCatch step next s')
  unfold EStateM.tryCatch
  generalize step s = r at halike ⊢
  generalize step s' = r' at halike ⊢
  cases halike with
  | ok a ht => exact .ok a ht
  | @error e e' _ _ he ht =>
    change Alike (next e _) (next e' _)
    rw [← hsame e e' he]
    exact hn e ht

theorem of_heedless {step : Edit κ σ α} (h : Heedless step) : Blind step := by
  intro s s' hs
  -- with its own handlers put in once more the session is what it was
  have hkept := h s s.handlers
  have hrun := h s s'.handlers
  rw [← hs.same] at hrun
  rw [hrun]
  cases hstep : step s with
  | ok a t =>
    have ht : t = { t with handlers := s.handlers } := by simpa [hstep, withHandlers] using hkept
    have hhandlers : t.handlers = s.handlers := by rw [ht]
    exact .ok a ⟨rfl, hhandlers ▸ hs.perm, hhandlers ▸ hs.apart⟩
  | error e t =>
    have ht : t = { t with handlers := s.handlers } := by simpa [hstep, withHandlers] using hkept
    have hhandlers : t.handlers = s.handlers := by rw [ht]
    exact .error (.refl e) ⟨rfl, hhandlers ▸ hs.perm, hhandlers ▸ hs.apart⟩

/-- A look at the session is no harm if it is not for its handlers. -/
theorem look {next : Session κ σ → Edit κ σ β} (hn : ∀ s, Blind (next s))
    (hsame : ∀ s hs, next { s with handlers := hs } = next s) : Blind (get >>= next) := by
  intro s s' hs
  rw [get_bind, get_bind]
  have hnext : next s' = next s := by
    rw [hs.same]
    exact hsame s _
  rw [hnext]
  exact hn s hs

/-- Handlers whose families are apart from the new one are so in any order. -/
theorem replaceAll (tag : Tag) (h : κ) : Blind (Edit.replaceAll tag h : Edit κ σ Unit) := by
  intro s s' hs
  unfold Edit.replaceAll
  rw [get_bind, get_bind]
  cases hfound : s.handlers.find? fun f => tag.related f.1 with
  | none =>
    have hfree : ∀ f ∈ s.handlers, tag.related f.1 = false := by
      intro f hf
      exact Bool.eq_false_iff.2 (List.find?_eq_none.1 hfound f hf)
    have hfound' : s'.handlers.find? (fun f => tag.related f.1) = none := by
      apply List.find?_eq_none.2
      intro f hf
      exact Bool.eq_false_iff.1 (hfree f (hs.perm.mem_iff.2 hf))
    simp only [hfound']
    refine .ok () ⟨?same, hs.perm.append_right _, Apart.append_singleton_iff.2 ⟨hs.apart, hfree⟩⟩
    case same =>
      dsimp only
      rw [hs.same]
  | some f =>
    obtain ⟨g, hg⟩ : ∃ g, s'.handlers.find? (fun f => tag.related f.1) = some g := by
      rw [← Option.isSome_iff_exists, List.find?_isSome]
      exact ⟨f, hs.perm.mem_iff.1 (List.mem_of_find?_eq_some hfound),
        List.find?_some (p := fun f : Tag × κ => tag.related f.1) hfound⟩
    simp only [hg]
    exact .error (.overlap _ _ _) hs

/-! The engine -/

variable {inner : NodeId → Edit κ σ NodeId} {yield : β → NodeId → Edit κ σ β}

theorem foldlM (hy : ∀ b i, Blind (yield b i)) (xs : List NodeId) (b : β) :
    Blind (xs.foldlM yield b) := by
  induction xs generalizing b with
  | nil => exact pure b
  | cons x xs ih =>
    rw [List.foldlM_cons]
    exact bind (hy b x) ih

theorem foldElements (hc : ∀ i, Blind (inner i)) (hy : ∀ b i, Blind (yield b i)) (ids : List NodeId)
    (b : β) : Blind (Edit.foldElements inner yield ids b) := by
  induction ids generalizing b with
  | nil => exact pure b
  | cons i ids ih =>
    have hrest : ∀ b,
        Blind (do let b ← ((← MonadState.get).after
          i).foldlM yield b; Edit.foldElements inner yield ids b) := by
      intro b
      apply look
      · intro s
        exact bind (foldlM hy _ b) ih
      · exact fun _ _ => rfl
    apply look
    · intro s
      apply bind (foldlM hy _ b)
      intro b
      apply look
      · intro s
        split
        · exact bind (pure b) hrest
        · apply bind (hc i)
          intro x
          split
          · exact bind (pure b) hrest
          · exact bind (hy b x) hrest
      · exact fun _ _ => rfl
    · exact fun _ _ => rfl

theorem foldList (hc : ∀ i, Blind (inner i)) (hy : ∀ b i, Blind (yield b i)) (owner : NodeId)
    (kind : ListKind) (ids : List NodeId) (b : β) :
    Blind (Edit.foldList inner yield owner kind ids b) := by
  apply look
  · intro s
    apply bind (foldlM hy _ b)
    intro b
    apply bind (foldElements hc hy ids b)
    intro b
    apply look
    · exact fun s => foldlM hy _ b
    · exact fun _ _ => rfl
  · exact fun _ _ => rfl

theorem copyListOf (hc : ∀ i, Blind (inner i)) (owner : NodeId) (kind : ListKind)
    (ids : List NodeId) : Blind (Edit.copyListOf inner owner kind ids) :=
  foldList hc (fun _ _ => pure _) owner kind ids []

theorem copyParts (hc : ∀ i, Blind (inner i)) (i : NodeId) (n : Node) :
    Blind (Edit.copyParts inner i n) := by
  unfold Edit.copyParts
  split
  · exact throw _
  · apply bind
    · exact Shape.traverse_of pure bind (fun x => of_heedless (.copySymbol x)) hc
        (copyListOf hc i) _
    · exact fun _ => of_heedless (.build _)

theorem copyPlain (hc : ∀ i, Blind (inner i)) (i : NodeId) : Blind (Edit.copyPlain inner i) := by
  unfold Edit.copyPlain
  split
  · exact pure 0
  · exact bind (of_heedless (.checkSource i)) fun n => copyParts hc i n

theorem copyList (hc : ∀ i, Blind (inner i)) (owner : NodeId) (ids : List NodeId) :
    Blind (Edit.copyList inner owner ids) := by
  apply look
  · intro s
    split
    · exact copyListOf hc owner _ ids
    · exact throw _
  · exact fun _ _ => rfl

theorem addOnce (seen : List NodeId) (i : NodeId) :
    Blind (Edit.addOnce seen i : Edit κ σ (List NodeId)) := by
  unfold Edit.addOnce
  split
  · exact pure seen
  · exact bind (of_heedless (.build _)) fun _ => pure _

theorem copyModule (hc : ∀ i, Blind (inner i)) : Blind (Edit.copyModule inner) := by
  have hset : Heedless (modify fun s => { s with copied := true } : Edit κ σ Unit) := fun _ _ => rfl
  apply look
  · intro s
    have hlist :=
      bind (foldList hc addOnce s.source.root .globals s.source.globals s.target.globals)
      fun _ => pure (κ := κ) (σ := σ) ()
    split
    · exact bind (throw _) fun _ => bind (of_heedless hset) fun _ => hlist
    · exact bind (of_heedless hset) fun _ => hlist
  · exact fun _ _ => rfl

end Blind

/-- What can be done with a session: steps that do not look at the handlers, registering a handler,
and copying. A mistake may be dealt with, but not by which handler an overlap was found with. -/
inductive Doable (copy : NodeId → Edit κ σ NodeId) : {α : Type} → Edit κ σ α → Prop
  | heedless {α : Type} {step : Edit κ σ α} (h : Heedless step) : Doable copy step
  | bind {α β : Type} {step : Edit κ σ α} {next : α → Edit κ σ β} (h : Doable copy step)
    (hn : ∀ a, Doable copy (next a)) : Doable copy (step >>= next)
  | attempt {α : Type} {step : Edit κ σ α} {next : Misuse → Edit κ σ α} (h : Doable copy step)
    (hn : ∀ e, Doable copy (next e)) (hsame : ∀ e e', SameMistake e e' → next e = next e') :
    Doable copy (tryCatch step next)
  | replaceAll (tag : Tag) (h : κ) : Doable copy (Edit.replaceAll tag h)
  | copy (i : NodeId) : Doable copy (copy i)
  | copyPlain (i : NodeId) : Doable copy (Edit.copyPlain copy i)
  | copyList (owner : NodeId) (ids : List NodeId) : Doable copy (Edit.copyList copy owner ids)
  | copyModule : Doable copy (Edit.copyModule copy)

theorem Doable.blind {copy : NodeId → Edit κ σ NodeId} (hc : ∀ i, Blind (copy i))
    {step : Edit κ σ α} (h : Doable copy step) : Blind step := by
  induction h with
  | heedless h => exact .of_heedless h
  | bind _ _ ih ihn => exact ih.bind ihn
  | attempt _ _ hsame ih ihn => exact ih.tryCatch ihn hsame
  | replaceAll tag h => exact .replaceAll tag h
  | copy i => exact hc i
  | copyPlain i => exact .copyPlain hc i
  | copyList owner ids => exact .copyList hc owner ids
  | copyModule => exact .copyModule hc

namespace Blind

variable {act : Act κ σ} (hact : ∀ copy h i, Doable copy (act copy h i))
include hact

/-- Both sessions find the same handler for a node. -/
theorem copyStep {inner : NodeId → Edit κ σ NodeId} (hc : ∀ i, Blind (inner i)) (i : NodeId) :
    Blind (Edit.copyStep act inner i) := by
  unfold Edit.copyStep
  split
  · exact pure 0
  apply bind (of_heedless (.checkSource i))
  intro n s s' hs
  have hreplaced : s'.replacements = s.replacements := by rw [hs.same]
  have hfind := hs.apart.find?_perm hs.perm n.shape.tag
  rw [get_bind, get_bind, hreplaced]
  cases s.replacements i with
  | some r =>
    cases r with
    | fixed t => exact pure t hs
    | handler h => exact (hact inner h i).blind hc hs
  | none =>
    dsimp only
    rw [hfind]
    cases s'.handlers.find? fun f => n.shape.tag.is f.1 with
    | none => exact copyParts hc i n hs
    | some f =>
      have hhandled : Blind (do
          let t ← act inner f.2 i
          if t = 0 then Edit.copyParts inner i n else return t) := by
        apply bind ((hact inner f.2 i).blind hc)
        intro t
        split
        · exact copyParts hc i n
        · exact pure t
      exact hhandled hs

/-- Copying goes the same way in every order of the handlers. -/
theorem copy (i : NodeId) : Blind (Edit.copy act i) := by
  have hto : ∀ n i, Blind (Edit.copyTo act n i) := by
    intro n
    induction n with
    | zero => exact fun i => throw _
    | succ n ih => exact fun i => copyStep hact ih i
  apply look
  · exact fun s => hto _ i
  · exact fun _ _ => rfl

end Blind

/-- Registers a handler for each family, one after another. -/
def registerFamilies (fs : List (Tag × κ)) : Edit κ σ Unit :=
  fs.forM fun f => Edit.replaceAll f.1 f.2

theorem registerFamilies_cons (f : Tag × κ) (fs : List (Tag × κ)) :
    (registerFamilies (f :: fs) : Edit κ σ Unit) =
    Edit.replaceAll f.1 f.2 >>= fun _ => registerFamilies fs := rfl

theorem replaceAll_ok_iff {tag : Tag} {h : κ} {s t : Session κ σ} :
    Edit.replaceAll tag h s = .ok () t ↔
    (∀ f ∈ s.handlers, tag.related f.1 = false) ∧
    t = { s with handlers := s.handlers ++ [(tag, h)] } := by
  unfold Edit.replaceAll
  rw [get_bind]
  cases hfound : s.handlers.find? fun f => tag.related f.1 with
  | none =>
    have hfree : ∀ f ∈ s.handlers, tag.related f.1 = false := fun f hf =>
      Bool.eq_false_iff.2 (List.find?_eq_none.1 hfound f hf)
    constructor
    · intro ht
      cases ht
      exact ⟨hfree, rfl⟩
    · rintro ⟨-, rfl⟩
      rfl
  | some f =>
    constructor
    · intro ht
      cases ht
    · rintro ⟨hfree, -⟩
      have hrelated := List.find?_some (p := fun f : Tag × κ => tag.related f.1) hfound
      rw [hfree f (List.mem_of_find?_eq_some hfound)] at hrelated
      cases hrelated

/-- Handlers are accepted just if their families are apart, from each other and from those that are
there. -/
theorem registerFamilies_ok_iff {fs : List (Tag × κ)} {s t : Session κ σ} (hs : Apart s.handlers) :
    registerFamilies fs s = .ok () t ↔ Apart (s.handlers ++ fs) ∧
    t = { s with handlers := s.handlers ++ fs } := by
  induction fs generalizing s with
  | nil =>
    rw [List.append_nil]
    constructor
    · intro ht
      cases ht
      exact ⟨hs, rfl⟩
    · rintro ⟨-, rfl⟩
      rfl
  | cons f fs ih =>
    rw [registerFamilies_cons, bind_ok]
    constructor
    · rintro ⟨_, u, hu, ht⟩
      obtain ⟨hfree, rfl⟩ := replaceAll_ok_iff.1 hu
      have hrest := (ih (Apart.append_singleton_iff.2 ⟨hs, hfree⟩)).1 ht
      simpa only [List.append_assoc, List.singleton_append] using hrest
    · rintro ⟨hall, rfl⟩
      have hsplit : Apart ((s.handlers ++ [f]) ++ fs) := by
        rwa [List.append_assoc, List.singleton_append]
      have hfirst : Apart (s.handlers ++ [f]) := (List.pairwise_append.1 hsplit).1
      refine ⟨(), _, replaceAll_ok_iff.2 ⟨(Apart.append_singleton_iff.1 hfirst).2, rfl⟩,
        (ih hfirst).2 ⟨hsplit, ?_⟩⟩
      simp only [List.append_assoc, List.singleton_append]

/-- The test for a family orders the tags of every register by their bases. So a node is of one
family at most of the handlers that a session has accepted; the session accepts them in any other
order, makes the same copy of the module then, and goes the same way in all that is done with it. -/
theorem families_unordered {act : Act κ σ} (hact : ∀ copy h i, Doable copy (act copy h i))
    {s t : Session κ σ} {fs gs : List (Tag × κ)} (hnone : s.handlers = [])
    (haccepted : registerFamilies fs s = .ok () t) (hperm : fs.Perm gs) :
    (∀ r : TagRegister, r.Grown → r.Ordered) ∧
    (∀ tag : Tag, (fs.filter fun f => tag.is f.1).length ≤ 1) ∧
    ∃ t', registerFamilies gs s = .ok () t' ∧
      (∀ u, Edit.copyModule (Edit.copy act) t = .ok () u →
        ∃ u', Edit.copyModule (Edit.copy act) t' = .ok () u' ∧
        u'.target = u.target ∧ u'.state = u.state) ∧
      ∀ {α : Type} (step : Edit κ σ α), Doable (Edit.copy act) step → Alike (step t) (step t') := by
  have hstart : Apart s.handlers := by
    rw [hnone]
    exact .nil
  rw [registerFamilies_ok_iff hstart, hnone, List.nil_append] at haccepted
  obtain ⟨hapart, rfl⟩ := haccepted
  have hreordered : Reordered { s with handlers := fs } { s with handlers := gs } :=
    ⟨rfl, hperm, hapart⟩
  have halike : ∀ {α : Type} (step : Edit κ σ α), Doable (Edit.copy act) step →
      Alike (step { s with handlers := fs }) (step { s with handlers := gs }) := fun step h =>
    h.blind (Blind.copy hact) hreordered
  refine ⟨fun r hr => hr.ordered, hapart.filter_length_le, { s with handlers := gs }, ?accepted,
    ?copied, halike⟩
  case accepted =>
    rw [registerFamilies_ok_iff hstart, hnone, List.nil_append]
    exact ⟨hapart.perm hperm, rfl⟩
  case copied =>
    intro u hu
    have hmodule := halike _ .copyModule
    rw [hu] at hmodule
    generalize Edit.copyModule (Edit.copy act) { s with handlers := gs } = outcome at hmodule
    cases hmodule with
    | ok _ hu' =>
      refine ⟨_, rfl, ?_, ?_⟩
      · rw [hu'.same]
      · rw [hu'.same]

/-- A handler copies the nodes of its family as they are, or leaves that to the engine. -/
def copyingPlainly : Act Bool Unit :=
  fun copy plain i => if plain then Edit.copyPlain copy i else pure 0

theorem doable_copyingPlainly (copy : NodeId → Edit Bool Unit NodeId) (plain : Bool) (i : NodeId) :
    Doable copy (copyingPlainly copy plain i) := by
  cases plain with
  | true => exact .copyPlain i
  | false => exact .heedless fun _ _ => rfl

/-- Handlers of statements and of types, registered either way. -/
theorem families_unordered_small :
    ∃ p t t' u u', small.decode = .ok p ∧ TagRegister.standard.Ordered ∧
    registerFamilies [(.statement, true), (.typeNode, false)] (Session.start p ()) = .ok () t ∧
    registerFamilies [(.typeNode, false), (.statement, true)] (Session.start p ()) = .ok () t' ∧
    Edit.copyModule (Edit.copy copyingPlainly) t = .ok () u ∧
    Edit.copyModule (Edit.copy copyingPlainly) t' = .ok () u' ∧
    u'.target = u.target ∧ u.target.globals.length = 2 := by
  have hok : (small.decode.toOption.any fun p =>
      match (do registerFamilies [(.statement, true),
        (.typeNode, false)]; Edit.copyModule (Edit.copy copyingPlainly) :
        Edit Bool Unit Unit) (Session.start p ()) with
      | .ok _ u => u.target.globals.length == 2
      | .error _ _ => false) = true := by
    decide +kernel
  cases hp : small.decode with
  | error e => simp [hp, Except.toOption] at hok
  | ok p =>
    rw [hp] at hok
    simp only [Except.toOption, Option.any_some] at hok
    split at hok
    · next u hrun =>
      obtain ⟨_, t, ht, hu⟩ := bind_ok.1 hrun
      obtain ⟨hordered, -, t', ht', hcopied, -⟩ :=
        families_unordered doable_copyingPlainly (s := Session.start p ()) rfl ht
          (List.Perm.swap _ _ [])
      obtain ⟨u', hu', htarget, -⟩ := hcopied u hu
      exact ⟨p, t, t', u, u', rfl, hordered _ TagRegister.grown_standard, ht, ht', hu, hu', htarget,
        eq_of_beq hok⟩
    · cases hok

end ShaderLoom.Copy
