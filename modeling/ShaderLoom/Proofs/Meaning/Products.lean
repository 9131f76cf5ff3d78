import ShaderLoom.Proofs.Meaning.Context

/-! Products of matrices and vectors. Every product has the type that follows from the types of its
factors, and these have theirs once all of the module is resolved. Where two matrices are
multiplied, the type is that of the first one, which is right only if the second has as many
columns. -/
namespace ShaderLoom

open Resolve

/-- The type that linear algebra gives a product of matrices and vectors, if they conform. The
components are those of the vector, or else of the first matrix. -/
def Ty.times : Ty → Ty → Option Ty
  | .matrix e k r, .matrix _ c k' => if k' = k then some (.matrix e c r) else none
  | .matrix _ c r, .vector e w => if w = c then some (.vector e r) else none
  | .vector e w, .matrix _ c r => if w = r then some (.vector e c) else none
  | _, _ => none

/-- A product of two matrices has as many columns as the first one. -/
def Ty.KeepsColumns : Ty → Ty → Prop
  | .matrix _ k _, .matrix _ c _ => c = k
  | _, _ => True

/-- The three products that linear algebra knows. -/
theorem Ty.times_cases {s t u : Ty} (h : s.times t = some u) :
    (∃ e e' c k r, s = .matrix e k r ∧ t = .matrix e' c k ∧ u = .matrix e c r) ∨
    (∃ e e' c r, s = .matrix e c r ∧ t = .vector e' c ∧ u = .vector e' r) ∨
    ∃ e e' c r, s = .vector e r ∧ t = .matrix e' c r ∧ u = .vector e c := by
  unfold Ty.times at h
  split at h
  · obtain ⟨rfl, ⟨⟩⟩ := Option.ite_none_right_eq_some.1 h
    exact .inl ⟨_, _, _, _, _, rfl, rfl, rfl⟩
  · obtain ⟨rfl, ⟨⟩⟩ := Option.ite_none_right_eq_some.1 h
    exact .inr (.inl ⟨_, _, _, _, rfl, rfl, rfl⟩)
  · obtain ⟨rfl, ⟨⟩⟩ := Option.ite_none_right_eq_some.1 h
    exact .inr (.inr ⟨_, _, _, _, rfl, rfl, rfl⟩)
  · cases h

theorem binaryType_mul {s t u : Ty} (h : s.times t = some u) :
    binaryType .mul (some s) (some t) = some u ↔ s.KeepsColumns t := by
  rcases Ty.times_cases h with ⟨e, e', c, k, r, rfl, rfl, rfl⟩ | ⟨e, e', c, r, rfl, rfl, rfl⟩
    | ⟨e, e', c, r, rfl, rfl, rfl⟩
  · have hfirst : binaryType .mul (some (.matrix e k r)) (some (.matrix e' c k)) =
        some (.matrix e k r) := rfl
    simp [hfirst, Ty.KeepsColumns, eq_comm]
  · exact iff_of_true rfl trivial
  · exact iff_of_true rfl trivial

/-- A way to multiply operands of given types. -/
inductive Bracketing where
  | operand (t : Ty)
  | times (l r : Bracketing)
  deriving DecidableEq, Repr

namespace Bracketing

/-- The type that linear algebra gives the product, if all factors conform. -/
def type : Bracketing → Option Ty
  | operand t => some t
  | times l r => l.type.bind fun s => r.type.bind s.times

/-- The types of the operands, from left to right. -/
def operands : Bracketing → List Ty
  | operand t => [t]
  | times l r => l.operands ++ r.operands

/-- Wherever two matrices are multiplied, the product has as many columns as the first one. -/
def KeepsColumns : Bracketing → Prop
  | operand _ => True
  | times l r =>
    l.KeepsColumns ∧ r.KeepsColumns ∧ ∀ s t, l.type = some s → r.type = some t → s.KeepsColumns t

variable {b b' l r : Bracketing} {e s t : Ty}

theorem type_times :
    (times l r).type = some t ↔ ∃ s u, l.type = some s ∧ r.type = some u ∧ s.times u = some t := by
  simp only [type, Option.bind_eq_some_iff]
  exact ⟨fun ⟨s, hs, u, hu, h⟩ => ⟨s, u, hs, hu, h⟩, fun ⟨s, u, hs, hu, h⟩ => ⟨s, hs, u, hu, h⟩⟩

theorem type_times_matrix {c w : Int} (h : (times l r).type = some (.matrix e c w)) :
    ∃ k e', l.type = some (.matrix e k w) ∧ r.type = some (.matrix e' c k) := by
  obtain ⟨s, u, hs, hu, h⟩ := type_times.1 h
  rcases Ty.times_cases h with ⟨_, e', _, k, _, rfl, rfl, heq⟩ | ⟨_, _, _, _, rfl, rfl, heq⟩
    | ⟨_, _, _, _, rfl, rfl, heq⟩ <;>
    cases heq
  exact ⟨k, e', hs, hu⟩

theorem type_times_vector {w : Int} (h : (times l r).type = some (.vector e w)) :
    (∃ e' c, l.type = some (.matrix e' c w) ∧ r.type = some (.vector e c)) ∨
    ∃ e' k, l.type = some (.vector e k) ∧ r.type = some (.matrix e' w k) := by
  obtain ⟨s, u, hs, hu, h⟩ := type_times.1 h
  rcases Ty.times_cases h with ⟨_, _, _, _, _, rfl, rfl, heq⟩ | ⟨e', _, c, _, rfl, rfl, heq⟩
    | ⟨_, e', _, k, rfl, rfl, heq⟩ <;>
    cases heq
  · exact .inl ⟨e', c, hs, hu⟩
  · exact .inr ⟨e', k, hs, hu⟩

/-! No bracketing shows in the type of a product. Its columns are those of the last matrix and its
rows are those of the first. If there is a vector, every matrix adds to its width what it has more
of on the other side. -/

/-- How much wider a vector gets when it is multiplied by the matrices of a list, one after the
other, on its right. -/
def widening : List Ty → Int
  | [] => 0
  | .matrix _ c r :: ts => c - r + widening ts
  | _ :: ts => widening ts

/-- The type of a matrix times what is to the right of it. -/
def before (e : Ty) (c r : Int) : Option Ty → Ty
  | some (.matrix _ c' _) => .matrix e c' r
  | some (.vector e' w) => .vector e' (w + (r - c))
  | _ => .matrix e c r

/-- The type of the product of a list of operands, if they conform in some bracketing. -/
def typeOfAll : List Ty → Option Ty
  | [] => none
  | .matrix e c r :: ts => some (before e c r (typeOfAll ts))
  | .vector e w :: ts => some (.vector e (w + widening ts))
  | t :: _ => some t

theorem widening_append (ts us : List Ty) : widening (ts ++ us) = widening ts + widening us := by
  induction ts with
  | nil => simp [widening]
  | cons t ts ih => cases t <;> simp only [List.cons_append, widening, ih, Int.add_assoc]

theorem widening_operands {c w : Int} (h : b.type = some (.matrix e c w)) :
    widening b.operands = c - w := by
  induction b generalizing e c w with
  | operand t =>
    cases h
    simp [operands, widening]
  | times l r ihl ihr =>
    obtain ⟨k, e', hl, hr⟩ := type_times_matrix h
    rw [operands, widening_append, ihl hl, ihr hr]
    omega

theorem before_before (e e' : Ty) (c k w : Int) (t : Option Ty) :
    before e k w (some (before e' c k t)) = before e c w t := by
  cases t with
  | none => rfl
  | some t =>
    cases t with
    | vector e'' v =>
      simp only [before]
      congr 1
      omega
    | _ => rfl

theorem typeOfAll_matrix {c w : Int} (h : b.type = some (.matrix e c w)) (ts : List Ty) :
    typeOfAll (b.operands ++ ts) = some (before e c w (typeOfAll ts)) := by
  induction b generalizing e c w ts with
  | operand t =>
    cases h
    rfl
  | times l r ihl ihr =>
    obtain ⟨k, e', hl, hr⟩ := type_times_matrix h
    rw [operands, List.append_assoc, ihl hl, ihr hr, before_before]

theorem typeOfAll_vector {w : Int} (h : b.type = some (.vector e w)) (ts : List Ty) :
    typeOfAll (b.operands ++ ts) = some (.vector e (w + widening ts)) := by
  induction b generalizing e w ts with
  | operand t =>
    cases h
    rfl
  | times l r ihl ihr =>
    rw [operands, List.append_assoc]
    rcases type_times_vector h with ⟨e', c, hl, hr⟩ | ⟨e', k, hl, hr⟩
    · rw [typeOfAll_matrix hl, ihr hr]
      simp only [before]
      congr 2
      omega
    · rw [ihl hl, widening_append, widening_operands hr]
      congr 2
      omega

/-- What linear algebra says of a product can be told from its operands. -/
theorem type_eq_typeOfAll (h : b.type = some t) : typeOfAll b.operands = some t := by
  have hmatrix := fun e c r h => typeOfAll_matrix (b := b) (e := e) (c := c) (w := r) h []
  have hvector := fun e w h => typeOfAll_vector (b := b) (e := e) (w := w) h []
  rw [List.append_nil] at hmatrix hvector
  cases b with
  | operand s =>
    cases h
    cases t with
    | vector e w => exact (hvector e w rfl).trans (by simp [widening])
    | _ => rfl
  | times l r =>
    cases t with
    | matrix e c w => exact hmatrix e c w h
    | vector e w => exact (hvector e w h).trans (by simp [widening])
    | _ =>
      obtain ⟨s, u, -, -, hsu⟩ := type_times.1 h
      rcases Ty.times_cases hsu with ⟨_, _, _, _, _, -, -, heq⟩ | ⟨_, _, _, _, -, -, heq⟩
        | ⟨_, _, _, _, -, -, heq⟩ <;>
        cases heq

theorem type_unique (h : b.type = some s) (h' : b'.type = some t)
    (hops : b.operands = b'.operands) : s = t :=
  Option.some.inj (by rw [← type_eq_typeOfAll h, hops, type_eq_typeOfAll h'])

end Bracketing

theorem Facts.sees_congr {f f' : Facts} {e : NodeId} (h : f'.exprs[e]? = f.exprs[e]?) :
    f'.sees e = f.sees e := by
  rw [Facts.sees, Facts.sees, h]

namespace Program

variable {p : Program} {r : Resolver} {f f' : Facts} {o : List NodeId}
    {a b : List NodeId × Resolver} {e : NodeId}

/-- Whatever is still to be settled is recorded, and so is everything that has a recorded operand.
An operator that is settled has the type that follows from the types of its operands. -/
structure Coherent (p : Program) (o : List NodeId) (f : Facts) : Prop where
  met : ∀ e ∈ o, (f.exprs[e]?).isSome = true
  hosts : ∀ e, (f.exprs[e]?).isSome = true → ∀ j x, p.inTree j = true →
    p.shape? j = some (.expr x) → e ∈ x.operands →
    (f.exprs[j]?).isSome = true
  typed : ∀ e op l k, p.inTree e = true → p.shape? e = some (.expr (.binary op l k)) → e ∉ o →
    (f.exprs[e]?).isSome = true → f.sees e = binaryType op (f.sees l) (f.sees k)

namespace Coherent

theorem same (h : p.Coherent o f) (hexprs : ∀ j : NodeId, f'.exprs[j]? = f.exprs[j]?) :
    p.Coherent o f' where
  met e he := by rw [hexprs]; exact h.met e he
  hosts e he j x hj hx hop := by
    rw [hexprs] at he ⊢
    exact h.hosts e he j x hj hx hop
  typed e op l k he hx ho hs := by
    rw [hexprs] at hs
    rw [Facts.sees_congr (hexprs e), Facts.sees_congr (hexprs l), Facts.sees_congr (hexprs k)]
    exact h.typed e op l k he hx ho hs

/-- An entry for an expression, its first or a later one, leaves the others right: whatever it is an
operand of is still to be settled. -/
theorem insert {o₁ : List NodeId} (h : p.Coherent o₁ f) (ho₁ : o ⊆ o₁) (ho : o₁ ⊆ e :: o)
    (hhost : p.Hosted o e) {y : ExprFacts} (hexprs : f'.exprs = f.exprs.insert e y) :
    p.Coherent (e :: o) f' := by
  have hmono : ∀ {j : NodeId}, (f.exprs[j]?).isSome = true → (f'.exprs[j]?).isSome = true :=
    fun {j} hj => by
    rw [hexprs, Std.TreeMap.getElem?_insert]
    split
    · rfl
    · exact hj
  have hother : ∀ {j : NodeId}, j ≠ e → f'.exprs[j]? = f.exprs[j]? := fun hj => by
    simp [hexprs, Std.TreeMap.getElem?_insert, Ne.symm hj]
  refine ⟨fun j hj => ?_, fun i hi j x hj hx hop => ?_, fun i op l k hi hx hio hs => ?_⟩
  · rcases List.mem_cons.1 hj with rfl | hj
    · simp [hexprs]
    · exact hmono (h.met j (ho₁ hj))
  · by_cases hie : i = e
    · subst hie
      exact hmono (h.met j (ho₁ (hhost j x hj hx hop)))
    · rw [hother hie] at hi
      exact hmono (h.hosts i hi j x hj hx hop)
  · have hie := List.ne_of_not_mem_cons hio
    have hne : ∀ c ∈ [l, k], c ≠ e := fun c hc hce =>
      hio (List.mem_cons_of_mem _ (hhost i _ hi hx (hce ▸ hc)))
    rw [hother hie] at hs
    rw [Facts.sees_congr (hother hie), Facts.sees_congr (hother (hne l (by simp))),
      Facts.sees_congr (hother (hne k (by simp)))]
    exact h.typed i op l k hi hx (fun hi => hio (ho hi)) hs

/-- The first expression is settled once it has the type that follows from its operands, if it is an
operator. -/
theorem settle (h : p.Coherent (e :: o) f)
    (ht : ∀ op l k, p.shape? e = some (.expr (.binary op l k)) → e ∉ o →
      f.sees e = binaryType op (f.sees l) (f.sees k)) : p.Coherent o f where
  met i hi := h.met i (List.mem_cons_of_mem _ hi)
  hosts := h.hosts
  typed i op l k hi hx ho hs := by
    by_cases hie : i = e
    · subst hie
      exact ht op l k hx ho
    · exact h.typed i op l k hi hx (List.mem_cons.not.2 (not_or.2 ⟨hie, ho⟩)) hs

end Coherent

/-- One step keeps the record coherent in a founded module. -/
theorem Advance.coherent (hf : p.Founded) (hstep : p.Advance a b) (hp : p.Placed a.2)
    (h : p.Coherent a.1 a.2.facts) : p.Coherent b.1 b.2.facts := by
  cases hstep with
  | calm hc => exact h.same fun j => by rw [hc.exprs]
  | mistaken x he => exact h.same (hp.mistake he x)
  | met he _ => exact h.insert (List.Subset.refl _) (List.subset_cons_self _ _) he.hosted rfl
  | left he hx =>
    refine h.settle fun op l k hs => ?_
    rw [he.shape] at hs
    cases hs
    exact absurd rfl (hx op l k)
  | @found o r e x y he _ _ _ _ ht =>
    refine (h.insert (List.subset_cons_self _ _) (List.Subset.refl _) he.hosted rfl).settle
      fun op l k hs ho => ?_
    rw [he.shape] at hs
    cases hs
    -- an expression is no operand of itself
    have hne : ∀ c ∈ [l, k], c ≠ e :=
      fun c hc hce => ho (he.hosted e _ he.inTree he.shape (hce ▸ hc))
    have hsees : ∀ c ∈ [l, k], (r.note e y).facts.sees c = r.facts.sees c := fun c hc =>
      Facts.sees_congr ((alone_note r e y).others c (hne c hc))
    rw [sees_note (Arena.ne_zero_of_shape he.shape), hsees l (by simp), hsees k (by simp)]
    exact ht op l k rfl (.inl hf)
  | used he _ _ =>
    refine (h.insert (List.subset_cons_self _ _) (List.Subset.refl _) he.hosted
      (exprs_useVariable ..)).settle
      fun op l k hs => ?_
    rw [he.shape] at hs
    cases hs
  | called t he _ _ =>
    refine (h.insert (List.subset_cons_self _ _) (List.Subset.refl _) he.hosted
      (exprs_noteCallee ..)).settle
      fun op l k hs => ?_
    rw [he.shape] at hs
    cases hs
  | made | entered | headed | opened | closed => exact h.same fun _ => rfl

theorem Course.coherent (hf : p.Founded) (hc : p.Course a b) (hp : p.Placed a.2)
    (h : p.Coherent a.1 a.2.facts) : p.Coherent b.1 b.2.facts := by
  induction hc with
  | refl => exact h
  | tail hc hstep ih => exact hstep.coherent hf (Course.placed hc hp) ih

theorem Coherent.empty (hexprs : ∀ e : NodeId, f.exprs[e]? = none) : p.Coherent [] f where
  met e he := absurd he List.not_mem_nil
  hosts e he := by simp [hexprs] at he
  typed e op l k _ _ _ he := by simp [hexprs] at he

/-- What is recorded in the end is coherent. Nothing is recorded if something was wrong with the
program before. -/
theorem TreeShaped.coherent {b : Builder} (ht : b.build.TreeShaped) (h0 : 0 ∉ b.globals)
    (hf : b.build.Founded) : b.build.Coherent [] b.build.facts := by
  cases hd : b.diagnostics.hasErrors with
  | true =>
    have hfacts : b.build.facts = {} := by simp only [Builder.build, hd, if_true]
    exact .empty fun e => by simp [hfacts]
  | false =>
    obtain ⟨r, hr⟩ := ht.exists_resolved h0 hd
    have hstart : b.build.Coherent [] b.build.unresolved.facts :=
      .empty fun e => by simp [unresolved]
    refine (Course.coherent hf hr.course (.unresolved _) hstart).same fun j => ?_
    obtain ⟨functions, entryPoints, hsummary⟩ := r.facts.summarize_eq b.build.globals
    rw [hr.facts, hsummary]

/-- The expression multiplies operands of these types in this way. -/
def Multiplies (p : Program) : Bracketing → NodeId → Prop
  | .operand t, e => p.facts.sees e = some t
  | .times b b', e =>
    ∃ l k, p.shape? e = some (.expr (.binary .mul l k)) ∧ p.Multiplies b l ∧ p.Multiplies b' k

/-- The factors of a multiplication. -/
def factors? (p : Program) (e : NodeId) : Option (NodeId × NodeId) :=
  match p.shape? e with
  | some (.expr (.binary .mul l k)) => some (l, k)
  | _ => none

theorem factors?_eq_some {l k : NodeId} :
    p.factors? e = some (l, k) ↔ p.shape? e = some (.expr (.binary .mul l k)) := by
  unfold factors?
  split
  · next hx => simp [hx]
  · next hx => exact iff_of_false (by simp) fun h => hx l k h

instance decidableMultiplies (p : Program) : ∀ c e, Decidable (p.Multiplies c e)
  | .operand t, e => inferInstanceAs (Decidable (p.facts.sees e = some t))
  | .times b b', e =>
    match hx : p.factors? e with
    | none => isFalse fun ⟨l, k, hlk, _⟩ => by simp [factors?_eq_some.2 hlk] at hx
    | some (l, k) =>
      have := decidableMultiplies p b l
      have := decidableMultiplies p b' k
      decidable_of_iff (p.Multiplies b l ∧ p.Multiplies b' k)
        ⟨fun h => ⟨l, k, factors?_eq_some.1 hx, h⟩, fun ⟨l', k', hlk, h⟩ => by
          cases hx.symm.trans (factors?_eq_some.2 hlk)
          exact h⟩

/-- All multiplications have the types that linear algebra gives them. -/
def Conforms (p : Program) : Bracketing → NodeId → Prop
  | .operand _, _ => True
  | .times b b', e => p.facts.sees e = (Bracketing.times b b').type ∧
      ∃ l k, p.shape? e = some (.expr (.binary .mul l k)) ∧ p.Conforms b l ∧ p.Conforms b' k

theorem Conforms.sees {c : Bracketing} (h : p.Conforms c e) (hm : p.Multiplies c e) :
    p.facts.sees e = c.type := by
  cases c with
  | operand t => exact hm
  | times b b' => exact h.1

theorem Multiplies.ne_zero {c : Bracketing} (h : p.Multiplies c e) : e ≠ 0 := by
  rintro rfl
  cases c with
  | operand t => simp [Multiplies, Facts.sees] at h
  | times b b' =>
    obtain ⟨l, k, hx, -⟩ := h
    exact Arena.ne_zero_of_shape hx rfl

theorem TreeShaped.inTree_factors (ht : p.TreeShaped) {op : BinaryOp} {l k : NodeId}
    (he : p.inTree e = true) (hx : p.shape? e = some (.expr (.binary op l k))) (hl : l ≠ 0)
    (hk : k ≠ 0) : p.inTree l = true ∧ p.inTree k = true :=
  ⟨ht.inTree_child he (mem_children_of_slot hx (by simp [Shape.slots]) hl),
    ht.inTree_child he (mem_children_of_slot hx (by simp [Shape.slots]) hk)⟩

/-- Every product is recorded, as its operands are. -/
theorem Multiplies.recorded (ht : p.TreeShaped) (h : p.Coherent [] p.facts) {c : Bracketing}
    (he : p.inTree e = true) (hm : p.Multiplies c e) : (p.facts.exprs[e]?).isSome = true := by
  induction c generalizing e with
  | operand t =>
    have hm : p.facts.sees e = some t := hm
    rw [Facts.sees] at hm
    split at hm
    · cases hm
    · obtain ⟨x, hx, -⟩ := Option.bind_eq_some_iff.1 hm
      simp [hx]
  | times b b' ihb =>
    obtain ⟨l, k, hx, hl, hk⟩ := hm
    have hin := (ht.inTree_factors he hx hl.ne_zero hk.ne_zero).1
    exact h.hosts l (ihb hin hl) e _ he hx (by simp [ExprShape.operands])

/-- The types of products are those of linear algebra as long as products of matrices have the
columns of the first. -/
theorem Coherent.conforms_iff (ht : p.TreeShaped) (h : p.Coherent [] p.facts) {c : Bracketing}
    {t : Ty} (he : p.inTree e = true) (hm : p.Multiplies c e) (hc : c.type = some t) :
    p.Conforms c e ↔ c.KeepsColumns := by
  induction c generalizing e t with
  | operand s => exact Iff.rfl
  | times b b' ihb ihb' =>
    have hrecorded := hm.recorded ht h he
    obtain ⟨l, k, hx, hl, hk⟩ := hm
    obtain ⟨s, u, hs, hu, hsu⟩ := Bracketing.type_times.1 hc
    obtain ⟨hinl, hink⟩ := ht.inTree_factors he hx hl.ne_zero hk.ne_zero
    have hsees := h.typed e .mul l k he hx List.not_mem_nil hrecorded
    -- once the factors have their types, the product has its own just if it keeps the columns
    have hproduct : p.Conforms b l → p.Conforms b' k →
        (p.facts.sees e = (Bracketing.times b b').type ↔ s.KeepsColumns u) := fun hcl hck => by
      rw [hsees, hcl.sees hl, hck.sees hk, hs, hu, hc]
      exact binaryType_mul hsu
    constructor
    · rintro ⟨hte, l', k', hx', hcl, hck⟩
      rw [hx] at hx'
      cases hx'
      refine ⟨(ihb hinl hl hs).1 hcl, (ihb' hink hk hu).1 hck, fun s' u' hs' hu' => ?_⟩
      cases hs.symm.trans hs'
      cases hu.symm.trans hu'
      exact (hproduct hcl hck).1 hte
    · rintro ⟨hkb, hkb', hkeeps⟩
      have hcl := (ihb hinl hl hs).2 hkb
      have hck := (ihb' hink hk hu).2 hkb'
      exact ⟨(hproduct hcl hck).2 (hkeeps s u hs hu), l, k, hx, hcl, hck⟩

/-- Products of matrices and vectors, nested in any way. If the module is founded and linear algebra
gives a product a type, then all its multiplications have the types that linear algebra gives them
just if no product of two matrices has more or fewer columns than the first of them. Two such
products of the same operands have the same type, in whatever order their multiplications are
done. -/
theorem products_conform {b : Builder} (ht : b.build.TreeShaped) (h0 : 0 ∉ b.globals)
    (hf : b.build.Founded) :
    (∀ c e t, b.build.inTree e = true → b.build.Multiplies c e → c.type = some t →
      (b.build.Conforms c e ↔ c.KeepsColumns)) ∧
    ∀ c c' e e' t t', b.build.inTree e = true → b.build.inTree e' = true → b.build.Multiplies c e →
      b.build.Multiplies c' e' → c.type = some t → c'.type = some t' → c.KeepsColumns →
      c'.KeepsColumns →
      c.operands = c'.operands → b.build.facts.sees e = b.build.facts.sees e' := by
  have hiff : ∀ c e t, b.build.inTree e = true → b.build.Multiplies c e → c.type = some t →
      (b.build.Conforms c e ↔ c.KeepsColumns) :=
        fun c e t he hm hc => (ht.coherent h0 hf).conforms_iff ht he hm hc
  refine ⟨hiff, fun c c' e e' t t' he he' hm hm' hc hc' hk hk' hops => ?_⟩
  rw [((hiff c e t he hm hc).2 hk).sees hm, ((hiff c' e' t' he' hm' hc').2 hk').sees hm', hc, hc',
    Bracketing.type_unique hc hc' hops]

/-- The module `fn run(v : vec3<f32>, a : mat2x3<f32>, b : mat‹columns›x2<f32>) { let s = (v * a) *
b; let t = v * (a * b); }`. -/
def bracketed (columns : Int) : Document.Module where
  globals := [
    some { kind := "Function", name := "run"
           params := [
             parameter "v" { kind := "Vector", width := 3 },
             parameter "a" { kind := "Matrix", columns := 2, rows := 3 },
             parameter "b" { kind := "Matrix", columns, rows := 2 }]
           body := some { kind := "Block", statements := [
             constant "s" (product (product (use "v") (use "a")) (use "b")),
             constant "t" (product (use "v") (product (use "a") (use "b")))] } }]
where
  parameter (n : String) (t : Document.Record) : Option Document.Record :=
    some { kind := "Parameter", name := n, type := some { t with elem := some { kind := "F32" } } }
  constant (n : String) (e : Option Document.Record) : Option Document.Record :=
    some { kind := "VarDecl", var := some { kind := "Let", name := n, initializer := e } }
  product (l r : Option Document.Record) : Option Document.Record :=
    some { kind := "Binary", op := "*", lhs := l, rhs := r }
  use (n : String) : Option Document.Record := some { kind := "Ident", name := n }

/-- The first product of the module. -/
def leftward (columns : Int) : Bracketing :=
  .times (.times (.operand (.vector .f32 3)) (.operand (.matrix .f32 2 3)))
    (.operand (.matrix .f32 columns 2))

/-- The second product of the module. -/
def rightward (columns : Int) : Bracketing :=
  .times (.operand (.vector .f32 3))
    (.times (.operand (.matrix .f32 2 3)) (.operand (.matrix .f32 columns 2)))

theorem products_conform_square : ∃ p, (bracketed 2).decode = .ok p ∧ p.Multiplies (leftward 2) 14 ∧
    p.Multiplies (rightward 2) 21 ∧ p.Conforms (leftward 2) 14 ∧ p.Conforms (rightward 2) 21 ∧
    p.facts.sees 14 = p.facts.sees 21 := by
  have hok : ((bracketed 2).decode.toOption.any fun p => p.valid && p.inTree 14 && p.inTree 21 &&
      decide (p.Multiplies (leftward 2) 14) && decide (p.Multiplies (rightward 2) 21)) = true := by
    decide +kernel
  cases hp : (bracketed 2).decode with
  | error e => simp [hp, Except.toOption] at hok
  | ok p =>
    simp only [hp, Except.toOption, Option.any_some, Bool.and_eq_true, decide_eq_true_eq] at hok
    obtain ⟨⟨⟨⟨hv, hin⟩, hin'⟩, hm⟩, hm'⟩ := hok
    have hf := founded_of_valid hp hv
    obtain ⟨b, hgood, -, -, -, rfl⟩ := Document.decode_good hp
    obtain ⟨hiff, hequal⟩ :=
      products_conform (hgood.toFit.build.treeShaped (hgood.counted_build trivial))
      (fun h => Nat.lt_irrefl _ (hgood.toFit.globals 0 h).1) hf
    have hk : (leftward 2).KeepsColumns := by
      simp [leftward, Bracketing.KeepsColumns, Bracketing.type, Ty.times, Ty.KeepsColumns]
    have hk' : (rightward 2).KeepsColumns := by
      simp [rightward, Bracketing.KeepsColumns, Bracketing.type, Ty.times, Ty.KeepsColumns]
    exact ⟨_, rfl, hm, hm', (hiff _ _ _ hin hm rfl).2 hk, (hiff _ _ _ hin' hm' rfl).2 hk',
      hequal _ _ _ _ _ _ hin hin' hm hm' rfl rfl hk hk' rfl⟩

/-- With more columns in the second matrix, the second product is too narrow. -/
theorem products_narrowed : ∃ p, (bracketed 4).decode = .ok p ∧ p.valid = true ∧
    p.Multiplies (leftward 4) 14 ∧ p.Multiplies (rightward 4) 21 ∧
    (leftward 4).operands = (rightward 4).operands ∧
    (leftward 4).type = some (.vector .f32 4) ∧ (rightward 4).type = some (.vector .f32 4) ∧
    p.facts.sees 14 = some (.vector .f32 4) ∧ p.facts.sees 21 = some (.vector .f32 2) := by
  have hok : ((bracketed 4).decode.toOption.any fun p => p.valid &&
      decide (p.Multiplies (leftward 4) 14) && decide (p.Multiplies (rightward 4) 21) &&
      decide (p.facts.sees 14 = some (.vector .f32 4)) &&
        decide (p.facts.sees 21 = some (.vector .f32 2))) = true := by
    decide +kernel
  cases hp : (bracketed 4).decode with
  | error e => simp [hp, Except.toOption] at hok
  | ok p =>
    simp only [hp, Except.toOption, Option.any_some, Bool.and_eq_true, decide_eq_true_eq] at hok
    obtain ⟨⟨⟨⟨hv, hm⟩, hm'⟩, hwide⟩, hnarrow⟩ := hok
    exact ⟨p, rfl, hv, hm, hm', rfl, rfl, rfl, hwide, hnarrow⟩

end Program
end ShaderLoom
