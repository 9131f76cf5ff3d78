import ShaderLoom.Proofs.Meaning.Pairing
import ShaderLoom.Proofs.Meaning.Typed

/-! Types of two modules whose structures stand for each other, whatever they are called. What
resolution makes of types it makes of their counterparts too. -/
namespace ShaderLoom

/-- Types that differ in the numbers and names of structures only. -/
inductive Ty.Kin (R : NodeId → NodeId → Prop) : Ty → Ty → Prop
  | void : Kin R .void .void
  | bool : Kin R .bool .bool
  | i32 : Kin R .i32 .i32
  | u32 : Kin R .u32 .u32
  | f32 : Kin R .f32 .f32
  | vector {e f : Ty} (width : Int) : Kin R e f → Kin R (.vector e width) (.vector f width)
  | matrix {e f : Ty} (columns rows : Int) : Kin R e f →
    Kin R (.matrix e columns rows) (.matrix f columns rows)
  | array {e f : Ty} (count : Int) : Kin R e f → Kin R (.array e count) (.array f count)
  | struct {d d' : NodeId} (name name' : String) : R d d' →
    Kin R (.struct d name) (.struct d' name')
  | sampler (comparison : Bool) : Kin R (.sampler comparison) (.sampler comparison)
  | sampledTexture {e f : Ty} (dim : TextureDim) : Kin R e f →
    Kin R (.sampledTexture dim e) (.sampledTexture dim f)
  | externalTexture : Kin R .externalTexture .externalTexture

section Kin

variable {R : NodeId → NodeId → Prop}

/-- Kin types, or none on either side. -/
abbrev Kin (R : NodeId → NodeId → Prop) : Option Ty → Option Ty → Prop := Option.Rel (Ty.Kin R)

theorem Kin.binaryType (op : BinaryOp) {l l' r r' : Option Ty} (hl : Kin R l l') (hr : Kin R r r') :
    Kin R (binaryType op l r) (binaryType op l' r') := by
  cases hl with
  | none => cases hr <;> exact .none
  | some hl =>
    cases hr with
    | none => exact .none
    | some hr =>
      unfold ShaderLoom.binaryType
      dsimp only
      split
      · cases hl with
        | vector w _ => exact Option.Rel.some (Ty.Kin.vector w .bool)
        | _ => exact Option.Rel.some Ty.Kin.bool
      split
      · exact .some .bool
      have hl' := hl
      cases hl with
      | matrix _ _ he =>
        cases hr with
        | vector _ hf =>
          dsimp only
          split
          · exact .some (.vector _ hf)
          · exact .some hl'
        | _ => exact .some hl'
      | vector _ he =>
        cases hr with
        | matrix _ _ hf =>
          dsimp only
          split
          · exact .some (.vector _ he)
          · exact .some hl'
        | _ => exact .some hl'
      | _ =>
        cases hr with
        | vector _ hf => exact .some (.vector _ hf)
        | matrix _ _ hf => exact .some (.matrix _ _ hf)
        | _ => exact .some hl'

/-- Builtin functions have no structures for results of their own. -/
theorem Ty.Kin.fixed {name : String} {t : Ty} (h : builtinRule? name = some (.fixed t)) :
    t.Kin R t := by
  unfold builtinRule? at h
  repeat' split at h
  all_goals cases h
  all_goals repeat constructor

theorem Kin.result {name : String} {rule : BuiltinRule} (hrule : builtinRule? name = some rule)
    {ts us : List (Option Ty)} (h : List.Forall₂ (Kin R) ts us) :
    Kin R (rule.result ts) (rule.result us) := by
  have hhead : Kin R (ts.head?.getD none) (us.head?.getD none) := by
    cases h with
    | nil => exact .none
    | cons h _ => exact h
  cases rule with
  | firstArgument => exact hhead
  | elementOfFirst =>
    refine rel_map hhead fun _ _ h => ?_
    have h' := h
    cases h <;> assumption
  | fixed t => exact .some (.fixed hrule)
  | texel =>
    simp only [BuiltinRule.result]
    generalize ts.head?.getD none = t at hhead
    generalize us.head?.getD none = u at hhead
    cases hhead with
    | none => exact .some (.vector 4 .f32)
    | some h =>
      cases h with
      | sampledTexture _ he => exact Option.Rel.some (Ty.Kin.vector 4 he)
      | _ => exact Option.Rel.some (Ty.Kin.vector 4 .f32)
  | truthLike =>
    simp only [BuiltinRule.result]
    generalize ts.head?.getD none = t at hhead
    generalize us.head?.getD none = u at hhead
    cases hhead with
    | none => exact .some .bool
    | some h =>
      cases h with
      | vector w _ => exact Option.Rel.some (Ty.Kin.vector w .bool)
      | _ => exact Option.Rel.some Ty.Kin.bool

theorem Ty.Kin.indexed {t u v : Ty} (h : t.Kin R u) (hv : (Resolve.indexed t).toOption = some v) :
    ∃ w, (Resolve.indexed u).toOption = some w ∧ v.Kin R w := by
  cases h with
  | vector _ he =>
    cases hv
    exact ⟨_, rfl, he⟩
  | matrix _ rows he =>
    cases hv
    exact ⟨_, rfl, .vector rows he⟩
  | array _ he =>
    cases hv
    exact ⟨_, rfl, he⟩
  | _ => cases hv

/-- Plain types stand for themselves. -/
theorem Ty.Kin.plain {ν α : Type} {x : TypeShape ν α} {t : Ty} (h : x.plain? = some t) :
    t.Kin R t := by
  cases x <;> cases h <;> constructor

/-- What is made of kin element types is kin. -/
theorem Ty.Kin.around {ν α : Type} {x : TypeShape ν α} {e : α} {f : Ty → Ty}
    (h : x.around? = some (e, f)) {t u : Ty} (htu : t.Kin R u) : (f t).Kin R (f u) := by
  cases x <;> cases h <;> constructor <;> exact htu

end Kin
end ShaderLoom
