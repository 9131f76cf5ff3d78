import Mathlib.Logic.Relation
import ShaderLoom.Meaning.Tags

/-! The order of tags. A tag stands below those that it reaches step by step, its depth is the
number of these steps, and of two tags above one tag the nearer stands below the other. In a
register tags are as good as their keys, and all that stands above a tag is in the register too. -/
namespace ShaderLoom

namespace Tag

variable {t u v : Tag}

/-- The second tag is the base of the first. -/
def Rests (t u : Tag) : Prop := t.base? = some u

theorem self_mem_chain (t : Tag) : t ∈ t.chain := by
  cases t <;> simp [chain]

theorem chain_of_rests (h : t.Rests u) : t.chain = t :: u.chain := by
  cases t with
  | root => cases h
  | derived key name base =>
    cases h
    rfl

theorem depth_of_rests (h : t.Rests u) : t.depth = u.depth + 1 := by
  cases t with
  | root => cases h
  | derived key name base =>
    cases h
    rfl

theorem mem_chain_iff : u ∈ t.chain ↔ Relation.ReflTransGen Rests t u := by
  constructor
  · intro h
    induction t with
    | root =>
      obtain rfl := List.mem_singleton.1 h
      exact .refl
    | derived key name base ih =>
      obtain rfl | h := List.mem_cons.1 h
      · exact .refl
      · exact .head (b := base) rfl (ih h)
  · intro h
    induction h using Relation.ReflTransGen.head_induction_on with
    | refl => exact u.self_mem_chain
    | head hstep _ ih =>
      rw [chain_of_rests hstep]
      exact List.mem_cons_of_mem _ ih

/-- The test answers whether the one tag can be reached from the other. -/
theorem is_iff : t.is u = true ↔ Relation.ReflTransGen Rests t u :=
  is_iff_mem_chain.trans mem_chain_iff

theorem is_refl (t : Tag) : t.is t = true := is_iff.2 .refl

theorem is_trans (h : t.is u = true) (h' : u.is v = true) : t.is v = true :=
  is_iff.2 ((is_iff.1 h).trans (is_iff.1 h'))

/-- Above a tag there is none of its depth. -/
theorem eq_of_is_of_depth_le (h : t.is u = true) (hd : t.depth ≤ u.depth) : t = u := by
  cases (is_iff.1 h).cases_head with
  | inl h => exact h
  | inr h =>
    obtain ⟨base, hbase, habove⟩ := h
    have hstep := depth_of_rests hbase
    have hle := depth_le_of_mem_chain (mem_chain_iff.2 habove)
    omega

theorem is_antisymm (h : t.is u = true) (h' : u.is t = true) : t = u :=
  eq_of_is_of_depth_le h (depth_le_of_mem_chain (is_iff_mem_chain.1 h'))

/-- Of two tags that a tag stands below, one stands below the other. -/
theorem related_of_is (h : t.is u = true) (h' : t.is v = true) : u.related v = true := by
  rw [related, Bool.or_eq_true]
  rw [is_iff] at h h'
  induction h using Relation.ReflTransGen.head_induction_on with
  | refl => exact .inl (is_iff.2 h')
  | head hstep habove ih =>
    cases h'.cases_head with
    | inl heq =>
      subst heq
      exact .inr (is_iff.2 (.head hstep habove))
    | inr hother =>
      obtain ⟨base, hbase, hother⟩ := hother
      cases hstep.symm.trans hbase
      exact ih hother

theorem related_comm (t u : Tag) : t.related u = u.related t := Bool.or_comm _ _

end Tag

namespace TagRegister

/-- The register has given out the tag. -/
def Has (r : TagRegister) (t : Tag) : Prop := ∃ key, (key, t) ∈ r.tags

/-- A register that tags came into one by one, each below one that was there. -/
inductive Grown : TagRegister → Prop
  | start : Grown {}
  | register {r r' : TagRegister} {key name : String} {base t : Tag} (h : Grown r)
    (hbase : r.Has base)
    (ht : r.register key name base = .ok (t, r')) : Grown r'

variable {r r' : TagRegister} {key name : String} {t u base : Tag}

theorem register_ok (h : r.register key name base = .ok (t, r')) :
    (∀ u, (key, u) ∉ r.tags) ∧ t = .derived key name base ∧ r'.tags = r.tags ++ [(key, t)] := by
  unfold register at h
  cases hget : r.get? key with
  | some u =>
    rw [hget] at h
    cases h
  | none =>
    rw [hget] at h
    cases h
    refine ⟨fun u hu => ?_, rfl, rfl⟩
    have hnone := List.find?_eq_none.1 (Option.map_eq_none_iff.1 hget) _ hu
    simp at hnone

theorem has_of_register (h : r.register key name base = .ok (t, r')) :
    r'.Has u ↔ r.Has u ∨ u = t := by
  simp [Has, (register_ok h).2.2, exists_or]

namespace Grown

theorem key_eq (h : r.Grown) : ∀ {key t}, (key, t) ∈ r.tags → t.key = key := by
  induction h with
  | start =>
    intro key t ht
    obtain ⟨rfl, rfl⟩ := Prod.mk.inj (List.mem_singleton.1 ht)
    rfl
  | register _ _ hnew ih =>
    intro key t ht
    obtain ⟨-, rfl, htags⟩ := register_ok hnew
    rw [htags, List.mem_append, List.mem_singleton] at ht
    obtain ht | ht := ht
    · exact ih ht
    · obtain ⟨rfl, rfl⟩ := Prod.mk.inj ht
      rfl

theorem has_base (h : r.Grown) (ht : r.Has t) (hrests : t.Rests u) : r.Has u := by
  induction h with
  | start =>
    obtain ⟨key, ht⟩ := ht
    obtain ⟨-, rfl⟩ := Prod.mk.inj (List.mem_singleton.1 ht)
    cases hrests
  | register _ hbase hnew ih =>
    rw [has_of_register hnew] at ht ⊢
    obtain ht | rfl := ht
    · exact .inl (ih ht)
    · obtain ⟨-, rfl, -⟩ := register_ok hnew
      cases hrests
      exact .inl hbase

/-- The key of a new tag is new. -/
theorem key_ne (h : r.Grown) (hnew : r.register key name base = .ok (t, r')) (hu : r.Has u) :
    u.key ≠ t.key := by
  obtain ⟨key', hu⟩ := hu
  obtain ⟨hfree, rfl, -⟩ := register_ok hnew
  intro hkey
  apply hfree u
  rwa [← h.key_eq hu, hkey] at hu

/-- One key, one tag. -/
theorem eq_of_key_eq (h : r.Grown) (ht : r.Has t) (hu : r.Has u) (hkey : t.key = u.key) :
    t = u := by
  induction h with
  | start =>
    obtain ⟨_, ht⟩ := ht
    obtain ⟨_, hu⟩ := hu
    rw [(Prod.mk.inj (List.mem_singleton.1 ht)).2, (Prod.mk.inj (List.mem_singleton.1 hu)).2]
  | register hr _ hnew ih =>
    rw [has_of_register hnew] at ht hu
    obtain ht | rfl := ht <;> obtain hu | rfl := hu
    · exact ih ht hu
    · exact absurd hkey (hr.key_ne hnew ht)
    · exact absurd hkey.symm (hr.key_ne hnew hu)
    · rfl

theorem has_of_is (h : r.Grown) (ht : r.Has t) (hu : t.is u = true) : r.Has u := by
  rw [Tag.is_iff] at hu
  induction hu with
  | refl => exact ht
  | tail _ hstep ih => exact h.has_base ih hstep

end Grown

/-- The test for a family orders the tags of a register, which are as good as their keys: it finds
all bases and nothing else, and what stands above one tag is a chain. -/
structure Ordered (r : TagRegister) : Prop where
  key : ∀ {t u}, r.Has t → r.Has u → t.key = u.key → t = u
  closed : ∀ {t u}, r.Has t → t.is u = true → r.Has u
  is_iff : ∀ {t u}, r.Has t → r.Has u → (t.is u = true ↔ Relation.ReflTransGen Tag.Rests t u)
  refl : ∀ {t}, r.Has t → t.is t = true
  antisymm : ∀ {t u}, r.Has t → r.Has u → t.is u = true → u.is t = true → t = u
  trans : ∀ {t u v}, r.Has t → r.Has u → r.Has v → t.is u = true → u.is v = true → t.is v = true
  chain : ∀ {t u v}, r.Has t → t.is u = true → t.is v = true → u.is v = true ∨ v.is u = true

theorem Grown.ordered (h : r.Grown) : r.Ordered where
  key := h.eq_of_key_eq
  closed := h.has_of_is
  is_iff _ _ := Tag.is_iff
  refl _ := Tag.is_refl _
  antisymm _ _ := Tag.is_antisymm
  trans _ _ _ := Tag.is_trans
  chain _ hu hv := (Bool.or_eq_true _ _).mp (Tag.related_of_is hu hv)

/-- The register with the tags, in their order. -/
def keyed (ts : List Tag) : TagRegister := ⟨ts.map fun t => (t.key, t)⟩

theorem get?_keyed {ts : List Tag} (h : key ∉ ts.map Tag.key) : (keyed ts).get? key = none := by
  rw [get?, Option.map_eq_none_iff, List.find?_eq_none]
  intro x hx hsame
  obtain ⟨u, hu, rfl⟩ := List.mem_map.1 hx
  exact h (List.mem_map.2 ⟨u, hu, eq_of_beq hsame⟩)

/-- Can the tags join those that are there, one by one? -/
def joins : List Tag → List Tag → Bool
  | _, [] => true
  | there, t :: ts =>
    t.base?.any (there.contains ·) && !(there.map Tag.key).contains t.key && joins (there ++ [t]) ts

theorem grown_of_joins {there ts : List Tag} (h : (keyed there).Grown)
    (hts : joins there ts = true) : (keyed (there ++ ts)).Grown := by
  induction ts generalizing there with
  | nil => rwa [List.append_nil]
  | cons t ts ih =>
    simp only [joins, Bool.and_eq_true, Bool.not_eq_true', Option.any_eq_true,
      List.contains_eq_mem, decide_eq_true_eq, decide_eq_false_iff_not] at hts
    obtain ⟨⟨⟨base, hbase, hthere⟩, hkey⟩, hts⟩ := hts
    cases t with
    | root => cases hbase
    | derived key name _ =>
      cases hbase
      have hnew : (keyed there).register key name base =
          .ok (.derived key name base, keyed (there ++ [.derived key name base])) := by
        have hfree : (keyed there).get? key = none := get?_keyed hkey
        rw [register, hfree]
        simp only [keyed, List.map_append]
        rfl
      have hgrown := ih (h.register ⟨base.key, List.mem_map.2 ⟨base, hthere, rfl⟩⟩ hnew) hts
      rwa [List.append_assoc, List.singleton_append] at hgrown

theorem grown_standard : TagRegister.standard.Grown := by
  have hroot : (keyed [.root]).Grown := .start
  have hjoins : joins [.root] Tag.declared.tail = true := by decide +kernel
  have hgrown : (keyed ([.root] ++ Tag.declared.tail)).Grown := grown_of_joins hroot hjoins
  exact hgrown

end TagRegister
end ShaderLoom
