import ShaderLoom.Copy.Engine

/-! Rewrites that are registered before a program is copied: nodes that become nodes of the target,
list elements that are left out, and nodes of the target put around list elements or at the ends of
lists. What is registered is a table per kind of rewrite, and each table is read off the list of
rewrites; the order of rewrites on different nodes leaves no trace. -/
namespace ShaderLoom

/-- Does a node of this shape have such a list? -/
def Shape.hasList {ν α : Type} (s : Shape ν α) (k : ListKind) : Bool :=
  match s, k with
  | .module _, .globals => true
  | .stmt (.block _), .statements => true
  | .decl (.struct _ _ _), .members | .decl (.struct _ _ _), .attributes => true
  | .decl (.function _), .params | .decl (.function _), .attributes => true
  | .decl (.function _), .returnAttributes => true
  | .expr (.call _ _), .args => true
  | .structMember _ _ _, .attributes => true
  | .decl (.value _), .attributes => true
  | _, _ => false

/-- Does a node of this shape go into such a list when the list is not named? Attributes of a
function go to the function itself and not to what it returns. -/
def ListKind.admits {ν α : Type} (k : ListKind) (s : Shape ν α) : Bool :=
  match k, s with
  | .globals, .decl _ => true
  | .statements, .stmt _ => true
  | .members, .structMember _ _ _ => true
  | .params, .decl (.value v) => v.kind = .parameter
  | .attributes, .attr _ => true
  | .args, .expr _ => true
  | _, _ => false

theorem Shape.listFor?_eq_some {ν μ α β : Type} (s : Shape ν α) (t : Shape μ β) (k : ListKind) :
    s.listFor? t = some k ↔ s.hasList k = true ∧ k.admits t = true := by
  have hlist : ∀ (q : Bool) (l : ListKind), (if q then some l else none) = some k ↔
      q = true ∧ l = k := by
    intro q l
    cases q <;> simp
  rcases s with _ | (_ | _ | _ | _ | _ | _ | _ | _ | _) | (_ | _) | (_ | _ | _ | _) | _ | _ | _ <;>
    simp only [listFor?, hasList, reduceCtorEq, false_and, hlist]
  all_goals
    rcases t with _ | _ | _ | (_ | _ | _ | _) | _ | _ | _ <;> cases k <;>
      simp [ListKind.admits, isDeclaration, isStatement, isExpression, isAttribute]

namespace Copy

/-- Where a node is put: next to a list element, or at an end of the list of a node. -/
inductive Side where
  | before | after | front | back
  deriving DecidableEq, Repr

inductive Rewrite where
  /-- The node becomes a node of the target, or nothing. -/
  | replace (node target : NodeId)
  /-- The list element is left out. -/
  | remove (node : NodeId)
  | insert (side : Side) (node target : NodeId)
  deriving DecidableEq, Repr

namespace Rewrite

/-- The node of the source that is registered. -/
def node : Rewrite → NodeId
  | replace i _ => i
  | remove i => i
  | insert _ i _ => i

def register {κ σ : Type} : Rewrite → Edit κ σ Unit
  | replace i t => Edit.replace i t
  | remove i => Edit.remove i
  | insert .before i t => Edit.insertBefore i t
  | insert .after i t => Edit.insertAfter i t
  | insert .front i t => Edit.insertFront i t
  | insert .back i t => Edit.insertBack i t

def replacement? (i : NodeId) : Rewrite → Option NodeId
  | replace j t => if j = i then some t else none
  | _ => none

def insertion? (side : Side) (i : NodeId) : Rewrite → Option NodeId
  | insert d j t => if d = side ∧ j = i then some t else none
  | _ => none

/-- What the rewrites make of a node instead of a copy. -/
def replaced (rs : List Rewrite) (i : NodeId) : Option NodeId := rs.findSome? (replacement? i)

def removed (rs : List Rewrite) (i : NodeId) : Bool := decide (remove i ∈ rs)

/-- What the rewrites put at a side of a node, in the order in which it is read there. -/
def inserted (rs : List Rewrite) (side : Side) (i : NodeId) : List NodeId :=
  rs.filterMap (insertion? side i)

/-- No node is replaced twice. -/
def Single (rs : List Rewrite) : Prop := ∀ i, (rs.filterMap (replacement? i)).length ≤ 1

end Rewrite

/-- Registers rewrites one after the other. -/
def registerAll {κ σ : Type} : List Rewrite → Edit κ σ Unit
  | [] => pure ()
  | r :: rs => do
    r.register
    registerAll rs

variable (p : Program) (b : Builder)

/-- Is the node of the target put into that list of the node of the source? -/
def fits (owner : NodeId) (k : ListKind) (t : NodeId) : Bool :=
  (p.shape? owner).any fun s => s.hasList k && (b.shape? t).any fun t => k.admits t

/-- A new session whose target has been worked on, with rewrites registered. -/
def planned (rs : List Rewrite) : Session Empty Unit :=
  { Session.start p () with
    target := b
    replacements := fun i => (Rewrite.replaced rs i).map .fixed
    removed := Rewrite.removed rs
    before := Rewrite.inserted rs .before
    after := Rewrite.inserted rs .after
    front := fun i k => (Rewrite.inserted rs .front i).filter (fits p b i k)
    back := fun i k => (Rewrite.inserted rs .back i).filter (fits p b i k) }

def InSource (i : NodeId) : Prop := (p.node? i).isSome ∧ p.inTree i = true

def IsElement (i : NodeId) : Prop :=
  InSource p i ∧ (p.node? (p.parent i)).any (·.holdsInList i) = true

def InTarget (t : NodeId) : Prop := (b.node? t).isSome

/-- The checks that a rewrite passes whatever else is registered. -/
def Rewrite.Allowed : Rewrite → Prop
  | replace i t => InSource p i ∧ (t ≠ 0 → InTarget b t)
  | remove i => IsElement p i
  | insert .before i t | insert .after i t => IsElement p i ∧ InTarget b t
  | insert .front i t | insert .back i t => InSource p i ∧ ∃ k, fits p b i k t = true


section Checks

variable {κ σ α β : Type} {s t : Session κ σ}

theorem bind_ok {step : Edit κ σ α} {next : α → Edit κ σ β} {y : β} :
    (step >>= next) s = .ok y t ↔ ∃ x u, step s = .ok x u ∧ next x u = .ok y t := by
  simp only [bind, EStateM.bind]
  constructor
  · cases step s with
    | ok x u => exact fun h => ⟨x, u, rfl, h⟩
    | error e u => exact fun h => nomatch h
  · rintro ⟨x, u, hs, h⟩
    rw [hs]
    exact h

theorem get_bind {next : Session κ σ → Edit κ σ β} : (get >>= next) s = next s s := rfl

theorem checkSource_ok {i : NodeId} {n : Node} :
    Edit.checkSource i s = .ok n t ↔ s.source.node? i = some n ∧
    s.source.inTree i = true ∧ t = s := by
  unfold Edit.checkSource
  rw [get_bind]
  cases s.source.node? i with
  | none => exact ⟨nofun, nofun⟩
  | some m =>
    by_cases ht : s.source.inTree i = true
    · simp only [ht, if_true]
      exact ⟨fun h => by cases h; exact ⟨rfl, trivial, rfl⟩, fun ⟨h, _, he⟩ => by
        cases h; cases he; rfl⟩
    · simp only [ht]
      exact ⟨nofun, nofun⟩

theorem checkTarget_ok {i : NodeId} {n : Node} :
    Edit.checkTarget i s = .ok n t ↔ s.target.node? i = some n ∧ t = s := by
  unfold Edit.checkTarget
  rw [get_bind]
  cases s.target.node? i with
  | none => exact ⟨nofun, nofun⟩
  | some m =>
    exact ⟨fun h => by cases h; exact ⟨rfl, rfl⟩, fun ⟨h, he⟩ => by cases h; cases he; rfl⟩

theorem checkElement_ok {i : NodeId} {x : Unit} :
    Edit.checkElement i s = .ok x t ↔ IsElement s.source i ∧ t = s := by
  unfold Edit.checkElement IsElement
  rw [bind_ok]
  constructor
  · rintro ⟨n, u, hn, h⟩
    obtain ⟨hn, ht, rfl⟩ := checkSource_ok.1 hn
    rw [get_bind] at h
    cases hp : u.source.node? (u.source.parent i) with
    | none =>
      simp only [hp] at h
      cases h
    | some m =>
      simp only [hp] at h
      by_cases hm : m.holdsInList i = true
      · simp only [hm, if_true] at h
        cases h
        exact ⟨⟨⟨Option.isSome_iff_exists.2 ⟨n, hn⟩, ht⟩, hm⟩, rfl⟩
      · simp only [hm] at h
        cases h
  · rintro ⟨⟨⟨hn, ht⟩, hm⟩, rfl⟩
    obtain ⟨n, hn⟩ := Option.isSome_iff_exists.1 hn
    refine ⟨n, t, checkSource_ok.2 ⟨hn, ht, rfl⟩, ?_⟩
    rw [get_bind]
    cases hp : t.source.node? (t.source.parent i) with
    | none => simp [hp] at hm
    | some m =>
      simp only [hp, Option.any_some] at hm
      simp only [hm, if_true]
      rfl

theorem fits_iff {p : Program} {b : Builder} {i j : NodeId} {k : ListKind} {n m : Node}
    (hn : p.node? i = some n) (hm : b.node? j = some m) :
    fits p b i k j = true ↔ n.shape.listFor? m.shape = some k := by
  rw [Shape.listFor?_eq_some]
  simp [fits, Arena.shape?, hn, hm]

theorem listFor_ok {i j : NodeId} {k : ListKind} :
    Edit.listFor i j s = .ok k t ↔
      InSource s.source i ∧ fits s.source s.target i k j = true ∧ t = s := by
  unfold Edit.listFor
  rw [bind_ok]
  constructor
  · rintro ⟨n, u, hn, h⟩
    obtain ⟨hn, ht, rfl⟩ := checkSource_ok.1 hn
    obtain ⟨m, v, hm, h'⟩ := bind_ok.1 h
    obtain ⟨hm, rfl⟩ := checkTarget_ok.1 hm
    refine ⟨⟨Option.isSome_iff_exists.2 ⟨n, hn⟩, ht⟩, ?_⟩
    rw [fits_iff hn hm]
    cases hk : n.shape.listFor? m.shape with
    | none =>
      simp only [hk] at h'
      cases h'
    | some k' =>
      simp only [hk] at h'
      cases h'
      exact ⟨rfl, rfl⟩
  · rintro ⟨⟨hn, ht⟩, hk, rfl⟩
    obtain ⟨n, hn⟩ := Option.isSome_iff_exists.1 hn
    have hm : (t.target.node? j).isSome := by
      cases hm : t.target.node? j with
      | none => simp [fits, Arena.shape?, hm] at hk
      | some m => rfl
    obtain ⟨m, hm⟩ := Option.isSome_iff_exists.1 hm
    refine ⟨n, t, checkSource_ok.2 ⟨hn, ht, rfl⟩, bind_ok.2 ⟨m, t, checkTarget_ok.2 ⟨hm, rfl⟩, ?_⟩⟩
    simp only [(fits_iff hn hm).1 hk]
    rfl

end Checks

namespace Rewrite

section Tables

variable {rs : List Rewrite} {i j t : NodeId}

theorem removed_append (r : Rewrite) :
    removed (rs ++ [r]) j = (removed rs j || decide (remove j = r)) := by
  simp [removed]

theorem inserted_append (r : Rewrite) (d : Side) :
    inserted (rs ++ [r]) d j = inserted rs d j ++ (insertion? d j r).toList := by
  cases h : insertion? d j r <;> simp [inserted, List.filterMap_append, h]

theorem inserted_insert (d : Side) :
    inserted (rs ++ [insert d i t]) d = update (inserted rs d) i (inserted rs d i ++ [t]) := by
  funext j
  by_cases hj : j = i
  · simp [hj, inserted_append, insertion?]
  · simp [inserted_append, insertion?, update_of_ne _ _ hj, Ne.symm hj]

theorem inserted_other {r : Rewrite} {d : Side} (h : ∀ i, insertion? d i r = none) :
    inserted (rs ++ [r]) d = inserted rs d := by
  funext j
  simp [inserted_append, h]

theorem removed_other {r : Rewrite} (h : ∀ i, remove i ≠ r) : removed (rs ++ [r]) = removed rs := by
  funext j
  simp [removed_append, h]

theorem replaced_append (r : Rewrite) :
    replaced (rs ++ [r]) j = (replaced rs j).or (replacement? j r) := by
  simp [replaced, List.findSome?_append]

theorem replaced_other {r : Rewrite} (h : ∀ i, replacement? i r = none) :
    replaced (rs ++ [r]) = replaced rs := by
  funext j
  simp [replaced_append, h]

end Tables

/-- Nothing is replaced that was replaced before. -/
def Free (rs : List Rewrite) (r : Rewrite) : Prop :=
  ∀ i, (replacement? i r).isSome → replaced rs i = none

theorem single_append {rs : List Rewrite} {r : Rewrite} :
    Single (rs ++ [r]) ↔ Single rs ∧ Free rs r := by
  have hnone : ∀ i, replaced rs i = none ↔ (rs.filterMap (replacement? i)).length = 0 := by
    intro i
    simp [replaced, List.findSome?_eq_none_iff]
  constructor
  · intro h
    refine ⟨fun i => ?_, fun i hi => ?_⟩
    · have := h i
      simp only [List.filterMap_append, List.length_append] at this
      omega
    · obtain ⟨t, ht⟩ := Option.isSome_iff_exists.1 hi
      have := h i
      simp only [List.filterMap_append, List.filterMap_cons, ht, List.filterMap_nil,
        List.length_append, List.length_cons, List.length_nil] at this
      exact (hnone i).2 (by omega)
  · rintro ⟨h, hf⟩ i
    have hi := h i
    cases hr : replacement? i r with
    | none => simpa [List.filterMap_append, hr] using hi
    | some t =>
      have := (hnone i).1 (hf i (by simp [hr]))
      simp [List.filterMap_append, hr, this]

end Rewrite

section Register

variable {p : Program} {b : Builder} {rs : List Rewrite} {s : Session Empty Unit}

theorem fits_unique {i t : NodeId} {k k' : ListKind} (h : fits p b i k t = true)
    (h' : fits p b i k' t = true) : k = k' := by
  simp only [fits, Option.any_eq_true, Bool.and_eq_true] at h h'
  obtain ⟨n, hn, hk, m, hm, ha⟩ := h
  obtain ⟨_, hn', hk', _, hm', ha'⟩ := h'
  cases hn.symm.trans hn'
  cases hm.symm.trans hm'
  exact Option.some.inj (((n.listFor?_eq_some m k).2 ⟨hk, ha⟩).symm.trans
    ((n.listFor?_eq_some m k').2 ⟨hk', ha'⟩))

/-- What is put at an end of a node's lists goes to the end of one of them. -/
theorem ends_insert {i t : NodeId} {k : ListKind} (d : Side) (h : fits p b i k t = true) :
    (fun j l => (Rewrite.inserted (rs ++ [.insert d i t]) d j).filter (fits p b j l)) =
      update (fun j l => (Rewrite.inserted rs d j).filter (fits p b j l)) i
        (update (fun l => (Rewrite.inserted rs d i).filter (fits p b i l)) k
          ((Rewrite.inserted rs d i).filter (fits p b i k) ++ [t])) := by
  funext j l
  rw [Rewrite.inserted_insert]
  by_cases hj : j = i
  · subst hj
    simp only [update_self, List.filter_append]
    by_cases hl : l = k
    · simp [hl, h]
    · have : fits p b j l t = false := by
        simpa using fun hf => hl (fits_unique hf h)
      simp [update_of_ne _ _ hl, this]
  · simp only [update_of_ne _ _ hj]

/-- Each rewrite is noted in its own table, behind what the table has. -/
theorem planned_replace {i : NodeId} (t : NodeId) (h : Rewrite.replaced rs i = none) :
    planned p b (rs ++ [.replace i t]) = { planned p b rs with
      replacements := update (planned p b rs).replacements i (some (.fixed t)) } := by
  have htable : (fun j => (Rewrite.replaced (rs ++ [.replace i t]) j).map .fixed) =
      update (planned p b rs).replacements i (some (.fixed t)) := by
    funext j
    by_cases hj : j = i
    · simp [hj, Rewrite.replaced_append, Rewrite.replacement?, h]
    · simp [Rewrite.replaced_append, Rewrite.replacement?, update_of_ne _ _ hj, Ne.symm hj, planned]
  simp only [planned, Rewrite.inserted_other (r := .replace i t) fun _ => rfl,
    Rewrite.removed_other (r := .replace i t) nofun, htable]

theorem planned_remove (i : NodeId) :
    planned p b (rs ++ [.remove i]) = { planned p b rs with
      removed := update (planned p b rs).removed i true } := by
  have htable : Rewrite.removed (rs ++ [.remove i]) = update (planned p b rs).removed i true := by
    funext j
    by_cases hj : j = i
    · simp [hj, Rewrite.removed_append]
    · simp [Rewrite.removed_append, update_of_ne _ _ hj, hj, planned]
  simp only [planned, Rewrite.inserted_other (r := .remove i) fun _ => rfl,
    Rewrite.replaced_other (r := .remove i) fun _ => rfl, htable]

theorem modify_ok {κ σ : Type} {f : Session κ σ → Session κ σ} {s t : Session κ σ} :
    (modify f : Edit κ σ Unit) s = .ok () t ↔ t = f s :=
  ⟨fun h => by cases h; rfl, fun h => by cases h; rfl⟩

theorem replace_ok {i t : NodeId} :
    Edit.replace i t (planned p b rs) = .ok () s ↔
      (Rewrite.replace i t).Allowed p b ∧ Rewrite.replaced rs i = none ∧
      s = planned p b (rs ++ [.replace i t]) := by
  have hregister : Edit.register i (.fixed t) (planned p b rs) = .ok () s ↔
      Rewrite.replaced rs i = none ∧ s = planned p b (rs ++ [.replace i t]) := by
    have hnone : (planned p b rs).replacements i = none ↔ Rewrite.replaced rs i = none := by
      simp [planned]
    unfold Edit.register
    rw [get_bind]
    cases hr : (planned p b rs).replacements i with
    | some x =>
      refine ⟨nofun, fun h => ?_⟩
      rw [hnone.2 h.1] at hr
      cases hr
    | none =>
      have hfree := hnone.1 hr
      rw [planned_replace t hfree]
      exact modify_ok.trans ⟨fun h => ⟨hfree, h⟩, fun h => h.2⟩
  unfold Edit.replace Rewrite.Allowed
  rw [bind_ok]
  constructor
  · rintro ⟨n, u, hn, h⟩
    obtain ⟨hnode, ht, rfl⟩ := checkSource_ok.1 hn
    have hs : InSource p i := ⟨Option.isSome_iff_exists.2 ⟨n, hnode⟩, ht⟩
    by_cases h0 : t = 0
    · subst h0
      exact ⟨⟨hs, fun h => absurd rfl h⟩, hregister.1 h⟩
    · simp only [h0, ne_eq, not_false_eq_true, if_true] at h
      obtain ⟨m, v, hm, h⟩ := bind_ok.1 h
      obtain ⟨htarget, rfl⟩ := checkTarget_ok.1 hm
      exact ⟨⟨hs, fun _ => Option.isSome_iff_exists.2 ⟨m, htarget⟩⟩, hregister.1 h⟩
  · rintro ⟨⟨⟨hn, ht⟩, hm⟩, h⟩
    obtain ⟨n, hn⟩ := Option.isSome_iff_exists.1 hn
    refine ⟨n, _, checkSource_ok.2 ⟨hn, ht, rfl⟩, ?_⟩
    by_cases h0 : t = 0
    · subst h0
      exact hregister.2 h
    · obtain ⟨m, hm⟩ := Option.isSome_iff_exists.1 (hm h0)
      simp only [h0, ne_eq, not_false_eq_true, if_true]
      exact bind_ok.2 ⟨m, _, checkTarget_ok.2 ⟨hm, rfl⟩, hregister.2 h⟩

theorem remove_ok {i : NodeId} :
    Edit.remove i (planned p b rs) = .ok () s ↔ IsElement p i ∧
    s = planned p b (rs ++ [.remove i]) := by
  unfold Edit.remove
  rw [bind_ok, planned_remove]
  constructor
  · rintro ⟨_, u, hi, h⟩
    obtain ⟨helement, rfl⟩ := checkElement_ok.1 hi
    exact ⟨helement, modify_ok.1 h⟩
  · rintro ⟨hi, h⟩
    exact ⟨(), _, checkElement_ok.2 ⟨hi, rfl⟩, modify_ok.2 h⟩

variable {κ σ : Type} {u v : Session κ σ} {i t : NodeId}

/-- Both insertions next to a list element make the same checks. -/
theorem beside_ok {f : Session κ σ → Session κ σ} :
    (do Edit.checkElement i; let _ ← Edit.checkTarget t; modify f : Edit κ σ Unit) u = .ok () v ↔
      (IsElement u.source i ∧ InTarget u.target t) ∧ v = f u := by
  rw [bind_ok]
  constructor
  · rintro ⟨_, w, hi, h⟩
    obtain ⟨hi, rfl⟩ := checkElement_ok.1 hi
    obtain ⟨m, w', hm, h'⟩ := bind_ok.1 h
    obtain ⟨hm, rfl⟩ := checkTarget_ok.1 hm
    exact ⟨⟨hi, Option.isSome_iff_exists.2 ⟨m, hm⟩⟩, modify_ok.1 h'⟩
  · rintro ⟨⟨hi, hm⟩, h⟩
    obtain ⟨m, hm⟩ := Option.isSome_iff_exists.1 hm
    exact ⟨(), u, checkElement_ok.2 ⟨hi, rfl⟩,
      bind_ok.2 ⟨m, u, checkTarget_ok.2 ⟨hm, rfl⟩, modify_ok.2 h⟩⟩

/-- And so do both insertions at an end of a list. -/
theorem ends_ok {f : ListKind → Session κ σ → Session κ σ} :
    (do let k ← Edit.listFor i t; modify (f k) : Edit κ σ Unit) u = .ok () v ↔
      InSource u.source i ∧ ∃ k, fits u.source u.target i k t = true ∧ v = f k u := by
  rw [bind_ok]
  constructor
  · rintro ⟨k, w, hk, h⟩
    obtain ⟨hi, hk, rfl⟩ := listFor_ok.1 hk
    exact ⟨hi, k, hk, modify_ok.1 h⟩
  · rintro ⟨hi, k, hk, h⟩
    exact ⟨k, u, listFor_ok.2 ⟨hi, hk, rfl⟩, modify_ok.2 h⟩

/-- A rewrite is registered where its checks pass and its node is not replaced yet. -/
theorem register_ok {r : Rewrite} : r.register (planned p b rs) = .ok () s ↔
    r.Allowed p b ∧ Rewrite.Free rs r ∧ s = planned p b (rs ++ [r]) := by
  have hfree : ∀ r : Rewrite, (∀ i, Rewrite.replacement? i r = none) → Rewrite.Free rs r :=
    fun r h i hi => by simp [h i] at hi
  cases r with
  | replace i t =>
    have hr : Rewrite.Free rs (.replace i t) ↔ Rewrite.replaced rs i = none := by
      constructor
      · exact fun h => h i (by simp [Rewrite.replacement?])
      · intro h j hj
        by_cases hij : i = j
        · exact hij ▸ h
        · simp [Rewrite.replacement?, hij] at hj
    rw [hr]
    exact replace_ok
  | remove i =>
    refine remove_ok.trans ⟨fun h => ⟨h.1, hfree _ fun _ => rfl, h.2⟩, fun h => ⟨h.1, h.2.2⟩⟩
  | insert side i t =>
    have hf : Rewrite.Free rs (.insert side i t) := hfree _ fun _ => rfl
    have hreplaced : Rewrite.replaced (rs ++ [.insert side i t]) = Rewrite.replaced rs :=
      Rewrite.replaced_other fun _ => rfl
    have hremoved : Rewrite.removed (rs ++ [.insert side i t]) = Rewrite.removed rs :=
      Rewrite.removed_other nofun
    have hother : ∀ d, d ≠ side →
        Rewrite.inserted (rs ++ [.insert side i t]) d = Rewrite.inserted rs d :=
      fun d hd => Rewrite.inserted_other fun j => by simp [Rewrite.insertion?, Ne.symm hd]
    -- The tables of the other sides stay as they are.
    cases side with
    | before =>
      have ha := hother .after nofun
      have hfront := hother .front nofun
      have hback := hother .back nofun
      refine beside_ok.trans ?_
      simp only [planned, hreplaced, hremoved, ha, hfront, hback, Rewrite.inserted_insert]
      exact ⟨fun h => ⟨h.1, hf, h.2⟩, fun h => ⟨h.1, h.2.2⟩⟩
    | after =>
      have hb := hother .before nofun
      have hfront := hother .front nofun
      have hback := hother .back nofun
      refine beside_ok.trans ?_
      simp only [planned, hreplaced, hremoved, hb, hfront, hback, Rewrite.inserted_insert]
      exact ⟨fun h => ⟨h.1, hf, h.2⟩, fun h => ⟨h.1, h.2.2⟩⟩
    | front =>
      have hb := hother .before nofun
      have ha := hother .after nofun
      have hback := hother .back nofun
      have hplan : ∀ k, fits p b i k t = true → 
          planned p b (rs ++ [.insert .front i t]) = { planned p b rs with
            front := update (planned p b rs).front i (update ((planned p b rs).front i) k
              ((planned p b rs).front i k ++ [t])) } := by
        intro k hk
        simp only [planned, hreplaced, hremoved, hb, ha, hback, ends_insert .front hk]
      refine ends_ok.trans ⟨?_, ?_⟩
      · rintro ⟨hi, k, hk, hs⟩
        exact ⟨⟨hi, k, hk⟩, hf, hs.trans (hplan k hk).symm⟩
      · rintro ⟨⟨hi, k, hk⟩, _, hs⟩
        exact ⟨hi, k, hk, hs.trans (hplan k hk)⟩
    | back =>
      have hb := hother .before nofun
      have ha := hother .after nofun
      have hfront := hother .front nofun
      have hplan : ∀ k, fits p b i k t = true → 
          planned p b (rs ++ [.insert .back i t]) = { planned p b rs with
            back := update (planned p b rs).back i (update ((planned p b rs).back i) k
              ((planned p b rs).back i k ++ [t])) } := by
        intro k hk
        simp only [planned, hreplaced, hremoved, hb, ha, hfront, ends_insert .back hk]
      refine ends_ok.trans ⟨?_, ?_⟩
      · rintro ⟨hi, k, hk, hs⟩
        exact ⟨⟨hi, k, hk⟩, hf, hs.trans (hplan k hk).symm⟩
      · rintro ⟨⟨hi, k, hk⟩, _, hs⟩
        exact ⟨hi, k, hk, hs.trans (hplan k hk)⟩

/-- Rewrites are registered one after the other where each passes its checks and no node is replaced
twice; what is registered then is the plan of them all. -/
theorem registerAll_ok {done : List Rewrite} (hd : Rewrite.Single done) :
    registerAll rs (planned p b done) = .ok () s ↔
      (∀ r ∈ rs, r.Allowed p b) ∧ Rewrite.Single (done ++ rs) ∧ s = planned p b (done ++ rs) := by
  induction rs generalizing done with
  | nil =>
    simp only [List.append_nil, List.not_mem_nil, false_imp_iff, implies_true, true_and, hd]
    exact ⟨fun h => by cases h; rfl, fun h => by cases h; rfl⟩
  | cons r rs ih =>
    have happend : done ++ r :: rs = done ++ [r] ++ rs := by simp
    rw [registerAll, bind_ok, happend]
    constructor
    · rintro ⟨_, u, hr, h⟩
      obtain ⟨hallowed, hfree, rfl⟩ := register_ok.1 hr
      obtain ⟨hall, hsingle, hs⟩ := (ih (Rewrite.single_append.2 ⟨hd, hfree⟩)).1 h
      exact ⟨List.forall_mem_cons.2 ⟨hallowed, hall⟩, hsingle, hs⟩
    · rintro ⟨hall, hsingle, hs⟩
      have hstep : Rewrite.Single (done ++ [r]) := by
        intro i
        refine Nat.le_trans ?_ (hsingle i)
        simp only [List.filterMap_append, List.length_append]
        omega
      obtain ⟨hallowed, hall⟩ := List.forall_mem_cons.1 hall
      exact ⟨(), _, register_ok.2 ⟨hallowed, (Rewrite.single_append.1 hstep).2, rfl⟩,
        (ih hstep).2 ⟨hall, hsingle, hs⟩⟩

/-- What is read off rewrites of one node is read off the rewrites of that node. -/
theorem filterMap_of_node {α : Type} {f : Rewrite → Option α} {i : NodeId} {rs rs' : List Rewrite}
    (hf : ∀ r, r.node ≠ i → f r = none) (h : rs'.filter (·.node = i) = rs.filter (·.node = i)) :
    rs'.filterMap f = rs.filterMap f := by
  have hsame : ∀ l : List Rewrite, l.filterMap f = (l.filter (·.node = i)).filterMap f := by
    intro l
    rw [List.filterMap_filter]
    refine congrArg (List.filterMap · l) (funext fun r => ?_)
    by_cases hr : r.node = i
    · simp [hr]
    · simp [hr, hf r hr]
  rw [hsame rs', hsame rs, h]

variable {rs' : List Rewrite} (h : ∀ i, rs'.filter (·.node = i) = rs.filter (·.node = i))
include h

theorem replacements_congr (i : NodeId) :
    rs'.filterMap (Rewrite.replacement? i) = rs.filterMap (Rewrite.replacement? i) := by
  refine filterMap_of_node (fun r hr => ?_) (h i)
  cases r with
  | replace j t => exact if_neg hr
  | _ => rfl

/-- The order of rewrites on different nodes leaves no trace. -/
theorem planned_congr : planned p b rs' = planned p b rs := by
  have hreplaced : Rewrite.replaced rs' = Rewrite.replaced rs := by
    funext i
    simp only [Rewrite.replaced, ← List.head?_filterMap, replacements_congr h]
  have hremoved : Rewrite.removed rs' = Rewrite.removed rs := by
    funext i
    have hmem : ∀ l : List Rewrite, .remove i ∈ l ↔ .remove i ∈ l.filter (·.node = i) := by
      simp [Rewrite.node]
    simp only [Rewrite.removed, hmem rs', hmem rs, h]
  have hinserted : Rewrite.inserted rs' = Rewrite.inserted rs := by
    funext side i
    refine filterMap_of_node (fun r hr => ?_) (h i)
    cases r with
    | insert d j t => exact if_neg fun hd => hr hd.2
    | _ => rfl
  simp only [planned, hreplaced, hremoved, hinserted]

/-- And whether they can be registered does not depend on it either. -/
theorem registerAll_congr (hs : registerAll rs (planned p b []) = .ok () s) :
    registerAll rs' (planned p b []) = .ok () s := by
  have hnil : Rewrite.Single [] := fun _ => by simp
  obtain ⟨hall, hsingle, rfl⟩ := (registerAll_ok hnil).1 hs
  refine (registerAll_ok hnil).2 ⟨fun r hr => hall r ?_, fun i => ?_, (planned_congr h).symm⟩
  · have hmem : r ∈ rs'.filter (·.node = r.node) := by simp [hr]
    rw [h] at hmem
    exact (List.mem_filter.1 hmem).1
  · rw [List.nil_append, replacements_congr h]
    exact hsingle i

end Register

end Copy
end ShaderLoom
