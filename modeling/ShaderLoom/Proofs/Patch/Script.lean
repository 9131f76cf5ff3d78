import Mathlib.Data.List.Infix
import Mathlib.Order.Bounds.Defs
import ShaderLoom.Patch.Edit

/-! Scripts that turn one list of lines into another. The table holds the lengths of longest common
subsequences, and the walk that reads it keeps one of them: no script that turns the first list into
the second has fewer changes. -/
namespace ShaderLoom.Patch

/-- What a script does next with the list it is applied to. -/
inductive Step where
  | keep
  | remove
  | add (line : String)
  deriving DecidableEq, Repr

namespace Step

def isChange : Step → Bool
  | keep => false
  | _ => true

/-- What a script makes of a list, if it takes up all of it and no more. -/
def replay : List Step → List String → Option (List String)
  | [], [] => some []
  | [], _ :: _ => none
  | add x :: s, xs => (replay s xs).map (x :: ·)
  | _ :: _, [] => none
  | keep :: s, x :: xs => (replay s xs).map (x :: ·)
  | remove :: s, _ :: xs => replay s xs

/-- The lines that a script keeps stand in both lists, and all others are changes. -/
theorem exists_kept {s : List Step} {a b : List String} (h : replay s a = some b) :
    ∃ c : List String, c.Sublist a ∧ c.Sublist b ∧ s.countP isChange + 2 * c.length =
      a.length + b.length := by
  induction s generalizing a b with
  | nil =>
    cases a with
    | nil =>
      cases h
      exact ⟨[], .slnil, .slnil, rfl⟩
    | cons x xs => cases h
  | cons t s ih =>
    cases t with
    | add x =>
      obtain ⟨b, hb, rfl⟩ := Option.map_eq_some_iff.1 h
      obtain ⟨c, hca, hcb, hlen⟩ := ih hb
      refine ⟨c, hca, hcb.cons x, ?_⟩
      simp only [List.countP_cons, isChange, if_true, List.length_cons]
      omega
    | keep =>
      cases a with
      | nil => cases h
      | cons x xs =>
        obtain ⟨b, hb, rfl⟩ := Option.map_eq_some_iff.1 h
        obtain ⟨c, hca, hcb, hlen⟩ := ih hb
        refine ⟨x :: c, hca.cons_cons x, hcb.cons_cons x, ?_⟩
        simp only [List.countP_cons, isChange, Bool.false_eq_true, if_false, List.length_cons]
        omega
    | remove =>
      cases a with
      | nil => cases h
      | cons x xs =>
        obtain ⟨c, hca, hcb, hlen⟩ := ih h
        refine ⟨c, hca.cons x, hcb, ?_⟩
        simp only [List.countP_cons, isChange, if_true, List.length_cons]
        omega

end Step

/-! The table. -/

/-- The length of a longest common subsequence, by the recurrence of the table. -/
def lcs : List String → List String → Nat
  | [], _ => 0
  | _ :: _, [] => 0
  | x :: xs, y :: ys => if x = y then lcs xs ys + 1 else max (lcs xs (y :: ys)) (lcs (x :: xs) ys)

@[simp] theorem lcs_nil (b : List String) : lcs [] b = 0 := by
  rw [lcs]

@[simp] theorem lcs_nil_right (a : List String) : lcs a [] = 0 := by
  cases a <;> rw [lcs]

theorem lcs_cons (x y : String) (xs ys : List String) : lcs (x :: xs) (y :: ys) =
    if x = y then lcs xs ys + 1 else max (lcs xs (y :: ys)) (lcs (x :: xs) ys) := by
  rw [lcs]

/-- The lengths of the common subsequences of two lists. -/
def commonLengths (a b : List String) : Set Nat :=
  {n | ∃ c : List String, c.Sublist a ∧ c.Sublist b ∧ c.length = n}

theorem length_le_lcs {a b c : List String} (ha : c.Sublist a) (hb : c.Sublist b) :
    c.length ≤ lcs a b := by
  fun_induction lcs a b generalizing c with
  | case1 b => simp [List.sublist_nil.1 ha]
  | case2 x xs => simp [List.sublist_nil.1 hb]
  | case3 xs y ys ih =>
    have := ih ha.tail hb.tail
    simp only [List.length_tail] at this
    omega
  | case4 x xs y ys hne ih ih' =>
    cases ha with
    | cons _ ha => exact (ih ha hb).trans (Nat.le_max_left _ _)
    | cons_cons _ ha' =>
      cases hb with
      | cons _ hb => exact (ih' (ha'.cons_cons x) hb).trans (Nat.le_max_right _ _)
      | cons_cons _ _ => exact absurd rfl hne

theorem lcs_mem (a b : List String) : lcs a b ∈ commonLengths a b := by
  fun_induction lcs a b with
  | case1 b => exact ⟨[], .slnil, List.nil_sublist b, rfl⟩
  | case2 x xs => exact ⟨[], List.nil_sublist _, .slnil, rfl⟩
  | case3 xs y ys ih =>
    obtain ⟨c, ha, hb, hlen⟩ := ih
    exact ⟨y :: c, ha.cons_cons y, hb.cons_cons y, congrArg Nat.succ hlen⟩
  | case4 x xs y ys _ ih ih' =>
    rcases Nat.le_total (lcs (x :: xs) ys) (lcs xs (y :: ys)) with h | h
    · rw [Nat.max_eq_left h]
      obtain ⟨c, ha, hb, hlen⟩ := ih
      exact ⟨c, ha.cons x, hb, hlen⟩
    · rw [Nat.max_eq_right h]
      obtain ⟨c, ha, hb, hlen⟩ := ih'
      exact ⟨c, ha, hb.cons y, hlen⟩

theorem isGreatest_lcs (a b : List String) : IsGreatest (commonLengths a b) (lcs a b) :=
  ⟨lcs_mem a b, fun _ ⟨_, ha, hb, hlen⟩ => hlen ▸ length_le_lcs ha hb⟩

theorem row_eq (x : String) (xs ys : List String) :
    row x ys (ys.tails.map (lcs xs)) = ys.tails.map (lcs (x :: xs)) := by
  induction ys with
  | nil => simp [row]
  | cons y ys ih =>
    have hhead : ∀ f : List String → Nat, (ys.tails.map f).headD 0 = f ys := by
      intro f
      cases ys <;> simp
    rw [List.tails_cons, List.map_cons, List.map_cons, row, List.drop_succ_cons, List.drop_zero,
      ih, hhead, hhead, List.headD_cons, lcs_cons]

theorem rows_eq (a b : List String) : rows a b = a.tails.map fun s => b.tails.map (lcs s) := by
  induction a with
  | nil =>
    have hzero : b.tails.map (lcs []) = List.replicate (b.length + 1) 0 := by
      simp [List.eq_replicate_iff]
    simp [rows, hzero]
  | cons x xs ih =>
    have hhead : (xs.tails.map fun s => b.tails.map (lcs s)).headD [] = b.tails.map (lcs xs) := by
      cases xs <;> simp
    rw [rows, List.foldr_cons, ← rows, ih, hhead, row_eq, List.tails_cons, List.map_cons]

/-- The table tells the length for every pair of suffixes. -/
def Exact (table : Array (Array Nat)) (a b : List String) : Prop :=
  ∀ i j, i ≤ a.length → j ≤ b.length → common table i j = lcs (a.drop i) (b.drop j)

theorem exact_rows (a b : List String) : Exact ((rows a b).map List.toArray).toArray a b := by
  intro i j hi hj
  have hi : i < a.tails.length := by simpa using Nat.lt_succ_of_le hi
  have hj : j < b.tails.length := by simpa using Nat.lt_succ_of_le hj
  simp [common, rows_eq, List.getElem?_eq_getElem hi, List.getElem?_eq_getElem hj]

/-! The walk. -/

/-- The steps lead from the places `i` and `j` to the ends of both lists, each taken at its own
place. -/
inductive Walks (a b : List String) : Nat → Nat → List Edit → Prop
  | done : Walks a b a.length b.length []
  | keep {i j : Nat} {x : String} {s : List Edit} (ha : a[i]? = some x) (hb : b[j]? = some x)
      (rest : Walks a b (i + 1) (j + 1) s) : Walks a b i j (⟨.context, i, j⟩ :: s)
  | remove {i j : Nat} {x : String} {s : List Edit} (ha : a[i]? = some x)
      (rest : Walks a b (i + 1) j s) : Walks a b i j (⟨.removed, i, j⟩ :: s)
  | add {i j : Nat} {x : String} {s : List Edit} (hb : b[j]? = some x)
      (rest : Walks a b i (j + 1) s) : Walks a b i j (⟨.added, i, j⟩ :: s)

def changes (s : List Edit) : Nat := s.countP (·.change != .context)

/-- A step apart from the places at which it is taken. -/
def Edit.step (b : List String) (e : Edit) : Step :=
  match e.change with
  | .context => .keep
  | .removed => .remove
  | .added => .add (b[e.after]?.getD "")

variable {a b as bs : List String} {table : Array (Array Nat)} {i j : Nat}

theorem drop_eq_cons {l : List String} {k : Nat} {x : String} (h : l[k]? = some x) :
    l.drop k = x :: l.drop (k + 1) := by
  obtain ⟨hk, rfl⟩ := List.getElem?_eq_some_iff.1 h
  exact List.drop_eq_getElem_cons hk

theorem getElem?_of_drop {l ls : List String} {k : Nat} {x : String} (h : l.drop k = x :: ls) :
    l[k]? = some x ∧ l.drop (k + 1) = ls := by
  have hx : (l.drop k)[0]? = some x := by rw [h, List.getElem?_cons_zero]
  refine ⟨by simpa using hx, ?_⟩
  rw [← List.drop_drop, h, List.drop_one, List.tail_cons]

/-- Replaying a walk from its places on gives the rest of the second list. -/
theorem Walks.replay {s : List Edit} (h : Walks a b i j s) :
    Step.replay (s.map (Edit.step b)) (a.drop i) = some (b.drop j) := by
  induction h with
  | done => simp [Step.replay]
  | keep ha hb _ ih => simp [Edit.step, Step.replay, drop_eq_cons ha, drop_eq_cons hb, ih]
  | remove ha _ ih => simp [Edit.step, Step.replay, drop_eq_cons ha, ih]
  | add hb _ ih => simp [Edit.step, Step.replay, drop_eq_cons hb, hb, ih]

theorem countP_isChange (b : List String) (s : List Edit) :
    (s.map (Edit.step b)).countP Step.isChange = changes s := by
  rw [List.countP_map, changes]
  congr 1
  funext e
  rcases e with ⟨c, _, _⟩
  cases c <;> rfl

theorem walks_added (h : b.drop j = bs) (hi : i = a.length) (hj : j ≤ b.length) :
    Walks a b i j (bs.mapIdx fun k _ => ⟨.added, i, j + k⟩) := by
  induction bs generalizing j with
  | nil =>
    have : j = b.length := Nat.le_antisymm hj (List.drop_eq_nil_iff.1 h)
    rw [hi, this]
    exact .done
  | cons y ys ih =>
    obtain ⟨hy, hys⟩ := getElem?_of_drop h
    have hlt := (List.getElem?_eq_some_iff.1 hy).1
    rw [List.mapIdx_cons]
    refine .add hy ?_
    simpa only [Nat.add_assoc, Nat.add_comm 1] using ih hys hlt

theorem walks_removed (h : a.drop i = as) (hj : j = b.length) (hi : i ≤ a.length) :
    Walks a b i j (as.mapIdx fun k _ => ⟨.removed, i + k, j⟩) := by
  induction as generalizing i with
  | nil =>
    have : i = a.length := Nat.le_antisymm hi (List.drop_eq_nil_iff.1 h)
    rw [hj, this]
    exact .done
  | cons x xs ih =>
    obtain ⟨hx, hxs⟩ := getElem?_of_drop h
    have hlt := (List.getElem?_eq_some_iff.1 hx).1
    rw [List.mapIdx_cons]
    refine .remove hx ?_
    simpa only [Nat.add_assoc, Nat.add_comm 1] using ih hxs hlt

theorem walks_walk (table : Array (Array Nat)) (ha : a.drop i = as) (hb : b.drop j = bs)
    (hi : i ≤ a.length) (hj : j ≤ b.length) : Walks a b i j (walk table as bs i j) := by
  fun_induction walk table as bs i j with
  | case1 bs i j => exact walks_added hb (Nat.le_antisymm hi (List.drop_eq_nil_iff.1 ha)) hj
  | case2 as i j => exact walks_removed ha (Nat.le_antisymm hj (List.drop_eq_nil_iff.1 hb)) hi
  | case3 as x bs i j ih =>
    obtain ⟨hx, has⟩ := getElem?_of_drop ha
    obtain ⟨hy, hbs⟩ := getElem?_of_drop hb
    exact .keep hx hy
      (ih has hbs (List.getElem?_eq_some_iff.1 hx).1 (List.getElem?_eq_some_iff.1 hy).1)
  | case4 x as y bs i j _ _ ih =>
    obtain ⟨hx, has⟩ := getElem?_of_drop ha
    exact .remove hx (ih has hb (List.getElem?_eq_some_iff.1 hx).1 hj)
  | case5 x as y bs i j _ _ ih =>
    obtain ⟨hy, hbs⟩ := getElem?_of_drop hb
    exact .add hy (ih ha hbs hi (List.getElem?_eq_some_iff.1 hy).1)

theorem edits_walks (a b : List String) : Walks a b 0 0 (edits a b) :=
  walks_walk _ rfl rfl (Nat.zero_le _) (Nat.zero_le _)

theorem changes_mapIdx {f : Nat → String → Edit} (h : ∀ k x, (f k x).change ≠ .context)
    (l : List String) : changes (l.mapIdx f) = l.length := by
  rw [changes, List.countP_eq_length.2, List.length_mapIdx]
  intro e he
  obtain ⟨k, hk, rfl⟩ := List.mem_mapIdx.1 he
  simpa using h k l[k]

/-- With the right table the walk keeps as many lines as a longest common subsequence has. -/
theorem changes_walk (ht : Exact table a b) (ha : a.drop i = as) (hb : b.drop j = bs)
    (hi : i ≤ a.length) (hj : j ≤ b.length) :
    changes (walk table as bs i j) + 2 * lcs as bs = as.length + bs.length := by
  fun_induction walk table as bs i j with
  | case1 bs i j => simp [changes_mapIdx]
  | case2 as i j => simp [changes_mapIdx]
  | case3 as x bs i j ih =>
    obtain ⟨hx, has⟩ := getElem?_of_drop ha
    obtain ⟨hy, hbs⟩ := getElem?_of_drop hb
    have := ih has hbs (List.getElem?_eq_some_iff.1 hx).1 (List.getElem?_eq_some_iff.1 hy).1
    simp only [changes, List.countP_cons, bne_self_eq_false, Bool.false_eq_true, if_false,
      lcs_cons, if_true, List.length_cons] at this ⊢
    omega
  | case4 x as y bs i j hne hle ih =>
    obtain ⟨hx, has⟩ := getElem?_of_drop ha
    obtain ⟨hy, hbs⟩ := getElem?_of_drop hb
    have hi' := (List.getElem?_eq_some_iff.1 hx).1
    rw [ht i (j + 1) hi (List.getElem?_eq_some_iff.1 hy).1, ht (i + 1) j hi' hj, ha, hb, has, hbs]
      at hle
    have := ih has hb hi' hj
    simp only [changes, List.countP_cons, lcs_cons, if_neg hne, List.length_cons,
      Nat.max_eq_left hle] at this ⊢
    simp only [show ((Change.removed != Change.context) = true) from rfl, if_true]
    omega
  | case5 x as y bs i j hne hle ih =>
    obtain ⟨hx, has⟩ := getElem?_of_drop ha
    obtain ⟨hy, hbs⟩ := getElem?_of_drop hb
    have hj' := (List.getElem?_eq_some_iff.1 hy).1
    rw [ht i (j + 1) hi hj', ht (i + 1) j (List.getElem?_eq_some_iff.1 hx).1 hj, ha, hb, has, hbs,
      Nat.not_le] at hle
    have := ih ha hbs hi hj'
    simp only [changes, List.countP_cons, lcs_cons, if_neg hne, List.length_cons,
      Nat.max_eq_right hle.le] at this ⊢
    simp only [show ((Change.added != Change.context) = true) from rfl, if_true]
    omega

theorem changes_edits (a b : List String) :
    changes (edits a b) + 2 * lcs a b = a.length + b.length :=
  changes_walk (exact_rows a b) rfl rfl (Nat.zero_le _) (Nat.zero_le _)

/-- Only equal lists need no changes. -/
theorem changes_eq_zero (a b : List String) : changes (edits a b) = 0 ↔ a = b := by
  have hcount := changes_edits a b
  constructor
  · intro h0
    obtain ⟨c, hca, hcb, hlen⟩ := lcs_mem a b
    have hla := hca.length_le
    have hlb := hcb.length_le
    rw [← hca.eq_of_length (by omega), ← hcb.eq_of_length (by omega)]
  · rintro rfl
    have := length_le_lcs (List.Sublist.refl a) (List.Sublist.refl a)
    omega

/-- The script turns the first list into the second, with no more changes than any script must have:
all lines but those of a longest common subsequence. Only equal lists need none. -/
theorem edits_shortest (a b : List String) :
    Step.replay ((edits a b).map (Edit.step b)) a = some b ∧
      IsLeast {n | ∃ s, Step.replay s a = some b ∧ s.countP Step.isChange = n}
      (changes (edits a b)) ∧
      (∃ k, IsGreatest (commonLengths a b) k ∧ changes (edits a b) + 2 * k = a.length + b.length) ∧
      (changes (edits a b) = 0 ↔ a = b) := by
  have hreplay : Step.replay ((edits a b).map (Edit.step b)) a = some b := (edits_walks a b).replay
  have hcount := changes_edits a b
  refine ⟨hreplay, ⟨⟨_, hreplay, countP_isChange b _⟩, ?_⟩, ⟨lcs a b, isGreatest_lcs a b, hcount⟩,
    changes_eq_zero a b⟩
  rintro n ⟨s, hs, rfl⟩
  obtain ⟨c, hca, hcb, hlen⟩ := Step.exists_kept hs
  have := length_le_lcs hca hcb
  omega

end ShaderLoom.Patch
