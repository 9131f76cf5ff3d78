import Mathlib.Algebra.Group.Int.Defs
import Mathlib.Algebra.Group.Nat.Defs
import ShaderLoom.Patch.Hunk
import ShaderLoom.Proofs.Patch.Script

/-! Hunks are a patch. A script is cut into ranges of steps with nothing but unchanged lines outside
of them, and the hunk of a range shows the lines that its steps take up in both lists. The main
statement says that replacing what hunks show of the first list by what they show of the second one
gives the second list. -/
namespace ShaderLoom.Patch

/-- The lines of the first list among marked lines. -/
def linesBefore (ls : List Line) : List String := (ls.filter (·.change != .added)).map (·.content)

/-- The lines of the second list among marked lines. -/
def linesAfter (ls : List Line) : List String := (ls.filter (·.change != .removed)).map (·.content)

def Line.unchanged (l : Line) : Bool := l.change == .context

/-- The lines stand in a list from line `start` on, counted from one, and there are `count` of
them. -/
def Stand (list : List String) (start count : Nat) (ls : List String) : Prop :=
  ∃ before after, list = before ++ ls ++ after ∧ start = before.length + 1 ∧ count = ls.length

/-- The stretches of a list outside of ranges, each given by its first line, counted from one, and
its number of lines. `done` lines come before the list. -/
def outside (done : Nat) : List (Nat × Nat) → List String → List (List String)
  | [], ls => [ls]
  | (start, count) :: ranges, ls =>
    ls.take (start - 1 - done) :: outside (start - 1 + count) ranges
      (ls.drop (start - 1 - done + count))

/-- The list with the lines of every hunk's first range replaced by what the hunk shows of the
second list. -/
def replaced (done : Nat) : List Hunk → List String → List String
  | [], ls => ls
  | h :: hs, ls =>
    ls.take (h.beforeStart - 1 - done) ++ linesAfter h.lines ++
      replaced (h.beforeStart - 1 + h.beforeCount) hs
      (ls.drop (h.beforeStart - 1 - done + h.beforeCount))

/-- The hunks turn the first list into the second one. -/
structure IsPatch (a b : List String) (hs : List Hunk) : Prop where
  /-- In order, and with a line between two of them. -/
  apart : hs.Pairwise fun h k => h.beforeStart + h.beforeCount < k.beforeStart ∧
    h.afterStart + h.afterCount < k.afterStart
  before : ∀ h ∈ hs, Stand a h.beforeStart h.beforeCount (linesBefore h.lines)
  after : ∀ h ∈ hs, Stand b h.afterStart h.afterCount (linesAfter h.lines)
  outside : outside 0 (hs.map fun h => (h.beforeStart, h.beforeCount)) a =
    outside 0 (hs.map fun h => (h.afterStart, h.afterCount)) b
  replaced : replaced 0 hs a = b

/-! Marked lines of a script. -/

variable {a b as bs : List String} {i j : Nat} {s t script : List Edit}

/-- The steps of a script with their lines. -/
def marked (a b : List String) (s : List Edit) : List Line := s.map (lineOf a.toArray b.toArray)

@[simp] theorem change_lineOf (a b : Array String) (e : Edit) :
    (lineOf a b e).change = e.change := by
  rcases e with ⟨c, _, _⟩
  cases c <;> rfl

theorem linesBefore_cons (l : Line) (ls : List Line) :
    linesBefore (l :: ls) = if l.change = .added then linesBefore ls else l.content ::
    linesBefore ls := by
  by_cases h : l.change = .added <;> simp [linesBefore, h]

theorem linesAfter_cons (l : Line) (ls : List Line) :
    linesAfter (l :: ls) = if l.change = .removed then linesAfter ls else l.content ::
    linesAfter ls := by
  by_cases h : l.change = .removed <;> simp [linesAfter, h]

theorem length_linesBefore (a b : List String) (s : List Edit) :
    (linesBefore (marked a b s)).length = (s.filter (·.change != .added)).length := by
  simp [linesBefore, marked, List.filter_map, Function.comp_def]

theorem length_linesAfter (a b : List String) (s : List Edit) :
    (linesAfter (marked a b s)).length = (s.filter (·.change != .removed)).length := by
  simp [linesAfter, marked, List.filter_map, Function.comp_def]

/-- Steps that change nothing show the same lines of both lists. -/
theorem lines_of_unchanged (a b : List String) (h : ∀ e ∈ s, e.change = .context) :
    linesBefore (marked a b s) = linesAfter (marked a b s) ∧ (linesBefore (marked a b s)).length =
    s.length := by
  have hkeep : ∀ c : Change, c ≠ .context → (marked a b s).filter (·.change != c) =
      marked a b s := by
    intro c hc
    refine List.filter_eq_self.2 fun l hl => ?_
    obtain ⟨e, he, rfl⟩ := List.mem_map.1 hl
    simp [h e he, hc.symm]
  rw [linesBefore, linesAfter, hkeep .added (by decide), hkeep .removed (by decide)]
  exact ⟨rfl, by simp [marked]⟩

/-- A walk takes its first steps and goes on where they lead, and their lines are those taken up on
the way. -/
theorem Walks.append (h : Walks a b i j (s ++ t)) :
    Walks a b (i + (linesBefore (marked a b s)).length) (j + (linesAfter (marked a b s)).length) t ∧
      a.drop i = linesBefore (marked a b s) ++ a.drop (i + (linesBefore (marked a b s)).length) ∧
      b.drop j = linesAfter (marked a b s) ++ b.drop (j + (linesAfter (marked a b s)).length) := by
  induction s generalizing i j with
  | nil => exact ⟨h, rfl, rfl⟩
  | cons e s ih =>
    cases h with
    | @keep _ _ x _ ha hb rest =>
      have he : marked a b (⟨.context, i, j⟩ :: s) = ⟨.context, i + 1, x⟩ :: marked a b s := by
        simp [marked, lineOf, ha]
      have := ih rest
      simp only [he, linesBefore_cons, linesAfter_cons, reduceCtorEq, if_false, List.length_cons,
        List.cons_append, drop_eq_cons ha, drop_eq_cons hb, List.cons.injEq, true_and]
      rwa [Nat.add_right_comm, Nat.add_right_comm j] at this
    | @remove _ _ x _ ha rest =>
      have he : marked a b (⟨.removed, i, j⟩ :: s) = ⟨.removed, i + 1, x⟩ :: marked a b s := by
        simp [marked, lineOf, ha]
      have := ih rest
      simp only [he, linesBefore_cons, linesAfter_cons, reduceCtorEq, if_false, if_true,
        List.length_cons, List.cons_append, drop_eq_cons ha, List.cons.injEq, true_and]
      rwa [Nat.add_right_comm] at this
    | @add _ _ x _ hb rest =>
      have he : marked a b (⟨.added, i, j⟩ :: s) = ⟨.added, j + 1, x⟩ :: marked a b s := by
        simp [marked, lineOf, hb]
      have := ih rest
      simp only [he, linesBefore_cons, linesAfter_cons, reduceCtorEq, if_false, if_true,
        List.length_cons, List.cons_append, drop_eq_cons hb, List.cons.injEq, true_and]
      rwa [Nat.add_right_comm j] at this

theorem Walks.ends (h : Walks a b i j []) : i = a.length ∧ j = b.length := by
  cases h
  exact ⟨rfl, rfl⟩

theorem Walks.head {e : Edit} (h : Walks a b i j (e :: s)) : e.before = i ∧ e.after = j := by
  cases h <;> exact ⟨rfl, rfl⟩

/-! Cutting two lists. -/

/-- What stands before, between and behind the hunks is the same in both lists, with at least
`least` lines before the first hunk, and each hunk shows the lines of its own ranges. `i` and `j`
lines come before. -/
inductive Cut : Nat → Nat → Nat → List Hunk → List String → List String → Prop
  | last {least i j : Nat} (same : List String) : Cut least i j [] same same
  | hunk {least i j : Nat} {h : Hunk} {hs : List Hunk} {same as bs : List String}
    (apart : least ≤ same.length)
      (beforeStart : h.beforeStart = i + same.length + 1)
      (beforeCount : h.beforeCount = (linesBefore h.lines).length)
      (afterStart : h.afterStart = j + same.length + 1)
      (afterCount : h.afterCount = (linesAfter h.lines).length)
      (rest : Cut 1 (i + same.length + h.beforeCount) (j + same.length + h.afterCount) hs as bs) :
      Cut least i j (h :: hs) (same ++ linesBefore h.lines ++ as) (same ++ linesAfter h.lines ++ bs)

namespace Cut

variable {least : Nat} {hs : List Hunk}

theorem starts (h : Cut least i j hs as bs) :
    ∀ h ∈ hs, i + least < h.beforeStart ∧ j + least < h.afterStart := by
  induction h with
  | last => simp
  | hunk _ hbs _ has _ _ ih =>
    intro k hk
    rcases List.mem_cons.1 hk with rfl | hk
    · omega
    · have := ih k hk
      omega

theorem apart (h : Cut least i j hs as bs) : hs.Pairwise fun h k =>
    h.beforeStart + h.beforeCount < k.beforeStart ∧ h.afterStart + h.afterCount < k.afterStart := by
  induction h with
  | last => exact .nil
  | hunk _ hbs _ has _ rest ih =>
    refine .cons (fun k hk => ?_) ih
    have := rest.starts k hk
    omega

theorem before (h : Cut least i j hs as bs) :
    ∀ h ∈ hs, ∃ before after, as = before ++ linesBefore h.lines ++ after ∧
      h.beforeStart = i + before.length + 1 ∧ h.beforeCount = (linesBefore h.lines).length := by
  induction h with
  | last => simp
  | @hunk _ i j h hs same as bs _ hbs hbc _ _ _ ih =>
    intro k hk
    rcases List.mem_cons.1 hk with rfl | hk
    · exact ⟨same, as, rfl, hbs, hbc⟩
    · obtain ⟨before, after, rfl, hstart, hcount⟩ := ih k hk
      refine ⟨same ++ linesBefore h.lines ++ before, after, by simp, ?_, hcount⟩
      simp only [List.length_append]
      omega

theorem after (h : Cut least i j hs as bs) :
    ∀ h ∈ hs, ∃ before after, bs = before ++ linesAfter h.lines ++ after ∧
      h.afterStart = j + before.length + 1 ∧ h.afterCount = (linesAfter h.lines).length := by
  induction h with
  | last => simp
  | @hunk _ i j h hs same as bs _ _ _ has hac _ ih =>
    intro k hk
    rcases List.mem_cons.1 hk with rfl | hk
    · exact ⟨same, bs, rfl, has, hac⟩
    · obtain ⟨before, after, rfl, hstart, hcount⟩ := ih k hk
      refine ⟨same ++ linesAfter h.lines ++ before, after, by simp, ?_, hcount⟩
      simp only [List.length_append]
      omega

theorem outside (h : Cut least i j hs as bs) :
    outside i (hs.map fun h => (h.beforeStart, h.beforeCount)) as =
    outside j (hs.map fun h => (h.afterStart, h.afterCount)) bs := by
  induction h with
  | last => rfl
  | @hunk _ i j h hs same as bs _ hbs hbc has hac _ ih =>
    have hi : h.beforeStart - 1 = i + same.length := by omega
    have hj : h.afterStart - 1 = j + same.length := by omega
    simp only [List.map_cons, Patch.outside, hi, hj, Nat.add_sub_cancel_left, List.append_assoc,
      List.take_left']
    rw [hbc, hac, ← List.drop_drop, ← List.drop_drop, List.drop_left, List.drop_left,
      List.drop_left, List.drop_left, ← hbc, ← hac, ih]

theorem replaced (h : Cut least i j hs as bs) : replaced i hs as = bs := by
  induction h with
  | last => rfl
  | @hunk _ i j h hs same as bs _ hbs hbc _ _ _ ih =>
    have hi : h.beforeStart - 1 = i + same.length := by omega
    simp only [Patch.replaced, hi, Nat.add_sub_cancel_left, List.append_assoc, List.take_left']
    rw [hbc, ← List.drop_drop, List.drop_left, List.drop_left, ← hbc, ih]

theorem isPatch (h : Cut least 0 0 hs a b) : IsPatch a b hs where
  apart := h.apart
  before k hk := by simpa [Stand] using h.before k hk
  after k hk := by simpa [Stand] using h.after k hk
  outside := h.outside
  replaced := h.replaced

end Cut

/-! Cutting a script. -/

/-- The steps from one place of a script up to another one. -/
def part (script : List Edit) (start stop : Nat) : List Edit := (script.take stop).drop start

theorem mem_part {start stop : Nat} {e : Edit} :
    e ∈ part script start stop ↔ ∃ k, start ≤ k ∧ k < stop ∧ script[k]? = some e := by
  rw [part, List.mem_iff_getElem?]
  constructor
  · rintro ⟨k, hk⟩
    rw [List.getElem?_drop, List.getElem?_take] at hk
    obtain ⟨hlt, hk⟩ := Option.ite_none_right_eq_some.1 hk
    exact ⟨start + k, Nat.le_add_right _ _, hlt, hk⟩
  · rintro ⟨k, hle, hlt, hk⟩
    refine ⟨k - start, ?_⟩
    rw [List.getElem?_drop, List.getElem?_take, Nat.add_sub_cancel' hle, if_pos hlt, hk]

theorem part_append_drop {start stop : Nat} (h : start ≤ stop) :
    part script start stop ++ script.drop stop = script.drop start := by
  have hstop : script.drop stop = (script.drop start).drop (stop - start) := by
    rw [List.drop_drop, Nat.add_sub_cancel' h]
  rw [part, List.drop_take, hstop, List.take_append_drop]

/-- The hunk of the steps from one place of a script up to another one. -/
def hunkAt (script : List Edit) (a b : List String) (range : Nat × Nat) : Hunk :=
  let steps := part script range.1 range.2
  let head := (script.drop range.1).headD ⟨.context, 0, 0⟩
  { beforeStart := head.before + 1
    beforeCount := (steps.filter (·.change != .added)).length
    afterStart := head.after + 1
    afterCount := (steps.filter (·.change != .removed)).length
    lines := marked a b steps }

/-- All changes from place `k` on lie in the ranges, which follow one another with at least `least`
steps before the first one and one step between two of them. -/
inductive Cuts (script : List Edit) : Nat → Nat → List (Nat × Nat) → Prop
  | last {least k : Nat} (same : ∀ e ∈ script.drop k, e.change = .context) : Cuts script least k []
  | range {least k start stop : Nat} {ranges : List (Nat × Nat)} (apart : k + least ≤ start)
    (nonempty : start < stop)
      (inside : stop ≤ script.length) (same : ∀ e ∈ part script k start, e.change = .context)
      (rest : Cuts script 1 stop ranges) : Cuts script least k ((start, stop) :: ranges)

/-- The hunks of the ranges of a script cut the lists that the script is about. -/
theorem Cuts.cut {least k : Nat} {ranges : List (Nat × Nat)} (h : Cuts script least k ranges)
    (hw : Walks a b i j (script.drop k)) :
    Cut least i j (ranges.map (hunkAt script a b)) (a.drop i) (b.drop j) := by
  induction h generalizing i j with
  | last same =>
    rw [← List.append_nil (script.drop _)] at hw
    obtain ⟨hw, ha, hb⟩ := hw.append
    obtain ⟨hi, hj⟩ := hw.ends
    rw [ha, hb, hi, hj, List.drop_length, List.drop_length, (lines_of_unchanged a b same).1]
    exact .last _
  | @range least k start stop ranges apart nonempty inside same rest ih =>
    rw [← part_append_drop (Nat.le_of_add_right_le apart)] at hw
    obtain ⟨hw, ha, hb⟩ := hw.append
    obtain ⟨hsame, hlength⟩ := lines_of_unchanged a b same
    rw [← hsame] at hw hb
    obtain ⟨e, es, he⟩ :=
      List.exists_cons_of_length_pos (l := script.drop start) (by rw [List.length_drop]; omega)
    obtain ⟨hi, hj⟩ := (he ▸ hw).head
    rw [← part_append_drop (Nat.le_of_lt nonempty)] at hw
    obtain ⟨hw, ha', hb'⟩ := hw.append
    rw [ha, hb, ha', hb', ← List.append_assoc, ← List.append_assoc, List.map_cons]
    have hsize : (part script k start).length = start - k := by
      rw [part, List.length_drop, List.length_take]
      omega
    refine .hunk ?_ ?_ (length_linesBefore a b _).symm ?_ (length_linesAfter a b _).symm ?_
    · omega
    · simp only [hunkAt, he, List.headD_cons, hi]
    · simp only [hunkAt, he, List.headD_cons, hj]
    · simp only [hunkAt, ← length_linesBefore a b, ← length_linesAfter a b]
      exact ih hw

/-- Every change of a script from place `k` on is counted once, in the hunk of its range. -/
theorem Cuts.count {least k : Nat} {ranges : List (Nat × Nat)} (h : Cuts script least k ranges)
    {c : Change} (hc : c ≠ .context) :
    count c (ranges.map (hunkAt script a b)) = (script.drop k).countP (·.change == c) := by
  have hnone : ∀ s : List Edit, (∀ e ∈ s, e.change = .context) → s.countP (·.change == c) = 0 := by
    intro s hs
    refine List.countP_eq_zero.2 fun e he => ?_
    simpa [hs e he] using hc.symm
  induction h with
  | last same => simp [Patch.count, hnone _ same]
  | @range least k start stop ranges apart nonempty inside same rest ih =>
    rw [← part_append_drop (Nat.le_of_add_right_le apart),
      ← part_append_drop (Nat.le_of_lt nonempty),
      List.countP_append, List.countP_append, hnone _ same, ← ih, Nat.zero_add]
    simp only [Patch.count, List.map_cons, List.flatMap_cons, List.countP_append, hunkAt, marked,
      List.countP_map, Function.comp_def, change_lineOf]

/-! The ranges that groups of changes give. -/

/-- Do the groups follow one another with more than twice the context between two of them? -/
def Spaced (context : Nat) (groups : List (Nat × Nat)) : Prop :=
  groups.Pairwise fun g h => g.2 + 2 * context + 1 < h.1

theorem word_eq {n : Int} (h0 : 0 ≤ n) (h : n < 2 ^ 63) : word n = n :=
  Int.bmod_eq_of_le (by omega) (by omega)

/-- The groups cover the places, each of them begins and ends with a place, and they are spaced. -/
structure Grouped (context : Nat) (places : List Nat) (groups : List (Nat × Nat)) : Prop where
  ends : ∀ g ∈ groups, g.1 ∈ places ∧ g.2 ∈ places ∧ g.1 ≤ g.2
  cover : ∀ k ∈ places, ∃ g ∈ groups, g.1 ≤ k ∧ k ≤ g.2
  spaced : Spaced context groups

section Grouping

variable {context k first last : Nat} {places : List Nat} {gs : List (Nat × Nat)}

/-- A place before the first group joins it. -/
theorem Grouped.join (h : Grouped context places ((first, last) :: gs)) (hk : k < first) :
    Grouped context (k :: places) ((k, last) :: gs) where
  ends := by
    have hfirst := h.ends (first, last) List.mem_cons_self
    rintro g (_ | ⟨_, hg⟩)
    · exact ⟨List.mem_cons_self, List.mem_cons_of_mem _ hfirst.2.1, by omega⟩
    · obtain ⟨hstart, hstop, hle⟩ := h.ends g (List.mem_cons_of_mem _ hg)
      exact ⟨List.mem_cons_of_mem _ hstart, List.mem_cons_of_mem _ hstop, hle⟩
  cover := by
    have hfirst := h.ends (first, last) List.mem_cons_self
    rintro j (_ | ⟨_, hj⟩)
    · exact ⟨(k, last), List.mem_cons_self, Nat.le_refl k, by omega⟩
    · obtain ⟨g, hg, hle⟩ := h.cover j hj
      rcases List.mem_cons.1 hg with rfl | hg
      · exact ⟨(k, last), List.mem_cons_self, by omega, hle.2⟩
      · exact ⟨g, List.mem_cons_of_mem _ hg, hle⟩
  spaced := List.pairwise_cons.2 (List.pairwise_cons.1 h.spaced)

/-- A place far before all groups is a group of its own. -/
theorem Grouped.alone (h : Grouped context places gs) (hfar : ∀ g ∈ gs, k + 2 * context + 1 < g.1) :
    Grouped context (k :: places) ((k, k) :: gs) where
  ends := by
    rintro g (_ | ⟨_, hg⟩)
    · exact ⟨List.mem_cons_self, List.mem_cons_self, Nat.le_refl k⟩
    · obtain ⟨hstart, hstop, hle⟩ := h.ends g hg
      exact ⟨List.mem_cons_of_mem _ hstart, List.mem_cons_of_mem _ hstop, hle⟩
  cover := by
    rintro j (_ | ⟨_, hj⟩)
    · exact ⟨(k, k), List.mem_cons_self, Nat.le_refl k, Nat.le_refl k⟩
    · obtain ⟨g, hg, hle⟩ := h.cover j hj
      exact ⟨g, List.mem_cons_of_mem _ hg, hle⟩
  spaced := List.pairwise_cons.2 ⟨hfar, h.spaced⟩

theorem grouped_groups (hc : 2 * (context : Int) < 2 ^ 63) (h : places.Pairwise (· < ·)) :
    Grouped context places (groups context places) := by
  induction places with
  | nil => exact ⟨by simp [groups], by simp, List.Pairwise.nil⟩
  | cons k rest ih =>
    obtain ⟨hlt, hrest⟩ := List.pairwise_cons.1 h
    have hgrouped := ih hrest
    rw [groups]
    cases hgs : groups context rest with
    | nil => exact (hgs ▸ hgrouped).alone (by simp)
    | cons g more =>
      obtain ⟨first, last⟩ := g
      rw [hgs] at hgrouped
      obtain ⟨hfirst, -, hle⟩ := hgrouped.ends (first, last) List.mem_cons_self
      simp only [word_eq (by omega) hc]
      split
      · exact hgrouped.join (hlt first hfirst)
      · have hgap : k + 2 * context + 1 < first := by omega
        refine hgrouped.alone (List.forall_mem_cons.2 ⟨hgap, fun g hg => ?_⟩)
        have hnext : last + 2 * context + 1 < g.1 := (List.pairwise_cons.1 hgrouped.spaced).1 g hg
        have hle : first ≤ last := hle
        omega

end Grouping

/-- The places of the changes of a script. -/
def changed (script : List Edit) : List Nat :=
  (script.zipIdx.filter (·.1.change != .context)).map (·.2)

theorem mem_changed {k : Nat} :
    k ∈ changed script ↔ ∃ e, script[k]? = some e ∧ e.change ≠ .context := by
  simp [changed, List.mem_zipIdx_iff_getElem?]

theorem changed_pairwise (script : List Edit) : (changed script).Pairwise (· < ·) := by
  have hsub : (changed script).Sublist (script.zipIdx.map (·.2)) := List.filter_sublist.map _
  refine List.Pairwise.sublist hsub ?_
  rw [List.zipIdx_map_snd]
  exact List.pairwise_lt_range'

/-- The range of a group: the context before its first change and after its last one belong to
it. -/
def rangeOf (script : List Edit) (context : Nat) (g : Nat × Nat) : Nat × Nat :=
  (g.1 - context, min script.length (g.2 + context + 1))

theorem hunkOf_eq {context : Nat} {g : Nat × Nat} (hle : g.1 ≤ g.2)
    (hg : g.2 + context + 1 < 2 ^ 63) (script : List Edit) (a b : List String) :
    hunkOf script a.toArray b.toArray context g = hunkAt script a b (rangeOf script context g) := by
  have hstart : (max 0 (word ((g.1 : Int) - context))).toNat = g.1 - context := by
    have : word ((g.1 : Int) - context) = g.1 - context := Int.bmod_eq_of_le (by omega) (by omega)
    omega
  have hstop : (min (script.length : Int) (word ((g.2 : Int) + context + 1))).toNat =
      min script.length (g.2 + context + 1) := by
    rw [word_eq (by omega) (by omega)]
    omega
  simp only [hunkOf, hstart, hstop]
  rfl

/-- Spaced groups that hold all changes give ranges that hold all changes. -/
theorem cuts_of_spaced {context least k : Nat} {gs : List (Nat × Nat)}
    (hin : ∀ g ∈ gs, g.1 ≤ g.2 ∧ g.2 < script.length)
    (hcover : ∀ j ∈ changed script, k ≤ j → ∃ g ∈ gs, g.1 ≤ j ∧ j ≤ g.2)
    (hspaced : Spaced context gs) (hfirst : ∀ g ∈ gs, k + least ≤ g.1 - context) :
    Cuts script least k (gs.map (rangeOf script context)) := by
  induction gs generalizing k least with
  | nil =>
    refine .last fun e he => ?_
    obtain ⟨n, hn⟩ := List.mem_iff_getElem?.1 he
    rw [List.getElem?_drop] at hn
    by_contra hne
    simpa using hcover (k + n) (mem_changed.2 ⟨e, hn, hne⟩) (Nat.le_add_right k n)
  | cons g gs ih =>
    obtain ⟨hhead, htail⟩ := List.pairwise_cons.1 hspaced
    obtain ⟨hle, hlt⟩ := hin g List.mem_cons_self
    refine .range (hfirst g List.mem_cons_self) (by omega) (Nat.min_le_left _ _) (fun e he => ?_) ?_
    · obtain ⟨j, hkj, hj, hget⟩ := mem_part.1 he
      by_contra hne
      obtain ⟨h, hh, hhj⟩ := hcover j (mem_changed.2 ⟨e, hget, hne⟩) hkj
      rcases List.mem_cons.1 hh with rfl | hh
      · omega
      · have := hhead h hh
        omega
    · refine ih (fun h hh => hin h (List.mem_cons_of_mem _ hh)) (fun j hj hkj => ?_) htail
        fun h hh => ?_
      · have hk := hfirst g List.mem_cons_self
        obtain ⟨h, hh, hhj⟩ := hcover j hj (by omega)
        rcases List.mem_cons.1 hh with rfl | hh
        · omega
        · exact ⟨h, hh, hhj⟩
      · have := hhead h hh
        omega

/-! Context. -/

theorem length_takeWhile_le {α : Type} {p : α → Bool} {l : List α} {k : Nat} {x : α}
    (h : l[k]? = some x) (hx : p x = false) : (l.takeWhile p).length ≤ k := by
  induction l generalizing k with
  | nil => simp at h
  | cons y l ih =>
    rw [List.takeWhile_cons]
    split
    · next hy =>
      cases k with
      | zero => simp_all
      | succ k => exact Nat.succ_le_succ (ih (by simpa using h))
    · simp

/-- At most `context` unchanged lines come before the first change of a hunk and after its last
one. -/
def ShowsContext (context : Nat) (h : Hunk) : Prop :=
  (∃ l ∈ h.lines, l.unchanged = false) ∧ (h.lines.takeWhile Line.unchanged).length ≤ context ∧
    (h.lines.reverse.takeWhile Line.unchanged).length ≤ context

theorem showsContext_hunkAt {context : Nat} {g : Nat × Nat} (hle : g.1 ≤ g.2)
    (h1 : g.1 ∈ changed script) (h2 : g.2 ∈ changed script) :
    ShowsContext context (hunkAt script a b (rangeOf script context g)) := by
  have hline : ∀ k ∈ changed script, g.1 ≤ k → k ≤ g.2 → ∃ l, l.unchanged = false ∧
      (hunkAt script a b (rangeOf script context g)).lines[k - (g.1 - context)]? = some l := by
    intro k hk hle hle'
    obtain ⟨e, he, hne⟩ := mem_changed.1 hk
    have hlt := (List.getElem?_eq_some_iff.1 he).1
    refine ⟨lineOf a.toArray b.toArray e, by simp [Line.unchanged, hne], ?_⟩
    have hadd : g.1 - context + (k - (g.1 - context)) = k := by omega
    have hstop : k < min script.length (g.2 + context + 1) := by omega
    simp only [hunkAt, marked, part, rangeOf, List.getElem?_map, List.getElem?_drop,
      List.getElem?_take, hadd, if_pos hstop, he, Option.map_some]
  obtain ⟨l, hl, hget⟩ := hline g.1 h1 (Nat.le_refl _) hle
  obtain ⟨l', hl', hget'⟩ := hline g.2 h2 hle (Nat.le_refl _)
  refine ⟨⟨l, List.mem_of_getElem? hget, hl⟩, ?_, ?_⟩
  · exact (length_takeWhile_le hget hl).trans (by omega)
  · have hlen : (hunkAt script a b (rangeOf script context g)).lines.length ≤ g.2 + context +
        1 - (g.1 - context) := by
      simp only [hunkAt, marked, part, rangeOf, List.length_map, List.length_drop, List.length_take]
      omega
    have hlt := (List.getElem?_eq_some_iff.1 hget').1
    refine (length_takeWhile_le (k := (hunkAt script a b (rangeOf script context g)).lines.length -
      1 - (g.2 - (g.1 - context))) ?_ hl').trans (by omega)
    rw [List.getElem?_reverse (by omega), ← hget']
    congr 1
    omega

theorem Walks.length_le (h : Walks a b i j s) : s.length + i + j ≤ a.length + b.length := by
  induction h with
  | done => simp
  | keep _ _ _ ih => simp only [List.length_cons]; omega
  | remove _ _ ih => simp only [List.length_cons]; omega
  | add _ _ ih => simp only [List.length_cons]; omega

/-- The hunks of two lists are a patch that turns the first one into the second one, each of them
with no more context than asked for, and they count every change of the script. The bound on the
lines is that of places in 64 bits, which no two lists in memory reach. -/
theorem hunks_patch (a b : List String) {context : Int} (h0 : 0 ≤ context)
    (htwice : 2 * context < 2 ^ 63) (hplaces : a.length + b.length ≤ 2 ^ 62) :
    IsPatch a b (hunks a b context) ∧ (∀ h ∈ hunks a b context, ShowsContext context.toNat h) ∧
      count .added (hunks a b context) = (edits a b).countP (·.change == .added) ∧
      count .removed (hunks a b context) = (edits a b).countP (·.change == .removed) := by
  obtain ⟨c, rfl⟩ := Int.eq_ofNat_of_zero_le h0
  have hlength := (edits_walks a b).length_le
  obtain ⟨hin, hcover, hspaced⟩ := grouped_groups htwice (changed_pairwise (edits a b))
  have hinside : ∀ g ∈ groups c (changed (edits a b)), g.1 ≤ g.2 ∧ g.2 < (edits a b).length := by
    intro g hg
    obtain ⟨_, hlast, hle⟩ := hin g hg
    obtain ⟨e, he, _⟩ := mem_changed.1 hlast
    exact ⟨hle, (List.getElem?_eq_some_iff.1 he).1⟩
  have heq : hunks a b c =
      ((groups c (changed (edits a b))).map (rangeOf (edits a b) c)).map
      (hunkAt (edits a b) a b) := by
    rw [List.map_map]
    refine List.map_congr_left fun g hg => ?_
    obtain ⟨hle, hlt⟩ := hinside g hg
    exact hunkOf_eq hle (by omega) _ a b
  have hcuts : Cuts (edits a b) 0 0
      ((groups c (changed (edits a b))).map (rangeOf (edits a b) c)) :=
    cuts_of_spaced hinside (fun j hj _ => hcover j hj) hspaced fun _ _ => Nat.zero_le _
  rw [heq]
  refine ⟨(hcuts.cut (edits_walks a b)).isPatch, fun h hh => ?_, hcuts.count (by decide),
    hcuts.count (by decide)⟩
  obtain ⟨r, hr, rfl⟩ := List.mem_map.1 hh
  obtain ⟨g, hg, rfl⟩ := List.mem_map.1 hr
  obtain ⟨hfirst, hlast, hle⟩ := hin g hg
  exact showsContext_hunkAt hle hfirst hlast

/-- Without context, a replaced line and a line at the end are hunks of their own, the last one with
no line of the first list. -/
theorem hunks_patch_apart :
    hunks ["a", "b", "c", "d"] ["a", "B", "c", "d", "e"] 0 =
        [⟨2, 1, 2, 1, [⟨.removed, 2, "b"⟩, ⟨.added, 2, "B"⟩]⟩, ⟨5, 0, 5, 1, [⟨.added, 5, "e"⟩]⟩] ∧
      IsPatch ["a", "b", "c", "d"] ["a", "B", "c", "d", "e"]
      (hunks ["a", "b", "c", "d"] ["a", "B", "c", "d", "e"] 0) :=
  ⟨by decide +kernel, (hunks_patch _ _ (by decide) (by decide) (by decide)).1⟩

end ShaderLoom.Patch
