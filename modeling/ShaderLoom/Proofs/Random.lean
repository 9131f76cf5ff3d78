import ShaderLoom.Proofs.Pass.Selection

/-! Shuffles by drawn places. Which places are exchanged is drawn without a look at what stands
there, so that a shuffled list is one and the same selection from every list of its length. -/
namespace ShaderLoom.Pcg

variable {α β : Type}

/-- Exchanges each place from the last down with the one that is drawn for it. A place beyond the
end is exchanged with nothing. -/
def rearrangeFrom (draw : Nat → Nat) : Nat → Array α → Array α
  | 0, xs => xs
  | i + 1, xs => rearrangeFrom draw i (xs.swapIfInBounds (i + 1) (draw (i + 1)))

def rearrange (draw : Nat → Nat) (xs : List α) : List α :=
  (rearrangeFrom draw (xs.length - 1) xs.toArray).toList

theorem rearrangeFrom_perm (draw : Nat → Nat) (n : Nat) (xs : Array α) :
    (rearrangeFrom draw n xs).Perm xs := by
  induction n generalizing xs with
  | zero => exact .rfl
  | succ n ih => exact (ih _).trans (swapIfInBounds_perm _ _ _)

theorem rearrange_perm (draw : Nat → Nat) (xs : List α) : (rearrange draw xs).Perm xs := by
  simpa [rearrange] using Array.perm_iff_toList_perm.1 (rearrangeFrom_perm draw _ xs.toArray)

example : rearrange (fun i => i / 2) ["a", "b", "c", "d"] = ["c", "a", "d", "b"] := by decide

theorem rearrangeFrom_congr {draw draw' : Nat → Nat} {n : Nat} (h : ∀ i ≤ n, draw i = draw' i)
    (xs : Array α) : rearrangeFrom draw n xs = rearrangeFrom draw' n xs := by
  induction n generalizing xs with
  | zero => rfl
  | succ n ih =>
    rw [rearrangeFrom, rearrangeFrom, h (n + 1) (Nat.le_refl _)]
    exact ih (fun i hi => h i (Nat.le_succ_of_le hi)) _

theorem map_swapIfInBounds (f : α → β) (xs : Array α) (i j : Nat) :
    (xs.map f).swapIfInBounds i j = (xs.swapIfInBounds i j).map f := by
  rw [Array.swapIfInBounds_def, Array.swapIfInBounds_def]
  simp only [Array.size_map]
  split
  · split
    · apply Array.ext
      · simp
      · intro k _ _
        simp only [Array.getElem_swap, Array.getElem_map]
        split
        · rfl
        · split <;> rfl
    · rfl
  · rfl

theorem rearrangeFrom_map (f : α → β) (draw : Nat → Nat) (n : Nat) (xs : Array α) :
    rearrangeFrom draw n (xs.map f) = (rearrangeFrom draw n xs).map f := by
  induction n generalizing xs with
  | zero => rfl
  | succ n ih => rw [rearrangeFrom, rearrangeFrom, map_swapIfInBounds, ih]

theorem rearrange_map (f : α → β) (draw : Nat → Nat) (xs : List α) :
    rearrange draw (xs.map f) = (rearrange draw xs).map f := by
  have hmap := rearrangeFrom_map f draw (xs.length - 1) xs.toArray
  rw [rearrange, rearrange, List.length_map, ← List.map_toArray, hmap, Array.toList_map]

/-- A list is rearranged as the list of its places is. -/
theorem rearrange_eq_map_range (draw : Nat → Nat) (xs : List α) (d : α) :
    rearrange draw xs = (rearrange draw (List.range xs.length)).map fun i => xs.getD i d := by
  have hplaces : (List.range xs.length).map (fun i => xs.getD i d) = xs := by
    apply List.ext_getElem
    · simp
    · intro i _ hi
      simp [List.getElem?_eq_getElem hi]
  rw [← rearrange_map, hplaces]

/-- What is drawn for the places up to one of them. -/
def draws : Nat → Pcg → Nat → Nat
  | 0, _, _ => 0
  | i + 1, g, k => if k = i + 1 then (g.below (i + 2)).1 else draws i (g.below (i + 2)).2 k

theorem shuffleFrom_eq (n : Nat) (xs : Array α) (g : Pcg) :
    shuffleFrom n xs g = rearrangeFrom (draws n g) n xs := by
  induction n generalizing xs g with
  | zero => rfl
  | succ n ih =>
    have hdrawn : draws (n + 1) g (n + 1) = (g.below (n + 2)).1 := if_pos rfl
    change shuffleFrom n (xs.swapIfInBounds (n + 1) (g.below (n + 2)).1) (g.below (n + 2)).2 = _
    rw [rearrangeFrom, hdrawn, ih]
    apply rearrangeFrom_congr
    intro i hi
    rw [draws, if_neg (by omega)]

/-- What the generator draws depends on the seed and on the number of places. -/
def drawn (seed : UInt64) (size : Nat) : Nat → Nat := draws (size - 1) ⟨seed, seed⟩

theorem shuffle_eq (seed : UInt64) (xs : List α) :
    shuffle seed xs = rearrange (drawn seed xs.length) xs := by
  rw [shuffle, shuffleFrom_eq, rearrange, drawn]

end ShaderLoom.Pcg
