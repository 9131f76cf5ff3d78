import Mathlib.Data.List.Nodup
import ShaderLoom.Proofs.Build

/-! Fresh names. Candidates for a name are different from each other, and there are more of them
than names in the table, so that one of them is new. -/
namespace ShaderLoom.SymbolTable

variable {t t' : SymbolTable}

theorem candidate_injective (hint : String) : Function.Injective (candidate hint) := by
  have hsuffix : ∀ {m n : Nat}, hint ++ "_" ++ toString m = hint ++ "_" ++ toString n → m = n := by
    intro m n h
    have hdigits := (String.append_right_inj _).1 h
    rw [Nat.toString_eq_ofList_toDigits, Nat.toString_eq_ofList_toDigits] at hdigits
    have hsame := congrArg String.toList hdigits
    rw [String.toList_ofList, String.toList_ofList] at hsame
    have hvalue := congrArg (Nat.ofDigitChars 10 · 0) hsame
    simpa only [Nat.ofDigitChars_ten_toDigits] using hvalue
  have hlonger : ∀ k : Nat, hint ≠ hint ++ "_" ++ toString k := by
    intro k h
    have hlength := congrArg String.length h
    simp only [String.length_append, show "_".length = 1 from rfl] at hlength
    omega
  intro m n h
  unfold candidate at h
  split at h <;> split at h
  · omega
  · exact absurd h (hlonger n)
  · exact absurd h.symm (hlonger m)
  · exact hsuffix h

/-- The search ends with a new name if it has as many candidates left as there are names that it may
still meet. -/
theorem freshName_not_mem (t : SymbolTable) (hint : String) (n k : Nat) (hn : n + k = t.size)
    (hk : ∀ m < k, candidate hint m ∈ t.names.toList) : t.freshName hint n k ∉ t.names.toList := by
  induction n generalizing k with
  | zero =>
    intro hmem
    -- all candidates up to this one would be names, one more than there are names
    have hall : (List.range (k + 1)).map (candidate hint) ⊆ t.names.toList := by
      intro x hx
      obtain ⟨m, hm, rfl⟩ := List.mem_map.1 hx
      rcases Nat.lt_succ_iff_lt_or_eq.1 (List.mem_range.1 hm) with hlt | rfl
      · exact hk m hlt
      · exact hmem
    have hlength := (List.nodup_range.map (candidate_injective hint)).length_le_of_subset hall
    simp only [List.length_map, List.length_range, Array.length_toList] at hlength
    simp only [size] at hn
    omega
  | succ n ih =>
    rw [freshName_succ]
    split
    · next hmem =>
      refine ih (k + 1) (by omega) fun m hm => ?_
      rcases Nat.lt_succ_iff_lt_or_eq.1 hm with hlt | rfl
      · exact hk m hlt
      · exact hmem
    · next hnew => exact hnew

/-- A fresh symbol is the next one, and its name is new. -/
theorem fresh_new (t : SymbolTable) (hint : String) : ∃ name, name ∉ t.names.toList ∧
    (t.fresh hint).1 = t.size + 1 ∧ (t.fresh hint).2.names = t.names.push name := by
  have hnew := t.freshName_not_mem (if hint.isEmpty then defaultName else hint) t.size 0 rfl
    fun m hm => absurd hm (Nat.not_lt_zero m)
  refine ⟨_, hnew, ?_, ?_⟩
  · rw [fresh, register, dif_neg hnew]
  · rw [fresh, register, dif_neg hnew, names_extend]

theorem freshName_eq_candidate (t : SymbolTable) (hint : String) (n k : Nat) :
    ∃ m, t.freshName hint n k = candidate hint m := by
  induction n generalizing k with
  | zero => exact ⟨k, rfl⟩
  | succ n ih =>
    rw [freshName_succ]
    split
    · exact ih (k + 1)
    · exact ⟨k, rfl⟩

theorem Names.le_size {s : Symbol} {name : String} (h : t.Names s name) : 0 < s ∧ s ≤ t.size := by
  obtain ⟨h0, hs⟩ := h
  obtain ⟨hlt, _⟩ := Array.getElem?_eq_some_iff.1 hs
  exact ⟨Nat.pos_of_ne_zero h0, Nat.le_of_pred_lt hlt⟩

theorem get_le_size (t : SymbolTable) (name : String) : t.get name ≤ t.size := by
  unfold get
  split
  · next i hi =>
    obtain ⟨hlt, _⟩ := List.findIdx?_eq_some_iff_getElem.1 hi
    exact Nat.succ_le_of_lt (by simpa [size] using hlt)
  · exact Nat.zero_le _

/-- Numbers of 32 bits are enough for the symbols that a table hands out, as long as it has fewer
names. -/
theorem register_lt_idLimit (h : t.size + 1 < idLimit) (name : String) :
    (t.register name).1 < idLimit := by
  unfold register
  split
  · exact Nat.lt_of_le_of_lt (t.get_le_size name) (Nat.lt_of_succ_lt h)
  · exact h

theorem fresh_lt_idLimit (h : t.size + 1 < idLimit) (hint : String) : (t.fresh hint).1 < idLimit :=
  register_lt_idLimit h _

theorem Names.mem {s : Symbol} {name : String} (h : t.Names s name) : name ∈ t.names.toList :=
  Array.mem_toList_iff.2 (Array.mem_of_getElem? h.2)

/-- A name has one symbol. -/
theorem Names.inj {s u : Symbol} {x : String} (h : t.Names s x) (h' : t.Names u x) : s = u := by
  obtain ⟨hs, hx⟩ := h
  obtain ⟨hu, hx'⟩ := h'
  rw [← Array.getElem?_toList] at hx hx'
  have hlt := (List.getElem?_eq_some_iff.1 hx).1
  have : s - 1 = u - 1 := (List.getElem?_inj hlt t.nodup).1 (hx.trans hx'.symm)
  exact Nat.pred_inj (Nat.pos_of_ne_zero hs) (Nat.pos_of_ne_zero hu) this

theorem Names.name_eq {s : Symbol} {name name' : String} (h : t.Names s name)
    (h' : t.Names s name') : name = name' :=
  Option.some.inj (h.2.symm.trans h'.2)

theorem names_push {name : String} (h : t'.names = t.names.push name) :
    t'.Names (t.size + 1) name :=
  ⟨Nat.succ_ne_zero _, by simp [h, size]⟩

/-- A fresh symbol has a candidate for its name. -/
theorem fresh_candidate (t : SymbolTable) (hint : String) :
    ∃ k, (t.fresh hint).2.Names (t.fresh hint).1
      (candidate (if hint.isEmpty then defaultName else hint) k) := by
  have hnew := t.freshName_not_mem (if hint.isEmpty then defaultName else hint) t.size 0 rfl
    fun m hm => absurd hm (Nat.not_lt_zero m)
  obtain ⟨k, hk⟩ := t.freshName_eq_candidate (if hint.isEmpty then defaultName else hint) t.size 0
  refine ⟨k, ?_⟩
  rw [fresh, register, dif_neg hnew, ← hk]
  exact names_push rfl

end ShaderLoom.SymbolTable
