import Mathlib.Algebra.Order.Field.Power
import Mathlib.Data.Nat.Cast.Order.Field
import Mathlib.Data.Rat.Cast.Order
import Mathlib.Tactic.FieldSimp
import Mathlib.Tactic.Linarith
import Mathlib.Tactic.NormNum
import Mathlib.Tactic.Positivity
import Mathlib.Tactic.Ring
import ShaderLoom.Print.Shader

/-! The shortest decimal of a double. With seventeen digits one of the two neighbours on the decimal
grid always rounds to the double, so that one is found, and no decimal rounds to two doubles: its
digits determine the double. -/
namespace ShaderLoom.Decimal

def Scientific.value (s : Scientific) : ℚ := s.digits * 10 ^ s.exponent

theorem Scientific.value_trim (n : Nat) (s : Scientific) : (trim n s).value = s.value := by
  induction n generalizing s with
  | zero => rfl
  | succ n ih =>
    rw [trim]
    split
    · next h =>
      have hdigits : (s.digits : ℚ) = (s.digits / 10 : Nat) * 10 := by
        exact_mod_cast (Nat.div_mul_cancel (Nat.dvd_of_mod_eq_zero h.2)).symm
      rw [ih, value, value, hdigits, zpow_add_one₀ (by norm_num)]
      ring
    · rfl

/-- A power with an integer exponent as a quotient of two with natural ones. -/
theorem scale_eq (b : Nat) (g : Int) :
    (((if 0 ≤ g then b ^ g.toNat else 1 : Nat) : ℚ) / (if 0 ≤ g then 1 else b ^ (-g).toNat : Nat)) =
    (b : ℚ) ^ g := by
  split
  · next h =>
    obtain ⟨n, rfl⟩ := Int.eq_ofNat_of_zero_le h
    simp
  · next h =>
    obtain ⟨n, hn⟩ := Int.eq_ofNat_of_zero_le (show 0 ≤ -g by omega)
    obtain rfl : g = -n := by omega
    simp

theorem lt_pow_length (n : Nat) : n < 10 ^ (digitText n).length :=
  (Nat.length_toDigits_le_iff (by decide) Nat.length_toDigits_pos).1 (Nat.le_refl _)

theorem pow_length_le {n : Nat} (hn : 0 < n) : 10 ^ ((digitText n).length - 1) ≤ n := by
  by_cases h : (digitText n).length - 1 = 0
  · rwa [h, pow_zero]
  · by_contra hlt
    have := (Nat.length_toDigits_le_iff (b := 10) (by decide) (Nat.pos_of_ne_zero h)).2
      (Nat.lt_of_not_le hlt)
    rw [← digitText] at this
    omega

/-- The first digit of a quotient stands where the position says, or before. -/
theorem pow_pointPosition_le {num den : Nat} (hnum : 0 < num) (hden : 0 < den) :
    (10 : ℚ) ^ (pointPosition num den - 1) ≤ num / den := by
  have hnum' : (0 : ℚ) < num := by exact_mod_cast hnum
  have hden' : (0 : ℚ) < den := by exact_mod_cast hden
  rw [pointPosition, le_div_iff₀ hden']
  split
  · next hle =>
    have hlength : 0 < (digitText (num / den)).length := Nat.length_toDigits_pos
    have hpow := pow_length_le (Nat.div_pos hle hden)
    have hcast : (((digitText (num / den)).length : Int) - 1) =
        ((digitText (num / den)).length - 1 : Nat) := by omega
    rw [hcast, zpow_natCast]
    exact_mod_cast (Nat.le_div_iff_mul_le hden).1 hpow
  · next hlt =>
    have hlength : 0 < (digitText (den / num)).length := Nat.length_toDigits_pos
    have hpow := lt_pow_length (den / num)
    generalize hz : (digitText (den / num)).length - 1 = z
    have hz' : (digitText (den / num)).length = z + 1 := by omega
    rw [hz', Nat.div_lt_iff_lt_mul hnum] at hpow
    have hinv : ∀ k : Nat, den ≤ num * 10 ^ k → (10 : ℚ) ^ (-(k : Int)) * den ≤ num := by
      intro k hk
      rw [zpow_neg, zpow_natCast, inv_mul_le_iff₀ (by positivity), mul_comm]
      exact_mod_cast hk
    simp only [Nat.pow_eq]
    split
    · next hle =>
      have := hinv z hle
      rwa [show (1 : Int) - z - 1 = -z by ring]
    · have := hinv (z + 1) (by rw [Nat.mul_comm]; exact hpow.le)
      rwa [show -(z : Int) - 1 = -((z + 1 : Nat) : Int) by push_cast; ring]

namespace Rounding

variable {r : Rounding}

def lowest (r : Rounding) : ℚ := r.low / r.den

def center (r : Rounding) : ℚ := r.value / r.den

def highest (r : Rounding) : ℚ := r.high / r.den

/-- The number lies in the interval. -/
def Contains (r : Rounding) (q : ℚ) : Prop :=
  if r.closed then r.lowest ≤ q ∧ q ≤ r.highest else r.lowest < q ∧ q < r.highest

theorem Contains.le {q : ℚ} (h : r.Contains q) : r.lowest ≤ q ∧ q ≤ r.highest := by
  unfold Contains at h
  split at h
  · exact h
  · exact ⟨h.1.le, h.2.le⟩

theorem contains_of_lt {q : ℚ} (h : r.lowest < q) (h' : q < r.highest) : r.Contains q := by
  unfold Contains
  split
  · exact ⟨h.le, h'.le⟩
  · exact ⟨h, h'⟩

theorem holds_iff {d up down : Nat} (hden : 0 < r.den) (hdown : 0 < down) :
    r.holds d up down = true ↔ r.Contains (d * (up / down)) := by
  have hden' : (0 : ℚ) < r.den := by exact_mod_cast hden
  have hdown' : (0 : ℚ) < down := by exact_mod_cast hdown
  have hx : (d * (up / down) : ℚ) = (d * up : Nat) / down := by
    push_cast
    ring
  have hle : ∀ n : Nat, (n : ℚ) / r.den ≤ d * (up / down) ↔ n * down ≤ d * up * r.den := by
    intro n
    rw [hx, div_le_div_iff₀ hden' hdown']
    exact_mod_cast Iff.rfl
  have hge : ∀ n : Nat, d * (up / down) ≤ (n : ℚ) / r.den ↔ d * up * r.den ≤ n * down := by
    intro n
    rw [hx, div_le_div_iff₀ hdown' hden']
    exact_mod_cast Iff.rfl
  rw [Contains, holds, lowest, highest]
  split
  · simp only [Bool.and_eq_true, decide_eq_true_eq, hle, hge]
  · simp only [Bool.and_eq_true, decide_eq_true_eq, ← not_le, hle, hge]

/-- The lower of two candidates only gives way to the upper one. -/
theorem either_of_eq_some {x y nearUp : Bool} {lower upper s : Scientific}
    (h : (if x && !(y && nearUp) then some lower else if y then some upper else none) = some s) :
    x = true ∧ lower = s ∨ y = true ∧ upper = s := by
  cases x <;> cases y <;> cases nearUp <;> simp_all

theorem isSome_either {x y : Bool} (h : x = true ∨ y = true) (nearUp : Bool)
    (lower upper : Scientific) :
    (if x && !(y && nearUp) then some lower else if y then some upper else none).isSome = true := by
  cases x <;> cases y <;> cases nearUp <;> simp_all

/-- The value stands between two neighbours on the grid, either of which is found if it lies in the
interval. -/
theorem withDigits_spec (hden : 0 < r.den) (p : Int) (k : Nat) : ∃ d : Nat,
    d * (10 : ℚ) ^ (p - k) ≤ r.center ∧ r.center < (d + 1 : Nat) * (10 : ℚ) ^ (p - k) ∧
      (∀ s, r.withDigits p k = some s → r.Contains s.value) ∧
      (r.Contains (d * (10 : ℚ) ^ (p - k)) ∨ r.Contains ((d + 1 : Nat) * (10 : ℚ) ^ (p - k)) →
        (r.withDigits p k).isSome) := by
  have hscale := scale_eq 10 (p - k)
  rw [Nat.cast_ofNat] at hscale
  have hup : 0 < if 0 ≤ p - k then 10 ^ (p - k).toNat else 1 := by split <;> positivity
  have hdown : 0 < if 0 ≤ p - k then 1 else 10 ^ (-(p - k)).toNat := by split <;> positivity
  simp only [withDigits, Nat.pow_eq]
  generalize (if 0 ≤ p - k then 10 ^ (p - k).toNat else 1) = up at *
  generalize (if 0 ≤ p - k then 1 else 10 ^ (-(p - k)).toNat) = down at *
  generalize decide (if 2 * (r.value * down % (r.den * up)) = r.den * up then
    r.value * down / (r.den * up) % 2 = 1
    else r.den * up < 2 * (r.value * down % (r.den * up))) = nearUp
  have hstep : 0 < r.den * up := Nat.mul_pos hden hup
  have hstep' : (0 : ℚ) < (r.den * up : Nat) := by exact_mod_cast hstep
  have hdown' : (0 : ℚ) < down := by exact_mod_cast hdown
  have hcenter : r.center = (r.value * down : Nat) / (r.den * up : Nat) * (10 : ℚ) ^ (p - k) := by
    rw [← hscale, center]
    push_cast
    field_simp
  have hpow : (0 : ℚ) < 10 ^ (p - k) := by positivity
  refine ⟨r.value * down / (r.den * up), ?_, ?_, ?_, ?_⟩
  · rw [hcenter]
    exact mul_le_mul_of_nonneg_right Nat.cast_div_le hpow.le
  · rw [hcenter]
    refine mul_lt_mul_of_pos_right ?_ hpow
    rw [div_lt_iff₀ hstep']
    exact_mod_cast Nat.lt_mul_of_div_lt (Nat.lt_succ_self _) hstep
  · intro s hs
    have hpoint : ∀ d, r.holds d up down = true → r.Contains (Scientific.value ⟨d, p - k⟩) := by
      intro d hd
      rw [Scientific.value, ← hscale]
      exact (holds_iff hden hdown).1 hd
    rcases either_of_eq_some hs with ⟨hhit, rfl⟩ | ⟨hhit, rfl⟩
    · exact hpoint _ hhit
    · exact hpoint _ hhit
  · rw [← hscale, ← holds_iff hden hdown, ← holds_iff hden hdown]
    exact fun hhit => isSome_either hhit _ _ _

/-- A grid that is finer than the interval has a point in it, which is found. -/
theorem withDigits_isSome (hden : 0 < r.den) {p : Int} {k : Nat} (hlow : r.lowest < r.center)
    (hhigh : r.center < r.highest) (hfine : (10 : ℚ) ^ (p - k) < r.highest - r.lowest) :
    (r.withDigits p k).isSome := by
  obtain ⟨d, hbelow, habove, -, hfound⟩ := withDigits_spec hden p k
  refine hfound ?_
  by_contra hnone
  obtain ⟨hno, hno'⟩ := not_or.1 hnone
  have hmiss : d * (10 : ℚ) ^ (p - k) ≤ r.lowest := by
    by_contra hlt
    exact hno (contains_of_lt (not_le.1 hlt) (hbelow.trans_lt hhigh))
  have hmiss' : r.highest ≤ (d + 1 : Nat) * (10 : ℚ) ^ (p - k) := by
    by_contra hlt
    exact hno' (contains_of_lt (hlow.trans habove) (not_le.1 hlt))
  push_cast at hmiss'
  linarith

end Rounding

/-! The interval of a double. -/

/-- How far the interval reaches down, in quarters of the last place. -/
def below (m : Nat) (e : Int) : Nat := if m = 2 ^ 52 ∧ -1074 < e then 1 else 2

theorem below_cases (m : Nat) (e : Int) : below m e = 1 ∨ below m e = 2 := by
  unfold below
  split <;> simp

variable {m m' : Nat} {e e' : Int} {q : ℚ}

theorem den_pos (m : Nat) (e : Int) : 0 < (Rounding.of m e).den := by
  simp only [Rounding.of, Nat.one_shiftLeft]
  split <;> positivity

theorem quarters (m : Nat) (e : Int) (n : Nat) :
    ((n * if 0 ≤ e - 2 then 1 <<< (e - 2).toNat else 1 : Nat) : ℚ) / (Rounding.of m e).den =
    n * 2 ^ (e - 2) := by
  have hscale := scale_eq 2 (e - 2)
  simp only [Rounding.of, Nat.one_shiftLeft]
  rw [Nat.cast_mul, mul_div_assoc, hscale, Nat.cast_ofNat]

theorem lowest_of (m : Nat) (e : Int) :
    (Rounding.of m e).lowest = (4 * m - below m e : Nat) * 2 ^ (e - 2) :=
  quarters m e _

theorem center_of (m : Nat) (e : Int) : (Rounding.of m e).center = (4 * m : Nat) * 2 ^ (e - 2) :=
  quarters m e _

theorem highest_of (m : Nat) (e : Int) :
    (Rounding.of m e).highest = (4 * m + 2 : Nat) * 2 ^ (e - 2) :=
  quarters m e _

theorem lowest_lt_center (hm : 0 < m) (e : Int) :
    (Rounding.of m e).lowest < (Rounding.of m e).center := by
  rw [lowest_of, center_of]
  have := below_cases m e
  have : (4 * m - below m e : Nat) < 4 * m := by omega
  exact mul_lt_mul_of_pos_right (by exact_mod_cast this) (by positivity)

theorem center_lt_highest (m : Nat) (e : Int) :
    (Rounding.of m e).center < (Rounding.of m e).highest := by
  rw [center_of, highest_of]
  exact mul_lt_mul_of_pos_right (by exact_mod_cast Nat.lt_add_of_pos_right (by decide))
    (by positivity)

/-- The grid of seventeen digits is finer than the interval. -/
theorem fine (hm : 0 < m) (hm' : m < 2 ^ 53) {p : Int}
    (hp : (10 : ℚ) ^ (p - 1) ≤ (Rounding.of m e).center) :
    (10 : ℚ) ^ (p - (17 : Nat)) < (Rounding.of m e).highest - (Rounding.of m e).lowest := by
  have hgrid : (10 : ℚ) ^ (p - (17 : Nat)) * 10 ^ 16 ≤ (4 * m : Nat) * 2 ^ (e - 2) := by
    rw [← center_of, ← zpow_natCast, ← zpow_add₀ (by norm_num)]
    convert hp using 2
    push_cast
    ring
  have hwidth : (Rounding.of m e).highest - (Rounding.of m e).lowest = (2 + below m e : Nat) *
      2 ^ (e - 2) := by
    have := below_cases m e
    have hsum : 4 * m + 2 = (2 + below m e) + (4 * m - below m e) := by omega
    rw [highest_of, lowest_of, hsum]
    push_cast
    ring
  have hpos : (0 : ℚ) < 2 ^ (e - 2) := by positivity
  -- A power of two has the narrower interval and the smallest mantissa, so its grid is fine enough
  -- as well.
  have hsmall : (4 * m : Nat) < (2 + below m e) * 10 ^ 16 := by
    unfold below
    split
    · next h =>
      rw [h.1]
      decide
    · omega
  have hsmall' : ((4 * m : Nat) : ℚ) < (2 + below m e : Nat) * 10 ^ 16 := by exact_mod_cast hsmall
  rw [hwidth]
  refine lt_of_mul_lt_mul_right ?_ (show (0 : ℚ) ≤ 10 ^ 16 by positivity)
  calc (10 : ℚ) ^ (p - (17 : Nat)) * 10 ^ 16 ≤ (4 * m : Nat) * 2 ^ (e - 2) := hgrid
    _ < (2 + below m e : Nat) * 10 ^ 16 * 2 ^ (e - 2) := mul_lt_mul_of_pos_right hsmall' hpos
    _ = (2 + below m e : Nat) * 2 ^ (e - 2) * 10 ^ 16 := by ring

/-- The shortest decimal lies in the interval. -/
theorem shortest_mem (hm : 0 < m) (hm' : m < 2 ^ 53) :
    (Rounding.of m e).Contains (shortest m e).value := by
  have hden := den_pos m e
  have hvalue : 0 < (Rounding.of m e).value := by
    simp only [Rounding.of, Nat.one_shiftLeft]
    split <;> positivity
  have hp := pow_pointPosition_le hvalue hden
  rw [shortest, if_neg hm.ne']
  simp only [Scientific.value_trim]
  generalize hfound : (List.range 17).findSome? _ = found
  cases found with
  | none =>
    have hlast := List.findSome?_eq_none_iff.1 hfound 16 (by decide)
    have := Rounding.withDigits_isSome hden (lowest_lt_center hm e) (center_lt_highest m e)
      (fine hm hm' hp)
    simp [hlast] at this
  | some s =>
    obtain ⟨k, -, hk⟩ := List.exists_of_findSome?_eq_some hfound
    obtain ⟨d, -, -, hmem, -⟩ :=
      Rounding.withDigits_spec hden (pointPosition (Rounding.of m e).value (Rounding.of m e).den)
        (k + 1)
    exact hmem s hk

/-! One decimal, one double. -/

/-- What a double has for mantissa and exponent: only the smallest exponent comes with a small
mantissa. -/
structure Normal (m : Nat) (e : Int) : Prop where
  fits : m < 2 ^ 53
  least : -1074 ≤ e
  leading : 2 ^ 52 ≤ m ∨ e = -1074

/-- The ends belong to the interval only if the mantissa is even. -/
theorem contains_odd (hodd : m % 2 = 1) (hq : (Rounding.of m e).Contains q) :
    (Rounding.of m e).lowest < q ∧ q < (Rounding.of m e).highest := by
  have hopen : (Rounding.of m e).closed = false := by simp [Rounding.of, hodd]
  rwa [Rounding.Contains, hopen, if_neg Bool.false_ne_true] at hq

/-- The intervals of two doubles meet at most where they end, and there only one of them is
closed. -/
theorem disjoint_of_lt (h : Normal m e) (h' : Normal m' e') (hlt : e < e' ∨ e = e' ∧ m < m')
    (hq : (Rounding.of m e).Contains q) (hq' : (Rounding.of m' e').Contains q) : False := by
  obtain ⟨k, rfl⟩ : ∃ k : Nat, e' = e + k := Int.le.dest (by omega) |>.imp fun _ hk => hk.symm
  have hpos : (0 : ℚ) < 2 ^ (e - 2) := by positivity
  have hlowest : (Rounding.of m' (e + k)).lowest = ((4 * m' - below m' (e + k)) * 2 ^ k : Nat) *
      2 ^ (e - 2) := by
    rw [lowest_of, show e + k - 2 = (e - 2) + k by ring, zpow_add₀ (by norm_num), zpow_natCast]
    push_cast
    ring
  have hle : (4 * m' - below m' (e + k)) * 2 ^ k ≤ 4 * m + 2 := by
    have := hq'.le.1.trans hq.le.2
    rw [hlowest, highest_of] at this
    exact_mod_cast le_of_mul_le_mul_right this hpos
  have hstrict : m % 2 = 1 ∨ m' % 2 = 1 → (4 * m' - below m' (e + k)) * 2 ^ k < 4 * m + 2 := by
    intro hodd
    have : (Rounding.of m' (e + k)).lowest < (Rounding.of m e).highest := by
      rcases hodd with hodd | hodd
      · exact hq'.le.1.trans_lt (contains_odd hodd hq).2
      · exact (contains_odd hodd hq').1.trans_le hq.le.2
    rw [hlowest, highest_of] at this
    exact_mod_cast lt_of_mul_lt_mul_right this hpos.le
  have hbelow := below_cases m' (e + k)
  cases k with
  | zero =>
    rw [pow_zero, Nat.mul_one] at hle hstrict
    omega
  | succ k =>
    -- Only the largest mantissa reaches up to the smallest one of the next exponent, and it is odd.
    have htwo : (4 * m' - below m' (e + (k + 1 : Nat))) * 2 ≤
        (4 * m' - below m' (e + (k + 1 : Nat))) * 2 ^ (k + 1) :=
      Nat.mul_le_mul_left _ (Nat.le_self_pow (Nat.succ_ne_zero k) 2)
    have hm' : 2 ^ 52 ≤ m' := by
      have := h.least
      exact h'.leading.resolve_right (by omega)
    have hone : m' = 2 ^ 52 → below m' (e + (k + 1 : Nat)) = 1 := by
      intro hm'
      have := h.least
      rw [below, if_pos ⟨hm', by omega⟩]
    have := h.fits
    omega

theorem eq_of_contains (h : Normal m e) (h' : Normal m' e') (hq : (Rounding.of m e).Contains q)
    (hq' : (Rounding.of m' e').Contains q) : m = m' ∧ e = e' := by
  rcases lt_trichotomy e e' with hlt | heq | hgt
  · exact (disjoint_of_lt h h' (.inl hlt) hq hq').elim
  · rcases lt_trichotomy m m' with hlt | heq' | hgt
    · exact (disjoint_of_lt h h' (.inr ⟨heq, hlt⟩) hq hq').elim
    · exact ⟨heq', heq⟩
    · exact (disjoint_of_lt h' h (.inr ⟨heq.symm, hgt⟩) hq' hq).elim
  · exact (disjoint_of_lt h' h (.inl hgt) hq' hq).elim

theorem shortest_value_pos (hm : 0 < m) (hm' : m < 2 ^ 53) : 0 < (shortest m e).value := by
  refine lt_of_lt_of_le ?_ (shortest_mem hm hm').le.1
  rw [lowest_of]
  have := below_cases m e
  have hpos : 0 < 4 * m - below m e := by omega
  positivity

theorem shortest_value_zero (e : Int) : (shortest 0 e).value = 0 := by
  simp [shortest, Scientific.value]

/-- The value of the shortest decimal determines mantissa and exponent. -/
theorem eq_of_shortest_value (h : Normal m e) (h' : Normal m' e')
    (hvalue : (shortest m e).value = (shortest m' e').value) : m = m' ∧ e = e' := by
  rcases Nat.eq_zero_or_pos m with rfl | hm <;> rcases Nat.eq_zero_or_pos m' with rfl | hm'
  · exact ⟨rfl, (h.leading.resolve_left (by decide)).trans
      (h'.leading.resolve_left (by decide)).symm⟩
  · exact absurd hvalue (by rw [shortest_value_zero]; exact (shortest_value_pos hm' h'.fits).ne)
  · exact absurd hvalue (by rw [shortest_value_zero]; exact (shortest_value_pos hm h.fits).ne')
  · exact eq_of_contains h h' (shortest_mem hm h.fits) (hvalue ▸ shortest_mem hm' h'.fits)

/-! Positional texts. -/

/-- The value of digits before and after a point. -/
def pointValue (whole part : List Char) : ℚ :=
  (Nat.ofDigitChars 10 (whole ++ part) 0 : ℚ) / 10 ^ part.length

/-- Digits before a point, and after it. -/
structure Pointed (cs whole part : List Char) : Prop where
  text : cs = whole ++ '.' :: part
  whole : whole ≠ [] ∧ ∀ c ∈ whole, c.isDigit = true
  part : part ≠ [] ∧ ∀ c ∈ part, c.isDigit = true

theorem isDigit_of_mem_digitText {n : Nat} {c : Char} (h : c ∈ digitText n) : c.isDigit = true :=
  Nat.isDigit_of_mem_toDigits (by decide) (by decide) h

theorem ofDigitChars_digitText (n : Nat) : Nat.ofDigitChars 10 (digitText n) 0 = n :=
  Nat.ofDigitChars_ten_toDigits

/-- A run of characters that pass a test, with none behind it, can be told from what follows. -/
theorem run_unique {p : Char → Bool} {as bs cs ds : List Char} (ha : ∀ c ∈ as, p c = true)
    (hb : ∀ c ∈ bs, p c = true) (hc : ∀ c ∈ cs.head?, p c = false)
    (hd : ∀ c ∈ ds.head?, p c = false) (h : as ++ cs = bs ++ ds) : as = bs ∧ cs = ds := by
  have hrun : ∀ as cs : List Char, (∀ c ∈ as, p c = true) → (∀ c ∈ cs.head?, p c = false) →
      (as ++ cs).takeWhile p = as := by
    intro as cs ha hc
    rw [List.takeWhile_append_of_pos ha]
    cases cs with
    | nil => simp
    | cons c cs => simp [hc c rfl]
  have heq : as = bs := by rw [← hrun as cs ha hc, h, hrun bs ds hb hd]
  subst heq
  exact ⟨rfl, List.append_cancel_left h⟩

theorem Pointed.ne_nil {cs whole part : List Char} (h : Pointed cs whole part) : cs ≠ [] := by
  rw [h.text]
  exact List.append_ne_nil_of_left_ne_nil h.whole.1 _

theorem Pointed.head {cs whole part : List Char} (h : Pointed cs whole part) :
    ∀ c ∈ cs.head?, c.isDigit = true := by
  obtain ⟨c, rest, hwhole⟩ := List.exists_cons_of_ne_nil h.whole.1
  rw [h.text, hwhole]
  rintro d ⟨⟩
  exact h.whole.2 c (hwhole ▸ List.mem_cons_self)

theorem Pointed.unique {cs whole part whole' part' : List Char} (h : Pointed cs whole part)
    (h' : Pointed cs whole' part') : whole = whole' ∧ part = part' := by
  have hpoint : ∀ part : List Char, ∀ c ∈ ('.' :: part).head?, c.isDigit = false := by
    intro part c hc
    cases hc
    decide
  obtain ⟨hwhole, hpart⟩ :=
    run_unique h.whole.2 h'.whole.2 (hpoint _) (hpoint _) (h.text.symm.trans h'.text)
  exact ⟨hwhole, (List.cons.inj hpart).2⟩

theorem isDigit_of_mem_zeros {n : Nat} {c : Char} (h : c ∈ List.replicate n '0') :
    c.isDigit = true := by
  rw [List.eq_of_mem_replicate h]
  rfl

/-- Digits with the fraction that is added to a text without one. -/
theorem pointed_whole {ds : List Char} (hne : ds ≠ []) (hdigits : ∀ c ∈ ds, c.isDigit = true) :
    Pointed (ds ++ ".0".toList) ds ['0'] ∧ pointValue ds ['0'] = Nat.ofDigitChars 10 ds 0 := by
  refine ⟨⟨rfl, ⟨hne, hdigits⟩, by simp⟩, ?_⟩
  have hzero : Nat.ofDigitChars 10 (ds ++ ['0']) 0 = 10 * Nat.ofDigitChars 10 ds 0 := by
    rw [Nat.ofDigitChars_append]
    rfl
  rw [pointValue, hzero, List.length_singleton, pow_one]
  push_cast
  ring

/-- Digits with a point before the last `n` of them. -/
theorem pointed_split {ds : List Char} {n : Nat} (hpos : 0 < n) (hlt : n < ds.length)
    (hdigits : ∀ c ∈ ds, c.isDigit = true) :
    Pointed (ds.take (ds.length - n) ++ '.' :: ds.drop (ds.length - n)) (ds.take (ds.length - n))
        (ds.drop (ds.length - n)) ∧
      pointValue (ds.take (ds.length - n)) (ds.drop (ds.length - n)) =
      Nat.ofDigitChars 10 ds 0 / 10 ^ n := by
  refine ⟨⟨rfl, ⟨?_, fun c hc => hdigits c (List.mem_of_mem_take hc)⟩,
    ⟨?_, fun c hc => hdigits c (List.mem_of_mem_drop hc)⟩⟩, ?_⟩
  · exact List.ne_nil_of_length_pos (by rw [List.length_take]; omega)
  · exact List.ne_nil_of_length_pos (by rw [List.length_drop]; omega)
  · have hlength : ds.length - (ds.length - n) = n := by omega
    rw [pointValue, List.take_append_drop, List.length_drop, hlength]

/-- A positional text, with a fraction added if it has none, is made of digits and one point, and
has the value that it stands for. -/
theorem exists_pointed (s : Scientific) : ∃ whole part,
    Pointed (if (positional s).contains '.' then positional s else positional s ++ ".0").toList
    whole part ∧
      pointValue whole part = s.value := by
  rw [String.contains_char_eq, positional]
  split
  · next hexp =>
    obtain ⟨n, hn⟩ := Int.eq_ofNat_of_zero_le hexp
    have hdigits : ∀ c ∈ digitText s.digits ++ List.replicate s.exponent.toNat '0',
        c.isDigit = true := by
      intro c hc
      exact (List.mem_append.1 hc).elim isDigit_of_mem_digitText isDigit_of_mem_zeros
    have hpoint : '.' ∉ digitText s.digits ++ List.replicate s.exponent.toNat '0' :=
      fun hc => absurd (hdigits _ hc) (by decide)
    obtain ⟨hpointed, hvalue⟩ :=
      pointed_whole (List.append_ne_nil_of_left_ne_nil Nat.toDigits_ne_nil _) hdigits
    refine ⟨_, _, ?_, hvalue.trans ?_⟩
    · rwa [String.toList_ofList, decide_eq_false hpoint, if_neg Bool.false_ne_true,
        String.toList_append, String.toList_ofList]
    · rw [Nat.ofDigitChars_append, Nat.ofDigitChars_ten_toDigits, Nat.ofDigitChars_replicate_zero,
        Scientific.value, hn, zpow_natCast, Int.toNat_natCast]
      push_cast
      ring
  · next hexp =>
    obtain ⟨n, hn⟩ := Int.eq_ofNat_of_zero_le (show 0 ≤ -s.exponent by omega)
    have hn' : (-s.exponent).toNat = n := by rw [hn, Int.toNat_natCast]
    have hexp' : s.exponent = -(n : Int) := by omega
    simp only [hn']
    generalize hpadded : List.replicate (n + 1 - (digitText s.digits).length) '0' ++
      digitText s.digits = padded
    have hlength : n < padded.length := by
      rw [← hpadded, List.length_append, List.length_replicate]
      omega
    have hdigits : ∀ c ∈ padded, c.isDigit = true := by
      intro c hc
      rw [← hpadded] at hc
      exact (List.mem_append.1 hc).elim isDigit_of_mem_zeros isDigit_of_mem_digitText
    have hvalue : Nat.ofDigitChars 10 padded 0 = s.digits := by
      rw [← hpadded, Nat.ofDigitChars_append, Nat.ofDigitChars_replicate_zero, Nat.mul_zero,
        ofDigitChars_digitText]
    obtain ⟨hpointed, hsplit⟩ := pointed_split (by omega) hlength hdigits
    refine ⟨_, _, ?_, hsplit.trans ?_⟩
    · simpa using hpointed
    · rw [hvalue, Scientific.value, hexp', zpow_neg, zpow_natCast, div_eq_mul_inv]

end ShaderLoom.Decimal

namespace ShaderLoom.Binary64

open Decimal (Normal)

variable {x y : Binary64} {m : Nat} {e : Int}

theorem bits_eq (x : Binary64) :
    x.bits.toNat = (if x.negative then 2 ^ 63 else 0) + x.biased * 2 ^ 52 + x.fraction := by
  have hlt := x.bits.toNat_lt
  simp only [negative, biased, fraction, Nat.one_shiftLeft, Nat.shiftRight_eq_div_pow,
    decide_eq_true_eq]
  split <;> omega

theorem fraction_lt (x : Binary64) : x.fraction < 2 ^ 52 := Nat.mod_lt _ (by decide)

theorem magnitude_cases (h : x.magnitude = .finite m e) :
    x.biased = 0 ∧ m = x.fraction ∧ e = -1074 ∨ 0 < x.biased ∧ m = x.fraction + 2 ^ 52 ∧
    e = x.biased - 1075 := by
  rw [magnitude] at h
  split at h
  · split at h <;> cases h
  · split at h
    · next h0 =>
      cases h
      exact .inl ⟨h0, rfl, rfl⟩
    · next h0 =>
      cases h
      exact .inr ⟨Nat.pos_of_ne_zero h0, rfl, rfl⟩

theorem normal_of_magnitude (h : x.magnitude = .finite m e) : Normal m e := by
  have := x.fraction_lt
  rcases magnitude_cases h with ⟨-, rfl, rfl⟩ | ⟨hpos, rfl, rfl⟩
  · exact ⟨by omega, le_refl _, .inr rfl⟩
  · exact ⟨by omega, by omega, .inl (by omega)⟩

/-- A finite number is known by its sign, mantissa and exponent. -/
theorem eq_of_magnitude (hx : x.magnitude = .finite m e) (hy : y.magnitude = .finite m e)
    (hn : x.negative = y.negative) : x = y := by
  have hx' := x.fraction_lt
  have hy' := y.fraction_lt
  have hparts : x.biased = y.biased ∧ x.fraction = y.fraction := by
    rcases magnitude_cases hx with hx | hx <;> rcases magnitude_cases hy with hy | hy <;> omega
  have hbits : x.bits.toNat = y.bits.toNat := by
    rw [bits_eq, bits_eq, hn, hparts.1, hparts.2]
  cases x
  cases y
  exact congrArg _ (UInt64.toNat_inj.1 hbits)

end ShaderLoom.Binary64

namespace ShaderLoom.Print

open Decimal

/-- A number that has a mantissa and an exponent. -/
def Finite (x : Binary64) : Prop := ∃ m e, x.magnitude = .finite m e

def signText (negative : Bool) : List Char := if negative then ['-'] else []

theorem exists_floatText {x : Binary64} {m : Nat} {e : Int} (hx : x.magnitude = .finite m e) :
    ∃ cs whole part,
    (floatText x).toList = signText x.negative ++ cs ∧ Pointed cs whole part ∧
      pointValue whole part = (shortest m e).value := by
  obtain ⟨whole, part, hpointed, hvalue⟩ := exists_pointed (shortest m e)
  refine ⟨_, whole, part, ?_, hpointed, hvalue⟩
  simp only [floatText, hx, signText]
  cases x.negative
  · rfl
  · rw [if_pos rfl, String.toList_append]
    rfl

/-- A digit begins what follows a sign. -/
theorem sign_unique {n n' : Bool} {cs cs' : List Char} (hcs : ∀ c ∈ cs.head?, c.isDigit = true)
    (hcs' : ∀ c ∈ cs'.head?, c.isDigit = true) (h : signText n ++ cs = signText n' ++ cs') :
    n = n' ∧ cs = cs' := by
  have hminus : ∀ {cs ds : List Char}, (∀ c ∈ cs.head?, c.isDigit = true) → cs ≠ '-' :: ds := by
    rintro cs ds hcs rfl
    exact absurd (hcs '-' rfl) (by decide)
  cases n <;> cases n'
  · exact ⟨rfl, h⟩
  · exact (hminus hcs h).elim
  · exact (hminus hcs' h.symm).elim
  · exact ⟨rfl, (List.cons.inj h).2⟩

/-- Finite numbers are told apart by their texts. -/
theorem eq_of_floatText {x y : Binary64} (hx : Finite x) (hy : Finite y)
    (h : floatText x = floatText y) : x = y := by
  obtain ⟨m, e, hx⟩ := hx
  obtain ⟨m', e', hy⟩ := hy
  obtain ⟨cs, whole, part, htext, hpointed, hvalue⟩ := exists_floatText hx
  obtain ⟨cs', whole', part', htext', hpointed', hvalue'⟩ := exists_floatText hy
  obtain ⟨hsign, hcs⟩ := sign_unique hpointed.head hpointed'.head (by rw [← htext, ← htext', h])
  obtain ⟨rfl, rfl⟩ := hpointed.unique (hcs ▸ hpointed')
  have hnormal := Binary64.normal_of_magnitude hx
  have hnormal' := Binary64.normal_of_magnitude hy
  have heq : m = m' ∧ e = e' := eq_of_shortest_value hnormal hnormal' (hvalue.symm.trans hvalue')
  exact Binary64.eq_of_magnitude hx (heq.1 ▸ heq.2 ▸ hy) hsign

end ShaderLoom.Print
