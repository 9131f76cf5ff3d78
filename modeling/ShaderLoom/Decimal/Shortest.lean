import ShaderLoom.Decimal.Binary64

/-! The fewest decimal digits that read back as a given double. For one digit, two digits and so on,
the two neighbours of the value on that decimal grid are tested against the interval of reals that
round to it; the first grid with a hit wins, the nearer neighbour before the farther, an exact tie
going to the even digit. -/
namespace ShaderLoom.Decimal

/-- The value `digits * 10 ^ exponent`. -/
structure Scientific where
  digits : Nat
  exponent : Int
  deriving DecidableEq, Repr

/-- A positive decimal without trailing zeros in its digits. -/
def Scientific.trim : Nat → Scientific → Scientific
  | 0, s => s
  | n + 1, s =>
    if s.digits ≠ 0 ∧ s.digits % 10 = 0 then trim n ⟨s.digits / 10, s.exponent + 1⟩ else s

def digitText (n : Nat) : List Char := Nat.toDigits 10 n

/-- The least `p` with `num / den < 10 ^ p`, for a positive quotient. -/
def pointPosition (num den : Nat) : Int :=
  if den ≤ num then (digitText (num / den)).length
  else
    let z := (digitText (den / num)).length - 1
    if den ≤ num * Nat.pow 10 z then 1 - (z : Int) else -(z : Int)

/-- An interval of quotients over one denominator, its ends included or not. -/
structure Rounding where
  low : Nat
  value : Nat
  high : Nat
  den : Nat
  closed : Bool

/-- The reals that round to `mantissa * 2 ^ exponent`, in quarters of its last place. The gap below
a power of two is half as wide. -/
def Rounding.of (mantissa : Nat) (exponent : Int) : Rounding :=
  let e := exponent - 2
  let up := if 0 ≤ e then 1 <<< e.toNat else 1
  let den := if 0 ≤ e then 1 else 1 <<< (-e).toNat
  let below := if mantissa = 1 <<< 52 ∧ -1074 < exponent then 1 else 2
  { low := (4 * mantissa - below) * up, value := 4 * mantissa * up, high := (4 * mantissa + 2) * up,
    den, closed := mantissa % 2 = 0 }

/-- Does the grid point `d * up / down` round to the value? -/
def Rounding.holds (r : Rounding) (d up down : Nat) : Bool :=
  let x := d * up * r.den
  if r.closed then r.low * down ≤ x && x ≤ r.high * down
  else r.low * down < x && x < r.high * down

/-- The best decimal with `k` digits, if one rounds to the value. -/
def Rounding.withDigits (r : Rounding) (p : Int) (k : Nat) : Option Scientific :=
  let g := p - k
  let up := if 0 ≤ g then Nat.pow 10 g.toNat else 1
  let down := if 0 ≤ g then 1 else Nat.pow 10 (-g).toNat
  let d := r.value * down / (r.den * up)
  let rest := r.value * down % (r.den * up)
  let nearUp := if 2 * rest = r.den * up then d % 2 = 1 else r.den * up < 2 * rest
  let downHit := r.holds d up down
  let upHit := r.holds (d + 1) up down
  if downHit && !(upHit && nearUp) then some ⟨d, g⟩
  else if upHit then some ⟨d + 1, g⟩
  else none

/-- The shortest decimal that reads back as `mantissa * 2 ^ exponent`. -/
def shortest (mantissa : Nat) (exponent : Int) : Scientific :=
  if mantissa = 0 then ⟨0, 0⟩
  else
    let r := Rounding.of mantissa exponent
    let p := pointPosition r.value r.den
    let found := (List.range 17).findSome? fun k => r.withDigits p (k + 1)
    Scientific.trim 20 (found.getD ⟨0, 0⟩)

/-- Positional notation: no exponent, a point only before a fraction. -/
def positional (s : Scientific) : String :=
  let ds := digitText s.digits
  if 0 ≤ s.exponent then String.ofList (ds ++ List.replicate s.exponent.toNat '0')
  else
    let n := (-s.exponent).toNat
    let padded := List.replicate (n + 1 - ds.length) '0' ++ ds
    String.ofList (padded.take (padded.length - n) ++ '.' :: padded.drop (padded.length - n))

/-- One digit, the other digits after a point, and the signed exponent of ten. -/
def exponential (s : Scientific) : String :=
  let ds := digitText s.digits
  let e := s.exponent + (ds.length - 1 : Nat)
  let tail := if ds.length ≤ 1 then [] else '.' :: ds.drop 1
  let mark := if e < 0 then ['e', '-'] else ['e', '+']
  String.ofList (ds.take 1 ++ tail ++ mark ++ digitText e.natAbs)

example : shortest (2 ^ 52) (-52) = ⟨1, 0⟩ := by decide +kernel
example : positional ⟨15, -1⟩ = "1.5" := by decide +kernel

end ShaderLoom.Decimal
