/-! Double-precision numbers as bit patterns. A finite number is read as `mantissa * 2 ^ exponent`,
so that everything about its text is exact arithmetic on natural numbers. -/
namespace ShaderLoom

/-- A 64-bit binary floating point number, told apart from any other by its bits. -/
structure Binary64 where
  bits : UInt64
  deriving DecidableEq, Repr, Inhabited

namespace Binary64

/-- The magnitude of a number: not a number, infinite, or `mantissa * 2 ^ exponent`. -/
inductive Magnitude where
  | nan
  | infinite
  | finite (mantissa : Nat) (exponent : Int)
  deriving DecidableEq, Repr

def negative (x : Binary64) : Bool := 1 <<< 63 ≤ x.bits.toNat

/-- The eleven exponent bits as they stand in the pattern. -/
def biased (x : Binary64) : Nat := (x.bits.toNat >>> 52) % 2048

def fraction (x : Binary64) : Nat := x.bits.toNat % (1 <<< 52)

def magnitude (x : Binary64) : Magnitude :=
  if x.biased = 2047 then (if x.fraction = 0 then .infinite else .nan)
  else if x.biased = 0 then .finite x.fraction (-1074)
  else .finite (x.fraction + (1 <<< 52)) (x.biased - 1075)

/-- The pattern with a sign and the 63 bits below it. -/
def ofParts (negative : Bool) (rest : Nat) : Binary64 :=
  ⟨UInt64.ofNat ((if negative then 1 <<< 63 else 0) + rest)⟩

def infinity (negative : Bool) : Binary64 := ofParts negative (2047 <<< 52)

def nan : Binary64 := ofParts false ((2047 <<< 52) + (1 <<< 51))

def zero : Binary64 := ofParts false 0

/-- A quotient rounded to a natural number, a half going to the even neighbour. -/
def roundDiv (num den : Nat) : Nat :=
  let q := num / den
  let r := num % den
  if 2 * r < den then q
  else if den < 2 * r then q + 1
  else if q % 2 = 0 then q else q + 1

/-- The exponent of the power of two just below or at a positive quotient. -/
def floorLog2 (num den : Nat) : Int :=
  let guess : Int := (Nat.log2 num : Int) - Nat.log2 den
  let below := if 0 ≤ guess then den <<< guess.toNat ≤ num else den ≤ num <<< (-guess).toNat
  if below then guess else guess - 1

/-- `num / den` divided by `2 ^ e` and rounded. -/
def roundScaled (num den : Nat) (e : Int) : Nat :=
  if 0 ≤ e then roundDiv num (den <<< e.toNat) else roundDiv (num <<< (-e).toNat) den

/-- The number nearest to `num / den`, `none` beyond the largest finite one. The mantissa is added
to the shifted exponent, so that rounding up to the next power of two carries into the exponent. -/
def ofRatio? (negative : Bool) (num den : Nat) : Option Binary64 :=
  if num = 0 then some (ofParts negative 0)
  else
    let e := max (floorLog2 num den - 52) (-1074)
    let m := roundScaled num den e
    let rest := ((e + 1074).toNat <<< 52) + m
    if rest < 2047 <<< 52 then some (ofParts negative rest) else none

/-- The number nearest to `num / den` of those with a 24-bit mantissa and the exponent range of the
32-bit format, `none` beyond the largest of them. -/
def singleOfRatio? (negative : Bool) (num den : Nat) : Option Binary64 :=
  if num = 0 then some (ofParts negative 0)
  else
    let e := max (floorLog2 num den - 23) (-149)
    let m := roundScaled num den e
    if 0 ≤ e then
      let n := m <<< e.toNat
      if n < 1 <<< 128 then ofRatio? negative n 1 else none
    else ofRatio? negative m (1 <<< (-e).toNat)

example : (ofRatio? false 1 1).map bits = some 0x3ff0000000000000 := by decide
example : (ofRatio? true 5 2).map bits = some 0xc004000000000000 := by decide
example : magnitude ⟨0x3ff0000000000000⟩ = .finite (2 ^ 52) (-52) := by decide

end Binary64
end ShaderLoom
