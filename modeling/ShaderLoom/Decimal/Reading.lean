import ShaderLoom.Decimal.Binary64

/-! Reading decimal text as the nearest double, or as the nearest one of single precision. Exponents
far outside the range are answered without forming the power of ten. -/
namespace ShaderLoom.Decimal

/-- A sign, the digits without their point, and the power of ten that scales them. -/
structure Literal where
  negative : Bool
  digits : List Char
  exponent : Int

def digitsValue (cs : List Char) : Nat :=
  cs.foldl (fun n c => 10 * n + (c.toNat - '0'.toNat)) 0

/-- Splits `-12.5e3` into its parts; the text is already known to be a number. -/
def Literal.ofChars (cs : List Char) : Literal :=
  let negative := cs.head? == some '-'
  let cs := if negative then cs.drop 1 else cs
  let whole := cs.takeWhile Char.isDigit
  let cs := cs.drop whole.length
  let part := if cs.head? == some '.' then (cs.drop 1).takeWhile Char.isDigit else []
  let cs := if cs.head? == some '.' then cs.drop (1 + part.length) else cs
  let mark := cs.head? == some 'e' || cs.head? == some 'E'
  let cs := if mark then cs.drop 1 else []
  let down := cs.head? == some '-'
  let cs := if down || cs.head? == some '+' then cs.drop 1 else cs
  let e : Int := digitsValue cs
  ⟨negative, whole ++ part, (if down then -e else e) - part.length⟩

/-- The number that `nearest` finds for the value of a literal. -/
def Literal.round? (l : Literal) (nearest : Bool → Nat → Nat → Option Binary64) : Option Binary64 :=
  let digits := l.digits.dropWhile (· == '0')
  let n := digitsValue digits
  if n = 0 then some (.ofParts l.negative 0)
  else
    let top := l.exponent + digits.length
    if 310 < top then none
    else if top < -330 then some (.ofParts l.negative 0)
    else if 0 ≤ l.exponent then nearest l.negative (n * Nat.pow 10 l.exponent.toNat) 1
    else nearest l.negative n (Nat.pow 10 (-l.exponent).toNat)

/-- The nearest double, `none` when it lies beyond the largest finite one. -/
def binary64? (text : String) : Option Binary64 :=
  (Literal.ofChars text.toList).round? Binary64.ofRatio?

/-- The nearest number of single precision, rounded once. -/
def single? (text : String) : Option Binary64 :=
  (Literal.ofChars text.toList).round? Binary64.singleOfRatio?

example : (binary64? "0.5").map (·.bits) = some 0x3fe0000000000000 := by decide +kernel
example : binary64? "1e400" = none := by decide +kernel
example : single? "1.0000000596046448" = binary64? "1.00000011920928955078125" := by decide +kernel

end ShaderLoom.Decimal
