/-! A permuted congruential generator with 128 bits of state and 64 bits of output, and what is
drawn from it: numbers below a bound, and shuffles. -/
namespace ShaderLoom

structure Pcg where
  high : UInt64
  low : UInt64
  deriving DecidableEq, Repr

namespace Pcg

def multiplier : Nat := (2549297995355413924 <<< 64) + 4865540595714422341

def increment : Nat := (6364136223846793005 <<< 64) + 1442695040888963407

/-- One step of the congruence, modulo 2^128. -/
def advance (g : Pcg) : Pcg :=
  let n := (((g.high.toNat <<< 64) + g.low.toNat) * multiplier + increment) % (1 <<< 128)
  ⟨UInt64.ofNat (n >>> 64), UInt64.ofNat (n % (1 <<< 64))⟩

/-- The output that a state stands for. -/
def output (g : Pcg) : UInt64 :=
  let h := g.high ^^^ (g.high >>> 32)
  let h := h * 0xda942042e4dd58b5
  let h := h ^^^ (h >>> 48)
  h * (g.low ||| 1)

def next (g : Pcg) : UInt64 × Pcg := (g.advance.output, g.advance)

/-- Draws until the low half of the product with `n` is at least `least`, and answers with its high
half. A draw is refused with a chance below `n / 2^64`, so the bound on draws is never met. -/
def multiplied (n least : Nat) : Nat → Pcg → Nat × Pcg
  | 0, g => (0, g)
  | draws + 1, g =>
    let (x, g) := g.next
    let product := x.toNat * n
    if product % (1 <<< 64) < least then multiplied n least draws g else (product >>> 64, g)

/-- A number below `n`: the low bits of a draw for a power of two, and the high half of a product,
free of bias, for any other. -/
def below (n : Nat) (g : Pcg) : Nat × Pcg :=
  if n = 1 <<< n.log2 then
    let (x, g) := g.next
    (x.toNat % n, g)
  else multiplied n ((1 <<< 64) % n) 1000 g

/-- Exchanges each place from the last down with one at or before it. -/
def shuffleFrom {α : Type} : Nat → Array α → Pcg → Array α
  | 0, xs, _ => xs
  | i + 1, xs, g =>
    let (j, g) := g.below (i + 2)
    shuffleFrom i (xs.swapIfInBounds (i + 1) j) g

/-- A list in an order that depends on the seed and the length alone. -/
def shuffle {α : Type} (seed : UInt64) (xs : List α) : List α :=
  (shuffleFrom (xs.length - 1) xs.toArray ⟨seed, seed⟩).toList

end Pcg
end ShaderLoom
