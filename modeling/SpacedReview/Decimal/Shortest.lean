import SpacedReview.Decimal.Rounded
import SpacedReview.Decimal.Token

/-!
# The shortest numeral of a float

A decimal numeral reads back as a float `x` exactly when it lies in the interval of reals that
round to `x`. `shortest` looks for the fewest significant digits with a numeral in that interval,
and takes the one nearest to `x` among those. `Layout` holds the choices of one written format,
and `Layout.token` is a float written in it.
-/

namespace SpacedReview

namespace Decimal

/-- The reals that round to a positive float, as numerators over one denominator. The float
    itself is `4 * m` quarter units; the neighbour below is only half as far away where the
    significand is a power of two. -/
structure RoundingInterval where
  low : Nat
  value : Nat
  high : Nat
  den : Nat
  /-- Both ends belong to the interval. -/
  closed : Bool
deriving Repr, DecidableEq

/-- The rounding interval of a positive finite float. -/
def RoundingInterval.of (x : Float) : RoundingInterval :=
  let (m, e) := Binary64.magnitude x
  let below := if m = Binary64.leadingBit ∧ -1074 < e then 1 else 2
  let (scale, den) : Nat × Nat :=
    match e - 2 with
    | .ofNat k => (Nat.pow 2 k, 1)
    | .negSucc k => (1, Nat.pow 2 (k + 1))
  { low := (4 * m - below) * scale, value := 4 * m * scale, high := (4 * m + 2) * scale,
    den, closed := m % 2 = 0 }

/-- Membership of `num / den` in the interval. -/
def RoundingInterval.contains (i : RoundingInterval) (num den : Nat) : Bool :=
  let n := num * i.den
  if i.closed then i.low * den ≤ n && n ≤ i.high * den
  else i.low * den < n && n < i.high * den

/-- A multiple of a power of ten as a ratio. -/
def timesPower (n : Nat) : Int → Nat × Nat
  | .ofNat k => (n * Nat.pow 10 k, 1)
  | .negSucc k => (n, Nat.pow 10 (k + 1))

/-- The multiple of `10 ^ power` that lies in the interval, the nearer of the two around the
    value if both do, and the even one of two equally near. -/
def RoundingInterval.onGrid? (i : RoundingInterval) (power : Int) : Option Nat :=
  let (n, d) := overPower i.value i.den power
  let down := n / d
  let up := down + 1
  let isIn (k : Nat) : Bool := let (a, b) := timesPower k power; i.contains a b
  match isIn down, isIn up with
  | false, false => none
  | true, false => some down
  | false, true => some up
  | true, true =>
    let r := n % d
    if 2 * r < d ∨ (2 * r = d ∧ down % 2 = 0) then some down else some up

/-- The first grid, from coarse to fine, that has a point in the interval, as that point's
    numeral and the power of ten of its last digit. -/
def RoundingInterval.search (i : RoundingInterval) (top : Int) : Nat → Nat → Nat × Int
  | _, 0 => (0, 0)
  | count, fuel + 1 =>
    let power := top - (count : Int) + 1
    match i.onGrid? power with
    | some n => (n, power)
    | none => i.search top (count + 1) fuel

/-- The numeral without the zeros at its end. -/
def dropTrailingZeros (ds : List Char) : List Char :=
  (ds.reverse.dropWhile (· == '0')).reverse

/-- The fewest digits that read back as a positive finite float, and the power of ten of the
    first of them. Seventeen digits always suffice. -/
def shortest (x : Float) : List Char × Int :=
  let i := RoundingInterval.of x
  let (n, power) := i.search (leadingPower i.value i.den) 1 17
  let ds := Numeral.digits n
  (dropTrailingZeros ds, power + (ds.length : Int) - 1)

/-- How a written format places the point. -/
structure Layout where
  /-- The least power of ten of the leading digit that is written without an exponent. -/
  leastPlain : Int
  /-- The greatest such power. -/
  mostPlain : Int
  /-- Written in front of an exponent that is not negative. -/
  plusSign : Option Char
deriving Repr, DecidableEq

/-- The whole part and the fraction of digits whose first one stands at a power of ten. There is a
    digit on both sides of the point. -/
def aroundPoint (ds : List Char) (top : Int) : List Char × List Char :=
  match top with
  | .ofNat k =>
    let whole := ds.take (k + 1)
    let fraction := ds.drop (k + 1)
    (whole ++ List.replicate (k + 1 - whole.length) '0',
      if fraction = [] then ['0'] else fraction)
  | .negSucc k => (['0'], List.replicate k '0' ++ ds)

/-- A finite float in the format: the shortest digits, with an exponent only outside the plain
    range, and with no point after a lone digit in front of an exponent. -/
def Layout.token (l : Layout) (x : Float) : Token :=
  let negative := Binary64.isNegative x
  if (Binary64.magnitude x).1 = 0 then
    { negative, whole := ['0'], fraction := ['0'], exponent := none }
  else
    let (ds, top) := shortest x
    if l.leastPlain ≤ top ∧ top ≤ l.mostPlain then
      let (whole, fraction) := aroundPoint ds top
      { negative, whole, fraction, exponent := none }
    else
      { negative, whole := ds.take 1, fraction := ds.drop 1,
        exponent := some ⟨if top < 0 then some '-' else l.plusSign, Numeral.digits top.natAbs⟩ }

end Decimal

end SpacedReview
