import SpacedReview.Decimal.Binary64
import SpacedReview.Text.Blank
import SpacedReview.Text.Numeral

/-!
# Reading a float

`readFloat?` accepts an optional sign and then either one of the words `inf`, `infinity` and
`nan` in any case, or digits with an optional point and an optional exponent, where a digit
stands on at least one side of the point. The result is the double nearest to the numeral.
-/

namespace SpacedReview

namespace Decimal

/-- A numeral taken apart: its value is `significand * 10 ^ exponent`. -/
structure Numeral10 where
  significand : Nat
  exponent : Int
deriving Repr, DecidableEq

/-- The double nearest to `significand * 10 ^ exponent`. Numerals whose leading digit stands
    beyond the range of doubles are settled without computing the power. -/
def nearestPower (negative : Bool) (n : Numeral10) : Float :=
  let top : Int := (Numeral.digits n.significand).length + n.exponent
  if n.significand = 0 ∨ top < -400 then Binary64.nearest negative 0 1
  else if 400 < top then Binary64.nearest negative (Nat.pow 2 1100) 1
  else
    match n.exponent with
    | .ofNat k => Binary64.nearest negative (n.significand * Nat.pow 10 k) 1
    | .negSucc k => Binary64.nearest negative n.significand (Nat.pow 10 (k + 1))

/-- The exponent part that ends a numeral: nothing, or `e` in either case, an optional sign and
    at least one digit. -/
def readExponent? : List Char → Option Int
  | [] => some 0
  | c :: r =>
    if c = 'e' ∨ c = 'E' then
      let (negative, ds) := match r with
        | '-' :: ds => (true, ds)
        | '+' :: ds => (false, ds)
        | ds => (false, ds)
      if ds ≠ [] ∧ ds.all Numeral.isDigit then
        some (if negative then -(Numeral.value ds : Int) else Numeral.value ds)
      else none
    else none

/-- An unsigned numeral with an optional point and an optional exponent. -/
def readNumeral? (cs : List Char) : Option Numeral10 := do
  let (whole, r) := Numeral.span cs
  let (fraction, r) := match r with
    | '.' :: r => Numeral.span r
    | r => ([], r)
  guard (whole ≠ [] ∨ fraction ≠ [])
  let e ← readExponent? r
  return ⟨Numeral.value (whole ++ fraction), e - fraction.length⟩

/-- A float from its text. -/
def readFloat? (s : String) : Option Float :=
  let (negative, cs) := match s.toList with
    | '-' :: r => (true, r)
    | '+' :: r => (false, r)
    | r => (false, r)
  let word := String.ofList (cs.map Text.foldChar)
  if word = "inf" ∨ word = "infinity" then some (Binary64.nearest negative (Nat.pow 2 1100) 1)
  else if word = "nan" then some (0.0 / 0.0)
  else (readNumeral? cs).map (nearestPower negative)

end Decimal

end SpacedReview
