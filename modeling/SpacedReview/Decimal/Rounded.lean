import SpacedReview.Decimal.Binary64
import SpacedReview.Text.Numeral

/-!
# Floats rounded to a number of digits

`scientific` writes a float with a fixed number of significant digits and `fixed` with a fixed
number of places after the point. Both round the exact binary value, a tie going to the even
digit, and both write zeros without a sign only when the number has none.
-/

namespace SpacedReview

namespace Decimal

/-- The power of ten of the leading digit of a positive ratio. Counting digits decides it above
    one; below one it is the number of tenfold steps that reach one. -/
def leadingPower (num den : Nat) : Int :=
  if den ≤ num then ((Numeral.digits (num / den)).length : Int) - 1
  else
    -- One over the ratio lies between `10 ^ (n - 1)` and `10 ^ n` for a count `n` of its digits.
    let n := (Numeral.digits (den / num)).length
    if den ≤ num * Nat.pow 10 (n - 1) then 1 - (n : Int) else -(n : Int)

/-- The ratio over a power of ten, as a ratio. -/
def overPower (num den : Nat) : Int → Nat × Nat
  | .ofNat k => (num, den * Nat.pow 10 k)
  | .negSucc k => (num * Nat.pow 10 (k + 1), den)

/-- The first `count` significant digits of a positive ratio, rounded, with the power of ten of
    the first of them. A carry that lengthens the numeral moves the power up. -/
def significant (count num den : Nat) : List Char × Int :=
  let top := leadingPower num den
  let (n, d) := overPower num den (top - (count : Int) + 1)
  let ds := Numeral.digits (Binary64.divRound n d)
  if ds.length ≤ count then (ds, top) else (ds.take count, top + 1)

/-- A text for a float that is no finite number. -/
def nonFinite (x : Float) : String :=
  if x.isNaN then "NaN" else if x < 0 then "-inf" else "inf"

/-- The float in scientific notation: one digit, a point, `count - 1` more digits, `e`, and the
    power of ten without padding. -/
def scientific (count : Nat) (x : Float) : String :=
  if !x.isFinite then nonFinite x
  else
    let sign := if Binary64.isNegative x then "-" else ""
    let (num, den) := Binary64.ratio x
    let (ds, power) := if num = 0 then (List.replicate count '0', 0) else significant count num den
    sign ++ String.ofList (ds.take 1) ++ (if count ≤ 1 then "" else ".") ++
      String.ofList (ds.drop 1) ++ "e" ++ Numeral.signedText power

/-- The float with `places` digits after the point, and no point when there are none. -/
def fixed (places : Nat) (x : Float) : String :=
  if !x.isFinite then nonFinite x
  else
    let sign := if Binary64.isNegative x then "-" else ""
    let (num, den) := Binary64.ratio x
    let ds := Numeral.padded (places + 1) (Binary64.divRound (num * Nat.pow 10 places) den)
    let whole := ds.length - places
    sign ++ String.ofList (ds.take whole) ++ (if places = 0 then "" else ".") ++
      String.ofList (ds.drop whole)

end Decimal

end SpacedReview
