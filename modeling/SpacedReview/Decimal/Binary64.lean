/-!
# Double-precision numbers as exact ratios

A finite `Float` is a whole number times a power of two. `magnitude` takes a float apart in
that form, and `nearest` goes the other way: it is the double closest to a ratio of two natural
numbers, a tie going to the even significand. `order` is the total order in which numbers of
every kind can be sorted.
-/

namespace SpacedReview

namespace Binary64

/-- The bit that tells the sign of a double. -/
def signBit : Nat := 0x8000000000000000

/-- The leading bit of a significand, which is not stored. -/
def leadingBit : Nat := 0x10000000000000

/-- The quotient rounded to the nearest whole number, a tie going to the even one. -/
def divRound (num den : Nat) : Nat :=
  let q := num / den
  let r := num % den
  if den < 2 * r ∨ (den = 2 * r ∧ q % 2 = 1) then q + 1 else q

/-- The sign bit, which distinguishes the two zeros. -/
def isNegative (x : Float) : Bool :=
  signBit ≤ x.toBits.toNat

/-- The absolute value of a finite float as a significand and a power of two. -/
def magnitude (x : Float) : Nat × Int :=
  let bits : Nat := x.toBits.toNat % signBit
  let exponent : Nat := bits / leadingBit
  let fraction : Nat := bits % leadingBit
  if exponent = 0 then (fraction, -1074)
  else (fraction + leadingBit, (exponent : Int) - 1075)

/-- The absolute value of a finite float as a numerator and a denominator. -/
def ratio (x : Float) : Nat × Nat :=
  match magnitude x with
  | (m, .ofNat e) => (m * Nat.pow 2 e, 1)
  | (m, .negSucc e) => (m, Nat.pow 2 (e + 1))

/-- The bits of the double nearest to a positive ratio, sign apart. The significand is cut at
    53 bits, or earlier where the smallest subnormal sets the unit, and a carry out of it moves
    into the exponent field by plain addition. -/
def nearestBits (num den : Nat) : Nat :=
  let guess : Int := (num.log2 : Int) - (den.log2 : Int)
  let atLeast : Bool :=
    match guess with
    | .ofNat k => den * Nat.pow 2 k ≤ num
    | .negSucc k => den ≤ num * Nat.pow 2 (k + 1)
  let top : Int := if atLeast then guess else guess - 1
  let unit : Int := max (top - 52) (-1074)
  let significand :=
    match unit with
    | .ofNat k => divRound num (den * Nat.pow 2 k)
    | .negSucc k => divRound (num * Nat.pow 2 (k + 1)) den
  min ((unit + 1074).toNat * leadingBit + significand) (2047 * leadingBit)

/-- The double nearest to `num / den`, with the given sign; beyond the largest double it is an
    infinity. -/
def nearest (negative : Bool) (num den : Nat) : Float :=
  let bits := if num = 0 then 0 else nearestBits num den
  Float.ofBits (UInt64.ofNat (bits + if negative then signBit else 0))

/-- The place of a float in the total order of all floats: by value, with minus zero below zero
    and what is not a number below them all. That is its place when its sign bit is set, as it is
    in the results of invalid operations on common machines. With a clear sign bit its place would
    be above all numbers, but a `Float` does not tell the two apart. -/
def order (x : Float) : Int :=
  if x.isNaN then -0x10000000000000000
  else
    let bits : Int := (x.toBits.toNat % signBit : Nat)
    if isNegative x then -bits - 1 else bits

/-- The larger of two floats; a number is preferred to what is not a number. -/
def larger (x y : Float) : Float :=
  if x.isNaN then y else if x < y then y else x

/-- The smaller of two floats; a number is preferred to what is not a number. -/
def smaller (x y : Float) : Float :=
  if x.isNaN then y else if y < x then y else x

/-- The float moved into an interval; what is not a number stays what it is. -/
def clamp (low high x : Float) : Float :=
  if x < low then low else if high < x then high else x

end Binary64

end SpacedReview
