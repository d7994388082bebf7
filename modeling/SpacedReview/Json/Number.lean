import SpacedReview.Decimal.Shortest
import SpacedReview.Json.Basic

/-!
# Numbers of documents

A number token is read as a natural number only if it has neither sign, fraction nor exponent,
and as a float in any form. Reading a float keeps the leading digits that fit into 64 bits and
then multiplies or divides by a power of ten, so the last bit of long numerals can differ from
the nearest double; a number beyond the range of doubles is refused. Floats are written with the
fewest digits that single them out.
-/

namespace SpacedReview

namespace Json

/-- A float is written plainly from a hundred-thousandth up to ten quadrillion, and with a signed
    exponent elsewhere. -/
def floatLayout : Decimal.Layout :=
  { leastPlain := -5, mostPlain := 15, plusSign := some '+' }

/-- The document of a float; `null` stands for an infinity and for what is not a number. -/
def ofFloat (x : Float) : Json :=
  if x.isFinite then .number (floatLayout.token x) else .null

/-- Digits of the whole part, as long as they fit into 64 bits, and the number of those left. -/
def takeWhole (n : Nat) : List Char → Nat × Nat
  | [] => (n, 0)
  | d :: ds =>
    let m := n * 10 + Numeral.digitValue d
    if m ≤ Numeral.word64Limit then takeWhole m ds else (n, (d :: ds).length)

/-- Digits of the fraction, as long as they fit into 64 bits, and the number of those taken. -/
def takeFraction (n : Nat) : List Char → Nat × Nat
  | [] => (n, 0)
  | d :: ds =>
    let m := n * 10 + Numeral.digitValue d
    if m ≤ Numeral.word64Limit then ((takeFraction m ds).1, (takeFraction m ds).2 + 1) else (n, 0)

/-- The double nearest to a power of ten. -/
def powerOfTen (k : Nat) : Float :=
  Binary64.nearest false (Nat.pow 10 k) 1

/-- The float divided by a power of ten, in steps that doubles can hold. -/
def divideByPower (x : Float) (k : Nat) : Float :=
  if k ≤ 308 then x / powerOfTen k
  else if x == 0.0 then x
  else divideByPower (x / powerOfTen 308) (k - 308)
termination_by k

/-- The float times a power of ten, if it stays in range. -/
def scale? (x : Float) : Int → Option Float
  | .ofNat k =>
    if k ≤ 308 then
      let y := x * powerOfTen k
      if y.isInf then none else some y
    else if x == 0.0 then some x
    else none
  | .negSucc k => some (divideByPower x (k + 1))

/-- The value of an exponent. -/
def exponentValue : Option Decimal.TokenExponent → Int
  | none => 0
  | some e => if e.sign = some '-' then -(Numeral.value e.digits : Int) else Numeral.value e.digits

/-- The number as a float, if it is in range. -/
def tokenFloat? (t : Decimal.Token) : Option Float :=
  let (n, dropped) := takeWhole 0 t.whole
  let (n, taken) := takeFraction n t.fraction
  let magnitude := scale? (Binary64.nearest false n 1)
    ((dropped : Int) - taken + exponentValue t.exponent)
  magnitude.map fun x => if t.negative then -x else x

/-- The number as a natural number that fits into 64 bits. -/
def tokenNat? (t : Decimal.Token) : Option Nat :=
  if t.isWhole && !t.negative && Numeral.value t.whole ≤ Numeral.word64Limit then
    some (Numeral.value t.whole)
  else none

/-- The number as a signed integer that fits into 64 bits. A negative zero is none. -/
def tokenInt? (t : Decimal.Token) : Option Int :=
  let n := Numeral.value t.whole
  if !t.isWhole then none
  else if t.negative then
    if 0 < n ∧ n ≤ 0x8000000000000000 then some (-(n : Int)) else none
  else if n ≤ Numeral.word64Limit then some n
  else none

mutual

/-- Every string in the document has a text and every number is in range: a natural number of 64
    bits as it stands, and any other number as a float. -/
def isSound : Json → Bool
  | .number t => (tokenNat? t).isSome || (tokenFloat? t).isSome
  | .string s => s.isSome
  | .array items => areSoundItems items
  | .object fields => areSoundFields fields
  | _ => true

/-- Soundness of every item. -/
def areSoundItems : List Json → Bool
  | [] => true
  | j :: js => isSound j && areSoundItems js

/-- Soundness of every field and its name. -/
def areSoundFields : List (Literal × Json) → Bool
  | [] => true
  | (s, j) :: fs => s.isSome && isSound j && areSoundFields fs

end

end Json

end SpacedReview
