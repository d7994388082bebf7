import SpacedReview.Decimal.Token

/-!
# JSON documents

A `Json` is a document as it is written: numbers keep their digits, and objects keep their fields
in order, repeated names included. A string literal can name half of a surrogate pair, which is
no character; such a literal has no text, and `Literal` is what is left of it.
-/

namespace SpacedReview

namespace Json

/-- A string literal: its text, or nothing if an escape in it names no character. -/
abbrev Literal := Option String

end Json

/-- A document. -/
inductive Json where
  | null
  | bool (b : Bool)
  | number (token : Decimal.Token)
  | string (literal : Json.Literal)
  | array (items : List Json)
  | object (fields : List (Json.Literal × Json))
deriving Repr, Inhabited

namespace Json

/-- The document of a text. -/
def ofString (s : String) : Json :=
  .string (some s)

/-- The document of a natural number. -/
def ofNat (n : Nat) : Json :=
  .number (.ofNat n)

/-- The document of a record: its fields in order, those without a value left out. -/
def ofFields (fields : List (String × Option Json)) : Json :=
  .object (fields.filterMap fun f => f.2.map fun v => (some f.1, v))

/-- The document of an optional value, `null` for none. -/
def ofOption {α : Type} (encode : α → Json) : Option α → Json
  | none => .null
  | some a => encode a

mutual

/-- The number of arrays and objects that enclose the innermost value, the document itself
    included. -/
def depth : Json → Nat
  | .array items => depthItems items + 1
  | .object fields => depthFields fields + 1
  | _ => 0

/-- The greatest depth of some items. -/
def depthItems : List Json → Nat
  | [] => 0
  | j :: js => max (depth j) (depthItems js)

/-- The greatest depth of some fields. -/
def depthFields : List (Literal × Json) → Nat
  | [] => 0
  | (_, j) :: fs => max (depth j) (depthFields fs)

end

end Json

end SpacedReview
