import SpacedReview.Json.Number

/-!
# Decoding documents

Decoders are partial functions from documents. Records are decoded by way of `Json.Record`, which
stands for the two forms that a record can have: an object, whose unknown fields do not matter
and whose known fields occur once, or an array of the field values in the record's own order.
Four readers say what a field's absence means.

## Main definitions

- `Json.record?` — the record that a document is
- `Record.required?` — a field that must be there
- `Record.nullable?` — a field that may be `null`, or missing from an object
- `Record.optional?` — a field that may be `null` or missing
- `Record.defaulted?` — a field with a value to fall back on
-/

namespace SpacedReview

namespace Json

/-- A Boolean. -/
def bool? : Json → Option Bool
  | .bool b => some b
  | _ => none

/-- A text. -/
def text? : Json → Option String
  | .string s => s
  | _ => none

/-- A natural number that fits into 32 bits. -/
def word32? : Json → Option UInt32
  | .number t =>
    (tokenNat? t).bind fun n =>
      if n ≤ Numeral.word32Limit then some (UInt32.ofNat n) else none
  | _ => none

/-- A natural number that fits into 64 bits. -/
def word64? : Json → Option UInt64
  | .number t => (tokenNat? t).map UInt64.ofNat
  | _ => none

/-- A number as a float. -/
def float? : Json → Option Float
  | .number t => tokenFloat? t
  | _ => none

/-- A list of decoded items. -/
def list? {α : Type} (item : Json → Option α) : Json → Option (List α)
  | .array items => items.mapM item
  | _ => none

/-- An optional value, `null` for none. -/
def option? {α : Type} (value : Json → Option α) : Json → Option (Option α)
  | .null => some none
  | j => (value j).map some

/-- One of some named values, either by its name or as an object with the name as its only
    field and `null` for its value. -/
def named? {α : Type} (name : α → String) (values : List α) : Json → Option α
  | .string (some s) => values.find? fun a => name a = s
  | .object [(some s, .null)] => values.find? fun a => name a = s
  | _ => none

/-- A record on its way to being decoded. -/
structure Record where
  /-- The known fields that are there. -/
  fields : List (String × Json)
  /-- The record was written as an array. -/
  listed : Bool

/-- The known fields of an object, or nothing if one is repeated or some name is no text. -/
def knownFields? (names : List String) : List (Literal × Json) → Option (List (String × Json))
  | [] => some []
  | (none, _) :: _ => none
  | (some s, j) :: fs => do
    let rest ← knownFields? names fs
    if s ∈ names then
      if rest.any fun f => f.1 = s then none else return (s, j) :: rest
    else return rest

/-- The record with the given field names that a document is. -/
def record? (names : List String) : Json → Option Record
  | .object fields => (knownFields? names fields).map fun fs => ⟨fs, false⟩
  | .array items => if items.length ≤ names.length then some ⟨names.zip items, true⟩ else none
  | _ => none

namespace Record

/-- The value of a field, if it is there. -/
def find? (r : Record) (name : String) : Option Json :=
  (r.fields.find? fun f => f.1 = name).map (·.2)

/-- A field that must be there. -/
def required? {α : Type} (r : Record) (name : String) (decode : Json → Option α) : Option α :=
  (r.find? name).bind decode

/-- A field that may be `null`. It may be missing from an object, not from an array. -/
def nullable? {α : Type} (r : Record) (name : String) (decode : Json → Option α) :
    Option (Option α) :=
  match r.find? name with
  | some j => option? decode j
  | none => if r.listed then none else some none

/-- A field that may be `null` or missing. -/
def optional? {α : Type} (r : Record) (name : String) (decode : Json → Option α) :
    Option (Option α) :=
  match r.find? name with
  | some j => option? decode j
  | none => some none

/-- A field that has a value when it is missing. -/
def defaulted? {α : Type} (r : Record) (name : String) (default : α)
    (decode : Json → Option α) : Option α :=
  match r.find? name with
  | some j => decode j
  | none => some default

end Record

end Json

end SpacedReview
