import SpacedReview.Json.Basic

/-!
# Reading documents

`Json.read?` reads a whole text as one document with blanks around its tokens. It refuses control
characters in strings, unknown escapes, numbers with leading zeros or without digits where digits
belong, and anything after the document.
-/

namespace SpacedReview

namespace Json

/-- The blanks between tokens: space, tab, line feed and carriage return. -/
def isSpace (c : Char) : Bool :=
  c == ' ' || c == '\t' || c == '\n' || c == '\r'

/-- Everything from the first character that is no blank. -/
def skipSpace (cs : List Char) : List Char :=
  cs.dropWhile isSpace

/-- The value of a hexadecimal digit in either case. -/
def hexValue? (c : Char) : Option Nat :=
  if '0' ≤ c ∧ c ≤ '9' then some (c.toNat - '0'.toNat)
  else if 'a' ≤ c ∧ c ≤ 'f' then some (c.toNat - 'a'.toNat + 10)
  else if 'A' ≤ c ∧ c ≤ 'F' then some (c.toNat - 'A'.toNat + 10)
  else none

/-- The code unit of four hexadecimal digits. -/
def codeUnit? (a b c d : Char) : Option Nat := do
  let a ← hexValue? a
  let b ← hexValue? b
  let c ← hexValue? c
  let d ← hexValue? d
  return ((a * 16 + b) * 16 + c) * 16 + d

/-- The first half of a surrogate pair. -/
def isHighSurrogate (n : Nat) : Bool :=
  0xD800 ≤ n && n < 0xDC00

/-- The second half of a surrogate pair. -/
def isLowSurrogate (n : Nat) : Bool :=
  0xDC00 ≤ n && n < 0xE000

/-- The character of a surrogate pair. -/
def pairChar (high low : Nat) : Char :=
  Char.ofNat (0x10000 + (high - 0xD800) * 0x400 + (low - 0xDC00))

/-- The character that a one-letter escape stands for. -/
def escaped? (c : Char) : Option Char :=
  match c with
  | '"' => some '"'
  | '\\' => some '\\'
  | '/' => some '/'
  | 'b' => some (Char.ofNat 8)
  | 'f' => some (Char.ofNat 12)
  | 'n' => some '\n'
  | 'r' => some '\r'
  | 't' => some '\t'
  | _ => none

/-- What a string literal is made of: characters, and code units written as numbers. -/
inductive Piece where
  | char (c : Char)
  | unit (n : Nat)
deriving Repr, DecidableEq

/-- The pieces of a string literal up to its closing quote, in reverse and in front of those
    read before, and the rest. -/
def readPieces? (done : List Piece) : List Char → Option (List Piece × List Char)
  | [] => none
  | '"' :: r => some (done, r)
  | '\\' :: 'u' :: a :: b :: c :: d :: r =>
    match codeUnit? a b c d with
    | none => none
    | some n => readPieces? (.unit n :: done) r
  | '\\' :: c :: r =>
    match escaped? c with
    | none => none
    | some c => readPieces? (.char c :: done) r
  | c :: r => if c.toNat < 0x20 then none else readPieces? (.char c :: done) r

/-- The text of reversed pieces in front of the characters after them. A second half of a pair
    waits for the first half in front of it. -/
def joinPieces? (done : List Char) : List Piece → Option (List Char)
  | [] => some done
  | .char c :: ps => joinPieces? (c :: done) ps
  | .unit m :: .unit n :: ps =>
    if isLowSurrogate m then
      if isHighSurrogate n then joinPieces? (pairChar n m :: done) ps else none
    else if isHighSurrogate m then none
    else joinPieces? (Char.ofNat m :: done) (.unit n :: ps)
  | .unit m :: ps =>
    if isLowSurrogate m || isHighSurrogate m then none
    else joinPieces? (Char.ofNat m :: done) ps

/-- The rest of a string literal after its opening quote. -/
def readLiteral? (cs : List Char) : Option (Literal × List Char) :=
  (readPieces? [] cs).map fun (ps, r) => ((joinPieces? [] ps).map String.ofList, r)

mutual

/-- The value at the front of a text, and the rest. -/
def readValue? : Nat → List Char → Option (Json × List Char)
  | 0, _ => none
  | fuel + 1, cs =>
    match skipSpace cs with
    | 'n' :: 'u' :: 'l' :: 'l' :: r => some (.null, r)
    | 't' :: 'r' :: 'u' :: 'e' :: r => some (.bool true, r)
    | 'f' :: 'a' :: 'l' :: 's' :: 'e' :: r => some (.bool false, r)
    | '"' :: r => (readLiteral? r).map fun (s, r) => (.string s, r)
    | '[' :: r =>
      match skipSpace r with
      | ']' :: r => some (.array [], r)
      | _ => (readItems? fuel r).map fun (js, r) => (.array js, r)
    | '\x7b' :: r =>
      match skipSpace r with
      | '\x7d' :: r => some (.object [], r)
      | _ => (readFields? fuel r).map fun (fs, r) => (.object fs, r)
    | r => (Decimal.Token.read? r).map fun (t, r) => (.number t, r)

/-- Items up to the closing bracket, and the rest. -/
def readItems? : Nat → List Char → Option (List Json × List Char)
  | 0, _ => none
  | fuel + 1, cs => do
    let (j, r) ← readValue? fuel cs
    match skipSpace r with
    | ',' :: r => (readItems? fuel r).map fun (js, r) => (j :: js, r)
    | ']' :: r => some ([j], r)
    | _ => none

/-- Fields up to the closing brace, and the rest. -/
def readFields? : Nat → List Char → Option (List (Literal × Json) × List Char)
  | 0, _ => none
  | fuel + 1, cs => do
    match skipSpace cs with
    | '"' :: r =>
      let (s, r) ← readLiteral? r
      match skipSpace r with
      | ':' :: r =>
        let (j, r) ← readValue? fuel r
        match skipSpace r with
        | ',' :: r => (readFields? fuel r).map fun (fs, r) => ((s, j) :: fs, r)
        | '\x7d' :: r => some ([(s, j)], r)
        | _ => none
      | _ => none
    | _ => none

end

/-- The document that a text is, blanks around it aside. No value needs more steps than two for
    each character. -/
def read? (s : String) : Option Json :=
  let cs := s.toList
  match readValue? (2 * cs.length + 2) cs with
  | some (j, r) => if skipSpace r = [] then some j else none
  | none => none

end Json

end SpacedReview
