import SparqlCompose.Json.Basic
import SparqlCompose.Text.Digits

/-!
# Reading JSON text

`Json.read? s` is the value of a text that is one JSON value with white space around it, and
`none` for any other text: a control character inside a string, a letter after a backslash that
makes no escape, a trailing comma, or anything after the value.
-/

namespace SparqlCompose.Json

/-- The white space of JSON. -/
def isSpace (c : Char) : Bool := c = ' ' || c = '\n' || c = '\t' || c = '\r'

/-- Drops white space. -/
def skipSpace (cs : List Char) : List Char := cs.dropWhile isSpace

/-- The number that four hexadecimal digits write. -/
def hexUnit? (a b c d : Char) : Option Nat := hexNumber? [a, b, c, d]

/-- The character that the letter after a backslash stands for, `u` apart. -/
def simpleEscape? (c : Char) : Option Char :=
  if c = '"' ∨ c = '\\' ∨ c = '/' then some c
  else if c = 'n' then some '\n'
  else if c = 'r' then some '\r'
  else if c = 't' then some '\t'
  else if c = 'b' then some '\x08'
  else if c = 'f' then some '\x0c'
  else none

/-- The character that a pair of surrogates makes. -/
def surrogatePair? (n m : Nat) : Option Char :=
  if 0xD800 ≤ n ∧ n < 0xDC00 ∧ 0xDC00 ≤ m ∧ m < 0xE000 then
    some (Char.ofNat (0x10000 + (n - 0xD800) * 0x400 + (m - 0xDC00)))
  else none

/-- The rest of a string after its opening quote.  `acc` holds the characters read so far,
newest first, unless one of them was half of a surrogate pair. -/
def stringTail (acc : Option (List Char)) : List Char → Option (Option String × List Char)
  | [] => none
  | '"' :: cs => some (acc.map fun a => String.ofList a.reverse, cs)
  | '\\' :: 'u' :: a :: b :: c :: d :: cs =>
    match hexUnit? a b c d with
    | none => none
    | some n =>
      if n < 0xD800 ∨ 0xDFFF < n then stringTail (acc.map (Char.ofNat n :: ·)) cs
      else
        match cs with
        | '\\' :: 'u' :: e :: f :: g :: h :: cs =>
          match (hexUnit? e f g h).bind (surrogatePair? n) with
          | some x => stringTail (acc.map (x :: ·)) cs
          | none => stringTail none ('\\' :: 'u' :: e :: f :: g :: h :: cs)
        | cs => stringTail none cs
  | '\\' :: c :: cs => (simpleEscape? c).bind fun x => stringTail (acc.map (x :: ·)) cs
  | c :: cs => if c.toNat < 0x20 ∨ c = '\\' then none else stringTail (acc.map (c :: ·)) cs

/-- Decimal digits at the front, at least one. -/
def digits? (cs : List Char) : Option (List Char × List Char) :=
  match cs.span Char.isDigit with
  | ([], _) => none
  | (ds, rest) => some (ds, rest)

/-- The digits of a number after its decimal point, if it has one. -/
def fraction? : List Char → Option (Option (List Char) × List Char)
  | '.' :: cs => (digits? cs).map fun (ds, rest) => (some ds, rest)
  | cs => some (none, cs)

/-- The exponent of a number, if it has one. -/
def exponent? : List Char → Option (Option Int × List Char)
  | c :: cs =>
    if c = 'e' ∨ c = 'E' then
      let (isNegative, cs) := match cs with
        | '+' :: r => (false, r)
        | '-' :: r => (true, r)
        | r => (false, r)
      (digits? cs).map fun (ds, rest) =>
        let n := Int.ofNat (decimal ds)
        (some (if isNegative then -n else n), rest)
    else some (none, c :: cs)
  | [] => some (none, [])

/-- A number without its sign: no leading zero, an optional fraction and exponent. -/
def unsigned? (cs : List Char) : Option (Json × List Char) := do
  let (ds, rest) ← digits? cs
  if ds.length > 1 ∧ ds.head? = some '0' then failure
  let (fraction, rest) ← fraction? rest
  let (exponent, rest) ← exponent? rest
  let n := decimal ds
  if fraction.isNone && exponent.isNone && n < wordSize then return (.num n, rest)
  let more := fraction.getD []
  let isUsable := isFinite (ds ++ more) (exponent.getD 0 - more.length)
  return (if isUsable then .otherNum else .unusable, rest)

/-- The value of a number with a minus sign. -/
def negated : Json → Json
  | .unusable => .unusable
  | _ => .otherNum

/-- A number. -/
def number? : List Char → Option (Json × List Char)
  | '-' :: cs => (unsigned? cs).map fun (v, rest) => (negated v, rest)
  | cs => unsigned? cs

/-- The rest of a text that starts with the given word. -/
def word? (w : List Char) (v : Json) (cs : List Char) : Option (Json × List Char) :=
  if w.isPrefixOf cs then some (v, cs.drop w.length) else none

/-- A string, if it can be used. -/
def ofString? (s : Option String) : Json := s.elim .unusable .str

/-- An object, if its field names can be used. -/
def ofFields? (fields : List (Option String × Json)) : Json :=
  let usable : Option (List (String × Json)) := fields.mapM fun (k, v) => k.map (·, v)
  usable.elim .unusable .obj

mutual

/-- A value at the front of the text, after white space.  Each nested value takes one from
`fuel`; a text has fewer values than characters. -/
def value? (fuel : Nat) (cs : List Char) : Option (Json × List Char) :=
  match fuel with
  | 0 => none
  | fuel + 1 =>
    match skipSpace cs with
    | [] => none
    | c :: cs =>
      if c = '"' then (stringTail (some []) cs).map fun (s, rest) => (ofString? s, rest)
      else if c = '[' then
        match skipSpace cs with
        | ']' :: rest => some (.arr [], rest)
        | cs => (items? fuel cs).map fun (vs, rest) => (.arr vs, rest)
      else if c = '\x7b' then
        match skipSpace cs with
        | '\x7d' :: rest => some (.obj [], rest)
        | cs => (fields? fuel cs).map fun (fs, rest) => (ofFields? fs, rest)
      else if c = 'n' then word? "ull".toList .null cs
      else if c = 't' then word? "rue".toList (.bool true) cs
      else if c = 'f' then word? "alse".toList (.bool false) cs
      else number? (c :: cs)

/-- The items of an array up to its closing bracket. -/
def items? (fuel : Nat) (cs : List Char) : Option (List Json × List Char) :=
  match fuel with
  | 0 => none
  | fuel + 1 =>
    match value? fuel cs with
    | none => none
    | some (v, rest) =>
      match skipSpace rest with
      | ',' :: rest => (items? fuel rest).map fun (vs, rest) => (v :: vs, rest)
      | ']' :: rest => some ([v], rest)
      | _ => none

/-- The fields of an object up to its closing brace. -/
def fields? (fuel : Nat) (cs : List Char) : Option (List (Option String × Json) × List Char) :=
  match fuel with
  | 0 => none
  | fuel + 1 =>
    match skipSpace cs with
    | '"' :: cs =>
      match stringTail (some []) cs with
      | none => none
      | some (k, rest) =>
        match skipSpace rest with
        | ':' :: rest =>
          match value? fuel rest with
          | none => none
          | some (v, rest) =>
            match skipSpace rest with
            | ',' :: rest => (fields? fuel rest).map fun (fs, rest) => ((k, v) :: fs, rest)
            | '\x7d' :: rest => some ([(k, v)], rest)
            | _ => none
        | _ => none
    | _ => none

end

/-- The value that a text writes. -/
def read? (s : String) : Option Json :=
  let cs := s.toList
  match value? (2 * cs.length + 2) cs with
  | some (v, rest) => if (skipSpace rest).isEmpty then some v else none
  | none => none

end SparqlCompose.Json
