import SparqlCompose.Term.Basic

/-!
# The canonical text of terms

The form of N-Triples: IRIs in full between angle brackets, blank nodes with their label,
literals between quotes with their datatype or language.
-/

namespace SparqlCompose

/-- An upper-case hexadecimal digit. -/
def upperHexDigit (n : Nat) : Char := (Nat.digitChar n).toUpper

/-- A character inside a quoted literal: quotes, backslashes and control characters are
escaped. -/
def escapeLiteralChar (c : Char) : List Char :=
  if c = '"' then ['\\', '"']
  else if c = '\\' then ['\\', '\\']
  else if c = '\t' then ['\\', 't']
  else if c = '\n' then ['\\', 'n']
  else if c = '\r' then ['\\', 'r']
  else if c = '\x08' then ['\\', 'b']
  else if c = '\x0c' then ['\\', 'f']
  else if c.toNat < 0x20 ∨ c.toNat = 0x7F then
    ['\\', 'u', '0', '0', upperHexDigit (c.toNat / 16), upperHexDigit (c.toNat % 16)]
  else [c]

/-- The canonical text of a resource. -/
def Resource.canonical : Resource → String
  | .iri text => "<" ++ text ++ ">"
  | .blank label => "_:" ++ label

/-- The canonical text of a literal. -/
def Literal.canonical (l : Literal) : String :=
  let quoted := "\"" ++ String.ofList (l.value.toList.flatMap escapeLiteralChar) ++ "\""
  match l.kind with
  | .simple => quoted
  | .typed d => quoted ++ "^^<" ++ d ++ ">"
  | .tagged t => quoted ++ "@" ++ t

/-- The canonical text of a constant. -/
def Constant.canonical : Constant → String
  | .resource r => r.canonical
  | .literal l => l.canonical

end SparqlCompose
