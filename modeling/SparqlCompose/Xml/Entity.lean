import SparqlCompose.Text.Blank
import SparqlCompose.Text.Cut
import SparqlCompose.Text.Digits

/-!
# Character references and entities of XML

In the text of a document and in the values of attributes, an ampersand begins a reference: a
code point, one of the five names that XML knows, or an entity that the document declares.
-/

namespace SparqlCompose.Xml

/-- The entities that a document declares, latest first. -/
abbrev Entities := List (String × List Char)

/-- The characters that XML has names for. -/
def namedChars : List (String × Char) :=
  [("lt", '<'), ("gt", '>'), ("amp", '&'), ("apos", '\''), ("quot", '"')]

/-- The character of a code point, written in decimal or after an `x` in hexadecimal.  There
is no character zero. -/
def codePoint? (digits : List Char) : Option Char := do
  let n ← match digits with
    | 'x' :: ds => hexNumber? ds
    | ds => if ds.all Char.isDigit then some (decimal ds) else none
  if n = 0 then none else charAt? n

/-- What a reference stands for; `name` is its text between ampersand and semicolon. -/
def referent? (entities : Entities) (name : List Char) : Option (List Char) :=
  match name with
  | '#' :: digits => (codePoint? digits).map ([·])
  | _ =>
    let name := String.ofList name
    ((namedChars.lookup name).map ([·])) <|> entities.lookup name

/-- A text with its references replaced, where `name` is the reference that has been begun,
in reverse. -/
def resolvedFrom (entities : Entities) (name : Option (List Char)) :
    List Char → Option (List Char)
  | [] => if name.isNone then some [] else none
  | c :: cs =>
    match name with
    | none =>
      if c = '&' then resolvedFrom entities (some []) cs
      else (resolvedFrom entities none cs).map (c :: ·)
    | some n =>
      if c = '&' then none
      else if c = ';' then do
        let r ← referent? entities n.reverse
        return r ++ (← resolvedFrom entities none cs)
      else resolvedFrom entities (some (c :: n)) cs

/-- A text with its references replaced; each must be complete and known. -/
def resolved? (entities : Entities) (cs : List Char) : Option (List Char) :=
  resolvedFrom entities none cs

/-- A character as it is written in the text of a document. -/
def escapedChar (c : Char) : List Char :=
  match c with
  | '<' => "&lt;".toList
  | '>' => "&gt;".toList
  | '&' => "&amp;".toList
  | '\'' => "&apos;".toList
  | '"' => "&quot;".toList
  | c => [c]

/-- White space of ASCII, without the vertical tab. -/
def isAsciiBlank (c : Char) : Bool := " \t\n\x0c\r".toList.contains c

/-- Drops white space at the front. -/
def afterBlank (cs : List Char) : List Char := cs.dropWhile isBlank

/-- The entities with the one that a declaration adds; `cs` is the text after the keyword.  The
value may use entities that have been declared before. -/
def Entities.declare? (entities : Entities) (cs : List Char) : Option Entities := do
  let cs := (dropLead? ['%'] (afterBlank cs)).getD cs
  let (name, cs) ← cutFirst isAsciiBlank (afterBlank cs)
  let cs ← dropLead? ['"'] (afterBlank cs)
  let (value, cs) ← cutFirst (· == '"') cs
  let _ ← dropLead? ['>'] (afterBlank cs)
  return (String.ofList name, ← resolved? entities value) :: entities

/-- The entities with those that a document type declares. -/
def Entities.declareAll? (entities : Entities) (doctype : List Char) : Option Entities :=
  ((splitAll (· == '<') doctype).drop 1).foldlM (fun es part =>
    match dropLead? "!ENTITY".toList part with
    | some cs => es.declare? cs
    | none => some es) entities

end SparqlCompose.Xml
