import SparqlCompose.Term.Lexeme

/-!
# Names in SPARQL

Prefixes, local names and labels of blank nodes hold groups of dots between their characters:
prefixes and labels as many as they like, a local name one.  Escapes of code points stand in
references and in strings only.
-/

namespace SparqlCompose.Sparql

/-- Reads dots, at least one, and what must follow them. -/
def dotted (more : Scan (List Char)) : Scan (List Char) := do
  let dots ← Scan.run1 (· == '.')
  return dots ++ (← more)

/-- Reads the characters of a prefix or a label after the first. -/
def laterChars : Scan (List Char) := do
  let run ← Scan.run NameChars.isInner
  let groups ← Scan.items (dotted (Scan.run1 NameChars.isInner))
  return run ++ groups.flatten

/-- Reads a prefix with its colon. -/
def prefixName : Scan String :=
  (do Scan.char ':'; return "") <|> do
    let c ← Scan.charIf NameChars.isLetter
    let cs ← laterChars
    Scan.char ':'
    return String.ofList (c :: cs)

/-- Reads the label of a blank node with its `_:`. -/
def blankLabel : Scan String := do
  Scan.lead "_:"
  let c ← Scan.charIf fun c => NameChars.isLetterU c || c.isDigit
  return String.ofList (c :: (← laterChars))

/-- Reads a local name that is not empty. -/
def localName : Scan String := do
  let first ← Lexeme.localItem fun c => NameChars.isLetterU c || c == ':' || c.isDigit
  let run ← Scan.items item
  let group ← Scan.optional (dotted items1)
  return String.ofList (first ++ run.flatten ++ group.getD [])
where
  item : Scan (List Char) := Lexeme.localItem fun c => NameChars.isInner c || c == ':'
  items1 : Scan (List Char) := do return (← item) ++ (← Scan.items item).flatten

/-! ### Escapes in references -/

/-- The number that hexadecimal digits write; a plus sign may stand before them. -/
def signedHex? : List Char → Option Nat
  | ['+'] => none
  | '+' :: ds => hexNumber? ds
  | ds => hexNumber? ds

/-- The text of a reference with its escapes replaced, of which it may have no others. -/
def unescaped? : List Char → Option (List Char)
  | [] => some []
  | '\\' :: 'u' :: a :: b :: c :: d :: cs => do
    let x ← (signedHex? [a, b, c, d]).bind charAt?
    return x :: (← unescaped? cs)
  | '\\' :: 'U' :: a :: b :: c :: d :: e :: f :: g :: h :: cs => do
    let x ← (signedHex? [a, b, c, d, e, f, g, h]).bind charAt?
    return x :: (← unescaped? cs)
  | c :: cs => if c == '\\' then none else (unescaped? cs).map (c :: ·)

end SparqlCompose.Sparql
