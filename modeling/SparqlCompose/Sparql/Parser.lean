import SparqlCompose.Iri.Resolve
import SparqlCompose.LanguageTag
import SparqlCompose.Sparql.Algebra
import SparqlCompose.Sparql.Name

/-!
# Readers for SPARQL text

A `Parser` reads from the front of a text and knows what the text has declared so far: the
base IRI, the prefixes, and the labels of blank nodes.  As with scanners, `p <|> q` reads as
`q` where `p` refuses, from the same place; what `p` has declared until then stays declared.

This module has the tokens of the language and the readers for names, variables and constant
terms.  Keywords are read in letters of any case, and need no space after them.
-/

namespace SparqlCompose.Sparql

/-- What a text has declared. -/
structure Scope where
  base : Option String := none
  /-- The namespaces of the prefixes, latest first. -/
  prefixes : List (String × String) := []
  /-- Labels of blank nodes in graph patterns that are complete. -/
  closedLabels : List String := []
  /-- Labels of blank nodes in the present graph pattern. -/
  openLabels : List String := []
  /-- For each query that is being read, innermost first, whether it has an aggregate. -/
  aggregates : List Bool := []
  /-- The lead of the labels of anonymous blank nodes. -/
  anonymousLead : String := ""
  /-- The number of anonymous blank nodes. -/
  anonymousCount : Nat := 0

/-- A reader for SPARQL text. -/
abbrev Parser := StateT (List Char) (OptionT (StateM Scope))

namespace Parser

instance : MonadLift Scan Parser := ⟨fun p cs => OptionT.mk (pure (p cs))⟩

instance : MonadLift Option Parser := ⟨fun o cs => OptionT.mk (pure (o.map (·, cs)))⟩

variable {α : Type}

/-- What the text has declared so far. -/
def scope : Parser Scope := getThe Scope

/-- Declares something. -/
def declare (f : Scope → Scope) : Parser Unit := modifyThe Scope f

/-- Passes white space and comments. -/
def space : Parser Unit := Lexeme.space

/-- Passes a character. -/
def char (c : Char) : Parser Unit := Scan.char c

/-- Passes a text. -/
def lead (text : String) : Parser Unit := Scan.lead text

/-- The length of the text that is left. -/
def remaining : Parser Nat := do return (← get).length

/-- Passes a keyword, in letters of any case. -/
def keyword (word : String) : Parser Unit := do
  let cs ← Scan.take word.length
  guard (cs.map Char.toUpper == word.toList)

/-- Reads as `p` if that does not refuse, and else reads nothing. -/
def optional (p : Parser α) : Parser (Option α) := (some <$> p) <|> pure none

/-- Refuses where the text goes on with a character of a class. -/
def notAhead (p : Char → Bool) : Parser Unit := do guard !((← get).head?.any p)

/-- Reads as many items as there are, at most as many as the fuel says. -/
def manyUpTo (item : Parser α) : Nat → Parser (List α)
  | 0 => pure []
  | fuel + 1 => (do let a ← item; return a :: (← manyUpTo item fuel)) <|> pure []

/-- Reads as many items as there are. -/
def many (item : Parser α) : Parser (List α) := do manyUpTo item (← remaining)

/-- Reads as many items as there are, of which there must be one. -/
def many1 (item : Parser α) : Parser (List α) := do return (← item) :: (← many item)

/-- Reads items with separators between them, at least one. -/
def sepBy1 (item : Parser α) (separator : Parser Unit) : Parser (List α) := do
  let first ← item
  return first :: (← many do separator; item)

/-- Reads what stands between parentheses. -/
def parens (p : Parser α) : Parser α := do
  char '('
  space
  let a ← p
  space
  char ')'
  return a

/-- Reads an item and the space after it. -/
def spaced (p : Parser α) : Parser α := do
  let a ← p
  space
  return a

/-- Reads a comma and the space after it. -/
def comma : Parser Unit := do
  char ','
  space

/-! ### Names -/

/-- Reads a reference between angle brackets and resolves it. -/
def iriRef : Parser String := do
  char '<'
  let text ← Scan.run (· != '>')
  char '>'
  let text ← (unescaped? text : Option (List Char))
  (Iri.resolveAgainst (← scope).base (String.ofList text) : Option String)

/-- A text as an absolute IRI. -/
def absolute (text : String) : Parser String := do
  guard (Iri.isAbsolute text)
  return text

/-- Reads a prefixed name whose prefix is declared. -/
def prefixedName : Parser String := do
  let name ← prefixName
  let ns ← ((← scope).prefixes.lookup name : Option String)
  (do absolute (ns ++ (← localName))) <|> absolute ns

/-- Reads an IRI or a prefixed name. -/
def iri : Parser String := iriRef <|> prefixedName

/-- Reads a variable; the answer is its name. -/
def variableName : Parser String := do
  let _ ← Scan.charIf fun c => c == '?' || c == '$'
  let c ← Scan.charIf fun c => NameChars.isLetterU c || c.isDigit
  return String.ofList (c :: (← Scan.run NameChars.isVarInner))

/-- Reads a variable or an IRI. -/
def varOrIri : Parser Node := (.var <$> variableName) <|> (.iri <$> iri)

/-- A blank node with a label that the text does not have. -/
def anonymous : Parser Resource := do
  let s ← scope
  declare fun s => { s with anonymousCount := s.anonymousCount + 1 }
  return .blank (s.anonymousLead ++ toString (s.anonymousCount + 1))

/-- Reads a blank node with a label.  One label may not occur in two graph patterns. -/
def labelledNode : Parser Resource := do
  let label ← blankLabel
  guard !((← scope).closedLabels.contains label)
  declare fun s => { s with openLabels := label :: s.openLabels }
  return .blank label

/-- Reads brackets with only white space in them. -/
def emptyBrackets : Parser Resource := do
  char '['
  let _ ← Scan.run Lexeme.isSpace
  char ']'
  anonymous

/-- Reads parentheses with only white space in them. -/
def nil : Parser Unit := do
  char '('
  let _ ← Scan.run Lexeme.isSpace
  char ')'

/-- Marks the place where a graph pattern begins or ends. -/
def closePattern : Parser Unit :=
  declare fun s => { s with closedLabels := s.openLabels ++ s.closedLabels, openLabels := [] }

/-! ### Literals -/

/-- Reads a string. -/
def string : Scan String :=
  Lexeme.longString "'''" <|> Lexeme.longString "\"\"\"" <|>
  Lexeme.shortString '\'' <|> Lexeme.shortString '"'

/-- Reads a string with its type or language. -/
def stringLiteral : Parser Literal := do
  let text ← string
  typed text <|> tagged text <|> pure (.plain text)
where
  typed (text : String) : Parser Literal := do
    space
    lead "^^"
    space
    return .ofType text (← iri)
  tagged (text : String) : Parser Literal := do
    space
    let tag ← Lexeme.languageTag
    guard (LanguageTag.isWellFormed (tag.map Char.toLower))
    return .inLanguage text tag

/-- Reads the digits of a number with a point among them or before them. -/
def pointed : Scan (List Char) :=
  (do
    let whole ← Scan.run1 Char.isDigit
    Scan.char '.'
    return whole ++ '.' :: (← Scan.run Char.isDigit)) <|>
  (do
    Scan.char '.'
    return '.' :: (← Scan.run1 Char.isDigit))

/-- Reads a number without a sign; the answer has the name of its type. -/
def unsignedNumber : Scan (List Char × String) :=
  (do
    let digits ← pointed <|> Scan.run1 Char.isDigit
    return (digits ++ (← Lexeme.exponent), "double")) <|>
  (do
    let whole ← Scan.run Char.isDigit
    Scan.char '.'
    return (whole ++ '.' :: (← Scan.run1 Char.isDigit), "decimal")) <|>
  (do return (← Scan.run1 Char.isDigit, "integer"))

/-- Reads a number with an optional sign.  Space between the sign and the digits belongs to the
number. -/
def number : Parser Literal := do
  let cs ← get
  if !(← Lexeme.sign).isEmpty then space
  let sign := cs.take (cs.length - (← remaining))
  let (digits, type) ← unsignedNumber
  return Lexeme.numeric (sign ++ digits) type

/-- Reads a truth value. -/
def boolean : Parser Literal :=
  (do lead "true"; return Lexeme.numeric "true".toList "boolean") <|>
  (do lead "false"; return Lexeme.numeric "false".toList "boolean")

/-- Reads a literal. -/
def literal : Parser Literal := stringLiteral <|> number <|> boolean

/-- Reads a variable or a term that has no nested statements. -/
def varOrTerm : Parser Node :=
  (.var <$> variableName) <|> (.iri <$> iri) <|> (.literal <$> literal) <|>
  (.resource <$> labelledNode) <|> (.resource <$> emptyBrackets) <|>
  (do nil; return .iri Vocabulary.rdfNil)

end Parser

end SparqlCompose.Sparql
