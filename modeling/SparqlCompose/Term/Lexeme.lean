import SparqlCompose.Term.NameChars
import SparqlCompose.Term.Basic
import SparqlCompose.Text.Digits
import SparqlCompose.Text.Scan

/-!
# Written forms of names and literals

What Turtle and SPARQL have in common in the way they write local names, strings, language tags
and numbers.
-/

namespace SparqlCompose.Lexeme

/-- White space of both languages. -/
def isSpace (c : Char) : Bool := c == ' ' || c == '\t' || c == '\n' || c == '\r'

/-- The text after white space and comments; a comment ends with its line. -/
def afterSpace (inComment : Bool) : List Char → List Char
  | [] => []
  | c :: cs =>
    if inComment then afterSpace (c != '\n' && c != '\r') cs
    else if isSpace c then afterSpace false cs
    else if c == '#' then afterSpace true cs
    else c :: cs

/-- Passes white space and comments. -/
def space : Scan Unit := modify (afterSpace false)

/-! ### Names -/

/-- Characters that a backslash escapes in a local name. -/
def isLocalEscape (c : Char) : Bool := "_~.-!$&'()*+,;=/?#@%".toList.contains c

/-- Reads an escape in a local name: a percent sign with its digits is kept, a backslash is
dropped. -/
def localEscape : Scan (List Char) :=
  (do
    Scan.char '%'
    let a ← Scan.charIf fun c => (hexDigit? c).isSome
    let b ← Scan.charIf fun c => (hexDigit? c).isSome
    return ['%', a, b]) <|>
  (do Scan.char '\\'; return [← Scan.charIf isLocalEscape])

/-- Reads one character of a local name; `inner` are those that need no escape. -/
def localItem (inner : Char → Bool) : Scan (List Char) :=
  (do return [← Scan.charIf inner]) <|> localEscape

/-! ### Literals -/

/-- The character that a letter after a backslash stands for. -/
def escaped? (c : Char) : Option Char :=
  match c with
  | 't' => some '\t'
  | 'b' => some '\x08'
  | 'n' => some '\n'
  | 'r' => some '\r'
  | 'f' => some '\x0c'
  | '"' => some '"'
  | '\'' => some '\''
  | '\\' => some '\\'
  | _ => none

/-- Reads a backslash and the letter after it. -/
def charEscape : Scan Char := do
  Scan.char '\\'
  let c ← Scan.charIf fun c => (escaped? c).isSome
  return (escaped? c).getD c

/-- Reads a code point in hexadecimal: `\u` with four digits or `\U` with eight. -/
def codePointEscape : Scan Char := do
  Scan.char '\\'
  let c ← Scan.charIf fun c => c == 'u' || c == 'U'
  let ds ← Scan.take (if c == 'u' then 4 else 8)
  ((hexNumber? ds).bind charAt? : Option Char)

/-- Reads what begins with a backslash inside a string. -/
def stringEscape : Scan Char := charEscape <|> codePointEscape

/-- Reads a string between groups of three quotes. -/
def longString (marks : String) : Scan String := do
  Scan.lead marks
  let plain := Scan.charIf (· != '\\')
  return String.ofList (← Scan.itemsUntil (Scan.lead marks) (stringEscape <|> plain))

/-- Reads a string between single quotes of either kind, which ends with its line. -/
def shortString (mark : Char) : Scan String := do
  Scan.char mark
  let plain := Scan.charIf fun c => c != '\\' && c != '\n' && c != '\r'
  return String.ofList (← Scan.itemsUntil (Scan.char mark) (stringEscape <|> plain))

/-- Reads a language tag with its `@`. -/
def languageTag : Scan String := do
  Scan.char '@'
  let first ← Scan.run1 Char.isAlpha
  let more ← Scan.items do Scan.char '-'; return '-' :: (← Scan.run1 Char.isAlphanum)
  return String.ofList (first ++ more.flatten)

/-- Reads an optional sign. -/
def sign : Scan (List Char) := do
  return (← Scan.optional (Scan.charIf fun c => c == '+' || c == '-')).toList

/-- Reads an exponent. -/
def exponent : Scan (List Char) := do
  let e ← Scan.charIf fun c => c == 'e' || c == 'E'
  return e :: (← sign) ++ (← Scan.run1 Char.isDigit)

/-- The number literal of a type with the given name. -/
def numeric (text : List Char) (type : String) : Literal :=
  .ofType (String.ofList text) (Vocabulary.xsd type)

end SparqlCompose.Lexeme
