import SparqlCompose.Term.Lexeme

/-!
# Names in Turtle

Prefixes, local names and labels of blank nodes hold dots between their characters.  A prefix
or a label has one dot at a time; a local name may have several.
-/

namespace SparqlCompose.Turtle

/-- Whether a character continues a word for certain, or perhaps: all characters beyond ASCII
are taken for letters here. -/
def isWordChar (c : Char) : Bool := NameChars.isInner c || 0x7F < c.toNat

/-- The longest front part made of characters of names, and of single dots before them. -/
def singlyDotted : List Char → List Char × List Char
  | [] => ([], [])
  | '.' :: c :: cs =>
    if NameChars.isInner c then
      let (a, b) := singlyDotted cs
      ('.' :: c :: a, b)
    else ([], '.' :: c :: cs)
  | c :: cs =>
    if NameChars.isInner c then
      let (a, b) := singlyDotted cs
      (c :: a, b)
    else ([], c :: cs)

/-- Reads the characters of a prefix or a label after the first, up to a character of ASCII. -/
def laterChars : Scan (List Char) := do
  let cs ← get
  let (run, rest) := singlyDotted cs
  let next := match rest with
    | '.' :: more => more.head?
    | rest => rest.head?
  guard (next.all fun c => c.toNat ≤ 0x7F)
  set rest
  return run

/-- Reads a prefix with its colon. -/
def prefixName : Scan String :=
  (do Scan.char ':'; return "") <|> do
    let c ← Scan.charIf NameChars.isLetter
    let cs ← laterChars
    Scan.char ':'
    return String.ofList (c :: cs)

/-- Reads the label of a blank node with its `_:`. -/
def blankLabel : Scan String := do
  Scan.lead "_:"
  let c ← Scan.charIf fun c => NameChars.isLetterU c || c.isDigit
  return String.ofList (c :: (← laterChars))

/-- Whether the text goes on with a character that no local name leaves to what follows. -/
def isNameAhead (cs : List Char) : Bool :=
  cs.head?.any fun c => c == '\\' || c == '%' || 0x7F < c.toNat

/-- Reads a character of a local name after its first, with the dots before it. -/
def laterLocalItem : Scan (List Char) := do
  let dots ← Scan.run (· == '.')
  return dots ++ (← Lexeme.localItem fun c => NameChars.isInner c || c == ':')

/-- Refuses a text that goes on as if a local name had not ended. -/
def nameEnd : Scan Unit := do
  let cs ← get
  guard !(isNameAhead cs || isNameAhead (cs.dropWhile (· == '.')))

/-- Reads a local name.  It may be empty; if it is not, the text must go on after it. -/
def localName : Scan String := do
  let first ← Scan.optional
    (Lexeme.localItem fun c => NameChars.isLetterU c || c == ':' || c.isDigit)
  match first with
  | none =>
    guard !(isNameAhead (← get))
    return ""
  | some first =>
    let rest ← Scan.items laterLocalItem
    nameEnd
    guard !(← get).isEmpty
    return String.ofList (first ++ rest.flatten)

/-- Whether the text goes on with the given word, and the word ends there. -/
def isWordAhead (word : String) (cs : List Char) : Bool :=
  match dropLead? word.toList cs with
  | some rest => rest.head?.all fun c => !(isWordChar c || c == ':')
  | none => false

end SparqlCompose.Turtle
