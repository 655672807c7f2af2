import SparqlCompose.Graph.Format
import SparqlCompose.Graph.Labels
import SparqlCompose.Iri.Resolve
import SparqlCompose.Turtle.Name

/-!
# Reading Turtle

The reader goes through the statements of a document and collects their triples in the order
in which they are complete: the triples of a nested node come before the triple that uses it.

Quoted triples are read, but a graph cannot hold them.  Brackets nest at most `deepest` deep.
-/

namespace SparqlCompose.Turtle

/-- A node of a triple. -/
inductive Node where
  | constant (c : Constant)
  /-- A triple in the place of a term. -/
  | quoted
deriving Inhabited

/-- The node of a resource. -/
def Node.ofResource (r : Resource) : Node := .constant (.resource r)

/-- The node of an IRI. -/
def Node.iri (text : String) : Node := .constant (.iri text)

/-- How far the reading of a document has come. -/
structure Reading where
  /-- The text that is left. -/
  input : List Char
  base : Option String
  /-- The namespaces of the prefixes, latest first. -/
  prefixes : List (String × String) := []
  /-- The number of blank nodes that were given a label. -/
  labels : Nat := 0
  /-- The number of open brackets. -/
  depth : Nat := 0
  /-- The triples so far, latest first. -/
  found : List Triple := []

/-- A step of reading a document. -/
abbrev Reader := StateT Reading (Except DocumentError)

/-- Refuses the document. -/
def refuse {α : Type} : Reader α := throw (.malformed .turtle)

/-- Reads from the front of the text. -/
def scan {α : Type} (p : Scan α) : Reader α := do
  let s ← get
  match p s.input with
  | some (a, rest) => set { s with input := rest }; return a
  | none => refuse

/-- Passes white space and comments. -/
def space : Reader Unit := scan Lexeme.space

/-- The next character. -/
def peek : Reader (Option Char) := do return (← get).input.head?

/-- Whether the text goes on with the given one. -/
def startsWith (text : String) : Reader Bool := do
  return text.toList.isPrefixOf (← get).input

/-- Adds a triple to those found.  A node that a graph cannot hold ends the reading. -/
def emit (s : Node) (p : String) (o : Node) : Reader Unit :=
  match s, o with
  | .constant (.resource s), .constant o =>
    match Triple.checked ⟨s, p, o⟩ with
    | .ok t => modify fun r => { r with found := t :: r.found }
    | .error _ => throw .unfit
  | _, _ => throw .unfit

/-- A blank node with a label of its own. -/
def freshNode : Reader Resource :=
  modifyGet fun r => (.blank (generatedLabel (r.labels + 1)), { r with labels := r.labels + 1 })

/-- The number of brackets that may be open at once. -/
def deepest : Nat := 128

/-- Reads what stands between brackets. -/
def nested {α : Type} (r : Reader α) : Reader α := do
  if deepest ≤ (← get).depth then refuse
  modify fun s => { s with depth := s.depth + 1 }
  let a ← r
  modify fun s => { s with depth := s.depth - 1 }
  return a

/-! ### Terms -/

/-- Reads a reference between angle brackets; escapes stand for characters. -/
def reference : Scan String := do
  Scan.char '<'
  let plain := Scan.charIf (· != '\\')
  return String.ofList (← Scan.itemsUntil (Scan.char '>') (Lexeme.codePointEscape <|> plain))

/-- Reads a reference and resolves it. -/
def iriRef : Reader String := do
  let text ← scan reference
  match Iri.resolveAgainst (← get).base text with
  | some iri => return iri
  | none => refuse

/-- Reads an IRI or a prefixed name.  The IRI of a prefixed name is checked where its triple
is added. -/
def iri : Reader String := do
  if (← peek) = some '<' then iriRef
  else
    let name ← scan prefixName
    match (← get).prefixes.lookup name with
    | some ns => return ns ++ (← scan localName)
    | none => refuse

/-- Reads a blank node that has a label, or empty brackets. -/
def blankNode : Reader Resource := do
  if (← peek) = some '[' then
    scan (Scan.char '[')
    space
    scan (Scan.char ']')
    freshNode
  else return .blank (keepApart (← scan blankLabel))

/-- Reads the fraction of a number.  A dot belongs to the number only if a digit or an
exponent follows. -/
def fraction : Scan (List Char) := fun cs =>
  match cs with
  | '.' :: c :: rest =>
    if c.isDigit || c == 'e' || c == 'E' then
      let rest := c :: rest
      some ('.' :: rest.takeWhile Char.isDigit, rest.dropWhile Char.isDigit)
    else some ([], cs)
  | _ => some ([], cs)

/-- Reads a number. -/
def number : Scan Literal := do
  let lead ← Lexeme.sign
  let whole ← Scan.run Char.isDigit
  let frac ← fraction
  guard (!whole.isEmpty || 1 < frac.length)
  let text := lead ++ whole ++ frac
  match ← Scan.peek with
  | some c =>
    if c == 'e' || c == 'E' then
      return Lexeme.numeric (text ++ (← Lexeme.exponent)) "double"
  | none => pure ()
  return Lexeme.numeric text (if frac.isEmpty then "integer" else "decimal")

/-- Reads a string.  One that begins with three quotes ends with three. -/
def string : Scan String := do
  let cs ← get
  let begins (marks : String) := marks.toList.isPrefixOf cs
  if begins "\"\"\"" then Lexeme.longString "\"\"\""
  else if begins "'''" then Lexeme.longString "'''"
  else Lexeme.shortString '"' <|> Lexeme.shortString '\''

/-- Reads a string with its type or language. -/
def stringLiteral : Reader Literal := do
  let text ← scan string
  space
  match ← peek with
  | some '@' =>
    let tag ← scan Lexeme.languageTag
    if LanguageTag.isWellFormed tag then return .inLanguage text tag else refuse
  | some '^' =>
    scan (Scan.lead "^^")
    space
    return .ofType text (← iri)
  | _ => return .plain text

/-- Reads a verb; a lone `a` is class membership. -/
def verb : Reader String := do
  match (← get).input with
  | 'a' :: rest =>
    if rest.head?.any fun c => isWordChar c || c == ':' || c == '.' then iri
    else
      scan (Scan.char 'a')
      return Vocabulary.rdfType
  | _ => iri

/-- Whether brackets at the front of the text hold nothing but white space. -/
def emptyBrackets : Reader Bool := do
  match (← get).input with
  | '[' :: rest => return (rest.dropWhile Lexeme.isSpace).head? = some ']'
  | _ => return false

/-! ### Statements about a subject

Every call passes a character of the text within three steps, so fuel for four steps a
character lets each document be read to its end. -/

mutual

/-- Reads verbs and their objects, separated by semicolons. -/
def predicateObjects : Nat → Node → Reader Unit
  | 0, _ => refuse
  | fuel + 1, s => do
    let p ← verb
    space
    objects fuel s p
    space
    if (← peek) = some ';' then
      scan (modify (List.dropWhile (· == ';')))
      semicolons fuel s
    else return ()

/-- Goes on after a semicolon: more semicolons, the end, or the next verb. -/
def semicolons : Nat → Node → Reader Unit
  | 0, _ => refuse
  | fuel + 1, s => do
    space
    match ← peek with
    | some ';' => scan (Scan.char ';'); semicolons fuel s
    | some '.' | some ']' | some '\x7d' | none => return ()
    | _ => predicateObjects fuel s

/-- Reads objects, separated by commas. -/
def objects : Nat → Node → String → Reader Unit
  | 0, _, _ => refuse
  | fuel + 1, s, p => do
    let o ← object fuel
    emit s p o
    space
    if (← peek) = some '\x7b' then
      scan (Scan.lead "\x7b|")
      space
      predicateObjects fuel .quoted
      scan (Scan.lead "|\x7d")
      space
    if (← peek) = some ',' then
      scan (Scan.char ',')
      space
      objects fuel s p
    else return ()

/-- Reads an object. -/
def object : Nat → Reader Node
  | 0 => refuse
  | fuel + 1 => do
    match ← peek with
    | some '<' =>
      if ← startsWith "<<" then nested (quotedTriple fuel) else return .iri (← iri)
    | some '(' => scan (Scan.char '('); nested (collection fuel none)
    | some '[' =>
      if ← emptyBrackets then return .ofResource (← blankNode)
      else nested (propertyList fuel)
    | some '_' => return .ofResource (← blankNode)
    | some c =>
      if c == '"' || c == '\'' then return .constant (.literal (← stringLiteral))
      else if c.isDigit || c == '+' || c == '-' || c == '.' then
        return .constant (.literal (← scan number))
      else if isWordAhead "true" (← get).input then
        scan (Scan.lead "true")
        return .constant (.literal (Lexeme.numeric "true".toList "boolean"))
      else if isWordAhead "false" (← get).input then
        scan (Scan.lead "false")
        return .constant (.literal (Lexeme.numeric "false".toList "boolean"))
      else return .iri (← iri)
    | none => refuse

/-- Reads brackets with statements about a node of their own. -/
def propertyList : Nat → Reader Node
  | 0 => refuse
  | fuel + 1 => do
    scan (Scan.char '[')
    space
    let node := Node.ofResource (← freshNode)
    properties fuel node
    return node

/-- Reads the statements between brackets, up to the closing one. -/
def properties : Nat → Node → Reader Unit
  | 0, _ => refuse
  | fuel + 1, s => do
    predicateObjects fuel s
    space
    if (← peek) = some ']' then scan (Scan.char ']') else properties fuel s

/-- Reads the members of a list from the place after the cell `previous`, if there is one, and
answers the cell of the first of them. -/
def collection : Nat → Option Node → Reader Node
  | 0, _ => refuse
  | fuel + 1, previous => do
    let link (n : Node) : Reader Unit :=
      match previous with
      | some cell => emit cell Vocabulary.rdfRest n
      | none => pure ()
    space
    match ← peek with
    | none => refuse
    | some ')' =>
      scan (Scan.char ')')
      let n := Node.iri Vocabulary.rdfNil
      link n
      return n
    | some _ =>
      let cell := Node.ofResource (← freshNode)
      link cell
      let member ← object fuel
      emit cell Vocabulary.rdfFirst member
      let _ ← collection fuel (some cell)
      return cell

/-- Reads a triple in double angle brackets. -/
def quotedTriple : Nat → Reader Node
  | 0 => refuse
  | fuel + 1 => do
    scan (Scan.lead "<<")
    space
    quotedPart fuel false
    space
    let _ ← verb
    space
    quotedPart fuel true
    space
    scan (Scan.lead ">>")
    return .quoted

/-- Reads the subject or the object of a quoted triple, which has no nested statements. -/
def quotedPart : Nat → Bool → Reader Unit
  | 0, _ => refuse
  | fuel + 1, isObject => do
    match ← peek with
    | some '(' => refuse
    | some '_' | some '[' => let _ ← blankNode
    | some '<' =>
      if ← startsWith "<<" then let _ ← nested (quotedTriple fuel) else let _ ← iri
    | _ => if isObject then let _ ← object fuel else let _ ← iri

end

/-! ### Documents -/

/-- Reads the statements about one subject. -/
def triples (fuel : Nat) : Reader Unit := do
  match ← peek with
  | some '[' =>
    if ← emptyBrackets then predicatesOf (.ofResource (← blankNode))
    else
      let s ← nested (propertyList fuel)
      space
      unless (← peek) = some '.' do predicateObjects fuel s
  | some '_' => predicatesOf (.ofResource (← blankNode))
  | some '(' => scan (Scan.char '('); predicatesOf (← nested (collection fuel none))
  | some '<' =>
    if ← startsWith "<<" then predicatesOf (← nested (quotedTriple fuel))
    else predicatesOf (.iri (← iri))
  | _ => predicatesOf (.iri (← iri))
where
  predicatesOf (s : Node) : Reader Unit := do
    space
    predicateObjects fuel s

/-- Passes the dot that ends a statement. -/
def dot : Reader Unit := do
  space
  scan (Scan.char '.')

/-- Binds a prefix. -/
def prefixBinding : Reader Unit := do
  space
  let name ← scan prefixName
  space
  let ns ← iriRef
  modify fun r => { r with prefixes := (name, ns) :: r.prefixes }

/-- Sets the base IRI. -/
def baseBinding : Reader Unit := do
  space
  let base ← iriRef
  modify fun r => { r with base := some base }

/-- Whether the text goes on with a keyword, in letters of any case.  The keyword is over
where a character before `A` follows. -/
def atKeyword (word : String) : Reader Bool := do
  let cs := (← get).input
  let n := word.length
  return (cs.take n).map Char.toUpper == word.toList && (cs.drop n).head?.all (· < 'A')

/-- Reads one statement. -/
def statement (fuel : Nat) : Reader Unit := do
  if ← startsWith "@prefix" then
    scan (Scan.lead "@prefix")
    prefixBinding
    dot
  else if ← startsWith "@base" then
    scan (Scan.lead "@base")
    baseBinding
    dot
  else if ← atKeyword "BASE" then
    scan (modify (List.drop 4))
    baseBinding
  else if ← atKeyword "PREFIX" then
    scan (modify (List.drop 6))
    prefixBinding
  else
    triples fuel
    dot

/-- Reads statements up to the end of the text. -/
def statements (fuel : Nat) : Nat → Reader Unit
  | 0 => refuse
  | n + 1 => do
    space
    match ← peek with
    | none => return ()
    | some _ => statement fuel; statements fuel n

/-- The triples of a Turtle document, in the order in which they are complete. -/
def read (text : String) (base : Option String) : Except DocumentError (List Triple) := do
  let input := text.toList
  let fuel := 4 * input.length + 4
  let ((), r) ← (statements fuel (input.length + 1)).run { input := input, base := base }
  return r.found.reverse

end SparqlCompose.Turtle
