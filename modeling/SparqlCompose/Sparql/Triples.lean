import SparqlCompose.Sparql.Parser

/-!
# Reading triples

A block of triples is a list of subjects with their verbs and objects.  A verb is a variable
or a property path.  A path that is one IRI makes a triple pattern, an inverse path swaps its
ends, and a sequence meets in a node of its own; other paths have no triple pattern.

Paths, lists and bracketed nodes nest.  The readers here get the readers for what is nested
as an argument, and `nestedTerms` ties the knot: it reads what nests up to a given depth.
-/

namespace SparqlCompose.Sparql

/-- A property path. -/
inductive Path where
  | iri (text : String)
  | inverse (p : Path)
  | sequence (p q : Path)
  | alternative (p q : Path)
  /-- A path with an operator after it, which tells how often it is followed. -/
  | repeated (p : Path) (op : Char)
  /-- Any property but the given ones. -/
  | negated (iris : List String)
deriving Inhabited

namespace Path

/-- A path as it is written in a message. -/
def text : Path → String
  | .iri s => "<" ++ s ++ ">"
  | .inverse p => "^(" ++ p.text ++ ")"
  | .sequence p q => "(" ++ p.text ++ " / " ++ q.text ++ ")"
  | .alternative p q => "(" ++ p.text ++ " | " ++ q.text ++ ")"
  | .repeated p op => "(" ++ p.text ++ ")" ++ String.singleton op
  | .negated iris => "!(" ++ " | ".intercalate (iris.map fun s => "<" ++ s ++ ">") ++ ")"

/-- Any property but the given ones, and any property in the other direction but the given
inverse ones.  Without inverse properties only the first counts, without direct ones only the
second. -/
def excluding (direct inverse : List String) : Path :=
  if inverse.isEmpty then .negated direct
  else if direct.isEmpty then .inverse (.negated inverse)
  else .alternative (.negated direct) (.inverse (.negated inverse))

end Path

/-- A verb: a variable or a property path. -/
inductive Verb where
  | var (name : String)
  | path (p : Path)
deriving Inhabited

/-- What a statement of a block says: a triple or a path. -/
inductive Statement where
  | triple (t : TriplePattern)
  | path (subject object : Node) (text : String)

namespace Statement

/-- The patterns of a list of statements: each run of triples is a basic graph pattern. -/
def parts : List Statement → List Algebra
  | [] => []
  | .path s o text :: rest => .path s o text :: parts rest
  | .triple t :: rest =>
    match parts rest with
    | .bgp ts :: ps => .bgp (t :: ts) :: ps
    | ps => .bgp [t] :: ps

/-- The pattern of a list of statements. -/
def algebra (l : List Statement) : Algebra := (parts l).foldl Algebra.beside .empty

end Statement

/-- A node, and the statements about the nodes nested in it. -/
structure Described where
  node : Node
  statements : List Statement

/-- Readers for what nests inside a block of triples. -/
structure NestedTerms where
  /-- Whether a verb may be a path. -/
  paths : Bool
  path : Parser Path
  /-- A list or a bracketed node. -/
  described : Parser Described

namespace Parser

/-! ### Paths -/

/-- Reads an IRI, or an `a` for class membership. -/
def pathIri : Parser String := iri <|> (do lead "a"; return Vocabulary.rdfType)

/-- Reads a member of a negated set; the flag tells that it is inverse. -/
def negatedItem : Parser (Bool × String) :=
  (do char '^'; space; return (true, ← pathIri)) <|> (do return (false, ← pathIri))

/-- Reads a separator between paths and the space after it. -/
def separator (c : Char) : Parser Unit := do
  char c
  space

/-- Reads the set after an exclamation mark. -/
def negatedSet : Parser Path := do
  let items ← (do
    char '('
    space
    let items ← sepBy1 (spaced negatedItem) (separator '|')
    char ')'
    return items) <|> (do return [← negatedItem])
  let (inverse, direct) := items.partition Prod.fst
  return .excluding (direct.map Prod.snd) (inverse.map Prod.snd)

/-- Reads a path without operators around it. -/
def pathPrimary (n : NestedTerms) : Parser Path :=
  (.iri <$> pathIri) <|>
  (do char '!'; space; negatedSet) <|>
  parens n.path

/-- Reads what follows a path: an operator.  A question mark may not be the start of a
variable. -/
def pathOperator : Parser Char :=
  (do return ← Scan.charIf fun c => c == '*' || c == '+') <|> (do
    char '?'
    notAhead fun c => NameChars.isLetterU c || c.isDigit
    return '?')

/-- Reads a path with its operator. -/
def pathElement (n : NestedTerms) : Parser Path := do
  let p ← spaced (pathPrimary n)
  match ← optional pathOperator with
  | some c => return .repeated p c
  | none => return p

/-- Reads a path, which may be an inverse one. -/
def pathOrInverse (n : NestedTerms) : Parser Path :=
  pathElement n <|> (do char '^'; space; return .inverse (← pathElement n))

/-- Reads paths one after the other. -/
def pathSequence (n : NestedTerms) : Parser Path := do
  match ← sepBy1 (spaced (pathOrInverse n)) (separator '/') with
  | [] => failure
  | p :: ps => return ps.foldl .sequence p

/-- Reads a path. -/
def path (n : NestedTerms) : Parser Path := do
  match ← sepBy1 (spaced (pathSequence n)) (separator '|') with
  | [] => failure
  | p :: ps => return ps.foldl .alternative p

/-- The statements of a path between two nodes. -/
def ofPath (s : Node) : Path → Node → Parser (List Statement)
  | .iri p, o => return [.triple ⟨s, .iri p, o⟩]
  | .inverse p, o => ofPath o p s
  | .sequence p q, o => do
    let middle := Node.resource (← anonymous)
    return (← ofPath s p middle) ++ (← ofPath middle q o)
  | p, o => return [.path s o (s.text ++ " " ++ p.text ++ " " ++ o.text ++ " .")]

/-- The statements of a verb between two nodes. -/
def ofVerb (s : Node) (v : Verb) (o : Node) : Parser (List Statement) :=
  match v with
  | .var name => return [.triple ⟨s, .var name, o⟩]
  | .path p => ofPath s p o

/-! ### Blocks -/

/-- Reads an object. -/
def graphNode (n : NestedTerms) : Parser Described :=
  (do return ⟨← varOrTerm, []⟩) <|> n.described

/-- Reads a verb. -/
def verb (n : NestedTerms) : Parser Verb :=
  (.path <$> if n.paths then path n else .iri <$> pathIri) <|> (.var <$> variableName)

/-- Reads a verb with its objects. -/
def verbObjects (n : NestedTerms) : Parser (Verb × List Described) := do
  let v ← spaced (verb n)
  return (v, ← sepBy1 (spaced (graphNode n)) comma)

/-- Reads a semicolon and, if there is one, a verb with its objects. -/
def nextVerb (n : NestedTerms) : Parser (Option (Verb × List Described)) := do
  char ';'
  space
  optional (spaced (verbObjects n))

/-- Reads the verbs and objects of a subject. -/
def properties (n : NestedTerms) : Parser (List (Verb × List Described)) := do
  let first ← verbObjects n
  return first :: (← many (nextVerb n)).filterMap id

/-- The statements of a subject; those about nested nodes come first. -/
def statementsOf (s : Node) (ps : List (Verb × List Described)) : Parser (List Statement) := do
  let inner := ps.flatMap fun (_, os) => os.flatMap Described.statements
  let own ← ps.mapM fun (v, os) => os.mapM fun o => ofVerb s v o.node
  return inner ++ own.flatten.flatten

/-- Reads brackets with the properties of a node of their own. -/
def bracketed (n : NestedTerms) : Parser Described := do
  char '['
  space
  let ps ← spaced (properties n)
  char ']'
  let node := Node.resource (← anonymous)
  return ⟨node, ← statementsOf node ps⟩

/-- The list of the given members. -/
def listOf : List Described → Parser Described
  | [] => return ⟨.iri Vocabulary.rdfNil, []⟩
  | m :: ms => do
    let rest ← listOf ms
    let cell := Node.resource (← anonymous)
    return ⟨cell, rest.statements ++
      [.triple ⟨cell, .iri Vocabulary.rdfFirst, m.node⟩,
        .triple ⟨cell, .iri Vocabulary.rdfRest, rest.node⟩] ++ m.statements⟩

/-- Reads the members of a list. -/
def collection (n : NestedTerms) : Parser Described := do
  char '('
  space
  let members ← many1 (spaced (graphNode n))
  char ')'
  listOf members

/-- Reads what nests up to the given depth. -/
def nestedTerms (paths : Bool) : Nat → NestedTerms
  | 0 => ⟨paths, failure, failure⟩
  | depth + 1 =>
    let n := nestedTerms paths depth
    ⟨paths, path n, collection n <|> bracketed n⟩

/-- Reads the statements about one subject. -/
def sameSubject (n : NestedTerms) : Parser (List Statement) :=
  (do
    let s ← spaced varOrTerm
    statementsOf s (← properties n)) <|>
  (do
    let s ← spaced n.described
    let ps ← optional (properties n)
    return s.statements ++ (← statementsOf s.node (ps.getD [])))

/-- Reads statements with dots between them. -/
def triplesBlock (n : NestedTerms) : Parser (List Statement) := do
  let blocks ← sepBy1 (spaced (sameSubject n)) (separator '.')
  let _ ← optional (separator '.')
  return blocks.flatten

end Parser

end SparqlCompose.Sparql
