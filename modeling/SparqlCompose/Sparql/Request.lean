import SparqlCompose.Sparql.Group

/-!
# Reading requests

A request is the text of a query of any form.  It may declare a base IRI and prefixes first.
-/

namespace SparqlCompose.Sparql

/-- What a text asks for. -/
inductive Request where
  /-- Solutions of a pattern. -/
  | select (hasDataset : Bool) (pattern : Algebra)
  /-- A truth value, a graph or a description. -/
  | other

/-- The length of the longest run of the letter `g`, where `current` of them have just been
passed. -/
def longestRun (current : Nat) : List Char → Nat
  | [] => current
  | c :: cs => if c == 'g' then longestRun (current + 1) cs else max current (longestRun 0 cs)

/-- A lead for labels that no label of the text has: more letters `g` than any run in it. -/
def unusedLead (text : List Char) : String :=
  String.ofList (List.replicate (longestRun 0 text + 1) 'g')

namespace Parser

/-- Reads a declaration. -/
def declaration : Parser Unit :=
  (do
    word "BASE"
    let base ← iriRef
    declare fun s => { s with base := some base }) <|>
  (do
    word "PREFIX"
    let name ← prefixName
    space
    let ns ← iriRef
    declare fun s => { s with prefixes := (name, ns) :: s.prefixes })

/-- Reads the graphs that a query asks; the answer is whether there are any. -/
def dataset : Parser Bool := do
  let clauses ← many (spaced do
    word "FROM"
    let _ ← iri <|> (do word "NAMED"; iri))
  return !clauses.isEmpty

/-- Reads a query for a truth value. -/
def ask (n : Nested) : Parser Unit := do
  word "ASK"
  let _ ← spaced dataset
  let _ ← spaced (whereClause n)
  let _ ← modifiers n

/-- The columns of the variables among what is to be described. -/
def describedColumns (nodes : List Node) : List Column :=
  (nodes.filterMap Node.var?).map .var

/-- Reads a query for a description, which names its variables by the same rules as a
selection. -/
def describe (n : Nested) : Parser Unit := do
  word "DESCRIBE"
  let nodes ← spaced ((do char '*'; return none) <|> (some <$> many1 (spaced varOrIri)))
  let _ ← spaced dataset
  let body ← spaced (optional (whereClause n))
  let m ← modifiers n
  if let some nodes := nodes then
    let _ ← selected .kept (some (describedColumns nodes)) (body.getD .empty) m

/-- Reads triples in braces, or what may stand in their place. -/
def template (n : NestedTerms) (other : Parser Unit) : Parser Unit := do
  char '\x7b'
  space
  (do let _ ← triplesBlock n) <|> other
  space
  char '\x7d'

/-- Reads a query for a graph.  Its triples may be no more than a dot, unless they are the pattern
too. -/
def construct (n : Nested) (t : NestedTerms) : Parser Unit :=
  (do
    word "CONSTRUCT"
    spaced (template t (do let _ ← optional (char '.')))
    let _ ← spaced dataset
    let _ ← spaced (whereClause n)
    let _ ← modifiers n) <|>
  (do
    word "CONSTRUCT"
    let _ ← spaced dataset
    word "WHERE"
    spaced (template t (pure ()))
    let _ ← modifiers n)

/-- Reads a request. -/
def request (depth : Nat) : Parser Request := do
  let n := nested (nestedTerms true depth) depth
  space
  let _ ← many (spaced declaration)
  space
  let r ← select n <|> (do
    construct n (nestedTerms false depth) <|> describe n <|> ask n
    return .other)
  space
  return r
where
  select (n : Nested) : Parser Request := do
    let (d, p) ← selection n dataset
    return .select d p

end Parser

namespace Request

/-- The request of a text, if it is one. -/
def ofText? (text : String) : Option Request :=
  let cs := text.toList
  let scope : Scope := { anonymousLead := unusedLead cs }
  match (((Parser.request (cs.length + 1)).run cs).run scope).1 with
  | some (r, []) => some r
  | _ => none

end Request

end SparqlCompose.Sparql
