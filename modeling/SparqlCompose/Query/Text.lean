import SparqlCompose.Query.Basic

/-!
# The text of a query

A query is written as `PREFIX` lines, the list of results, the body between braces, the order
keys and the slice.  In the body a pattern with the subject of the one before it repeats only
its predicate and object after a semicolon, and one with the same subject and predicate only
its object after a comma.  The `PREFIX` lines bind the prefixes that the rest of the text
uses, in ascending order.
-/

namespace SparqlCompose

/-- The part of the solutions that is wanted. -/
structure Slice where
  offset : Option Nat := none
  limit : Option Nat := none
deriving DecidableEq, Repr

namespace Query

/-! ### Terms in the body -/

/-- A slot in query text; a bound variable is written as its value. -/
def termText (q : Query) (t : PrefixTable) : Term → Except QueryError String
  | .var id => (q.var id).map (·.inline t)
  | .resource r => .ok (r.render t)
  | .literal l => .ok (l.render t)

/-- A predicate in query text: class membership is written `a`. -/
def predicateText (q : Query) (t : PrefixTable) (p : Term) : Except QueryError String :=
  if p = .resource (.iri Vocabulary.rdfType) then .ok "a" else q.termText t p

/-! ### The body -/

/-- The space before a statement. -/
def indent (depth : Nat) : String := String.ofList (List.replicate (2 * depth) ' ')

/-- What ends the statement of the pattern written last. -/
def stop (previous : Option Pattern) : String :=
  if previous.isSome then " .\n" else ""

/-- A pattern after the pattern before it. -/
def patternText (q : Query) (t : PrefixTable) (depth : Nat) (previous : Option Pattern)
    (p : Pattern) : Except QueryError String := do
  let o ← q.termText t p.object
  let full := do
    return stop previous ++ indent depth ++ (← q.termText t p.subject) ++ " " ++
      (← q.predicateText t p.predicate) ++ " " ++ o
  match previous with
  | none => full
  | some prev =>
    if prev.subject = p.subject then
      if prev.predicate = p.predicate then return ", " ++ o
      else
        return " ;\n" ++ indent (depth + 1) ++ (← q.predicateText t p.predicate) ++ " " ++ o
    else full

/-- The pattern that an abbreviation after a clause may refer to. -/
def lastPattern : Clause → Option Pattern
  | .pattern p => some p
  | .service _ _ _ => none

mutual

/-- A clause after the pattern before it. -/
def clauseText (q : Query) (t : PrefixTable) (depth : Nat) (previous : Option Pattern) :
    Clause → Except QueryError String
  | .pattern p => q.patternText t depth previous p
  | .service e cs _ => do
    return stop previous ++ indent depth ++ "SERVICE <" ++ e ++ "> \x7b\n" ++
      (← clausesText q t (depth + 1) none cs) ++ indent depth ++ "\x7d\n"

/-- A list of clauses after the pattern before it. -/
def clausesText (q : Query) (t : PrefixTable) (depth : Nat) (previous : Option Pattern) :
    List Clause → Except QueryError String
  | [] => .ok (stop previous)
  | c :: cs => do
    return (← clauseText q t depth previous c) ++
      (← clausesText q t depth (lastPattern c) cs)

end

/-- The body, one statement or abbreviation to a line. -/
def bodyText (q : Query) (t : PrefixTable) : Except QueryError String :=
  q.clausesText t 1 none q.clauses

/-! ### The prefixes that a text uses -/

/-- The IRIs that a literal writes: its datatype, unless it is written bare. -/
def literalIris (l : Literal) : List String :=
  if l.isBare then [] else l.datatype?.toList

/-- The IRIs that a constant writes. -/
def constantIris : Constant → List String
  | .resource (.iri text) => [text]
  | .resource (.blank _) => []
  | .literal l => literalIris l

/-- The IRIs that a variable writes: those of its value. -/
def variableIris (q : Query) (id : VarId) : Except QueryError (List String) :=
  (q.var id).map fun v => v.bound.elim [] constantIris

/-- The IRIs that a slot writes. -/
def termIris (q : Query) : Term → Except QueryError (List String)
  | .var id => q.variableIris id
  | .resource r => .ok (constantIris (.resource r))
  | .literal l => .ok (literalIris l)

/-- The IRIs that a pattern writes.  Class membership is written without its IRI. -/
def patternIris (q : Query) (p : Pattern) : Except QueryError (List String) := do
  let s ← q.termIris p.subject
  let m ← if p.predicate = .resource (.iri Vocabulary.rdfType) then pure []
    else q.termIris p.predicate
  return s ++ m ++ (← q.termIris p.object)

/-- The IRIs that the text of a query writes. -/
def iris (q : Query) : Except QueryError (List String) := do
  let inBody ← q.patterns.mapM q.patternIris
  let inColumns ← q.projections.mapM q.variableIris
  let inOrder ← q.order.mapM fun k => q.variableIris k.variableId
  return inBody.flatten ++ inColumns.flatten ++ inOrder.flatten

/-- Puts a pair into a list that is sorted by first components, unless its first component
is there already. -/
def insertSorted (e : String × String) : List (String × String) → List (String × String)
  | [] => [e]
  | d :: ds =>
    if e.1 < d.1 then e :: d :: ds
    else if e.1 = d.1 then d :: ds
    else d :: insertSorted e ds

/-- The prefix that compaction writes for an IRI, with its namespace. -/
def usedPrefix? (t : PrefixTable) (iri : String) : Option (String × String) := do
  let name ← t.compactingPrefix? iri
  let ns ← t.namespaces.get? name
  return (name, ns)

/-- The prefixes that the compacted IRIs use, in ascending order. -/
def usedPrefixes (t : PrefixTable) (iris : List String) : List (String × String) :=
  (iris.filterMap (usedPrefix? t)).foldl (fun acc e => insertSorted e acc) []

/-- A `PREFIX` line. -/
def prefixLine (e : String × String) : String :=
  "PREFIX " ++ e.1 ++ ": <" ++ e.2 ++ ">\n"

/-- The `PREFIX` lines for the text of a query and for further constants beside it. -/
def prefixText (q : Query) (t : PrefixTable) (extra : List Constant) :
    Except QueryError String := do
  let used := usedPrefixes t ((← q.iris) ++ extra.flatMap constantIris)
  return String.join (used.map prefixLine)

/-! ### The whole text -/

/-- The list of results; `*` stands for an empty list. -/
def columnsText (q : Query) (t : PrefixTable) : Except QueryError String := do
  if q.projections.isEmpty then return "*"
  return " ".intercalate ((← q.projectedVariables).map (·.projected t))

/-- An order key. -/
def orderKeyText (q : Query) (t : PrefixTable) (k : OrderKey) : Except QueryError String := do
  return k.direction.word ++ "(" ++ (← q.var k.variableId).inline t ++ ")"

/-- The line of the order keys, if there are any. -/
def orderText (q : Query) (t : PrefixTable) : Except QueryError String := do
  if q.order.isEmpty then return ""
  return "ORDER BY " ++ " ".intercalate (← q.order.mapM (q.orderKeyText t)) ++ "\n"

/-- A line of the slice, if it is wanted. -/
def sliceLine (word : String) : Option Nat → String
  | some n => word ++ " " ++ toString n ++ "\n"
  | none => ""

/-- The text of a query. -/
def text (q : Query) (t : PrefixTable) (slice : Slice) : Except QueryError String := do
  return (← q.prefixText t []) ++ "SELECT " ++ (← q.columnsText t) ++ "\nWHERE \x7b\n" ++
    (← q.bodyText t) ++ "\x7d\n" ++ (← q.orderText t) ++
    sliceLine "OFFSET" slice.offset ++ sliceLine "LIMIT" slice.limit

end Query

end SparqlCompose
