import SparqlCompose.Sparql.Expression
import SparqlCompose.Sparql.Selection

/-!
# Reading graph patterns

A graph pattern in braces is read step by step, and each step changes the pattern that stands
before it.  Its conditions apply to the whole group, wherever they stand.  Instead of steps
the braces may hold a selection of its own.
-/

namespace SparqlCompose.Sparql

/-- A step of a graph pattern. -/
inductive GroupStep where
  /-- A pattern beside what stands before. -/
  | beside (p : Algebra)
  | optional (p : Algebra)
  | minus (p : Algebra)
  | bind (e : Expr) (variableName : String)
  | filter (e : Expr)

namespace GroupStep

/-- The pattern after a step.  A variable that has a value may not get another. -/
def apply (p : Algebra) : GroupStep → Option Algebra
  | .beside q => some (p.beside q)
  | .optional (.filter e q) => some (.leftJoin p q (some e))
  | .optional q => some (.leftJoin p q none)
  | .minus q => some (.minus p q)
  | .bind e v => if p.inScope.contains v then none else some (.extend p v e)
  | .filter _ => some p

/-- The condition of a step. -/
def condition? : GroupStep → Option Expr
  | .filter e => some e
  | _ => none

/-- The pattern of a group. -/
def algebra? (start : Algebra) (steps : List GroupStep) : Option Algebra := do
  return Selection.filtered (← steps.foldlM apply start) (steps.filterMap condition?)

end GroupStep

namespace Parser

/-! ### Steps of a group -/

/-- Reads a value in a row; `UNDEF` leaves the variable without one. -/
def dataValue : Parser (Option Constant) :=
  (do return some (.iri (← iri))) <|> (do return some (.literal (← literal))) <|>
  (do keyword "UNDEF"; return none)

/-- Reads rows for one variable. -/
def oneColumnData : Parser Algebra := do
  let v ← spaced variableName
  char '\x7b'
  space
  let values ← many (spaced dataValue)
  char '\x7d'
  return .values [v] (values.map ([·]))

/-- Reads a row in parentheses. -/
def dataRow : Parser (List (Option Constant)) := do
  char '('
  space
  let row ← many (spaced dataValue)
  char ')'
  return row

/-- Reads rows for a list of variables, each as long as the list. -/
def manyColumnData : Parser Algebra := do
  char '('
  space
  let vs ← many (spaced variableName)
  char ')'
  space
  char '\x7b'
  space
  let rows ← many (spaced dataRow)
  char '\x7d'
  guard (rows.all fun row => row.length == vs.length)
  return .values vs rows

/-- Reads rows of values. -/
def dataBlock : Parser Algebra := oneColumnData <|> manyColumnData

/-- Reads groups with `UNION` between them. -/
def unions (n : Nested) : Parser GroupStep := do
  match ← sepBy1 (spaced n.group) (do keyword "UNION"; space) with
  | [] => failure
  | p :: ps => return .beside (ps.foldl .union p)

/-- Reads a keyword and the space after it. -/
def word (w : String) : Parser Unit := do
  keyword w
  space

/-- Reads a pattern that an endpoint answers. -/
def serviceStep (n : Nested) : Parser GroupStep :=
  (do
    word "SERVICE"
    word "SILENT"
    let name ← spaced varOrIri
    return .beside (.service name (← n.group) true)) <|>
  (do
    word "SERVICE"
    let name ← spaced varOrIri
    return .beside (.service name (← n.group) false))

/-- Reads a computed value and its name, between parentheses. -/
def computedValue (n : Nested) : Parser (Expr × String) :=
  parens do
    let e ← spaced n.expression
    word "AS"
    return (e, ← variableName)

/-- Reads a step that is no triple. -/
def groupStep (n : Nested) : Parser GroupStep :=
  unions n <|>
  (do word "OPTIONAL"; return .optional (← n.group)) <|>
  (do word "MINUS"; return .minus (← n.group)) <|>
  (do
    word "GRAPH"
    let name ← spaced varOrIri
    return .beside (.graph name (← n.group))) <|>
  serviceStep n <|>
  (do word "FILTER"; return .filter (← constraint n)) <|>
  (do
    word "BIND"
    let (e, v) ← computedValue n
    return .bind e v) <|>
  (do word "VALUES"; return .beside (← dataBlock))

/-- Reads a step that is no triple, and the triples after it. -/
def groupItem (n : Nested) : Parser (List GroupStep) := do
  let step ← spaced (groupStep n)
  let _ ← optional (separator '.')
  match ← spaced (optional (triplesBlock n.terms)) with
  | some ts => return [step, .beside (Statement.algebra ts)]
  | none => return [step]

/-- Reads the steps of a group. -/
def groupBody (n : Nested) : Parser Algebra := do
  let first ← spaced (optional (triplesBlock n.terms))
  let steps ← many (groupItem n)
  let start := match first with
    | some ts => Statement.algebra ts
    | none => .empty
  (GroupStep.algebra? start steps.flatten : Option Algebra)

/-! ### Selections -/

/-- Reads a column. -/
def column (n : Nested) : Parser Column :=
  (.var <$> variableName) <|> (do
    let (e, v) ← computedValue n
    return .computed e v)

/-- Reads what becomes of repeated solutions. -/
def repetition : Parser Repetition :=
  (do keyword "DISTINCT"; return .distinct) <|> (do keyword "REDUCED"; return .reduced) <|>
  pure .kept

/-- Reads the columns. -/
def columns (n : Nested) : Parser (Option (List Column)) :=
  (do char '*'; return none) <|> (some <$> many1 (spaced (column n)))

/-- Reads the pattern of a query. -/
def whereClause (n : Nested) : Parser Algebra := do
  let _ ← optional (keyword "WHERE")
  space
  n.group

/-- Reads a key by which solutions are grouped. -/
def groupKey (n : Nested) : Parser GroupKey :=
  (do return ⟨← builtInCall n, ""⟩) <|>
  (do return ⟨← functionCall n, ""⟩) <|>
  (parens do
    let e ← spaced n.expression
    let v ← optional (do word "AS"; variableName)
    return key e v) <|>
  (do return key (.var (← variableName)) none)
where
  key (e : Expr) (v : Option String) : GroupKey :=
    match e with
    | .var name => ⟨e, name⟩
    | _ => ⟨e, v.getD ""⟩

/-- Reads an order key. -/
def orderKey (n : Nested) : Parser (Direction × Expr) :=
  (do word "ASC"; return (.ascending, ← bracketedExpression n)) <|>
  (do word "DESC"; return (.descending, ← bracketedExpression n)) <|>
  (do return (.ascending, ← constraint n)) <|>
  (do return (.ascending, .var (← variableName)))

/-- Reads a number of solutions after a keyword. -/
def count (w : String) : Parser Nat := do
  word w
  let n := decimal (← Scan.run1 Char.isDigit)
  guard (n < wordSize)
  return n

/-- Reads the part of the solutions that is wanted. -/
def sliceClause : Parser (Nat × Option Nat) :=
  (do
    let limit ← spaced (count "LIMIT")
    return ((← optional (count "OFFSET")).getD 0, some limit)) <|>
  (do
    let offset ← spaced (count "OFFSET")
    return (offset, ← optional (count "LIMIT")))

/-- The clauses after the pattern of a query. -/
structure Modifiers where
  groups : Option (List GroupKey)
  having : Option (List Expr)
  order : Option (List (Direction × Expr))
  slice : Option (Nat × Option Nat)
  values : Option Algebra

/-- Reads the clauses after the pattern of a query. -/
def modifiers (n : Nested) : Parser Modifiers := do
  let groups ← spaced (optional do
    word "GROUP"
    word "BY"
    many1 (spaced (groupKey n)))
  let having ← spaced (optional do
    word "HAVING"
    many1 (constraint n))
  let order ← spaced (optional do
    word "ORDER"
    word "BY"
    many1 (spaced (orderKey n)))
  let slice ← spaced (optional sliceClause)
  let values ← optional (do word "VALUES"; dataBlock)
  return ⟨groups, having, order, slice, values⟩

/-- Begins a query, which has no aggregate so far. -/
def openQuery : Parser Unit := declare fun s => { s with aggregates := false :: s.aggregates }

/-- Ends a query; the answer is whether it has an aggregate. -/
def closeQuery : Parser Bool := do
  let s ← scope
  declare fun s => { s with aggregates := s.aggregates.drop 1 }
  return s.aggregates.head?.getD false

/-- The algebra of a selection with the given clauses. -/
def selected (repetition : Repetition) (columns : Option (List Column)) (body : Algebra)
    (m : Modifiers) : Parser Algebra := do
  let s : Selection :=
    { repetition := repetition, columns := columns, body := body, groups := m.groups,
      having := m.having.getD [], order := m.order, slice := m.slice, values := m.values,
      hasAggregate := ← closeQuery }
  (s.algebra? : Option Algebra)

/-- Reads a selection; `dataset` reads what may stand between the columns and the pattern. -/
def selection {α : Type} (n : Nested) (dataset : Parser α) : Parser (α × Algebra) := do
  word "SELECT"
  openQuery
  let repetition ← spaced repetition
  let columns ← spaced (columns n)
  let d ← spaced dataset
  let body ← spaced (whereClause n)
  let m ← modifiers n
  return (d, ← selected repetition columns body m)

/-- Reads a graph pattern in braces. -/
def group (n : Nested) : Parser Algebra :=
  braced (groupBody n) <|> braced (Prod.snd <$> selection n (pure ()))
where
  braced (p : Parser Algebra) : Parser Algebra := do
    char '\x7b'
    space
    closePattern
    let a ← p
    closePattern
    space
    char '\x7d'
    return a

/-- Reads what nests up to the given depth; `terms` reads what nests inside of triples. -/
def nested (terms : NestedTerms) : Nat → Nested
  | 0 => ⟨terms, failure, failure⟩
  | depth + 1 =>
    let n := nested terms depth
    ⟨terms, expression n, group n⟩

end Parser

end SparqlCompose.Sparql
