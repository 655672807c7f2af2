import SparqlCompose.Query.Text
import SparqlCompose.Sparql.Request

/-!
# Reading queries from text

A query holds triple patterns, blocks for endpoints, result columns with constants, order
keys that are variables, and a slice.  A text that asks for anything else is refused, so that
no part of it is dropped.
-/

namespace SparqlCompose

open Sparql

/-- Why a text is no query of this library. -/
inductive SelectError where
  /-- The text breaks the rules of SPARQL. -/
  | malformed
  /-- The text does not ask for solutions. -/
  | notSelect
  | unsupported (construct : String)
  | query (fault : QueryError)
deriving DecidableEq, Repr

/-- The wording of the error. -/
def SelectError.message : SelectError → String
  | .malformed => "Malformed SPARQL"
  | .notSelect => "Only SELECT queries are supported"
  | .unsupported construct => "Unsupported construct: " ++ construct
  | .query fault => fault.message

namespace Sparql

/-- A step on a query, where a text is being read. -/
def onQuery {α : Type} (r : Except QueryError α) : Except SelectError α := r.mapError .query

/-- What a pattern that a query cannot hold is called. -/
def Algebra.constructName : Algebra → String
  | .leftJoin _ _ _ => "OPTIONAL"
  | .filter _ _ => "FILTER"
  | .union _ _ => "UNION"
  | .minus _ _ => "MINUS"
  | .graph _ _ => "GRAPH"
  | .values _ _ => "VALUES"
  | .group _ _ => "GROUP BY"
  | .path _ _ _ => "property path"
  | .extend _ _ _ => "BIND"
  | .project _ _ => "sub-SELECT"
  | .service _ _ _ => "SERVICE SILENT or variable SERVICE"
  | _ => "graph pattern"

/-- Refuses a pattern. -/
def unsupported {α : Type} (p : Algebra) : Except SelectError α :=
  .error (.unsupported p.constructName)

/-- Values that variables get from constants, innermost first, and the pattern below. -/
def bindings : Algebra → Except SelectError (List (String × Constant) × Algebra)
  | .extend p v e =>
    match e.constant? with
    | some c => do
      let (bs, body) ← bindings p
      return (bs ++ [(v, c.normal)], body)
    | none => .error (.unsupported ("expression bound to ?" ++ v))
  | p => .ok ([], p)

/-- The place of a variable, which is added if it is new. -/
def intern (q : Query) (name : String) : Except SelectError (VarId × Query) :=
  onQuery (q.internVariable { uri := q.variableUri name, name := name })

/-- The slot of a node. -/
def readNode (q : Query) : Node → Except SelectError (Term × Query)
  | .var name => do
    let (id, q) ← intern q name
    return (.var id, q)
  | .resource r => .ok (.resource r, q)
  | .literal l => .ok (.literal l.normal, q)

/-- The clause of a triple pattern. -/
def readTriple (q : Query) (t : TriplePattern) : Except SelectError (Clause × Query) := do
  let (s, q) ← readNode q t.subject
  let (p, q) ← readNode q t.predicate
  let (o, q) ← readNode q t.object
  return (.pattern (← onQuery (Pattern.make s p o)), q)

/-- The clauses of a list of triple patterns. -/
def readTriples (q : Query) : List TriplePattern → Except SelectError (List Clause × Query)
  | [] => .ok ([], q)
  | t :: ts => do
    let (c, q) ← readTriple q t
    let (cs, q) ← readTriples q ts
    return (c :: cs, q)

/-- The clauses of a pattern, in the order of the text; their variables are added to the
query. -/
def readClauses (q : Query) : Algebra → Except SelectError (List Clause × Query)
  | .bgp ts => readTriples q ts
  | .join l r => do
    let (cs, q) ← readClauses q l
    let (ds, q) ← readClauses q r
    return (cs ++ ds, q)
  | .service (.resource (.iri e)) p false => do
    let (cs, q) ← readClauses q p
    return ([.block e cs], q)
  | p => unsupported p

/-- Adds a result column. -/
def readColumn (q : Query) (name : String) : Except SelectError Query := do
  let (id, q) ← intern q name
  return (← onQuery (q.project id)).2

/-- Binds a variable to a constant. -/
def readBinding (q : Query) (b : String × Constant) : Except SelectError Query := do
  let (id, q) ← intern q b.1
  return (← onQuery (q.setBound id (some b.2))).2

/-- Adds an order key, which must be a variable of the query. -/
def readKey (q : Query) (k : Direction × Expr) : Except SelectError Query :=
  match k.2 with
  | .var name =>
    match q.idOf? name with
    | some id => onQuery (q.pushOrder ⟨k.1, id⟩)
    | none => .error (.query (.orderExpression name))
  | e => .error (.query (.orderExpression e.text))

/-- The order keys of a pattern, and the pattern below. -/
def orderKeys : Algebra → List (Direction × Expr) × Algebra
  | .orderBy p ks => (ks, p)
  | p => ([], p)

/-- The query of a pattern with the given columns. -/
def readProjection (uri : String) (p : Algebra) (columns : List String) :
    Except SelectError Query := do
  let (outer, p) ← bindings p
  let (keys, p) := orderKeys p
  let (inner, p) ← bindings p
  let q : Query := { uri := uri }
  let q ← columns.foldlM readColumn q
  let q ← (outer ++ inner).foldlM readBinding q
  let (cs, q) ← readClauses q p
  let q ← cs.foldlM (fun q c => onQuery (q.pushClause c)) q
  keys.foldlM readKey q

/-- The query of an algebra, and the slice of its solutions that is wanted. -/
def readAlgebra (uri : String) : Algebra → Except SelectError (Query × Slice)
  | .slice p start length => do
    let (q, s) ← readAlgebra uri p
    return (q, { s with offset := if start = 0 then s.offset else some start, limit := length })
  | .project p columns => return (← readProjection uri p columns, {})
  | .distinct _ => .error (.unsupported "DISTINCT")
  | .reduced _ => .error (.unsupported "REDUCED")
  | p => unsupported p

end Sparql

/-- Reads a query from its text, under the given URI. -/
def Query.ofText (text uri : String) : Except SelectError (Query × Slice) :=
  match Request.ofText? text with
  | none => .error .malformed
  | some .other => .error .notSelect
  | some (.select true _) => .error (.unsupported "FROM")
  | some (.select false p) => readAlgebra uri p

end SparqlCompose
