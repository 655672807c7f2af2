import SparqlCompose.OrderedMap
import SparqlCompose.Query.Clause
import SparqlCompose.Query.Name
import SparqlCompose.Query.Variable

/-!
# Queries

A query owns a table of variables.  Its results, clauses and order keys name a variable by
its place in the table, so two occurrences of a variable are one entry.  Entries are never
removed and new ones go to the end, so a place keeps its meaning.

Operations check the places that they are given.  A query that was read from a snapshot may
hold places outside its table; `Query.validate` finds most of them, and an operation that
runs into one answers `QueryError.dangling`.
-/

namespace SparqlCompose

/-- The direction of an order key. -/
inductive Direction where
  | ascending
  | descending
deriving DecidableEq, Repr

/-- The word for a direction in query text. -/
def Direction.word : Direction → String
  | .ascending => "ASC"
  | .descending => "DESC"

/-- A variable by which the solutions are sorted. -/
structure OrderKey where
  direction : Direction
  variableId : VarId
deriving DecidableEq, Repr

/-- A query that selects solutions. -/
structure Query where
  uri : String
  label : Option String := none
  comment : Option String := none
  /-- The variable table, under the names of the variables. -/
  table : OrderedMap Variable := ∅
  /-- The result columns; with none, all variables are shown. -/
  projections : List VarId := []
  clauses : List Clause := []
  order : List OrderKey := []
  /-- Known endpoints, each once, in the order in which they were added. -/
  endpoints : List String := []
  activeEndpoint : Option String := none
  /-- The instance to which the variables are scoped. -/
  instanceId : Option String := none

namespace Query

/-- The label, or the URI of a query without one. -/
def displayLabel (q : Query) : String := q.label.getD q.uri

/-- The URI of a new variable. -/
def variableUri (q : Query) (name : String) : String :=
  let own := q.uri ++ ";var=" ++ name
  match q.instanceId with
  | some id => own ++ String.ofList Variable.instanceMark ++ id
  | none => own

/-- Gives every variable an identity of its own in an instance.  Variables made later get the
same scope. -/
def scopeTo (q : Query) (instanceId : String) : Query :=
  { q with table := q.table.map (·.scopeTo instanceId), instanceId := some instanceId }

/-! ### The variable table -/

/-- The variable at a place of the table. -/
def var (q : Query) (id : VarId) : Except QueryError Variable :=
  match q.table.at? id with
  | some v => .ok v
  | none => .error (.dangling id)

/-- The place of a name. -/
def idOf? (q : Query) (name : String) : Option VarId := q.table.idxOf? name

/-- The place of a name, which may be written with a leading question mark. -/
def resolve (q : Query) (name : String) : Except QueryError VarId :=
  match q.idOf? (bareName name) with
  | some id => .ok id
  | none => .error (.unknownVariable (bareName name))

/-- Refuses a place that the table does not have. -/
def checkId (q : Query) (id : VarId) : Except QueryError Unit :=
  if id < q.table.size then .ok () else .error (.unknownId id)

/-- Adds a variable with a new name; the answer is its place. -/
def addVariable (q : Query) (v : Variable) : Except QueryError (VarId × Query) :=
  if !isVarName v.name then .error (.invalidName v.name)
  else if q.table.contains v.name then .error (.duplicateVariable v.name)
  else .ok (q.table.size, { q with table := q.table.insert v.name v })

/-- The place of the variable's name, where the variable is added if the name is new. -/
def internVariable (q : Query) (v : Variable) : Except QueryError (VarId × Query) :=
  match q.idOf? v.name with
  | some id => .ok (id, q)
  | none => q.addVariable v

/-- Adds a variable whose name is `base`, or `base` with a number where that is taken. -/
def freshVariable (q : Query) (base : String) : Except QueryError (VarId × Query) :=
  let base := bareName base
  if !isVarName base then .error (.invalidName base)
  else
    let name := uniqueName base q.table.keys
    q.addVariable { uri := q.variableUri name, name := name }

/-- The constant that the variable at a place is bound to. -/
def boundAt (q : Query) (id : VarId) : Option Constant :=
  (q.table.at? id).bind Variable.bound

/-- Sets or clears the value of a variable; the answer holds the earlier value. -/
def setBound (q : Query) (id : VarId) (value : Option Constant) :
    Except QueryError (Option Constant × Query) := do
  q.checkId id
  return (q.boundAt id,
    { q with table := q.table.modifyAt id fun v => { v with bound := value } })

/-! ### Result columns -/

/-- Whether a place is among the result columns. -/
def isProjected (q : Query) (id : VarId) : Bool := q.projections.contains id

/-- The variables of the result columns. -/
def projectedVariables (q : Query) : Except QueryError (List Variable) :=
  q.projections.mapM q.var

/-- The names of the result columns. -/
def projectedNames (q : Query) : Except QueryError (List String) :=
  (q.projectedVariables).map (·.map Variable.name)

/-- Adds a result column; the answer is whether it is a new one. -/
def project (q : Query) (id : VarId) : Except QueryError (Bool × Query) := do
  q.checkId id
  if q.isProjected id then return (false, q)
  return (true, { q with projections := q.projections ++ [id] })

/-- Removes a result column; the answer is whether it was one. -/
def unproject (q : Query) (id : VarId) : Bool × Query :=
  (q.isProjected id, { q with projections := q.projections.filter (· != id) })

/-- The first name of a list whose number of occurrences differs between two lists. -/
def firstMiscounted (xs ys : List String) (names : List String) : Option String :=
  names.find? fun n => xs.count n != ys.count n

/-- Puts the result columns into the given order, which must name each of them once.  If it
does not, the answer names the first name at fault, in the present order and then in the
order of the list. -/
def reorder (q : Query) (order : List String) : Except QueryError Query := do
  let present ← q.projectedNames
  let wanted := order.map bareName
  match firstMiscounted present wanted (present ++ wanted) with
  | some name => .error (.projectionMismatch name)
  | none => return { q with projections := ← order.mapM q.resolve }

/-! ### Clauses, order keys and endpoints -/

/-- Refuses a clause with a place that the table does not have.  Of the variables that
blocks list as their own, those of the outermost block are checked. -/
def checkClause (q : Query) (c : Clause) : Except QueryError Unit := do
  c.varIds.forM q.checkId
  match c with
  | .service _ _ vs => vs.forM q.checkId
  | .pattern _ => return ()

/-- Adds a clause at the end of the body. -/
def pushClause (q : Query) (c : Clause) : Except QueryError Query := do
  q.checkClause c
  return { q with clauses := q.clauses ++ [c] }

/-- All triple patterns of the body, also those in blocks. -/
def patterns (q : Query) : List Pattern := Clause.patternsAll q.clauses

/-- Adds an order key after the others. -/
def pushOrder (q : Query) (k : OrderKey) : Except QueryError Query := do
  q.checkId k.variableId
  return { q with order := q.order ++ [k] }

/-- Records an endpoint. -/
def addEndpoint (q : Query) (uri : String) : Query :=
  { q with endpoints := appendNew q.endpoints uri }

/-- Records an endpoint and makes it the active one. -/
def activate (q : Query) (uri : String) : Query :=
  { q.addEndpoint uri with activeEndpoint := some uri }

/-- Checks that result columns, order keys and clauses name places of the table, and that
every variable stands under its own name. -/
def validate (q : Query) : Except QueryError Unit := do
  q.projections.forM q.checkId
  q.order.forM fun k => q.checkId k.variableId
  q.clauses.forM q.checkClause
  match q.table.entries.find? fun e => e.1 != e.2.name with
  | some (name, _) => .error (.duplicateVariable name)
  | none => return ()

/-! ### Equality -/

/-- Whether two tables hold the same variables under the same names, in any order. -/
def sameTable (t u : OrderedMap Variable) : Bool :=
  t.size == u.size && t.entries.all fun (k, v) => (u.get? k).any v.same

/-- Whether two queries are equal.  Variables are compared by URI and name; the order of the
table and of the endpoints does not matter. -/
def same (q r : Query) : Bool :=
  q.uri == r.uri && q.label == r.label && q.comment == r.comment &&
    sameTable q.table r.table && q.projections == r.projections &&
    Clause.sameAll q.clauses r.clauses && q.order == r.order &&
    (q.endpoints.length == r.endpoints.length && q.endpoints.all r.endpoints.contains) &&
    q.activeEndpoint == r.activeEndpoint && q.instanceId == r.instanceId

end Query

end SparqlCompose
