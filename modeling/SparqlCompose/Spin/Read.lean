import SparqlCompose.Query.Basic
import SparqlCompose.Spin.Error

/-!
# Reading a query from its description

The node of a query has a type, notes, and lists of result columns, patterns and order keys.
A node with a `sp:varName` is a variable; every other IRI, blank node or literal stands for
itself.  A description that says more than a query can hold is refused, so that nothing of it
is lost.
-/

namespace SparqlCompose

namespace Spin

/-- A description: the graph, the URI of the query, and the number of members that a list
may have. -/
structure Source where
  graph : Graph
  uri : String
  limit : Nat

/-- The number of members that a list may have if nothing else is said. -/
def defaultLimit : Nat := 10000

/-- Refuses a node that is no query for solutions. -/
def checkType (g : Graph) (node : Resource) : Except SpinError Unit :=
  let types := ((g.objects node Vocabulary.rdfType).filterMap Constant.iri?).filter
    (· != Vocabulary.sp "Query")
  if types.contains (Vocabulary.sp "Select") then .ok ()
  else match types with
    | other :: _ => .error (.unsupportedType other)
    | [] => .error (.missingType node.name)

/-- Predicates that change what a query means and that a query of this kind cannot hold. -/
def modifiers : List String :=
  ["distinct", "reduced", "groupBy", "having", "limit", "offset", "from", "fromNamed",
    "values"].map Vocabulary.sp

/-- Whether a modifier with this value says the same as no modifier. -/
def isDisabled (modifier : String) (value : Constant) : Bool :=
  [Vocabulary.sp "distinct", Vocabulary.sp "reduced"].contains modifier &&
    value.isLiteral && ["false", "0"].contains value.lexical

/-- Refuses a modifier of the query. -/
def checkModifier (g : Graph) (node : Resource) (modifier : String) : Except SpinError Unit :=
  match g.object? node modifier with
  | none => .ok ()
  | some value =>
    if isDisabled modifier value then .ok ()
    else .error (.unsupported ("<" ++ modifier ++ ">"))

namespace Source

/-- The members of the list that is the value of a predicate; without a value there are
none. -/
def members (src : Source) (node : Resource) (predicate : String) :
    Except SpinError (List Constant) :=
  match src.graph.object? node predicate with
  | some head => (src.graph.collect head src.limit).mapError .list
  | none => .ok []

/-- The value of a predicate that a node must have. -/
def required (src : Source) (node : Resource) (predicate : String) :
    Except SpinError Constant :=
  match src.graph.object? node predicate with
  | some value => .ok value
  | none => .error (.unsupported (node.canonical ++ " without <" ++ predicate ++ ">"))

/-- A list member as a node. -/
def nodeOf (member : Constant) : Except SpinError Resource :=
  match member with
  | .resource node => .ok node
  | .literal l => .error (.unsupported ("literal " ++ l.canonical ++ " where a node is expected"))

/-- The name of a node that is a variable. -/
def variableName? (src : Source) (node : Resource) : Option String :=
  src.graph.literal? node (Vocabulary.sp "varName")

/-- The variable of a node.  A blank node has no URI of its own and gets one from the query
and the name. -/
def variableOf (src : Source) (node : Resource) (name : String) : Variable where
  uri := match node with
    | .iri text => text
    | .blank _ => src.uri ++ ";bn=" ++ name
  name := name
  label := src.graph.literal? node Vocabulary.rdfsLabel
  comment := src.graph.literal? node Vocabulary.rdfsComment

/-- Adds the result column of a list member. -/
def readColumn (src : Source) (q : Query) (member : Constant) : Except SpinError Query := do
  let node ← nodeOf member
  if (src.graph.object? node (Vocabulary.sp "expression")).isSome then
    throw (.unsupported ("computed result variable " ++ node.canonical))
  match src.variableName? node with
  | none => throw (.unsupported ("result expression " ++ node.canonical ++ " is not a variable"))
  | some name =>
    let (id, q) ← SpinError.ofQuery (q.internVariable (src.variableOf node name))
    return (← SpinError.ofQuery (q.project id)).2

/-- The slot of a node; a variable is added to the query if it is new. -/
def readTerm (src : Source) (q : Query) (c : Constant) : Except SpinError (Term × Query) :=
  match c with
  | .literal l => .ok (.literal l.normal, q)
  | .resource node =>
    match src.variableName? node with
    | some name => do
      let (id, q) ← SpinError.ofQuery (q.internVariable (src.variableOf node name))
      return (.var id, q)
    | none =>
      match node with
      | .iri text => .ok (.resource (.iri text), q)
      | .blank label => .ok (.resource (.ofLabel label), q)

/-- The slot that a pattern has under a predicate. -/
def readSlot (src : Source) (node : Resource) (predicate : String) (q : Query) :
    Except SpinError (Term × Query) := do
  src.readTerm q (← src.required node predicate)

/-- Adds the pattern of a list member. -/
def readPattern (src : Source) (q : Query) (member : Constant) : Except SpinError Query := do
  let node ← nodeOf member
  let types := src.graph.objects node Vocabulary.rdfType
  match types.find? (·.iri? != some (Vocabulary.sp "TriplePattern")) with
  | some kind => throw (.unsupported kind.canonical)
  | none =>
    let (s, q) ← src.readSlot node (Vocabulary.sp "subject") q
    let (p, q) ← src.readSlot node (Vocabulary.sp "predicate") q
    let (o, q) ← src.readSlot node (Vocabulary.sp "object") q
    SpinError.ofQuery (do q.pushClause (.pattern (← Pattern.make s p o)))

/-- The direction of an order key, and the node to sort by.  A key without a direction is
itself the node, and sorts ascending. -/
def readDirection (src : Source) (node : Resource) : Except SpinError (Direction × Constant) :=
  let kind := (src.graph.object? node Vocabulary.rdfType).bind Constant.iri?
  if kind = some (Vocabulary.sp "Asc") then
    (src.required node (Vocabulary.sp "expression")).map (.ascending, ·)
  else if kind = some (Vocabulary.sp "Desc") then
    (src.required node (Vocabulary.sp "expression")).map (.descending, ·)
  else .ok (.ascending, .resource node)

/-- The variable of the query that a node sorts by. -/
def orderVariable (src : Source) (q : Query) (c : Constant) : Except QueryError VarId :=
  match c.resource?.bind src.variableName? with
  | none => .error (.orderExpression c.canonical)
  | some name =>
    match q.idOf? name with
    | some id => .ok id
    | none => .error (.orderExpression name)

/-- Adds the order key of a list member. -/
def readKey (src : Source) (q : Query) (member : Constant) : Except SpinError Query := do
  let (direction, c) ← src.readDirection (← nodeOf member)
  SpinError.ofQuery (do q.pushOrder ⟨direction, ← src.orderVariable q c⟩)

end Source

end Spin

open Spin in
/-- Reads the query that a graph describes under a URI.  Its lists may have up to `limit`
members each. -/
def Graph.readQuery (g : Graph) (uri : String) (limit : Nat) : Except SpinError Query := do
  let root := Resource.iri (← SpinError.ofTerm (checkIri uri))
  let src : Source := ⟨g, uri, limit⟩
  checkType g root
  modifiers.forM (checkModifier g root)
  let q : Query :=
    { uri := uri
      label := g.literal? root Vocabulary.rdfsLabel
      comment := g.literal? root Vocabulary.rdfsComment }
  let q ← (← src.members root (Vocabulary.sp "resultVariables")).foldlM src.readColumn q
  let q ← (← src.members root (Vocabulary.sp "where")).foldlM src.readPattern q
  (← src.members root (Vocabulary.sp "orderBy")).foldlM src.readKey q

end SparqlCompose
