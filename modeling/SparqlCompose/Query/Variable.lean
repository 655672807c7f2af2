import SparqlCompose.Term.Render

/-!
# Variables

A variable has a URI, which is its identity across queries, and a name, which is how it is
written.  It may be bound to a constant, and then the constant is written in its place.  A
variable that a join produced remembers the two variables that it stands for.
-/

namespace SparqlCompose

/-- A variable of an operand of a join: the URI of the query and the name there. -/
structure JoinSource where
  query : String
  variableName : String
deriving DecidableEq, Repr

/-- Where a variable comes from. -/
inductive VariableOrigin where
  /-- Declared in its query. -/
  | plain
  /-- Made by a join from one variable of each operand. -/
  | joined (left right : JoinSource)
deriving DecidableEq, Repr

/-- A variable of a query. -/
structure Variable where
  uri : String
  name : String
  label : Option String := none
  comment : Option String := none
  bound : Option Constant := none
  origin : VariableOrigin := .plain
deriving DecidableEq, Repr

namespace Variable

/-- Separates the URI of a variable from the instance that it belongs to. -/
def instanceMark : List Char := ";instance=".toList

/-- Whether two variables are the same one: their URIs and names agree. -/
def same (v w : Variable) : Bool := v.uri == w.uri && v.name == w.name

/-- Gives the variable an identity of its own in an instance, in place of the one that it
had in an earlier instance. -/
def scopeTo (v : Variable) (instanceId : String) : Variable :=
  { v with uri := String.ofList (beforeMark instanceMark v.uri.toList ++ instanceMark) ++
      instanceId }

/-- Whether a join produced the variable. -/
def isJoined (v : Variable) : Bool := v.origin != .plain

/-- The name as it is written in a query. -/
def token (v : Variable) : String := "?" ++ v.name

/-- The variable in a pattern or an order key: its value, if it is bound. -/
def inline (t : PrefixTable) (v : Variable) : String :=
  match v.bound with
  | some c => c.render t
  | none => v.token

/-- The variable in the list of results: its value under its name, if it is bound. -/
def projected (t : PrefixTable) (v : Variable) : String :=
  match v.bound with
  | some c => "(" ++ c.render t ++ " AS " ++ v.token ++ ")"
  | none => v.token

end Variable

end SparqlCompose
