import SparqlCompose.Graph.Collection
import SparqlCompose.Query.Error
import SparqlCompose.Term.Checked

/-!
# Errors of SPIN descriptions

What can keep a query from being described in a graph, or a description from being read.
-/

namespace SparqlCompose

/-- Why a query and its description in a graph do not fit together. -/
inductive SpinError where
  /-- The node has no type that says which kind of query it is. -/
  | missingType (uri : String)
  /-- The node is a query of another kind. -/
  | unsupportedType (kind : String)
  | list (fault : ListError)
  /-- The query, or the description, says something that the other cannot. -/
  | unsupported (what : String)
  | query (fault : QueryError)
  | term (fault : TermError)
deriving DecidableEq, Repr

namespace SpinError

/-- The wording of the error. -/
def message : SpinError → String
  | .missingType uri => "No query type found for " ++ uri
  | .unsupportedType kind => "Only accepts Select queries, found " ++ kind
  | .list fault => fault.message
  | .unsupported what => "Unsupported construct: " ++ what
  | .query fault => fault.message
  | .term fault => fault.message

/-- A step on a query, where a description is at work. -/
def ofQuery {α : Type} (r : Except QueryError α) : Except SpinError α := r.mapError .query

/-- A check of a term, where a description is at work. -/
def ofTerm {α : Type} (r : Except TermError α) : Except SpinError α := r.mapError .term

end SpinError

end SparqlCompose
