import SparqlCompose.Graph.Basic

/-!
# Lists in a graph

A list is a chain of cells that ends at `rdf:nil`.  Each cell names its member with
`rdf:first` and the rest of the list with `rdf:rest`.
-/

namespace SparqlCompose

/-- Why a term is not the head of a list. -/
inductive ListError where
  /-- The chain reaches a literal. -/
  | literalCell (l : Constant)
  /-- The chain comes back to a cell. -/
  | cycle (cell : Resource)
  /-- The chain is longer than allowed. -/
  | tooLong (limit : Nat)
  | noFirst (cell : Resource)
  | noRest (cell : Resource)
deriving DecidableEq, Repr

/-- What is wrong with the list. -/
def ListError.reason : ListError → String
  | .literalCell l => "literal " ++ l.canonical ++ " used as a list cell"
  | .cycle cell => "cycle at " ++ cell.canonical
  | .tooLong limit => "more than " ++ toString limit ++ " members"
  | .noFirst cell => cell.canonical ++ " has no rdf:first"
  | .noRest cell => cell.canonical ++ " has no rdf:rest"

/-- The wording of a list error. -/
def ListError.message (e : ListError) : String := "Malformed RDF list: " ++ e.reason

namespace Graph

/-- The members of the list at `head`, when the cells in `visited` come before it and at most
`limit - visited.length` more may follow.  A chain without a cycle visits each cell of the
graph once, so `fuel` above the number of triples is enough. -/
def members (g : Graph) (limit fuel : Nat) (visited : List Resource) (head : Constant) :
    Except ListError (List Constant) :=
  if head.iri? = some Vocabulary.rdfNil then .ok []
  else match fuel, head with
  | _, .literal l => .error (.literalCell (.literal l))
  | 0, .resource cell => .error (.cycle cell)
  | fuel + 1, .resource cell =>
    if cell ∈ visited then .error (.cycle cell)
    else if limit ≤ visited.length then .error (.tooLong limit)
    else
      match g.object? cell Vocabulary.rdfFirst with
      | none => .error (.noFirst cell)
      | some member =>
        match g.object? cell Vocabulary.rdfRest with
        | none => .error (.noRest cell)
        | some rest => (members g limit fuel (cell :: visited) rest).map (member :: ·)

/-- The members of the list at `head`, which may have up to `limit` cells. -/
def collect (g : Graph) (head : Constant) (limit : Nat) : Except ListError (List Constant) :=
  g.members limit (g.size + 1) [] head

end Graph

end SparqlCompose
