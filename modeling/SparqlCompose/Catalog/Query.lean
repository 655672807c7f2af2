import SparqlCompose.Catalog.Endpoint
import SparqlCompose.Spin.Read

/-!
# The catalog of queries

The catalog keeps queries under their URIs.  It is filled from graphs that describe queries:
one that cannot be read is reported and does not keep the others out.
-/

namespace SparqlCompose

/-- Queries under their URIs, in order. -/
abbrev QueryCatalog := OrderedMap Query

/-- What became of the queries of a graph. -/
structure LoadReport where
  /-- The URIs of those that were read, in order. -/
  loaded : List String := []
  failed : List CatalogError := []

namespace QueryCatalog

/-- Stores a query, in place of the one with its URI if there is one. -/
def put (c : QueryCatalog) (q : Query) : QueryCatalog := c.insert q.uri q

/-- The queries whose active endpoint is the given one. -/
def forEndpoint (c : QueryCatalog) (endpoint : String) : List Query :=
  c.values.filter fun q => q.activeEndpoint == some endpoint

/-- The URIs of the queries of a graph, each once: those that are called a query of some
kind, then those that are called a query for solutions.  Only queries with a label count. -/
def candidates (g : Graph) : List String :=
  let typed := [Vocabulary.sp "Query", Vocabulary.sp "Select"].flatMap fun kind =>
    (g.subjects Vocabulary.rdfType (.iri kind)).filterMap fun s => (Constant.resource s).iri?
  (typed.foldl appendNew []).filter fun uri =>
    (g.object? (.iri uri) Vocabulary.rdfsLabel).isSome

/-- Reads a query of a graph, which an endpoint answers from then on. -/
def readFor (g : Graph) (uri : String) (endpoint : Option String) (limit : Nat) :
    Except CatalogError Query :=
  match g.readQuery uri limit with
  | .ok q => .ok (match endpoint with
    | some e => q.activate e
    | none => q)
  | .error cause => .error (.unreadable uri cause)

/-- Loads one query of a graph and takes a note of what became of it. -/
def loadCandidate (g : Graph) (endpoint : String) (limit : Nat) (s : LoadReport × QueryCatalog)
    (uri : String) : LoadReport × QueryCatalog :=
  match readFor g uri (some endpoint) limit with
  | .ok q => ({ s.1 with loaded := s.1.loaded ++ [q.uri] }, s.2.put q)
  | .error e => ({ s.1 with failed := s.1.failed ++ [e] }, s.2)

/-- Loads the queries of a graph, which the endpoint answers. -/
def loadGraph (c : QueryCatalog) (g : Graph) (endpoint : String) (limit : Nat) :
    LoadReport × QueryCatalog :=
  (candidates g).foldl (loadCandidate g endpoint limit) ({}, c)

/-- Loads one query of a graph. -/
def loadQuery (c : QueryCatalog) (g : Graph) (uri : String) (endpoint : Option String)
    (limit : Nat) : Except CatalogError (Query × QueryCatalog) := do
  let q ← readFor g uri endpoint limit
  return (q, c.put q)

end QueryCatalog

end SparqlCompose
