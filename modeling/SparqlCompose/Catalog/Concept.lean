import SparqlCompose.Graph.Basic
import SparqlCompose.OrderedMap
import SparqlCompose.Query.Basic

/-!
# Concepts

A concept is a class that can seed a query: the query for its instances.  The list of
concepts is kept under their URIs.
-/

namespace SparqlCompose

/-- A class. -/
structure Concept where
  uri : String
  label : Option String := none
  comment : Option String := none
  /-- The endpoint that has the instances. -/
  endpoint : Option String := none
deriving DecidableEq, Repr

namespace Concept

/-- The query for the instances of a class. -/
def template (c : Concept) : Except QueryError Query := do
  let q : Query := { uri := c.uri, label := c.label, comment := c.comment }
  let (id, q) ← q.addVariable { uri := c.uri ++ ";var=id", name := "id" }
  let (_, q) ← q.project id
  let p ← Pattern.make (.var id) (.resource (.iri Vocabulary.rdfType)) (.resource (.iri c.uri))
  let q ← q.pushClause (.pattern p)
  return match c.endpoint with
    | some e => q.activate e
    | none => q

end Concept

/-- Concepts under their URIs, in order. -/
abbrev ConceptList := OrderedMap Concept

namespace ConceptList

/-- Adds a concept, in place of the one with its URI if there is one. -/
def add (l : ConceptList) (c : Concept) : ConceptList := l.insert c.uri c

/-- A class as a graph describes it. -/
def conceptOf (g : Graph) (endpoint : Option String) (uri : String) : Concept where
  uri := uri
  label := g.literal? (.iri uri) Vocabulary.rdfsLabel
  comment := g.literal? (.iri uri) Vocabulary.rdfsComment
  endpoint := endpoint

/-- The classes that a graph names: those of OWL, then those of RDF Schema. -/
def classesOf (g : Graph) : List String :=
  [Vocabulary.owl "Class", Vocabulary.rdfs "Class"].flatMap fun kind =>
    (g.subjects Vocabulary.rdfType (.iri kind)).filterMap fun s => (Constant.resource s).iri?

/-- Adds a class of a graph, unless it is in the list. -/
def addClass (g : Graph) (endpoint : Option String) (l : ConceptList) (uri : String) :
    ConceptList :=
  if l.contains uri then l else l.add (conceptOf g endpoint uri)

/-- Adds the classes of a graph that are new. -/
def addGraph (l : ConceptList) (g : Graph) (endpoint : Option String) : ConceptList :=
  (classesOf g).foldl (addClass g endpoint) l

end ConceptList

end SparqlCompose
