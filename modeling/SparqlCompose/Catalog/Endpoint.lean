import SparqlCompose.Graph.Basic
import SparqlCompose.OrderedMap
import SparqlCompose.Spin.Error

/-!
# Endpoints

An endpoint answers queries.  The catalog keeps the known endpoints under their URIs, and can
read more of them from a service description.
-/

namespace SparqlCompose

/-- An endpoint. -/
structure Endpoint where
  uri : String
  label : String
  comment : Option String := none
deriving DecidableEq, Repr

/-- Why a catalog refuses something. -/
inductive CatalogError where
  /-- The endpoint is known already. -/
  | duplicate (uri : String)
  | unknownEndpoint (uri : String)
  /-- A service description does not say what to call the endpoint. -/
  | missingLabel (uri : String)
  /-- A query could not be read from its description. -/
  | unreadable (uri : String) (cause : SpinError)
deriving DecidableEq, Repr

/-- The wording of a catalog error. -/
def CatalogError.message : CatalogError → String
  | .duplicate uri => "Already in catalog: " ++ uri
  | .unknownEndpoint uri => "Unknown endpoint: " ++ uri
  | .missingLabel uri => "Service description for " ++ uri ++ " has no rdfs:label"
  | .unreadable uri cause => "Cannot import " ++ uri ++ ": " ++ cause.message

/-- Endpoints under their URIs, in order. -/
abbrev EndpointCatalog := OrderedMap Endpoint

namespace EndpointCatalog

/-- Adds a new endpoint. -/
def add (c : EndpointCatalog) (e : Endpoint) : Except CatalogError EndpointCatalog :=
  if c.contains e.uri then .error (.duplicate e.uri) else .ok (c.insert e.uri e)

/-- Adds new endpoints one after the other. -/
def addAll (c : EndpointCatalog) (es : List Endpoint) : Except CatalogError EndpointCatalog :=
  es.foldlM add c

/-- Changes label and comment of a known endpoint. -/
def update (c : EndpointCatalog) (e : Endpoint) : Except CatalogError EndpointCatalog :=
  if c.contains e.uri then .ok (c.insert e.uri e) else .error (.unknownEndpoint e.uri)

/-- Removes a known endpoint; the answer holds it. -/
def remove (c : EndpointCatalog) (uri : String) :
    Except CatalogError (Endpoint × EndpointCatalog) :=
  match c.get? uri with
  | some e => .ok (e, c.erase uri)
  | none => .error (.unknownEndpoint uri)

/-- The endpoint that a triple of a service description names. -/
def ofTriple (g : Graph) (t : Triple) : Except CatalogError Endpoint :=
  match g.literal? t.subject Vocabulary.rdfsLabel with
  | some label =>
    .ok ⟨t.object.lexical, label, g.literal? t.subject Vocabulary.rdfsComment⟩
  | none => .error (.missingLabel t.object.lexical)

/-- The endpoints of a service description, each of which must have a label. -/
def ofServices (g : Graph) : Except CatalogError (List Endpoint) :=
  (g.toList.filter fun t => t.predicate == Vocabulary.sd "endpoint").mapM (ofTriple g)

/-- Adds or renews the endpoints of a service description; the answer holds their number. -/
def importServices (c : EndpointCatalog) (g : Graph) :
    Except CatalogError (Nat × EndpointCatalog) := do
  let found ← ofServices g
  return (found.length, found.foldl (fun c e => c.insert e.uri e) c)

end EndpointCatalog

end SparqlCompose
