import SparqlCompose.OrderedMap
import SparqlCompose.Text.Alphanumeric
import SparqlCompose.Text.Cut

/-!
# Prefixes for namespaces

A prefix table binds prefixes to namespaces.  It is read in both directions: a prefixed name
is expanded through the namespace of its prefix, an IRI is compacted through the prefix of
its namespace.  Several prefixes may be bound to one namespace; the one bound last is then
the one that compaction writes.
-/

namespace SparqlCompose

/-- Why a prefixed name has no expansion. -/
inductive PrefixError where
  /-- The prefix is not bound. -/
  | unknown (name : String)
  /-- The text has no colon. -/
  | noColon (text : String)
deriving DecidableEq, Repr

/-- The wording of a prefix error. -/
def PrefixError.message : PrefixError → String
  | .unknown name => "Unknown prefix: " ++ name
  | .noColon text => "Invalid IRI: " ++ text

/-- Prefixes with their namespaces, and namespaces with the prefix that stands for them. -/
structure PrefixTable where
  /-- The namespace of each prefix. -/
  namespaces : OrderedMap String := ∅
  /-- The prefix that compaction writes for a namespace. -/
  compacting : OrderedMap String := ∅
deriving DecidableEq, Repr

namespace PrefixTable

instance : EmptyCollection PrefixTable := ⟨{}⟩

/-- Binds a prefix to a namespace, in place of its earlier namespace if it had one. -/
def bind (t : PrefixTable) (name iri : String) : PrefixTable :=
  let compacting := match t.namespaces.get? name with
    | some old =>
      if t.compacting.get? old = some name then t.compacting.erase old else t.compacting
    | none => t.compacting
  { namespaces := t.namespaces.insert name iri, compacting := compacting.insert iri name }

/-- Binds the pairs one after the other. -/
def bindAll (t : PrefixTable) (pairs : List (String × String)) : PrefixTable :=
  pairs.foldl (fun t (name, iri) => t.bind name iri) t

/-- The prefixes that every table starts with. -/
def wellKnown : List (String × String) := [
  ("rdf", "http://www.w3.org/1999/02/22-rdf-syntax-ns#"),
  ("rdfs", "http://www.w3.org/2000/01/rdf-schema#"),
  ("xsd", "http://www.w3.org/2001/XMLSchema#"),
  ("owl", "http://www.w3.org/2002/07/owl#"),
  ("foaf", "http://xmlns.com/foaf/0.1/"),
  ("dc", "http://purl.org/dc/elements/1.1/"),
  ("dcterms", "http://purl.org/dc/terms/"),
  ("sp", "http://spinrdf.org/sp#"),
  ("sioc", "http://rdfs.org/sioc/ns#"),
  ("geo", "http://www.w3.org/2003/01/geo/wgs84_pos#"),
  ("time", "http://www.w3.org/2006/time#"),
  ("sd", "http://www.w3.org/ns/sparql-service-description#")]

/-- A table with the well-known prefixes. -/
def standard : PrefixTable := (∅ : PrefixTable).bindAll wellKnown

/-- The prefixes with their namespaces, in the order in which the prefixes first appeared. -/
def toList (t : PrefixTable) : List (String × String) := t.namespaces.entries

/-- The namespace of a prefix. -/
def namespaceOf (t : PrefixTable) (name : String) : Except PrefixError String :=
  match t.namespaces.get? name with
  | some iri => .ok iri
  | none => .error (.unknown name)

/-- The prefix that compaction writes for a namespace. -/
def prefixOf? (t : PrefixTable) (iri : String) : Option String :=
  t.compacting.get? iri

/-- The IRI that a prefixed name stands for. -/
def expand (t : PrefixTable) (name : String) : Except PrefixError String :=
  match cutFirst (· == ':') name.toList with
  | some (p, l) => (t.namespaceOf (String.ofList p)).map (· ++ String.ofList l)
  | none => .error (.noColon name)

/-- Cuts an IRI after its last `#` or `/` into a namespace and a local name. -/
def splitIri (iri : String) : Option (String × String) :=
  (cutLast (fun c => c == '#' || c == '/') iri.toList).map fun (a, b) =>
    (String.ofList a, String.ofList b)

/-- Characters that a local name may hold after its first. -/
def isLocalChar (c : Char) : Bool := isAlphanumeric c || c == '_' || c == '-'

/-- Whether a local name can be written after a prefix without any escape. -/
def isLocalName (l : String) : Bool :=
  match l.toList with
  | [] => false
  | c :: cs => (isAlphanumeric c || c == '_') && cs.all isLocalChar

/-- The prefix that compaction writes for an IRI: the one of its namespace, if the local name
can be written. -/
def compactingPrefix? (t : PrefixTable) (iri : String) : Option String :=
  match splitIri iri with
  | some (ns, l) => if isLocalName l then t.prefixOf? ns else none
  | none => none

/-- The prefixed name of an IRI. -/
def compact? (t : PrefixTable) (iri : String) : Option String := do
  let p ← t.compactingPrefix? iri
  let (_, l) ← splitIri iri
  return p ++ ":" ++ l

end PrefixTable

end SparqlCompose
