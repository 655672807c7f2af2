import SparqlCompose.Text.Blank
import SparqlCompose.Text.Cut

/-!
# Formats of graph documents

A graph is read from Turtle or from RDF/XML.  The format is told from the ending of a file
name or from a media type.  A document with an error gives no triples at all.
-/

namespace SparqlCompose

/-- A format of graph documents. -/
inductive GraphFormat where
  | turtle
  | xml
deriving DecidableEq, Repr

namespace GraphFormat

/-- The last component of a path that is not a mere dot.  Slashes at the end do not count,
and a path that ends in `..` names no file. -/
def fileName? (path : List Char) : Option (List Char) :=
  match ((splitAll (· == '/') path).filter fun part => part != [] && part != ['.']).getLast? with
  | some part => if part = ['.', '.'] then none else some part
  | none => none

/-- What follows the last dot of a file name; a name that begins with its only dot has no
ending. -/
def ending? (name : List Char) : Option (List Char) :=
  match cutLast (· == '.') name with
  | some (stem, rest) => if stem.length ≤ 1 then none else some rest
  | none => none

/-- The format that the name of a file announces. -/
def ofPath? (path : String) : Option GraphFormat := do
  let name ← fileName? path.toList
  let e ← (ending? name).map String.ofList
  if e ∈ ["ttl", "turtle", "n3", "nt"] then some .turtle
  else if e ∈ ["rdf", "xml", "owl"] then some .xml
  else none

/-- The format that a media type names; its parameters do not matter. -/
def ofMediaType? (mediaType : String) : Option GraphFormat :=
  let essence := trimmed (String.ofList (beforeMark [';'] mediaType.toList))
  if essence ∈ ["text/turtle", "application/x-turtle", "application/n-triples"] then
    some .turtle
  else if essence ∈ ["application/rdf+xml", "application/xml", "text/xml"] then some .xml
  else none

end GraphFormat

/-- Why a document gives no triples. -/
inductive DocumentError where
  /-- The text breaks the rules of its format. -/
  | malformed (format : GraphFormat)
  /-- The text is well formed and has a term that a graph cannot hold. -/
  | unfit
  /-- The base IRI is not absolute. -/
  | badBase (base : String)
  /-- The name of the file does not say which format it has. -/
  | unknownFormat (path : String)
  /-- There is no such file. -/
  | unreadable (path : String)
deriving DecidableEq, Repr

/-- The wording of a document error. -/
def DocumentError.message : DocumentError → String
  | .malformed .turtle => "Malformed Turtle"
  | .malformed .xml => "Malformed RDF/XML"
  | .unfit => "The document has a term that a graph cannot hold"
  | .badBase base => "Invalid base IRI: " ++ base
  | .unknownFormat path => "Cannot determine RDF format of " ++ path
  | .unreadable path => "Cannot read " ++ path

end SparqlCompose
