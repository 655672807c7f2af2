import SparqlCompose.RdfXml.Reader
import SparqlCompose.Turtle.Reader

/-!
# Reading graph documents

A document is read in a given format, or in the one that the name of its file announces.
-/

namespace SparqlCompose.GraphFormat

/-- The triples of a document, in the order in which they are complete.  Relative references
are read against the base, which must be an absolute IRI. -/
def read (format : GraphFormat) (text : String) (base : Option String) :
    Except DocumentError (List Triple) := do
  if let some b := base then
    if !Iri.isAbsolute b then throw (.badBase b)
  match format with
  | .turtle => Turtle.read text base
  | .xml => RdfXml.read text base

/-- The triples of a file with the given path; `text` is what it holds, if it is there. -/
def readNamed (path : String) (text : Option String) : Except DocumentError (List Triple) := do
  match ofPath? path with
  | none => throw (.unknownFormat path)
  | some format =>
    match text with
    | none => throw (.unreadable path)
    | some text => format.read text none

end SparqlCompose.GraphFormat
