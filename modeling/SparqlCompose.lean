import SparqlCompose.Canvas.Basic
import SparqlCompose.Canvas.Id
import SparqlCompose.Canvas.Pattern
import SparqlCompose.Catalog.Concept
import SparqlCompose.Catalog.Endpoint
import SparqlCompose.Catalog.Query
import SparqlCompose.Config
import SparqlCompose.Digest.Sha256
import SparqlCompose.Graph.Basic
import SparqlCompose.Graph.Collection
import SparqlCompose.Graph.Document
import SparqlCompose.Graph.Format
import SparqlCompose.Graph.Labels
import SparqlCompose.Iri.Grammar
import SparqlCompose.Iri.Resolve
import SparqlCompose.Json.Basic
import SparqlCompose.Json.Decode
import SparqlCompose.Json.Reader
import SparqlCompose.LanguageTag
import SparqlCompose.OrderedMap
import SparqlCompose.PrefixTable
import SparqlCompose.Query.Basic
import SparqlCompose.Query.Clause
import SparqlCompose.Query.Error
import SparqlCompose.Query.Join
import SparqlCompose.Query.Name
import SparqlCompose.Query.Snapshot
import SparqlCompose.Query.Template
import SparqlCompose.Query.Text
import SparqlCompose.Query.Variable
import SparqlCompose.RdfXml.Reader
import SparqlCompose.Sparql.Algebra
import SparqlCompose.Sparql.Expression
import SparqlCompose.Sparql.Group
import SparqlCompose.Sparql.Name
import SparqlCompose.Sparql.Parser
import SparqlCompose.Sparql.Request
import SparqlCompose.Sparql.Results
import SparqlCompose.Sparql.Select
import SparqlCompose.Sparql.Selection
import SparqlCompose.Sparql.Triples
import SparqlCompose.Spin.Describe
import SparqlCompose.Spin.Error
import SparqlCompose.Spin.Read
import SparqlCompose.Term.Basic
import SparqlCompose.Term.Canonical
import SparqlCompose.Term.Checked
import SparqlCompose.Term.Lexeme
import SparqlCompose.Term.NameChars
import SparqlCompose.Term.Render
import SparqlCompose.Text.Alphanumeric
import SparqlCompose.Text.Blank
import SparqlCompose.Text.Cut
import SparqlCompose.Text.Digits
import SparqlCompose.Text.Scan
import SparqlCompose.Turtle.Name
import SparqlCompose.Turtle.Reader
import SparqlCompose.Turtle.Writer
import SparqlCompose.Vocabulary
import SparqlCompose.Xml.Entity
import SparqlCompose.Xml.Reader
import SparqlCompose.Yaml.Cursor
import SparqlCompose.Yaml.Document
import SparqlCompose.Yaml.Layout
import SparqlCompose.Yaml.Plain
import SparqlCompose.Yaml.Scalar
import SparqlCompose.Yaml.Tag
import SparqlCompose.Yaml.Writer
import SparqlCompose.Proofs.Clause
import SparqlCompose.Proofs.FreshName
import SparqlCompose.Proofs.NameSearch
import SparqlCompose.Proofs.OrderedMap
import SparqlCompose.Proofs.Outcome
import SparqlCompose.Proofs.Operation
import SparqlCompose.Proofs.Call
import SparqlCompose.Proofs.Reading
import SparqlCompose.Proofs.Join.Pairing
import SparqlCompose.Proofs.Join.Merge
import SparqlCompose.Proofs.Join.Composite
import SparqlCompose.Proofs.Built
import SparqlCompose.Proofs.Body
import SparqlCompose.Proofs.Join.CaptureFree
import SparqlCompose.Proofs.Solution
import SparqlCompose.Proofs.Join.Meaning
import SparqlCompose.Proofs.Join.Columns
import SparqlCompose.Proofs.Graph
import SparqlCompose.Proofs.Spin.Numbered
import SparqlCompose.Proofs.Spin.Depiction
import SparqlCompose.Proofs.Spin.Description
import SparqlCompose.Proofs.Spin.Lookup
import SparqlCompose.Proofs.Spin.RoundTrip
import SparqlCompose.Proofs.Canvas.Id
import SparqlCompose.Proofs.Canvas.Slot
import SparqlCompose.Proofs.Canvas.Operation
import SparqlCompose.Proofs.Canvas.Atomic
import SparqlCompose.Proofs.Canvas.Identity
import SparqlCompose.Proofs.Canvas.Scope
import SparqlCompose.Proofs.Canvas.SelfJoin
import SparqlCompose.Proofs.Canvas.Distinct
import SparqlCompose.Proofs.Canvas.Listener
import SparqlCompose.Proofs.Iri
import SparqlCompose.Proofs.LanguageTag
import SparqlCompose.Proofs.PrefixTable
import SparqlCompose.Proofs.Sparql.Group
import SparqlCompose.Proofs.Sparql.Modifiers
import SparqlCompose.Proofs.Sparql.Prologue
import SparqlCompose.Proofs.Sparql.RoundTrip
import SparqlCompose.Proofs.View
import SparqlCompose.Proofs.Piece
import SparqlCompose.Proofs.Declared
import SparqlCompose.Proofs.Sparql.Answers
import SparqlCompose.Proofs.Sparql.Faithful
import SparqlCompose.Proofs.Settled
import SparqlCompose.Proofs.Join.Binding
import SparqlCompose.Proofs.Join.Blank
import SparqlCompose.Proofs.Json.Text
import SparqlCompose.Proofs.Json.Decode
import SparqlCompose.Proofs.Snapshot
import SparqlCompose.Proofs.Canvas.Proper
import SparqlCompose.Proofs.Sparql.Printable
import SparqlCompose.Proofs.Sparql.Values
import SparqlCompose.Proofs.Validation
import SparqlCompose.Proofs.Safety
import SparqlCompose.Proofs.Sparql.Decoding
import SparqlCompose.Proofs.Sparql.Grammar
import SparqlCompose.Proofs.Spin.Nodes
import SparqlCompose.Proofs.Spin.Agreement
import SparqlCompose.Proofs.Spin.TripleOrder
import SparqlCompose.Proofs.Spin.Account
import SparqlCompose.Proofs.Graph.Collection
import SparqlCompose.Proofs.Compaction
import SparqlCompose.Proofs.Catalog.Load
import SparqlCompose.Proofs.ColumnOrder
import SparqlCompose.Proofs.Template.Split
import SparqlCompose.Proofs.Template.OwnName
import SparqlCompose.Proofs.Template.Rendering
import SparqlCompose.Proofs.Template.Capture
