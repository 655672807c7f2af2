import SparqlCompose.Text.Cut
import SparqlCompose.Vocabulary

/-!
# Terms

A resource is an IRI or a blank node, a constant is a resource or a literal.  Triples of a
graph are made of constants; a pattern of a query may also hold a variable in a slot.  A
variable is named by its place in the variable table of its query.
-/

namespace SparqlCompose

/-- An IRI, or a blank node with its label. -/
inductive Resource where
  | iri (text : String)
  | blank (label : String)
deriving DecidableEq, Repr, Inhabited, Hashable

namespace Resource

/-- A blank node with a label that may be written with its leading `_:`. -/
def ofLabel (label : String) : Resource :=
  match dropLead? ['_', ':'] label.toList with
  | some rest => .blank (String.ofList rest)
  | none => .blank label

/-- The IRI, or the label of a blank node. -/
def name : Resource → String
  | .iri text => text
  | .blank label => label

/-- Whether the resource is an IRI. -/
def isIri : Resource → Bool
  | .iri _ => true
  | .blank _ => false

end Resource

/-- What a literal carries beside its text: a datatype or a language, never both. -/
inductive LiteralKind where
  | simple
  | typed (datatype : String)
  | tagged (language : String)
deriving DecidableEq, Repr, Inhabited, Hashable

/-- A literal. -/
structure Literal where
  value : String
  kind : LiteralKind
deriving DecidableEq, Repr, Inhabited, Hashable

namespace Literal

/-- A plain text. -/
def plain (value : String) : Literal := ⟨value, .simple⟩

/-- A literal of a datatype.  A literal of type `xsd:string` is a plain text. -/
def ofType (value datatype : String) : Literal :=
  if datatype = Vocabulary.xsdString then plain value else ⟨value, .typed datatype⟩

/-- A text in a language.  Tags are kept in lower case. -/
def inLanguage (value language : String) : Literal :=
  ⟨value, .tagged (language.map Char.toLower)⟩

/-- The literal as it is made from its parts: the type `xsd:string` is not spelled out and a
tag is in lower case. -/
def normal (l : Literal) : Literal :=
  match l.kind with
  | .simple => plain l.value
  | .typed d => ofType l.value d
  | .tagged t => inLanguage l.value t

/-- The datatype that the literal carries. -/
def datatype? (l : Literal) : Option String :=
  match l.kind with
  | .typed d => some d
  | _ => none

/-- The datatype of the literal in the RDF sense: every literal has one. -/
def datatype (l : Literal) : String :=
  match l.kind with
  | .simple => Vocabulary.xsdString
  | .typed d => d
  | .tagged _ => Vocabulary.rdf "langString"

/-- The language that the literal carries. -/
def language? (l : Literal) : Option String :=
  match l.kind with
  | .tagged t => some t
  | _ => none

end Literal

/-- A term without variables. -/
inductive Constant where
  | resource (r : Resource)
  | literal (l : Literal)
deriving DecidableEq, Repr, Inhabited, Hashable

namespace Constant

/-- The constant that is an IRI. -/
def iri (text : String) : Constant := .resource (.iri text)

/-- Whether the constant is a literal. -/
def isLiteral : Constant → Bool
  | .literal _ => true
  | .resource _ => false

/-- The constant as a resource, which a literal is not. -/
def resource? : Constant → Option Resource
  | .resource r => some r
  | .literal _ => none

/-- The constant with its literal as it is made from its parts. -/
def normal : Constant → Constant
  | .resource r => .resource r
  | .literal l => .literal l.normal

/-- The IRI, if the constant is one. -/
def iri? : Constant → Option String
  | .resource (.iri text) => some text
  | _ => none

/-- The text of a literal, the IRI or the label of a resource. -/
def lexical : Constant → String
  | .resource r => r.name
  | .literal l => l.value

/-- The text of a literal. -/
def literalText? : Constant → Option String
  | .literal l => some l.value
  | .resource _ => none

end Constant

/-- The place of a variable in the variable table of its query. -/
abbrev VarId := Nat

/-- A slot of a triple pattern. -/
inductive Term where
  | var (id : VarId)
  | resource (r : Resource)
  | literal (l : Literal)
deriving DecidableEq, Repr, Inhabited

namespace Term

/-- The variable in the slot. -/
def var? : Term → Option VarId
  | .var id => some id
  | _ => none

/-- Whether the slot holds a literal. -/
def isLiteral : Term → Bool
  | .literal _ => true
  | _ => false

/-- Passes a variable through `f` and leaves constants alone. -/
def mapVar (f : VarId → VarId) : Term → Term
  | .var id => .var (f id)
  | t => t

end Term

/-- The constant as a slot. -/
def Constant.toTerm : Constant → Term
  | .resource r => .resource r
  | .literal l => .literal l

end SparqlCompose
