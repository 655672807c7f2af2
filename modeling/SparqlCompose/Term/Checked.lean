import SparqlCompose.Iri.Grammar
import SparqlCompose.LanguageTag
import SparqlCompose.Term.Basic
import SparqlCompose.Term.NameChars

/-!
# Terms fit for a graph

A graph holds absolute IRIs, blank nodes with a label that can be written, and literals whose
language tag is well formed.  The functions here make such terms from texts or say which part
is at fault.
-/

namespace SparqlCompose

/-- Why a term cannot stand in a graph. -/
inductive TermError where
  | invalidIri (text : String)
  | invalidBlank (label : String)
  | invalidLanguage (tag : String)
deriving DecidableEq, Repr

/-- The wording of a term error. -/
def TermError.message : TermError → String
  | .invalidIri text => "Invalid IRI: " ++ text
  | .invalidBlank label => "Invalid blank node: " ++ label
  | .invalidLanguage tag => "Invalid literal: " ++ tag

/-- The text as an absolute IRI. -/
def checkIri (text : String) : Except TermError String :=
  if Iri.isAbsolute text then .ok text else .error (.invalidIri text)

/-- A resource that can stand in a graph. -/
def Resource.checked : Resource → Except TermError Resource
  | .iri text => (checkIri text).map .iri
  | .blank label =>
    if NameChars.isBlankLabel label.toList then .ok (.blank label)
    else .error (.invalidBlank label)

/-- A literal that can stand in a graph: its tag in lower case, its type not spelled out if
it is `xsd:string`. -/
def Literal.checked (l : Literal) : Except TermError Literal :=
  match l.kind with
  | .simple => .ok l
  | .typed d => (checkIri d).map (ofType l.value ·)
  | .tagged t =>
    if LanguageTag.isWellFormed (t.map Char.toLower) then .ok (inLanguage l.value t)
    else .error (.invalidLanguage t)

/-- A constant that can stand in a graph. -/
def Constant.checked : Constant → Except TermError Constant
  | .resource r => r.checked.map .resource
  | .literal l => l.checked.map .literal

end SparqlCompose
