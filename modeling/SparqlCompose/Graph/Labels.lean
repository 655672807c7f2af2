import SparqlCompose.Graph.Basic
import SparqlCompose.Term.Checked

/-!
# Labels for the blank nodes of a document

A blank node without a label gets the next one of the series `riog00000001`, `riog00000002`,
….  A label of the document that looks like one of the series gets a `d` at its end, so that
it stays apart.
-/

namespace SparqlCompose

/-- The lead of generated labels. -/
def generatedLead : List Char := ['r', 'i', 'o', 'g']

/-- The label with a number: at least eight digits. -/
def generatedLabel (n : Nat) : String :=
  let digits := (toString n).toList
  String.ofList (generatedLead ++ List.replicate (8 - digits.length) '0' ++ digits)

/-- Whether a label looks like one of the series, with any number of `d` at its end. -/
def looksGenerated (label : String) : Bool :=
  match dropLead? generatedLead label.toList with
  | some rest =>
    8 ≤ rest.length && (rest.take 8).all Char.isDigit && (rest.drop 8).all (· == 'd')
  | none => false

/-- A label of a document, kept apart from the series. -/
def keepApart (label : String) : String :=
  if looksGenerated label then label.push 'd' else label

/-- A triple that can stand in a graph. -/
def Triple.checked (t : Triple) : Except TermError Triple := do
  return ⟨← t.subject.checked, ← checkIri t.predicate, ← t.object.checked⟩

end SparqlCompose
