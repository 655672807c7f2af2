import SparqlCompose.Json.Decode
import SparqlCompose.Json.Reader
import SparqlCompose.OrderedMap
import SparqlCompose.Term.Basic

/-!
# Results of queries

An endpoint answers a query with a JSON document: the names of the variables, and one object
for each solution with the terms of its variables.  `ResultTable.ofText?` reads such a
document.  The terms can go back into a query as constants, blank nodes apart: their labels
mean nothing outside of the document.
-/

namespace SparqlCompose

open Json (Decoder asRecord asString asList asPairs)

/-- A solution: the terms of its variables, in the order of the names. -/
abbrev Solution := OrderedMap Constant

namespace Solution

/-- A solution with the given terms; the last term of a name counts. -/
def ofPairs (terms : List (String × Constant)) : Solution :=
  .ofList (terms.mergeSort fun a b => a.1 ≤ b.1)

/-- The term of a variable, which may be written with question marks before it. -/
def termOf? (s : Solution) (variableName : String) : Option Constant :=
  OrderedMap.get? s (String.ofList (variableName.toList.dropWhile (· == '?')))

end Solution

/-- The solutions of a query. -/
structure ResultTable where
  /-- The names of the variables, in the order of the document. -/
  names : List String
  solutions : List Solution

namespace ResultTable

/-- The number of solutions. -/
def size (t : ResultTable) : Nat := t.solutions.length

/-- The terms of one variable, each once, in the order in which they first occur. -/
def column (t : ResultTable) (variableName : String) : List Constant :=
  (t.solutions.filterMap (Solution.termOf? · variableName)).foldl appendNew []

/-- The constant that a term of a solution gives to a query. -/
def substitute? : Constant → Option Constant
  | .resource (.blank _) => none
  | c => some c

/-- The term that an object describes.  Its field `type` says which other fields matter; a
language counts before a datatype. -/
def termOfJson : Decoder Constant := fun d v => do
  guard (v.fits d)
  let r ← asRecord ["type", "value"] d v
  let value ← r.get "value" asString
  match ← r.get "type" asString with
  | "uri" => return .iri value
  | "bnode" => return .resource (.blank value)
  | "literal" => do
    let r ← asRecord ["xml:lang", "datatype"] d v
    match ← r.get? "xml:lang" asString, ← r.get? "datatype" asString with
    | some tag, _ => return .literal (.inLanguage value tag)
    | none, some datatype => return .literal (.ofType value datatype)
    | none, none => return .literal (.plain value)
  | "typed-literal" => do
    let r ← asRecord ["datatype"] d v
    match ← r.get? "datatype" asString with
    | some datatype => return .literal (.ofType value datatype)
    | none => return .literal (.plain value)
  | _ => none

/-- The names of the variables that the head of a document lists, none if it has no list. -/
def headOfJson : Decoder (List String) := fun d v => do
  let r ← asRecord ["vars"] d v
  if r.fields.any fun f => f.1 == "vars" then r.get "vars" (asList asString) else return []

/-- The solutions of a document. -/
def bindingsOfJson : Decoder (List Solution) := fun d v => do
  let r ← asRecord ["bindings"] d v
  return (← r.get "bindings" (asList (asPairs termOfJson))).map .ofPairs

/-- The results that a document describes. -/
def ofJson : Decoder ResultTable := fun d v => do
  let r ← asRecord ["head", "results"] d v
  return ⟨← r.get "head" headOfJson, ← r.get "results" bindingsOfJson⟩

/-- Reads the results in a text. -/
def ofText? (text : String) : Option ResultTable := do
  ofJson Json.nesting (← Json.read? text)

end ResultTable

end SparqlCompose
