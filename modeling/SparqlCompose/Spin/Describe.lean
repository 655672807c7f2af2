import SparqlCompose.Graph.Basic
import SparqlCompose.Query.Basic
import SparqlCompose.Spin.Error

/-!
# Describing a query in a graph

A query becomes a node of type `sp:Select`.  Its result columns, its patterns and its order
keys are lists.  Variables are the blank nodes `v0`, `v1`, …, by their places in the table;
list cells, patterns and order keys are the blank nodes `c1`, `c2`, …, in the order in which
they come up.  The same query has the same description each time.

Blocks for other endpoints have no description, and neither do bindings.
-/

namespace SparqlCompose

namespace Spin

/-- The node of a variable. -/
def variableNode (id : VarId) : Resource := .blank ("v" ++ toString id)

/-- The node with a number. -/
def cell (n : Nat) : Resource := .blank ("c" ++ toString n)

/-- A statement about a node whose value is a plain text. -/
def textTriple (s : Resource) (p text : String) : Triple :=
  ⟨s, p, .literal (.plain text)⟩

/-- Label and comment of a node. -/
def noteTriples (s : Resource) (label comment : Option String) : List Triple :=
  (label.map (textTriple s Vocabulary.rdfsLabel)).toList ++
    (comment.map (textTriple s Vocabulary.rdfsComment)).toList

/-- The description of the variable at a place. -/
def variableTriples (id : VarId) (v : Variable) : List Triple :=
  textTriple (variableNode id) (Vocabulary.sp "varName") v.name ::
    noteTriples (variableNode id) v.label v.comment

/-- The head of a list whose cells are numbered from `n`. -/
def listHead (n : Nat) : List Constant → Constant
  | [] => .iri Vocabulary.rdfNil
  | _ :: _ => .resource (cell n)

/-- A list whose cells are numbered from `n`.  The last cell is written first. -/
def listTriples (n : Nat) : List Constant → List Triple
  | [] => []
  | m :: ms =>
    listTriples (n + 1) ms ++
      [⟨cell n, Vocabulary.rdfFirst, m⟩, ⟨cell n, Vocabulary.rdfRest, listHead (n + 1) ms⟩]

/-- Cells numbered from `n`, one for each of `k` members. -/
def cells (n k : Nat) : List Constant :=
  (List.range k).map fun i => .resource (cell (n + i))

/-- A slot of a pattern as a node. -/
def slotNode : Term → Except TermError Constant
  | .var id => .ok (.resource (variableNode id))
  | .resource r => r.checked.map .resource
  | .literal l => l.checked.map .literal

/-- The description of a pattern at the node with a number. -/
def patternTriples (n : Nat) (p : Pattern) : Except TermError (List Triple) := do
  return [⟨cell n, Vocabulary.sp "subject", ← slotNode p.subject⟩,
    ⟨cell n, Vocabulary.sp "predicate", ← slotNode p.predicate⟩,
    ⟨cell n, Vocabulary.sp "object", ← slotNode p.object⟩]

/-- The description of a clause at the node with a number. -/
def clauseTriples (n : Nat) : Clause → Except SpinError (List Triple)
  | .pattern p => SpinError.ofTerm (patternTriples n p)
  | .service e _ _ => .error (.unsupported ("SERVICE <" ++ e ++ ">"))

/-- The descriptions of the clauses at nodes numbered from `n`. -/
def clausesTriples (n : Nat) : List Clause → Except SpinError (List Triple)
  | [] => .ok []
  | c :: cs => do return (← clauseTriples n c) ++ (← clausesTriples (n + 1) cs)

/-- The class of the order keys of a direction. -/
def directionClass : Direction → String
  | .ascending => Vocabulary.sp "Asc"
  | .descending => Vocabulary.sp "Desc"

/-- The description of an order key at the node with a number. -/
def keyTriples (n : Nat) (k : OrderKey) : List Triple :=
  [⟨cell n, Vocabulary.rdfType, .iri (directionClass k.direction)⟩,
    ⟨cell n, Vocabulary.sp "expression", .resource (variableNode k.variableId)⟩]

/-- The descriptions of the order keys at nodes numbered from `n`. -/
def keysTriples (n : Nat) (ks : List OrderKey) : List Triple :=
  (ks.mapIdx fun i k => keyTriples (n + i) k).flatten

end Spin

open Spin in
/-- The description of a query under the given URI. -/
def Query.describe (q : Query) (uri : String) : Except SpinError (List Triple) := do
  let root := Resource.iri (← SpinError.ofTerm (checkIri uri))
  let columns := q.projections.map fun id => Constant.resource (variableNode id)
  let firstElement := columns.length + 1
  let firstElementCell := firstElement + q.clauses.length
  let firstKey := firstElementCell + q.clauses.length
  let firstKeyCell := firstKey + q.order.length
  let elements := cells firstElement q.clauses.length
  let keys := cells firstKey q.order.length
  let patterns ← clausesTriples firstElement q.clauses
  return ⟨root, Vocabulary.rdfType, .iri (Vocabulary.sp "Select")⟩ ::
    noteTriples root q.label q.comment ++
    (q.table.values.mapIdx variableTriples).flatten ++
    listTriples 1 columns ++
    [⟨root, Vocabulary.sp "resultVariables", listHead 1 columns⟩] ++
    patterns ++
    listTriples firstElementCell elements ++
    [⟨root, Vocabulary.sp "where", listHead firstElementCell elements⟩] ++
    (if q.order.isEmpty then [] else
      keysTriples firstKey q.order ++ listTriples firstKeyCell keys ++
        [⟨root, Vocabulary.sp "orderBy", listHead firstKeyCell keys⟩])

end SparqlCompose
