import SparqlCompose.Json.Decode
import SparqlCompose.Json.Reader
import SparqlCompose.Query.Basic

/-!
# Snapshots of queries

A snapshot is the compact JSON text of a query, with all its fields.  Reading one back checks
the shape of the document and nothing else: names, places and datatypes stay as they are, so
a snapshot written by hand can hold a query that `Query.validate` refuses.
-/

namespace SparqlCompose

open Json (Decoder asRecord asString asBool asNat asList asPairs asCase orNull)

/-! ### Writing -/

/-- A text, or `null` where there is none. -/
def Json.ofText? : Option String → Json
  | some s => .str s
  | none => .null

namespace Resource

/-- A resource as JSON: its name and whether it is a blank node. -/
def toJson : Resource → Json
  | .iri text => .obj [("uri", .str text), ("blank", .bool false)]
  | .blank label => .obj [("uri", .str label), ("blank", .bool true)]

/-- The resource that a JSON value describes. -/
def ofJson : Decoder Resource := fun d v => do
  let r ← asRecord ["uri", "blank"] d v
  let name ← r.get "uri" asString
  return if ← r.get "blank" asBool then .blank name else .iri name

end Resource

namespace LiteralKind

/-- A kind of literal as JSON. -/
def toJson : LiteralKind → Json
  | .simple => .str "Simple"
  | .typed d => .obj [("Typed", .str d)]
  | .tagged t => .obj [("Language", .str t)]

/-- The kind of literal that a JSON value describes. -/
def ofJson : Decoder LiteralKind := fun d v => do
  match ← asCase d v with
  | ("Simple", none, _) | ("Simple", some .null, _) => some .simple
  | ("Typed", some v, d) => (asString d v).map .typed
  | ("Language", some v, d) => (asString d v).map .tagged
  | _ => none

end LiteralKind

namespace Literal

/-- A literal as JSON. -/
def toJson (l : Literal) : Json := .obj [("value", .str l.value), ("kind", l.kind.toJson)]

/-- The literal that a JSON value describes. -/
def ofJson : Decoder Literal := fun d v => do
  let r ← asRecord ["value", "kind"] d v
  return ⟨← r.get "value" asString, ← r.get "kind" LiteralKind.ofJson⟩

end Literal

namespace Constant

/-- A constant as JSON. -/
def toJson : Constant → Json
  | .resource r => .obj [("Resource", r.toJson)]
  | .literal l => .obj [("Literal", l.toJson)]

/-- The constant that a JSON value describes. -/
def ofJson : Decoder Constant := fun d v => do
  match ← asCase d v with
  | ("Resource", some v, d) => (Resource.ofJson d v).map .resource
  | ("Literal", some v, d) => (Literal.ofJson d v).map .literal
  | _ => none

end Constant

namespace Term

/-- A slot as JSON. -/
def toJson : Term → Json
  | .var id => .obj [("Variable", .num id)]
  | .resource r => .obj [("Resource", r.toJson)]
  | .literal l => .obj [("Literal", l.toJson)]

/-- The slot that a JSON value describes. -/
def ofJson : Decoder Term := fun d v => do
  match ← asCase d v with
  | ("Variable", some v, d) => (asNat d v).map .var
  | ("Resource", some v, d) => (Resource.ofJson d v).map .resource
  | ("Literal", some v, d) => (Literal.ofJson d v).map .literal
  | _ => none

end Term

namespace Pattern

/-- A pattern as JSON. -/
def toJson (p : Pattern) : Json :=
  .obj [("subject", p.subject.toJson), ("predicate", p.predicate.toJson),
    ("object", p.object.toJson)]

/-- The pattern that a JSON value describes. -/
def ofJson : Decoder Pattern := fun d v => do
  let r ← asRecord ["subject", "predicate", "object"] d v
  return ⟨← r.get "subject" Term.ofJson, ← r.get "predicate" Term.ofJson,
    ← r.get "object" Term.ofJson⟩

end Pattern

namespace Clause

mutual

/-- A clause as JSON. -/
def toJson : Clause → Json
  | .pattern p => .obj [("Pattern", p.toJson)]
  | .service e cs vs =>
    .obj [("Service", .obj [("endpoint", .str e), ("clauses", .arr (toJsonAll cs)),
      ("variables", .arr (vs.map .num))])]

/-- A list of clauses as JSON values. -/
def toJsonAll : List Clause → List Json
  | [] => []
  | c :: cs => toJson c :: toJsonAll cs

end

/-- The clause that a JSON value describes.  A block takes three levels of nesting: for the
case, for the record and for the list of its clauses. -/
def ofJson : Decoder Clause
  | d + 3, v => do
    match ← asCase (d + 3) v with
    | ("Pattern", some v, d) => (Pattern.ofJson d v).map .pattern
    | ("Service", some v, _) =>
      let r ← asRecord ["endpoint", "clauses", "variables"] (d + 2) v
      let e ← r.get "endpoint" asString
      let cs ← r.get "clauses" fun
        | _, .arr items => items.mapM (ofJson d)
        | _, _ => none
      return .service e cs (← r.get "variables" (asList asNat))
    | _ => none
  | _, _ => none

end Clause

namespace JoinSource

/-- A side of a join as JSON. -/
def toJson (s : JoinSource) : Json :=
  .obj [("query", .str s.query), ("variable", .str s.variableName)]

/-- The side of a join that a JSON value describes. -/
def ofJson : Decoder JoinSource := fun d v => do
  let r ← asRecord ["query", "variable"] d v
  return ⟨← r.get "query" asString, ← r.get "variable" asString⟩

end JoinSource

namespace VariableOrigin

/-- The origin of a variable as JSON. -/
def toJson : VariableOrigin → Json
  | .plain => .str "Plain"
  | .joined l r => .obj [("Joined", .obj [("left", l.toJson), ("right", r.toJson)])]

/-- The origin that a JSON value describes. -/
def ofJson : Decoder VariableOrigin := fun d v => do
  match ← asCase d v with
  | ("Plain", none, _) | ("Plain", some .null, _) => some .plain
  | ("Joined", some v, d) =>
    let r ← asRecord ["left", "right"] d v
    return .joined (← r.get "left" JoinSource.ofJson) (← r.get "right" JoinSource.ofJson)
  | _ => none

end VariableOrigin

namespace Variable

/-- A variable as JSON. -/
def toJson (v : Variable) : Json :=
  .obj [("uri", .str v.uri), ("name", .str v.name), ("label", .ofText? v.label),
    ("comment", .ofText? v.comment), ("bound", v.bound.elim .null Constant.toJson),
    ("kind", v.origin.toJson)]

/-- The variable that a JSON value describes. -/
def ofJson : Decoder Variable := fun d v => do
  let r ← asRecord ["uri", "name", "label", "comment", "bound", "kind"] d v
  return {
    uri := ← r.get "uri" asString
    name := ← r.get "name" asString
    label := ← r.get? "label" asString
    comment := ← r.get? "comment" asString
    bound := ← r.get? "bound" Constant.ofJson
    origin := ← r.get "kind" VariableOrigin.ofJson }

end Variable

namespace OrderKey

/-- A direction as JSON. -/
def directionToJson : Direction → Json
  | .ascending => .str "Asc"
  | .descending => .str "Desc"

/-- The direction that a JSON value describes. -/
def directionOfJson : Decoder Direction := fun d v => do
  match ← asCase d v with
  | ("Asc", none, _) | ("Asc", some .null, _) => some .ascending
  | ("Desc", none, _) | ("Desc", some .null, _) => some .descending
  | _ => none

/-- An order key as JSON. -/
def toJson (k : OrderKey) : Json :=
  .obj [("direction", directionToJson k.direction), ("variable", .num k.variableId)]

/-- The order key that a JSON value describes. -/
def ofJson : Decoder OrderKey := fun d v => do
  let r ← asRecord ["direction", "variable"] d v
  return ⟨← r.get "direction" directionOfJson, ← r.get "variable" asNat⟩

end OrderKey

namespace Query

/-- A query as JSON.  The instance is left out if there is none. -/
def toJson (q : Query) : Json :=
  .obj ([("uri", .str q.uri), ("label", .ofText? q.label), ("comment", .ofText? q.comment),
    ("variables", .obj (q.table.entries.map fun (k, v) => (k, v.toJson))),
    ("projections", .arr (q.projections.map .num)),
    ("where_clauses", .arr (Clause.toJsonAll q.clauses)),
    ("order", .arr (q.order.map OrderKey.toJson)),
    ("endpoints", .arr (q.endpoints.map .str)),
    ("active_endpoint", .ofText? q.activeEndpoint)] ++
    match q.instanceId with
    | some id => [("instance", .str id)]
    | none => [])

/-- The query that a JSON value describes. -/
def ofJson : Decoder Query := fun d v => do
  let r ← asRecord ["uri", "label", "comment", "variables", "projections", "where_clauses",
    "order", "endpoints", "active_endpoint", "instance"] d v
  return {
    uri := ← r.get "uri" asString
    label := ← r.get? "label" asString
    comment := ← r.get? "comment" asString
    table := .ofList (← r.get "variables" (asPairs Variable.ofJson))
    projections := ← r.get "projections" (asList asNat)
    clauses := ← r.get "where_clauses" (asList Clause.ofJson)
    order := ← r.get "order" (asList OrderKey.ofJson)
    endpoints := (← r.get "endpoints" (asList asString)).foldl appendNew []
    activeEndpoint := ← r.get? "active_endpoint" asString
    instanceId := ← r.get? "instance" asString }

/-- The snapshot of a query. -/
def snapshot (q : Query) : String := q.toJson.text

/-- The query of a snapshot. -/
def restore? (s : String) : Option Query := do
  ofJson Json.nesting (← Json.read? s)

end Query

end SparqlCompose
