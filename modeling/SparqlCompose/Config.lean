import SparqlCompose.Canvas.Basic
import SparqlCompose.Spin.Read
import SparqlCompose.Text.Blank
import SparqlCompose.Yaml.Document
import SparqlCompose.Yaml.Plain
import SparqlCompose.Yaml.Writer

/-!
# Configurations

A configuration is a YAML document: prefixes and endpoints for a canvas, and some limits.
Every field has a default value, so that an empty document is a configuration.  Fields with
other names are passed over, but no field may occur twice.
-/

namespace SparqlCompose

/-- A configuration. -/
structure Config where
  /-- The prefixes that are added to the standard ones. -/
  prefixes : OrderedMap String := ∅
  endpoints : List Endpoint := []
  /-- The number of solutions to ask for where nothing else is said. -/
  defaultLimit : Option Nat := none
  /-- The number of members that a list in a graph may have. -/
  listLimit : Nat := Spin.defaultLimit
  /-- The seconds after which a request is given up. -/
  timeout : Nat := 30
  logLevel : String := "info"
deriving DecidableEq

namespace Yaml

/-- A step of taking a document apart.  The state is the number of references that may still
be followed. -/
abbrev Decoding := ReaderT Document (StateT Nat Option)

/-- Takes a node apart; a node that does not fit is refused. -/
abbrev Decoder (α : Type) := Node → Decoding α

/-- The node itself, or the node that it refers to. -/
def followed : Node → Decoding Node
  | .reference number => do
    let left ← get
    guard (0 < left)
    set (left - 1)
    ((← read).numbered.lookup number : Option Node)
  | n => return n

/-- A text, whatever it looks like. -/
def asText : Decoder String := fun n => do
  match ← followed n with
  | .scalar text _ _ => return text
  | _ => failure

/-- Whether a scalar may be a number.  One without quotes may; a block of lines only if its
tag says so. -/
def mayBeNumber (form : Form) (tag : Option String) : Bool :=
  form == .plain || (form == .literal && tag == some "tag:yaml.org,2002:int")

/-- A whole number of 64 bits. -/
def asNatural : Decoder Nat := fun n => do
  match ← followed n with
  | .scalar text form tag =>
    guard (mayBeNumber form tag)
    ((natural? text).filter (· < wordSize) : Option Nat)
  | _ => failure

/-- Whether a node is a null.  With the tag of nulls it must be written as one. -/
def asNull? : Node → Option Bool
  | .scalar text .plain (some t) =>
    if t != "tag:yaml.org,2002:null" then some false
    else if isNull text && !text.isEmpty then some true
    else none
  | .scalar text .plain none => some (isNull text)
  | _ => some false

/-- A value, or a null without quotes. -/
def orNull {α : Type} (f : Decoder α) : Decoder (Option α) := fun n => do
  let n ← followed n
  if ← (asNull? n : Option Bool) then return none else return some (← f n)

/-- The items of a sequence, none if nothing is written. -/
def asItems {α : Type} (f : Decoder α) : Decoder (List α) := fun n => do
  match ← followed n with
  | .sequence items => items.mapM f
  | .scalar "" .plain _ => return []
  | _ => failure

/-- The entries of a mapping whose keys are texts, none if nothing is written. -/
def asEntries : Decoder (List (String × Node)) := fun n => do
  match ← followed n with
  | .mapping entries => entries.mapM fun (k, v) => do return (← asText k, v)
  | .scalar "" .plain _ => return []
  | _ => failure

/-- The entries of a mapping in which none of the given keys occurs twice. -/
def asFields (names : List String) : Decoder (List (String × Node)) := fun n => do
  let fields ← asEntries n
  guard (names.all fun name => (fields.filter fun f => f.1 == name).length ≤ 1)
  return fields

/-- The value of a field, or what it is without the field. -/
def fieldOr {α : Type} (fields : List (String × Node)) (name : String) (f : Decoder α)
    (missing : Option α) : Decoding α :=
  match fields.lookup name with
  | some n => f n
  | none => (missing : Option α)

/-- Takes a document apart.  Of each part, a hundred references may be followed. -/
def Document.decode? {α : Type} (d : Document) (f : Decoder α) : Option α := do
  let (a, _) ← ((f d.root).run d).run (100 * d.size)
  return a

/-- A text, or a null. -/
def Tree.ofText? (s : Option String) : Tree := s.elim .null .text

end Yaml

open Yaml

namespace Endpoint

/-- The endpoint that a node describes. -/
def ofYaml : Yaml.Decoder Endpoint := fun n => do
  let fields ← asFields ["uri", "label", "comment"] n
  return ⟨← fieldOr fields "uri" asText none, ← fieldOr fields "label" asText none,
    ← fieldOr fields "comment" (orNull asText) (some none)⟩

/-- The description of an endpoint. -/
def toYaml (e : Endpoint) : Tree :=
  .mapping [("uri", .text e.uri), ("label", .text e.label), ("comment", .ofText? e.comment)]

end Endpoint

namespace Config

/-- The names of the fields. -/
def fieldNames : List String :=
  ["prefixes", "endpoints", "default_limit", "max_list_len", "http_timeout_secs", "log_level"]

/-- Prefixes and their namespaces; the last namespace of a prefix counts. -/
def prefixesOfYaml : Yaml.Decoder (OrderedMap String) := fun n => do
  let entries ← asEntries n
  return .ofList (← entries.mapM fun (k, v) => do return (k, ← asText v))

/-- The configuration that a node describes. -/
def ofYaml : Yaml.Decoder Config := fun n => do
  let fields ← asFields fieldNames n
  let d : Config := {}
  return {
    prefixes := ← fieldOr fields "prefixes" prefixesOfYaml (some d.prefixes)
    endpoints := ← fieldOr fields "endpoints" (asItems Endpoint.ofYaml) (some d.endpoints)
    defaultLimit := ← fieldOr fields "default_limit" (orNull asNatural) (some d.defaultLimit)
    listLimit := ← fieldOr fields "max_list_len" asNatural (some d.listLimit)
    timeout := ← fieldOr fields "http_timeout_secs" asNatural (some d.timeout)
    logLevel := ← fieldOr fields "log_level" asText (some d.logLevel) }

/-- Reads a configuration.  A text without a document is the default one. -/
def ofText? (text : String) : Option Config :=
  if (trimmed text).isEmpty then some {}
  else
    match Yaml.read? text with
    | none => none
    | some none => some {}
    | some (some d) => d.decode? ofYaml

/-- The YAML document of a configuration, with all its fields. -/
def text (c : Config) : String :=
  Yaml.write [
    ("prefixes", .mapping (c.prefixes.entries.map fun e => (e.1, .text e.2))),
    ("endpoints", .sequence (c.endpoints.map Endpoint.toYaml)),
    ("default_limit", c.defaultLimit.elim .null .number),
    ("max_list_len", .number c.listLimit),
    ("http_timeout_secs", .number c.timeout),
    ("log_level", .text c.logLevel)]

/-- The part of the solutions to ask for where nothing else is said. -/
def slice (c : Config) : Slice := { limit := c.defaultLimit }

/-- The standard prefixes and those of the configuration. -/
def table (c : Config) : PrefixTable := PrefixTable.standard.bindAll c.prefixes.entries

/-- An empty canvas with the prefixes and the endpoints of the configuration, each of which
must have a URI of its own. -/
def canvas (c : Config) : Except CatalogError Canvas := do
  return { prefixes := c.table, endpoints := ← EndpointCatalog.addAll ∅ c.endpoints }

end Config

end SparqlCompose
