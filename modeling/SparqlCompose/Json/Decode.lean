import SparqlCompose.Json.Basic

/-!
# Taking JSON values apart

A decoder turns a JSON value into a value of the domain, or refuses it.  Its first argument
is the nesting that is still allowed: a document may nest arrays and objects 127 deep, and a
decoder that enters one passes on one level less.  Parts that no decoder looks at may nest
deeper.
-/

namespace SparqlCompose.Json

/-- Decodes a value, given the levels of nesting left. -/
abbrev Decoder (α : Type) := Nat → Json → Option α

/-- The levels of nesting that a document may have. -/
def nesting : Nat := 127

/-- A text. -/
def asString : Decoder String
  | _, .str s => some s
  | _, _ => none

/-- A truth value. -/
def asBool : Decoder Bool
  | _, .bool b => some b
  | _, _ => none

/-- A whole number below `wordSize`. -/
def asNat : Decoder Nat
  | _, .num n => some n
  | _, _ => none

/-- A value or `null`. -/
def orNull {α : Type} (f : Decoder α) : Decoder (Option α)
  | _, .null => some none
  | d, v => (f d v).map some

/-- The items of an array. -/
def asList {α : Type} (f : Decoder α) : Decoder (List α)
  | d + 1, .arr items => items.mapM (f d)
  | _, _ => none

/-- The entries of an object whose field names are data. -/
def asPairs {α : Type} (f : Decoder α) : Decoder (List (String × α))
  | d + 1, .obj fields => fields.mapM fun (k, v) => (f d v).map (k, ·)
  | _, _ => none

/-- The fields of a record.  A field whose name is known may not occur twice. -/
structure Record where
  /-- The levels of nesting left for the values. -/
  depth : Nat
  fields : List (String × Json)

/-- Opens an object as a record with the given field names. -/
def asRecord (names : List String) : Decoder Record
  | d + 1, .obj fields =>
    if names.all fun n => (fields.filter fun f => f.1 == n).length ≤ 1 then some ⟨d, fields⟩
    else none
  | _, _ => none

/-- A field that has to be there. -/
def Record.get {α : Type} (r : Record) (name : String) (f : Decoder α) : Option α := do
  let (_, v) ← r.fields.find? fun e => e.1 == name
  f r.depth v

/-- A field that may be missing or `null`. -/
def Record.get? {α : Type} (r : Record) (name : String) (f : Decoder α) : Option (Option α) :=
  match r.fields.find? fun e => e.1 == name with
  | none => some none
  | some (_, v) => orNull f r.depth v

mutual

/-- Whether a value nests at most as deep as given and can be used, also in parts that no
decoder looks at. -/
def fits : Nat → Json → Bool
  | d + 1, .arr items => fitAll d items
  | d + 1, .obj fields => fitFields d fields
  | 0, .arr _ => false
  | 0, .obj _ => false
  | _, .unusable => false
  | _, _ => true

/-- Whether all items fit. -/
def fitAll (d : Nat) : List Json → Bool
  | [] => true
  | v :: vs => fits d v && fitAll d vs

/-- Whether the values of all fields fit. -/
def fitFields (d : Nat) : List (String × Json) → Bool
  | [] => true
  | (_, v) :: fs => fits d v && fitFields d fs

end

/-- A choice among named cases: the name alone, or an object whose only field has the name
of the case and its content. -/
def asCase : Decoder (String × Option Json × Nat)
  | d, .str s => some (s, none, d)
  | d + 1, .obj [(k, v)] => some (k, some v, d)
  | _, _ => none

end SparqlCompose.Json
