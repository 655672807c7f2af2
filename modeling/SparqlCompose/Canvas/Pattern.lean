import SparqlCompose.Canvas.Basic
import SparqlCompose.Iri.Grammar
import SparqlCompose.Text.Blank

/-!
# Patterns as people type them

A slot of a new pattern is typed as a text: `?name` is a variable, a text between double
quotes is a literal, and anything else is an IRI, in full or as a prefixed name.  Variables
that the query does not have are added to it.
-/

namespace SparqlCompose

/-- A slot of a pattern as it was typed. -/
inductive SlotInput where
  | variable (name : String)
  | resource (text : String)
  | literal (l : Literal)
deriving DecidableEq, Repr

namespace SlotInput

/-- The text between double quotes. -/
def unquoted? (cs : List Char) : Option (List Char) :=
  match cs with
  | '"' :: rest => if rest.getLast? = some '"' then some rest.dropLast else none
  | _ => none

/-- What a typed text means. -/
def ofText (s : String) : SlotInput :=
  let cs := trimBlank s.toList
  match dropLead? ['?'] cs with
  | some name => .variable (String.ofList name)
  | none =>
    match unquoted? cs with
    | some text => .literal (.plain (String.ofList text))
    | none => .resource (String.ofList cs)

/-- A slot in the place of a predicate, where `a` is class membership. -/
def asPredicate : SlotInput → SlotInput
  | .resource text => .resource (if text = "a" then Vocabulary.rdfType else text)
  | i => i

/-- Whether the slot is a literal. -/
def isLiteral : SlotInput → Bool
  | .literal _ => true
  | _ => false

/-- The text between angle brackets. -/
def bracketed? (cs : List Char) : Option (List Char) :=
  match cs with
  | '<' :: rest => if rest.getLast? = some '>' then some rest.dropLast else none
  | _ => none

/-- The IRI that a text means: one in angle brackets, one that shows by its form that it is in
full, or else a prefixed name. -/
def resolveIri (t : PrefixTable) (text : String) : Except CanvasError Resource := do
  let cs := text.toList
  let iri ← match bracketed? cs with
    | some full => pure (String.ofList full)
    | none =>
      if hasMark "://".toList cs || (dropLead? "urn:".toList cs).isSome then pure text
      else (t.expand text).mapError .name
  if Iri.isAbsolute iri then return .iri iri
  else throw (.query (.invalidIri iri))

end SlotInput

/-- A slot of a pattern, before its variable is added to the query. -/
inductive PendingSlot where
  | term (t : Term)
  /-- A variable that the query did not have. -/
  | new (name : String)
deriving DecidableEq, Repr

namespace PendingSlot

/-- What a typed slot means in a query. -/
def ofInput (q : Query) (t : PrefixTable) : SlotInput → Except CanvasError PendingSlot
  | .variable name =>
    match q.idOf? name with
    | some id => .ok (.term (.var id))
    | none => if isVarName name then .ok (.new name) else .error (.query (.invalidName name))
  | .literal l => .ok (.term (.literal l))
  | .resource text => (SlotInput.resolveIri t text).map fun r => .term (.resource r)

/-- The slot in a query, to which its variable is added if it is still new. -/
def realize (s : PendingSlot) (q : Query) : Except QueryError (Term × Query) :=
  match s with
  | .term t => .ok (t, q)
  | .new name =>
    match q.idOf? name with
    | some id => .ok (.var id, q)
    | none => do
      let (id, q) ← q.addVariable { uri := q.variableUri name, name := name }
      return (.var id, q)

end PendingSlot

/-- Adds a pattern to an instance.  All three slots are checked before any variable is
added. -/
def CanvasM.addPattern (text : String) (s p o : SlotInput) : CanvasM Unit := do
  let p := p.asPredicate
  if s.isLiteral then throw (.query (.literalIn .subject))
  if p.isLiteral then throw (.query (.literalIn .predicate))
  let (_, q) ← find text
  let pending (i : SlotInput) : CanvasM PendingSlot := do
    .mk (pure (PendingSlot.ofInput q (← get).prefixes i))
  let s ← pending s
  let p ← pending p
  let o ← pending o
  let s ← edit text s.realize
  let p ← edit text p.realize
  let o ← edit text o.realize
  edit text fun q => return ((), ← q.pushClause (.pattern (← Pattern.make s p o)))
  emit (.patternAdded text)

end SparqlCompose
