import SparqlCompose.Text.Cut
import SparqlCompose.Text.Digits

/-!
# Ids of query instances

An id names a bucket and a slot in it.  It is written with an underscore between the two, and
the slot in decimal.  Reading is more lenient than writing: the slot may have a plus sign and
zeros in front, so several texts can name one slot.
-/

namespace SparqlCompose

/-- The id of a query instance. -/
structure InstanceId where
  hash : String
  slot : Nat
deriving DecidableEq, Repr

namespace InstanceId

/-- The text of an id. -/
def text (id : InstanceId) : String := id.hash ++ "_" ++ toString id.slot

/-- The slot that a text names: a number below `wordSize`. -/
def slotOf? (cs : List Char) : Option Nat :=
  let ds := (dropLead? ['+'] cs).getD cs
  if ds.isEmpty || !ds.all Char.isDigit then none
  else if decimal ds < wordSize then some (decimal ds)
  else none

/-- The id that a text names: what stands before its last underscore, which may not be
empty, and the number after it. -/
def ofText? (s : String) : Option InstanceId := do
  let (lead, rest) ← cutLast (· == '_') s.toList
  let hash := lead.dropLast
  if hash.isEmpty then none
  else (slotOf? rest).map fun slot => ⟨String.ofList hash, slot⟩

end InstanceId

end SparqlCompose
