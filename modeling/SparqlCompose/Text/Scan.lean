import SparqlCompose.Text.Cut

/-!
# Scanners

A scanner reads from the front of a text: it answers a value and the rest of the text, or
refuses.  `p <|> q` reads as `p` where `p` does not refuse, and otherwise as `q` from the same
place.
-/

namespace SparqlCompose

/-- Reads from the front of a text. -/
abbrev Scan := StateT (List Char) Option

namespace Scan

/-- The next character, which is not passed. -/
def peek : Scan (Option Char) := do return (← get).head?

/-- Passes a character of a class. -/
def charIf (p : Char → Bool) : Scan Char := fun cs =>
  match cs with
  | c :: rest => if p c then some (c, rest) else none
  | [] => none

/-- Passes the given character. -/
def char (d : Char) : Scan Unit := do let _ ← charIf (· == d)

/-- Passes the given text. -/
def lead (text : String) : Scan Unit := fun cs => (dropLead? text.toList cs).map ((), ·)

/-- Passes the longest run of characters of a class. -/
def run (p : Char → Bool) : Scan (List Char) := fun cs =>
  some (cs.takeWhile p, cs.dropWhile p)

/-- Passes the longest run of characters of a class, of which there must be one. -/
def run1 (p : Char → Bool) : Scan (List Char) := do
  return (← charIf p) :: (← run p)

/-- Reads as `p` if that does not refuse, and else reads nothing. -/
def optional {α : Type} (p : Scan α) : Scan (Option α) := (some <$> p) <|> pure none

/-- Passes the given number of characters. -/
def take (n : Nat) : Scan (List Char) := fun cs =>
  if n ≤ cs.length then some (cs.take n, cs.drop n) else none

/-- Reads items until `stop` can be read, at most as many as the fuel says. -/
def manyUntil {α : Type} (stop : Scan Unit) (item : Scan α) : Nat → Scan (List α)
  | 0 => failure
  | fuel + 1 => (do stop; return []) <|> do
    let a ← item
    return a :: (← manyUntil stop item fuel)

/-- Reads items until `stop` can be read.  Each item must pass a character. -/
def itemsUntil {α : Type} (stop : Scan Unit) (item : Scan α) : Scan (List α) := do
  manyUntil stop item ((← get).length + 1)

/-- Reads as many items as there are, at most as many as the fuel says. -/
def manyUpTo {α : Type} (item : Scan α) : Nat → Scan (List α)
  | 0 => pure []
  | fuel + 1 => (do let a ← item; return a :: (← manyUpTo item fuel)) <|> pure []

/-- Reads as many items as there are.  Each item must pass a character. -/
def items {α : Type} (item : Scan α) : Scan (List α) := do manyUpTo item (← get).length

end Scan

end SparqlCompose
