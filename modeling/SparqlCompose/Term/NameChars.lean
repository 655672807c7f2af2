import SparqlCompose.Text.Alphanumeric

/-!
# Characters of names in Turtle and SPARQL

The two languages share the classes from which prefixes, local names, variable names and
blank node labels are made.
-/

namespace SparqlCompose.NameChars

/-- Letters beyond ASCII. -/
def letterRanges : List CodeRange := [
  ⟨0xC0, 0xD6⟩, ⟨0xD8, 0xF6⟩, ⟨0xF8, 0x2FF⟩, ⟨0x370, 0x37D⟩, ⟨0x37F, 0x1FFF⟩,
  ⟨0x200C, 0x200D⟩, ⟨0x2070, 0x218F⟩, ⟨0x2C00, 0x2FEF⟩, ⟨0x3001, 0xD7FF⟩,
  ⟨0xF900, 0xFDCF⟩, ⟨0xFDF0, 0xFFFD⟩, ⟨0x10000, 0xEFFFF⟩]

/-- Joining characters: allowed inside a name and not at its start. -/
def joinerRanges : List CodeRange := [⟨0xB7, 0xB7⟩, ⟨0x300, 0x36F⟩, ⟨0x203F, 0x2040⟩]

/-- Letters (`PN_CHARS_BASE`). -/
def isLetter (c : Char) : Bool := c.isAlpha || letterRanges.any (·.has c.toNat)

/-- Letters and the underscore (`PN_CHARS_U`). -/
def isLetterU (c : Char) : Bool := isLetter c || c == '_'

/-- Characters inside a name (`PN_CHARS`). -/
def isInner (c : Char) : Bool :=
  isLetterU c || c == '-' || c.isDigit || joinerRanges.any (·.has c.toNat)

/-- Characters of a variable name after its first (`VARNAME`). -/
def isVarInner (c : Char) : Bool :=
  isLetterU c || c.isDigit || joinerRanges.any (·.has c.toNat)

/-- Whether a text is a variable name (`VARNAME`). -/
def isVarName : List Char → Bool
  | [] => false
  | c :: cs => (isLetterU c || c.isDigit) && cs.all isVarInner

/-- Whether a text is a blank node label: it may hold colons, and dots except at its ends. -/
def isBlankLabel : List Char → Bool
  | [] => false
  | c :: cs =>
    (isLetterU c || c == ':' || c.isDigit) &&
      cs.all (fun c => isInner c || c == ':' || c == '.') && cs.getLast? != some '.'

end SparqlCompose.NameChars
