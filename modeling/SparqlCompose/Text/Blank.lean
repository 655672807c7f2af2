/-!
# White space of all scripts

`isBlank` is the Unicode property White_Space.  Trimming a text and the space inside a
template placeholder use it; the grammars of Turtle and SPARQL have a narrower class.
-/

namespace SparqlCompose

/-- The code points with the property White_Space. -/
def blankCodePoints : List Nat :=
  [0x09, 0x0A, 0x0B, 0x0C, 0x0D, 0x20, 0x85, 0xA0, 0x1680, 0x2000, 0x2001, 0x2002, 0x2003,
    0x2004, 0x2005, 0x2006, 0x2007, 0x2008, 0x2009, 0x200A, 0x2028, 0x2029, 0x202F, 0x205F,
    0x3000]

/-- Whether a character is white space. -/
def isBlank (c : Char) : Bool :=
  blankCodePoints.contains c.toNat

/-- Drops the white space at both ends. -/
def trimBlank (cs : List Char) : List Char :=
  ((cs.dropWhile isBlank).reverse.dropWhile isBlank).reverse

/-- Drops the white space at both ends of a text. -/
def trimmed (s : String) : String :=
  String.ofList (trimBlank s.toList)

end SparqlCompose
