import SparqlCompose.Text.Digits
import SparqlCompose.Yaml.Cursor
import SparqlCompose.Yaml.Plain

/-!
# Writing YAML

Documents are written by layout: a mapping has an entry on each line, two columns to the right
of the mapping around it, and the items of a sequence stand in the column of their key.  Empty
collections are written with brackets.

A text is written plain where it reads back as that text.  Otherwise it gets single quotes; a
text with ends of lines is written as a block; and where neither will do it gets double quotes,
between which every character can be written.
-/

namespace SparqlCompose.Yaml

/-- What can be written. -/
inductive Tree where
  | null
  | number (n : Nat)
  | text (s : String)
  | sequence (items : List Tree)
  | mapping (entries : List (String × Tree))

/-! ### The style of a text -/

/-- Whether a character can stand in a document as it is. -/
def isPrintable (c : Char) : Bool :=
  let n := c.toNat
  n == 0x0A || (0x20 ≤ n && n ≤ 0x7E) || (0xA0 ≤ n && n != 0xFEFF && n ≤ 0xFFFD) || 0x10000 ≤ n

/-- Whether a list has two neighbours of the given classes. -/
def hasNeighbours (p q : Char → Bool) : List Char → Bool
  | a :: b :: cs => (p a && q b) || hasNeighbours p q (b :: cs)
  | _ => false

/-- Whether a text that goes on after its first character has a mark that ends a plain text:
a colon before white space, or a number sign after white space. -/
def hasInnerMark : List Char → Bool
  | a :: b :: cs =>
    (b == ':' && isGapAhead cs) || (b == '#' && (isBlankChar a || isBreak a)) ||
      hasInnerMark (b :: cs)
  | _ => false

/-- Whether a text begins like something other than a plain text. -/
def hasLeadingMark (cs : List Char) : Bool :=
  "---".toList.isPrefixOf cs || "...".toList.isPrefixOf cs ||
    match cs with
    | c :: r =>
      "#,[]\x7b\x7d&*!|>'\"%@`".toList.contains c || ("?:-".toList.contains c && isGapAhead r)
    | [] => false

/-- Whether a character is a space. -/
def isSpaceChar (c : Char) : Bool := c == ' '

/-- Whether a text has an end of a line after a space, or a character that only an escape can
write. -/
def needsEscape (cs : List Char) : Bool :=
  hasNeighbours isSpaceChar isBreak cs || !cs.all isPrintable

/-- Whether a text can be written between single quotes. -/
def canQuote (cs : List Char) : Bool :=
  !needsEscape cs && !hasNeighbours isBreak isSpaceChar cs

/-- Whether a text can be written as a block. -/
def canBlock (cs : List Char) : Bool := !needsEscape cs && cs.getLast? != some ' '

/-- Whether a text can be written plain. -/
def canPlain (cs : List Char) : Bool :=
  canQuote cs && cs.head? != some ' ' && cs.getLast? != some ' ' && !cs.any isBreak &&
    !hasLeadingMark cs && !hasInnerMark cs

/-- The ways to write a text. -/
inductive Style where
  | plain
  | single
  | double
  | block
deriving DecidableEq, Repr

/-- How a text is written. -/
def styleOf (text : String) : Style :=
  let cs := text.toList
  if cs.contains '\n' then if canBlock cs then .block else .double
  else if canPlain cs && !looksTyped text then .plain
  else if canQuote cs then .single
  else .double

/-! ### Texts -/

/-- Spaces before a line. -/
def indentation (n : Nat) : List Char := List.replicate n ' '

/-- A text over several lines, each of which gets its indentation; `isStart` tells that a line
begins here. -/
def indented (n : Nat) (isStart : Bool) : List Char → List Char
  | [] => []
  | c :: cs =>
    if isBreak c then c :: indented n true cs
    else if isStart then indentation n ++ c :: indented n false cs
    else c :: indented n false cs

/-- A text between single quotes. -/
def singleQuoted (n : Nat) (cs : List Char) : List Char :=
  let doubled := cs.flatMap fun c => if c == '\'' then ['\'', '\''] else [c]
  let closing := if cs.getLast?.any isBreak then indentation n else []
  '\'' :: (indented n false doubled ++ closing ++ ['\''])

/-- The given number of hexadecimal digits of a number. -/
def hexDigits (n : Nat) : Nat → List Char
  | 0 => []
  | width + 1 => hexDigits (n / 16) width ++ [(Nat.digitChar (n % 16)).toUpper]

/-- A character between double quotes. -/
def doubleQuotedChar (c : Char) : List Char :=
  let letters : List (Char × Char) :=
    [('\x00', '0'), ('\x07', 'a'), ('\x08', 'b'), ('\t', 't'), ('\n', 'n'), ('\x0b', 'v'),
      ('\x0c', 'f'), ('\r', 'r'), ('\x1b', 'e'), ('"', '"'), ('\\', '\\'), ('\u0085', 'N'),
      ('\u2028', 'L'), ('\u2029', 'P')]
  match letters.lookup c with
  | some d => ['\\', d]
  | none =>
    let n := c.toNat
    if isPrintable c then [c]
    else if n ≤ 0xFF then '\\' :: 'x' :: hexDigits n 2
    else if n ≤ 0xFFFF then '\\' :: 'u' :: hexDigits n 4
    else '\\' :: 'U' :: hexDigits n 8

/-- A text between double quotes. -/
def doubleQuoted (cs : List Char) : List Char :=
  '"' :: (cs.flatMap doubleQuotedChar ++ ['"'])

/-- The marks after the bar of a block: its depth if the text begins with white space, and
what becomes of the ends of lines at its end. -/
def blockMarks (cs : List Char) : List Char :=
  let depth := if cs.head?.any fun c => isSpaceChar c || isBreak c then ['2'] else []
  let chomping := match cs.reverse with
    | [] => ['-']
    | [c] => if isBreak c then ['+'] else ['-']
    | c :: d :: _ => if !isBreak c then ['-'] else if isBreak d then ['+'] else []
  depth ++ chomping

/-- A text as a block. -/
def blockText (n : Nat) (cs : List Char) : List Char :=
  '|' :: (blockMarks cs ++ '\n' :: indented n true cs)

/-- A text in its style; `n` is the indentation of its further lines. -/
def textChars (n : Nat) (s : String) : List Char :=
  match styleOf s with
  | .plain => s.toList
  | .single => singleQuoted n s.toList
  | .double => doubleQuoted s.toList
  | .block => blockText n s.toList

/-- Ends a line, unless the text has just ended one. -/
def line (cs : List Char) : List Char :=
  if cs.getLast?.any isBreak then cs else cs ++ ['\n']

/-! ### Collections -/

/-- Whether a key can stand on the line of its value. -/
def isShortKey (key : String) : Bool := !key.toList.any isBreak && key.utf8ByteSize ≤ 128

/-- A key of a mapping with the given indentation, up to the colon. -/
def keyChars (n : Nat) (key : String) : List Char :=
  if isShortKey key then textChars (n + 2) key ++ [':']
  else '?' :: ' ' :: (line (textChars (n + 2) key) ++ indentation n ++ [':'])

mutual

/-- What follows the colon of a key, or the mark of an item, in a collection with the given
indentation. -/
def valueChars (n : Nat) : Tree → List Char
  | .null => " null\n".toList
  | .number k => ' ' :: (toString k).toList ++ ['\n']
  | .text s => line (' ' :: textChars (n + 2) s)
  | .sequence [] => " []\n".toList
  | .sequence items => '\n' :: itemChars n items
  | .mapping [] => " \x7b\x7d\n".toList
  | .mapping entries => '\n' :: entryChars (n + 2) true entries

/-- The items of a sequence. -/
def itemChars (n : Nat) : List Tree → List Char
  | [] => []
  | .mapping (e :: es) :: items =>
    indentation n ++ '-' :: ' ' :: entryChars (n + 2) false (e :: es) ++ itemChars n items
  | item :: items => indentation n ++ '-' :: valueChars n item ++ itemChars n items

/-- The entries of a mapping; `isStart` tells that a line begins here. -/
def entryChars (n : Nat) (isStart : Bool) : List (String × Tree) → List Char
  | [] => []
  | (k, v) :: es =>
    (if isStart then indentation n else []) ++ keyChars n k ++ valueChars n v ++
      entryChars n true es

end

/-- The document of a mapping that is not empty. -/
def write (entries : List (String × Tree)) : String := String.ofList (entryChars 0 true entries)

end SparqlCompose.Yaml
