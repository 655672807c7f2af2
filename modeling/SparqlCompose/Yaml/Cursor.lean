/-!
# Places in a YAML text

The layout of a YAML text matters: a cursor knows its line and column beside the text that is
left.  The steps here pass single characters, runs of them and ends of lines.
-/

namespace SparqlCompose.Yaml

/-- A place in a text. -/
structure Mark where
  line : Nat := 0
  column : Nat := 0
  /-- The number of characters before the place. -/
  index : Nat := 0

namespace Mark

/-- The place after a character that ends no line. -/
def next (m : Mark) : Mark := { m with column := m.column + 1, index := m.index + 1 }

/-- The place after an end of a line that has the given number of characters. -/
def nextLine (m : Mark) (width : Nat) : Mark := ⟨m.line + 1, 0, m.index + width⟩

end Mark

/-- How far the reading of a text has come. -/
structure Cursor where
  rest : List Char
  mark : Mark := {}

/-- A step of reading a text. -/
abbrev Reader := StateT Cursor Option

/-- Characters that end a line. -/
def isBreak (c : Char) : Bool :=
  c == '\n' || c == '\r' || c == '\u0085' || c == '\u2028' || c == '\u2029'

/-- White space inside of a line. -/
def isBlankChar (c : Char) : Bool := c == ' ' || c == '\t'

/-- Whether the text ends here, or goes on with white space. -/
def isGapAhead (cs : List Char) : Bool := cs.head?.all fun c => isBlankChar c || isBreak c

/-- Whether a text may be read at all: of control characters it has only tabs and those that
end lines. -/
def isReadable (c : Char) : Bool :=
  let n := c.toNat
  n == 0x09 || n == 0x0A || n == 0x0D || (0x20 ≤ n && n ≤ 0x7E) || n == 0x85 ||
    (0xA0 ≤ n && n ≤ 0xFFFD) || 0x10000 ≤ n

/-- Passes white space, ends of lines and comments; `keyable` is whether a key may begin at a
place.  A tab is white space only where no key may begin, or inside of brackets.  A byte order
mark is white space at the start of a line, but takes a column. -/
def skipFrom (inBrackets inComment keyable : Bool) (m : Mark) :
    List Char → List Char × Mark × Bool
  | [] => ([], m, keyable)
  | '\r' :: '\n' :: cs => skipFrom inBrackets false (keyable || !inBrackets) (m.nextLine 2) cs
  | c :: cs =>
    if isBreak c then skipFrom inBrackets false (keyable || !inBrackets) (m.nextLine 1) cs
    else if c == '\ufeff' && m.column == 0 then skipFrom inBrackets inComment keyable m.next cs
    else if inComment || c == ' ' || (c == '\t' && (inBrackets || !keyable)) then
      skipFrom inBrackets inComment keyable m.next cs
    else if c == '#' then skipFrom inBrackets true keyable m.next cs
    else (c :: cs, m, keyable)

/-- The text that is left. -/
def ahead : Reader (List Char) := do return (← get).rest

/-- The next character. -/
def peek : Reader (Option Char) := do return (← get).rest.head?

/-- The column of the place. -/
def column : Reader Nat := do return (← get).mark.column

/-- Passes a character that ends no line. -/
def pass : Reader Char := do
  let s ← get
  match s.rest with
  | [] => failure
  | c :: cs =>
    set { s with rest := cs, mark := s.mark.next }
    return c

/-- Passes the given character. -/
def expect (c : Char) : Reader Unit := do guard ((← pass) == c)

/-- Passes the longest run of characters of a class, which has no ends of lines. -/
def passWhile (p : Char → Bool) : Reader (List Char) := do
  let s ← get
  let run := s.rest.takeWhile p
  let m := s.mark
  set { s with
    rest := s.rest.drop run.length
    mark := ⟨m.line, m.column + run.length, m.index + run.length⟩ }
  return run

/-- Passes the end of a line, if there is one here; the answer is how it is kept. -/
def passBreak : Reader (List Char) := do
  let s ← get
  match s.rest with
  | '\r' :: '\n' :: cs =>
    set { s with rest := cs, mark := s.mark.nextLine 2 }
    return ['\n']
  | c :: cs =>
    if isBreak c then
      set { s with rest := cs, mark := s.mark.nextLine 1 }
      return if c == '\u2028' || c == '\u2029' then [c] else ['\n']
    else return []
  | [] => return []

/-- Whether a text begins with a mark of three characters that stands alone. -/
def isMarkerAhead (text : List Char) : List Char → Bool
  | a :: b :: c :: cs => [a, b, c] == text && isGapAhead cs
  | _ => false

/-- Whether a document begins or ends here. -/
def atMarker : Reader Bool := do
  let s ← get
  return s.mark.column == 0 &&
    (isMarkerAhead "---".toList s.rest || isMarkerAhead "...".toList s.rest)

/-- Passes the rest of a line with nothing but a comment in it. -/
def passLineEnd : Reader Unit := do
  let _ ← passWhile isBlankChar
  if (← peek) == some '#' then let _ ← passWhile fun c => !isBreak c
  guard ((← peek).all isBreak)
  let _ ← passBreak

end SparqlCompose.Yaml
