import SparqlCompose.Text.Digits
import SparqlCompose.Yaml.Cursor

/-!
# Reading YAML scalars

A scalar may run over several lines.  In plain and quoted scalars the end of a line counts as
a space, and each empty line after it as the end of a line; the white space around the ends of
lines is dropped.  Block scalars keep their lines.
-/

namespace SparqlCompose.Yaml

/-! ### Between the words of a scalar -/

/-- White space inside of a scalar: what stands before the first end of a line, and the ends
of lines. -/
structure Gap where
  spaces : List Char := []
  breaks : List (List Char) := []

namespace Gap

/-- What is left of white space in the text of a scalar. -/
def text (g : Gap) : List Char :=
  match g.breaks with
  | [] => g.spaces
  | [['\n']] => [' ']
  | ['\n'] :: more => more.flatten
  | first :: more => first ++ more.flatten

end Gap

/-- Passes white space inside of a scalar that goes on from what has been passed.  A tab may
not stand to the left of the column `least`. -/
def gapFrom (least : Nat) : Nat → Gap → Reader Gap
  | 0, g => return g
  | fuel + 1, g => do
    match ← peek with
    | some c =>
      if isBlankChar c then
        guard (g.breaks.isEmpty || c != '\t' || least ≤ (← column))
        let _ ← pass
        gapFrom least fuel (if g.breaks.isEmpty then { g with spaces := g.spaces ++ [c] } else g)
      else if isBreak c then
        let b ← passBreak
        gapFrom least fuel { g with breaks := g.breaks ++ [b] }
      else return g
    | none => return g

/-- Passes white space inside of a scalar. -/
def gap (least : Nat) (start : Gap) : Reader Gap := do
  gapFrom least ((← ahead).length + 1) start

/-! ### Plain scalars -/

/-- Characters that end a plain scalar inside of brackets. -/
def isBracketMark (c : Char) : Bool := ",[]\x7b\x7d".toList.contains c

/-- The next word of a plain scalar, and the text after it. -/
def plainWord? (inBrackets : Bool) : List Char → Option (List Char × List Char)
  | [] => some ([], [])
  | c :: cs =>
    if isBlankChar c || isBreak c then some ([], c :: cs)
    else if c == ':' && inBrackets && cs.head?.any (fun d => isBracketMark d || d == '?') then none
    else if (c == ':' && isGapAhead cs) || (inBrackets && isBracketMark c) then some ([], c :: cs)
    else (plainWord? inBrackets cs).map fun (word, rest) => (c :: word, rest)

/-- Reads a word of a plain scalar. -/
def plainWord (inBrackets : Bool) : Reader (List Char) := do
  let (word, _) ← (plainWord? inBrackets (← ahead) : Option _)
  let s ← get
  let m := s.mark
  set { s with
    rest := s.rest.drop word.length
    mark := ⟨m.line, m.column + word.length, m.index + word.length⟩ }
  return word

/-- Reads a plain scalar that goes on from the given text.  Outside of brackets its lines must
not begin to the left of the column `least`.  The answer tells beside the text whether ends of
lines were passed after it. -/
def plainFrom (inBrackets : Bool) (least : Nat) : Nat → List Char → Reader (List Char × Bool)
  | 0, text => return (text, false)
  | fuel + 1, text => do
    let g ← gap least {}
    let broke := !g.breaks.isEmpty
    if (← atMarker) || (← peek) == some '#' || (g.spaces.isEmpty && !broke) then
      return (text, broke)
    else if !inBrackets && broke && (← column) < least then return (text, broke)
    else
      match ← plainWord inBrackets with
      | [] => return (text, broke)
      | word => plainFrom inBrackets least fuel (text ++ g.text ++ word)

/-- Reads a plain scalar, of which the first character is known to begin one.  The answer tells
beside the text whether ends of lines were passed after it. -/
def plain (inBrackets : Bool) (least : Nat) : Reader (String × Bool) := do
  let word ← plainWord inBrackets
  let (text, broke) ← plainFrom inBrackets least ((← ahead).length + 1) word
  return (String.ofList text, broke)

/-! ### Quoted scalars -/

/-- The character for the letter after a backslash, hexadecimal ones apart. -/
def escapedChar? (c : Char) : Option Char :=
  [('0', '\x00'), ('a', '\x07'), ('b', '\x08'), ('t', '\t'), ('\t', '\t'), ('n', '\n'),
    ('v', '\x0b'), ('f', '\x0c'), ('r', '\r'), ('e', '\x1b'), (' ', ' '), ('"', '"'),
    ('/', '/'), ('\\', '\\'), ('N', '\u0085'), ('_', '\u00a0'), ('L', '\u2028'),
    ('P', '\u2029')].lookup c

/-- The number of hexadecimal digits after a letter. -/
def hexWidth? (c : Char) : Option Nat := [('x', 2), ('u', 4), ('U', 8)].lookup c

/-- Reads what stands after a backslash. -/
def escape : Reader Char := do
  let c ← pass
  match hexWidth? c with
  | some width =>
    let ds ← (List.range width).mapM fun _ => pass
    ((hexNumber? ds).bind charAt? : Option Char)
  | none => (escapedChar? c : Option Char)

/-- Reads a quoted scalar that goes on from the given text, up to its closing quote. -/
def quotedFrom (mark : Char) : Nat → List Char → Reader (List Char)
  | 0, _ => failure
  | fuel + 1, text => do
    guard !(← atMarker)
    match ← ahead with
    | [] => failure
    | c :: cs =>
      if isBlankChar c || isBreak c then
        let g ← gap 0 {}
        quotedFrom mark fuel (text ++ g.text)
      else if c == mark then
        let _ ← pass
        if mark == '\'' && cs.head? == some '\'' then
          let _ ← pass
          quotedFrom mark fuel (text ++ [c])
        else return text
      else if mark == '"' && c == '\\' then
        let _ ← pass
        if cs.head?.any isBreak then
          let _ ← passBreak
          let g ← gap 0 { breaks := [[]] }
          quotedFrom mark fuel (text ++ g.text)
        else
          let d ← escape
          quotedFrom mark fuel (text ++ [d])
      else
        let _ ← pass
        quotedFrom mark fuel (text ++ [c])

/-- Reads a scalar between single or double quotes. -/
def quoted : Reader String := do
  let mark ← pass
  let text ← quotedFrom mark ((← ahead).length + 1) []
  return String.ofList text

/-! ### Block scalars -/

/-- What becomes of the ends of lines at the end of a block scalar. -/
inductive Chomping where
  | clip
  | strip
  | keep

/-- Reads what stands after the mark of a block scalar: the chomping and the depth of its
lines, in any order. -/
def blockHeader : Reader (Chomping × Option Nat) := do
  match ← chomping? with
  | some c => return (c, ← depth?)
  | none =>
    match ← depth? with
    | some d => return ((← chomping?).getD .clip, some d)
    | none => return (.clip, none)
where
  chomping? : Reader (Option Chomping) := do
    match ← peek with
    | some '+' => let _ ← pass; return some .keep
    | some '-' => let _ ← pass; return some .strip
    | _ => return none
  depth? : Reader (Option Nat) := do
    match ← peek with
    | some c =>
      if c.isDigit then
        let _ ← pass
        guard (c != '0')
        return some (decimal [c])
      else return none
    | none => return none

/-- Passes empty lines and the indentation of the next line; `indent` is the column at which
lines begin, if it is known.  The answer has the ends of lines and the rightmost column that
was reached. -/
def emptyLines (indent : Option Nat) : Nat → Nat → List (List Char) →
    Reader (List (List Char) × Nat)
  | 0, deepest, lines => return (lines, deepest)
  | fuel + 1, deepest, lines => do
    let s ← get
    let spaces := s.rest.takeWhile (· == ' ')
    let width := indent.elim spaces.length fun i => min spaces.length (i - s.mark.column)
    let _ ← (List.range width).mapM fun _ => pass
    let c ← column
    let deepest := max deepest c
    guard ((← peek) != some '\t' || indent.any (· ≤ c))
    if (← peek).any isBreak then
      let b ← passBreak
      emptyLines indent fuel deepest (lines ++ [b])
    else return (lines, deepest)

/-- The text of a block scalar so far, and how its last line ended. -/
structure Block where
  text : List Char := []
  /-- The end of the last line. -/
  lastBreak : List Char := []
  /-- Whether the last line began with white space. -/
  wasBlank : Bool := false
  /-- The empty lines after the last line. -/
  emptyLines : List (List Char) := []

namespace Block

/-- The text before a further line, which begins with white space or not.  Folding turns the
end of a line into a space, or into nothing before an empty line; it leaves lines alone that
begin with white space. -/
def textBefore (b : Block) (isFolded isBlank : Bool) : List Char :=
  let lineEnd :=
    if isFolded && b.lastBreak == ['\n'] && !b.wasBlank && !isBlank then
      if b.emptyLines.isEmpty then [' '] else []
    else b.lastBreak
  b.text ++ lineEnd ++ b.emptyLines.flatten

/-- The text of the whole scalar. -/
def finish (b : Block) : Chomping → List Char
  | .strip => b.text
  | .clip => b.text ++ b.lastBreak
  | .keep => b.text ++ b.lastBreak ++ b.emptyLines.flatten

end Block

/-- Reads the lines of a block scalar that begin at the column `indent`. -/
def blockLines (isFolded : Bool) (indent : Nat) : Nat → Block → Reader Block
  | 0, b => return b
  | fuel + 1, b => do
    if (← column) == indent && !(← ahead).isEmpty then
      let isBlank := (← peek).any isBlankChar
      let before := b.textBefore isFolded isBlank
      let line ← passWhile fun c => !isBreak c
      let lineEnd ← passBreak
      let (empties, _) ← emptyLines (some indent) ((← ahead).length + 1) 0 []
      blockLines isFolded indent fuel ⟨before ++ line, lineEnd, isBlank, empties⟩
    else return b

/-- Reads a block scalar.  Its lines begin at a depth that it names, or where the first line
that is not empty begins, and not to the left of the column `least`. -/
def block (least : Nat) : Reader String := do
  let mark ← pass
  let (chomping, depth) ← blockHeader
  passLineEnd
  let known := depth.map (least - 1 + ·)
  let fuel := (← ahead).length + 1
  let (empties, deepest) ← emptyLines known fuel 0 []
  let indent := known.getD (max deepest (max least 1))
  let b ← blockLines (mark == '>') indent fuel { emptyLines := empties }
  return String.ofList (b.finish chomping)

end SparqlCompose.Yaml
