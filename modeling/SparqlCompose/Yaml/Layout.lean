import SparqlCompose.Yaml.Tag

/-!
# The tokens of a YAML text

A collection without brackets is written by its layout: all entries begin in one column, and
it ends at the first token to the left of that column.  A key is only known when its colon is
seen, so that a token which may begin a key is remembered until then; the tokens that it is a
key, and that a mapping begins with it, are put before it at the end.
-/

namespace SparqlCompose.Yaml

/-- How a scalar is written. -/
inductive Form where
  | plain
  | quoted
  | literal
  | folded
deriving DecidableEq

/-- A token of a text. -/
inductive Token where
  | directive (d : Directive)
  | documentStart
  | documentEnd
  /-- The start of a sequence or a mapping by its layout. -/
  | sequenceStart
  | mappingStart
  /-- The end of a collection by its layout. -/
  | layoutEnd
  | leftBracket
  | rightBracket
  | leftBrace
  | rightBrace
  /-- The mark before an item of a sequence. -/
  | item
  | comma
  /-- What follows is a key, or the value for it. -/
  | key
  | value
  | anchor (name : String)
  | reference (name : String)
  | tag (handle rest : String)
  | scalar (text : String) (form : Form)

/-- A place where a key may have begun. -/
structure PendingKey where
  /-- The number of tokens before it. -/
  before : Nat
  mark : Mark
  /-- Whether nothing but a key may stand there. -/
  isRequired : Bool

/-- How far the reading of tokens has come. -/
structure Layout where
  cursor : Cursor
  /-- The tokens so far, latest first. -/
  tokens : List Token := []
  /-- The tokens that turned out to be keys, by the number of tokens before them, and whether
  a mapping begins there. -/
  keys : List (Nat × Bool) := []
  /-- The columns of the open collections without brackets, innermost first. -/
  columns : List Nat := []
  /-- Whether a key may begin here. -/
  keyable : Bool := true
  /-- Where the key for the next colon may have begun. -/
  pending : Option PendingKey := none
  /-- The same for the text around each open bracket, innermost first. -/
  outer : List (Option PendingKey) := []

namespace Layout

/-- Whether the place is between brackets. -/
def inBrackets (s : Layout) : Bool := !s.outer.isEmpty

/-- The column at which the lines of an inner node begin, or to the right of it. -/
def least (s : Layout) : Nat := s.columns.head?.elim 0 (· + 1)

/-- The column of the place. -/
def column (s : Layout) : Nat := s.cursor.mark.column

/-- All tokens, with those for the keys. -/
def arranged (s : Layout) : List Token :=
  s.tokens.reverse.zipIdx.flatMap fun (t, i) =>
    match s.keys.lookup i with
    | some true => [.mappingStart, .key, t]
    | some false => [.key, t]
    | none => [t]

end Layout

/-- A step of reading tokens. -/
abbrev Lexer := StateT Layout Option

namespace Lexer

/-- Takes a step in the text. -/
def read {α : Type} (r : Reader α) : Lexer α := do
  let s ← get
  let (a, cursor) ← (r.run s.cursor : Option _)
  set { s with cursor := cursor }
  return a

/-- Adds a token. -/
def emit (t : Token) : Lexer Unit := modify fun s => { s with tokens := t :: s.tokens }

/-- Says whether a key may begin at the next token. -/
def setKeyable (keyable : Bool) : Lexer Unit := modify fun s => { s with keyable := keyable }

/-- Passes white space, ends of lines and comments up to the next token. -/
def skip : Lexer Unit := do
  let s ← get
  let (rest, m, keyable) := skipFrom s.inBrackets false s.keyable s.cursor.mark s.cursor.rest
  set { s with cursor := ⟨rest, m⟩, keyable := keyable }

/-! ### Pending keys -/

/-- Gives up the pending key. -/
def forgetKey : Lexer Unit := do
  let s ← get
  guard (s.pending.all fun k => !k.isRequired)
  set { s with pending := none }

/-- Remembers that a key may begin here. -/
def noteKey : Lexer Unit := do
  let s ← get
  if s.keyable then
    forgetKey
    let k : PendingKey := {
      before := s.tokens.length
      mark := s.cursor.mark
      isRequired := !s.inBrackets && s.columns.head? == some s.column }
    modify fun s => { s with pending := some k }

/-- A pending key at a place; it must be on the same line, and not too far. -/
def stillPending (m : Mark) : Option PendingKey → Option (Option PendingKey)
  | none => some none
  | some k =>
    if k.mark.line == m.line && m.index ≤ k.mark.index + 1024 then some (some k)
    else if k.isRequired then none
    else some none

/-- Gives up all pending keys that are too far away. -/
def expireKeys : Lexer Unit := do
  let s ← get
  let m := s.cursor.mark
  let pending ← (stillPending m s.pending : Option _)
  let outer ← (s.outer.mapM (stillPending m) : Option _)
  set { s with pending := pending, outer := outer }

/-! ### Collections -/

/-- Begins a collection in a column, unless it has begun already. -/
def openAt (column : Nat) (t : Token) : Lexer Unit := do
  let s ← get
  if s.least ≤ column then
    set { s with columns := column :: s.columns }
    emit t

/-- Ends the collections whose entries begin to the right of the column; without a column,
ends all. -/
def closeTo (column : Option Nat) : Lexer Unit := do
  let s ← get
  if !s.inBrackets then
    let isClosed := fun c => column.all (· < c)
    let closed := s.columns.takeWhile isClosed
    set { s with columns := s.columns.dropWhile isClosed }
    closed.forM fun _ => emit .layoutEnd

/-! ### Tokens -/

/-- Reads the mark of a document, or a directive. -/
def boundary (r : Reader Token) : Lexer Unit := do
  closeTo none
  forgetKey
  setKeyable false
  emit (← read r)

/-- Passes an opening bracket. -/
def opening (t : Token) : Lexer Unit := do
  noteKey
  modify fun s => { s with outer := s.pending :: s.outer, pending := none, keyable := true }
  let _ ← read pass
  emit t

/-- Passes a closing bracket. -/
def closing (t : Token) : Lexer Unit := do
  forgetKey
  modify fun s => { s with
    pending := s.outer.head?.join
    outer := s.outer.drop 1
    keyable := false }
  let _ ← read pass
  emit t

/-- Passes a comma between brackets. -/
def comma : Lexer Unit := do
  forgetKey
  setKeyable true
  let _ ← read pass
  emit .comma

/-- Passes the mark of an entry; a collection without brackets begins with its first. -/
def marked (start t : Token) (keyable : Bool) : Lexer Unit := do
  let s ← get
  if !s.inBrackets then
    guard s.keyable
    openAt s.column start
  forgetKey
  setKeyable keyable
  let _ ← read pass
  emit t

/-- Passes a colon, which tells that the pending key is a key. -/
def colon : Lexer Unit := do
  let s ← get
  match s.pending with
  | some k =>
    let opens := !s.inBrackets && s.least ≤ k.mark.column
    set { s with
      keys := (k.before, opens) :: s.keys
      columns := if opens then k.mark.column :: s.columns else s.columns
      pending := none
      keyable := false }
  | none =>
    if !s.inBrackets then
      guard s.keyable
      openAt s.column .mappingStart
    setKeyable !s.inBrackets
  let _ ← read pass
  emit .value

/-- Reads a token that may begin a key. -/
def starting (r : Reader Token) : Lexer Unit := do
  noteKey
  setKeyable false
  emit (← read r)

/-- Reads a plain scalar, after which a key may begin on a further line. -/
def plainScalar : Lexer Unit := do
  let s ← get
  noteKey
  let (text, broke) ← read (plain s.inBrackets s.least)
  setKeyable broke
  emit (.scalar text .plain)

/-- Reads a block scalar, which is no key. -/
def blockScalar (form : Form) : Lexer Unit := do
  let s ← get
  forgetKey
  setKeyable true
  emit (.scalar (← read (block s.least)) form)

/-- Passes a mark of three characters. -/
def passMarker : Reader Unit := do let _ ← (List.range 3).mapM fun _ => pass

/-- Characters with which no plain scalar begins. -/
def isIndicator (c : Char) : Bool := ",[]\x7b\x7d#&*!|>'\"%@`".toList.contains c

/-- Reads the token that begins with the character `c`, after which the text goes on with
`cs`. -/
def token (c : Char) (cs : List Char) : Lexer Unit := do
  let s ← get
  let isAlone := isGapAhead cs
  if s.column == 0 && c == '%' then boundary (.directive <$> directive)
  else if s.column == 0 && isMarkerAhead "---".toList (c :: cs) then
    boundary (do passMarker; return .documentStart)
  else if s.column == 0 && isMarkerAhead "...".toList (c :: cs) then
    boundary (do passMarker; return .documentEnd)
  else if c == '[' then opening .leftBracket
  else if c == '\x7b' then opening .leftBrace
  else if c == ']' then closing .rightBracket
  else if c == '\x7d' then closing .rightBrace
  else if c == ',' then comma
  else if c == '-' && isAlone then marked .sequenceStart .item true
  else if c == '?' && (s.inBrackets || isAlone) then
    marked .mappingStart .key !s.inBrackets
  else if c == ':' && (s.inBrackets || isAlone) then colon
  else if c == '*' then starting (.reference <$> anchorName)
  else if c == '&' then starting (.anchor <$> anchorName)
  else if c == '!' then starting do
    let (handle, rest) ← tag s.inBrackets
    return .tag handle rest
  else if c == '|' && !s.inBrackets then blockScalar .literal
  else if c == '>' && !s.inBrackets then blockScalar .folded
  else if c == '\'' || c == '"' then starting do return .scalar (← quoted) .quoted
  else
    guard !(isIndicator c || isBlankChar c)
    plainScalar

/-- Reads tokens up to the end of the text. -/
def tokens : Nat → Lexer Unit
  | 0 => failure
  | fuel + 1 => do
    skip
    expireKeys
    closeTo (some (← get).column)
    match (← get).cursor.rest with
    | [] =>
      closeTo none
      forgetKey
    | c :: cs =>
      token c cs
      tokens fuel

end Lexer

/-- The tokens of a text. -/
def Token.ofText? (text : String) : Option (List Token) := do
  let cs := text.toList
  guard (cs.all isReadable)
  let (_, s) ← (Lexer.tokens (cs.length + 1)).run { cursor := { rest := cs } }
  return s.arranged

end SparqlCompose.Yaml
