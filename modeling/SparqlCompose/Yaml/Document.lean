import SparqlCompose.Yaml.Layout

/-!
# YAML documents

A text holds at most one document, and a document one node.  A reference stands for the node
with an anchor; the nodes that may be referred to are kept beside the document, since a node
may hold references to itself.
-/

namespace SparqlCompose.Yaml

/-- A node of a document. -/
inductive Node where
  | scalar (text : String) (form : Form) (tag : Option String)
  | sequence (items : List Node)
  | mapping (entries : List (Node × Node))
  /-- Stands for the node with a number. -/
  | reference (number : Nat)
deriving Inhabited

/-- The node where nothing is written. -/
def Node.empty : Node := .scalar "" .plain none

/-- A document. -/
structure Document where
  root : Node
  /-- The nodes that references stand for, latest first. -/
  numbered : List (Nat × Node)
  /-- How many scalars, references and ends of collections the document has. -/
  size : Nat

/-! ### Reading nodes -/

/-- How far the reading of nodes has come. -/
structure Progress where
  rest : List Token
  /-- The tag handles of the document and what they stand for. -/
  handles : List (String × String) := []
  /-- The numbers of anchors, latest first. -/
  numbers : List (String × Nat) := []
  /-- The numbers of the nodes with anchors in the order in which they begin, latest first. -/
  begun : List Nat := []
  /-- The nodes with anchors by their place in that order. -/
  finished : List (Nat × Node) := []
  size : Nat := 0

namespace Progress

/-- The numbered nodes.  Of two nodes with one number, the one that begins later comes first. -/
def numbered (p : Progress) : List (Nat × Node) :=
  p.begun.reverse.zipIdx.reverse.filterMap fun (number, place) =>
    (p.finished.lookup place).map (number, ·)

end Progress

/-- A step of reading nodes. -/
abbrev Composer := StateT Progress Option

namespace Composer

/-- The next token. -/
def peek : Composer (Option Token) := do return (← get).rest.head?

/-- Passes the next token. -/
def pass : Composer Unit := modify fun p => { p with rest := p.rest.drop 1 }

/-- Counts a part of the document. -/
def count (n : Nat) : Composer Unit := modify fun p => { p with size := p.size + n }

/-- A tag in full. -/
def fullTag (handle rest : String) : Composer String := do
  if handle.isEmpty then return rest
  let lead ← ((← get).handles.lookup handle : Option String)
  return lead ++ rest

/-- What stands before the content of a node. -/
structure Properties where
  anchor : Option String := none
  tag : Option String := none

/-- Whether a node has none. -/
def Properties.isEmpty (p : Properties) : Bool := p.anchor.isNone && p.tag.isNone

/-- Reads an anchor and a tag, each at most once, in any order. -/
def properties : Composer Properties := do
  match ← peek with
  | some (.anchor name) =>
    pass
    match ← peek with
    | some (.tag handle rest) => pass; return ⟨some name, some (← fullTag handle rest)⟩
    | _ => return ⟨some name, none⟩
  | some (.tag handle rest) =>
    pass
    match ← peek with
    | some (.anchor name) => pass; return ⟨some name, some (← fullTag handle rest)⟩
    | _ => return ⟨none, some (← fullTag handle rest)⟩
  | _ => return {}

/-- Reads a node whose anchor is seen before its content.  The number of an anchor is that of
the names in use before it, so that a name which is used again takes the number after the
last one. -/
def anchored (anchor : Option String) (content : Composer Node) : Composer Node := do
  match anchor with
  | none => content
  | some name =>
    let p ← get
    let number := p.numbers.length
    let place := p.begun.length
    set { p with
      numbers := (name, number) :: p.numbers.filter fun e => e.1 != name
      begun := number :: p.begun }
    let n ← content
    modify fun p => { p with finished := (place, n) :: p.finished }
    return n

/-- The node where nothing is written. -/
def nothing : Composer Node := do
  count 1
  return .empty

/-- A scalar with its tag.  Before a text that is written, the tag of one exclamation mark is
the same as none. -/
def scalar (text : String) (form : Form) (tag : Option String) : Composer Node := do
  count 1
  return .scalar text form (tag.filter (· != "!"))

/-- A node that has only properties, which keeps its tag, whatever it is. -/
def bare (p : Properties) : Composer Node := do
  guard !p.isEmpty
  count 1
  return .scalar "" .plain p.tag

/-- Passes a closing bracket, if there is one here; the answer is whether there is. -/
def atBracket : Composer Bool := do
  match ← peek with
  | some .rightBracket => pass; return true
  | _ => return false

/-- Passes a closing brace, if there is one here; the answer is whether there is. -/
def atBrace : Composer Bool := do
  match ← peek with
  | some .rightBrace => pass; return true
  | _ => return false

/-- Passes a comma. -/
def comma : Composer Unit := do
  match ← peek with
  | some .comma => pass
  | _ => failure

mutual

/-- Reads a node.  Without brackets around it, it may be a collection by its layout, and where
`isValue` is set also a sequence whose marks stand in the column of the mapping around it. -/
def node : Nat → Bool → Bool → Composer Node
  | 0, _, _ => failure
  | fuel + 1, inBrackets, isValue => do
    match ← peek with
    | some (.reference name) =>
      pass
      count 1
      let number ← ((← get).numbers.lookup name : Option Nat)
      return .reference number
    | _ =>
      let p ← properties
      anchored p.anchor do
        match ← peek with
        | some (.scalar text form) => pass; scalar text form p.tag
        | some .leftBracket => pass; count 2; return .sequence (← bracketItems fuel true)
        | some .leftBrace => pass; count 2; return .mapping (← braceEntries fuel true)
        | some .item =>
          if isValue then do count 2; return .sequence (← valueItems fuel)
          else bare p
        | some .sequenceStart =>
          if inBrackets then bare p
          else do pass; count 2; return .sequence (← items fuel)
        | some .mappingStart =>
          if inBrackets then bare p
          else do pass; count 2; return .mapping (← entries fuel)
        | _ => bare p
termination_by structural fuel => fuel

/-- Reads the items of a sequence up to its end. -/
def items : Nat → Composer (List Node)
  | 0 => failure
  | fuel + 1 => do
    match ← peek with
    | some .item =>
      pass
      let n ← match ← peek with
        | some .item | some .layoutEnd => nothing
        | _ => node fuel false false
      return n :: (← items fuel)
    | some .layoutEnd => pass; return []
    | _ => failure
termination_by structural fuel => fuel

/-- Reads the items of a sequence whose marks stand in the column of a mapping. -/
def valueItems : Nat → Composer (List Node)
  | 0 => failure
  | fuel + 1 => do
    match ← peek with
    | some .item =>
      pass
      let n ← match ← peek with
        | some .item | some .key | some .value | some .layoutEnd => nothing
        | _ => node fuel false false
      return n :: (← valueItems fuel)
    | _ => return []
termination_by structural fuel => fuel

/-- Reads a key or a value of a mapping by its layout. -/
def part : Nat → Composer Node
  | 0 => failure
  | fuel + 1 => do
    match ← peek with
    | some .key | some .value | some .layoutEnd => nothing
    | _ => node fuel false true
termination_by structural fuel => fuel

/-- Reads the entries of a mapping up to its end. -/
def entries : Nat → Composer (List (Node × Node))
  | 0 => failure
  | fuel + 1 => do
    match ← peek with
    | some .key =>
      pass
      let k ← part fuel
      let v ← match ← peek with
        | some .value => do pass; part fuel
        | _ => nothing
      return (k, v) :: (← entries fuel)
    | some .layoutEnd => pass; return []
    | _ => failure
termination_by structural fuel => fuel

/-- Reads the items of a sequence up to its closing bracket, with a comma before each but the
first.  An item with a key is a mapping with one entry. -/
def bracketItems : Nat → Bool → Composer (List Node)
  | 0, _ => failure
  | fuel + 1, isFirst => do
    if ← atBracket then return []
    if !isFirst then
      comma
      if ← atBracket then return []
    let n ← match ← peek with
      | some .key => do
        pass
        count 2
        let k ← pairKey fuel
        pure (.mapping [(k, ← pairValue fuel)])
      | _ => node fuel true false
    return n :: (← bracketItems fuel false)
termination_by structural fuel => fuel

/-- Reads the key of an item.  A colon, a comma or a bracket in its place is passed. -/
def pairKey : Nat → Composer Node
  | 0 => failure
  | fuel + 1 => do
    match ← peek with
    | some .value | some .comma | some .rightBracket => pass; nothing
    | _ => node fuel true false
termination_by structural fuel => fuel

/-- Reads the value of an item. -/
def pairValue : Nat → Composer Node
  | 0 => failure
  | fuel + 1 => do
    match ← peek with
    | some .value =>
      pass
      match ← peek with
      | some .comma | some .rightBracket => nothing
      | _ => node fuel true false
    | _ => nothing
termination_by structural fuel => fuel

/-- Reads the entries of a mapping up to its closing brace, with a comma before each but the
first. -/
def braceEntries : Nat → Bool → Composer (List (Node × Node))
  | 0, _ => failure
  | fuel + 1, isFirst => do
    if ← atBrace then return []
    if !isFirst then
      comma
      if ← atBrace then return []
    let e ← match ← peek with
      | some .key => do
        pass
        let k ← match ← peek with
          | some .value | some .comma | some .rightBrace => nothing
          | _ => node fuel true false
        pure (k, ← braceValue fuel)
      | _ => pure (← node fuel true false, ← nothing)
    return e :: (← braceEntries fuel false)
termination_by structural fuel => fuel

/-- Reads the value of an entry between braces. -/
def braceValue : Nat → Composer Node
  | 0 => failure
  | fuel + 1 => do
    match ← peek with
    | some .value =>
      pass
      match ← peek with
      | some .comma | some .rightBrace => nothing
      | _ => node fuel true false
    | _ => nothing
termination_by structural fuel => fuel

end

/-! ### Documents -/

/-- The handles that need no directive. -/
def standardHandles : List (String × String) := [("!", "!"), ("!!", "tag:yaml.org,2002:")]

/-- Takes directives together, of which none may be given twice; the answer has the handles. -/
def handlesOf? : List Directive → Bool → List (String × String) → Option (List (String × String))
  | [], _, handles => some (handles ++ standardHandles)
  | .version major minor :: ds, hasVersion, handles => do
    guard (!hasVersion && major == 1 && (minor == 1 || minor == 2))
    handlesOf? ds true handles
  | .handle name lead :: ds, hasVersion, handles => do
    guard (handles.lookup name).isNone
    handlesOf? ds hasVersion ((name, lead) :: handles)

/-- The directives at the start of a list of tokens, and what follows them. -/
def directives : List Token → List Directive × List Token
  | .directive d :: ts =>
    let (ds, rest) := directives ts
    (d :: ds, rest)
  | ts => ([], ts)

/-- Whether a token is the mark at the end of a document. -/
def isDocumentEnd : Token → Bool
  | .documentEnd => true
  | _ => false

/-- Reads the node of a document, up to the end of the text. -/
def document (isMarked : Bool) : Composer Document := do
  let fuel := 4 * (← get).rest.length + 4
  let n ← match ← peek with
    | none => nothing
    | some .documentEnd => if isMarked then nothing else failure
    | _ => node fuel false false
  let p ← get
  guard (p.rest.all isDocumentEnd)
  return ⟨n, p.numbered, p.size⟩

end Composer

/-- Reads a text; none inside if it has no document, but only white space and comments. -/
def read? (text : String) : Option (Option Document) := do
  match ← Token.ofText? text with
  | [] => return none
  | ts =>
    let (ds, rest) := Composer.directives ts
    let handles ← Composer.handlesOf? ds false []
    let (isMarked, rest) := match rest with
      | .documentStart :: rest => (true, rest)
      | _ => (false, rest)
    guard (isMarked || ds.isEmpty)
    let (d, _) ← (Composer.document isMarked).run { rest := rest, handles := handles }
    return some d

end SparqlCompose.Yaml
