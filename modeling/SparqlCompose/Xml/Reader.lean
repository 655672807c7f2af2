import SparqlCompose.Text.Cut

/-!
# Reading XML text

A document is read into a tree of elements and texts.  Names and texts are kept as they are
written: namespaces and references have a meaning only in their context.  Comments, processing
instructions and sections of verbatim text are dropped, but end the text before them.

A text that breaks the rules is read up to the break.  What has been read is kept, since it may
have faults of its own that come first; elements that were open at the break are marked, and so
are those that are open at the end of the text.
-/

namespace SparqlCompose.Xml

/-- A part of a document. -/
inductive Node where
  /-- A text, which may have references. -/
  | text (raw : List Char)
  /-- The document type, with its declarations. -/
  | doctype (raw : List Char)
  /-- An element with its attributes in order; `isClosed` tells whether it ends. -/
  | element (name : String) (attributes : List (String × String)) (children : List Node)
      (isClosed : Bool)
deriving Inhabited

/-! ### Tokens -/

/-- A piece of a document. -/
inductive Token where
  | text (raw : List Char)
  | doctype (raw : List Char)
  | opening (name : String) (attributes : List (String × String)) (isEmpty : Bool)
  | closing (name : String)
  /-- A piece without a meaning for the tree. -/
  | other

/-- White space of XML. -/
def isSpace (c : Char) : Bool := c == ' ' || c == '\n' || c == '\t' || c == '\r'

/-- The parts before and after the first occurrence of a mark. -/
def cutMark (mark : List Char) : List Char → Option (List Char × List Char)
  | [] => none
  | c :: cs =>
    match dropLead? mark (c :: cs) with
    | some rest => some ([], rest)
    | none => (cutMark mark cs).map fun (a, b) => (c :: a, b)

/-- The parts before and after the end of a tag; an end between quotes does not count.  `quote`
is the quote that is open. -/
def cutTag (quote : Option Char) : List Char → Option (List Char × List Char)
  | [] => none
  | c :: cs =>
    let further (q : Option Char) := (cutTag q cs).map fun (a, b) => (c :: a, b)
    match quote with
    | some q => further (if c = q then none else some q)
    | none =>
      if c = '>' then some ([], cs)
      else further (if c = '"' ∨ c = '\'' then some c else none)

/-- The parts before and after the end of a document type, in which `depth` tags are open. -/
def cutDoctype (depth : Int) : List Char → Option (List Char × List Char)
  | [] => none
  | c :: cs =>
    let further (d : Int) := (cutDoctype d cs).map fun (a, b) => (c :: a, b)
    if c = '>' then if depth = 0 then some ([], cs) else further (depth - 1)
    else further (if c = '<' then depth + 1 else depth)

/-- Characters of the name of an attribute after its first, which may be any but white space. -/
def isNameChar (c : Char) : Bool := c != '=' && !isSpace c

/-- The attributes in a tag after the given ones, of which no name may occur twice. -/
def attributesFrom : Nat → List (String × String) → List Char → Option (List (String × String))
  | 0, _, _ => none
  | fuel + 1, found, cs =>
    match cs.dropWhile isSpace with
    | [] => some found
    | c :: cs => do
      let name := String.ofList (c :: cs.takeWhile isNameChar)
      let cs ← dropLead? ['='] ((cs.dropWhile isNameChar).dropWhile isSpace)
      match cs.dropWhile isSpace with
      | q :: cs =>
        if q ≠ '"' ∧ q ≠ '\'' then failure
        let (value, cs) ← cutFirst (· == q) cs
        if found.any fun a => a.1 == name then failure
        attributesFrom fuel (found ++ [(name, String.ofList value)]) cs
      | [] => none

/-- The attributes in a tag. -/
def attributes? (cs : List Char) : Option (List (String × String)) :=
  attributesFrom (cs.length + 1) [] cs

/-- The prefixes that mean the same in every document, and their namespaces. -/
def reservedNamespaces : List (String × String) := [
  ("xml", "http://www.w3.org/XML/1998/namespace"), ("xmlns", "http://www.w3.org/2000/xmlns/")]

/-- Whether an attribute binds no prefix, or one that it may bind to its value.  The prefix `xml`
keeps its namespace and `xmlns` is never bound; no other prefix has one of their namespaces. -/
def isProperBinding (name value : String) : Bool :=
  match dropLead? "xmlns:".toList name.toList with
  | none => true
  | some p =>
    let p := String.ofList p
    p != "xmlns" &&
      if p == "xml" then reservedNamespaces.lookup p == some value
      else reservedNamespaces.all fun r => r.2 != value

/-- What a tag opens. -/
def opening? (cs : List Char) : Option Token := do
  let isEmpty := cs.getLast? == some '/'
  let cs := if isEmpty then cs.dropLast else cs
  let attributes ← attributes? (cs.dropWhile fun c => !isSpace c)
  guard (attributes.all fun (name, value) => isProperBinding name value)
  return .opening (String.ofList (cs.takeWhile fun c => !isSpace c)) attributes isEmpty

/-- The token after an opening angle bracket. -/
def markup? : List Char → Option (Token × List Char)
  | '!' :: '-' :: '-' :: cs => (cutMark "-->".toList cs).map fun (_, r) => (.other, r)
  | '!' :: '[' :: cs => do
    let (_, r) ← cutMark "]]>".toList (← dropLead? "CDATA[".toList cs)
    return (.other, r)
  | '!' :: cs => do
    let (body, r) ← cutDoctype 0 cs
    let content := body.drop 7
    guard ((body.take 7).map Char.toUpper == "DOCTYPE".toList && !content.all isSpace)
    return (.doctype content, r)
  | '/' :: cs => do
    let (name, r) ← cutFirst (· == '>') cs
    return (.closing (String.ofList (name.reverse.dropWhile isSpace).reverse), r)
  | '?' :: '>' :: _ => none
  | '?' :: cs => (cutMark "?>".toList cs).map fun (_, r) => (.other, r)
  | cs => do
    let (body, r) ← cutTag none cs
    return (← opening? body, r)

/-- The tokens of a text up to its end or to its first fault; the flag tells that there is no
fault. -/
def tokens : Nat → List Char → List Token × Bool
  | 0, _ => ([], false)
  | _, [] => ([], true)
  | fuel + 1, '<' :: cs =>
    match markup? cs with
    | some (t, r) =>
      let (ts, ok) := tokens fuel r
      (t :: ts, ok)
    | none => ([], false)
  | fuel + 1, cs =>
    let (ts, ok) := tokens fuel (cs.dropWhile (· != '<'))
    (.text (cs.takeWhile (· != '<')) :: ts, ok)

/-! ### Trees -/

/-- An element that is open, with its children so far, latest first. -/
structure OpenElement where
  name : String
  attributes : List (String × String)
  children : List Node

/-- The element, closed or not. -/
def OpenElement.node (e : OpenElement) (isClosed : Bool) : Node :=
  .element e.name e.attributes e.children.reverse isClosed

/-- An element around another one, which is its last child. -/
def OpenElement.around (e : OpenElement) (n : Node) : OpenElement :=
  { e with children := n :: e.children }

/-- The nodes of a document that ends while elements are open, innermost first; `found` are the
nodes before them on the highest level, latest first. -/
def closeAll (found : List Node) : List OpenElement → List Node
  | [] => found.reverse
  | e :: es => (es.foldl (fun n p => (p.around n).node false) (e.node false) :: found).reverse

/-- The nodes that tokens make; the flag tells that every closing tag has its opening tag. -/
def assemble (found : List Node) : List OpenElement → List Token → List Node × Bool
  | es, [] => (closeAll found es, true)
  | es, t :: ts =>
    let add (n : Node) : List Node × Bool :=
      match es with
      | [] => assemble (n :: found) [] ts
      | e :: es => assemble found (e.around n :: es) ts
    match t with
    | .other => assemble found es ts
    | .text raw => add (.text raw)
    | .doctype raw => add (.doctype raw)
    | .opening name attributes true => add (.element name attributes [] true)
    | .opening name attributes false => assemble found (⟨name, attributes, []⟩ :: es) ts
    | .closing name =>
      match es with
      | [] => (closeAll found es, false)
      | e :: rest =>
        if e.name = name then
          match rest with
          | [] => assemble (e.node true :: found) [] ts
          | p :: ps => assemble found (p.around (e.node true) :: ps) ts
        else (closeAll found es, false)

/-- The nodes of a text up to its end or to its first fault; the flag tells that there is no
fault. -/
def read (text : String) : List Node × Bool :=
  let cs := match text.toList with
    | '\ufeff' :: cs => cs
    | cs => cs
  let (ts, ok) := tokens (cs.length + 1) cs
  let (nodes, balanced) := assemble [] [] ts
  (nodes, ok && balanced)

end SparqlCompose.Xml
