import SparqlCompose.Yaml.Scalar

/-!
# Anchors, tags and directives of YAML

An anchor names a node for later references to it.  A tag names the type of a node: a handle,
which stands for the front part of the name, and the rest.  Directives before a document give
the version of the language and the meaning of handles.

Tags are octets.  They are kept as texts with a character for each octet, in which no octet is
zero, since a zero ends a tag.
-/

namespace SparqlCompose.Yaml

/-- Characters of anchors and tag handles. -/
def isWordChar (c : Char) : Bool := c.isAlphanum || c == '-' || c == '_'

/-- Reads the name of an anchor after its mark. -/
def anchorName : Reader String := do
  let _ ← pass
  let name ← passWhile isWordChar
  guard !name.isEmpty
  let cs ← ahead
  guard (isGapAhead cs || cs.head?.any fun c => "?:,]\x7d%@`".toList.contains c)
  return String.ofList name

/-! ### Tags -/

/-- Characters of tags; brackets and commas belong to a tag only where its end is marked
otherwise. -/
def isTagChar (isMarked : Bool) (c : Char) : Bool :=
  isWordChar c || ";/?:@&=+$.!~*'()%".toList.contains c || (isMarked && ",[]".toList.contains c)

/-- The number of octets in the encoding of a character, by the first of them. -/
def octetCount? (octet : Nat) : Option Nat :=
  if octet < 0x80 then some 1
  else if octet < 0xC0 then none
  else if octet < 0xE0 then some 2
  else if octet < 0xF0 then some 3
  else if octet < 0xF8 then some 4
  else none

/-- Reads an octet, which is written as a percent sign and two hexadecimal digits. -/
def octet : Reader Nat := do
  expect '%'
  let ds ← (List.range 2).mapM fun _ => pass
  (hexNumber? ds : Option Nat)

/-- Reads the octets of a character. -/
def octets : Reader (List Nat) := do
  let first ← octet
  let count ← (octetCount? first : Option Nat)
  let more ← (List.range (count - 1)).mapM fun _ => octet
  guard (more.all fun o => 0x80 ≤ o && o < 0xC0)
  return first :: more

/-- Reads the characters of a tag. -/
def tagChars (isMarked : Bool) : Nat → Reader (List Char)
  | 0 => return []
  | fuel + 1 => do
    match ← peek with
    | some c =>
      if c == '%' then
        let os ← octets
        return os.map Char.ofNat ++ (← tagChars isMarked fuel)
      else if isTagChar isMarked c then
        let _ ← pass
        return c :: (← tagChars isMarked fuel)
      else return []
    | none => return []

/-- Reads a tag, or a part of one, that goes on from the given text. -/
def tagText (isMarked : Bool) (start : List Char) : Reader String := do
  let more ← tagChars isMarked ((← ahead).length + 1)
  return String.ofList ((start ++ more).takeWhile (· != '\x00'))

/-- Reads a tag, or a part of one, that is not empty. -/
def someTagText (isMarked : Bool) : Reader String := do
  guard ((← peek).any (isTagChar isMarked))
  tagText isMarked []

/-- Reads the start of a handle: an exclamation mark and what follows it up to the next. -/
def handle : Reader String := do
  expect '!'
  let word ← passWhile isWordChar
  let close := if (← peek) == some '!' then ['!'] else []
  let _ ← close.mapM expect
  return String.ofList ('!' :: word ++ close)

/-- Reads a tag: its handle, which is empty if the tag stands for itself, and the rest. -/
def tag (inBrackets : Bool) : Reader (String × String) := do
  let parts ← verbatim <|> shorthand
  let cs ← ahead
  guard (isGapAhead cs || (inBrackets && cs.head? == some ','))
  return parts
where
  verbatim : Reader (String × String) := do
    expect '!'
    expect '<'
    let text ← someTagText true
    expect '>'
    return ("", text)
  shorthand : Reader (String × String) := do
    let h ← handle
    if 2 ≤ h.length && h.endsWith "!" then return (h, ← someTagText false)
    else
      let text ← tagText false (h.toList.drop 1)
      return if text.isEmpty then ("", "!") else ("!", text)

/-! ### Directives -/

/-- A directive of a document. -/
inductive Directive where
  | version (major minor : Nat)
  /-- A handle, and what it stands for. -/
  | handle (name lead : String)

/-- Reads a number of a version. -/
def versionNumber : Reader Nat := do
  let ds ← passWhile Char.isDigit
  guard (0 < ds.length && ds.length < 10)
  return decimal ds

/-- Passes white space inside of a line, of which there must be some. -/
def blanks : Reader Unit := do
  let run ← passWhile isBlankChar
  guard !run.isEmpty

/-- Reads a directive to the end of its line. -/
def directive : Reader Directive := do
  expect '%'
  let name ← passWhile isWordChar
  guard (isGapAhead (← ahead))
  let _ ← passWhile isBlankChar
  let d ← if name == "YAML".toList then version else if name == "TAG".toList then handleText
    else failure
  passLineEnd
  return d
where
  version : Reader Directive := do
    let major ← versionNumber
    expect '.'
    return .version major (← versionNumber)
  handleText : Reader Directive := do
    let h ← handle
    guard (h == "!" || (2 ≤ h.length && h.endsWith "!"))
    blanks
    let lead ← someTagText true
    guard (isGapAhead (← ahead))
    return .handle h lead

end SparqlCompose.Yaml
