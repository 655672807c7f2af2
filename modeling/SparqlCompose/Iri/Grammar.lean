import SparqlCompose.Text.Alphanumeric
import SparqlCompose.Text.Cut

/-!
# The grammar of IRIs

An IRI is cut into scheme, authority, path, query and fragment at the delimiters of RFC 3986,
and each part may hold the characters that RFC 3987 grants it.  `Iri.Parts.ofChars` makes the
cut for any text and loses nothing, `Iri.isAbsolute` says whether a text is an IRI with a
scheme.  Nothing is normalized.
-/

namespace SparqlCompose.Iri

/-- Letters beyond ASCII that every part of an IRI may hold. -/
def extraRanges : List CodeRange := [
  ⟨0xA0, 0xD7FF⟩, ⟨0xF900, 0xFDCF⟩, ⟨0xFDF0, 0xFFEF⟩, ⟨0x10000, 0x1FFFD⟩,
  ⟨0x20000, 0x2FFFD⟩, ⟨0x30000, 0x3FFFD⟩, ⟨0x40000, 0x4FFFD⟩, ⟨0x50000, 0x5FFFD⟩,
  ⟨0x60000, 0x6FFFD⟩, ⟨0x70000, 0x7FFFD⟩, ⟨0x80000, 0x8FFFD⟩, ⟨0x90000, 0x9FFFD⟩,
  ⟨0xA0000, 0xAFFFD⟩, ⟨0xB0000, 0xBFFFD⟩, ⟨0xC0000, 0xCFFFD⟩, ⟨0xD0000, 0xDFFFD⟩,
  ⟨0xE1000, 0xEFFFD⟩]

/-- Characters for private use, which only a query may hold. -/
def privateRanges : List CodeRange := [
  ⟨0xE000, 0xF8FF⟩, ⟨0xF0000, 0xFFFFD⟩, ⟨0x100000, 0x10FFFD⟩]

/-- Characters that need no coding anywhere. -/
def isUnreserved (c : Char) : Bool :=
  c.isAlphanum || c == '-' || c == '.' || c == '_' || c == '~' ||
    extraRanges.any (·.has c.toNat)

/-- Characters that delimit inside a part. -/
def isSubDelimiter (c : Char) : Bool :=
  "!$&'()*+,;=".toList.contains c

/-- Characters of a host name. -/
def isHostChar (c : Char) : Bool := isUnreserved c || isSubDelimiter c

/-- Characters of the user part of an authority. -/
def isUserChar (c : Char) : Bool := isHostChar c || c == ':'

/-- Characters of a path, its slashes included. -/
def isPathChar (c : Char) : Bool := isUserChar c || c == '@' || c == '/'

/-- Characters of a fragment. -/
def isFragmentChar (c : Char) : Bool := isPathChar c || c == '?'

/-- Characters of a query. -/
def isQueryChar (c : Char) : Bool :=
  isFragmentChar c || privateRanges.any (·.has c.toNat)

/-- A hexadecimal digit of either case. -/
def isHexDigit (c : Char) : Bool :=
  c.isDigit || ('a' ≤ c && c ≤ 'f') || ('A' ≤ c && c ≤ 'F')

/-- Whether a part is made of characters of its class and of octets coded as `%` and two
hexadecimal digits. -/
def isCoded (p : Char → Bool) : List Char → Bool
  | [] => true
  | '%' :: a :: b :: cs => isHexDigit a && isHexDigit b && isCoded p cs
  | c :: cs => c != '%' && p c && isCoded p cs

/-- The parts of an IRI or of a relative reference, without their delimiters. -/
structure Parts where
  scheme : Option (List Char) := none
  authority : Option (List Char) := none
  path : List Char := []
  query : Option (List Char) := none
  fragment : Option (List Char) := none
deriving DecidableEq, Repr

/-- The text of the parts. -/
def Parts.chars (p : Parts) : List Char :=
  (match p.scheme with | some s => s ++ [':'] | none => []) ++
    (match p.authority with | some a => '/' :: '/' :: a | none => []) ++ p.path ++
    (match p.query with | some q => '?' :: q | none => []) ++
    (match p.fragment with | some f => '#' :: f | none => [])

/-- Characters of a scheme after its first letter. -/
def isSchemeChar (c : Char) : Bool := c.isAlphanum || c == '+' || c == '-' || c == '.'

/-- Takes a scheme and its colon off the front of a text. -/
def takeScheme (cs : List Char) : Option (List Char) × List Char :=
  match cs with
  | c :: _ =>
    if c.isAlpha then
      match cs.dropWhile isSchemeChar with
      | ':' :: rest => (some (cs.takeWhile isSchemeChar), rest)
      | _ => (none, cs)
    else (none, cs)
  | [] => (none, [])

/-- Takes an authority and the two slashes before it off the front of a text. -/
def takeAuthority : List Char → Option (List Char) × List Char
  | '/' :: '/' :: cs =>
    let (a, rest) := cs.span fun c => c != '/' && c != '?' && c != '#'
    (some a, rest)
  | cs => (none, cs)

/-- Cuts any text into parts. -/
def Parts.ofChars (cs : List Char) : Parts :=
  let (scheme, rest) := takeScheme cs
  let (authority, rest) := takeAuthority rest
  let (path, rest) := rest.span fun c => c != '?' && c != '#'
  let (query, rest) := match rest with
    | '?' :: r =>
      let (q, r) := r.span (· != '#')
      (some q, r)
    | r => (none, r)
  let fragment := match rest with
    | '#' :: f => some f
    | _ => none
  ⟨scheme, authority, path, query, fragment⟩

/-- Whether a text is a decimal number below 256 without leading zeros. -/
def isOctet (cs : List Char) : Bool :=
  !cs.isEmpty && cs.length ≤ 3 && cs.all Char.isDigit &&
    (cs.length == 1 || cs.head? != some '0') &&
    cs.foldl (fun n c => 10 * n + (c.toNat - '0'.toNat)) 0 < 256

/-- Whether a text is four octets with dots between them. -/
def isIpv4 (cs : List Char) : Bool :=
  let octets := splitAll (· == '.') cs
  octets.length == 4 && octets.all isOctet

/-- How many sixteen-bit groups of an IPv6 address the text writes.  An IPv4 address counts
as two and may stand last, where `tail` allows it. -/
def ipv6Groups? (tail : Bool) (cs : List Char) : Option Nat :=
  if cs.isEmpty then some 0 else count (splitAll (· == ':') cs)
where
  /-- Counts groups given one by one. -/
  count : List (List Char) → Option Nat
    | [] => some 0
    | g :: gs =>
      if !g.isEmpty && g.length ≤ 4 && g.all isHexDigit then (count gs).map (· + 1)
      else if tail && gs.isEmpty && isIpv4 g then some 2
      else none

/-- The texts before and after the first double colon. -/
def cutDoubleColon : List Char → Option (List Char × List Char)
  | ':' :: ':' :: cs => some ([], cs)
  | c :: cs => (cutDoubleColon cs).map fun (a, b) => (c :: a, b)
  | [] => none

/-- Whether a text is an IPv6 address: eight groups, or fewer with one double colon. -/
def isIpv6 (cs : List Char) : Bool :=
  match cutDoubleColon cs with
  | none => ipv6Groups? true cs == some 8
  | some (a, b) =>
    match ipv6Groups? false a, ipv6Groups? true b with
    | some m, some n => m + n ≤ 7
    | _, _ => false

/-- Whether a text is an address of a later version: `v`, a hexadecimal version, a dot and
the address, which is in ASCII. -/
def isIpFuture : List Char → Bool
  | c :: cs =>
    (c == 'v' || c == 'V') &&
      match cs.span isHexDigit with
      | (_ :: _, '.' :: rest) => !rest.isEmpty && rest.all fun c => c.toNat < 0x80 && isUserChar c
      | _ => false
  | [] => false

/-- Whether a text is a host, with or without a colon and digits after it. -/
def isHostPort : List Char → Bool
  | '[' :: cs =>
    match cs.span (· != ']') with
    | (ip, ']' :: rest) => (isIpv6 ip || isIpFuture ip) && isPort rest
    | _ => false
  | cs =>
    let (host, rest) := cs.span (· != ':')
    isCoded isHostChar host && isPort rest
where
  /-- Nothing, or a colon and digits. -/
  isPort : List Char → Bool
    | [] => true
    | c :: cs => c == ':' && cs.all Char.isDigit

/-- Whether a text is an authority: a host after an optional user. -/
def isAuthority (cs : List Char) : Bool :=
  match cutFirst (fun c => c == '@') cs with
  | some (user, host) => isCoded isUserChar user && isHostPort host
  | none => isHostPort cs

/-- Whether every part holds what it may hold. -/
def Parts.wellFormed (p : Parts) : Bool :=
  (match p.authority with | some a => isAuthority a | none => true) &&
    isCoded isPathChar p.path &&
    (match p.query with | some q => isCoded isQueryChar q | none => true) &&
    (match p.fragment with | some f => isCoded isFragmentChar f | none => true)

/-- Whether a text is an IRI with a scheme. -/
def isAbsolute (s : String) : Bool :=
  let p := Parts.ofChars s.toList
  p.scheme.isSome && p.wellFormed

end SparqlCompose.Iri
