import SparqlCompose.Iri.Grammar

/-!
# Resolving relative references

A reference is read against a base IRI: what the reference leaves out comes from the base.
The segments of a relative path are placed one by one behind the directory of the base, where
`.` stays in a directory and `..` leaves it.  What the base itself holds is never changed, and
neither is a path behind a scheme or an authority of the reference.
-/

namespace SparqlCompose.Iri

/-- The path up to its last slash, that slash included. -/
def directory (path : List Char) : List Char :=
  match cutLast (· == '/') path with
  | some (a, _) => a
  | none => []

/-- The directory around a directory.  Behind an authority there is always one. -/
def parent (hasAuthority : Bool) (dir : List Char) : List Char :=
  let up := directory dir.dropLast
  if hasAuthority && up.isEmpty then ['/'] else up

/-- The path that segments lead to from a directory. -/
def follow (hasAuthority : Bool) (dir : List Char) : List (List Char) → List Char
  | [] => dir
  | ['.'] :: more => follow hasAuthority dir more
  | ['.', '.'] :: more => follow hasAuthority (parent hasAuthority dir) more
  | [last] => dir ++ last
  | segment :: more => follow hasAuthority (dir ++ segment ++ ['/']) more

/-- The directory in which a relative path begins. -/
def startOf (base : Parts) : List Char :=
  if base.authority.isSome && base.path.isEmpty then ['/'] else directory base.path

/-- The target of a reference against a base. -/
def Parts.resolve (base ref : Parts) : Parts :=
  if ref.scheme.isSome then ref
  else if ref.authority.isSome then { ref with scheme := base.scheme }
  else if ref.path.isEmpty then
    { base with query := ref.query <|> base.query, fragment := ref.fragment }
  else
    let (start, path) := match ref.path with
      | '/' :: path => (['/'], path)
      | path => (startOf base, path)
    { base with
      path := follow base.authority.isSome start (splitAll (· == '/') path)
      query := ref.query
      fragment := ref.fragment }

/-- Whether the first segment of a relative path has a colon, as after a scheme. -/
def Parts.hasColonFirst (p : Parts) : Bool :=
  p.scheme.isNone && p.authority.isNone && (p.path.takeWhile (· != '/')).contains ':'

/-- The IRI that a reference means against a base, if both are well formed.  A path that
begins with two slashes would read as an authority, so it needs one before it. -/
def resolve (base ref : String) : Option String :=
  let parts := Parts.ofChars ref.toList
  if parts.hasColonFirst || !parts.wellFormed then none
  else
    let target := (Parts.ofChars base.toList).resolve parts
    if target.authority.isNone && ['/', '/'].isPrefixOf target.path then none
    else some (String.ofList target.chars)

/-- The IRI that a reference means: read against the base if there is one, taken as it
stands if it is absolute. -/
def resolveAgainst (base : Option String) (ref : String) : Option String :=
  match base with
  | some b => resolve b ref
  | none => if isAbsolute ref then some ref else none

end SparqlCompose.Iri
