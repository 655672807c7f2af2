import SparqlCompose.Query.Text
import SparqlCompose.Text.Blank

/-!
# Templates

A template is text with placeholders between double braces.  A placeholder is replaced by the
value that the caller gives for its name; without one, `prefixes` and `where` stand for those
parts of the text of a query.  A placeholder with a question mark makes a variable that the
query does not have, one for each name.  Text between placeholders is kept as it is, and what
replaces a placeholder is not searched again.
-/

namespace SparqlCompose

/-- A value for a placeholder. -/
inductive TemplateValue where
  /-- A variable of the query, by name. -/
  | var (name : String)
  | resource (r : Resource)
  | literal (l : Literal)
  /-- Text that is inserted as it is. -/
  | raw (text : String)
deriving DecidableEq, Repr

namespace Template

/-- A piece of a template. -/
inductive Segment where
  | text (s : String)
  | placeholder (name : String)
  /-- A variable of the template's own. -/
  | fresh (base : String)
deriving DecidableEq, Repr

/-- Characters at the start of a placeholder's name. -/
def isNameStart (c : Char) : Bool := c.isAlpha || c == '_'

/-- Characters of a placeholder's name after its first. -/
def isNameInner (c : Char) : Bool := isNameStart c || c.isDigit || c == '-'

/-- The name at the front of a text. -/
def takeName : List Char → Option (List Char × List Char)
  | [] => none
  | c :: cs =>
    if isNameStart c then
      some (c :: cs.takeWhile isNameInner, cs.dropWhile isNameInner)
    else none

/-- The placeholder at the front of a text, with the text after it. -/
def placeholder? (cs : List Char) : Option (Segment × List Char) := do
  let cs ← dropLead? ['\x7b', '\x7b'] cs
  let cs := cs.dropWhile isBlank
  let own := cs.head? == some '?'
  let (name, cs) ← takeName (if own then cs.drop 1 else cs)
  let cs ← dropLead? ['\x7d', '\x7d'] (cs.dropWhile isBlank)
  let name := String.ofList name
  return (if own then .fresh name else .placeholder name, cs)

/-- What is dropped from the front of a text and what is left of it make up its length. -/
theorem dropLead?_length {lead cs rest : List Char} (h : dropLead? lead cs = some rest) :
    rest.length + lead.length = cs.length := by
  induction lead generalizing cs with
  | nil => cases h; rfl
  | cons d ds ih =>
    cases cs with
    | nil => simp [dropLead?] at h
    | cons c cs =>
      simp only [dropLead?] at h
      split at h
      · have := ih h; simp only [List.length_cons]; omega
      · cases h

/-- A name that is taken leaves no more of the text than there was. -/
theorem takeName_length {cs name rest : List Char} (h : takeName cs = some (name, rest)) :
    rest.length ≤ cs.length := by
  cases cs with
  | nil => simp [takeName] at h
  | cons c cs =>
    simp only [takeName] at h
    split at h
    · cases h
      have := (List.dropWhile_sublist (p := isNameInner) (l := cs)).length_le
      simp only [List.length_cons]; omega
    · cases h

/-- Dropping characters from the front makes no text longer. -/
theorem dropWhile_length_le (p : Char → Bool) (cs : List Char) :
    (cs.dropWhile p).length ≤ cs.length :=
  (List.dropWhile_sublist p).length_le

/-- A placeholder takes at least its four braces from the text. -/
theorem placeholder?_length {cs rest : List Char} {s : Segment}
    (h : placeholder? cs = some (s, rest)) : rest.length < cs.length := by
  simp only [placeholder?, Option.bind_eq_bind, Option.bind_eq_some_iff, Option.pure_def,
    Option.some.injEq, Prod.mk.injEq, Prod.exists] at h
  obtain ⟨a, ha, name, b, hb, c, hc, -, rfl⟩ := h
  have h1 := dropLead?_length ha
  have h2 := takeName_length hb
  have h3 := dropLead?_length hc
  have h4 := dropWhile_length_le isBlank a
  have h5 := dropWhile_length_le isBlank b
  have h6 : (if (a.dropWhile isBlank).head? == some '?' then (a.dropWhile isBlank).drop 1
      else a.dropWhile isBlank).length ≤ (a.dropWhile isBlank).length := by
    split <;> simp
  simp only [List.length_cons, List.length_nil] at h1 h3
  omega

/-- Puts a character before the pieces. -/
def consChar (c : Char) : List Segment → List Segment
  | .text s :: rest => .text (String.ofList (c :: s.toList)) :: rest
  | segments => .text (String.ofList [c]) :: segments

/-- Cuts a text into pieces: a placeholder wherever one begins, and the text between. -/
def cut (cs : List Char) : List Segment :=
  match cs with
  | [] => []
  | c :: cs =>
    match _found : placeholder? (c :: cs) with
    | some (s, rest) => s :: cut rest
    | none => consChar c (cut cs)
termination_by cs.length
decreasing_by
  · exact placeholder?_length _found
  · simp

end Template

/-- A template, cut into its pieces. -/
structure Template where
  segments : List Template.Segment
deriving DecidableEq, Repr

namespace Template

/-- The template that a text writes. -/
def ofText (s : String) : Template := ⟨cut s.toList⟩

/-- Asks for the properties of the values of a variable. -/
def properties : Template :=
  ofText <| "\x7b\x7bprefixes\x7d\x7dSELECT DISTINCT \x7b\x7b?property\x7d\x7d\n" ++
    "WHERE \x7b\n\x7b\x7bwhere\x7d\x7d  " ++
    "\x7b\x7bvariable\x7d\x7d \x7b\x7b?property\x7d\x7d \x7b\x7b?value\x7d\x7d .\n\x7d\n"

/-- Asks for the classes of the values of a variable. -/
def classes : Template :=
  ofText <| "\x7b\x7bprefixes\x7d\x7dSELECT DISTINCT \x7b\x7b?class\x7d\x7d\n" ++
    "WHERE \x7b\n\x7b\x7bwhere\x7d\x7d  \x7b\x7bvariable\x7d\x7d a \x7b\x7b?class\x7d\x7d .\n\x7d\n"

/-- The names of the placeholders that take a value, in order. -/
def placeholders (m : Template) : List String :=
  m.segments.filterMap fun
    | .placeholder name => some name
    | _ => none

/-- The values that a caller gives for names. -/
abbrev Values := List (String × TemplateValue)

/-- The constant that a value brings into the text, if any. -/
def valueConstant (q : Query) : TemplateValue → Except QueryError (List Constant)
  | .resource r => .ok [.resource r]
  | .literal l => .ok [.literal l]
  | .raw _ => .ok []
  | .var name => do
    let v ← q.var (← q.resolve name)
    return v.bound.toList

/-- The text of a value. -/
def valueText (q : Query) (t : PrefixTable) : TemplateValue → Except QueryError String
  | .resource r => .ok (r.render t)
  | .literal l => .ok (l.render t)
  | .raw s => .ok s
  | .var name => do
    return (← q.var (← q.resolve name)).inline t

/-- The constants that the values of the placeholders bring into the text. -/
def extraConstants (m : Template) (q : Query) (values : Values) :
    Except QueryError (List Constant) := do
  let given := m.placeholders.filterMap fun name => values.lookup name
  return (← given.mapM (valueConstant q)).flatten

/-- The text of a placeholder. -/
def placeholderText (q : Query) (t : PrefixTable) (values : Values) (extra : List Constant)
    (name : String) : Except QueryError String :=
  match values.lookup name with
  | some v => valueText q t v
  | none =>
    if name = "prefixes" then q.prefixText t extra
    else if name = "where" then q.bodyText t
    else .error (.noValue name)

/-- The names chosen so far for the template's own variables, under their bases. -/
abbrev FreshNames := List (String × String)

/-- The name of the template's own variable for a base, chosen when the base first comes
up. -/
def freshName (q : Query) (names : FreshNames) (base : String) : String × FreshNames :=
  match names.lookup base with
  | some name => (name, names)
  | none =>
    let name := uniqueName base (q.table.keys ++ names.map Prod.snd)
    (name, (base, name) :: names)

/-- The text of the pieces, when some names have been chosen. -/
def renderSegments (q : Query) (t : PrefixTable) (values : Values) (extra : List Constant)
    (names : FreshNames) : List Segment → Except QueryError String
  | [] => .ok ""
  | .text s :: rest => (renderSegments q t values extra names rest).map (s ++ ·)
  | .fresh base :: rest =>
    let (name, names) := freshName q names base
    (renderSegments q t values extra names rest).map ("?" ++ name ++ ·)
  | .placeholder name :: rest => do
    let s ← placeholderText q t values extra name
    return s ++ (← renderSegments q t values extra names rest)

/-- The text of a template for a query. -/
def render (m : Template) (q : Query) (t : PrefixTable) (values : Values) :
    Except QueryError String := do
  renderSegments q t values (← m.extraConstants q values) [] m.segments

end Template

end SparqlCompose
