import SparqlCompose.PrefixTable
import SparqlCompose.Term.Basic

/-!
# Terms in query text

An IRI is written as a prefixed name where the table allows it.  A number or truth value with
a lexical form that SPARQL reads as that type is written bare, every other literal between
quotes.  A text with a line break stands between three quotes.
-/

namespace SparqlCompose

/-- A resource in query text. -/
def Resource.render (t : PrefixTable) : Resource → String
  | .blank label => "_:" ++ label
  | .iri text => (t.compact? text).getD ("<" ++ text ++ ">")

/-- A text without its sign. -/
def withoutSign : List Char → List Char
  | '+' :: cs => cs
  | '-' :: cs => cs
  | cs => cs

/-- Whether a text is made of decimal digits, at least one. -/
def isDigits (cs : List Char) : Bool := !cs.isEmpty && cs.all Char.isDigit

/-- Whether a text reads as an integer. -/
def isInteger (cs : List Char) : Bool := isDigits (withoutSign cs)

/-- Whether a text reads as a decimal: digits after a point, with or without digits before. -/
def isDecimal (cs : List Char) : Bool :=
  match cutFirst (· == '.') (withoutSign cs) with
  | some (whole, fraction) => (whole.isEmpty || isDigits whole) && isDigits fraction
  | none => false

/-- Whether a text is the part of a double before its exponent. -/
def isMantissa (cs : List Char) : Bool :=
  match cutFirst (· == '.') cs with
  | some (whole, fraction) =>
    (isDigits whole && (fraction.isEmpty || isDigits fraction)) ||
      (whole.isEmpty && isDigits fraction)
  | none => isDigits cs

/-- Whether a text reads as a double, which needs an exponent. -/
def isDouble (cs : List Char) : Bool :=
  match cutFirst (fun c => c == 'e' || c == 'E') (withoutSign cs) with
  | some (mantissa, exponent) => isMantissa mantissa && isDigits (withoutSign exponent)
  | none => false

/-- Whether the bare text of a literal reads as a literal of the datatype. -/
def isBareForm (datatype : String) (cs : List Char) : Bool :=
  if datatype = Vocabulary.xsd "integer" then isInteger cs
  else if datatype = Vocabulary.xsd "decimal" then isDecimal cs
  else if datatype = Vocabulary.xsd "double" then isDouble cs
  else if datatype = Vocabulary.xsd "boolean" then
    cs == "true".toList || cs == "false".toList
  else false

/-- A character between three quotes. -/
def escapeLongChar (c : Char) : List Char :=
  if c = '\\' then ['\\', '\\'] else if c = '"' then ['\\', '"'] else [c]

/-- A character between single quotation marks on one line. -/
def escapeShortChar (c : Char) : List Char :=
  if c = '\r' then ['\\', 'r'] else escapeLongChar c

/-- A text between quotes. -/
def quoteText (value : String) : String :=
  let cs := value.toList
  if cs.contains '\n' then
    "\"\"\"" ++ String.ofList (cs.flatMap escapeLongChar) ++ "\"\"\""
  else "\"" ++ String.ofList (cs.flatMap escapeShortChar) ++ "\""

namespace Literal

/-- Whether the literal is written without quotes. -/
def isBare (l : Literal) : Bool :=
  match l.kind with
  | .typed d => isBareForm d l.value.toList
  | _ => false

/-- A literal in query text. -/
def render (t : PrefixTable) (l : Literal) : String :=
  match l.kind with
  | .simple => quoteText l.value
  | .tagged tag => quoteText l.value ++ "@" ++ tag
  | .typed d =>
    if isBareForm d l.value.toList then l.value
    else quoteText l.value ++ "^^" ++ (Resource.iri d).render t

end Literal

/-- A constant in query text. -/
def Constant.render (t : PrefixTable) : Constant → String
  | .resource r => r.render t
  | .literal l => l.render t

end SparqlCompose
