import SparqlCompose.Text.Digits

/-!
# What plain scalars mean

A scalar without quotes may be a null, a truth value or a number in the core schema of YAML.
A reader needs this to tell a number from a text, a writer to know which texts need quotes.
-/

namespace SparqlCompose.Yaml

/-- Whether a plain scalar is written as a null.  An empty one is a null too. -/
def isNull (text : String) : Bool := text ∈ ["", "~", "null", "Null", "NULL"]

/-- Whether a plain scalar is a truth value. -/
def isTruth (text : String) : Bool :=
  text ∈ ["true", "True", "TRUE", "false", "False", "FALSE"]

/-- The number that digits of a base write; there must be one. -/
def digitsIn? (base : Nat) (ds : List Char) : Option Nat :=
  if ds.isEmpty then none
  else ds.foldlM (fun n c => do
    let d ← hexDigit? c
    if d < base then some (base * n + d) else none) 0

/-- Whether a text has only digits after an optional sign, and a zero before others.  Such a
text is no number. -/
def isPadded (cs : List Char) : Bool :=
  match cs with
  | '+' :: '0' :: c :: r | '-' :: '0' :: c :: r | '0' :: c :: r => (c :: r).all Char.isDigit
  | _ => false

/-- The number that digits write in base ten, or in the base that their lead names. -/
def magnitude? : List Char → Option Nat
  | '0' :: 'x' :: ds => digitsIn? 16 ds
  | '0' :: 'o' :: ds => digitsIn? 8 ds
  | '0' :: 'b' :: ds => digitsIn? 2 ds
  | ds => if isPadded ds then none else digitsIn? 10 ds

/-- The natural number that a plain scalar writes. -/
def natural? (text : String) : Option Nat :=
  match text.toList with
  | '+' :: ds => magnitude? ds
  | ds => magnitude? ds

/-- Whether a plain scalar is a whole number of 128 bits. -/
def isInteger (text : String) : Bool :=
  match text.toList with
  | '-' :: ds => (magnitude? ds).any (· ≤ Nat.pow 2 127)
  | _ => (natural? text).any (· < Nat.pow 2 128)

/-- The exponent at the end of a number. -/
def exponentOf? : List Char → Option Int
  | [] => some 0
  | c :: cs =>
    if c == 'e' || c == 'E' then
      match cs with
      | '+' :: ds => (digitsIn? 10 ds).map Int.ofNat
      | '-' :: ds => (digitsIn? 10 ds).map fun n => -(Int.ofNat n)
      | ds => (digitsIn? 10 ds).map Int.ofNat
    else none

/-- The digits of a decimal number and the power of ten by which they count. -/
def scientific? (cs : List Char) : Option (List Char × Int) := do
  let whole := cs.takeWhile Char.isDigit
  let (frac, rest) := match cs.dropWhile Char.isDigit with
    | '.' :: r => (r.takeWhile Char.isDigit, r.dropWhile Char.isDigit)
    | r => ([], r)
  if whole.isEmpty && frac.isEmpty then failure
  return (whole ++ frac, (← exponentOf? rest) - frac.length)

/-- Whether a plain scalar is a number of double precision. -/
def isFloat (text : String) : Bool :=
  if isPadded text.toList then false
  else if text ∈ [".inf", ".Inf", ".INF", "+.inf", "+.Inf", "+.INF", "-.inf", "-.Inf", "-.INF",
    ".nan", ".NaN", ".NAN"] then true
  else
    let unsigned := match text.toList with
      | '+' :: r => r
      | '-' :: r => r
      | r => r
    (scientific? unsigned).any fun (ds, power) => isFinite ds power

/-- Whether a text would not be read as a text if it stood without quotes. -/
def looksTyped (text : String) : Bool :=
  isNull text || isTruth text || isInteger text || isFloat text || isPadded text.toList

end SparqlCompose.Yaml
