import SparqlCompose.Text.Alphanumeric
import SparqlCompose.Text.Cut
import SparqlCompose.Text.Digits

/-!
# Variable names

A variable name is made of letters and numbers of any script and of underscores.  A new name
that must differ from others is found by counting: the number at the end of the wanted name
grows until the name is free.
-/

namespace SparqlCompose

/-- Characters of a variable name. -/
def isNameChar (c : Char) : Bool := isAlphanumeric c || c == '_'

/-- Whether a text can name a variable. -/
def isVarName (name : String) : Bool :=
  match name.toList with
  | [] => false
  | cs => cs.all isNameChar

/-- A name without one leading question mark. -/
def bareName (name : String) : String := dropFirst '?' name

/-- A name without the decimal digits at its end. -/
def nameStem (name : String) : List Char :=
  (name.toList.reverse.dropWhile Char.isDigit).reverse

/-- The decimal digits at the end of a name. -/
def nameDigits (name : String) : List Char :=
  (name.toList.reverse.takeWhile Char.isDigit).reverse

/-- The first number to try after a name: one more than the number at its end, or one where
there is none or it does not fit in 64 bits. -/
def startNumber (name : String) : Nat :=
  let ds := nameDigits name
  if ds.isEmpty then 1
  else
    let n := decimal ds
    if n < wordSize then n + 1 else 1

/-- A stem with a number at its end. -/
def numbered (stem : List Char) (n : Nat) : String :=
  String.ofList (stem ++ (toString n).toList)

/-- The first free name of the stem with the numbers from `n` on, among `fuel + 1` of
them. -/
def firstFree (taken : List String) (stem : List Char) : Nat → Nat → String
  | 0, n => numbered stem n
  | fuel + 1, n =>
    if numbered stem n ∈ taken then firstFree taken stem fuel (n + 1) else numbered stem n

/-- A name that is not taken: the candidate if it is free, else its stem with the least
number from `startNumber` on that makes a free name.  As many numbers as names are taken can
fail, so one more suffices. -/
def uniqueName (candidate : String) (taken : List String) : String :=
  if candidate ∈ taken then
    firstFree taken (nameStem candidate) taken.length (startNumber candidate)
  else candidate

end SparqlCompose
