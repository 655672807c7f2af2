/-!
# Digits

The numbers that decimal and hexadecimal digits write, the character whose code point is
written in hexadecimal digits, and whether a decimal number is one of double precision.
-/

namespace SparqlCompose

/-- The value of a hexadecimal digit. -/
def hexDigit? (c : Char) : Option Nat :=
  if c.isDigit then some (c.toNat - '0'.toNat)
  else if 'a' ≤ c ∧ c ≤ 'f' then some (c.toNat - 'a'.toNat + 10)
  else if 'A' ≤ c ∧ c ≤ 'F' then some (c.toNat - 'A'.toNat + 10)
  else none

/-- The number that a list of hexadecimal digits writes. -/
def hexNumber? (ds : List Char) : Option Nat :=
  ds.foldlM (fun n c => (hexDigit? c).map (16 * n + ·)) 0

/-- The character with a code point, if the code point is one of a character. -/
def charAt? (n : Nat) : Option Char :=
  if n.isValidChar then some (Char.ofNat n) else none

/-- The number of values that 64 bits have. -/
def wordSize : Nat := 0x10000000000000000

/-- The number that a list of decimal digits writes. -/
def decimal (ds : List Char) : Nat :=
  ds.foldl (fun n c => 10 * n + (c.toNat - '0'.toNat)) 0

/-- Whether digits times a power of ten stay below the least number that rounds to infinity
in double precision, which has 309 digits. -/
def isFinite (digits : List Char) (power : Int) : Bool :=
  let ds := digits.dropWhile (· == '0')
  let places := Int.ofNat ds.length + power
  if ds.isEmpty || places < 309 then true
  else if 309 < places then false
  else
    let bound := Nat.pow 2 1024 - Nat.pow 2 970
    decimal ds * Nat.pow 10 power.toNat < bound * Nat.pow 10 (-power).toNat

end SparqlCompose
