/-!
# JSON values and their compact text

Snapshots of queries and result documents are JSON.  A value keeps the fields of an object
in the order of the text, repeated names included, so that a reader can refuse a repeated
field or let the last one win as its format demands.  Of numbers only whole numbers below
`wordSize` have a meaning here; any other number is kept as a mark that one stood there.  So is
a value that can be written but not used, which only matters where something looks at it.

`Json.text` writes a value without any space between its parts.
-/

namespace SparqlCompose

/-- A JSON value. -/
inductive Json where
  | null
  | bool (b : Bool)
  /-- A whole number below `wordSize`. -/
  | num (n : Nat)
  /-- A negative, fractional or larger number. -/
  | otherNum
  /-- A string with half of a surrogate pair, an object with such a field name, or a number
  beyond double precision. -/
  | unusable
  | str (s : String)
  | arr (items : List Json)
  | obj (fields : List (String × Json))

namespace Json

/-- The four hexadecimal digits, in lower case, of a code point below U+10000. -/
def hex4 (n : Nat) : List Char :=
  [n / 4096 % 16, n / 256 % 16, n / 16 % 16, n % 16].map Nat.digitChar

/-- A character inside a JSON string. -/
def escapeChar (c : Char) : List Char :=
  if c = '"' then ['\\', '"']
  else if c = '\\' then ['\\', '\\']
  else if c = '\n' then ['\\', 'n']
  else if c = '\r' then ['\\', 'r']
  else if c = '\t' then ['\\', 't']
  else if c = '\x08' then ['\\', 'b']
  else if c = '\x0c' then ['\\', 'f']
  else if c.toNat < 0x20 then '\\' :: 'u' :: hex4 c.toNat
  else [c]

/-- A text as a JSON string, quotes included. -/
def quoted (s : String) : List Char :=
  '"' :: (s.toList.flatMap escapeChar ++ ['"'])

mutual

/-- The compact text of a value. -/
def chars : Json → List Char
  | .null => "null".toList
  | .bool true => "true".toList
  | .bool false => "false".toList
  | .num n => (toString n).toList
  | .otherNum => "0.0".toList
  | .unusable => '"' :: '\\' :: 'u' :: (hex4 0xD800 ++ ['"'])
  | .str s => quoted s
  | .arr items => '[' :: (itemChars items ++ [']'])
  | .obj fields => '\x7b' :: (fieldChars fields ++ ['\x7d'])

/-- The items of an array, with commas between them. -/
def itemChars : List Json → List Char
  | [] => []
  | [v] => chars v
  | v :: vs => chars v ++ ',' :: itemChars vs

/-- The fields of an object, with commas between them. -/
def fieldChars : List (String × Json) → List Char
  | [] => []
  | [(k, v)] => quoted k ++ ':' :: chars v
  | (k, v) :: fs => quoted k ++ ':' :: (chars v ++ ',' :: fieldChars fs)

end

/-- The compact text of a value. -/
def text (v : Json) : String := String.ofList v.chars

end Json

end SparqlCompose
