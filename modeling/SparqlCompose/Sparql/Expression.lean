import SparqlCompose.Sparql.Triples

/-!
# Reading scalar expressions

The readers follow the precedence of the operators, loosest first.  Messages write an
operation of two operands in parentheses, sums and products apart.
-/

namespace SparqlCompose.Sparql

/-- Readers for what nests inside a graph pattern or an expression. -/
structure Nested where
  terms : NestedTerms
  expression : Parser Expr
  /-- A graph pattern in braces. -/
  group : Parser Algebra

namespace Expr

/-- Two expressions with an operator between them. -/
def binary (op : String) (a b : Expr) : Expr :=
  .compound ("(" ++ a.text ++ " " ++ op ++ " " ++ b.text ++ ")") (a.varNames ++ b.varNames)

/-- Two expressions in a sum or a product. -/
def arithmetic (a : Expr) (op : Char) (b : Expr) : Expr :=
  .compound (a.text ++ " " ++ String.singleton op ++ " " ++ b.text) (a.varNames ++ b.varNames)

/-- An expression after a sign. -/
def signed (c : Char) (e : Expr) : Expr :=
  .compound (String.ofList (c :: e.text.toList)) e.varNames

/-- The denial of an expression. -/
def not : Expr → Expr
  | .existence pattern => .compound ("NOT " ++ (Expr.existence pattern).text) []
  | e => signed '!' e

/-- A list of expressions in parentheses. -/
def listText (es : List Expr) : String := "(" ++ ", ".intercalate (es.map text) ++ ")"

/-- A function applied to expressions. -/
def call (function : String) (es : List Expr) : Expr :=
  .compound (function ++ listText es) (es.flatMap varNames)

/-- The value of an aggregate, which every group of solutions has. -/
def aggregate : Expr := .compound "aggregate" []

end Expr

namespace Parser

/-! ### Function calls -/

/-- Reads expressions in parentheses, separated by commas, or empty parentheses. -/
def expressionList (n : Nested) : Parser (List Expr) :=
  (do
    char '('
    space
    let es ← sepBy1 (spaced n.expression) comma
    char ')'
    return es) <|>
  (do nil; return [])

/-- Reads the arguments of a function that an IRI names, of which only distinct ones may be
asked for. -/
def argumentList (n : Nested) : Parser (List Expr) :=
  (do
    char '('
    space
    let _ ← spaced (optional (keyword "DISTINCT"))
    let es ← sepBy1 (spaced n.expression) comma
    char ')'
    return es) <|>
  (do nil; return [])

/-- Reads an expression in parentheses. -/
def bracketedExpression (n : Nested) : Parser Expr := parens n.expression

/-- Reads a call of a function that an IRI names. -/
def functionCall (n : Nested) : Parser Expr := do
  let f ← spaced iri
  return .call ("<" ++ f ++ ">") (← argumentList n)

/-- Reads an IRI, or a call of the function that it names. -/
def iriOrFunction (n : Nested) : Parser Expr :=
  functionCall n <|> (do return .constant (.iri (← iri)))

/-- The functions of one argument. -/
def unaryFunctions : List String :=
  ["STR", "LANG", "DATATYPE", "IRI", "URI", "ABS", "CEIL", "FLOOR", "ROUND", "STRLEN", "UCASE",
    "LCASE", "ENCODE_FOR_URI", "YEAR", "MONTH", "DAY", "HOURS", "MINUTES", "SECONDS",
    "TIMEZONE", "TZ", "MD5", "SHA1", "SHA256", "SHA384", "SHA512", "ISIRI", "ISURI", "ISBLANK",
    "ISLITERAL", "ISNUMERIC"]

/-- The functions of two arguments. -/
def binaryFunctions : List String :=
  ["LANGMATCHES", "CONTAINS", "STRSTARTS", "STRENDS", "STRBEFORE", "STRAFTER", "STRLANG",
    "STRDT", "SAMETERM"]

/-- The functions without arguments. -/
def nullaryFunctions : List String := ["RAND", "NOW", "UUID", "STRUUID"]

/-- The numbers of arguments that a function of the language takes, in the order in which they
are tried. -/
def argumentCounts (function : String) : List Nat :=
  if unaryFunctions.contains function then [1]
  else if binaryFunctions.contains function then [2]
  else if nullaryFunctions.contains function then [0]
  else match function with
    | "BNODE" => [1, 0]
    | "SUBSTR" => [3, 2]
    | "REGEX" => [3, 2]
    | "REPLACE" => [4, 3]
    | "IF" => [3]
    | _ => []

/-- The spelling of a function in messages. -/
def functionText (function : String) : String :=
  match function with
  | "URI" => "IRI"
  | "ISIRI" | "ISURI" => "isIRI"
  | "ISBLANK" => "isBLANK"
  | "ISLITERAL" => "isLITERAL"
  | "ISNUMERIC" => "isNUMERIC"
  | "SAMETERM" => "sameTerm"
  | f => f

/-- Reads the name of a function, in letters of any case. -/
def functionName : Parser String := do
  let cs ← Scan.run1 fun c => c.isAlphanum || c == '_'
  return String.ofList (cs.map Char.toUpper)

/-- Reads the given number of arguments. -/
def arguments (n : Nested) : Nat → Parser (List Expr)
  | 0 => do nil; return []
  | k + 1 => parens do
    let first ← n.expression
    return first :: (← (List.range k).mapM fun _ => do space; char ','; space; n.expression)

/-- Reads a call of a function of the language.  Nothing stands between its name and its
arguments. -/
def namedCall (n : Nested) : Parser Expr := do
  let f ← functionName
  if f = "BOUND" then
    let v ← parens variableName
    return .compound ("BOUND(?" ++ v ++ ")") []
  else if f = "CONCAT" then return .call f (← expressionList n)
  else if f = "COALESCE" then return .compound (f ++ Expr.listText (← expressionList n)) []
  else
    let attempts := (argumentCounts f).map (arguments n)
    return .call (functionText f) (← attempts.foldr (· <|> ·) failure)

/-! ### Aggregates -/

/-- Takes a note that the query has an aggregate. -/
def noteAggregate : Parser Unit := do
  match (← scope).aggregates with
  | _ :: outer => declare fun s => { s with aggregates := true :: outer }
  | [] => failure

/-- Reads an expression, which may be asked for in distinct values only. -/
def distinctExpression (p : Parser Unit) : Parser Unit :=
  (do keyword "DISTINCT"; space; p) <|> p

/-- Reads the text that separates the values of a group. -/
def concatSeparator : Parser Unit := do
  char ';'
  space
  keyword "SEPARATOR"
  space
  char '='
  space
  let _ ← spaced string

/-- Reads the argument of an aggregate. -/
def aggregateArgument (n : Nested) (function : String) : Parser Unit :=
  let expression : Parser Unit := do let _ ← spaced n.expression
  if function = "COUNT" then
    distinctExpression ((do char '*'; space) <|> expression)
  else if ["SUM", "MIN", "MAX", "AVG", "SAMPLE"].contains function then
    distinctExpression expression
  else if function = "GROUP_CONCAT" then
    distinctExpression ((do expression; concatSeparator) <|> expression)
  else failure

/-- Reads an aggregate. -/
def aggregate (n : Nested) : Parser Expr := do
  let f ← spaced functionName
  char '('
  space
  aggregateArgument n f
  char ')'
  noteAggregate
  return .aggregate

/-! ### Operators -/

/-- Reads the question whether a pattern has a solution. -/
def existence (n : Nested) : Parser Expr := do
  keyword "EXISTS"
  space
  return .existence (← n.group).text

/-- Reads a call of a function of the language, an aggregate, or a question about a
pattern. -/
def builtInCall (n : Nested) : Parser Expr :=
  aggregate n <|> namedCall n <|> existence n <|>
  (do keyword "NOT"; space; return (← existence n).not)

/-- Reads an expression without operators around it. -/
def primary (n : Nested) : Parser Expr :=
  bracketedExpression n <|> iriOrFunction n <|> (.var <$> variableName) <|>
  (do return .constant (.literal (← literal))) <|> builtInCall n

/-- Reads an expression with an optional sign. -/
def unary (n : Nested) : Parser Expr := do
  match ← optional (Scan.charIf fun c => c == '!' || c == '+' || c == '-') with
  | none => primary n
  | some c =>
    space
    let e ← primary n
    return if c == '!' then e.not else e.signed c

/-- Reads operands with operators of a class between them. -/
def chain (p : Parser Expr) (isOperator : Char → Bool) : Parser Expr := do
  let first ← spaced p
  let more ← many do
    let op ← spaced (Scan.charIf isOperator)
    return (op, ← spaced p)
  return more.foldl (fun a (op, b) => a.arithmetic op b) first

/-- Reads products. -/
def multiplicative (n : Nested) : Parser Expr := chain (unary n) fun c => c == '*' || c == '/'

/-- Reads sums. -/
def additive (n : Nested) : Parser Expr :=
  chain (multiplicative n) fun c => c == '+' || c == '-'

/-- Reads a sign of comparison. -/
def comparison : Parser String :=
  sign "=" <|> sign "!=" <|> sign ">=" <|> sign ">" <|> sign "<=" <|> sign "<"
where
  sign (s : String) : Parser String := do
    lead s
    return s

/-- Reads what may follow a sum, which is the first operand. -/
def relationalTail (n : Nested) (a : Expr) : Parser Expr :=
  (do
    let op ← spaced comparison
    let b ← additive n
    return if op = "!=" then (Expr.binary "=" a b).not else .binary op a b) <|>
  (do keyword "IN"; space; return member (← expressionList n)) <|>
  (do
    keyword "NOT"
    space
    keyword "IN"
    space
    return (member (← expressionList n)).not)
where
  member (es : List Expr) : Expr :=
    .compound ("(" ++ a.text ++ " IN " ++ Expr.listText es ++ ")")
      (a.varNames ++ es.flatMap Expr.varNames)

/-- Reads comparisons. -/
def relational (n : Nested) : Parser Expr := do
  let a ← spaced (additive n)
  return (← optional (relationalTail n a)).getD a

/-- Reads operands of a logical operator. -/
def logical (p : Parser Expr) (op : String) : Parser Expr := do
  match ← sepBy1 (spaced p) (do lead op; space) with
  | [] => failure
  | e :: es => return es.foldl (Expr.binary op) e

/-- Reads an expression. -/
def expression (n : Nested) : Parser Expr :=
  logical (logical (relational n) "&&") "||"

/-- Reads a condition. -/
def constraint (n : Nested) : Parser Expr :=
  bracketedExpression n <|> functionCall n <|> builtInCall n

end Parser

end SparqlCompose.Sparql
