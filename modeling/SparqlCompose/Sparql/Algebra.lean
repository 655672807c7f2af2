import SparqlCompose.Query.Basic
import SparqlCompose.Term.Canonical

/-!
# The algebra of SPARQL queries

The text of a query stands for an expression of the algebra.  The algebra here has all
operators of SPARQL 1.1, although a query of this library can hold few of them: what cannot
be held has to be recognised, so that it is refused and not lost.

Of a scalar expression only three things matter: whether it is a constant, whether it is a
variable, and how it is written in a message.  Other expressions are kept as their text and
the variables that they need.
-/

namespace SparqlCompose.Sparql

/-- A slot of a triple pattern, where variables have names. -/
inductive Node where
  | var (name : String)
  | resource (r : Resource)
  | literal (l : Literal)
deriving DecidableEq, Repr

namespace Node

/-- The variable in a slot. -/
def var? : Node → Option String
  | .var name => some name
  | _ => none

/-- A slot as it is written in a message. -/
def text : Node → String
  | .var name => "?" ++ name
  | .resource r => r.canonical
  | .literal l => l.canonical

/-- The slot of an IRI. -/
def iri (text : String) : Node := .resource (.iri text)

end Node

/-- A triple pattern. -/
structure TriplePattern where
  subject : Node
  predicate : Node
  object : Node
deriving DecidableEq, Repr

namespace TriplePattern

/-- The variables of a pattern. -/
def varNames (t : TriplePattern) : List String :=
  [t.subject, t.predicate, t.object].filterMap Node.var?

/-- A pattern as it is written in a message. -/
def text (t : TriplePattern) : String :=
  t.subject.text ++ " " ++ t.predicate.text ++ " " ++ t.object.text ++ " ."

end TriplePattern

/-- A scalar expression. -/
inductive Expr where
  | constant (c : Constant)
  | var (name : String)
  /-- Whether a pattern, of which the text is kept, has a solution. -/
  | existence (pattern : String)
  /-- Any other expression: its text, and the variables without which it has no value. -/
  | compound (text : String) (varNames : List String)
deriving DecidableEq, Repr

namespace Expr

/-- The constant that the expression is. -/
def constant? : Expr → Option Constant
  | .constant c => some c
  | _ => none

/-- An expression as it is written in a message. -/
def text : Expr → String
  | .constant c => c.canonical
  | .var name => "?" ++ name
  | .existence pattern => "EXISTS \x7b " ++ pattern ++ " \x7d"
  | .compound text _ => text

/-- The variables without which the expression has no value. -/
def varNames : Expr → List String
  | .constant _ => []
  | .var name => [name]
  | .existence _ => []
  | .compound _ vs => vs

end Expr

/-- An expression of the algebra. -/
inductive Algebra where
  /-- A basic graph pattern. -/
  | bgp (triples : List TriplePattern)
  /-- A property path that is no triple pattern. -/
  | path (subject object : Node) (text : String)
  | join (left right : Algebra)
  /-- `OPTIONAL`, with a condition on the optional part. -/
  | leftJoin (left right : Algebra) (condition : Option Expr)
  | filter (condition : Expr) (inner : Algebra)
  | union (left right : Algebra)
  | graph (name : Node) (inner : Algebra)
  /-- Gives a variable the value of an expression. -/
  | extend (inner : Algebra) (variableName : String) (value : Expr)
  | minus (left right : Algebra)
  /-- Rows of values; `none` leaves a variable without a value. -/
  | values (columns : List String) (rows : List (List (Option Constant)))
  | service (name : Node) (inner : Algebra) (silent : Bool)
  | group (inner : Algebra) (keys : List String)
  | orderBy (inner : Algebra) (keys : List (Direction × Expr))
  | project (inner : Algebra) (columns : List String)
  | distinct (inner : Algebra)
  | reduced (inner : Algebra)
  | slice (inner : Algebra) (start : Nat) (length : Option Nat)
deriving Inhabited

namespace Algebra

/-- The pattern without any triple, which has one solution. -/
def empty : Algebra := .bgp []

/-- Whether a pattern has no triple. -/
def isEmpty : Algebra → Bool
  | .bgp [] => true
  | _ => false

/-- Two patterns side by side.  Basic graph patterns merge into one. -/
def beside : Algebra → Algebra → Algebra
  | .bgp [], r => r
  | l, .bgp [] => l
  | .bgp ts, .bgp us => .bgp (ts ++ us)
  | l, r => .join l r

/-- The variables that can have a value in a solution. -/
def inScope : Algebra → List String
  | .bgp ts => ts.flatMap TriplePattern.varNames
  | .path s o _ => [s, o].filterMap Node.var?
  | .join l r => l.inScope ++ r.inScope
  | .leftJoin l r _ => l.inScope ++ r.inScope
  | .filter _ p => p.inScope
  | .union l r => l.inScope ++ r.inScope
  | .graph n p => n.var?.toList ++ p.inScope
  | .extend p v _ => v :: p.inScope
  | .minus l _ => l.inScope
  | .values vs _ => vs
  | .service n p _ => n.var?.toList ++ p.inScope
  | .group _ ks => ks
  | .orderBy p _ => p.inScope
  | .project _ vs => vs
  | .distinct p => p.inScope
  | .reduced p => p.inScope
  | .slice p _ _ => p.inScope

/-- A text between braces. -/
def braced (s : String) : String := "\x7b " ++ s ++ " \x7d"

/-- A cell of a row of values. -/
def cellText (c : Option Constant) : String := c.elim "UNDEF " fun c => c.canonical ++ " "

/-- An order key as it is written in a message. -/
def keyText (k : Direction × Expr) : String := k.1.word ++ "(" ++ k.2.text ++ ")"

/-- Whether a pattern changes what stands before it, and so needs braces of its own. -/
def isTrailing : Algebra → Bool
  | .leftJoin _ _ _ => true
  | .minus _ _ => true
  | .extend _ _ _ => true
  | .filter _ _ => true
  | _ => false

/-- The clauses of a selection around a pattern, as a message shows them. -/
structure Frame where
  isDistinct : Bool := false
  isReduced : Bool := false
  columns : List String := []
  order : List (Direction × Expr) := []
  start : Nat := 0
  length : Option Nat := none

/-- The names of variables, each with a space before it. -/
def columnText (vs : List String) : String := String.join (vs.map fun v => " ?" ++ v)

/-- A selection of what the pattern with the given text has; without columns, of all. -/
def Frame.text (f : Frame) (body : String) : String :=
  "SELECT" ++ (if f.isDistinct then " DISTINCT" else "") ++
    (if f.isReduced then " REDUCED" else "") ++
    (if f.columns.isEmpty then " *" else columnText f.columns) ++ " WHERE " ++ braced body ++
    (if f.order.isEmpty then "" else
      " ORDER BY" ++ String.join (f.order.map fun k => " " ++ keyText k)) ++
    (if f.start = 0 then "" else " OFFSET " ++ toString f.start) ++
    f.length.elim "" fun n => " LIMIT " ++ toString n

/-- A pattern with the given text in its frame, if it has one. -/
def framed (frame : Option Frame) (body : String) : String :=
  match frame with
  | some f => f.text body
  | none => body

/-- A pattern as it is written in a message, inside the clauses that have been met around it.
Clauses of one selection after another are shown as one, up to the next columns. -/
def textIn (frame : Option Frame) : Algebra → String
  | .bgp ts => framed frame (String.join (ts.map TriplePattern.text))
  | .path _ _ t => framed frame t
  | .join l r =>
    let right := r.textIn none
    framed frame (l.textIn none ++ " " ++ if r.isTrailing then braced right else right)
  | .leftJoin l r none => framed frame (l.textIn none ++ " OPTIONAL " ++ braced (r.textIn none))
  | .leftJoin l r (some e) =>
    framed frame
      (l.textIn none ++ " OPTIONAL " ++ braced (r.textIn none ++ " FILTER(" ++ e.text ++ ")"))
  | .filter e p => framed frame (p.textIn none ++ " FILTER(" ++ e.text ++ ")")
  | .union l r => framed frame (braced (l.textIn none) ++ " UNION " ++ braced (r.textIn none))
  | .graph n p => framed frame ("GRAPH " ++ n.text ++ " " ++ braced (p.textIn none))
  | .extend p v e => framed frame (p.textIn none ++ " BIND(" ++ e.text ++ " AS ?" ++ v ++ ")")
  | .minus l r => framed frame (l.textIn none ++ " MINUS " ++ braced (r.textIn none))
  | .values vs rows =>
    framed frame <|
      "VALUES ( " ++ String.join (vs.map fun v => "?" ++ v ++ " ") ++ ") \x7b " ++
        String.join (rows.map fun row => "( " ++ String.join (row.map cellText) ++ ") ") ++
        " \x7d"
  | .service n p false => framed frame ("SERVICE " ++ n.text ++ " " ++ braced (p.textIn none))
  | .service n p true =>
    framed frame ("SERVICE SILENT " ++ n.text ++ " " ++ braced (p.textIn none))
  | .group p ks =>
    framed frame <|
      "\x7bSELECT" ++ columnText ks ++ " WHERE " ++ braced (p.textIn none) ++
        (if ks.isEmpty then "" else " GROUP BY" ++ columnText ks) ++ "\x7d"
  | .orderBy p ks => clause frame fun f => p.textIn (some { f with order := ks })
  | .project p vs =>
    let inner := p.textIn (some { frame.getD {} with columns := vs })
    if (frame.getD {}).columns.isEmpty then clause frame fun _ => inner
    else framed frame (braced (p.textIn (some { columns := vs })))
  | .distinct p => clause frame fun f => p.textIn (some { f with isDistinct := true })
  | .reduced p => clause frame fun f => p.textIn (some { f with isReduced := true })
  | .slice p start length =>
    clause frame fun f => p.textIn (some { f with start := start, length := length })
where
  /-- A clause in its frame.  The outermost one has braces around its selection. -/
  clause (frame : Option Frame) (inner : Frame → String) : String :=
    match frame with
    | some f => inner f
    | none => braced (inner {})

/-- A pattern as it is written in a message. -/
def text (p : Algebra) : String := p.textIn none

end Algebra

end SparqlCompose.Sparql
