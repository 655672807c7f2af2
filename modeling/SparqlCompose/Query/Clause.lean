import SparqlCompose.OrderedMap
import SparqlCompose.Query.Error

/-!
# Clauses of a query

The body of a query is a list of clauses.  A clause is a triple pattern or a block of clauses
that an endpoint answers; blocks may be nested.  A block lists the variables that occur in
it, each once, in order of first occurrence.
-/

namespace SparqlCompose

/-- A triple pattern. -/
structure Pattern where
  subject : Term
  predicate : Term
  object : Term
deriving DecidableEq, Repr

namespace Pattern

/-- A pattern whose subject and predicate are no literals. -/
def make (s p o : Term) : Except QueryError Pattern :=
  if s.isLiteral then .error (.literalIn .subject)
  else if p.isLiteral then .error (.literalIn .predicate)
  else .ok ⟨s, p, o⟩

/-- The variables of a pattern, slot by slot. -/
def varIds (p : Pattern) : List VarId :=
  [p.subject, p.predicate, p.object].filterMap Term.var?

/-- Passes every variable through `f`. -/
def mapVar (f : VarId → VarId) (p : Pattern) : Pattern :=
  ⟨p.subject.mapVar f, p.predicate.mapVar f, p.object.mapVar f⟩

end Pattern

/-- A clause of a query body. -/
inductive Clause where
  | pattern (p : Pattern)
  /-- A block for an endpoint, with the variables that the block lists as its own. -/
  | service (endpoint : String) (clauses : List Clause) (varIds : List VarId)

namespace Clause

mutual

/-- The triple patterns of a clause, in order. -/
def patterns : Clause → List Pattern
  | .pattern p => [p]
  | .service _ cs _ => patternsAll cs

/-- The triple patterns of a list of clauses, in order. -/
def patternsAll : List Clause → List Pattern
  | [] => []
  | c :: cs => patterns c ++ patternsAll cs

end

/-- The variables in the patterns of the clauses, each once, in order of first occurrence. -/
def varIdsAll (cs : List Clause) : List VarId :=
  ((patternsAll cs).flatMap Pattern.varIds).foldl appendNew []

/-- The variables in the patterns of a clause, each once, in order of first occurrence. -/
def varIds (c : Clause) : List VarId := varIdsAll [c]

/-- A block for an endpoint, which lists the variables of its patterns. -/
def block (endpoint : String) (cs : List Clause) : Clause :=
  .service endpoint cs (varIdsAll cs)

mutual

/-- Passes every variable through `f`, those that blocks list included. -/
def mapVar (f : VarId → VarId) : Clause → Clause
  | .pattern p => .pattern (p.mapVar f)
  | .service e cs vs => .service e (mapVarAll f cs) (vs.map f)

/-- Passes every variable of the clauses through `f`. -/
def mapVarAll (f : VarId → VarId) : List Clause → List Clause
  | [] => []
  | c :: cs => mapVar f c :: mapVarAll f cs

end

mutual

/-- Whether two clauses are the same. -/
def same : Clause → Clause → Bool
  | .pattern p, .pattern q => p == q
  | .service e cs vs, .service e' cs' vs' => e == e' && sameAll cs cs' && vs == vs'
  | _, _ => false

/-- Whether two lists of clauses are the same. -/
def sameAll : List Clause → List Clause → Bool
  | [], [] => true
  | c :: cs, d :: ds => same c d && sameAll cs ds
  | _, _ => false

end

end Clause

end SparqlCompose
