import SparqlCompose.Sparql.Algebra

/-!
# The algebra of a selection

A selection consists of a pattern and of the clauses around it.  `Selection.algebra?` puts
them together in the order in which they take effect: groups and their conditions, rows of
values, computed columns, order keys, the columns, repetition, and the slice.  It answers
nothing for a selection that breaks a rule on its columns.
-/

namespace SparqlCompose.Sparql

/-- A column of the result. -/
inductive Column where
  | var (name : String)
  /-- A computed column under a name. -/
  | computed (e : Expr) (name : String)

namespace Column

/-- The name of a column. -/
def name : Column → String
  | .var v => v
  | .computed _ v => v

end Column

/-- What becomes of repeated solutions. -/
inductive Repetition where
  | kept
  | distinct
  | reduced

/-- A key by which solutions are grouped: an expression with the variable for its value.  A
key without a variable of its own has the empty name. -/
structure GroupKey where
  value : Expr
  name : String

/-- A selection, clause by clause. -/
structure Selection where
  repetition : Repetition
  /-- The columns; `none` stands for all variables. -/
  columns : Option (List Column)
  body : Algebra
  groups : Option (List GroupKey)
  having : List Expr
  order : Option (List (Direction × Expr))
  slice : Option (Nat × Option Nat)
  values : Option Algebra
  /-- Whether an expression has an aggregate. -/
  hasAggregate : Bool

namespace Selection

/-- The groups of a selection: an aggregate without groups makes one group of all
solutions. -/
def effectiveGroups (s : Selection) : Option (List GroupKey) :=
  s.groups <|> if s.hasAggregate then
    some [⟨.constant (.literal (.ofType "1" (Vocabulary.xsd "integer"))), ""⟩]
  else none

/-- The variable of a group key gets the value of its expression, unless it has it already. -/
def extendKey (p : Algebra) (k : GroupKey) : Algebra :=
  match k.value with
  | .var _ => p
  | e => .extend p k.name e

/-- The pattern with its groups. -/
def grouped (p : Algebra) : Option (List GroupKey) → Algebra
  | some ks => .group (ks.foldl extendKey p) (ks.map GroupKey.name)
  | none => p

/-- The pattern under its conditions, all of which must hold. -/
def filtered (p : Algebra) : List Expr → Algebra
  | [] => p
  | e :: es => .filter (es.foldl (fun a b =>
      .compound ("(" ++ a.text ++ " && " ++ b.text ++ ")") (a.varNames ++ b.varNames)) e) p

/-- Adds the computed columns to a pattern.  With groups, a column may only use what the
groups have; a computed column may not hide a variable. -/
def withColumns (isGrouped : Bool) (visible : List String) (p : Algebra) :
    List Column → Option Algebra
  | [] => some p
  | .var v :: cs =>
    if isGrouped && !visible.contains v then none else withColumns isGrouped visible p cs
  | .computed e v :: cs =>
    if visible.contains v || (isGrouped && !e.varNames.all visible.contains) then none
    else withColumns isGrouped visible (.extend p v e) cs

/-- The variables in scope, each once, in ascending order. -/
def sortedScope (p : Algebra) : List String :=
  (p.inScope.foldl appendNew []).mergeSort (· ≤ ·)

/-- The pattern with its columns, and their names. -/
def selected? (s : Selection) (p : Algebra) : Option (Algebra × List String) :=
  let isGrouped := s.effectiveGroups.isSome
  match s.columns with
  | none => if isGrouped then none else some (p, sortedScope p)
  | some cs =>
    if (cs.map Column.name).Nodup then
      (withColumns isGrouped p.inScope p cs).map (·, cs.map Column.name)
    else none

/-- The pattern with its order keys. -/
def ordered (p : Algebra) : Option (List (Direction × Expr)) → Algebra
  | some ks => .orderBy p ks
  | none => p

/-- The pattern with its repetitions. -/
def repeated (p : Algebra) : Repetition → Algebra
  | .kept => p
  | .distinct => .distinct p
  | .reduced => .reduced p

/-- The part of the solutions that is wanted. -/
def sliced (p : Algebra) : Option (Nat × Option Nat) → Algebra
  | some (start, length) => .slice p start length
  | none => p

/-- The algebra of a selection. -/
def algebra? (s : Selection) : Option Algebra := do
  let p := filtered (grouped s.body s.effectiveGroups) s.having
  let p := match s.values with
    | some rows => p.beside rows
    | none => p
  let (p, names) ← s.selected? p
  return sliced (repeated (.project (ordered p s.order) names) s.repetition) s.slice

end Selection

end SparqlCompose.Sparql
