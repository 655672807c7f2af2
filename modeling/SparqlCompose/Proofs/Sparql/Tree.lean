import Mathlib
import SparqlCompose.Proofs.Mention
import SparqlCompose.Sparql.Algebra

/-!
# The text of a query by names

The text of a query does not show the places of its variables, only their names.  The *tree* of a
query is its clauses with variables by name (`Query.tree`).  A variable that has a value is written
as the value, but what is abbreviated depends on the variable: the text is a function of the names
of the result columns, the tree, the order keys by name, and the values by name
(`Query.text_eq_ok`).  Queries that agree on these have the same text.
-/

namespace SparqlCompose

open Sparql

/-- A clause with its variables by name. -/
inductive NamedClause where
  | triple (t : TriplePattern)
  | block (endpoint : String) (clauses : List NamedClause)

namespace Query

/-- A slot with its variable by name. -/
def node (q : Query) : Term → Node
  | .var id => .var (q.nameAt id)
  | .resource r => .resource r
  | .literal l => .literal l

/-- A pattern with its variables by name. -/
def triple (q : Query) (p : Pattern) : TriplePattern :=
  ⟨q.node p.subject, q.node p.predicate, q.node p.object⟩

mutual

/-- A clause with its variables by name. -/
def named (q : Query) : Clause → NamedClause
  | .pattern p => .triple (q.triple p)
  | .service e cs _ => .block e (namedAll q cs)

/-- Clauses with their variables by name. -/
def namedAll (q : Query) : List Clause → List NamedClause
  | [] => []
  | c :: cs => named q c :: namedAll q cs

end

/-- The patterns and blocks of a query, in order, with variables by name. -/
def tree (q : Query) : List NamedClause := q.namedAll q.clauses

/-- The order keys with their variables by name. -/
def namedOrder (q : Query) : List (Direction × String) :=
  q.order.map fun k => (k.direction, q.nameAt k.variableId)

end Query

/-! ### Values in place -/

namespace Sparql

/-- The slot of a constant. -/
def Node.ofConstant : Constant → Node
  | .resource r => .resource r
  | .literal l => .literal l

/-- The slot with the value of its variable in place, if that has one. -/
def Node.settled (σ : String → Option Constant) : Node → Node
  | .var name => (σ name).elim (.var name) .ofConstant
  | n => n

/-- The pattern with the values of its variables in place. -/
def TriplePattern.settled (σ : String → Option Constant) (p : TriplePattern) : TriplePattern :=
  ⟨p.subject.settled σ, p.predicate.settled σ, p.object.settled σ⟩

/-- A constant is settled. -/
@[simp]
theorem Node.settled_ofConstant (σ : String → Option Constant) (c : Constant) :
    (ofConstant c).settled σ = .ofConstant c := by cases c <;> rfl

/-- Without values every slot is as it was. -/
@[simp]
theorem Node.settled_none (n : Node) : n.settled (fun _ => none) = n := by cases n <;> rfl

/-- Without values a pattern is settled. -/
@[simp]
theorem TriplePattern.settled_none (p : TriplePattern) : p.settled (fun _ => none) = p := by
  simp [settled]

/-- A variable that is left has no value. -/
theorem Node.of_settled_eq_var {σ : String → Option Constant} {n : Node} {name : String}
    (h : n.settled σ = .var name) : n = .var name ∧ σ name = none := by
  cases n with
  | resource r => cases h
  | literal l => cases h
  | var other =>
      cases hvalue : σ other with
      | some c =>
          rw [settled, hvalue] at h
          cases c <;> cases h
      | none =>
          rw [settled, hvalue] at h
          obtain rfl := Node.var.inj h
          exact ⟨rfl, hvalue⟩

/-- A slot in which the values are in place has no variable that has a value. -/
theorem Node.settled_settled {σ τ : String → Option Constant}
    (h : ∀ name c, τ name = some c → σ name = some c) (n : Node) :
    (n.settled σ).settled τ = n.settled σ := by
  cases n with
  | resource r => rfl
  | literal l => rfl
  | var name =>
      cases hvalue : σ name with
      | some c =>
          have hplace : (Node.var name).settled σ = .ofConstant c := by simp [settled, hvalue]
          rw [hplace, settled_ofConstant]
      | none =>
          have hnone : τ name = none := by
            by_contra hsome
            obtain ⟨c, hc⟩ := Option.ne_none_iff_exists'.mp hsome
            rw [h name c hc] at hvalue
            cases hvalue
          simp [settled, hvalue, hnone]

end Sparql

namespace NamedClause

mutual

/-- The clause with the values of its variables in place. -/
def settled (σ : String → Option Constant) : NamedClause → NamedClause
  | .triple p => .triple (p.settled σ)
  | .block e cs => .block e (settledAll σ cs)

/-- The clauses with the values of their variables in place. -/
def settledAll (σ : String → Option Constant) : List NamedClause → List NamedClause
  | [] => []
  | c :: cs => settled σ c :: settledAll σ cs

end

mutual

/-- So is a clause. -/
@[simp]
theorem settled_none (c : NamedClause) : c.settled (fun _ => none) = c := by
  cases c with
  | triple p => rw [settled, TriplePattern.settled_none]
  | block e cs => rw [settled, settledAll_none cs]

/-- So are clauses. -/
@[simp]
theorem settledAll_none (cs : List NamedClause) : settledAll (fun _ => none) cs = cs := by
  cases cs with
  | nil => rfl
  | cons c cs => rw [settledAll, settled_none c, settledAll_none cs]

end

end NamedClause

/-! ### Text by names -/

namespace Sparql

/-- A slot in query text. -/
def Node.chars (t : PrefixTable) : Node → List Char
  | .var name => '?' :: name.toList
  | .resource r => (r.render t).toList
  | .literal l => (l.render t).toList

/-- A predicate in query text.  The word for class membership stands for its IRI, but not for a
variable that has the IRI as its value. -/
def Node.verbChars (t : PrefixTable) (σ : String → Option Constant) (n : Node) : List Char :=
  if n = .iri Vocabulary.rdfType then ['a'] else (n.settled σ).chars t

/-- The IRIs that a slot writes. -/
def Node.iris : Node → List String
  | .var _ => []
  | .resource r => Query.constantIris (.resource r)
  | .literal l => Query.literalIris l

/-- The IRIs that a pattern writes. -/
def TriplePattern.iris (σ : String → Option Constant) (p : TriplePattern) : List String :=
  (p.subject.settled σ).iris ++
    (if p.predicate = .iri Vocabulary.rdfType then [] else (p.predicate.settled σ).iris) ++
    (p.object.settled σ).iris

/-- The space before a statement. -/
def indentChars (depth : Nat) : List Char := List.replicate (2 * depth) ' '

/-- What ends the statement of the pattern written last. -/
def stopChars (previous : Option TriplePattern) : List Char :=
  if previous.isSome then " .\n".toList else []

namespace TriplePattern

/-- A pattern in full. -/
def chars (t : PrefixTable) (σ : String → Option Constant) (p : TriplePattern) : List Char :=
  (p.subject.settled σ).chars t ++
    ' ' :: (p.predicate.verbChars t σ ++ ' ' :: (p.object.settled σ).chars t)

/-- A pattern after the pattern before it. -/
def charsAfter (t : PrefixTable) (σ : String → Option Constant) (depth : Nat)
    (previous : Option TriplePattern) (p : TriplePattern) : List Char :=
  match previous with
  | none => indentChars depth ++ p.chars t σ
  | some prev =>
    if prev.subject = p.subject then
      if prev.predicate = p.predicate then ", ".toList ++ (p.object.settled σ).chars t
      else
        " ;\n".toList ++ indentChars (depth + 1) ++
          (p.predicate.verbChars t σ ++ ' ' :: (p.object.settled σ).chars t)
    else " .\n".toList ++ indentChars depth ++ p.chars t σ

end TriplePattern

end Sparql

namespace NamedClause

/-- The pattern that an abbreviation after a clause may refer to. -/
def last : NamedClause → Option TriplePattern
  | .triple t => some t
  | .block _ _ => none

mutual

/-- A clause after the pattern before it. -/
def chars (t : PrefixTable) (σ : String → Option Constant) (depth : Nat)
    (previous : Option TriplePattern) : NamedClause → List Char
  | .triple p => p.charsAfter t σ depth previous
  | .block e cs =>
    stopChars previous ++ indentChars depth ++ "SERVICE <".toList ++ e.toList ++
      "> \x7b\n".toList ++ charsAll t σ (depth + 1) none cs ++ indentChars depth ++
      "\x7d\n".toList

/-- Clauses after the pattern before them. -/
def charsAll (t : PrefixTable) (σ : String → Option Constant) (depth : Nat)
    (previous : Option TriplePattern) : List NamedClause → List Char
  | [] => stopChars previous
  | c :: cs => chars t σ depth previous c ++ charsAll t σ depth c.last cs

end

mutual

/-- The patterns of a clause, in order. -/
def triples : NamedClause → List TriplePattern
  | .triple t => [t]
  | .block _ cs => triplesAll cs

/-- The patterns of clauses, in order. -/
def triplesAll : List NamedClause → List TriplePattern
  | [] => []
  | c :: cs => triples c ++ triplesAll cs

end

/-- The patterns of clauses after clauses follow one another. -/
theorem triplesAll_append (cs ds : List NamedClause) :
    triplesAll (cs ++ ds) = triplesAll cs ++ triplesAll ds := by
  induction cs with
  | nil => rfl
  | cons c cs ih => rw [List.cons_append, triplesAll, ih, triplesAll, List.append_assoc]

/-- Patterns are the patterns of their clauses. -/
theorem triplesAll_triple (ps : List TriplePattern) : triplesAll (ps.map .triple) = ps := by
  induction ps with
  | nil => rfl
  | cons p ps ih =>
      rw [List.map_cons, triplesAll, ih, triples]
      rfl

mutual

/-- The patterns of a settled clause are its patterns, settled. -/
theorem triples_settled (σ : String → Option Constant) (c : NamedClause) :
    (c.settled σ).triples = c.triples.map (TriplePattern.settled σ) := by
  cases c with
  | triple p => rw [settled, triples, triples, List.map_singleton]
  | block e cs => rw [settled, triples, triples, triplesAll_settledAll σ cs]

/-- The patterns of clauses have the values in place that the clauses have in place. -/
theorem triplesAll_settledAll (σ : String → Option Constant) (cs : List NamedClause) :
    triplesAll (settledAll σ cs) = (triplesAll cs).map (TriplePattern.settled σ) := by
  cases cs with
  | nil => rw [settledAll, triplesAll, List.map_nil]
  | cons c cs =>
      rw [settledAll, triplesAll, triplesAll, List.map_append, triples_settled σ c,
        triplesAll_settledAll σ cs]

end

end NamedClause

namespace Query

/-- The parts of a query that its text shows. -/
structure Outline where
  columns : List String
  tree : List NamedClause
  order : List (Direction × String)

/-- The outline with the values of variables in place in its clauses. -/
def Outline.settled (σ : String → Option Constant) (o : Outline) : Outline :=
  { o with tree := NamedClause.settledAll σ o.tree }

/-- Without values an outline is settled. -/
@[simp]
theorem Outline.settled_none (o : Outline) : o.settled (fun _ => none) = o := by
  rw [settled, NamedClause.settledAll_none]

/-- A query with its variables by name. -/
def outline (q : Query) : Outline where
  columns := q.projections.map q.nameAt
  tree := q.tree
  order := q.namedOrder

/-- Words with a space between them. -/
def spacedChars (words : List (List Char)) : List Char := [' '].intercalate words

/-- A result column: the value of its variable under the name of the variable, if it has one. -/
def columnChars (t : PrefixTable) (σ : String → Option Constant) (name : String) : List Char :=
  match σ name with
  | some c => '(' :: ((Node.ofConstant c).chars t ++ " AS ?".toList ++ name.toList ++ [')'])
  | none => '?' :: name.toList

/-- An order key. -/
def keyChars (t : PrefixTable) (σ : String → Option Constant) (k : Direction × String) :
    List Char :=
  k.1.word.toList ++ '(' :: (((Node.var k.2).settled σ).chars t ++ [')'])

namespace Outline

/-- The IRIs that the text writes. -/
def iris (o : Outline) (σ : String → Option Constant) : List String :=
  (NamedClause.triplesAll o.tree).flatMap (TriplePattern.iris σ) ++
    o.columns.flatMap (fun name => ((Node.var name).settled σ).iris) ++
    o.order.flatMap fun k => ((Node.var k.2).settled σ).iris

/-- The prefixes that the text uses. -/
def prefixes (o : Outline) (t : PrefixTable) (σ : String → Option Constant) :
    List (String × String) :=
  usedPrefixes t (o.iris σ)

/-- The line of the order keys, if there are any. -/
def orderChars (o : Outline) (t : PrefixTable) (σ : String → Option Constant) : List Char :=
  if o.order.isEmpty then []
  else "ORDER BY ".toList ++ spacedChars (o.order.map (keyChars t σ)) ++ ['\n']

/-- The text of a query with at least one result column, in which the variables have the given
values. -/
def chars (o : Outline) (t : PrefixTable) (σ : String → Option Constant) (slice : Slice) :
    List Char :=
  ((o.prefixes t σ).flatMap fun e => (prefixLine e).toList) ++ "SELECT ".toList ++
    spacedChars (o.columns.map (columnChars t σ)) ++ "\nWHERE \x7b\n".toList ++
    NamedClause.charsAll t σ 1 none o.tree ++ "\x7d\n".toList ++ o.orderChars t σ ++
    (sliceLine "OFFSET" slice.offset).toList ++ (sliceLine "LIMIT" slice.limit).toList

end Outline

end Query

/-! ### The text of a query is its text by names -/

namespace Query

variable {q : Query} {t : PrefixTable}

/-- Slots that differ still differ when their variables are named. -/
theorem node_inj {x y : Term} (hx : q.Has x) (hy : q.Has y) : q.node x = q.node y ↔ x = y := by
  refine ⟨?_, fun h => by rw [h]⟩
  intro h
  cases x with
  | var i =>
      cases y with
      | var j =>
          simp only [node, Node.var.injEq] at h
          rw [nameAt_inj (hx i rfl) (hy j rfl) h]
      | resource r => cases h
      | literal l => cases h
  | resource r => cases y <;> simp_all [node]
  | literal l => cases y <;> simp_all [node]

/-- A slot is named as class membership only if it is that. -/
theorem node_eq_rdfType {x : Term} :
    q.node x = .iri Vocabulary.rdfType ↔ x = .resource (.iri Vocabulary.rdfType) := by
  cases x <;> simp [node, Node.iri]

/-- A variable as a slot with its value in place. -/
theorem settled_var (h : q.WellFormed) {id : VarId} {v : Variable} (hv : q.table.at? id = some v) :
    (Node.var (q.nameAt id)).settled q.view.value = v.bound.elim (.var v.name) .ofConstant := by
  have hid : id < q.table.size := OrderedMap.lt_size_of_at? hv
  have hbound : q.boundAt id = v.bound := by rw [boundAt, hv, Option.bind_some]
  rw [Node.settled, value_nameAt hid, hbound, h.nameAt_eq hv]

/-- A constant is written as in a slot. -/
theorem chars_ofConstant (c : Constant) : (Node.ofConstant c).chars t = (c.render t).toList := by
  cases c <;> rfl

/-- A variable in a pattern is written as its name or its value. -/
theorem toList_inline (t : PrefixTable) (v : Variable) :
    (v.inline t).toList = (v.bound.elim (.var v.name) .ofConstant : Node).chars t := by
  have hmark : "?".toList = ['?'] := by decide
  rw [Variable.inline]
  cases v.bound with
  | none => simp [Variable.token, Node.chars, hmark]
  | some c => exact (chars_ofConstant c).symm

/-- A slot is written by name, with the value of its variable. -/
theorem termText_eq (h : q.WellFormed) {x : Term} (hx : q.Has x) :
    ∃ text, q.termText t x = .ok text ∧
      text.toList = ((q.node x).settled q.view.value).chars t := by
  cases x with
  | var id =>
      obtain ⟨v, hv⟩ := OrderedMap.exists_at? (hx id rfl)
      refine ⟨v.inline t, ?_, ?_⟩
      · rw [termText, var_eq_ok.mpr hv]
        rfl
      · rw [node, settled_var h hv, toList_inline]
  | resource r => exact ⟨_, rfl, rfl⟩
  | literal l => exact ⟨_, rfl, rfl⟩

/-- So is a predicate. -/
theorem predicateText_eq (h : q.WellFormed) {x : Term} (hx : q.Has x) :
    ∃ text, q.predicateText t x = .ok text ∧
      text.toList = (q.node x).verbChars t q.view.value := by
  unfold predicateText Node.verbChars
  by_cases htype : x = .resource (.iri Vocabulary.rdfType)
  · rw [if_pos htype, if_pos (node_eq_rdfType.mpr htype)]
    exact ⟨"a", rfl, by decide⟩
  · rw [if_neg htype, if_neg fun habsurd => htype (node_eq_rdfType.mp habsurd)]
    exact termText_eq h hx

/-- The space before a statement, character by character. -/
theorem toList_indent (depth : Nat) : (indent depth).toList = indentChars depth := by
  simp [indent, indentChars]

/-- What ends a statement depends on whether there is one. -/
theorem toList_stop (previous : Option Pattern) :
    (stop previous).toList = stopChars (previous.map q.triple) := by
  cases previous <;> simp [stop, stopChars]

/-- A pattern is written by name, after the one before it. -/
theorem patternText_eq (h : q.WellFormed) {depth : Nat} {previous : Option Pattern} {p : Pattern}
    (hp : p ∈ q.patterns) (hprevious : ∀ prev ∈ previous, prev ∈ q.patterns) :
    ∃ text, q.patternText t depth previous p = .ok text ∧
      text.toList = (q.triple p).charsAfter t q.view.value depth (previous.map q.triple) := by
  obtain ⟨hs, hm, ho⟩ := h.holds hp
  obtain ⟨s, hsText, hsChars⟩ := termText_eq (t := t) h hs
  obtain ⟨m, hmText, hmChars⟩ := predicateText_eq (t := t) h hm
  obtain ⟨o, hoText, hoChars⟩ := termText_eq (t := t) h ho
  have hspace : " ".toList = [' '] := by decide
  unfold patternText TriplePattern.charsAfter
  simp only [hsText, hmText, hoText, Outcome.ok_bind]
  cases previous with
  | none =>
      refine ⟨_, rfl, ?_⟩
      simp [stop, toList_indent, hsChars, hmChars, hoChars, hspace, TriplePattern.chars, triple]
  | some prev =>
      obtain ⟨hs', hm', -⟩ := h.holds (hprevious prev rfl)
      have hsubject : (q.triple prev).subject = (q.triple p).subject ↔
          prev.subject = p.subject := node_inj hs' hs
      have hpredicate : (q.triple prev).predicate = (q.triple p).predicate ↔
          prev.predicate = p.predicate := node_inj hm' hm
      simp only [Option.map_some, hsubject, hpredicate]
      by_cases hsame : prev.subject = p.subject
      · rw [if_pos hsame, if_pos hsame]
        by_cases hverb : prev.predicate = p.predicate
        · rw [if_pos hverb, if_pos hverb]
          exact ⟨_, rfl, by simp [hoChars, triple]⟩
        · rw [if_neg hverb, if_neg hverb]
          refine ⟨_, rfl, ?_⟩
          simp [toList_indent, hmChars, hoChars, hspace, triple]
      · rw [if_neg hsame, if_neg hsame]
        refine ⟨_, rfl, ?_⟩
        simp [stop, toList_indent, hsChars, hmChars, hoChars, hspace, TriplePattern.chars, triple]

/-- The last pattern of a clause by name is its last pattern, by name. -/
theorem last_named (c : Clause) : (q.named c).last = (lastPattern c).map q.triple := by
  cases c <;> simp [named, NamedClause.last, lastPattern]

mutual

/-- A clause is written by name, after the pattern before it. -/
theorem clauseText_eq (h : q.WellFormed) {depth : Nat} (previous : Option Pattern)
    (hprevious : ∀ prev ∈ previous, prev ∈ q.patterns) (c : Clause)
    (hc : ∀ p ∈ c.patterns, p ∈ q.patterns) :
    ∃ text, q.clauseText t depth previous c = .ok text ∧
      text.toList = (q.named c).chars t q.view.value depth (previous.map q.triple) := by
  cases c with
  | pattern p =>
      rw [clauseText, named, NamedClause.chars]
      exact patternText_eq h (hc p (by simp [Clause.patterns])) hprevious
  | service e cs vs =>
      obtain ⟨inner, hinner, hchars⟩ := clausesText_eq h none (by simp) cs
        (by simpa [Clause.patterns] using hc)
      rw [clauseText, named, NamedClause.chars, hinner]
      refine ⟨_, rfl, ?_⟩
      simp [toList_stop (q := q) previous, toList_indent, hchars]

/-- So are clauses. -/
theorem clausesText_eq (h : q.WellFormed) {depth : Nat} (previous : Option Pattern)
    (hprevious : ∀ prev ∈ previous, prev ∈ q.patterns) (cs : List Clause)
    (hcs : ∀ p ∈ Clause.patternsAll cs, p ∈ q.patterns) :
    ∃ text, q.clausesText t depth previous cs = .ok text ∧ text.toList =
      NamedClause.charsAll t q.view.value depth (previous.map q.triple) (q.namedAll cs) := by
  cases cs with
  | nil =>
      rw [clausesText, namedAll, NamedClause.charsAll]
      exact ⟨_, rfl, toList_stop previous⟩
  | cons c cs =>
      rw [Clause.patternsAll, List.forall_mem_append] at hcs
      have hlast : ∀ prev ∈ lastPattern c, prev ∈ q.patterns := by
        intro prev hprev
        cases c with
        | pattern p =>
            obtain rfl := Option.some.inj hprev
            exact hcs.1 p (by simp [Clause.patterns])
        | service e ds vs => cases hprev
      obtain ⟨first, hfirst, hfirstChars⟩ := clauseText_eq h previous hprevious c hcs.1
      obtain ⟨more, hmore, hmoreChars⟩ := clausesText_eq h (lastPattern c) hlast cs hcs.2
      rw [clausesText, hfirst, Outcome.ok_bind, hmore, namedAll, NamedClause.charsAll, last_named]
      refine ⟨_, rfl, ?_⟩
      rw [String.toList_append, hfirstChars, hmoreChars]

end

/-- The body is the tree, as it is written. -/
theorem bodyText_eq (h : q.WellFormed) :
    ∃ text, q.bodyText t = .ok text ∧
      text.toList = NamedClause.charsAll t q.view.value 1 none q.tree :=
  clausesText_eq h none (by simp) q.clauses fun _ hp => hp

/-! ### The IRIs of a query -/

/-- The IRIs that are found for a slot are those that its name or its value writes. -/
theorem slotIris_eq (h : q.WellFormed) {x : Term} (hx : q.Has x) :
    q.slotIris x = ((q.node x).settled q.view.value).iris := by
  cases x with
  | resource r => rfl
  | literal l => rfl
  | var id =>
      obtain ⟨v, hv⟩ := OrderedMap.exists_at? (hx id rfl)
      rw [node, settled_var h hv, slotIris, boundAt, hv, Option.bind_some]
      cases v.bound with
      | none => rfl
      | some c => cases c <;> rfl

/-- The IRIs that are found for a pattern are those that it writes by name. -/
theorem tripleIris_eq (h : q.WellFormed) {p : Pattern} (hp : p ∈ q.patterns) :
    q.tripleIris p = (q.triple p).iris q.view.value := by
  obtain ⟨hs, hm, ho⟩ := h.holds hp
  unfold tripleIris verbIris TriplePattern.iris
  simp only [slotIris_eq h hs, slotIris_eq h hm, slotIris_eq h ho, triple, node_eq_rdfType]

mutual

/-- The patterns of a clause by name are its patterns, by name. -/
theorem triples_named (c : Clause) : (q.named c).triples = c.patterns.map q.triple := by
  cases c with
  | pattern p => rw [named, NamedClause.triples, Clause.patterns, List.map_singleton]
  | service e cs vs => rw [named, NamedClause.triples, Clause.patterns, triplesAll_namedAll cs]

/-- The patterns of clauses by name are theirs, by name. -/
theorem triplesAll_namedAll (cs : List Clause) :
    NamedClause.triplesAll (q.namedAll cs) = (Clause.patternsAll cs).map q.triple := by
  cases cs with
  | nil => rw [namedAll, NamedClause.triplesAll, Clause.patternsAll, List.map_nil]
  | cons c cs =>
      rw [namedAll, NamedClause.triplesAll, Clause.patternsAll, List.map_append, triples_named c,
        triplesAll_namedAll cs]

end

/-- The patterns of the tree are those of the query, by name. -/
theorem triplesAll_tree (q : Query) :
    NamedClause.triplesAll q.tree = q.patterns.map q.triple := triplesAll_namedAll q.clauses

/-- The table has the variable at a place of it. -/
theorem has_var {id : VarId} (hid : id < q.table.size) : q.Has (.var id) := by
  rintro i ⟨⟩
  exact hid

/-- The search finds the IRIs that the text by names writes. -/
theorem iris_eq (h : q.WellFormed) : q.iris = .ok (q.outline.iris q.view.value) := by
  have hbody : q.patterns.flatMap q.tripleIris =
      (NamedClause.triplesAll q.tree).flatMap (TriplePattern.iris q.view.value) := by
    rw [triplesAll_tree, List.flatMap_map]
    exact List.flatMap_congr fun p hp => tripleIris_eq h hp
  have hcolumns : q.projections.flatMap (fun id => q.slotIris (.var id)) =
      q.outline.columns.flatMap fun name => ((Node.var name).settled q.view.value).iris := by
    rw [outline, List.flatMap_map]
    exact List.flatMap_congr fun id hid => slotIris_eq h (has_var (h.projections_lt id hid))
  have horder : q.order.flatMap (fun k => q.slotIris (.var k.variableId)) =
      q.outline.order.flatMap fun k => ((Node.var k.2).settled q.view.value).iris := by
    rw [outline, namedOrder, List.flatMap_map]
    exact List.flatMap_congr fun k hk => slotIris_eq h (has_var (h.order_lt k hk))
  rw [iris_eq_ok h.validate, textIris, hbody, hcolumns, horder]
  rfl

/-! ### The whole text -/

/-- Words are joined with a space between them. -/
theorem toList_spaced (words : List String) :
    (" ".intercalate words).toList = spacedChars (words.map String.toList) := by
  have hspace : " ".toList = [' '] := by decide
  rw [String.toList_intercalate, hspace, spacedChars]

/-- A result column is written by name, with its value if it has one. -/
theorem toList_projected (h : q.WellFormed) {id : VarId} {v : Variable}
    (hv : q.table.at? id = some v) :
    (v.projected t).toList = columnChars t q.view.value (q.nameAt id) := by
  have hbound : q.view.value (q.nameAt id) = v.bound := by
    rw [value_nameAt (OrderedMap.lt_size_of_at? hv), boundAt, hv, Option.bind_some]
  have hparts : "?".toList = ['?'] ∧ "(".toList = ['('] ∧ ")".toList = [')'] ∧
      " AS ".toList = [' ', 'A', 'S', ' '] ∧ " AS ?".toList = [' ', 'A', 'S', ' ', '?'] := by
    decide
  rw [columnChars, hbound, h.nameAt_eq hv, Variable.projected]
  cases v.bound with
  | none => simp [Variable.token, hparts]
  | some c => simp [Variable.token, hparts, chars_ofConstant]

/-- The list of results is the columns of the outline, as they are written. -/
theorem columnsText_eq (h : q.WellFormed) (hcolumns : q.projections ≠ []) :
    ∃ text, q.columnsText t = .ok text ∧
      text.toList = spacedChars (q.outline.columns.map (columnChars t q.view.value)) := by
  have hvars : ∀ ids : List VarId, (∀ id ∈ ids, id < q.table.size) →
      ∃ vs, ids.mapM q.var = .ok vs ∧
        vs.map (fun v => (v.projected t).toList) =
          ids.map fun id => columnChars t q.view.value (q.nameAt id) := by
    intro ids
    induction ids with
    | nil => exact fun _ => ⟨[], rfl, rfl⟩
    | cons id ids ih =>
        intro hlt
        rw [List.forall_mem_cons] at hlt
        obtain ⟨v, hv⟩ := OrderedMap.exists_at? hlt.1
        obtain ⟨vs, hvs, hchars⟩ := ih hlt.2
        refine ⟨v :: vs, ?_, ?_⟩
        · exact Outcome.mapM_eq_ok.mpr (.cons (var_eq_ok.mpr hv) (Outcome.mapM_eq_ok.mp hvs))
        · rw [List.map_cons, List.map_cons, toList_projected h hv, hchars]
  obtain ⟨vs, hvs, hchars⟩ := hvars q.projections h.projections_lt
  refine ⟨" ".intercalate (vs.map (·.projected t)), ?_, ?_⟩
  · unfold columnsText
    rw [if_neg (by simpa using hcolumns), projectedVariables, hvs]
    rfl
  · rw [toList_spaced, List.map_map, outline, List.map_map]
    exact congrArg spacedChars hchars

/-- An order key is written by name. -/
theorem orderKeyText_eq (h : q.WellFormed) {k : OrderKey} (hk : k.variableId < q.table.size) :
    q.orderKeyText t k =
      .ok (String.ofList (keyChars t q.view.value (k.direction, q.nameAt k.variableId))) := by
  obtain ⟨v, hv⟩ := OrderedMap.exists_at? hk
  have hparts : "(".toList = ['('] ∧ ")".toList = [')'] := by decide
  rw [orderKeyText, var_eq_ok.mpr hv, Outcome.ok_bind]
  refine congrArg Except.ok (String.toList_inj.mp ?_)
  simp [keyChars, settled_var h hv, toList_inline, hparts]

/-- The line of the order keys is that of the outline. -/
theorem orderText_eq (h : q.WellFormed) :
    ∃ text, q.orderText t = .ok text ∧ text.toList = q.outline.orderChars t q.view.value := by
  have hkeys := Outcome.mapM_map (l := q.order) fun k hk =>
    orderKeyText_eq (t := t) h (h.order_lt k hk)
  unfold orderText Outline.orderChars
  rw [hkeys]
  cases horder : q.order with
  | nil => exact ⟨"", rfl, by simp [outline, namedOrder, horder]⟩
  | cons k ks =>
      refine ⟨_, rfl, ?_⟩
      have hline : "\n".toList = ['\n'] := by decide
      have hspace : " ".toList = [' '] := by decide
      simp [outline, namedOrder, horder, spacedChars, hline, hspace, Function.comp_def]

/-- **The text of a query is its text by names**, with its values by name. -/
theorem text_eq_ok (h : q.WellFormed) (hcolumns : q.projections ≠ []) (slice : Slice) :
    q.text t slice = .ok (String.ofList (q.outline.chars t q.view.value slice)) := by
  obtain ⟨columns, hcolumnsText, hcolumnsChars⟩ := columnsText_eq (t := t) h hcolumns
  obtain ⟨body, hbodyText, hbodyChars⟩ := bodyText_eq (t := t) h
  obtain ⟨order, horderText, horderChars⟩ := orderText_eq (t := t) h
  have hlines : q.prefixText t [] =
      .ok (String.join ((q.outline.prefixes t q.view.value).map prefixLine)) := by
    rw [prefixText, iris_eq h, Outcome.ok_bind, List.flatMap_nil, List.append_nil]
    rfl
  unfold text
  rw [hlines, Outcome.ok_bind, hcolumnsText, Outcome.ok_bind, hbodyText, Outcome.ok_bind,
    horderText, Outcome.ok_bind]
  refine congrArg Except.ok (String.toList_inj.mp ?_)
  simp only [String.toList_append, String.toList_join, String.toList_ofList, hcolumnsChars,
    hbodyChars, horderChars, Outline.chars, List.flatMap_map]
  rfl

end Query

end SparqlCompose
