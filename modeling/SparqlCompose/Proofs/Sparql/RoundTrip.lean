import SparqlCompose.Proofs.Built
import SparqlCompose.Proofs.Sparql.Printable

/-!
# A query comes back from its text

The text of a query is the text of its outline (`Query.text_eq_ok`), the reader takes that text for
a selection with the clauses of the outline (`Sparql.ofText?_chars`), and from the algebra of the
selection it regains a query with the outline (`Sparql.exists_readAlgebra`).  So a query without
values comes back from its text with its columns, clauses and order keys (`Query.ofText_text`),
unless the reader takes a part of the text for something else.  There is one such part: a number
that is written bare with a plus sign right after an IRI (`NamedClause.MisreadsAll`), which is read
as the path of one step or more.
-/

namespace SparqlCompose

open Sparql

/-! ### Clauses that are misread -/

namespace NamedClause

mutual

/-- Some pattern of a clause after a pattern is misread. -/
def Misreads (previous : Option TriplePattern) : NamedClause → Prop
  | .triple p => p.Misread previous
  | .block _ cs => MisreadsAll none cs

/-- Some pattern of the clauses after a pattern is misread. -/
def MisreadsAll (previous : Option TriplePattern) : List NamedClause → Prop
  | [] => False
  | c :: cs => Misreads previous c ∨ MisreadsAll c.last cs

end

mutual

/-- If no pattern of a clause is misread, none is misread after the one before it. -/
theorem each_of_not_misreads (previous : Option TriplePattern) (c : NamedClause)
    (h : ¬ c.Misreads previous) :
    c.Each (fun previous p => ¬ p.MisreadWith (fun _ => none) previous) previous := by
  cases c with
  | triple p => exact fun hmisread => h (TriplePattern.misreadWith_none.mp hmisread)
  | block e cs => exact eachAll_of_not_misreads none cs h

/-- Without values no pattern is misread unless one is misread as it stands. -/
theorem eachAll_of_not_misreads (previous : Option TriplePattern) (cs : List NamedClause)
    (h : ¬ MisreadsAll previous cs) :
    EachAll (fun previous p => ¬ p.MisreadWith (fun _ => none) previous) previous cs := by
  cases cs with
  | nil => trivial
  | cons c cs =>
      rw [MisreadsAll, not_or] at h
      exact ⟨each_of_not_misreads previous c h.1, eachAll_of_not_misreads c.last cs h.2⟩

end

end NamedClause

namespace Query

/-! ### Queries without values -/

/-- The query shows at least one column and has no values and no blank nodes, its names are in
ASCII, its IRIs are absolute and in ASCII, its language tags are well formed, and it sorts by no
variable that occurs nowhere else. -/
structure Plain (q : Query) : Prop where
  columns : q.projections ≠ []
  unbound : q.Unbound
  names : ∀ name ∈ q.table.keys, IsAscii name
  slots : ∀ p ∈ q.patterns, p.subject.Plain ∧ p.predicate.Plain ∧ p.object.Plain
  /-- So are the endpoints of blocks, at any depth. -/
  endpoints : ∀ e cs vs, (Clause.service e cs vs).Inside q.clauses → IsPlainIri e
  order : ∀ k ∈ q.order, k.variableId ∈ q.used

variable {q : Query}

/-- A query without values shows none. -/
theorem Unbound.value (h : q.Unbound) : q.view.value = fun _ => none := by
  funext name
  rw [view, Option.bind_eq_none_iff]
  exact fun id _ => h.boundAt id

/-- A plain query of which no pattern is misread can be written and read. -/
theorem Plain.readable (h : q.Plain) (hq : q.WellFormed)
    (hread : ¬ NamedClause.MisreadsAll none q.tree) : q.Readable where
  columns := h.columns
  names := h.names
  values := fun v hv c hc => by
    rw [h.unbound v hv] at hc
    cases hc
  slots := h.slots
  endpoints := h.endpoints
  order := h.order
  wellFormed := hq
  proper := h.unbound.proper hq
  unsigned := fun id _ c hc => by
    rw [h.unbound.boundAt id] at hc
    cases hc
  notMisread := by
    rw [h.unbound.value]
    exact NamedClause.eachAll_of_not_misreads none q.tree hread

/-- **A query comes back from its text.**  Take a built query that keeps to plain text, a table of
legal prefixes that are bound to absolute IRIs, and a slice of machine words that does not begin at
an explicit zero.  If no pattern of the query is misread, the query has a text, from which the
reader gets a query with the same result columns, the same patterns and blocks in the same order
and the same order keys, all by name, together with the same slice; and that query has the same
text. -/
theorem ofText_text {q : Query} (hq : q.Built) (hplain : q.Plain)
    (hread : ¬ NamedClause.MisreadsAll none q.tree) (pairs : List (String × String))
    (hpairs : ∀ e ∈ pairs, Declarable e) (slice : Slice) (hstart : slice.offset ≠ some 0)
    (hoffset : ∀ n ∈ slice.offset, n < wordSize) (hlimit : ∀ n ∈ slice.limit, n < wordSize)
    (uri : String) :
    ∃ text r, q.text ((∅ : PrefixTable).bindAll pairs) slice = .ok text ∧
      Query.ofText text uri = .ok (r, slice) ∧ r.outline = q.outline ∧
      r.text ((∅ : PrefixTable).bindAll pairs) slice = .ok text := by
  have hwell := hq.wellFormed
  have hvalue : q.view.value = fun _ => none := hplain.unbound.value
  obtain ⟨text, r, htext, hregained, hr⟩ := (hplain.readable hwell hread).exists_ofText hpairs
    hstart hoffset hlimit (fun k _ => hplain.unbound.boundAt k.variableId) uri
  rw [hvalue, Outline.settled_none, shownValues_none] at hr
  refine ⟨text, r, htext, hregained, hr.outline, ?_⟩
  have hprojections : r.projections ≠ [] := by
    intro hnil
    have hcolumns : r.outline.columns = [] := congrArg (List.map r.nameAt) hnil
    rw [hr.outline] at hcolumns
    exact hplain.columns (List.map_eq_nil_iff.mp hcolumns)
  rw [text_eq_ok hr.wellFormed hprojections, hr.outline, hr.value, ← htext,
    text_eq_ok hwell hplain.columns, hvalue]

end Query

/-- People with their age and, from another endpoint, their names. -/
def friendsQuery : Query :=
  ({ uri := "urn:friends" } : Query).afterAll
    [.addVariable { uri := "urn:friends;var=id", name := "id" },
      .addVariable { uri := "urn:friends;var=name", name := "name" },
      .project 1, .project 0,
      .pushClause (.pattern ⟨.var 0, .resource (.iri Vocabulary.rdfType),
        .resource (.iri "http://xmlns.com/foaf/0.1/Person")⟩),
      .pushClause (.pattern ⟨.var 0, .resource (.iri "urn:age"),
        .literal ⟨"42", .typed (Vocabulary.xsd "integer")⟩⟩),
      .pushClause (.block "urn:names" [
        .pattern ⟨.var 0, .resource (.iri "http://xmlns.com/foaf/0.1/name"), .var 1⟩,
        .pattern ⟨.var 0, .resource (.iri "http://xmlns.com/foaf/0.1/name"),
          .literal ⟨"Ann", .tagged "en"⟩⟩]),
      .pushOrder ⟨.descending, 1⟩]

/-- The first example is made by lawful calls. -/
theorem friendsQuery_built : friendsQuery.Built := by
  have hage : (⟨"42", .typed (Vocabulary.xsd "integer")⟩ : Literal).IsNormal := by
    unfold Literal.IsNormal
    decide +kernel
  have hname : (⟨"Ann", .tagged "en"⟩ : Literal).IsNormal := by
    unfold Literal.IsNormal
    decide +kernel
  refine (Query.Built.new _).afterAll ?_
  simp [Query.Call.Lawful, Clause.made_pattern_iff, Clause.block, Clause.made_service_iff,
    Term.isLiteral, Term.IsNormal, hage, hname]

/-- The clauses of the example. -/
theorem friendsQuery_clauses : friendsQuery.clauses =
    [.pattern ⟨.var 0, .resource (.iri Vocabulary.rdfType),
        .resource (.iri "http://xmlns.com/foaf/0.1/Person")⟩,
      .pattern ⟨.var 0, .resource (.iri "urn:age"),
        .literal ⟨"42", .typed (Vocabulary.xsd "integer")⟩⟩,
      .service "urn:names" [
        .pattern ⟨.var 0, .resource (.iri "http://xmlns.com/foaf/0.1/name"), .var 1⟩,
        .pattern ⟨.var 0, .resource (.iri "http://xmlns.com/foaf/0.1/name"),
          .literal ⟨"Ann", .tagged "en"⟩⟩] [0, 1]] := rfl

/-- It is plain. -/
theorem friendsQuery_plain : friendsQuery.Plain where
  columns := by decide
  unbound := by unfold Query.Unbound; decide +kernel
  names := by decide +kernel
  slots := by decide +kernel
  endpoints := by
    intro e cs vs hinside
    rw [friendsQuery_clauses] at hinside
    obtain ⟨rfl, -⟩ : e = "urn:names" ∧ _ := by simpa using hinside
    decide +kernel
  order := by decide +kernel

/-- The text of the example. -/
def friendsText : String :=
  "PREFIX foaf: <http://xmlns.com/foaf/0.1/>\nSELECT ?name ?id\nWHERE \x7b\n" ++
    "  ?id a foaf:Person ;\n    <urn:age> 42 .\n  SERVICE <urn:names> \x7b\n" ++
    "    ?id foaf:name ?name, \"Ann\"@en .\n  \x7d\n\x7d\nORDER BY DESC(?name)\nOFFSET 3\n"

/-- The example comes back from its text. -/
theorem Query.ofText_text_friends :
    ∃ r, friendsQuery.text .standard ⟨some 3, none⟩ = .ok friendsText ∧
      Query.ofText friendsText "urn:again" = .ok (r, ⟨some 3, none⟩) ∧
      r.outline = friendsQuery.outline ∧ r.text .standard ⟨some 3, none⟩ = .ok friendsText := by
  have hread : ¬ NamedClause.MisreadsAll none friendsQuery.tree := by
    rw [Query.tree, friendsQuery_clauses]
    simp [Query.namedAll, Query.named, NamedClause.MisreadsAll, NamedClause.Misreads,
      TriplePattern.Misread, Query.triple, Query.node, Node.isPlusLed]
  have hpairs : ∀ e ∈ PrefixTable.wellKnown, Declarable e := by
    unfold Declarable
    decide +kernel
  obtain ⟨text, r, htext, hregained, houtline, hagain⟩ :=
    Query.ofText_text friendsQuery_built friendsQuery_plain hread PrefixTable.wellKnown hpairs
      ⟨some 3, none⟩ (by decide) (by simp [wordSize]) (by simp) "urn:again"
  have hsame : friendsQuery.text .standard ⟨some 3, none⟩ = .ok friendsText := by decide +kernel
  obtain rfl := Except.ok.inj (htext.symm.trans hsame)
  exact ⟨r, hsame, hregained, houtline, hagain⟩

/-- People of age five, the number being written with a plus sign. -/
def fiveQuery : Query :=
  ({ uri := "urn:people" } : Query).afterAll
    [.addVariable { uri := "urn:people;var=id", name := "id" }, .project 0,
      .pushClause (.pattern ⟨.var 0, .resource (.iri "urn:age"),
        .literal (.ofType "+5" (Vocabulary.xsd "integer"))⟩)]

/-- So is the second example made by lawful calls. -/
theorem fiveQuery_built : fiveQuery.Built := by
  refine (Query.Built.new _).afterAll ?_
  simp [Query.Call.Lawful, Clause.made_pattern_iff, Term.isLiteral, Term.IsNormal,
    Literal.isNormal_ofType]

/-- It is plain too, though the text of its number is misread. -/
theorem fiveQuery_plain : fiveQuery.Plain where
  columns := by decide
  unbound := by unfold Query.Unbound; decide +kernel
  names := by decide +kernel
  slots := by decide +kernel
  endpoints := by
    intro e cs vs hinside
    have hclauses : fiveQuery.clauses = [.pattern ⟨.var 0, .resource (.iri "urn:age"),
        .literal (.ofType "+5" (Vocabulary.xsd "integer"))⟩] := rfl
    simp [hclauses] at hinside
  order := by decide +kernel

/-- The example is a plain query whose text is refused: the reader takes the plus sign of the number
for an operator of a path. -/
theorem Query.ofText_text_five :
    fiveQuery.Built ∧ fiveQuery.Plain ∧ NamedClause.MisreadsAll none fiveQuery.tree ∧
      fiveQuery.text .standard {} = .ok "SELECT ?id\nWHERE \x7b\n  ?id <urn:age> +5 .\n\x7d\n" ∧
      Query.ofText "SELECT ?id\nWHERE \x7b\n  ?id <urn:age> +5 .\n\x7d\n" "urn:people" =
        .error (.unsupported "property path") := by
  refine ⟨fiveQuery_built, fiveQuery_plain, ?_, by decide +kernel, ?_⟩
  · refine Or.inl ⟨?_, rfl, by simp⟩
    decide +kernel
  · have hrefused : (Query.ofText "SELECT ?id\nWHERE \x7b\n  ?id <urn:age> +5 .\n\x7d\n"
        "urn:people").map (fun _ => ()) = .error (.unsupported "property path") := by
      decide +kernel
    exact Outcome.map_eq_error.mp hrefused

end SparqlCompose
