import Mathlib
import SparqlCompose.Proofs.Built
import SparqlCompose.Proofs.Spin.Lookup

/-!
# A query comes back from its description

The writer describes a query in a list of triples, the reader finds a query in a graph.  The two
meet at `Spin.Source.Depicts`: the graph of a description depicts the query
(`Spin.depicts_description`), and from a graph that depicts a query the reader regains it
(`Spin.Source.Depicts.readQuery_eq_ok`).  What is regained is the query again, up to the places
and the URIs of its variables (`Query.readQuery_describe`).
-/

namespace SparqlCompose

namespace Query

/-- A query says the same as another about notes, result columns, patterns and order keys, and
holds the variables that these use and no others. -/
structure Regains (r q : Query) : Prop where
  label : r.label = q.label
  comment : r.comment = q.comment
  projectedNames : ∃ names, q.projectedNames = .ok names ∧ r.projectedNames = .ok names
  /-- The table lists the variables that are used, in order of first occurrence. -/
  keys : r.table.keys = q.used.map q.nameAt
  /-- Each variable has a new place, and there it is noted as before. -/
  renamed : ∃ place : VarId → VarId,
    (∀ id ∈ q.used, ∃ v w, q.table.at? id = some v ∧ r.table.at? (place id) = some w ∧
      w.name = v.name ∧ w.label = v.label ∧ w.comment = v.comment ∧ w.bound = v.bound) ∧
    r.clauses = q.clauses.map (Clause.mapVar place) ∧
    r.order = q.order.map fun k => ⟨k.direction, place k.variableId⟩

/-- What is read for a query says the same as the query. -/
theorem regained_regains {q : Query} (hq : q.WellFormed) (hflat : q.Flat) (hunbound : q.Unbound)
    {uri : String} (hregained : (q.regained uri).WellFormed) : (q.regained uri).Regains q where
  label := rfl
  comment := rfl
  projectedNames := by
    refine ⟨_, hq.projectedNames_eq, ?_⟩
    rw [hregained.projectedNames_eq]
    refine congrArg Except.ok ?_
    change (q.projections.map q.placeOf).map (q.regained uri).nameAt = _
    rw [List.map_map]
    refine List.map_congr_left ?_
    intro id hid
    exact hq.nameAt_placeOf (mem_used.mpr (Or.inl hid)) rfl
  keys := hq.keys_copies List.prefix_rfl
  renamed := by
    refine ⟨q.placeOf, ?_, ?_, rfl⟩
    · intro id hid
      obtain ⟨v, hv⟩ := OrderedMap.exists_at? (hq.used_lt hid)
      refine ⟨v, q.copyOf uri id, hv, hq.at?_copies List.prefix_rfl hid, ?_, ?_, ?_, ?_⟩
      · exact hq.nameAt_eq hv
      · rw [copyOf, hv]
        rfl
      · rw [copyOf, hv]
        rfl
      · exact (hunbound.of_at? hv).symm
    · rw [hflat.clauses_eq, List.map_map]
      rfl

/-- **A query comes back from its description.**  Take a built query without blocks, values and
blank nodes, whose IRIs, datatypes and language tags a graph may hold, and which sorts by no
variable that occurs nowhere else.  Whatever IRI it is described under, its description succeeds,
and a reader that allows lists as long as those of the query regains the query. -/
theorem readQuery_describe {q : Query} (hq : q.Built) (hflat : q.Flat) (hunbound : q.Unbound)
    (hblank : q.NoBlank) (hwritable : q.Writable)
    (horder : ∀ k ∈ q.order, k.variableId ∈ q.used) {uri : String}
    (huri : Iri.isAbsolute uri = true) {limit : Nat} (hcolumns : q.projections.length ≤ limit)
    (hclauses : q.clauses.length ≤ limit) (hkeys : q.order.length ≤ limit) :
    ∃ ts r, q.describe uri = .ok ts ∧ (Graph.ofList ts).readQuery uri limit = .ok r ∧
      r.Regains q := by
  have hmade : ∀ p ∈ q.patterns, (Clause.pattern p).Made := by
    intro p hp
    exact hflat.made hq.wellFormed hp
  have hdescribe := describe_eq_ok hq.wellFormed hflat hblank hwritable huri
  have hdepicts := Spin.depicts_description hflat huri hcolumns hclauses hkeys
  have hread := hdepicts.readQuery_eq_ok hq.wellFormed hblank hmade horder
  exact ⟨_, _, hdescribe, hread, regained_regains hq.wellFormed hflat hunbound
    (Graph.readQuery_wellFormed hread)⟩

end Query

/-- Cities by the number of people, with their mayors. -/
def mayorsQuery : Query :=
  ({ uri := "urn:mayors" } : Query).afterAll
    [.annotate (some "Mayors") (some "of large cities"),
      .addVariable { uri := "urn:mayors;var=people", name := "people" },
      .addVariable { uri := "urn:mayors;var=spare", name := "spare" },
      .addVariable { uri := "urn:city", name := "city", label := some "City" },
      .freshVariable "mayor", .project 3, .project 2,
      .pushClause (.pattern ⟨.var 2, .resource (.iri "urn:mayor"), .var 3⟩),
      .pushClause (.pattern ⟨.var 2, .resource (.iri "urn:people"), .var 0⟩),
      .pushClause (.pattern ⟨.var 3, .resource (.iri "urn:note"), .literal (.inLanguage "x" "EN")⟩),
      .pushOrder ⟨.descending, 0⟩, .pushOrder ⟨.ascending, 2⟩]

/-- The example is made by lawful calls. -/
theorem mayorsQuery_built : mayorsQuery.Built := by
  refine (Query.Built.new _).afterAll ?_
  simp [Query.Call.Lawful, Clause.made_pattern_iff, Term.isLiteral, Term.IsNormal,
    Literal.isNormal_inLanguage]

/-- It has no blocks. -/
theorem mayorsQuery_flat : mayorsQuery.Flat := by
  intro c hc
  have hclauses : mayorsQuery.clauses =
      [.pattern ⟨.var 2, .resource (.iri "urn:mayor"), .var 3⟩,
        .pattern ⟨.var 2, .resource (.iri "urn:people"), .var 0⟩,
        .pattern ⟨.var 3, .resource (.iri "urn:note"), .literal (.inLanguage "x" "EN")⟩] := rfl
  rw [hclauses] at hc
  simp only [List.mem_cons, List.not_mem_nil, or_false] at hc
  rcases hc with rfl | rfl | rfl
  all_goals exact ⟨_, rfl⟩

/-- The example is read from its description. -/
theorem mayorsQuery_read :
    (Graph.ofList (Spin.description mayorsQuery "urn:mayors")).readQuery "urn:mayors" 3 =
      .ok (mayorsQuery.regained "urn:mayors") := by
  have hblank : mayorsQuery.NoBlank := by unfold Query.NoBlank; decide +kernel
  have horder : ∀ k ∈ mayorsQuery.order, k.variableId ∈ mayorsQuery.used := by decide +kernel
  have huri : Iri.isAbsolute "urn:mayors" = true := by decide +kernel
  have hcolumns : mayorsQuery.projections.length ≤ 3 := by decide +kernel
  have hclauses : mayorsQuery.clauses.length ≤ 3 := by decide +kernel
  have hkeys : mayorsQuery.order.length ≤ 3 := by decide +kernel
  have hmade : ∀ p ∈ mayorsQuery.patterns, (Clause.pattern p).Made :=
    fun p hp => mayorsQuery_flat.made mayorsQuery_built.wellFormed hp
  have hdepicts := Spin.depicts_description mayorsQuery_flat huri hcolumns hclauses hkeys
  have hread := hdepicts.readQuery_eq_ok mayorsQuery_built.wellFormed hblank hmade horder
  simp only [Spin.sourceOf] at hread
  exact hread

/-- The example comes back without the variable that it does not use. -/
theorem Query.readQuery_describe_mayors :
    ∃ ts r, mayorsQuery.describe "urn:mayors" = .ok ts ∧
      (Graph.ofList ts).readQuery "urn:mayors" 3 = .ok r ∧ r.Regains mayorsQuery ∧
        r.table.keys = ["mayor", "city", "people"] := by
  have hunbound : mayorsQuery.Unbound := by unfold Query.Unbound; decide +kernel
  have hblank : mayorsQuery.NoBlank := by unfold Query.NoBlank; decide +kernel
  have hwritable : mayorsQuery.Writable := by unfold Query.Writable; decide +kernel
  have horder : ∀ k ∈ mayorsQuery.order, k.variableId ∈ mayorsQuery.used := by decide +kernel
  have huri : Iri.isAbsolute "urn:mayors" = true := by decide +kernel
  have hcolumns : mayorsQuery.projections.length ≤ 3 := by decide +kernel
  have hclauses : mayorsQuery.clauses.length ≤ 3 := by decide +kernel
  have hkeys : mayorsQuery.order.length ≤ 3 := by decide +kernel
  obtain ⟨ts, r, hdescribe, hread, hregains⟩ :=
    Query.readQuery_describe mayorsQuery_built mayorsQuery_flat hunbound hblank hwritable horder
      huri hcolumns hclauses hkeys
  refine ⟨ts, r, hdescribe, hread, hregains, ?_⟩
  rw [hregains.keys]
  decide +kernel

end SparqlCompose
