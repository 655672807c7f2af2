import Mathlib
import SparqlCompose.Proofs.Call
import SparqlCompose.Proofs.Join.Composite
import SparqlCompose.Proofs.Reading

/-!
# Queries that can be built

A query is *built* when it comes about by the operations of the library: an empty query, a query
after a call, a join of two built queries, the query of a class, or a query that was read from a
description or from a text.  Every built query is well formed (`Query.Built.wellFormed`), and
hence sound (`Query.sound_of_built`): its parts fit together, and no later call moves a variable.
-/

namespace SparqlCompose

namespace Query

/-- The queries that come about by the operations of the library. -/
inductive Built : Query → Prop
  | new (uri : String) : Built { uri := uri }
  | call {q : Query} {c : Call} (hq : Built q) (hc : c.Lawful) : Built (q.after c)
  | join {l r q : Query} {n m : String} {requested mode : JoinMode} (hl : Built l) (hr : Built r)
      (hok : Query.join ⟨l, n⟩ ⟨r, m⟩ requested = .ok (q, mode)) : Built q
  | template {c : Concept} {q : Query} (hok : c.template = .ok q) : Built q
  | description {g : Graph} {uri : String} {limit : Nat} {q : Query}
      (hok : g.readQuery uri limit = .ok q) : Built q
  | text {text uri : String} {q : Query} {slice : Slice}
      (hok : Query.ofText text uri = .ok (q, slice)) : Built q

/-- A run of lawful calls builds on what is built. -/
theorem Built.afterAll {q : Query} {calls : List Call} (h : q.Built)
    (hcalls : ∀ c ∈ calls, c.Lawful) : (q.afterAll calls).Built := by
  induction calls generalizing q with
  | nil => exact h
  | cons c calls ih =>
      exact ih (h.call (hcalls c List.mem_cons_self))
        fun d hd => hcalls d (List.mem_cons_of_mem _ hd)

end Query

/-- People with the city that they live in, as one endpoint knows them. -/
def peopleQuery : Query :=
  ({ uri := "urn:people" } : Query).afterAll
    [.annotate (some "People") none, .addVariable { uri := "urn:people;var=id", name := "id" },
      .addVariable { uri := "urn:city", name := "city" }, .freshVariable "x",
      .project 0, .project 9,
      .pushClause (.pattern ⟨.var 0, .resource (.iri "urn:livesIn"), .var 1⟩),
      .pushClause (.block "urn:names" [.pattern ⟨.var 0, .resource (.iri "urn:name"), .var 2⟩]),
      .pushOrder ⟨.descending, 1⟩, .activate "urn:registry"]

/-- Cities with their mayors, as another endpoint knows them. -/
def citiesQuery : Query :=
  ({ uri := "urn:cities" } : Query).afterAll
    [.addVariable { uri := "urn:city", name := "place" },
      .addVariable { uri := "urn:cities;var=id", name := "id" },
      .addVariable { uri := "urn:cities;var=x", name := "x" }, .project 2, .project 0,
      .pushClause (.pattern ⟨.var 0, .resource (.iri "urn:mayor"), .var 1⟩),
      .pushClause (.pattern ⟨.var 1, .resource (.iri "urn:born"), .var 2⟩),
      .pushOrder ⟨.ascending, 2⟩, .activate "urn:atlas"]

/-- The first example is made by lawful calls. -/
theorem peopleQuery_built : peopleQuery.Built := by
  refine (Query.Built.new _).afterAll ?_
  simp [Query.Call.Lawful, Clause.made_pattern_iff, Clause.block, Clause.made_service_iff,
    Term.isLiteral, Term.IsNormal]

/-- So is the second. -/
theorem citiesQuery_built : citiesQuery.Built := by
  refine (Query.Built.new _).afterAll ?_
  simp [Query.Call.Lawful, Clause.made_pattern_iff, Term.isLiteral, Term.IsNormal]

/-- Two well-formed queries with names that resolve in them are a well-formed pair. -/
theorem Pairing.wellFormed_of_resolve {l r : Query} {n m : String} {leftId rightId : Nat}
    (hl : l.WellFormed) (hr : r.WellFormed) (hleft : l.resolve n = .ok leftId)
    (hright : r.resolve m = .ok rightId) : (Pairing.mk l r leftId rightId).WellFormed where
  left := hl
  right := hr
  leftId_lt := by
    rw [← OrderedMap.length_keys]
    exact (List.getElem?_eq_some_iff.mp (Query.resolve_eq_ok.mp hleft)).1
  rightId_lt := by
    rw [← OrderedMap.length_keys]
    exact (List.getElem?_eq_some_iff.mp (Query.resolve_eq_ok.mp hright)).1

/-- The name of an operand resolves when the operand has a variable to join on. -/
theorem JoinOperand.variableId_eq_ok {o : JoinOperand} {id : VarId} :
    o.variableId = .ok id ↔ o.query.resolve o.variableName = .ok id := by
  unfold variableId
  split <;> simp_all

/-- A join that succeeds has found both variables, and its answer is a composite. -/
theorem Query.join_inv {l r q : Query} {n m : String} {requested mode : JoinMode}
    (hl : l.WellFormed) (hr : r.WellFormed)
    (hok : Query.join ⟨l, n⟩ ⟨r, m⟩ requested = .ok (q, mode)) :
    ∃ (p : Pairing) (t : OrderedMap Variable) (places : List Nat), p.WellFormed ∧
      (p.left = l ∧ p.right = r ∧ l.resolve n = .ok p.leftId ∧ r.resolve m = .ok p.rightId) ∧
      p.Merged t places ∧ q = p.composite mode t places := by
  obtain ⟨leftId, hleft, hrest⟩ := Outcome.bind_eq_ok.mp hok
  obtain ⟨rightId, hright, -⟩ := Outcome.bind_eq_ok.mp hrest
  have hleft' := JoinOperand.variableId_eq_ok.mp hleft
  have hright' := JoinOperand.variableId_eq_ok.mp hright
  have hp := Pairing.wellFormed_of_resolve hl hr hleft' hright'
  obtain ⟨t, places, hm, hjoin⟩ := hp.join_eq_ok hleft' hright' requested
  obtain ⟨rfl, rfl⟩ := Prod.mk.inj (Except.ok.inj (hok.symm.trans hjoin))
  exact ⟨_, t, places, hp, ⟨rfl, rfl, hleft', hright'⟩, hm, rfl⟩

/-- **Every built query is well formed.**  The induction is on how the query is built. -/
theorem Query.Built.wellFormed {q : Query} (h : q.Built) : q.WellFormed := by
  induction h with
  | new uri => exact WellFormed.ofNotes uri none none
  | call hq hc ih => exact ih.after hc
  | join hl hr hok ihl ihr =>
      obtain ⟨p, t, places, hp, -, hm, rfl⟩ := join_inv ihl ihr hok
      exact hm.composite_wellFormed hp _
  | template hok => exact Concept.template_wellFormed hok
  | description hok => exact Graph.readQuery_wellFormed hok
  | text hok => exact Query.ofText_wellFormed hok

/-- The parts of a query fit together. -/
structure Query.Sound (q : Query) : Prop where
  valid : q.validate = .ok ()
  /-- Every entry of the table stands under its own legal name. -/
  keyed : ∀ e ∈ q.table.entries, e.1 = e.2.name ∧ isVarName e.1 = true
  projections_nodup : q.projections.Nodup
  /-- No pattern, at any depth, has a literal as its subject or predicate. -/
  noLiteral : ∀ p, (Clause.pattern p).Inside q.clauses →
    p.subject.isLiteral = false ∧ p.predicate.isLiteral = false
  active_mem : ∀ e, q.activeEndpoint = some e → e ∈ q.endpoints
  /-- A block, at any depth, lists the variables of its clauses, each once, in order of first
  occurrence. -/
  blocks : ∀ e cs vs, (Clause.service e cs vs).Inside q.clauses →
    vs.Nodup ∧ FirstOccurrences vs ((Clause.patternsAll cs).flatMap Pattern.varIds)
  /-- Whatever calls follow, the table grows at its end only. -/
  grows : ∀ calls, q.table.keys <+: (q.afterAll calls).table.keys
  /-- Whatever calls follow, a place holds the variable that it holds now. -/
  keeps : ∀ calls id v, q.table.at? id = some v →
    ∃ w, (q.afterAll calls).table.at? id = some w ∧ Call.Keeps calls id v w

/-- **Every built query is sound.** -/
theorem Query.sound_of_built {q : Query} (h : q.Built) : q.Sound where
  valid := h.wellFormed.validate
  keyed := by
    intro e he
    obtain ⟨hname, hlegal⟩ := h.wellFormed.table e he
    exact ⟨hname, hname ▸ hlegal.name⟩
  projections_nodup := h.wellFormed.projections_nodup
  noLiteral := by
    intro p hp
    obtain ⟨hs, hp, -⟩ := Clause.made_pattern_iff.mp (hp.made h.wellFormed.made)
    exact ⟨hs, hp⟩
  active_mem := h.wellFormed.active_mem
  blocks := by
    intro e cs vs hblock
    obtain ⟨-, rfl⟩ := Clause.made_service_iff.mp (hblock.made h.wellFormed.made)
    have hfirst := firstOccurrences_distinct ((Clause.patternsAll cs).flatMap Pattern.varIds)
    exact ⟨hfirst.nodup, hfirst⟩
  grows := keys_prefix_afterAll q
  keeps := fun calls _ _ hv => kept_afterAll hv calls

/-- The composite of the two examples, which has two blocks, is sound. -/
theorem Query.sound_people_cities :
    ∃ q, Query.join ⟨peopleQuery, "city"⟩ ⟨citiesQuery, "place"⟩ .inline = .ok (q, .service) ∧
      q.Built ∧ q.table.keys = ["id", "city", "x", "id1", "x1"] ∧ q.Sound := by
  obtain ⟨q, hjoin, hkeys⟩ : ∃ q,
      Query.join ⟨peopleQuery, "city"⟩ ⟨citiesQuery, "place"⟩ .inline = .ok (q, .service) ∧
        q.table.keys = ["id", "city", "x", "id1", "x1"] := ⟨_, rfl, by decide +kernel⟩
  have hbuilt : q.Built := .join peopleQuery_built citiesQuery_built hjoin
  exact ⟨q, hjoin, hbuilt, hkeys, Query.sound_of_built hbuilt⟩

end SparqlCompose
