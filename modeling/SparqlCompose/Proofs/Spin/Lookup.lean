import Mathlib
import SparqlCompose.Proofs.Spin.Description

/-!
# Lookups in the graph of a description

What the graph of a description answers when the reader asks for the type and the notes of the
query, for its lists, and for the parts of their members.  The answers are what the query says
there: the graph depicts the query (`Spin.depicts_description`).

The names of the vocabularies are compared by vocabulary first and by their last part then.
-/

namespace SparqlCompose

/-! ### Names of the vocabularies -/

namespace Vocabulary

/-- The type is a name of the RDF vocabulary. -/
@[simp]
theorem rdfType_eq : rdfType = rdf "type" := rfl

/-- The label is one of the RDF Schema vocabulary. -/
@[simp]
theorem rdfsLabel_eq : rdfsLabel = rdfs "label" := rfl

/-- So is the comment. -/
@[simp]
theorem rdfsComment_eq : rdfsComment = rdfs "comment" := rfl

/-- Texts that differ within their first characters differ whatever comes after. -/
theorem append_ne_append {s t : String} (n : Nat) (hs : n ≤ s.toList.length)
    (ht : n ≤ t.toList.length) (h : s.toList.take n ≠ t.toList.take n) (a b : String) :
    s ++ a ≠ t ++ b := by
  intro heq
  have htake := congrArg (fun u => u.toList.take n) heq
  simp only [String.toList_append, List.take_append_of_le_length hs,
    List.take_append_of_le_length ht] at htake
  exact h htake

/-- Different names of the SPIN vocabulary make different IRIs. -/
@[simp]
theorem sp_inj {a b : String} : sp a = sp b ↔ a = b := String.append_right_inj _

/-- So do those of the RDF vocabulary. -/
@[simp]
theorem rdf_inj {a b : String} : rdf a = rdf b ↔ a = b := String.append_right_inj _

/-- So do those of the RDF Schema vocabulary. -/
@[simp]
theorem rdfs_inj {a b : String} : rdfs a = rdfs b ↔ a = b := String.append_right_inj _

/-- No IRI of the SPIN vocabulary is one of the RDF vocabulary. -/
@[simp]
theorem sp_ne_rdf (a b : String) : sp a ≠ rdf b :=
  append_ne_append 8 (by decide) (by decide) (by decide) a b

/-- None is one of the RDF Schema vocabulary. -/
@[simp]
theorem sp_ne_rdfs (a b : String) : sp a ≠ rdfs b :=
  append_ne_append 8 (by decide) (by decide) (by decide) a b

/-- Nor do these two have an IRI in common. -/
@[simp]
theorem rdf_ne_rdfs (a b : String) : rdf a ≠ rdfs b :=
  append_ne_append 20 (by decide) (by decide) (by decide) a b

@[simp]
theorem rdfs_ne_sp (a b : String) : rdfs a ≠ sp b := (sp_ne_rdfs b a).symm

@[simp]
theorem rdf_ne_sp (a b : String) : rdf a ≠ sp b := (sp_ne_rdf b a).symm

@[simp]
theorem rdfs_ne_rdf (a b : String) : rdfs a ≠ rdf b := (rdf_ne_rdfs b a).symm

end Vocabulary

namespace Spin

open SparqlCompose.Graph

variable {q : Query} {uri : String}

/-! ### Lookups -/

/-- The source that a description makes. -/
def sourceOf (q : Query) (uri : String) (limit : Nat) : Source :=
  ⟨ofList (description q uri), uri, limit⟩

/-- Label and comment are found under their own predicates, and nothing under another. -/
@[simp]
theorem valuesOf_noteFacts (p : String) (label comment : Option String) :
    valuesOf p (noteFacts label comment) =
      (if Vocabulary.rdfsLabel = p then
        (label.map fun text => Constant.literal (.plain text)).toList else []) ++
      (if Vocabulary.rdfsComment = p then
        (comment.map fun text => Constant.literal (.plain text)).toList else []) := by
  rw [noteFacts, valuesOf_append]
  cases label <;> cases comment <;>
    simp only [Option.map_none, Option.map_some, Option.toList_none, Option.toList_some,
      valuesOf_cons, valuesOf_nil, ite_self]

/-- The order keys are found under no other predicate. -/
@[simp]
theorem valuesOf_orderFacts {p : String} (hp : Vocabulary.sp "orderBy" ≠ p) :
    valuesOf p (orderFacts q) = [] := by
  rw [orderFacts]
  split
  · rfl
  · rw [valuesOf_cons, if_neg hp, valuesOf_nil]

/-- What the reader looks up at the root is the first of what the description says there. -/
theorem object?_root (hflat : q.Flat) (limit : Nat) (p : String) :
    (sourceOf q uri limit).graph.object? (.iri uri) p = (valuesOf p (rootFacts q)).head? := by
  rw [sourceOf, object?_ofList, about_description_root hflat]

/-- The root is of the right type. -/
theorem checkType_root (hflat : q.Flat) (limit : Nat) :
    checkType (sourceOf q uri limit).graph (.iri uri) = .ok () := by
  have htype : (sourceOf q uri limit).graph.objects (.iri uri) Vocabulary.rdfType =
      [.iri (Vocabulary.sp "Select")] := by
    rw [sourceOf, objects_ofList, about_description_root hflat, rootFacts]
    simp [appendNew]
  unfold checkType
  rw [htype]
  simp [Constant.iri, Constant.iri?]

/-- It has no modifier. -/
theorem checkModifier_root (hflat : q.Flat) (limit : Nat) :
    modifiers.forM (checkModifier (sourceOf q uri limit).graph (.iri uri)) = .ok () := by
  refine Outcome.forM_eq_ok.mpr ?_
  intro modifier hmodifier
  have hnone : (sourceOf q uri limit).graph.object? (.iri uri) modifier = none := by
    obtain ⟨name, hname, rfl⟩ := List.mem_map.mp hmodifier
    rw [object?_root hflat, rootFacts]
    have hne : name ≠ "resultVariables" ∧ name ≠ "where" ∧ name ≠ "orderBy" := by
      simp only [List.mem_cons, List.not_mem_nil, or_false] at hname
      rcases hname with rfl | rfl | rfl | rfl | rfl | rfl | rfl | rfl | rfl <;> decide
    obtain ⟨hcolumns, helements, hkeys⟩ := hne
    simp [hcolumns.symm, helements.symm, hkeys.symm]
  unfold checkModifier
  rw [hnone]

/-- Its label is that of the query. -/
theorem label_root (hflat : q.Flat) (limit : Nat) :
    (sourceOf q uri limit).graph.literal? (.iri uri) Vocabulary.rdfsLabel = q.label := by
  rw [literal?, object?_root hflat, rootFacts]
  cases q.label <;> simp [Constant.literalText?, Literal.plain]

/-- Its comment is that of the query. -/
theorem comment_root (hflat : q.Flat) (limit : Nat) :
    (sourceOf q uri limit).graph.literal? (.iri uri) Vocabulary.rdfsComment = q.comment := by
  rw [literal?, object?_root hflat, rootFacts]
  cases q.comment <;> simp [Constant.literalText?, Literal.plain]

/-- The nodes of a row stand for the elements that are described at them. -/
theorem forall₂_cells {α : Type} {R : Constant → α → Prop} {n : Nat} {l : List α}
    (h : ∀ i a, l[i]? = some a → R (.resource (cell (n + i))) a) :
    List.Forall₂ R (cells n l.length) l := by
  rw [List.forall₂_iff_get]
  refine ⟨length_cells n l.length, ?_⟩
  intro i hcell hl
  have hnode : (cells n l.length).get ⟨i, hcell⟩ = .resource (cell (n + i)) := by simp [cells]
  rw [hnode]
  exact h i _ (by simp)

/-- A list is read from the head that is found. -/
theorem members_eq_ok {src : Source} {node : Resource} {predicate : String} {head : Constant}
    {ms : List Constant} (hhead : src.graph.object? node predicate = some head)
    (hcollect : src.graph.collect head src.limit = .ok ms) :
    src.members node predicate = .ok ms := by
  unfold Source.members
  rw [hhead]
  exact Outcome.mapError_eq_ok.mpr hcollect

/-- The first list at the root is that of the result columns. -/
theorem columns_root (hflat : q.Flat) {limit : Nat} (hlimit : q.projections.length ≤ limit) :
    (sourceOf q uri limit).members (.iri uri) (Vocabulary.sp "resultVariables") =
      .ok (columnNodes q) := by
  refine members_eq_ok ?_ (collect_listHead (about_columnCell hflat) ?_)
  · rw [object?_root hflat, rootFacts]
    simp
  · rw [columnNodes, List.length_map]
    exact hlimit

/-- The second is that of the patterns. -/
theorem elements_root (hflat : q.Flat) {limit : Nat} (hlimit : q.clauses.length ≤ limit) :
    (sourceOf q uri limit).members (.iri uri) (Vocabulary.sp "where") =
      .ok (elementNodes q) := by
  refine members_eq_ok ?_ (collect_listHead (about_elementCell hflat) ?_)
  · rw [object?_root hflat, rootFacts]
    simp
  · rw [elementNodes, length_cells]
    exact hlimit

/-- The third is that of the order keys, which is not written if there are none. -/
theorem keys_root (hflat : q.Flat) {limit : Nat} (hlimit : q.order.length ≤ limit) :
    (sourceOf q uri limit).members (.iri uri) (Vocabulary.sp "orderBy") = .ok (keyNodes q) := by
  have hhead : (sourceOf q uri limit).graph.object? (.iri uri) (Vocabulary.sp "orderBy") =
      if q.order.isEmpty then none else some (listHead (firstKeyCell q) (keyNodes q)) := by
    rw [object?_root hflat, rootFacts, orderFacts]
    cases q.order <;>
      simp
  by_cases hempty : q.order = []
  · have hnone : (sourceOf q uri limit).graph.object? (.iri uri) (Vocabulary.sp "orderBy") =
        none := by
      rw [hhead, hempty]
      rfl
    have hkeys : keyNodes q = [] := by
      rw [keyNodes, hempty]
      rfl
    unfold Source.members
    rw [hnone, hkeys]
  · rw [if_neg (by simpa using hempty)] at hhead
    refine members_eq_ok hhead (collect_listHead (about_keyCell hflat) ?_)
    rw [keyNodes, length_cells]
    exact hlimit

/-- The node of a variable is found with its name and its notes, and computes nothing. -/
theorem named_variable (hflat : q.Flat) (limit : Nat) {id : VarId} {v : Variable}
    (hv : q.table.at? id = some v) :
    (sourceOf q uri limit).variableName? (variableNode id) = some v.name ∧
      (sourceOf q uri limit).graph.literal? (variableNode id) Vocabulary.rdfsLabel = v.label ∧
      (sourceOf q uri limit).graph.literal? (variableNode id) Vocabulary.rdfsComment =
        v.comment ∧
      (sourceOf q uri limit).graph.object? (variableNode id) (Vocabulary.sp "expression") =
        none := by
  have hobject : ∀ p, (sourceOf q uri limit).graph.object? (variableNode id) p =
      (valuesOf p (variableFacts v)).head? := by
    intro p
    rw [sourceOf, object?_ofList, about_description_variable hflat hv]
  unfold Source.variableName? literal?
  simp only [hobject, variableFacts]
  refine ⟨?_, ?_, ?_, ?_⟩
  · simp [Constant.literalText?, Literal.plain]
  · cases v.label <;> simp [Constant.literalText?, Literal.plain]
  · cases v.comment <;> simp [Constant.literalText?, Literal.plain]
  · simp

/-- No IRI is called a variable. -/
theorem unnamed_iri (hflat : q.Flat) (limit : Nat) (text : String) :
    (sourceOf q uri limit).variableName? (.iri text) = none := by
  have hnone : (sourceOf q uri limit).graph.object? (.iri text) (Vocabulary.sp "varName") =
      none := by
    by_cases htext : text = uri
    · rw [htext, object?_root hflat, rootFacts]
      simp
    · rw [sourceOf, object?_ofList, about_description_iri hflat htext]
      rfl
  rw [Source.variableName?, literal?, hnone]
  rfl

/-- Each node of a pattern is found with what stands in the slots. -/
theorem depictsPattern_element (hflat : q.Flat) (limit : Nat) {i : Nat} {p : Pattern}
    (hp : q.patterns[i]? = some p) :
    (sourceOf q uri limit).DepictsPattern (.resource (cell (firstElement q + i))) p := by
  refine ⟨_, rfl, ?_, ?_, ?_, ?_⟩
  · rw [sourceOf, objects_ofList, about_element hflat hp]
    simp [patternFacts]
  all_goals
    rw [sourceOf, object?_ofList, about_element hflat hp]
    simp [patternFacts]

/-- Each node of an order key is found with its direction and its variable. -/
theorem depictsKey_key (hflat : q.Flat) (limit : Nat) {i : Nat} {k : OrderKey}
    (hk : q.order[i]? = some k) :
    (sourceOf q uri limit).DepictsKey (.resource (cell (firstKey q + i))) k := by
  refine ⟨_, rfl, ?_, ?_⟩
  all_goals
    rw [sourceOf, object?_ofList, about_key hflat hk]
    simp [keyFacts]

/-- **The graph of a description depicts the query.**  No list may be longer than the reader
allows. -/
theorem depicts_description (hflat : q.Flat) (huri : Iri.isAbsolute uri = true) {limit : Nat}
    (hcolumns : q.projections.length ≤ limit) (hclauses : q.clauses.length ≤ limit)
    (horder : q.order.length ≤ limit) : (sourceOf q uri limit).Depicts q where
  uri := huri
  type := checkType_root hflat limit
  modifiers := checkModifier_root hflat limit
  label := label_root hflat limit
  comment := comment_root hflat limit
  columns := columns_root hflat hcolumns
  patterns := by
    have hlength : q.clauses.length = q.patterns.length := by
      rw [hflat.clauses_eq, List.length_map]
    refine ⟨_, elements_root hflat hclauses, ?_⟩
    rw [elementNodes, hlength]
    exact forall₂_cells fun i p hp => depictsPattern_element hflat limit hp
  order := ⟨_, keys_root hflat horder, forall₂_cells fun i k hk => depictsKey_key hflat limit hk⟩
  named := fun id v hv => named_variable hflat limit hv
  iri := unnamed_iri hflat limit

end Spin

end SparqlCompose
