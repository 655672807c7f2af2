import Mathlib
import SparqlCompose.Catalog.Query
import SparqlCompose.Proofs.Graph.Index
import SparqlCompose.Proofs.Spin.Account

/-!
# Loading the queries of a graph

A graph that describes queries is loaded node by node.  The nodes are the IRIs with a label that the
graph calls a query, first under the one class and then under the other, each once
(`QueryCatalog.candidates_eq`).  One node at a time is read and is stored or noted as failed
(`QueryCatalog.Loaded.step`), and what becomes of a node does not depend on the others: the report
and the catalog are those of reading every node by itself (`QueryCatalog.loadGraph_isolates`).

A query is stored under its own URI.  That is the URI of the node from which it is read
(`Graph.uri_of_readQuery`), since no step of the reader changes it.
-/

namespace SparqlCompose

/-! ### The URI of a query that is read -/

namespace Spin.Source

variable {src : Source} {q q' : Query} {member : Constant}

/-- Reading a result column does not touch the URI of the query. -/
theorem uri_of_readColumn (h : q.WellFormed) (hok : src.readColumn q member = .ok q') :
    q'.uri = q.uri := by
  obtain ⟨node, name, id, isNew, r, -, -, -, hintern, hproject⟩ := readColumn_eq_ok.mp hok
  obtain ⟨hwidened, -⟩ := Query.widened_of_internVariable h rfl hintern
  obtain ⟨-, -, rfl⟩ := Query.project_eq_ok.mp hproject
  change r.uri = q.uri
  rw [hwidened.rest]

/-- Nor does reading a pattern. -/
theorem uri_of_readPattern (h : q.WellFormed) (hok : src.readPattern q member = .ok q') :
    q'.uri = q.uri := by
  obtain ⟨node, s, q₁, p, q₂, o, q₃, pattern, -, -, hs, hp, ho, -, hpush⟩ :=
    readPattern_eq_ok.mp hok
  have h₁ := (readSlot_wellFormed h hs).1
  have h₂ := (readSlot_wellFormed h₁ hp).1
  obtain ⟨-, -, hwidened₁, -, -⟩ := named_of_readSlot h hs
  obtain ⟨-, -, hwidened₂, -, -⟩ := named_of_readSlot h₁ hp
  obtain ⟨-, -, hwidened₃, -, -⟩ := named_of_readSlot h₂ ho
  obtain ⟨-, rfl⟩ := Query.pushClause_eq_ok.mp hpush
  change q₃.uri = q.uri
  rw [((hwidened₁.trans hwidened₂).trans hwidened₃).rest]

/-- Nor does reading an order key. -/
theorem uri_of_readKey (hok : src.readKey q member = .ok q') : q'.uri = q.uri := by
  obtain ⟨k, hpush⟩ := exists_pushOrder_of_readKey hok
  obtain ⟨-, rfl⟩ := Query.pushOrder_eq_ok.mp hpush
  rfl

end Spin.Source

namespace Graph

open Spin

variable {g : Graph} {uri : String} {limit : Nat} {q : Query}

/-- A query has the URI under which it is described. -/
theorem uri_of_readQuery (hok : g.readQuery uri limit = .ok q) : q.uri = uri := by
  obtain ⟨-, columns, patterns, keys, -, q₁, q₂, hcolumns, hpatterns, hkeys⟩ :=
    readQuery_eq_ok_iff.mp hok
  have h₁ : q₁.WellFormed ∧ q₁.uri = uri :=
    Outcome.foldlM_preserves (fun r => r.WellFormed ∧ r.uri = uri)
      (fun _ _ _ _ h hstep => ⟨Source.readColumn_wellFormed h.1 hstep,
        (Source.uri_of_readColumn h.1 hstep).trans h.2⟩)
      ⟨Query.WellFormed.ofNotes _ _ _, rfl⟩ hcolumns
  have h₂ : q₂.WellFormed ∧ q₂.uri = uri :=
    Outcome.foldlM_preserves (fun r => r.WellFormed ∧ r.uri = uri)
      (fun _ _ _ _ h hstep => ⟨Source.readPattern_wellFormed h.1 hstep,
        (Source.uri_of_readPattern h.1 hstep).trans h.2⟩) h₁ hpatterns
  exact Outcome.foldlM_preserves (fun r => r.uri = uri)
    (fun _ _ _ _ h hstep => (Source.uri_of_readKey hstep).trans h) h₂.2 hkeys

end Graph

namespace QueryCatalog

/-! ### The nodes that are loaded -/

/-- The IRIs that are members of a class, in the order in which the triples say so. -/
def membersOf (ts : List Triple) (kind : String) : List String :=
  (ts.filter fun t => t.predicate = Vocabulary.rdfType ∧ t.object = .iri kind).filterMap
    fun t => (Constant.resource t.subject).iri?

/-- Whether a node has a label. -/
def hasLabel (ts : List Triple) (uri : String) : Bool :=
  ts.any fun t => t.subject = .iri uri ∧ t.predicate = Vocabulary.rdfsLabel

/-- The labelled IRIs that are queries of some kind, then those that are queries for solutions, each
once and at its first place. -/
def labelledQueries (ts : List Triple) : List String :=
  ((membersOf ts (Vocabulary.sp "Query") ++ membersOf ts (Vocabulary.sp "Select")).filter
    (hasLabel ts)).eraseDups

section Nodes

variable {ts : List Triple} {uri kind : String}

/-- A member of a class is an IRI that the triples say to be one. -/
theorem mem_membersOf :
    uri ∈ membersOf ts kind ↔ ⟨.iri uri, Vocabulary.rdfType, .iri kind⟩ ∈ ts := by
  simp only [membersOf, List.mem_filterMap, List.mem_filter, decide_eq_true_eq]
  constructor
  · intro hparts
    obtain ⟨⟨s, p, o⟩, ⟨hmem, rfl, rfl⟩, hsubject⟩ := hparts
    have hs : s = .iri uri := by
      cases s with
      | iri text => exact congrArg Resource.iri (Option.some.inj hsubject)
      | blank label => cases hsubject
    exact hs ▸ hmem
  · intro hmem
    exact ⟨_, ⟨hmem, rfl, rfl⟩, rfl⟩

/-- A node has a label exactly when a triple gives it one. -/
theorem hasLabel_iff :
    hasLabel ts uri = true ↔ ∃ o, ⟨.iri uri, Vocabulary.rdfsLabel, o⟩ ∈ ts := by
  simp only [hasLabel, List.any_eq_true, decide_eq_true_eq]
  constructor
  · intro hparts
    obtain ⟨⟨s, p, o⟩, hmem, rfl, rfl⟩ := hparts
    exact ⟨o, hmem⟩
  · intro hparts
    obtain ⟨o, hmem⟩ := hparts
    exact ⟨_, hmem, rfl, rfl⟩

/-- The nodes to load are the labelled IRIs that are queries, of some kind or for solutions. -/
theorem mem_labelledQueries : uri ∈ labelledQueries ts ↔
    (⟨.iri uri, Vocabulary.rdfType, .iri (Vocabulary.sp "Query")⟩ ∈ ts ∨
      ⟨.iri uri, Vocabulary.rdfType, .iri (Vocabulary.sp "Select")⟩ ∈ ts) ∧
      ∃ o, ⟨.iri uri, Vocabulary.rdfsLabel, o⟩ ∈ ts := by
  rw [labelledQueries, List.mem_eraseDups, List.mem_filter, List.mem_append, mem_membersOf,
    mem_membersOf, hasLabel_iff]

/-- No node is loaded twice. -/
theorem nodup_labelledQueries (ts : List Triple) : (labelledQueries ts).Nodup := by
  rw [labelledQueries, ← Graph.foldl_appendNew_eq_eraseDups]
  exact (firstOccurrences_distinct _).nodup

end Nodes

/-! ### One node after the other -/

variable {c : QueryCatalog} {g : Graph} {endpoint : String} {limit : Nat}

/-- The nodes that are loaded are read off the triples. -/
theorem candidates_eq (h : g.Indexed) : candidates g = labelledQueries g.toList := by
  have hmembers : ∀ kind, ((g.subjects Vocabulary.rdfType (.iri kind)).filterMap
      fun s => (Constant.resource s).iri?) = membersOf g.toList kind := by
    intro kind
    rw [h.subjects, List.filterMap_map]
    rfl
  have hlabel : ∀ uri, (g.object? (.iri uri) Vocabulary.rdfsLabel).isSome =
      hasLabel g.toList uri := by
    intro uri
    rw [Graph.object?, h.objects, hasLabel, Bool.eq_iff_iff]
    simp
  simp only [candidates, List.flatMap_cons, List.flatMap_nil, List.append_nil, hmembers, hlabel]
  rw [filter_foldl_appendNew, Graph.foldl_appendNew_eq_eraseDups]
  rfl

/-- A node is noted as failed with the reason for which it cannot be read. -/
def refusal? (g : Graph) (limit : Nat) (uri : String) : Option CatalogError :=
  match g.readQuery uri limit with
  | .ok _ => none
  | .error cause => some (.unreadable uri cause)

/-- What the report and the catalog are when the nodes `done` of a graph have been loaded into the
catalog `c`.  Every node is read from the graph by itself. -/
structure Loaded (c : QueryCatalog) (g : Graph) (endpoint : String) (limit : Nat)
    (done : List String) (s : LoadReport × QueryCatalog) : Prop where
  loaded : s.1.loaded = done.filter fun uri => (g.readQuery uri limit).isOk
  failed : s.1.failed = done.filterMap (refusal? g limit)
  /-- A node that can be read has its query in the catalog, which the endpoint answers. -/
  stored : ∀ uri ∈ done, ∀ q, g.readQuery uri limit = .ok q →
    s.2.get? uri = some (q.activate endpoint)
  /-- Everything else is as it was. -/
  kept : ∀ uri, uri ∉ s.1.loaded → s.2.get? uri = c.get? uri
  /-- New entries stand behind the others, in the order in which they were loaded. -/
  keys : s.2.keys = s.1.loaded.foldl appendNew c.keys

namespace Loaded

variable {done : List String} {s : LoadReport × QueryCatalog}

/-- Before the first node the report is empty and the catalog as it was. -/
theorem start (c : QueryCatalog) (g : Graph) (endpoint : String) (limit : Nat) :
    Loaded c g endpoint limit [] ({}, c) where
  loaded := rfl
  failed := rfl
  stored := fun _ huri => absurd huri List.not_mem_nil
  kept := fun _ _ => rfl
  keys := rfl

/-- A node that cannot be read is noted, and the catalog stays as it is. -/
theorem refuse (h : Loaded c g endpoint limit done s) {uri : String} {cause : SpinError}
    (hread : g.readQuery uri limit = .error cause) :
    Loaded c g endpoint limit (done ++ [uri])
      ({ s.1 with failed := s.1.failed ++ [.unreadable uri cause] }, s.2) where
  loaded := by simp [h.loaded, hread, Except.isOk, Except.toBool]
  failed := by
    have hnoted : refusal? g limit uri = some (.unreadable uri cause) := by rw [refusal?, hread]
    simp [h.failed, hnoted]
  stored := by
    intro uri' hmem q hq
    rcases List.mem_append.mp hmem with hmem | hmem
    · exact h.stored uri' hmem q hq
    · rw [List.mem_singleton.mp hmem, hread] at hq
      cases hq
  kept := h.kept
  keys := h.keys

/-- The query of a node that can be read is stored under the node, in place of an earlier one. -/
theorem accept (h : Loaded c g endpoint limit done s) {uri : String} {q : Query}
    (hread : g.readQuery uri limit = .ok q) :
    Loaded c g endpoint limit (done ++ [uri])
      ({ s.1 with loaded := s.1.loaded ++ [uri] }, s.2.insert uri (q.activate endpoint)) where
  loaded := by simp [h.loaded, hread, Except.isOk, Except.toBool]
  failed := by
    have hnoted : refusal? g limit uri = none := by rw [refusal?, hread]
    simp [h.failed, hnoted]
  stored := by
    intro uri' hmem q' hq'
    rw [OrderedMap.get?_insert]
    split
    · next hsame =>
        rw [hsame, hread] at hq'
        rw [Except.ok.inj hq']
    · next hother =>
        rcases List.mem_append.mp hmem with hmem | hmem
        · exact h.stored uri' hmem q' hq'
        · exact absurd (List.mem_singleton.mp hmem) hother
  kept := by
    intro uri' hnone
    rw [List.mem_append, List.mem_singleton, not_or] at hnone
    rw [OrderedMap.get?_insert, if_neg hnone.2, h.kept uri' hnone.1]
  keys := by
    rw [OrderedMap.keys_insert, h.keys, List.foldl_append]
    rfl

/-- **What becomes of a node does not depend on those before it.** -/
theorem step (h : Loaded c g endpoint limit done s) (uri : String) :
    Loaded c g endpoint limit (done ++ [uri]) (loadCandidate g endpoint limit s uri) := by
  unfold loadCandidate readFor
  cases hread : g.readQuery uri limit with
  | error cause => exact h.refuse hread
  | ok q =>
      have huri : (q.activate endpoint).uri = uri := by
        change q.uri = uri
        exact Graph.uri_of_readQuery hread
      dsimp only [put]
      rw [huri]
      exact h.accept hread

/-- The nodes of a list are loaded one after the other. -/
theorem foldl (h : Loaded c g endpoint limit done s) (uris : List String) :
    Loaded c g endpoint limit (done ++ uris) (uris.foldl (loadCandidate g endpoint limit) s) := by
  induction uris generalizing done s with
  | nil => rwa [List.append_nil]
  | cons uri uris ih =>
      have hrest := ih (h.step uri)
      rwa [List.append_assoc] at hrest

end Loaded

/-- **Loading a graph isolates failures.**  The nodes that are loaded are the labelled IRIs that the
graph calls a query under one of two classes, each once, those of the first class first and in the
order in which the triples were written.  The report parts them into those that can be read by
themselves and those that cannot, and the catalog has the queries of the first and nothing new
otherwise. -/
theorem loadGraph_isolates (c : QueryCatalog) (ws : List Graph.Write) (endpoint : String)
    (limit : Nat) :
    let g := Graph.afterWrites ws
    let nodes := labelledQueries g.toList
    nodes.Nodup ∧
      (∀ uri, uri ∈ nodes ↔
        (⟨.iri uri, Vocabulary.rdfType, .iri (Vocabulary.sp "Query")⟩ ∈ g.toList ∨
          ⟨.iri uri, Vocabulary.rdfType, .iri (Vocabulary.sp "Select")⟩ ∈ g.toList) ∧
          ∃ o, ⟨.iri uri, Vocabulary.rdfsLabel, o⟩ ∈ g.toList) ∧
      Loaded c g endpoint limit nodes (c.loadGraph g endpoint limit) := by
  intro g nodes
  refine ⟨nodup_labelledQueries _, fun uri => mem_labelledQueries, ?_⟩
  have hindexed : g.Indexed := by
    change (Graph.afterWrites ws).Indexed
    rw [Graph.afterWrites_eq_ofList]
    exact Graph.indexed_ofList _
  have hall := (Loaded.start c g endpoint limit).foldl nodes
  rw [List.nil_append] at hall
  rw [loadGraph, candidates_eq hindexed]
  exact hall

/-- Descriptions of a query without patterns, which says twice what it is, of one that does not say
that it is for solutions, and of one without a label. -/
def shelfTriples : List Triple :=
  [⟨.iri "urn:broken", Vocabulary.rdfType, .iri (Vocabulary.sp "Query")⟩,
    ⟨.iri "urn:broken", Vocabulary.rdfsLabel, .literal (.plain "Broken")⟩,
    ⟨.iri "urn:good", Vocabulary.rdfType, .iri (Vocabulary.sp "Select")⟩,
    ⟨.iri "urn:good", Vocabulary.rdfType, .iri (Vocabulary.sp "Query")⟩,
    ⟨.iri "urn:good", Vocabulary.rdfsLabel, .literal (.plain "Good")⟩,
    ⟨.iri "urn:bare", Vocabulary.rdfType, .iri (Vocabulary.sp "Select")⟩]

open Spin in
/-- The node with a label and both classes is read. -/
theorem readQuery_shelf_good :
    (Graph.ofList shelfTriples).readQuery "urn:good" 5 =
      .ok { uri := "urn:good", label := some "Good" } := by
  have hobject : ∀ p, (Graph.ofList shelfTriples).object? (.iri "urn:good") p =
      (Graph.valuesOf p (Graph.about (.iri "urn:good") shelfTriples)).head? :=
    Graph.object?_ofList _ _
  have hmembers : ∀ p, p ∈ [Vocabulary.sp "resultVariables", Vocabulary.sp "where",
      Vocabulary.sp "orderBy"] → Source.members ⟨Graph.ofList shelfTriples, "urn:good", 5⟩
        (.iri "urn:good") p = .ok [] := by
    intro p hp
    have hnone : (Graph.valuesOf p (Graph.about (.iri "urn:good") shelfTriples)).head? = none := by
      revert p
      decide +kernel
    rw [Source.members, hobject, hnone]
  refine Graph.readQuery_eq_ok_iff.mpr ⟨⟨by decide +kernel, ?_, ?_⟩, [], [], [],
    ⟨hmembers _ (by simp), hmembers _ (by simp), hmembers _ (by simp)⟩, _, _, rfl, rfl, ?_⟩
  · rw [checkType_eq_ok, Graph.mem_objects_ofList]
    simp [shelfTriples]
  · have hnone : ∀ m ∈ modifiers,
        (Graph.valuesOf m (Graph.about (.iri "urn:good") shelfTriples)).head? = none := by
      decide +kernel
    refine Outcome.forM_eq_ok.mpr fun m hm => checkModifier_eq_ok.mpr fun value hvalue => ?_
    rw [hobject, hnone m hm] at hvalue
    cases hvalue
  · have hlabel : (Graph.ofList shelfTriples).literal? (.iri "urn:good") Vocabulary.rdfsLabel =
        some "Good" := by
      rw [Graph.literal?, hobject]
      decide +kernel
    have hcomment : (Graph.ofList shelfTriples).literal? (.iri "urn:good")
        Vocabulary.rdfsComment = none := by
      rw [Graph.literal?, hobject]
      decide +kernel
    rw [hlabel, hcomment]
    rfl

open Spin in
/-- The node that does not say that it is for solutions is refused. -/
theorem readQuery_shelf_broken :
    (Graph.ofList shelfTriples).readQuery "urn:broken" 5 = .error (.missingType "urn:broken") := by
  have huri : SpinError.ofTerm (checkIri "urn:broken") = .ok "urn:broken" := by decide +kernel
  have htype : checkType (Graph.ofList shelfTriples) (.iri "urn:broken") =
      .error (.missingType "urn:broken") := by
    unfold checkType
    rw [Graph.objects_ofList]
    decide +kernel
  unfold Graph.readQuery
  rw [huri, Outcome.ok_bind]
  dsimp only
  rw [htype, Outcome.error_bind]

/-- Of the shelf the good query is stored, the broken one is reported and its earlier version stays,
and the one without a label is passed over. -/
theorem loadGraph_isolates_shelf :
    let good : Query := { uri := "urn:good", label := some "Good" }
    let earlier : Query := { uri := "urn:broken", label := some "Earlier" }
    let c : QueryCatalog := QueryCatalog.put ∅ earlier
    let result := c.loadGraph (Graph.afterWrites [.extend shelfTriples]) "urn:e" 5
    result.1.loaded = ["urn:good"] ∧
      result.1.failed = [.unreadable "urn:broken" (.missingType "urn:broken")] ∧
      result.2.keys = ["urn:broken", "urn:good"] ∧ result.2.get? "urn:broken" = some earlier ∧
      result.2.get? "urn:good" = some (good.activate "urn:e") := by
  intro good earlier c result
  obtain ⟨-, -, h⟩ := loadGraph_isolates c [.extend shelfTriples] "urn:e" 5
  have hgraph : Graph.afterWrites [.extend shelfTriples] = Graph.ofList shelfTriples := rfl
  have hnodes :
      labelledQueries (Graph.ofList shelfTriples).toList = ["urn:broken", "urn:good"] := by
    rw [Graph.toList_ofList]
    decide +kernel
  rw [hgraph, hnodes] at h
  have hloaded : result.1.loaded = ["urn:good"] := by
    refine h.loaded.trans ?_
    simp [readQuery_shelf_good, readQuery_shelf_broken, Except.isOk, Except.toBool]
  have hbroken : "urn:broken" ∉ result.1.loaded := by
    rw [hloaded]
    decide +kernel
  refine ⟨hloaded, h.failed.trans ?_, h.keys.trans ?_, (h.kept "urn:broken" hbroken).trans ?_,
    h.stored "urn:good" (by simp) good readQuery_shelf_good⟩
  · simp [refusal?, readQuery_shelf_good, readQuery_shelf_broken]
  · change result.1.loaded.foldl appendNew c.keys = _
    rw [hloaded]
    decide +kernel
  · exact (OrderedMap.get?_insert ∅ _ _ _).trans (if_pos rfl)

end QueryCatalog

end SparqlCompose
