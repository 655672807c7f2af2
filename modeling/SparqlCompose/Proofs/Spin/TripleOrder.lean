import Mathlib
import SparqlCompose.Proofs.Spin.Agreement
import SparqlCompose.Proofs.Spin.RoundTrip

/-!
# The order of the triples

A graph lists its triples in the order in which they were added, and a lookup takes the oldest
value.  When there is one value only, it does not matter when it was added: graphs of the same
triples in another order give the same query (`Graph.readQuery_perm`).

The types of the query are the exception that the reader allows, as it asks whether `sp:Select` is
among them.  But it asks an order key for its oldest type.  So the law needs that the node of the
query, if it is one of its own order keys, has no direction among its types; with a direction
among them the order of the types decides (`Graph.selfSorted_not_perm`).
-/

namespace SparqlCompose

open Spin

namespace Graph

/-- A subject has one value under a predicate, except that the root may have many types. -/
def SingleValued (root : Resource) (ts : List Triple) : Prop :=
  ∀ t ∈ ts, ∀ u ∈ ts, t.subject = u.subject → t.predicate = u.predicate →
    ¬ (t.subject = root ∧ t.predicate = Vocabulary.rdfType) → t.object = u.object

/-- If the root is one of its own order keys, then no direction is among its types. -/
def SortsApart (root : Resource) (ts : List Triple) : Prop :=
  ∀ head cells items, ⟨root, Vocabulary.sp "orderBy", head⟩ ∈ ts →
    (ofList ts).Chain head cells items → .resource root ∈ items →
      ∀ d, ⟨root, Vocabulary.rdfType, .iri (directionClass d)⟩ ∉ ts

variable {ts us : List Triple} {root : Resource} {uri : String} {limit : Nat}

/-- The one value is found wherever it stands. -/
theorem SingleValued.object?_eq_some (h : SingleValued root ts) {s : Resource} {p : String}
    (hkey : ¬ (s = root ∧ p = Vocabulary.rdfType)) {o : Constant} :
    (ofList ts).object? s p = some o ↔ ⟨s, p, o⟩ ∈ ts :=
  object?_ofList_eq_some fun _ _ ho ho' => h _ ho _ ho' rfl rfl hkey

/-- Subjects have single values in whichever order the triples stand. -/
theorem SingleValued.perm (h : SingleValued root ts) (hperm : ts.Perm us) :
    SingleValued root us :=
  fun t ht u hu => h t (hperm.mem_iff.mpr ht) u (hperm.mem_iff.mpr hu)

/-- Then the order does not matter for which value is found, the type of the root apart. -/
theorem SingleValued.object?_perm (h : SingleValued root ts) (hperm : ts.Perm us) {s : Resource}
    {p : String} (hkey : ¬ (s = root ∧ p = Vocabulary.rdfType)) :
    (ofList ts).object? s p = (ofList us).object? s p := by
  refine Option.ext fun o => ?_
  rw [h.object?_eq_some hkey, (h.perm hperm).object?_eq_some hkey]
  exact hperm.mem_iff

/-- Graphs of the same triples answer the lookups of the reader alike. -/
theorem SingleValued.agree (h : SingleValued root ts) (hperm : ts.Perm us) :
    Agree (ofList ts) (ofList us) root where
  object? := by
    intro s p hp
    refine h.object?_perm hperm ?_
    intro hkey
    obtain ⟨-, rfl⟩ := hkey
    revert hp
    simp [lookups, Vocabulary.rdfFirst, Vocabulary.rdfRest]
  types := by
    intro s o
    rw [mem_objects_ofList, mem_objects_ofList]
    exact hperm.mem_iff
  type? := fun s hs => h.object?_perm hperm fun hkey => hs hkey.1
  modifiers := by
    refine forall₂_congr fun m hm => ?_
    have hne : m ≠ Vocabulary.rdfType := by
      obtain ⟨name, -, rfl⟩ := List.mem_map.mp hm
      simp
    rw [checkModifier_eq_ok, checkModifier_eq_ok, h.object?_perm hperm fun hkey => hne hkey.2]

/-- A node without a direction among its types sorts ascending, by itself. -/
theorem readDirection_of_types {node : Resource}
    (h : ∀ d, ⟨node, Vocabulary.rdfType, .iri (directionClass d)⟩ ∉ ts) :
    Source.readDirection ⟨ofList ts, uri, limit⟩ node = .ok (.ascending, .resource node) := by
  have hkind : ∀ d, ((ofList ts).object? node Vocabulary.rdfType).bind Constant.iri? ≠
      some (directionClass d) := by
    intro d habsurd
    obtain ⟨kind, hkind, hiri⟩ := Option.bind_eq_some_iff.mp habsurd
    rw [Constant.iri?_eq_some.mp hiri] at hkind
    exact h d (mem_objects_ofList.mp (List.mem_of_mem_head? hkind))
  unfold Source.readDirection
  exact (if_neg (hkind .ascending)).trans (if_neg (hkind .descending))

/-- **The order of the triples does not matter.**  Take triples with one value under each subject
and predicate, the types of the query node aside, in which that node is not both an order key of
its own and of the type of a direction.  From the same triples in another order the reader gets the
same query, or again none. -/
theorem readQuery_perm (hperm : ts.Perm us) (hsingle : SingleValued (.iri uri) ts)
    (hsorts : SortsApart (.iri uri) ts) (limit : Nat) (q : Query) :
    (ofList ts).readQuery uri limit = .ok q ↔ (ofList us).readQuery uri limit = .ok q := by
  have hagree := hsingle.agree hperm
  refine hagree.readQuery_eq_ok_iff (consistent_ofList ts) (consistent_ofList us) ?_
  intro keys hkeys hmem
  have hts : ∀ d, ⟨.iri uri, Vocabulary.rdfType, .iri (directionClass d)⟩ ∉ ts := by
    unfold Source.members at hkeys
    split at hkeys
    · next head hhead =>
        have hcollect := Outcome.mapError_eq_ok.mp hkeys
        obtain ⟨cells, hchain, -⟩ := (collect_eq_ok_iff (consistent_ofList ts)).mp hcollect
        have horder := mem_objects_ofList.mp (List.mem_of_mem_head? hhead)
        exact hsorts head cells keys horder hchain hmem
    · cases hkeys
      cases hmem
  have hus : ∀ d, ⟨.iri uri, Vocabulary.rdfType, .iri (directionClass d)⟩ ∉ us :=
    fun d => mt hperm.mem_iff.mpr (hts d)
  rw [readDirection_of_types hts, readDirection_of_types hus]

/-- The description of the example may be read backwards. -/
theorem readQuery_perm_mayors :
    let ts := description mayorsQuery "urn:mayors"
    ts.Perm ts.reverse ∧ SingleValued (.iri "urn:mayors") ts ∧ SortsApart (.iri "urn:mayors") ts ∧
      ∃ q, (ofList ts).readQuery "urn:mayors" 3 = .ok q ∧
        (ofList ts.reverse).readQuery "urn:mayors" 3 = .ok q := by
  intro ts
  have hperm : ts.Perm ts.reverse := (List.reverse_perm ts).symm
  have hsingle : SingleValued (.iri "urn:mayors") ts := by
    unfold SingleValued
    decide +kernel
  have hsorts : SortsApart (.iri "urn:mayors") ts := by
    intro head cells items _ _ _ d
    cases d <;> decide +kernel
  exact ⟨hperm, hsingle, hsorts, _, mayorsQuery_read,
    (readQuery_perm hperm hsingle hsorts 3 _).mp mayorsQuery_read⟩

/-! ### The oldest type of a query that is its own order key -/

/-- A description with these types of a query that sorts by its own node.  As an order key the node
sorts by `x`; it has no name itself. -/
def selfSorted (types : List Constant) : List Triple :=
  types.map (⟨.iri "urn:self", Vocabulary.rdfType, ·⟩) ++
    [⟨.iri "urn:self", Vocabulary.sp "expression", .resource (.blank "x")⟩,
      ⟨.blank "x", Vocabulary.sp "varName", .literal (.plain "x")⟩,
      ⟨.iri "urn:self", Vocabulary.sp "resultVariables", .resource (.blank "c1")⟩,
      ⟨.blank "c1", Vocabulary.rdfFirst, .resource (.blank "x")⟩,
      ⟨.blank "c1", Vocabulary.rdfRest, .iri Vocabulary.rdfNil⟩,
      ⟨.iri "urn:self", Vocabulary.sp "orderBy", .resource (.blank "c2")⟩,
      ⟨.blank "c2", Vocabulary.rdfFirst, .iri "urn:self"⟩,
      ⟨.blank "c2", Vocabulary.rdfRest, .iri Vocabulary.rdfNil⟩]

/-- The query of that description, before its order key. -/
def selfQuery : Query :=
  { uri := "urn:self"
    table := .ofList [("x", { uri := "urn:self;bn=x", name := "x" })]
    projections := [0] }

section SelfSorted

variable (types : List Constant)

/-- Only the types depend on the types. -/
theorem object?_selfSorted (s : Resource) {p : String} (hp : p ≠ Vocabulary.rdfType) :
    (ofList (selfSorted types)).object? s p = (valuesOf p (about s (selfSorted []))).head? := by
  have htypes :
      valuesOf p (about s (types.map (⟨.iri "urn:self", Vocabulary.rdfType, ·⟩))) = [] := by
    rw [valuesOf, List.map_eq_nil_iff, List.filter_eq_nil_iff]
    intro f hf
    obtain ⟨t, ht, rfl⟩ := List.mem_map.mp hf
    obtain ⟨kind, -, rfl⟩ := List.mem_map.mp (List.mem_filter.mp ht).1
    exact fun habsurd => hp (of_decide_eq_true habsurd).symm
  rw [object?_ofList, selfSorted, about_append, valuesOf_append, htypes]
  rfl

/-- A list of one member is read from its cell. -/
theorem members_selfSorted {predicate : String} (label : String) {member : Constant}
    (hpredicate : predicate ≠ Vocabulary.rdfType)
    (hhead : (valuesOf predicate (about (.iri "urn:self") (selfSorted []))).head? =
      some (.resource (.blank label)))
    (hfirst : (valuesOf Vocabulary.rdfFirst (about (.blank label) (selfSorted []))).head? =
      some member)
    (hrest : (valuesOf Vocabulary.rdfRest (about (.blank label) (selfSorted []))).head? =
      some (.iri Vocabulary.rdfNil)) :
    Source.members ⟨ofList (selfSorted types), "urn:self", 2⟩ (.iri "urn:self") predicate =
      .ok [member] := by
  have hchain : (ofList (selfSorted types)).Chain (.resource (.blank label)) [.blank label]
      [member] := by
    refine .cons nofun ?_ ?_ .nil
    · rw [object?_selfSorted types _ (by simp [Vocabulary.rdfFirst]), hfirst]
    · rw [object?_selfSorted types _ (by simp [Vocabulary.rdfRest]), hrest]
  refine Spin.members_eq_ok ?_ (hchain.collect_eq_ok (consistent_ofList _) (by simp))
  rw [object?_selfSorted types _ hpredicate, hhead]

/-- The node that is sorted by has a name, the node of the query has none. -/
theorem variableName?_selfSorted :
    Source.variableName? ⟨ofList (selfSorted types), "urn:self", 2⟩ (.blank "x") = some "x" ∧
      Source.variableName? ⟨ofList (selfSorted types), "urn:self", 2⟩ (.iri "urn:self") = none := by
  rw [Source.variableName?, Source.variableName?, literal?, literal?,
    object?_selfSorted types _ (by simp), object?_selfSorted types _ (by simp)]
  simp [selfSorted, about, valuesOf, fact, Constant.literalText?, Literal.plain]

/-- Neither node has a label or a comment. -/
theorem notes_selfSorted {s : Resource} (hs : s = .iri "urn:self" ∨ s = .blank "x") :
    (ofList (selfSorted types)).literal? s Vocabulary.rdfsLabel = none ∧
      (ofList (selfSorted types)).literal? s Vocabulary.rdfsComment = none := by
  rw [literal?, literal?, object?_selfSorted types _ (by simp),
    object?_selfSorted types _ (by simp)]
  rcases hs with rfl | rfl
  · simp [selfSorted, about, valuesOf, fact]
  · simp [selfSorted, about, valuesOf, fact]

/-- The one column is read, and with it the variable `x`. -/
theorem readColumn_selfSorted :
    Source.readColumn ⟨ofList (selfSorted types), "urn:self", 2⟩ { uri := "urn:self" }
      (.resource (.blank "x")) = .ok selfQuery := by
  have hexpression : (ofList (selfSorted types)).object? (.blank "x") (Vocabulary.sp "expression") =
      none := by
    rw [object?_selfSorted types _ (by simp)]
    simp [selfSorted, about, valuesOf, fact]
  have hvariable : Source.variableOf ⟨ofList (selfSorted types), "urn:self", 2⟩ (.blank "x") "x" =
      { uri := "urn:self;bn=x", name := "x" } := by
    obtain ⟨hlabel, hcomment⟩ := notes_selfSorted types (Or.inr rfl : Resource.blank "x" = _ ∨ _)
    unfold Source.variableOf
    rw [hlabel, hcomment]
    rfl
  refine Source.readColumn_eq_ok.mpr ⟨.blank "x", "x", 0, true,
    { selfQuery with projections := [] }, rfl, hexpression,
    (variableName?_selfSorted types).1, ?_, ?_⟩
  · rw [hvariable]
    rfl
  · rfl

/-- Everything but the order key is read, whatever the types besides `sp:Select` are. -/
theorem readQuery_selfSorted (hselect : .iri (Vocabulary.sp "Select") ∈ types) :
    (ofList (selfSorted types)).readQuery "urn:self" 2 =
      Source.readKey ⟨ofList (selfSorted types), "urn:self", 2⟩ selfQuery (.iri "urn:self") := by
  have huri : SpinError.ofTerm (checkIri "urn:self") = .ok "urn:self" := by decide +kernel
  have htype : checkType (ofList (selfSorted types)) (.iri "urn:self") = .ok () := by
    refine checkType_eq_ok.mpr (mem_objects_ofList.mpr (List.mem_append_left _ ?_))
    exact List.mem_map_of_mem hselect
  have hmodifiers :
      modifiers.forM (checkModifier (ofList (selfSorted types)) (.iri "urn:self")) = .ok () := by
    refine Outcome.forM_eq_ok.mpr fun m hm => checkModifier_eq_ok.mpr fun value hvalue => ?_
    have hnone : ∀ m ∈ modifiers, m ≠ Vocabulary.rdfType ∧
        (valuesOf m (about (.iri "urn:self") (selfSorted []))).head? = none := by
      simp [modifiers, selfSorted, about, valuesOf, fact]
    rw [object?_selfSorted types _ (hnone m hm).1, (hnone m hm).2] at hvalue
    cases hvalue
  have hcolumns : Source.members ⟨ofList (selfSorted types), "urn:self", 2⟩ (.iri "urn:self")
      (Vocabulary.sp "resultVariables") = .ok [.resource (.blank "x")] := by
    refine members_selfSorted types "c1" (by simp) ?_ ?_ ?_
    all_goals simp [selfSorted, about, valuesOf, fact, Vocabulary.rdfFirst, Vocabulary.rdfRest]
  have hkeys : Source.members ⟨ofList (selfSorted types), "urn:self", 2⟩ (.iri "urn:self")
      (Vocabulary.sp "orderBy") = .ok [.iri "urn:self"] := by
    refine members_selfSorted types "c2" (by simp) ?_ ?_ ?_
    all_goals simp [selfSorted, about, valuesOf, fact, Vocabulary.rdfFirst, Vocabulary.rdfRest]
  have hpatterns : Source.members ⟨ofList (selfSorted types), "urn:self", 2⟩ (.iri "urn:self")
      (Vocabulary.sp "where") = .ok [] := by
    have hnone : (ofList (selfSorted types)).object? (.iri "urn:self") (Vocabulary.sp "where") =
        none := by
      rw [object?_selfSorted types _ (by simp)]
      simp [selfSorted, about, valuesOf, fact]
    unfold Source.members
    rw [hnone]
  obtain ⟨hlabel, hcomment⟩ := notes_selfSorted types (Or.inl rfl : Resource.iri "urn:self" = _ ∨ _)
  unfold readQuery
  rw [huri, Outcome.ok_bind]
  dsimp only
  rw [htype, Outcome.ok_bind, hmodifiers, Outcome.ok_bind, hlabel, hcomment, hcolumns,
    Outcome.ok_bind, List.foldlM_cons, readColumn_selfSorted, Outcome.ok_bind, hpatterns, hkeys]
  simp only [List.foldlM_nil, List.foldlM_cons, pure_bind, Outcome.ok_bind, bind_pure]

/-- When its oldest type is a direction, the node sorts in that direction by `x`. -/
theorem readQuery_selfSorted_of_type {d : Direction}
    (hselect : .iri (Vocabulary.sp "Select") ∈ types)
    (htype : (ofList (selfSorted types)).object? (.iri "urn:self") Vocabulary.rdfType =
      some (.iri (directionClass d))) :
    (ofList (selfSorted types)).readQuery "urn:self" 2 =
      .ok { selfQuery with order := [⟨d, 0⟩] } := by
  have hexpression : (ofList (selfSorted types)).object? (.iri "urn:self")
      (Vocabulary.sp "expression") = some (.resource (.blank "x")) := by
    rw [object?_selfSorted types _ (by simp)]
    simp [selfSorted, about, valuesOf, fact]
  have hdirection : Source.readDirection ⟨ofList (selfSorted types), "urn:self", 2⟩
      (.iri "urn:self") = .ok (d, .resource (.blank "x")) := by
    unfold Source.readDirection
    rw [htype, Source.required_eq_ok hexpression]
    cases d with
    | ascending => exact if_pos rfl
    | descending =>
        exact (if_neg (by simp [Constant.iri, Constant.iri?, directionClass])).trans (if_pos rfl)
  have hvariable : Source.orderVariable ⟨ofList (selfSorted types), "urn:self", 2⟩ selfQuery
      (.resource (.blank "x")) = .ok 0 := by
    unfold Source.orderVariable
    simp only [Constant.resource?, Option.bind_some, (variableName?_selfSorted types).1]
    rfl
  rw [readQuery_selfSorted types hselect]
  exact Outcome.bind_eq_ok.mpr ⟨.iri "urn:self", rfl, Outcome.bind_eq_ok.mpr ⟨_, hdirection,
    Outcome.mapError_eq_ok.mpr (Outcome.bind_eq_ok.mpr ⟨_, hvariable, rfl⟩)⟩⟩

/-- When its oldest type is none, the node counts as a variable, which it is not. -/
theorem readQuery_selfSorted_ne_ok (hselect : .iri (Vocabulary.sp "Select") ∈ types)
    (htype : (ofList (selfSorted types)).object? (.iri "urn:self") Vocabulary.rdfType =
      some (.iri (Vocabulary.sp "Select"))) (q : Query) :
    (ofList (selfSorted types)).readQuery "urn:self" 2 ≠ .ok q := by
  intro hok
  have hkind : ∀ d, (some (Constant.iri (Vocabulary.sp "Select"))).bind Constant.iri? ≠
      some (directionClass d) := by
    intro d
    cases d <;> simp [Constant.iri, Constant.iri?, directionClass]
  have hdirection : Source.readDirection ⟨ofList (selfSorted types), "urn:self", 2⟩
      (.iri "urn:self") = .ok (.ascending, .iri "urn:self") := by
    unfold Source.readDirection
    rw [htype]
    exact (if_neg (hkind .ascending)).trans (if_neg (hkind .descending))
  rw [readQuery_selfSorted types hselect] at hok
  obtain ⟨node, hnode, hok⟩ := Outcome.bind_eq_ok.mp hok
  obtain rfl := Except.ok.inj hnode
  rw [hdirection, Outcome.ok_bind] at hok
  obtain ⟨id, hid, -⟩ := Outcome.bind_eq_ok.mp (Outcome.mapError_eq_ok.mp hok)
  unfold Source.orderVariable at hid
  simp only [Constant.iri, Constant.resource?, Option.bind_some,
    (variableName?_selfSorted types).2] at hid
  cases hid

end SelfSorted

/-- **The oldest type decides how a query sorts by its own node.**  When that is the direction, the
query is read; when `sp:Select` comes first, the node counts as a variable, and the same triples
give no query. -/
theorem selfSorted_not_perm :
    let select := Constant.iri (Vocabulary.sp "Select")
    let descending := Constant.iri (directionClass .descending)
    (selfSorted [descending, select]).Perm (selfSorted [select, descending]) ∧
      SingleValued (.iri "urn:self") (selfSorted [descending, select]) ∧
      (ofList (selfSorted [descending, select])).readQuery "urn:self" 2 =
        .ok { selfQuery with order := [⟨.descending, 0⟩] } ∧
      ∀ q, (ofList (selfSorted [select, descending])).readQuery "urn:self" 2 ≠ .ok q := by
  intro select descending
  refine ⟨.swap _ _ _, ?_, ?_, ?_⟩
  · unfold SingleValued
    decide +kernel
  · refine readQuery_selfSorted_of_type _ (by simp [select]) ?_
    exact (object?_ofList _ _ _).trans (by decide +kernel)
  · refine readQuery_selfSorted_ne_ok _ (by simp [select]) ?_
    exact (object?_ofList _ _ _).trans (by decide +kernel)

end Graph

end SparqlCompose
