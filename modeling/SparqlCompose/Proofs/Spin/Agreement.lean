import Mathlib
import SparqlCompose.Proofs.Spin.Lookup

/-!
# What the reader of a description looks at

The reader takes the oldest value under a few predicates (`Spin.lookups`), and all values of
`rdf:type`.  Two graphs that answer these lookups alike (`Spin.Agree`) give the same query, or both
give none (`Spin.Agree.readQuery_eq_ok_iff`): what else they hold, and in which order, does not
matter.

At the node of the query less is asked.  A modifier need only be one that may stand there, and the
types may come in another order.  Only when the node is also one of its own order keys does its
oldest type tell the direction.
-/

namespace SparqlCompose

/-- Only an IRI has the text of an IRI. -/
theorem Constant.iri?_eq_some {c : Constant} {text : String} :
    c.iri? = some text ↔ c = .iri text := by
  cases c with
  | literal l => simp [iri?, iri]
  | resource r => cases r <;> simp [iri?, iri]

namespace Spin

open SparqlCompose.Graph

/-! ### The checks of the node -/

/-- A node is a query for solutions exactly when this is one of its types. -/
theorem checkType_eq_ok {g : Graph} {node : Resource} :
    checkType g node = .ok () ↔
      .iri (Vocabulary.sp "Select") ∈ g.objects node Vocabulary.rdfType := by
  have hselect : (((g.objects node Vocabulary.rdfType).filterMap Constant.iri?).filter
      (· != Vocabulary.sp "Query")).contains (Vocabulary.sp "Select") = true ↔
        .iri (Vocabulary.sp "Select") ∈ g.objects node Vocabulary.rdfType := by
    simp [Constant.iri?_eq_some]
  rw [← hselect]
  unfold checkType
  dsimp only
  split
  · next h => exact iff_of_true rfl h
  · next h =>
      refine iff_of_false ?_ h
      intro hok
      split at hok <;> cases hok

/-- A modifier may stand exactly when its oldest value says the same as no modifier. -/
theorem checkModifier_eq_ok {g : Graph} {node : Resource} {modifier : String} :
    checkModifier g node modifier = .ok () ↔
      ∀ value, g.object? node modifier = some value → isDisabled modifier value = true := by
  unfold checkModifier
  cases g.object? node modifier with
  | none => simp
  | some value => by_cases hdisabled : isDisabled modifier value = true <;> simp [hdisabled]

/-! ### Graphs that agree -/

/-- The predicates under which the reader takes the oldest value. -/
def lookups : List String :=
  [Vocabulary.rdfFirst, Vocabulary.rdfRest, Vocabulary.rdfsLabel, Vocabulary.rdfsComment] ++
    ["resultVariables", "where", "orderBy", "varName", "expression", "subject", "predicate",
      "object"].map Vocabulary.sp

/-- Two graphs answer the lookups of a reader alike, at the node of the query and elsewhere. -/
structure Agree (g h : Graph) (root : Resource) : Prop where
  object? : ∀ s, ∀ p ∈ lookups, g.object? s p = h.object? s p
  types : ∀ s o, o ∈ g.objects s Vocabulary.rdfType ↔ o ∈ h.objects s Vocabulary.rdfType
  type? : ∀ s, s ≠ root → g.object? s Vocabulary.rdfType = h.object? s Vocabulary.rdfType
  modifiers : (∀ m ∈ modifiers, checkModifier g root m = .ok ()) ↔
    ∀ m ∈ modifiers, checkModifier h root m = .ok ()

namespace Agree

variable {g h : Graph} {root : Resource} {uri : String} {limit : Nat}

/-- Which of the graphs comes first does not matter. -/
theorem symm (hagree : Agree g h root) : Agree h g root where
  object? := fun s p hp => (hagree.object? s p hp).symm
  types := fun s o => (hagree.types s o).symm
  type? := fun s hs => (hagree.type? s hs).symm
  modifiers := hagree.modifiers.symm

/-- The literals that are looked up are the same. -/
theorem literal? (hagree : Agree g h root) (s : Resource) {p : String} (hp : p ∈ lookups) :
    g.literal? s p = h.literal? s p := by
  rw [Graph.literal?, Graph.literal?, hagree.object? s p hp]

/-- A chain of one graph is a chain of the other. -/
theorem chain (hagree : Agree g h root) {head : Constant} {cells : List Resource}
    {items : List Constant} (hchain : g.Chain head cells items) : h.Chain head cells items := by
  induction hchain with
  | nil => exact .nil
  | cons hcell hfirst hrest _ ih =>
      rw [hagree.object? _ _ (by simp [lookups])] at hfirst hrest
      exact .cons hcell hfirst hrest ih

/-- A list has the same members in both graphs. -/
theorem collect (hagree : Agree g h root) (hg : g.Consistent) (hh : h.Consistent)
    {head : Constant} {items : List Constant} :
    g.collect head limit = .ok items ↔ h.collect head limit = .ok items := by
  rw [collect_eq_ok_iff hg, collect_eq_ok_iff hh]
  refine exists_congr fun cells => and_congr_left fun _ => ?_
  exact ⟨hagree.chain, hagree.symm.chain⟩

/-- So have the lists that hang on a node. -/
theorem members (hagree : Agree g h root) (hg : g.Consistent) (hh : h.Consistent)
    {node : Resource} {predicate : String} (hp : predicate ∈ lookups) {ms : List Constant} :
    Source.members ⟨g, uri, limit⟩ node predicate = .ok ms ↔
      Source.members ⟨h, uri, limit⟩ node predicate = .ok ms := by
  unfold Source.members
  dsimp only
  rw [hagree.object? node predicate hp]
  cases h.object? node predicate with
  | none => rfl
  | some head =>
      dsimp only
      rw [Outcome.mapError_eq_ok, Outcome.mapError_eq_ok]
      exact hagree.collect hg hh

/-- A node is called the same in both graphs. -/
theorem variableName? (hagree : Agree g h root) (node : Resource) :
    Source.variableName? ⟨g, uri, limit⟩ node = Source.variableName? ⟨h, uri, limit⟩ node :=
  hagree.literal? node (by simp [lookups])

/-- The variable that is made for a node is the same. -/
theorem variableOf (hagree : Agree g h root) (node : Resource) (name : String) :
    Source.variableOf ⟨g, uri, limit⟩ node name = Source.variableOf ⟨h, uri, limit⟩ node name := by
  unfold Source.variableOf
  rw [hagree.literal? node (by simp [lookups]), hagree.literal? node (by simp [lookups])]

/-- A required value is the same, or is missing in both graphs. -/
theorem required (hagree : Agree g h root) (node : Resource) {predicate : String}
    (hp : predicate ∈ lookups) :
    Source.required ⟨g, uri, limit⟩ node predicate =
      Source.required ⟨h, uri, limit⟩ node predicate := by
  unfold Source.required
  rw [hagree.object? node predicate hp]

/-! ### Steps of the reader -/

/-- A result column is read alike. -/
theorem readColumn (hagree : Agree g h root) (q : Query) (member : Constant) :
    Source.readColumn ⟨g, uri, limit⟩ q member = Source.readColumn ⟨h, uri, limit⟩ q member := by
  unfold Source.readColumn
  simp only [hagree.variableName?, hagree.variableOf]
  refine congrArg (Source.nodeOf member >>= ·) (funext fun node => ?_)
  rw [hagree.object? node _ (by simp [lookups])]

/-- So is a slot of a pattern. -/
theorem readSlot (hagree : Agree g h root) (node : Resource) {predicate : String}
    (hp : predicate ∈ lookups) (q : Query) :
    Source.readSlot ⟨g, uri, limit⟩ node predicate q =
      Source.readSlot ⟨h, uri, limit⟩ node predicate q := by
  have hterm : ∀ c, Source.readTerm ⟨g, uri, limit⟩ q c = Source.readTerm ⟨h, uri, limit⟩ q c := by
    intro c
    unfold Source.readTerm
    simp only [hagree.variableName?, hagree.variableOf]
  unfold Source.readSlot
  rw [hagree.required node hp]
  simp only [hterm]

/-- So is a pattern, unless it is refused in both graphs. -/
theorem readPattern (hagree : Agree g h root) {q q' : Query} {member : Constant} :
    Source.readPattern ⟨g, uri, limit⟩ q member = .ok q' ↔
      Source.readPattern ⟨h, uri, limit⟩ q member = .ok q' := by
  have hsubject : Vocabulary.sp "subject" ∈ lookups := by simp [lookups]
  have hpredicate : Vocabulary.sp "predicate" ∈ lookups := by simp [lookups]
  have hobject : Vocabulary.sp "object" ∈ lookups := by simp [lookups]
  rw [Source.readPattern_eq_ok, Source.readPattern_eq_ok]
  simp only [hagree.types, hagree.readSlot _ hsubject, hagree.readSlot _ hpredicate,
    hagree.readSlot _ hobject]

/-- The oldest type tells the direction. -/
theorem readDirection (hagree : Agree g h root) {node : Resource}
    (htype : g.object? node Vocabulary.rdfType = h.object? node Vocabulary.rdfType) :
    Source.readDirection ⟨g, uri, limit⟩ node = Source.readDirection ⟨h, uri, limit⟩ node := by
  unfold Source.readDirection
  rw [hagree.required node (by simp [lookups]), htype]

/-- So is an order key, if the root has the same direction in both graphs. -/
theorem readKey (hagree : Agree g h root) {member : Constant}
    (hroot : member = .resource root → Source.readDirection ⟨g, uri, limit⟩ root =
      Source.readDirection ⟨h, uri, limit⟩ root) (q : Query) :
    Source.readKey ⟨g, uri, limit⟩ q member = Source.readKey ⟨h, uri, limit⟩ q member := by
  have hvariable : ∀ c, Source.orderVariable ⟨g, uri, limit⟩ q c =
      Source.orderVariable ⟨h, uri, limit⟩ q c := by
    intro c
    have hname : Source.variableName? ⟨g, uri, limit⟩ = Source.variableName? ⟨h, uri, limit⟩ :=
      funext hagree.variableName?
    unfold Source.orderVariable
    rw [hname]
  cases member with
  | literal l => rfl
  | resource node =>
      have hdirection : Source.readDirection ⟨g, uri, limit⟩ node =
          Source.readDirection ⟨h, uri, limit⟩ node := by
        by_cases hnode : node = root
        · rw [hnode]
          exact hroot (congrArg Constant.resource hnode)
        · exact hagree.readDirection (hagree.type? node hnode)
      simp only [Source.readKey, Source.nodeOf, Outcome.ok_bind, hdirection, hvariable]

/-- The root is a query in both graphs or in neither. -/
theorem checkType (hagree : Agree g h root) :
    checkType g root = .ok () ↔ checkType h root = .ok () := by
  rw [checkType_eq_ok, checkType_eq_ok]
  exact hagree.types root _

/-- A query that is read from one of the graphs is read from the other. -/
theorem readQuery_of (hagree : Agree g h (.iri uri)) (hg : g.Consistent) (hh : h.Consistent)
    (hroot : ∀ keys, Source.members ⟨g, uri, limit⟩ (.iri uri) (Vocabulary.sp "orderBy") =
        .ok keys → .resource (.iri uri) ∈ keys →
      Source.readDirection ⟨g, uri, limit⟩ (.iri uri) =
        Source.readDirection ⟨h, uri, limit⟩ (.iri uri))
    {q : Query} (hok : g.readQuery uri limit = .ok q) : h.readQuery uri limit = .ok q := by
  obtain ⟨⟨huri, htype, hmodifiers⟩, columns, patterns, keys,
    ⟨hcolumns, hpatterns, hkeys⟩, q₁, q₂, hq₁, hq₂, hq⟩ := Graph.readQuery_eq_ok_iff.mp hok
  have hmodifiers' := hagree.modifiers.mp (Outcome.forM_eq_ok.mp hmodifiers)
  refine Graph.readQuery_eq_ok_iff.mpr
    ⟨⟨huri, hagree.checkType.mp htype, Outcome.forM_eq_ok.mpr hmodifiers'⟩, columns, patterns,
      keys, ⟨(hagree.members hg hh (by simp [lookups])).mp hcolumns,
        (hagree.members hg hh (by simp [lookups])).mp hpatterns,
        (hagree.members hg hh (by simp [lookups])).mp hkeys⟩, q₁, q₂, ?_, ?_, ?_⟩
  · rw [← hagree.literal? _ (by simp [lookups]), ← hagree.literal? _ (by simp [lookups])]
    refine (Outcome.foldlM_eq_ok_congr ?_).mp hq₁
    intro member _ r r'
    rw [hagree.readColumn]
  · refine (Outcome.foldlM_eq_ok_congr ?_).mp hq₂
    intro member _ r r'
    exact hagree.readPattern
  · refine (Outcome.foldlM_eq_ok_congr ?_).mp hq
    intro member hmember r r'
    rw [hagree.readKey fun hnode => hroot keys hkeys (hnode ▸ hmember)]

/-- **A query is read alike from graphs that agree.**  If the node of the query is one of its own
order keys, the graphs must also agree on its direction. -/
theorem readQuery_eq_ok_iff (hagree : Agree g h (.iri uri)) (hg : g.Consistent)
    (hh : h.Consistent)
    (hroot : ∀ keys, Source.members ⟨g, uri, limit⟩ (.iri uri) (Vocabulary.sp "orderBy") =
        .ok keys → .resource (.iri uri) ∈ keys →
      Source.readDirection ⟨g, uri, limit⟩ (.iri uri) =
        Source.readDirection ⟨h, uri, limit⟩ (.iri uri)) {q : Query} :
    g.readQuery uri limit = .ok q ↔ h.readQuery uri limit = .ok q := by
  refine ⟨hagree.readQuery_of hg hh hroot, hagree.symm.readQuery_of hh hg ?_⟩
  intro keys hkeys hmem
  exact (hroot keys ((hagree.members hg hh (by simp [lookups])).mpr hkeys) hmem).symm

end Agree

end Spin

end SparqlCompose
