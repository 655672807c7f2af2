import Mathlib
import SparqlCompose.Proofs.Reading
import SparqlCompose.Spin.Describe

/-!
# Reading what depicts a query

A source *depicts* a query when each lookup that the reader makes finds what the query says
there (`Spin.Source.Depicts`).  Which nodes stand for the patterns and order keys, and what else
the graph holds, does not matter.

From a source that depicts a query the reader gets the query back (`Depicts.readQuery_eq_ok`), up
to the table: that lists the variables in the order in which the reader comes upon them
(`Query.used`), and only those.  The reader's table is at each moment the list of what has come
up so far, a prefix of the final one; so the place that a variable has in the final table is the
place that it gets at once.

A blank node of a pattern comes back as a blank node if it is not the node of a variable
(`Spin.Source.Anonymous`).  The reader drops the lead of its label, if there is one
(`Term.relabelled`).
-/

namespace SparqlCompose

/-! ### Blank nodes without leads -/

/-- The slot as it is read: the label of a blank node is taken without its lead. -/
def Term.relabelled : Term → Term
  | .resource (.blank label) => .resource (.ofLabel label)
  | x => x

/-- The pattern as it is read. -/
def Pattern.relabelled (p : Pattern) : Pattern :=
  ⟨p.subject.relabelled, p.predicate.relabelled, p.object.relabelled⟩

namespace Term

/-- A label without its lead is that of a blank node again. -/
theorem exists_ofLabel_eq (label : String) :
    ∃ label', Resource.ofLabel label = .blank label' := by
  unfold Resource.ofLabel
  split
  · exact ⟨_, rfl⟩
  · exact ⟨_, rfl⟩

/-- Only a blank node is read as something else, and that is another blank node. -/
theorem relabelled_cases (x : Term) :
    x.relabelled = x ∨
      ∃ label label', x = .resource (.blank label) ∧ x.relabelled = .resource (.blank label') := by
  cases x with
  | var id => exact Or.inl rfl
  | literal l => exact Or.inl rfl
  | resource r =>
      cases r with
      | iri text => exact Or.inl rfl
      | blank label =>
          obtain ⟨label', hlabel⟩ := exists_ofLabel_eq label
          exact Or.inr ⟨label, label', rfl, congrArg resource hlabel⟩

/-- What is no blank node is read as it is. -/
theorem relabelled_of_isBlank {x : Term} (h : x.isBlank = false) : x.relabelled = x := by
  rcases x.relabelled_cases with hsame | ⟨label, label', rfl, -⟩
  · exact hsame
  · cases h

/-- A slot is read with its variable. -/
theorem var?_relabelled (x : Term) : x.relabelled.var? = x.var? := by
  rcases x.relabelled_cases with hsame | ⟨label, label', rfl, hblank⟩
  · rw [hsame]
  · rw [hblank]
    rfl

/-- A literal is read as a literal, and nothing else is. -/
theorem isLiteral_relabelled (x : Term) : x.relabelled.isLiteral = x.isLiteral := by
  rcases x.relabelled_cases with hsame | ⟨label, label', rfl, hblank⟩
  · rw [hsame]
  · rw [hblank]
    rfl

/-- A slot in normal form is read in normal form. -/
theorem IsNormal.relabelled {x : Term} (h : x.IsNormal) : x.relabelled.IsNormal := by
  rcases x.relabelled_cases with hsame | ⟨label, label', rfl, hblank⟩
  · rwa [hsame]
  · rw [hblank]
    trivial

end Term

/-- A pattern is read with its variables. -/
theorem Pattern.varIds_relabelled (p : Pattern) : p.relabelled.varIds = p.varIds := by
  simp only [Pattern.varIds_eq_append, Pattern.relabelled, Term.var?_relabelled]

/-- A pattern that can be made is read as one that can. -/
theorem Clause.Made.pattern_relabelled {p : Pattern} (h : (Clause.pattern p).Made) :
    (Clause.pattern p.relabelled).Made := by
  obtain ⟨hs, hm, ho⟩ := made_pattern_iff.mp h
  exact made_pattern_iff.mpr ⟨(Term.isLiteral_relabelled _).trans hs,
    (Term.isLiteral_relabelled _).trans hm, ho.relabelled⟩

/-- The patterns of a query without blank nodes are read as they are. -/
theorem Query.NoBlank.map_relabelled {q : Query} (h : q.NoBlank) :
    q.patterns.map Pattern.relabelled = q.patterns := by
  refine (List.map_congr_left fun p hp => ?_).trans (List.map_id _)
  have hslot : ∀ x ∈ [p.subject, p.predicate, p.object], x.relabelled = x :=
    fun x hx => Term.relabelled_of_isBlank (h p hp x hx)
  rw [Pattern.relabelled, hslot p.subject (by simp), hslot p.predicate (by simp),
    hslot p.object (by simp)]
  rfl

namespace Query

/-- The variables of the result columns and the patterns, each once, in order of first
occurrence. -/
def used (q : Query) : List VarId :=
  (q.projections ++ q.patterns.flatMap Pattern.varIds).foldl appendNew []

/-- The place of a variable among the used ones. -/
def placeOf (q : Query) (id : VarId) : VarId := q.used.idxOf id

/-- The variable that is read for one of the query. -/
def copyOf (q : Query) (uri : String) (id : VarId) : Variable where
  uri := uri ++ ";bn=" ++ q.nameAt id
  name := q.nameAt id
  label := (q.table.at? id).bind Variable.label
  comment := (q.table.at? id).bind Variable.comment

/-- The table of the variables that are read for those at some places. -/
def copies (q : Query) (uri : String) (ids : List VarId) : OrderedMap Variable :=
  .ofList (ids.map fun id => (q.nameAt id, q.copyOf uri id))

/-- What has been read for a query after some of its result columns, patterns and order
keys. -/
def regaining (q : Query) (uri : String) (columns : List VarId) (ps : List Pattern)
    (ks : List OrderKey) : Query where
  uri := uri
  label := q.label
  comment := q.comment
  table := q.copies uri ((columns ++ ps.flatMap Pattern.varIds).foldl appendNew [])
  projections := columns.map q.placeOf
  clauses := ps.map fun p => .pattern (p.mapVar q.placeOf)
  order := ks.map fun k => ⟨k.direction, q.placeOf k.variableId⟩

/-- Labels do not matter for the table. -/
theorem table_regaining_relabelled (q : Query) (uri : String) (columns : List VarId)
    (ps : List Pattern) (ks : List OrderKey) :
    (q.regaining uri columns (ps.map Pattern.relabelled) ks).table =
      q.copies uri ((columns ++ ps.flatMap Pattern.varIds).foldl appendNew []) := by
  simp [regaining, List.flatMap_map, Pattern.varIds_relabelled]

/-- The query that is read for a query. -/
def regained (q : Query) (uri : String) : Query :=
  q.regaining uri q.projections q.patterns q.order

variable {q : Query} {uri : String} {ids : List VarId}

/-- A variable is used exactly if it is a result column or occurs in a pattern. -/
theorem mem_used {id : VarId} :
    id ∈ q.used ↔ id ∈ q.projections ∨ ∃ p ∈ q.patterns, id ∈ p.varIds := by
  simp [used, mem_foldl_appendNew]

/-- What comes up first is at the front of the used variables. -/
theorem front_used {occurrences rest : List VarId}
    (h : q.projections ++ q.patterns.flatMap Pattern.varIds = occurrences ++ rest) :
    occurrences.foldl appendNew [] <+: q.used := by
  rw [used, h, List.foldl_append]
  exact prefix_foldl_appendNew rest _

/-- No variable comes up twice among the used ones. -/
theorem nodup_used (q : Query) : q.used.Nodup := (firstOccurrences_distinct _).nodup

/-- The used variables are in the table. -/
theorem WellFormed.used_lt (h : q.WellFormed) {id : VarId} (hid : id ∈ q.used) :
    id < q.table.size := by
  rcases mem_used.mp hid with hid | ⟨p, hp, hid⟩
  · exact h.projections_lt id hid
  · exact h.patterns_lt hp hid

/-- What is at the front of the used variables has its final place. -/
theorem placeOf_eq (hids : ids <+: q.used) {id : VarId} (hid : id ∈ ids) :
    q.placeOf id = ids.idxOf id := by
  obtain ⟨rest, hrest⟩ := hids
  rw [placeOf, ← hrest, List.idxOf_append_of_mem hid]

/-- A used variable has a place of its own. -/
theorem placeOf_inj {i j : VarId} (hi : i ∈ q.used) (h : q.placeOf i = q.placeOf j) : i = j :=
  (List.idxOf_inj hi).mp h

/-- The copies that are read stand under the names of the variables. -/
theorem WellFormed.entries_copies (h : q.WellFormed) (hids : ids <+: q.used) :
    (q.copies uri ids).entries = ids.map fun id => (q.nameAt id, q.copyOf uri id) := by
  refine OrderedMap.entries_ofList ?_
  rw [List.map_map]
  refine (q.nodup_used.sublist hids.sublist).map_on ?_
  intro i hi j hj hij
  exact nameAt_inj (h.used_lt (hids.subset hi)) (h.used_lt (hids.subset hj)) hij

/-- The names of the copies are those of the variables. -/
theorem WellFormed.keys_copies (h : q.WellFormed) (hids : ids <+: q.used) :
    (q.copies uri ids).keys = ids.map q.nameAt := by
  simp [OrderedMap.keys, h.entries_copies hids]

/-- There is one copy for each variable. -/
theorem WellFormed.size_copies (h : q.WellFormed) (hids : ids <+: q.used) :
    (q.copies uri ids).size = ids.length := by
  simp [OrderedMap.size, h.entries_copies hids]

/-- A variable that has been read has its place in the table of the copies. -/
theorem WellFormed.placeOf_lt (h : q.WellFormed) (hids : ids <+: q.used) {id : VarId}
    (hid : id ∈ ids) : q.placeOf id < (q.copies uri ids).size := by
  rw [h.size_copies hids, placeOf_eq hids hid]
  exact List.idxOf_lt_length_of_mem hid

/-- At that place stands its copy. -/
theorem WellFormed.at?_copies (h : q.WellFormed) (hids : ids <+: q.used) {id : VarId}
    (hid : id ∈ ids) : (q.copies uri ids).at? (q.placeOf id) = some (q.copyOf uri id) := by
  rw [placeOf_eq hids hid, OrderedMap.at?, h.entries_copies hids, List.getElem?_map,
    List.getElem?_idxOf hid]
  rfl

/-- The copy stands there under the name of the variable. -/
theorem WellFormed.getElem?_keys_copies (h : q.WellFormed) (hids : ids <+: q.used) {id : VarId}
    (hid : id ∈ ids) : (q.copies uri ids).keys[q.placeOf id]? = some (q.nameAt id) := by
  rw [placeOf_eq hids hid, h.keys_copies hids, List.getElem?_map, List.getElem?_idxOf hid]
  rfl

/-- The place of a variable has its name. -/
theorem WellFormed.nameAt_placeOf (h : q.WellFormed) {r : Query} {id : VarId} (hid : id ∈ q.used)
    (htable : r.table = q.copies uri q.used) : r.nameAt (q.placeOf id) = q.nameAt id := by
  rw [nameAt, htable, h.getElem?_keys_copies List.prefix_rfl hid]
  rfl

/-- A variable that is read gets the place that it has in the end, whether it is a new one or
not. -/
theorem WellFormed.internVariable_copyOf (h : q.WellFormed) {r : Query} {id : VarId}
    (hids : appendNew ids id <+: q.used) (htable : r.table = q.copies uri ids) :
    r.internVariable (q.copyOf uri id) =
      .ok (q.placeOf id, { r with table := q.copies uri (appendNew ids id) }) := by
  have hid : id ∈ appendNew ids id := mem_appendNew.mpr (Or.inr rfl)
  have hplace : (q.copies uri (appendNew ids id)).keys[q.placeOf id]? = some (q.nameAt id) :=
    h.getElem?_keys_copies hids hid
  by_cases hmem : id ∈ ids
  · rw [appendNew, if_pos hmem] at hplace ⊢
    refine internVariable_eq_ok.mpr (Or.inl ⟨?_, ?_⟩)
    · rw [htable]
      exact hplace
    · rw [← htable]
  · have hfront : ids <+: q.used := (prefix_foldl_appendNew [id] ids).trans hids
    have hlast : appendNew ids id = ids ++ [id] := if_neg hmem
    have hnew : q.nameAt id ∉ (q.copies uri ids).keys := by
      rw [h.keys_copies hfront]
      intro hname
      obtain ⟨i, hi, hsame⟩ := List.mem_map.mp hname
      have heq := nameAt_inj (h.used_lt (hfront.subset hi)) (h.used_lt (hids.subset hid)) hsame
      exact hmem (heq ▸ hi)
    obtain ⟨v, hv⟩ := OrderedMap.exists_at? (h.used_lt (hids.subset hid))
    refine internVariable_eq_ok.mpr (Or.inr (addVariable_eq_ok.mpr ⟨?_, ?_, ?_, ?_⟩))
    · change isVarName (q.nameAt id) = true
      rw [h.nameAt_eq hv]
      exact (h.table.legal_of_at? hv).name
    · rw [htable]
      exact hnew
    · rw [htable, h.size_copies hfront, placeOf_eq hids hid, hlast,
        List.idxOf_append_of_notMem hmem]
      simp
    · have htables : q.copies uri (appendNew ids id) =
          (q.copies uri ids).insert (q.nameAt id) (q.copyOf uri id) := by
        refine OrderedMap.ext ?_
        rw [OrderedMap.entries_insert_of_not_mem _ hnew, h.entries_copies hids,
          h.entries_copies hfront, hlast, List.map_append]
        rfl
      rw [htables, htable]
      rfl

end Query

namespace Spin

/-- A slot of a pattern as it stands in a graph. -/
def slotValue : Term → Constant
  | .var id => .resource (variableNode id)
  | .resource r => .resource r
  | .literal l => .literal l

namespace Source

/-- The list member is the node of a pattern. -/
def DepictsPattern (src : Source) (member : Constant) (p : Pattern) : Prop :=
  ∃ node, member = .resource node ∧ src.graph.objects node Vocabulary.rdfType = [] ∧
    src.graph.object? node (Vocabulary.sp "subject") = some (slotValue p.subject) ∧
    src.graph.object? node (Vocabulary.sp "predicate") = some (slotValue p.predicate) ∧
    src.graph.object? node (Vocabulary.sp "object") = some (slotValue p.object)

/-- The list member is the node of an order key. -/
def DepictsKey (src : Source) (member : Constant) (k : OrderKey) : Prop :=
  ∃ node, member = .resource node ∧
    src.graph.object? node Vocabulary.rdfType = some (.iri (directionClass k.direction)) ∧
    src.graph.object? node (Vocabulary.sp "expression") =
      some (.resource (variableNode k.variableId))

/-- Every lookup of the reader finds what the query says there. -/
structure Depicts (src : Source) (q : Query) : Prop where
  uri : Iri.isAbsolute src.uri = true
  type : checkType src.graph (.iri src.uri) = .ok ()
  modifiers : modifiers.forM (checkModifier src.graph (.iri src.uri)) = .ok ()
  label : src.graph.literal? (.iri src.uri) Vocabulary.rdfsLabel = q.label
  comment : src.graph.literal? (.iri src.uri) Vocabulary.rdfsComment = q.comment
  columns : src.members (.iri src.uri) (Vocabulary.sp "resultVariables") =
    .ok (q.projections.map fun id => .resource (variableNode id))
  patterns : ∃ members, src.members (.iri src.uri) (Vocabulary.sp "where") = .ok members ∧
    List.Forall₂ src.DepictsPattern members q.patterns
  order : ∃ members, src.members (.iri src.uri) (Vocabulary.sp "orderBy") = .ok members ∧
    List.Forall₂ src.DepictsKey members q.order
  /-- The node of a variable says what the variable is called and how it is noted. -/
  named : ∀ id v, q.table.at? id = some v →
    src.variableName? (variableNode id) = some v.name ∧
      src.graph.literal? (variableNode id) Vocabulary.rdfsLabel = v.label ∧
      src.graph.literal? (variableNode id) Vocabulary.rdfsComment = v.comment ∧
      src.graph.object? (variableNode id) (Vocabulary.sp "expression") = none
  /-- No IRI is the node of a variable. -/
  iri : ∀ text, src.variableName? (.iri text) = none

/-- A blank node in the slot is not the node of a variable. -/
def Anonymous (src : Source) (x : Term) : Prop :=
  ∀ label, x = .resource (.blank label) → src.variableName? (.blank label) = none

/-- What is no blank node is not mistaken for a variable. -/
theorem anonymous_of_isBlank {src : Source} {x : Term} (h : x.isBlank = false) :
    src.Anonymous x := by
  rintro label rfl
  cases h

/-- A value that is found is what was required. -/
theorem required_eq_ok {src : Source} {node : Resource} {predicate : String} {value : Constant}
    (h : src.graph.object? node predicate = some value) :
    src.required node predicate = .ok value := by
  unfold required
  rw [h]

namespace Depicts

variable {src : Source} {q r : Query} {ids : List VarId}

/-- The node of a variable is read as its copy. -/
theorem variableOf_eq (h : src.Depicts q) (hq : q.WellFormed) {id : VarId} {v : Variable}
    (hv : q.table.at? id = some v) :
    src.variableOf (variableNode id) v.name = q.copyOf src.uri id := by
  obtain ⟨-, hlabel, hcomment, -⟩ := h.named id v hv
  unfold variableOf Query.copyOf
  rw [hlabel, hcomment, hq.nameAt_eq hv, hv]
  rfl

/-- The node of a variable is read as the variable. -/
theorem internVariable_eq_ok (h : src.Depicts q) (hq : q.WellFormed) {id : VarId} {v : Variable}
    (hv : q.table.at? id = some v) (hids : appendNew ids id <+: q.used)
    (htable : r.table = q.copies src.uri ids) :
    r.internVariable (src.variableOf (variableNode id) v.name) =
      .ok (q.placeOf id, { r with table := q.copies src.uri (appendNew ids id) }) := by
  rw [h.variableOf_eq hq hv]
  exact hq.internVariable_copyOf hids htable

/-- A slot is read as it is, with its variable in the new place. -/
theorem readTerm_eq_ok (h : src.Depicts q) (hq : q.WellFormed) {t : Term}
    (hnormal : t.IsNormal) (hanonymous : src.Anonymous t)
    (hids : t.var?.toList.foldl appendNew ids <+: q.used)
    (htable : r.table = q.copies src.uri ids) :
    src.readTerm r (slotValue t) = .ok (t.relabelled.mapVar q.placeOf,
      { r with table := q.copies src.uri (t.var?.toList.foldl appendNew ids) }) := by
  cases t with
  | var id =>
      have hid : id ∈ q.used := hids.subset (mem_appendNew.mpr (Or.inr rfl))
      obtain ⟨v, hv⟩ := OrderedMap.exists_at? (hq.used_lt hid)
      have hname := (h.named id v hv).1
      have hintern := h.internVariable_eq_ok hq hv hids htable
      unfold readTerm
      simp only [slotValue, hname]
      exact Outcome.bind_eq_ok.mpr ⟨_, Outcome.mapError_eq_ok.mpr hintern, rfl⟩
  | resource node =>
      cases node with
      | iri text =>
          rw [slotValue, readTerm, h.iri]
          change Except.ok (_, r) = Except.ok (_, { r with table := q.copies src.uri ids })
          rw [← htable]
          rfl
      | blank label =>
          have hname := hanonymous label rfl
          obtain ⟨label', hlabel⟩ := Term.exists_ofLabel_eq label
          rw [Term.relabelled, slotValue, readTerm]
          simp only [hname, hlabel]
          change Except.ok (_, r) = Except.ok (_, { r with table := q.copies src.uri ids })
          rw [← htable]
          rfl
  | literal l =>
      have hl : l.normal = l := hnormal
      rw [slotValue, readTerm, hl]
      change Except.ok (_, r) = Except.ok (_, { r with table := q.copies src.uri ids })
      rw [← htable]
      rfl

/-- A slot is read with its variable at the new place, and its copy is in the table from then on. -/
theorem readSlot_eq_ok (h : src.Depicts q) (hq : q.WellFormed) {t : Term} {node : Resource}
    {predicate : String} (hvalue : src.graph.object? node predicate = some (slotValue t))
    (hnormal : t.IsNormal) (hanonymous : src.Anonymous t)
    (hids : t.var?.toList.foldl appendNew ids <+: q.used)
    (htable : r.table = q.copies src.uri ids) :
    src.readSlot node predicate r = .ok (t.relabelled.mapVar q.placeOf,
      { r with table := q.copies src.uri (t.var?.toList.foldl appendNew ids) }) := by
  rw [readSlot, required_eq_ok hvalue, Outcome.ok_bind]
  exact h.readTerm_eq_ok hq hnormal hanonymous hids htable

/-- A result column is read as the next column. -/
theorem column_step (h : src.Depicts q) (hq : q.WellFormed) {done rest : List VarId} {id : VarId}
    (hcolumns : q.projections = done ++ id :: rest) :
    src.readColumn (q.regaining src.uri done [] []) (.resource (variableNode id)) =
      .ok (q.regaining src.uri (done ++ [id]) [] []) := by
  have hmem : id ∈ q.projections := by simp [hcolumns]
  have hnew : id ∉ done := by
    have hnodup := hcolumns ▸ hq.projections_nodup
    intro hid
    exact (List.nodup_append.mp hnodup).2.2 id hid id List.mem_cons_self rfl
  have hsplit : q.projections ++ q.patterns.flatMap Pattern.varIds =
      (done ++ [id]) ++ (rest ++ q.patterns.flatMap Pattern.varIds) := by simp [hcolumns]
  have hfront : appendNew (done.foldl appendNew []) id <+: q.used := by
    have hall := Query.front_used hsplit
    rwa [List.foldl_append] at hall
  obtain ⟨v, hv⟩ := OrderedMap.exists_at? (hq.projections_lt id hmem)
  obtain ⟨hname, -, -, hexpression⟩ := h.named id v hv
  have htable : (q.regaining src.uri done [] []).table =
      q.copies src.uri (done.foldl appendNew []) := by simp [Query.regaining]
  have hplace : q.placeOf id <
      (q.copies src.uri (appendNew (done.foldl appendNew []) id)).size :=
    hq.placeOf_lt hfront (mem_appendNew.mpr (Or.inr rfl))
  have hprojections : appendNew (done.map q.placeOf) (q.placeOf id) =
      (done ++ [id]).map q.placeOf := by
    rw [appendNew, if_neg, List.map_append]
    · rfl
    · intro hold
      obtain ⟨i, hi, hsame⟩ := List.mem_map.mp hold
      have hused : i ∈ q.used := Query.mem_used.mpr (Or.inl (by simp [hcolumns, hi]))
      exact hnew (Query.placeOf_inj hused hsame ▸ hi)
  refine readColumn_eq_ok.mpr ⟨_, v.name, _, _, _, rfl, hexpression, hname,
    h.internVariable_eq_ok hq hv hfront htable, Query.project_eq_ok.mpr ⟨hplace, rfl, ?_⟩⟩
  change _ = { q.regaining src.uri done [] [] with
    table := q.copies src.uri (appendNew (done.foldl appendNew []) id)
    projections := appendNew (done.map q.placeOf) (q.placeOf id) }
  rw [hprojections]
  simp [Query.regaining]

/-- A list member that is the node of a pattern is read as the next pattern. -/
theorem pattern_step (h : src.Depicts q) (hq : q.WellFormed)
    {done rest : List Pattern} {p : Pattern} {member : Constant}
    (hmade : (Clause.pattern p).Made)
    (hslots : ∀ x ∈ [p.subject, p.predicate, p.object], src.Anonymous x)
    (hmember : src.DepictsPattern member p) (hpatterns : q.patterns = done ++ p :: rest) :
    src.readPattern (q.regaining src.uri q.projections (done.map Pattern.relabelled) []) member =
      .ok (q.regaining src.uri q.projections ((done ++ [p]).map Pattern.relabelled) []) := by
  obtain ⟨node, rfl, htype, hsubject, hpredicate, hobject⟩ := hmember
  obtain ⟨hs, hp, ho⟩ := Clause.made_pattern_iff.mp hmade
  have hmem : p ∈ q.patterns := by simp [hpatterns]
  have hsplit : q.projections ++ q.patterns.flatMap Pattern.varIds =
      (q.projections ++ (done ++ [p]).flatMap Pattern.varIds) ++
        rest.flatMap Pattern.varIds := by simp [hpatterns]
  have hids := Query.front_used hsplit
  -- the table after the patterns that are done, and after each slot
  let ids := (q.projections ++ done.flatMap Pattern.varIds).foldl appendNew []
  let ids₁ := p.subject.var?.toList.foldl appendNew ids
  let ids₂ := p.predicate.var?.toList.foldl appendNew ids₁
  let ids₃ := p.object.var?.toList.foldl appendNew ids₂
  have hlast : (q.projections ++ (done ++ [p]).flatMap Pattern.varIds).foldl appendNew [] =
      ids₃ := by
    simp [ids, ids₁, ids₂, ids₃, Pattern.varIds_eq_append]
  rw [hlast] at hids
  have hids₂ : ids₂ <+: q.used := (prefix_foldl_appendNew _ ids₂).trans hids
  have hids₁ : ids₁ <+: q.used := (prefix_foldl_appendNew _ ids₁).trans hids₂
  have hsubjectNormal := Term.isNormal_of_isLiteral hs
  have hpredicateNormal := Term.isNormal_of_isLiteral hp
  have hmade' := hmade.pattern_relabelled.pattern_mapVar q.placeOf
  have hlt : ∀ id ∈ (Clause.pattern (p.relabelled.mapVar q.placeOf)).varIds,
      id < (q.copies src.uri ids₃).size := by
    intro id hid
    obtain ⟨p', hp', hid⟩ := Clause.mem_varIds.mp hid
    rw [List.mem_singleton.mp hp', Pattern.varIds_mapVar, Pattern.varIds_relabelled] at hid
    obtain ⟨i, hi, rfl⟩ := List.mem_map.mp hid
    refine hq.placeOf_lt hids ?_
    rw [← hlast]
    simp [mem_foldl_appendNew, hi]
  have htable := q.table_regaining_relabelled src.uri q.projections done []
  have htable' := q.table_regaining_relabelled src.uri q.projections (done ++ [p]) []
  rw [hlast] at htable'
  refine readPattern_eq_ok.mpr ⟨node, _, _, _, _, _, _, p.relabelled.mapVar q.placeOf, rfl,
    by simp [htype],
    h.readSlot_eq_ok hq hsubject hsubjectNormal (hslots _ (by simp)) hids₁ htable,
    h.readSlot_eq_ok hq hpredicate hpredicateNormal (hslots _ (by simp)) hids₂ rfl,
    h.readSlot_eq_ok hq hobject ho (hslots _ (by simp)) hids rfl,
    Pattern.make_eq_ok.mpr ⟨?_, ?_, rfl⟩, Query.pushClause_eq_ok.mpr ⟨?_, ?_⟩⟩
  · exact ((Term.isLiteral_mapVar _ _).trans (Term.isLiteral_relabelled _)).trans hs
  · exact ((Term.isLiteral_mapVar _ _).trans (Term.isLiteral_relabelled _)).trans hp
  · exact (Query.checkClause_eq_ok_of_made hmade').mpr hlt
  · rw [← htable', List.map_append]
    simp [Query.regaining]

/-- A list member that is the node of an order key is read as the next order key. -/
theorem key_step (h : src.Depicts q) (hq : q.WellFormed) {k : OrderKey} {member : Constant}
    (hk : k.variableId ∈ q.used) (hmember : src.DepictsKey member k)
    (htable : r.table = q.copies src.uri q.used) :
    src.readKey r member =
      .ok { r with order := r.order ++ [⟨k.direction, q.placeOf k.variableId⟩] } := by
  obtain ⟨node, rfl, htype, hexpression⟩ := hmember
  obtain ⟨v, hv⟩ := OrderedMap.exists_at? (hq.used_lt hk)
  have hname := (h.named k.variableId v hv).1
  have hkey : (q.copies src.uri q.used).keys[q.placeOf k.variableId]? = some v.name :=
    hq.nameAt_eq hv ▸ hq.getElem?_keys_copies List.prefix_rfl hk
  have hdirection : src.readDirection node =
      .ok (k.direction, .resource (variableNode k.variableId)) := by
    have hkind : (src.graph.object? node Vocabulary.rdfType).bind Constant.iri? =
        some (directionClass k.direction) := by
      rw [htype]
      rfl
    have hne : some (directionClass .descending) ≠ some (Vocabulary.sp "Asc") := by decide +kernel
    unfold readDirection
    simp only [hkind, required_eq_ok hexpression]
    cases k.direction with
    | ascending => exact if_pos rfl
    | descending => exact (if_neg hne).trans (if_pos rfl)
  rw [← htable] at hkey
  have hvariable : src.orderVariable r (.resource (variableNode k.variableId)) =
      .ok (q.placeOf k.variableId) := by
    have hfound : r.idOf? v.name = some (q.placeOf k.variableId) :=
      OrderedMap.idxOf?_eq_some_iff.mpr hkey
    unfold orderVariable
    simp only [Constant.resource?, Option.bind_some, hname, hfound]
  have hlt : q.placeOf k.variableId < r.table.size := by
    rw [htable]
    exact hq.placeOf_lt List.prefix_rfl hk
  exact Outcome.bind_eq_ok.mpr ⟨node, rfl, Outcome.bind_eq_ok.mpr ⟨_, hdirection,
    Outcome.mapError_eq_ok.mpr (Outcome.bind_eq_ok.mpr ⟨_, hvariable,
      Query.pushOrder_eq_ok.mpr ⟨hlt, rfl⟩⟩)⟩⟩

section Whole

variable (h : src.Depicts q) (hq : q.WellFormed)
  (hmade : ∀ p ∈ q.patterns, (Clause.pattern p).Made)
  (hslots : ∀ p ∈ q.patterns, ∀ x ∈ [p.subject, p.predicate, p.object], src.Anonymous x)
include h hq hmade hslots

/-- The result columns and the patterns are read, and the order keys are left. -/
theorem readQuery_eq_keys :
    src.graph.readQuery src.uri src.limit = (do
      (← src.members (.iri src.uri) (Vocabulary.sp "orderBy")).foldlM src.readKey
        (q.regaining src.uri q.projections (q.patterns.map Pattern.relabelled) [])) := by
  obtain ⟨elements, helements, hpatterns⟩ := h.patterns
  have huri : SpinError.ofTerm (checkIri src.uri) = .ok src.uri :=
    Outcome.mapError_eq_ok.mpr (checkIri_eq_ok.mpr ⟨h.uri, rfl⟩)
  have hstart : ({ uri := src.uri, label := q.label, comment := q.comment } : Query) =
      q.regaining src.uri [] [] [] := rfl
  have hcolumns : List.Forall₂ (fun m id => m = Constant.resource (variableNode id))
      (q.projections.map fun id => .resource (variableNode id)) q.projections := by
    rw [List.forall₂_map_left_iff]
    exact List.forall₂_same.mpr fun _ _ => rfl
  obtain ⟨q₁, hq₁, rfl⟩ := Outcome.exists_foldlM_eq_ok (f := src.readColumn)
    (fun done r => r = q.regaining src.uri done [] []) hcolumns
    (by
      intro done id rest hsplit _ _ heq heq'
      subst heq
      subst heq'
      exact ⟨_, h.column_step hq hsplit, rfl⟩) rfl
  obtain ⟨q₂, hq₂, rfl⟩ := Outcome.exists_foldlM_eq_ok (f := src.readPattern)
    (fun done r => r = q.regaining src.uri q.projections (done.map Pattern.relabelled) [])
    hpatterns
    (by
      intro done p rest hsplit m _ hm heq
      subst heq
      have hp : p ∈ q.patterns := by simp [hsplit]
      exact ⟨_, h.pattern_step hq (hmade p hp) (hslots p hp) hm hsplit, rfl⟩) rfl
  rw [List.map_nil] at hq₂
  unfold Graph.readQuery
  rw [huri, Outcome.ok_bind]
  simp only []
  rw [h.type, Outcome.ok_bind, h.modifiers, Outcome.ok_bind, h.label, h.comment, hstart,
    h.columns, Outcome.ok_bind, hq₁, Outcome.ok_bind, helements, Outcome.ok_bind, hq₂,
    Outcome.ok_bind]

/-- A query whose blank nodes are not the nodes of variables is read, with its labels without
their leads. -/
theorem readQuery_eq_relabelled (horder : ∀ k ∈ q.order, k.variableId ∈ q.used) :
    src.graph.readQuery src.uri src.limit =
      .ok (q.regaining src.uri q.projections (q.patterns.map Pattern.relabelled) q.order) := by
  obtain ⟨keys, hkeys, horders⟩ := h.order
  obtain ⟨q₃, hq₃, rfl⟩ := Outcome.exists_foldlM_eq_ok (f := src.readKey)
    (fun done r => r =
      q.regaining src.uri q.projections (q.patterns.map Pattern.relabelled) done) horders
    (by
      intro done k rest hsplit m _ hm heq
      subst heq
      refine ⟨_, h.key_step hq (horder k (by simp [hsplit])) hm
        (q.table_regaining_relabelled src.uri q.projections q.patterns done), ?_⟩
      simp [Query.regaining]) rfl
  rw [h.readQuery_eq_keys hq hmade hslots, hkeys, Outcome.ok_bind, hq₃]

end Whole

/-- **A query is regained from a source that depicts it.** -/
theorem readQuery_eq_ok (h : src.Depicts q) (hq : q.WellFormed) (hblank : q.NoBlank)
    (hmade : ∀ p ∈ q.patterns, (Clause.pattern p).Made)
    (horder : ∀ k ∈ q.order, k.variableId ∈ q.used) :
    src.graph.readQuery src.uri src.limit = .ok (q.regained src.uri) := by
  have hslots : ∀ p ∈ q.patterns, ∀ x ∈ [p.subject, p.predicate, p.object],
      src.Anonymous x := fun p hp x hx => anonymous_of_isBlank (hblank p hp x hx)
  rw [h.readQuery_eq_relabelled hq hmade hslots horder, hblank.map_relabelled]
  rfl

end Depicts

end Source

end Spin

end SparqlCompose
