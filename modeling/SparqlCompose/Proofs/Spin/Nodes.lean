import Mathlib
import SparqlCompose.Proofs.Built
import SparqlCompose.Proofs.Sparql.Tree
import SparqlCompose.Proofs.Spin.Lookup

/-!
# The nodes of a description

A description makes a blank node for each variable, each pattern, each order key and each cell of a
list (`Spin.Part`).  No two of them are the same node, and about each of them the description says
what the part is and nothing else.

The blank nodes of the patterns are written with the labels that they have.  Nothing keeps these
apart from the nodes that the description makes: `_:v0` in a pattern is the node of the first
variable, and a reader of the description takes it for this variable (`Query.claimed`).  Every other
slot is read as it is (`Query.describe_blankNodes`).
-/

namespace SparqlCompose

open SparqlCompose.Graph

namespace Spin

/-! ### Parts and their nodes -/

/-- The rows of cells of a description, in the order of their numbers. -/
inductive Row where
  | columnCells
  | elements
  | elementCells
  | keys
  | keyCells
deriving DecidableEq, Repr

/-- What a description makes a blank node for: a variable, or a cell of a row. -/
inductive Part where
  | var (id : VarId)
  | cell (row : Row) (i : Nat)
deriving DecidableEq, Repr

/-- The number of list cells, patterns and order keys. -/
def cellCount (q : Query) : Nat :=
  q.projections.length + 2 * q.clauses.length + 2 * q.order.length

namespace Row

/-- The number of cells in the row. -/
def length (q : Query) : Row → Nat
  | columnCells => q.projections.length
  | elements => q.clauses.length
  | elementCells => q.clauses.length
  | keys => q.order.length
  | keyCells => q.order.length

/-- The number of the first cell. -/
def first (q : Query) : Row → Nat
  | columnCells => 1
  | elements => firstElement q
  | elementCells => firstElementCell q
  | keys => firstKey q
  | keyCells => firstKeyCell q

/-- What a description says about the cells. -/
def facts (q : Query) : Row → List (List (String × Constant))
  | columnCells => listFacts 1 (columnNodes q)
  | elements => q.patterns.map patternFacts
  | elementCells => listFacts (firstElementCell q) (elementNodes q)
  | keys => q.order.map keyFacts
  | keyCells => listFacts (firstKeyCell q) (keyNodes q)

variable {q : Query} {uri : String}

/-- Something is said about each cell of a row. -/
theorem length_facts (hflat : q.Flat) (row : Row) : (row.facts q).length = row.length q := by
  cases row with
  | columnCells => simp [facts, length, length_listFacts, columnNodes]
  | elements => simp [facts, length, hflat.clauses_eq]
  | elementCells => simp [facts, length, length_listFacts, elementNodes, length_cells]
  | keys => simp [facts, length]
  | keyCells => simp [facts, length, length_listFacts, keyNodes, length_cells]

/-- The numbers of the rows follow on one another. -/
theorem first_eq (q : Query) :
    first q elements = q.projections.length + 1 ∧
      first q elementCells = first q elements + q.clauses.length ∧
      first q keys = first q elementCells + q.clauses.length ∧
      first q keyCells = first q keys + q.order.length := by
  refine ⟨?_, rfl, rfl, rfl⟩
  simp [first, firstElement, columnNodes]

/-- No number is in two rows. -/
theorem number_inj {row row' : Row} {i j : Nat} (hi : i < row.length q) (hj : j < row'.length q)
    (h : row.first q + i = row'.first q + j) : row = row' ∧ i = j := by
  obtain ⟨helements, helementCells, hkeys, hkeyCells⟩ := first_eq q
  have hcolumns : first q columnCells = 1 := rfl
  cases row <;> cases row' <;> simp only [length] at hi hj
  all_goals first
    | exact ⟨rfl, by omega⟩
    | exact absurd h (by omega)

/-- Every number up to the last is in a row. -/
theorem exists_number_iff {n : Nat} :
    (∃ row, ∃ i < length q row, row.first q + i = n) ↔ 1 ≤ n ∧ n ≤ cellCount q := by
  obtain ⟨helements, helementCells, hkeys, hkeyCells⟩ := first_eq q
  have hcolumns : first q columnCells = 1 := rfl
  constructor
  · rintro ⟨row, i, hi, rfl⟩
    cases row <;> simp only [length] at hi <;> unfold cellCount <;> omega
  · rintro ⟨hone, hlast⟩
    unfold cellCount at hlast
    have hrow : ∀ row : Row, row.first q ≤ n → n < row.first q + row.length q →
        ∃ row, ∃ i < length q row, row.first q + i = n := by
      intro row hle hlt
      exact ⟨row, n - row.first q, by omega, by omega⟩
    rcases lt_or_ge n (first q elements) with h | h
    · exact hrow columnCells (by omega) (by simp only [length]; omega)
    rcases lt_or_ge n (first q elementCells) with h' | h'
    · exact hrow elements h (by simp only [length]; omega)
    rcases lt_or_ge n (first q keys) with h | h
    · exact hrow elementCells h' (by simp only [length]; omega)
    rcases lt_or_ge n (first q keyCells) with h' | h'
    · exact hrow keys h (by simp only [length]; omega)
    · exact hrow keyCells h' (by simp only [length]; omega)

/-- Something is said about each cell. -/
theorem length_cellFacts (hflat : q.Flat) : (cellFacts q).length = cellCount q := by
  have hlength := length_facts hflat
  have hcolumns := hlength columnCells
  have helements := hlength elements
  have helementCells := hlength elementCells
  have hkeys := hlength keys
  have hkeyCells := hlength keyCells
  simp only [facts, length] at hcolumns helements helementCells hkeys hkeyCells
  simp only [cellFacts, List.length_append, cellCount]
  omega

/-- About a cell of a row is said what its row says about it. -/
theorem about_cell (hflat : q.Flat) (row : Row) {i : Nat} (hi : i < row.length q) :
    about (cell (row.first q + i)) (description q uri) = (row.facts q)[i]?.getD [] := by
  rw [← length_facts hflat] at hi
  have hfacts := List.getElem?_eq_getElem hi
  rw [hfacts, Option.getD_some]
  cases row with
  | columnCells => exact about_columnCell hflat i _ hfacts
  | elementCells => exact about_elementCell hflat i _ hfacts
  | keyCells => exact about_keyCell hflat i _ hfacts
  | elements =>
      obtain ⟨p, hp, heq⟩ := Option.map_eq_some_iff.mp ((List.getElem?_map ..).symm.trans hfacts)
      rw [← heq]
      exact about_element hflat hp
  | keys =>
      obtain ⟨k, hk, heq⟩ := Option.map_eq_some_iff.mp ((List.getElem?_map ..).symm.trans hfacts)
      rw [← heq]
      exact about_key hflat hk

end Row

namespace Part

/-- The query has the part. -/
def In (q : Query) : Part → Prop
  | .var id => id < q.table.size
  | .cell row i => i < row.length q

/-- The node of the part. -/
def node (q : Query) : Part → Resource
  | .var id => variableNode id
  | .cell row i => Spin.cell (row.first q + i)

/-- What a description says about the part. -/
def facts (q : Query) : Part → List (String × Constant)
  | .var id => ((q.table.at? id).map variableFacts).getD []
  | .cell row i => (row.facts q)[i]?.getD []

variable {q : Query} {uri : String}

/-- **Different parts have different nodes.** -/
theorem node_inj {a b : Part} (ha : a.In q) (hb : b.In q) (h : a.node q = b.node q) : a = b := by
  cases a with
  | var id =>
      cases b with
      | var id' => exact congrArg var (variableNode_injective h)
      | cell row i => exact absurd h (variableNode_ne_cell _ _)
  | cell row i =>
      cases b with
      | var id => exact absurd h.symm (variableNode_ne_cell _ _)
      | cell row' j =>
          obtain ⟨rfl, rfl⟩ := Row.number_inj ha hb (cell_injective h)
          rfl

/-- The labels that the nodes of the parts have. -/
theorem exists_node_iff {label : String} :
    (∃ a, In q a ∧ a.node q = .blank label) ↔
      (∃ id < q.table.size, label = "v" ++ toString id) ∨
        ∃ n, 1 ≤ n ∧ n ≤ cellCount q ∧ label = "c" ++ toString n := by
  constructor
  · rintro ⟨a, ha, hnode⟩
    cases a with
    | var id => exact Or.inl ⟨id, ha, (Resource.blank.inj hnode).symm⟩
    | cell row i =>
        obtain ⟨hone, hlast⟩ := Row.exists_number_iff.mp ⟨row, i, ha, rfl⟩
        exact Or.inr ⟨_, hone, hlast, (Resource.blank.inj hnode).symm⟩
  · rintro (⟨id, hid, rfl⟩ | ⟨n, hone, hlast, rfl⟩)
    · exact ⟨.var id, hid, rfl⟩
    · obtain ⟨row, i, hi, rfl⟩ := Row.exists_number_iff.mpr ⟨hone, hlast⟩
      exact ⟨.cell row i, hi, rfl⟩

/-- About the node of a part the description says what the part is. -/
theorem about_node (hflat : q.Flat) {a : Part} (ha : a.In q) :
    about (a.node q) (description q uri) = a.facts q := by
  cases a with
  | cell row i => exact row.about_cell hflat ha
  | var id =>
      obtain ⟨v, hv⟩ := OrderedMap.exists_at? ha
      rw [facts, hv]
      exact about_description_variable hflat hv

/-- About every other node but the one of the query it says nothing. -/
theorem about_other (hflat : q.Flat) {s : Resource} (hroot : s ≠ .iri uri)
    (hs : ∀ a : Part, a.In q → a.node q ≠ s) : about s (description q uri) = [] := by
  have hvariables : about s (q.table.values.mapIdx variableTriples).flatten = [] := by
    refine (tells_variables q.table.values).about_other s ?_
    intro id hid
    rw [List.length_map, OrderedMap.length_values] at hid
    exact (hs (.var id) hid).symm
  have hcells : about s (cellTriples q) = [] := by
    refine (tells_cellTriples hflat).about_other s ?_
    intro i hi
    rw [Row.length_cellFacts hflat] at hi
    obtain ⟨row, j, hj, hnumber⟩ := (Row.exists_number_iff (q := q) (n := 1 + i)).mpr (by omega)
    have hne := hs (.cell row j) hj
    rw [node, hnumber] at hne
    exact hne.symm
  rw [about_description_of_ne hroot, hvariables, hcells, List.append_nil]

end Part

/-- No cell is called like a variable. -/
theorem Row.valuesOf_varName {q : Query} {row : Row} {fs : List (String × Constant)}
    (h : fs ∈ row.facts q) : valuesOf (Vocabulary.sp "varName") fs = [] := by
  have hlist : ∀ {ms : List Constant} {n : Nat}, fs ∈ listFacts n ms →
      valuesOf (Vocabulary.sp "varName") fs = [] := by
    intro ms
    induction ms with
    | nil =>
        intro n hfs
        cases hfs
    | cons m ms ih =>
        intro n hfs
        rcases List.mem_cons.mp hfs with rfl | hfs
        · have hfirst : Vocabulary.rdfFirst ≠ Vocabulary.sp "varName" := by decide +kernel
          have hrest : Vocabulary.rdfRest ≠ Vocabulary.sp "varName" := by decide +kernel
          simp [hfirst, hrest]
        · exact ih hfs
  cases row with
  | columnCells => exact hlist h
  | elementCells => exact hlist h
  | keyCells => exact hlist h
  | elements =>
      obtain ⟨p, -, rfl⟩ := List.mem_map.mp h
      simp [patternFacts]
  | keys =>
      obtain ⟨k, -, rfl⟩ := List.mem_map.mp h
      simp [keyFacts]

end Spin

open Spin

/-! ### Blank nodes that are taken for variables -/

namespace Query

variable {q : Query} {uri : String}

/-- The variable whose node has the label. -/
def claimant (q : Query) (label : String) : Option VarId :=
  (List.range q.table.size).find? fun id => decide (variableNode id = .blank label)

/-- Only a label that is the letter and the number of a variable is claimed, by that variable. -/
theorem claimant_eq_some_iff {label : String} {id : VarId} :
    q.claimant label = some id ↔ id < q.table.size ∧ label = "v" ++ toString id := by
  have hnode : ∀ {label id}, q.claimant label = some id → variableNode id = .blank label := by
    intro label id h
    simpa using List.find?_some h
  constructor
  · intro h
    exact ⟨List.mem_range.mp (List.mem_of_find?_eq_some h), (Resource.blank.inj (hnode h)).symm⟩
  · rintro ⟨hid, rfl⟩
    cases hfound : q.claimant ("v" ++ toString id) with
    | none =>
        have hnone := List.find?_eq_none.mp hfound id (List.mem_range.mpr hid)
        simp [variableNode] at hnone
    | some id' => exact congrArg some (variableNode_injective (hnode hfound))

/-- The slot as a reader of the description takes it: a blank node that is the node of a variable
is the variable. -/
def claimed (q : Query) : Term → Term
  | .resource (.blank label) => (q.claimant label).elim (.resource (.blank label)) .var
  | x => x

/-- The pattern as a reader of the description takes it. -/
def claimedPattern (q : Query) (p : Pattern) : Pattern :=
  ⟨q.claimed p.subject, q.claimed p.predicate, q.claimed p.object⟩

/-- The query with its patterns as a reader of the description takes them. -/
def withClaims (q : Query) : Query :=
  { q with clauses := (q.patterns.map q.claimedPattern).map .pattern }

/-- A slot stays as it is, unless it is the node of a variable, which takes its place. -/
theorem claimed_cases (q : Query) (x : Term) :
    q.claimed x = x ∨ ∃ id < q.table.size, x = .resource (variableNode id) ∧
      q.claimed x = .var id := by
  cases x with
  | var id => exact Or.inl rfl
  | literal l => exact Or.inl rfl
  | resource r =>
      cases r with
      | iri text => exact Or.inl rfl
      | blank label =>
          cases hclaim : q.claimant label with
          | none => exact Or.inl (by simp [claimed, hclaim])
          | some id =>
              obtain ⟨hid, hlabel⟩ := claimant_eq_some_iff.mp hclaim
              exact Or.inr ⟨id, hid, by rw [hlabel, variableNode], by simp [claimed, hclaim]⟩

/-- In the graph the slot is the same. -/
theorem slotValue_claimed (q : Query) (x : Term) : slotValue (q.claimed x) = slotValue x := by
  rcases q.claimed_cases x with hsame | ⟨id, -, rfl, hvar⟩
  · rw [hsame]
  · rw [hvar]
    rfl

/-- A variable that claims a slot is in the table. -/
theorem has_claimed {x : Term} (h : q.Has x) : q.Has (q.claimed x) := by
  rcases q.claimed_cases x with hsame | ⟨id, hid, -, hvar⟩
  · rwa [hsame]
  · rw [hvar]
    intro i hi
    exact Option.some.inj hi ▸ hid

/-- No claimed slot becomes a literal. -/
theorem isLiteral_claimed {x : Term} (h : x.isLiteral = false) :
    (q.claimed x).isLiteral = false := by
  rcases q.claimed_cases x with hsame | ⟨id, -, -, hvar⟩
  · rwa [hsame]
  · rw [hvar]
    rfl

/-- A slot in normal form stays so. -/
theorem isNormal_claimed {x : Term} (h : x.IsNormal) : (q.claimed x).IsNormal := by
  rcases q.claimed_cases x with hsame | ⟨id, -, -, hvar⟩
  · rwa [hsame]
  · rw [hvar]
    trivial

/-- With the claims there are no blocks. -/
theorem flat_withClaims (q : Query) : q.withClaims.Flat := by
  intro c hc
  obtain ⟨p, -, rfl⟩ := List.mem_map.mp hc
  exact ⟨p, rfl⟩

/-- The patterns are claimed one by one. -/
theorem patterns_withClaims (q : Query) :
    q.withClaims.patterns = q.patterns.map q.claimedPattern := patterns_eq rfl

/-- A valid query stays valid with the claims. -/
theorem WellFormed.withClaims (h : q.WellFormed) : q.withClaims.WellFormed where
  table := h.table
  projections_nodup := h.projections_nodup
  projections_lt := h.projections_lt
  order_lt := h.order_lt
  endpoints_nodup := h.endpoints_nodup
  active_mem := h.active_mem
  made := by
    intro c hc
    obtain ⟨p', hp', rfl⟩ := List.mem_map.mp hc
    obtain ⟨p, hp, rfl⟩ := List.mem_map.mp hp'
    obtain ⟨hs, hm, ho⟩ := Clause.made_pattern_iff.mp (h.made_pattern hp)
    exact Clause.made_pattern_iff.mpr
      ⟨isLiteral_claimed hs, isLiteral_claimed hm, isNormal_claimed ho⟩
  clauses_lt := by
    intro c hc id hid
    obtain ⟨p', hp', rfl⟩ := List.mem_map.mp hc
    obtain ⟨p, hp, rfl⟩ := List.mem_map.mp hp'
    obtain ⟨hs, hm, ho⟩ := h.holds hp
    have hholds : q.Holds (q.claimedPattern p) := ⟨has_claimed hs, has_claimed hm, has_claimed ho⟩
    obtain ⟨p'', hp'', hid⟩ := Clause.mem_varIds.mp hid
    rw [List.mem_singleton.mp hp''] at hid
    exact holds_iff.mp hholds id hid

/-- It has as many clauses as before. -/
theorem length_withClaims (hflat : q.Flat) :
    q.withClaims.clauses.length = q.clauses.length := by
  rw [hflat.clauses_eq, List.length_map]
  simp [withClaims]

/-- **Claims do not show in the description**: a blank node and a variable that have one node are
described alike. -/
theorem description_withClaims (hflat : q.Flat) :
    description q.withClaims uri = description q uri := by
  have helements : elementTriples q.withClaims = elementTriples q := by
    refine congrArg List.flatten (List.ext_getElem? fun i => ?_)
    rw [patterns_withClaims, List.getElem?_mapIdx, List.getElem?_mapIdx, List.getElem?_map]
    cases q.patterns[i]? with
    | none => rfl
    | some p =>
        simp only [Option.map_some, slotTriples, claimedPattern, slotValue_claimed]
        rfl
  unfold description
  rw [helements]
  simp only [firstElementCell, firstKey, firstKeyCell, elementNodes, keyNodes,
    length_withClaims hflat]
  rfl

/-! ### Reading the description -/

/-- A blank node that is left is not the node of a variable. -/
theorem anonymous_claimed (hflat : q.Flat) (limit : Nat) (x : Term) :
    (sourceOf q uri limit).Anonymous (q.claimed x) := by
  intro label hx
  have hclaim : q.claimant label = none := by
    rcases q.claimed_cases x with hsame | ⟨id, -, -, hvar⟩
    · rw [hsame] at hx
      subst hx
      cases hfound : q.claimant label with
      | none => rfl
      | some id => simp [claimed, hfound] at hsame
    · rw [hvar] at hx
      cases hx
  have hnone : valuesOf (Vocabulary.sp "varName") (about (.blank label) (description q uri)) =
      [] := by
    by_cases hpart : ∃ a : Part, a.In q ∧ a.node q = .blank label
    · obtain ⟨a, ha, hnode⟩ := hpart
      cases a with
      | var id =>
          have hsome := claimant_eq_some_iff.mpr ⟨ha, (Resource.blank.inj hnode).symm⟩
          rw [hclaim] at hsome
          cases hsome
      | cell row i =>
          have hi : i < (row.facts q).length := by
            rw [Row.length_facts hflat]
            exact ha
          rw [← hnode, Part.about_node hflat ha, Part.facts, List.getElem?_eq_getElem hi,
            Option.getD_some]
          exact Row.valuesOf_varName (List.getElem_mem hi)
    · rw [Part.about_other hflat (by simp) fun a ha hnode => hpart ⟨a, ha, hnode⟩]
      rfl
  rw [Source.variableName?, literal?, sourceOf, object?_ofList, hnone]
  rfl

/-- The description of a query depicts it with the claims. -/
theorem depicts_withClaims (hflat : q.Flat) (huri : Iri.isAbsolute uri = true) {limit : Nat}
    (hcolumns : q.projections.length ≤ limit) (hclauses : q.clauses.length ≤ limit)
    (horder : q.order.length ≤ limit) : (sourceOf q uri limit).Depicts q.withClaims := by
  rw [← length_withClaims hflat] at hclauses
  have hdepicts := depicts_description (q := q.withClaims) q.flat_withClaims huri hcolumns
    hclauses horder
  rwa [sourceOf, description_withClaims hflat] at hdepicts

/-- What is left as a blank node then is not the node of a variable. -/
theorem anonymous_withClaims (hflat : q.Flat) (limit : Nat) : ∀ p ∈ q.withClaims.patterns,
    ∀ x ∈ [p.subject, p.predicate, p.object], (sourceOf q uri limit).Anonymous x := by
  intro p hp x hx
  rw [patterns_withClaims] at hp
  obtain ⟨p, -, rfl⟩ := List.mem_map.mp hp
  have hclaimed : x ∈ [p.subject, p.predicate, p.object].map q.claimed := hx
  obtain ⟨y, -, rfl⟩ := List.mem_map.mp hclaimed
  exact anonymous_claimed hflat limit y

/-- The variables of the query are still used. -/
theorem used_subset_withClaims (q : Query) : q.used ⊆ q.withClaims.used := by
  intro id hid
  rcases mem_used.mp hid with hid | ⟨p, hp, hid⟩
  · exact mem_used.mpr (Or.inl hid)
  · refine mem_used.mpr (Or.inr ⟨q.claimedPattern p, ?_, ?_⟩)
    · rw [patterns_withClaims]
      exact List.mem_map_of_mem hp
    · obtain ⟨x, hx, hvar⟩ := List.mem_filterMap.mp hid
      have hclaimed : q.claimed x = x := by
        cases x with
        | var i => rfl
        | resource r => cases hvar
        | literal l => rfl
      refine List.mem_filterMap.mpr ⟨q.claimed x, ?_, by rw [hclaimed, hvar]⟩
      exact List.mem_map_of_mem (f := q.claimed) hx

/-- A pattern with its variables in their places says the same by name. -/
theorem WellFormed.triple_placeOf (h : q.WellFormed) {r : Query}
    (htable : r.table = q.copies uri q.used) {p : Pattern} (hp : ∀ id ∈ p.varIds, id ∈ q.used) :
    r.triple (p.mapVar q.placeOf) = q.triple p := by
  have hnode : ∀ x ∈ [p.subject, p.predicate, p.object],
      r.node (x.mapVar q.placeOf) = q.node x := by
    intro x hx
    cases x with
    | resource s => rfl
    | literal l => rfl
    | var id =>
        have hid : id ∈ q.used := hp id (List.mem_filterMap.mpr ⟨_, hx, rfl⟩)
        exact congrArg Sparql.Node.var (h.nameAt_placeOf hid htable)
  rw [triple, triple, Pattern.mapVar, hnode p.subject (by simp), hnode p.predicate (by simp),
    hnode p.object (by simp)]

/-- **What a reader makes of the patterns**: by name they are those of the query, with the blank
nodes of which variables have the nodes as these variables. -/
theorem WellFormed.triples_of_readQuery (h : q.WellFormed) (hflat : q.Flat)
    (huri : Iri.isAbsolute uri = true) {limit : Nat} {r : Query}
    (hread : (ofList (description q uri)).readQuery uri limit = .ok r) :
    r.patterns.map r.triple = q.patterns.map fun p => q.triple (q.claimedPattern p).relabelled := by
  let high := limit + q.projections.length + q.clauses.length + q.order.length
  have hdepicts : (sourceOf q uri high).Depicts q.withClaims :=
    depicts_withClaims hflat huri (by omega) (by omega) (by omega)
  have hkeys := hdepicts.readQuery_eq_keys h.withClaims (fun p hp => h.withClaims.made_pattern hp)
    (anonymous_withClaims hflat high)
  have hhigh : (sourceOf q uri high).graph.readQuery uri high = .ok r :=
    Graph.readQuery_of_le (by omega) hread
  obtain ⟨keys, -, hfold⟩ := Outcome.bind_eq_ok.mp (hkeys.symm.trans hhigh)
  have hkept : r.table = q.withClaims.copies uri q.withClaims.used ∧
      r.clauses = (q.withClaims.patterns.map Pattern.relabelled).map fun p =>
        .pattern (p.mapVar q.withClaims.placeOf) := by
    refine Outcome.foldlM_preserves (fun r => r.table = q.withClaims.copies uri q.withClaims.used ∧
      r.clauses = (q.withClaims.patterns.map Pattern.relabelled).map fun p =>
        .pattern (p.mapVar q.withClaims.placeOf)) ?_ ⟨?_, rfl⟩ hfold
    · rintro b m - b' ⟨htable, hclauses⟩ hstep
      obtain ⟨htable', hclauses'⟩ := Source.readKey_keeps hstep
      exact ⟨htable'.trans htable, hclauses'.trans hclauses⟩
    · exact q.withClaims.table_regaining_relabelled uri _ _ _
  obtain ⟨htable, hclauses⟩ := hkept
  have hpatterns : r.patterns =
      q.withClaims.patterns.map fun p => p.relabelled.mapVar q.withClaims.placeOf := by
    refine patterns_eq ?_
    rw [hclauses, List.map_map, List.map_map]
    rfl
  rw [hpatterns, List.map_map, patterns_withClaims, List.map_map]
  refine List.map_congr_left fun p hp => ?_
  refine h.withClaims.triple_placeOf htable ?_
  intro id hid
  rw [Pattern.varIds_relabelled] at hid
  refine mem_used.mpr (Or.inr ⟨q.claimedPattern p, ?_, hid⟩)
  rw [patterns_withClaims]
  exact List.mem_map_of_mem hp

/-- A reader that allows lists as long as those of the query succeeds, unless the query sorts by a
variable that occurs nowhere else. -/
theorem WellFormed.exists_readQuery (h : q.WellFormed) (hflat : q.Flat)
    (huri : Iri.isAbsolute uri = true) {limit : Nat} (hcolumns : q.projections.length ≤ limit)
    (hclauses : q.clauses.length ≤ limit) (horder : q.order.length ≤ limit)
    (hused : ∀ k ∈ q.order, k.variableId ∈ q.used) :
    ∃ r, (ofList (description q uri)).readQuery uri limit = .ok r := by
  have hdepicts := depicts_withClaims hflat huri hcolumns hclauses horder
  have hread := hdepicts.readQuery_eq_relabelled h.withClaims
    (fun p hp => h.withClaims.made_pattern hp) (anonymous_withClaims hflat limit)
    fun k hk => q.used_subset_withClaims (hused k hk)
  exact ⟨_, hread⟩

end Query

/-! ### The law -/

/-- What becomes of the blank nodes of a query in a description. -/
structure Spin.BlankNodes (q : Query) (uri : String) (ts : List Triple) : Prop where
  /-- Different parts of the query have different nodes. -/
  apart : ∀ a b : Part, a.In q → b.In q → a.node q = b.node q → a = b
  /-- About the node of each part the description says what the part is. -/
  told : ∀ a : Part, a.In q → about (a.node q) ts = a.facts q
  /-- It speaks of the query and of these nodes only. -/
  subjects : ∀ t ∈ ts, t.subject = .iri uri ∨ ∃ a : Part, a.In q ∧ a.node q = t.subject
  /-- A blank node of a pattern is one of these nodes exactly if its label is `v` or `c` with a
  number that is in use. -/
  taken : ∀ label, (∃ a : Part, a.In q ∧ a.node q = .blank label) ↔
    (∃ id < q.table.size, label = "v" ++ toString id) ∨
      ∃ n, 1 ≤ n ∧ n ≤ cellCount q ∧ label = "c" ++ toString n
  /-- It is claimed by a variable exactly if it is the node of the variable. -/
  claimed : ∀ label id, q.claimed (.resource (.blank label)) = .var id ↔
    id < q.table.size ∧ label = "v" ++ toString id
  /-- A reader takes the claimed blank nodes for their variables, and reads every other slot as it
  is. -/
  read : ∀ limit r, (ofList ts).readQuery uri limit = .ok r →
    r.patterns.map r.triple = q.patterns.map fun p => q.triple (q.claimedPattern p).relabelled
  /-- A reader that allows lists as long as those of the query succeeds, unless the query sorts by
  a variable that occurs nowhere else. -/
  readable : ∀ limit, q.projections.length ≤ limit → q.clauses.length ≤ limit →
    q.order.length ≤ limit → (∀ k ∈ q.order, k.variableId ∈ q.used) →
      ∃ r, (ofList ts).readQuery uri limit = .ok r

/-- **The nodes that a description makes are kept apart from one another, and from the blank nodes
of the patterns as far as their labels differ.**  This holds of every built query that is
described. -/
theorem Query.describe_blankNodes {q : Query} (hq : q.Built) {uri : String} {ts : List Triple}
    (h : q.describe uri = .ok ts) : BlankNodes q uri ts := by
  have hwell := hq.wellFormed
  obtain ⟨hflat, huri, rfl⟩ := eq_description_of_describe hwell h
  refine ⟨fun a b => Part.node_inj, fun a ha => Part.about_node hflat ha, ?_,
    fun label => Part.exists_node_iff, ?_,
    fun limit r hread => hwell.triples_of_readQuery hflat huri hread,
    fun limit hcolumns hclauses horder hused =>
      hwell.exists_readQuery hflat huri hcolumns hclauses horder hused⟩
  · intro t ht
    by_contra hno
    rw [not_or] at hno
    have hnone := Part.about_other hflat hno.1 fun a ha hnode => hno.2 ⟨a, ha, hnode⟩
    have hfact : fact t ∈ about t.subject (description q uri) :=
      List.mem_map_of_mem (List.mem_filter.mpr ⟨ht, by simp⟩)
    rw [hnone] at hfact
    cases hfact
  · intro label id
    rw [← claimant_eq_some_iff]
    cases hclaim : q.claimant label with
    | none => simp [claimed, hclaim]
    | some id' => simp [claimed, hclaim]

/-- A query whose patterns say something about a blank node with some label. -/
def authorQuery (label : String) : Query :=
  ({ uri := "urn:notes" } : Query).afterAll
    [.addVariable { uri := "urn:notes;var=id", name := "id" }, .project 0,
      .pushClause (.pattern ⟨.var 0, .resource (.iri "urn:by"), .resource (.blank label)⟩),
      .pushClause (.pattern ⟨.resource (.blank label), .resource (.iri "urn:in"), .var 0⟩)]

/-- The example is made by lawful calls. -/
theorem authorQuery_built (label : String) : (authorQuery label).Built := by
  refine (Query.Built.new _).afterAll ?_
  simp [Query.Call.Lawful, Clause.made_pattern_iff, Term.isLiteral, Term.IsNormal]

/-- With a label that is not in use the patterns come back as they are. -/
theorem Query.describe_blankNodes_author :
    ∃ ts r, (authorQuery "v1").describe "urn:notes" = .ok ts ∧
      (ofList ts).readQuery "urn:notes" 2 = .ok r ∧
      r.patterns.map r.triple = (authorQuery "v1").patterns.map (authorQuery "v1").triple := by
  have hsome : ((authorQuery "v1").describe "urn:notes").toOption.isSome = true := by
    decide +kernel
  cases hdescribe : (authorQuery "v1").describe "urn:notes" with
  | error e =>
      rw [hdescribe] at hsome
      cases hsome
  | ok ts =>
      have hnodes := Query.describe_blankNodes (authorQuery_built "v1") hdescribe
      obtain ⟨r, hread⟩ := hnodes.readable 2 (by decide +kernel) (by decide +kernel)
        (by decide +kernel) (by decide +kernel)
      refine ⟨ts, r, rfl, hread, ?_⟩
      rw [hnodes.read 2 r hread]
      decide +kernel

/-- With the label `v0` the blank node comes back as the variable. -/
theorem Query.describe_author_v0 :
    (authorQuery "v0").Built ∧
      (authorQuery "v0").patterns.map (authorQuery "v0").triple =
        [⟨.var "id", .iri "urn:by", .resource (.blank "v0")⟩,
          ⟨.resource (.blank "v0"), .iri "urn:in", .var "id"⟩] ∧
      ∃ ts r, (authorQuery "v0").describe "urn:notes" = .ok ts ∧
        (ofList ts).readQuery "urn:notes" 2 = .ok r ∧
        r.patterns.map r.triple =
          [⟨.var "id", .iri "urn:by", .var "id"⟩, ⟨.var "id", .iri "urn:in", .var "id"⟩] := by
  have hsome : ((authorQuery "v0").describe "urn:notes").toOption.isSome = true := by
    decide +kernel
  refine ⟨authorQuery_built "v0", by decide +kernel, ?_⟩
  cases hdescribe : (authorQuery "v0").describe "urn:notes" with
  | error e =>
      rw [hdescribe] at hsome
      cases hsome
  | ok ts =>
      have hwell := (authorQuery_built "v0").wellFormed
      obtain ⟨hflat, huri, rfl⟩ := eq_description_of_describe hwell hdescribe
      have hexists : ∃ r, (ofList (description (authorQuery "v0") "urn:notes")).readQuery
          "urn:notes" 2 = .ok r :=
        hwell.exists_readQuery hflat huri (by decide +kernel) (by decide +kernel)
          (by decide +kernel) (by decide +kernel)
      obtain ⟨r, hread⟩ := hexists
      refine ⟨_, r, rfl, hread, ?_⟩
      rw [hwell.triples_of_readQuery hflat huri hread]
      decide +kernel

end SparqlCompose
