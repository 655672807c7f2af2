import Mathlib
import SparqlCompose.Proofs.Spin.Depiction
import SparqlCompose.Proofs.Spin.Numbered

/-!
# What a description says

The description of a query without blocks is written in three parts: the triples about the query,
those about the variables, and those about the cells.  The cells of the result columns, the
patterns, the cells that list them, the order keys and the cells that list these are numbered in
this order without a gap, so the third part is one row of nodes (`tells_cellTriples`).  From the
three parts it is read off what the description says about each node.
-/

namespace SparqlCompose

/-- Whether the slot may stand in a graph, as far as IRIs and language tags go. -/
def Term.isWritable : Term → Bool
  | .resource (.iri text) => Iri.isAbsolute text
  | .literal ⟨_, .typed datatype⟩ => Iri.isAbsolute datatype
  | .literal ⟨_, .tagged tag⟩ => LanguageTag.isWellFormed (tag.map Char.toLower)
  | _ => true

namespace Query

/-- No clause of the query is a block. -/
def Flat (q : Query) : Prop := ∀ c ∈ q.clauses, ∃ p, c = .pattern p

/-- Every IRI, datatype and language tag of the patterns may stand in a graph. -/
def Writable (q : Query) : Prop :=
  ∀ p ∈ q.patterns, ∀ t ∈ [p.subject, p.predicate, p.object], t.isWritable = true

/-- The clauses of a query without blocks are its patterns. -/
theorem Flat.clauses_eq {q : Query} (h : q.Flat) : q.clauses = q.patterns.map .pattern := by
  have hall : ∀ cs : List Clause, (∀ c ∈ cs, ∃ p, c = .pattern p) →
      cs = (Clause.patternsAll cs).map .pattern := by
    intro cs
    induction cs with
    | nil => intro _; rfl
    | cons c cs ih =>
        intro hcs
        obtain ⟨p, rfl⟩ := hcs c List.mem_cons_self
        exact congrArg _ (ih fun d hd => hcs d (List.mem_cons_of_mem _ hd))
  exact hall q.clauses h

/-- Clauses that are patterns are the patterns of the query. -/
theorem patterns_eq {q : Query} {ps : List Pattern} (h : q.clauses = ps.map .pattern) :
    q.patterns = ps := by
  rw [patterns, h, Clause.patternsAll_eq_flatMap, List.flatMap_map]
  exact List.flatMap_singleton' ps

/-- Each pattern of such a query can be made. -/
theorem Flat.made {q : Query} (h : q.Flat) (hq : q.WellFormed) {p : Pattern}
    (hp : p ∈ q.patterns) : (Clause.pattern p).Made := by
  refine hq.made _ ?_
  rw [h.clauses_eq]
  exact List.mem_map_of_mem hp

end Query

/-- The slots of a pattern that can be made are in normal form. -/
theorem Clause.Made.slots_isNormal {p : Pattern} (h : (Clause.pattern p).Made) :
    ∀ t ∈ [p.subject, p.predicate, p.object], t.IsNormal := by
  obtain ⟨hs, hp, ho⟩ := Clause.made_pattern_iff.mp h
  simpa using ⟨Term.isNormal_of_isLiteral hs, Term.isNormal_of_isLiteral hp, ho⟩

namespace Spin

open SparqlCompose.Graph

variable {q : Query} {uri : String}

/-! ### The triples -/

/-- The description of a pattern, where each slot may stand in a graph. -/
def slotTriples (n : Nat) (p : Pattern) : List Triple :=
  [⟨cell n, Vocabulary.sp "subject", slotValue p.subject⟩,
    ⟨cell n, Vocabulary.sp "predicate", slotValue p.predicate⟩,
    ⟨cell n, Vocabulary.sp "object", slotValue p.object⟩]

/-- The nodes of the result columns. -/
def columnNodes (q : Query) : List Constant :=
  q.projections.map fun id => .resource (variableNode id)

/-- The number of the first pattern, after the cells of the result columns. -/
def firstElement (q : Query) : Nat := (columnNodes q).length + 1

/-- The number of the first cell of the list of patterns. -/
def firstElementCell (q : Query) : Nat := firstElement q + q.clauses.length

/-- The number of the first order key. -/
def firstKey (q : Query) : Nat := firstElementCell q + q.clauses.length

/-- The number of the first cell of the list of order keys. -/
def firstKeyCell (q : Query) : Nat := firstKey q + q.order.length

/-- The nodes of the patterns. -/
def elementNodes (q : Query) : List Constant := cells (firstElement q) q.clauses.length

/-- The nodes of the order keys. -/
def keyNodes (q : Query) : List Constant := cells (firstKey q) q.order.length

/-- The descriptions of the patterns. -/
def elementTriples (q : Query) : List Triple :=
  (q.patterns.mapIdx fun i p => slotTriples (firstElement q + i) p).flatten

/-- The description of a query whose slots may stand in a graph. -/
def description (q : Query) (uri : String) : List Triple :=
  ⟨.iri uri, Vocabulary.rdfType, .iri (Vocabulary.sp "Select")⟩ ::
    noteTriples (.iri uri) q.label q.comment ++
    (q.table.values.mapIdx variableTriples).flatten ++
    listTriples 1 (columnNodes q) ++
    [⟨.iri uri, Vocabulary.sp "resultVariables", listHead 1 (columnNodes q)⟩] ++
    elementTriples q ++
    listTriples (firstElementCell q) (elementNodes q) ++
    [⟨.iri uri, Vocabulary.sp "where", listHead (firstElementCell q) (elementNodes q)⟩] ++
    (if q.order.isEmpty then [] else
      keysTriples (firstKey q) q.order ++ listTriples (firstKeyCell q) (keyNodes q) ++
        [⟨.iri uri, Vocabulary.sp "orderBy", listHead (firstKeyCell q) (keyNodes q)⟩])

/-- A slot that may stand in a graph is written as its value. -/
theorem slotNode_eq_ok {t : Term} (hnormal : t.IsNormal) (hblank : t.isBlank = false)
    (hwritable : t.isWritable = true) : slotNode t = .ok (slotValue t) := by
  cases t with
  | var id => rfl
  | resource r =>
      cases r with
      | iri text =>
          have htext : Iri.isAbsolute text = true := hwritable
          rw [slotNode, Resource.checked, checkIri, if_pos htext]
          rfl
      | blank label => cases hblank
  | literal l =>
      obtain ⟨value, kind⟩ := l
      cases kind with
      | simple => rfl
      | typed d =>
          have hd : Iri.isAbsolute d = true := hwritable
          have hl : Literal.ofType value d = ⟨value, .typed d⟩ := hnormal
          simp only [slotNode, Literal.checked, checkIri, hd, if_true, Except.map, hl, slotValue]
      | tagged t =>
          have ht : LanguageTag.isWellFormed (t.map Char.toLower) = true := hwritable
          have hl : Literal.inLanguage value t = ⟨value, .tagged t⟩ := hnormal
          simp only [slotNode, Literal.checked, ht, if_true, Except.map, hl, slotValue]

/-- Patterns whose slots may stand in a graph are described slot by slot. -/
theorem clausesTriples_eq_ok {ps : List Pattern} (n : Nat)
    (h : ∀ p ∈ ps, ∀ t ∈ [p.subject, p.predicate, p.object], slotNode t = .ok (slotValue t)) :
    clausesTriples n (ps.map .pattern) =
      .ok (ps.mapIdx fun i p => slotTriples (n + i) p).flatten := by
  induction ps generalizing n with
  | nil => rfl
  | cons p ps ih =>
      have hslots := h p List.mem_cons_self
      have hp : clauseTriples n (.pattern p) = .ok (slotTriples n p) := by
        rw [clauseTriples, patternTriples, hslots p.subject (by simp),
          hslots p.predicate (by simp), hslots p.object (by simp)]
        rfl
      have hps := ih (n + 1) fun p' hp' => h p' (List.mem_cons_of_mem _ hp')
      rw [List.map_cons, clausesTriples, hp, hps, List.mapIdx_cons, List.flatten_cons]
      simp only [Outcome.ok_bind, Nat.add_right_comm n 1]
      rfl

/-- A node is the slot itself. -/
theorem eq_slotValue_of_slotNode {t : Term} {c : Constant} (hnormal : t.IsNormal)
    (h : slotNode t = .ok c) : c = slotValue t := by
  cases t with
  | var id => exact (Except.ok.inj h).symm
  | resource r =>
      obtain ⟨r', hr, rfl⟩ := Outcome.map_eq_ok.mp h
      cases r with
      | iri text =>
          obtain ⟨text', htext, rfl⟩ := Outcome.map_eq_ok.mp hr
          rw [(checkIri_eq_ok.mp htext).2]
          rfl
      | blank label =>
          rw [Resource.checked] at hr
          split at hr
          · rw [← Except.ok.inj hr]
            rfl
          · cases hr
  | literal l =>
      obtain ⟨value, kind⟩ := l
      obtain ⟨l', hl, rfl⟩ := Outcome.map_eq_ok.mp h
      have hsame : Literal.normal ⟨value, kind⟩ = ⟨value, kind⟩ := hnormal
      refine congrArg Constant.literal (Eq.trans ?_ hsame)
      cases kind with
      | simple => exact (Except.ok.inj hl).symm
      | typed d =>
          obtain ⟨d', hd, rfl⟩ := Outcome.map_eq_ok.mp hl
          rw [(checkIri_eq_ok.mp hd).2]
          rfl
      | tagged tag =>
          unfold Literal.checked at hl
          simp only at hl
          split at hl
          · exact (Except.ok.inj hl).symm
          · cases hl

/-- The triples that are written for a pattern are those of its slots. -/
theorem eq_slotTriples_of_patternTriples {n : Nat} {p : Pattern} {ts : List Triple}
    (hslots : ∀ t ∈ [p.subject, p.predicate, p.object], t.IsNormal)
    (h : patternTriples n p = .ok ts) : ts = slotTriples n p := by
  obtain ⟨s, hs, h⟩ := Outcome.bind_eq_ok.mp h
  obtain ⟨m, hm, h⟩ := Outcome.bind_eq_ok.mp h
  obtain ⟨o, ho, h⟩ := Outcome.bind_eq_ok.mp h
  rw [← Except.ok.inj h, eq_slotValue_of_slotNode (hslots _ (by simp)) hs,
    eq_slotValue_of_slotNode (hslots _ (by simp)) hm,
    eq_slotValue_of_slotNode (hslots _ (by simp)) ho]
  rfl

/-- Clauses that are described are patterns, and they are described slot by slot. -/
theorem exists_patterns_of_clausesTriples {cs : List Clause} {n : Nat} {ts : List Triple}
    (hcs : ∀ c ∈ cs, c.Made) (h : clausesTriples n cs = .ok ts) :
    ∃ ps : List Pattern, cs = ps.map .pattern ∧
      ts = (ps.mapIdx fun i p => slotTriples (n + i) p).flatten := by
  induction cs generalizing n ts with
  | nil => exact ⟨[], rfl, (Except.ok.inj h).symm⟩
  | cons c cs ih =>
      rw [List.forall_mem_cons] at hcs
      obtain ⟨first, hfirst, hrest⟩ := Outcome.bind_eq_ok.mp h
      obtain ⟨more, hmore, hlast⟩ := Outcome.bind_eq_ok.mp hrest
      obtain ⟨ps, rfl, rfl⟩ := ih hcs.2 hmore
      cases c with
      | service e inner vs => cases hfirst
      | pattern p =>
          have hp := eq_slotTriples_of_patternTriples hcs.1.slots_isNormal
            (Outcome.mapError_eq_ok.mp hfirst)
          refine ⟨p :: ps, rfl, ?_⟩
          rw [← Except.ok.inj hlast, hp, List.mapIdx_cons, List.flatten_cons]
          simp only [Nat.add_right_comm n 1, Nat.add_zero]
          rfl

end Spin

open Spin in
/-- A query that is described has no blocks, and it is described slot by slot. -/
theorem Query.eq_description_of_describe {q : Query} {uri : String} {ts : List Triple}
    (hq : q.WellFormed) (h : q.describe uri = .ok ts) :
    q.Flat ∧ Iri.isAbsolute uri = true ∧ ts = description q uri := by
  unfold Query.describe at h
  obtain ⟨text, huri, hrest⟩ := Outcome.bind_eq_ok.mp h
  obtain ⟨elements, helements, hlast⟩ := Outcome.bind_eq_ok.mp hrest
  obtain ⟨habsolute, rfl⟩ := checkIri_eq_ok.mp (Outcome.mapError_eq_ok.mp huri)
  obtain ⟨ps, hclauses, helements⟩ := exists_patterns_of_clausesTriples hq.made helements
  have hflat : q.Flat := by
    intro c hc
    rw [hclauses] at hc
    obtain ⟨p, -, rfl⟩ := List.mem_map.mp hc
    exact ⟨p, rfl⟩
  refine ⟨hflat, habsolute, ?_⟩
  rw [← Except.ok.inj hlast, helements, ← patterns_eq hclauses]
  rfl

open Spin in
/-- **A query without blocks is described.**  Its IRIs, datatypes and language tags must be such
as a graph may hold. -/
theorem Query.describe_eq_ok {q : Query} {uri : String} (hq : q.WellFormed) (hflat : q.Flat)
    (hblank : q.NoBlank) (hwritable : q.Writable) (huri : Iri.isAbsolute uri = true) :
    q.describe uri = .ok (description q uri) := by
  have hcheck : SpinError.ofTerm (checkIri uri) = .ok uri :=
    Outcome.mapError_eq_ok.mpr (checkIri_eq_ok.mpr ⟨huri, rfl⟩)
  have hslots : ∀ p ∈ q.patterns, ∀ t ∈ [p.subject, p.predicate, p.object],
      slotNode t = .ok (slotValue t) := by
    intro p hp t ht
    have hnormal := (hflat.made hq hp).slots_isNormal t ht
    exact slotNode_eq_ok hnormal (hblank p hp t ht) (hwritable p hp t ht)
  have helements : clausesTriples (firstElement q) q.clauses = .ok (elementTriples q) := by
    rw [hflat.clauses_eq]
    exact clausesTriples_eq_ok _ hslots
  unfold Query.describe
  rw [hcheck, Outcome.ok_bind]
  exact Outcome.bind_eq_ok.mpr ⟨_, helements, rfl⟩

namespace Spin

open SparqlCompose.Graph

variable {q : Query} {uri : String}

/-! ### What is said about each node -/

/-- Label and comment of a node, as facts. -/
def noteFacts (label comment : Option String) : List (String × Constant) :=
  (label.map fun text => (Vocabulary.rdfsLabel, .literal (.plain text))).toList ++
    (comment.map fun text => (Vocabulary.rdfsComment, .literal (.plain text))).toList

/-- The order keys are named only if there are any. -/
def orderFacts (q : Query) : List (String × Constant) :=
  if q.order.isEmpty then [] else
    [(Vocabulary.sp "orderBy", listHead (firstKeyCell q) (keyNodes q))]

/-- What is said about the query itself. -/
def rootFacts (q : Query) : List (String × Constant) :=
  (Vocabulary.rdfType, .iri (Vocabulary.sp "Select")) :: noteFacts q.label q.comment ++
    [(Vocabulary.sp "resultVariables", listHead 1 (columnNodes q)),
      (Vocabulary.sp "where", listHead (firstElementCell q) (elementNodes q))] ++ orderFacts q

/-- What is said about a variable. -/
def variableFacts (v : Variable) : List (String × Constant) :=
  (Vocabulary.sp "varName", .literal (.plain v.name)) :: noteFacts v.label v.comment

/-- What is said about a pattern. -/
def patternFacts (p : Pattern) : List (String × Constant) :=
  [(Vocabulary.sp "subject", slotValue p.subject),
    (Vocabulary.sp "predicate", slotValue p.predicate),
    (Vocabulary.sp "object", slotValue p.object)]

/-- What is said about an order key. -/
def keyFacts (k : OrderKey) : List (String × Constant) :=
  [(Vocabulary.rdfType, .iri (directionClass k.direction)),
    (Vocabulary.sp "expression", .resource (variableNode k.variableId))]

/-- What is said about the cells, from the first on. -/
def cellFacts (q : Query) : List (List (String × Constant)) :=
  listFacts 1 (columnNodes q) ++ (q.patterns.map patternFacts ++
    (listFacts (firstElementCell q) (elementNodes q) ++ (q.order.map keyFacts ++
      listFacts (firstKeyCell q) (keyNodes q))))

/-- The triples about the cells. -/
def cellTriples (q : Query) : List Triple :=
  listTriples 1 (columnNodes q) ++ (elementTriples q ++
    (listTriples (firstElementCell q) (elementNodes q) ++ (keysTriples (firstKey q) q.order ++
      listTriples (firstKeyCell q) (keyNodes q))))

/-- Label and comment say what they are. -/
theorem map_fact_noteTriples (s : Resource) (label comment : Option String) :
    (noteTriples s label comment).map fact = noteFacts label comment := by
  cases label <;> cases comment <;> rfl

/-- They say it about their node. -/
theorem subject_of_mem_noteTriples {s : Resource} {label comment : Option String} {t : Triple}
    (ht : t ∈ noteTriples s label comment) : t.subject = s := by
  simp only [noteTriples, List.mem_append, Option.mem_toList, Option.map_eq_some_iff] at ht
  rcases ht with ⟨text, -, rfl⟩ | ⟨text, -, rfl⟩
  · rfl
  · rfl

/-- The triples of the variables say what each of them is called and how it is noted. -/
theorem tells_variables (vs : List Variable) :
    Tells variableNode (vs.map variableFacts) (vs.mapIdx variableTriples).flatten := by
  refine tells_blocks variableNode_injective ?_ vs
  intro i v
  refine ⟨?_, ?_⟩
  · intro t ht
    rcases List.mem_cons.mp ht with rfl | ht
    · rfl
    · exact subject_of_mem_noteTriples ht
  · rw [variableTriples, List.map_cons, map_fact_noteTriples]
    rfl

/-- The triples of the patterns say what stands in the slots. -/
theorem tells_elements (n : Nat) (ps : List Pattern) :
    Tells (cellsFrom n) (ps.map patternFacts)
      (ps.mapIdx fun i p => slotTriples (n + i) p).flatten := by
  refine tells_blocks (cellsFrom_injective n) ?_ ps
  intro i p
  exact ⟨by simp [slotTriples, cellsFrom], rfl⟩

/-- The triples of the order keys say by what they sort, and in which direction. -/
theorem tells_keys (n : Nat) (ks : List OrderKey) :
    Tells (cellsFrom n) (ks.map keyFacts) (keysTriples n ks) := by
  refine tells_blocks (cellsFrom_injective n) ?_ ks
  intro i k
  exact ⟨by simp [keyTriples, cellsFrom], rfl⟩

/-- A row has as many cells as are asked for. -/
theorem length_cells (n k : Nat) : (cells n k).length = k := by simp [cells]

/-- The patterns come after the cells of the result columns. -/
theorem one_add_columnCells (q : Query) :
    1 + (listFacts 1 (columnNodes q)).length = firstElement q := by
  rw [length_listFacts, firstElement, Nat.add_comm]

/-- The cells of their list come after the patterns. -/
theorem firstElement_add (hflat : q.Flat) :
    firstElement q + (q.patterns.map patternFacts).length = firstElementCell q := by
  have hpatterns : q.patterns.length = q.clauses.length := by
    rw [hflat.clauses_eq, List.length_map]
  rw [List.length_map, hpatterns, firstElementCell]

/-- The order keys come after these cells. -/
theorem firstElementCell_add (q : Query) :
    firstElementCell q + (listFacts (firstElementCell q) (elementNodes q)).length =
      firstKey q := by
  rw [length_listFacts, elementNodes, length_cells, firstKey]

/-- The cells of their list come after the order keys. -/
theorem firstKey_add (q : Query) :
    firstKey q + (q.order.map keyFacts).length = firstKeyCell q := by
  rw [List.length_map, firstKeyCell]

/-- The cells are one row. -/
theorem tells_cellTriples (hflat : q.Flat) :
    Tells (cellsFrom 1) (cellFacts q) (cellTriples q) := by
  have hrow : ∀ n, Function.Injective (cellsFrom n) := cellsFrom_injective
  refine Tells.append (hrow 1) (tells_listTriples _ _) ?_
  rw [cellsFrom_add, one_add_columnCells]
  refine Tells.append (hrow _) (tells_elements _ _) ?_
  rw [cellsFrom_add, firstElement_add hflat]
  refine Tells.append (hrow _) (tells_listTriples _ _) ?_
  rw [cellsFrom_add, firstElementCell_add]
  refine Tells.append (hrow _) (tells_keys _ _) ?_
  rw [cellsFrom_add, firstKey_add]
  exact tells_listTriples _ _

/-- No IRI is the node of a variable. -/
theorem variableNode_ne_iri (i : Nat) (text : String) : Resource.iri text ≠ variableNode i := by
  intro h
  cases h

/-- Nor is one a cell. -/
theorem cell_ne_iri (n : Nat) (text : String) : Resource.iri text ≠ cell n := by
  intro h
  cases h

/-- The description without the triples about the query itself. -/
theorem about_description_of_ne {s : Resource} (hs : s ≠ .iri uri) :
    about s (description q uri) =
      about s (q.table.values.mapIdx variableTriples).flatten ++ about s (cellTriples q) := by
  have hroot : ∀ p o, about s [⟨.iri uri, p, o⟩] = [] := by
    intro p o
    exact about_eq_nil fun t ht h => hs (h.symm.trans (by rw [List.mem_singleton.mp ht]))
  have hnotes : about s (noteTriples (.iri uri) q.label q.comment) = [] :=
    about_eq_nil fun t ht h => hs (h.symm.trans (subject_of_mem_noteTriples ht))
  have hhead : ∀ t : Triple, ∀ ts, t :: ts = [t] ++ ts := fun _ _ => rfl
  rw [description, hhead]
  simp only [about_append, hroot, hnotes, cellTriples, List.nil_append, List.append_assoc]
  cases hkeys : q.order with
  | nil => simp [keyNodes, keysTriples, cells, listTriples, hkeys, about]
  | cons k ks => simp [about_append, hroot]

/-- The description says about the node of a variable what the variable is. -/
theorem about_description_variable (hflat : q.Flat) {id : Nat} {v : Variable}
    (hv : q.table.at? id = some v) :
    about (variableNode id) (description q uri) = variableFacts v := by
  have hcells := (tells_cellTriples hflat).about_other (variableNode id)
    fun i _ => variableNode_ne_cell id (1 + i)
  rw [about_description_of_ne (variableNode_ne_iri id uri).symm, hcells, List.append_nil]
  refine (tells_variables q.table.values).about_node id _ ?_
  rw [List.getElem?_map, ← OrderedMap.at?_eq_getElem?, hv]
  rfl

/-- What it says about a cell is said by the triples of the cells. -/
theorem about_description_cell (n : Nat) :
    about (cell n) (description q uri) = about (cell n) (cellTriples q) := by
  have hvariables := (tells_variables q.table.values).about_other (cell n)
    fun i _ => (variableNode_ne_cell i n).symm
  rw [about_description_of_ne (cell_ne_iri n uri).symm, hvariables, List.nil_append]

/-- It says nothing about any other IRI than its own. -/
theorem about_description_iri (hflat : q.Flat) {text : String} (htext : text ≠ uri) :
    about (.iri text) (description q uri) = [] := by
  have hne : Resource.iri text ≠ .iri uri := by
    intro h
    exact htext (Resource.iri.inj h)
  rw [about_description_of_ne hne,
    (tells_variables q.table.values).about_other _ fun i _ => variableNode_ne_iri i text,
    (tells_cellTriples hflat).about_other _ fun i _ => cell_ne_iri (1 + i) text]
  rfl

/-- What it says about its own IRI is what a query says about itself. -/
theorem about_description_root (hflat : q.Flat) :
    about (.iri uri) (description q uri) = rootFacts q := by
  have hvariables := (tells_variables q.table.values).about_other (.iri uri)
    fun i _ => variableNode_ne_iri i uri
  have hcells := (tells_cellTriples hflat).about_other (.iri uri)
    fun i _ => cell_ne_iri (1 + i) uri
  have hnotes : about (.iri uri) (noteTriples (.iri uri) q.label q.comment) =
      noteFacts q.label q.comment := by
    rw [about_of_forall fun t ht => subject_of_mem_noteTriples ht, map_fact_noteTriples]
  have hroot : ∀ p o, about (.iri uri) [⟨.iri uri, p, o⟩] = [(p, o)] := by
    intro p o
    exact about_of_forall fun t ht => by rw [List.mem_singleton.mp ht]
  have hhead : ∀ t : Triple, ∀ ts, t :: ts = [t] ++ ts := fun _ _ => rfl
  simp only [cellTriples, about_append, List.append_eq_nil_iff] at hcells
  obtain ⟨hcolumns, helements, helementCells, hkeys, hkeyCells⟩ := hcells
  rw [description, rootFacts, orderFacts, hhead]
  simp only [about_append, hroot, hnotes, hvariables, hcolumns, helements, helementCells,
    List.append_assoc]
  cases horder : q.order with
  | nil => simp [about]
  | cons k ks =>
      rw [horder] at hkeys
      simp [about_append, hroot, hkeys, hkeyCells]

/-- A row of cells that begins at a number. -/
theorem about_row (hflat : q.Flat) {before facts after : List (List (String × Constant))} {n : Nat}
    (hrow : cellFacts q = before ++ (facts ++ after)) (hn : 1 + before.length = n) (i : Nat)
    (fs : List (String × Constant)) (hfs : facts[i]? = some fs) :
    about (cellsFrom n i) (description q uri) = fs := by
  have hcells := tells_cellTriples hflat
  rw [hrow] at hcells
  have hcell : cellsFrom n i = cellsFrom 1 (before.length + i) := by
    rw [← hn, ← cellsFrom_add]
  rw [hcell, cellsFrom, about_description_cell]
  exact hcells.about_middle hfs

/-- About a cell of the result columns it says what the list of them does. -/
theorem about_columnCell (hflat : q.Flat) (i : Nat) (fs : List (String × Constant))
    (hfs : (listFacts 1 (columnNodes q))[i]? = some fs) :
    about (cellsFrom 1 i) (description q uri) = fs :=
  about_row hflat (List.nil_append _).symm rfl i fs hfs

/-- About the node of a pattern it says what stands in the slots. -/
theorem about_element (hflat : q.Flat) {i : Nat} {p : Pattern} (hp : q.patterns[i]? = some p) :
    about (cell (firstElement q + i)) (description q uri) = patternFacts p := by
  refine about_row hflat rfl (one_add_columnCells q) i _ ?_
  rw [List.getElem?_map, hp]
  rfl

/-- About a cell of the patterns it says what the list of them does. -/
theorem about_elementCell (hflat : q.Flat) (i : Nat) (fs : List (String × Constant))
    (hfs : (listFacts (firstElementCell q) (elementNodes q))[i]? = some fs) :
    about (cellsFrom (firstElementCell q) i) (description q uri) = fs := by
  refine about_row hflat (List.append_assoc _ _ _).symm ?_ i fs hfs
  rw [List.length_append, ← Nat.add_assoc, one_add_columnCells, firstElement_add hflat]

/-- About the node of an order key it says by what it sorts. -/
theorem about_key (hflat : q.Flat) {i : Nat} {k : OrderKey} (hk : q.order[i]? = some k) :
    about (cell (firstKey q + i)) (description q uri) = keyFacts k := by
  have hrow : cellFacts q = (listFacts 1 (columnNodes q) ++ (q.patterns.map patternFacts ++
      listFacts (firstElementCell q) (elementNodes q))) ++
        (q.order.map keyFacts ++ listFacts (firstKeyCell q) (keyNodes q)) := by
    simp only [cellFacts, List.append_assoc]
  refine about_row hflat hrow ?_ i _ ?_
  · rw [List.length_append, List.length_append, ← Nat.add_assoc, ← Nat.add_assoc,
      one_add_columnCells, firstElement_add hflat, firstElementCell_add]
  · rw [List.getElem?_map, hk]
    rfl

/-- About a cell of the order keys it says what the list of them does. -/
theorem about_keyCell (hflat : q.Flat) (i : Nat) (fs : List (String × Constant))
    (hfs : (listFacts (firstKeyCell q) (keyNodes q))[i]? = some fs) :
    about (cellsFrom (firstKeyCell q) i) (description q uri) = fs := by
  have hrow : cellFacts q = (listFacts 1 (columnNodes q) ++ (q.patterns.map patternFacts ++
      (listFacts (firstElementCell q) (elementNodes q) ++ q.order.map keyFacts))) ++
        (listFacts (firstKeyCell q) (keyNodes q) ++ []) := by
    simp only [cellFacts, List.append_assoc, List.append_nil]
  refine about_row hflat hrow ?_ i fs hfs
  rw [List.length_append, List.length_append, List.length_append, ← Nat.add_assoc,
    ← Nat.add_assoc, ← Nat.add_assoc, one_add_columnCells, firstElement_add hflat,
    firstElementCell_add, firstKey_add]

end Spin

end SparqlCompose
