import Mathlib
import SparqlCompose.Proofs.Call
import SparqlCompose.Proofs.Join.Table
import SparqlCompose.Proofs.Snapshot

/-!
# What the check of a query finds

A query names places of its table in its columns and order keys, in the slots of its patterns at
every depth, and in the lists of its blocks.  `Query.validate` looks at all of them but one kind:
a block that stands inside another is asked for its patterns and not for its list
(`Query.nestedLists`).  So a query passes exactly when its other places are in the table and every
variable stands under its own name (`Query.validate_iff_places`), and a snapshot can hold a query
that passes and names a place outside its table (`Query.validate_nestedListQuery`).

What has passed stays valid: every call keeps it so (`Query.Valid.perform`), and with it every run
of calls.  A join makes its composite from an empty query by operations that do the same, so that
each composite passes again (`Query.valid_join`).
-/

namespace SparqlCompose

/-! ### The places that a clause names -/

namespace Clause

mutual

/-- The places that the blocks of a clause list as their own, at every depth. -/
def lists : Clause → List VarId
  | .pattern _ => []
  | .service _ cs vs => listsAll cs ++ vs

/-- The places that the blocks of the clauses list as their own, at every depth. -/
def listsAll : List Clause → List VarId
  | [] => []
  | c :: cs => lists c ++ listsAll cs

end

/-- The places that a clause lists as its own, if it is a block. -/
def ownList : Clause → List VarId
  | .pattern _ => []
  | .service _ _ vs => vs

/-- The places that are listed by the blocks inside a clause. -/
def nestedLists : Clause → List VarId
  | .pattern _ => []
  | .service _ cs _ => listsAll cs

/-- A place is listed by the clause itself or by a block inside it. -/
theorem mem_lists {c : Clause} {id : VarId} :
    id ∈ c.lists ↔ id ∈ c.ownList ∨ id ∈ c.nestedLists := by
  cases c with
  | pattern p => simp [lists, ownList, nestedLists]
  | service e cs vs => simp [lists, ownList, nestedLists, or_comm]

/-- The variables of clauses are those of the first and those of the rest. -/
theorem mem_varIdsAll_cons {c : Clause} {cs : List Clause} {id : VarId} :
    id ∈ varIdsAll (c :: cs) ↔ id ∈ c.varIds ∨ id ∈ varIdsAll cs := by
  simp only [mem_varIds, mem_varIdsAll, patternsAll, List.mem_append, or_and_right, exists_or]

mutual

/-- A place is named by a slot or by a list. -/
theorem mem_places {id : VarId} : ∀ c : Clause, id ∈ c.places ↔ id ∈ c.varIds ∨ id ∈ c.lists
  | .pattern p => by simp [places, lists, mem_varIds, patterns]
  | .service e cs vs => by
      have hslots : id ∈ (service e cs vs).varIds ↔ id ∈ varIdsAll cs := by
        rw [mem_varIds, mem_varIdsAll, patterns]
      rw [places, lists, List.mem_append, List.mem_append, mem_placesAll_iff cs, hslots, or_assoc]

/-- A place of clauses is named by a slot or by a list. -/
theorem mem_placesAll_iff {id : VarId} :
    ∀ cs : List Clause, id ∈ placesAll cs ↔ id ∈ varIdsAll cs ∨ id ∈ listsAll cs
  | [] => by simp [placesAll, listsAll, varIdsAll, patternsAll]
  | c :: cs => by
      rw [placesAll, listsAll, List.mem_append, List.mem_append, mem_varIdsAll_cons, mem_places c,
        mem_placesAll_iff cs]
      tauto

end

end Clause

/-! ### What is checked -/

namespace Query

/-- The places of a query that its check looks at. -/
def checkedPlaces (q : Query) : List VarId :=
  q.projections ++ q.order.map OrderKey.variableId ++
    q.clauses.flatMap fun c => c.varIds ++ c.ownList

/-- The places that are listed by blocks inside other blocks. -/
def nestedLists (q : Query) : List VarId := q.clauses.flatMap Clause.nestedLists

variable {q q' : Query}

/-- A place of a query is looked at by its check or listed by a block inside another. -/
theorem mem_places {id : VarId} :
    id ∈ q.places ↔ id ∈ q.checkedPlaces ∨ id ∈ q.nestedLists := by
  simp only [places, checkedPlaces, nestedLists, List.mem_append, List.mem_flatMap,
    Clause.mem_placesAll, Clause.mem_places, Clause.mem_lists, and_or_left, exists_or]
  grind

/-- A query is valid when the places that are looked at are in its table and every variable stands
under its own name. -/
theorem valid_iff_checkedPlaces :
    q.Valid ↔ (∀ id ∈ q.checkedPlaces, id < q.table.size) ∧
      ∀ e ∈ q.table.entries, e.1 = e.2.name := by
  constructor
  · intro h
    refine ⟨fun id hid => ?_, h.names⟩
    simp only [checkedPlaces, List.mem_append, List.mem_map, List.mem_flatMap] at hid
    rcases hid with (hcolumn | ⟨k, hk, rfl⟩) | ⟨c, hc, hslot | hlisted⟩
    · exact h.columns_lt id hcolumn
    · exact h.order_lt k hk
    · exact h.slots_lt c hc id hslot
    · cases c with
      | pattern p => cases hlisted
      | service e cs vs => exact h.lists_lt e cs vs hc id hlisted
  · intro hparts
    obtain ⟨hlt, hnames⟩ := hparts
    simp only [checkedPlaces, List.mem_append, List.mem_map, List.mem_flatMap] at hlt
    exact ⟨fun id hid => hlt id (Or.inl (Or.inl hid)),
      fun k hk => hlt _ (Or.inl (Or.inr ⟨k, hk, rfl⟩)),
      fun c hc id hid => hlt id (Or.inr ⟨c, hc, Or.inl hid⟩),
      fun e cs vs hc id hid => hlt id (Or.inr ⟨_, hc, Or.inr hid⟩), hnames⟩

/-- **What the check finds.**  A query passes exactly when the places that are looked at are in
its table and every variable stands under its own name.  Every place that the query names is
looked at, or listed by a block inside another.  So what the check leaves to be asked, for all
places to be in the table, is those lists and nothing else. -/
theorem validate_iff_places (q : Query) :
    (q.validate = .ok () ↔
      (∀ id ∈ q.checkedPlaces, id < q.table.size) ∧ ∀ e ∈ q.table.entries, e.1 = e.2.name) ∧
    (∀ id, id ∈ q.places ↔ id ∈ q.checkedPlaces ∨ id ∈ q.nestedLists) ∧
    ((q.validate = .ok () ∧ ∀ id ∈ q.nestedLists, id < q.table.size) ↔
      (∀ id ∈ q.places, id < q.table.size) ∧ ∀ e ∈ q.table.entries, e.1 = e.2.name) := by
  have hchecked := validate_eq_ok.trans (valid_iff_checkedPlaces (q := q))
  refine ⟨hchecked, fun id => mem_places, ?_⟩
  have hsplit : (∀ id ∈ q.places, id < q.table.size) ↔
      (∀ id ∈ q.checkedPlaces, id < q.table.size) ∧ ∀ id ∈ q.nestedLists, id < q.table.size := by
    simp only [mem_places, or_imp, forall_and]
  rw [hchecked, hsplit]
  tauto

/-- A query without variables, with a block inside a block that lists one. -/
def nestedListQuery : Query where
  uri := "urn:q"
  clauses := [.service "urn:a" [.service "urn:b" [] [7]] []]

/-- A snapshot gives back a query that passes its check and names a place outside its table. -/
theorem validate_nestedListQuery :
    restore? nestedListQuery.snapshot = some nestedListQuery ∧
      nestedListQuery.validate = .ok () ∧
      ¬ ((∀ id ∈ nestedListQuery.places, id < nestedListQuery.table.size) ∧
        ∀ e ∈ nestedListQuery.table.entries, e.1 = e.2.name) := by
  have hstorable : nestedListQuery.Storable := ⟨by decide, by decide⟩
  refine ⟨?_, by decide +kernel, ?_⟩
  · rw [restore?_eq_ite hstorable, if_pos (by decide)]
  · rintro ⟨hlt, -⟩
    exact absurd (hlt 7 (by decide)) (by decide)

/-! ### Calls keep a query valid -/

namespace Valid

/-- A table may be exchanged for one that is no smaller. -/
theorem withTable (h : q.Valid) {t : OrderedMap Variable} (ht : ∀ e ∈ t.entries, e.1 = e.2.name)
    (hsize : q.table.size ≤ t.size) (instanceId : Option String) :
    Valid { q with table := t, instanceId := instanceId } where
  columns_lt := fun id hid => lt_of_lt_of_le (h.columns_lt id hid) hsize
  order_lt := fun k hk => lt_of_lt_of_le (h.order_lt k hk) hsize
  slots_lt := fun c hc id hid => lt_of_lt_of_le (h.slots_lt c hc id hid) hsize
  lists_lt := fun e cs vs hc id hid => lt_of_lt_of_le (h.lists_lt e cs vs hc id hid) hsize
  names := ht

/-- Result columns may be exchanged for others of the table. -/
theorem withProjections (h : q.Valid) {ids : List VarId} (hlt : ∀ id ∈ ids, id < q.table.size) :
    Valid { q with projections := ids } :=
  ⟨hlt, h.order_lt, h.slots_lt, h.lists_lt, h.names⟩

/-- A new variable goes under its own name. -/
theorem insert (h : q.Valid) {v : Variable} (hnew : v.name ∉ q.table.keys) :
    Valid { q with table := q.table.insert v.name v } := by
  refine h.withTable ?_ ?_ q.instanceId
  · intro e he
    rw [OrderedMap.entries_insert_of_not_mem v hnew] at he
    rcases List.mem_append.mp he with he | he
    · exact h.names e he
    · rw [List.mem_singleton.mp he]
  · rw [OrderedMap.size_insert_of_not_mem v hnew]
    exact Nat.le_succ _

/-- Adding a variable keeps a query valid. -/
theorem addVariable (h : q.Valid) {v : Variable} {id : VarId}
    (hok : q.addVariable v = .ok (id, q')) : q'.Valid := by
  obtain ⟨-, hnew, -, rfl⟩ := addVariable_eq_ok.mp hok
  exact h.insert hnew

/-- A value does not touch the name of its variable. -/
theorem setBound (h : q.Valid) {id : VarId} {value old : Option Constant}
    (hok : q.setBound id value = .ok (old, q')) : q'.Valid := by
  obtain ⟨-, -, rfl⟩ := setBound_eq_ok.mp hok
  refine h.withTable ?_ (by simp) q.instanceId
  intro e he
  obtain ⟨i, hi⟩ := List.getElem?_of_mem he
  rw [OrderedMap.entries_modifyAt, List.getElem?_modify] at hi
  obtain ⟨d, hd, rfl⟩ := Option.map_eq_some_iff.mp hi
  have hname := h.names d (List.mem_of_getElem? hd)
  split <;> exact hname

/-- So does scoping it to an instance. -/
theorem scopeTo (h : q.Valid) (instanceId : String) : (q.scopeTo instanceId).Valid := by
  refine h.withTable ?_ (by simp) (some instanceId)
  intro e he
  obtain ⟨d, hd, rfl⟩ := List.mem_map.mp he
  exact h.names d hd

/-- So does adding a result column. -/
theorem project (h : q.Valid) {id : VarId} {isNew : Bool} (hok : q.project id = .ok (isNew, q')) :
    q'.Valid := by
  obtain ⟨hid, -, rfl⟩ := project_eq_ok.mp hok
  refine h.withProjections ?_
  intro i hi
  rcases mem_appendNew.mp hi with hi | rfl
  · exact h.columns_lt i hi
  · exact hid

/-- So does adding a clause, which has passed the check. -/
theorem pushClause (h : q.Valid) {c : Clause} (hok : q.pushClause c = .ok q') : q'.Valid := by
  obtain ⟨hcheck, rfl⟩ := pushClause_eq_ok.mp hok
  obtain ⟨hslots, hlists⟩ := checkClause_eq_ok.mp hcheck
  refine ⟨h.columns_lt, h.order_lt, ?_, ?_, h.names⟩
  · intro d hd
    rcases List.mem_append.mp hd with hd | hd
    · exact h.slots_lt d hd
    · exact List.mem_singleton.mp hd ▸ hslots
  · intro e cs vs hd
    rcases List.mem_append.mp hd with hd | hd
    · exact h.lists_lt e cs vs hd
    · exact hlists e cs vs (List.mem_singleton.mp hd).symm

/-- So does adding an order key. -/
theorem pushOrder (h : q.Valid) {k : OrderKey} (hok : q.pushOrder k = .ok q') : q'.Valid := by
  obtain ⟨hk, rfl⟩ := pushOrder_eq_ok.mp hok
  refine ⟨h.columns_lt, ?_, h.slots_lt, h.lists_lt, h.names⟩
  intro k' hk'
  rcases List.mem_append.mp hk' with hk' | hk'
  · exact h.order_lt k' hk'
  · exact List.mem_singleton.mp hk' ▸ hk

/-- The endpoints of a query do not matter. -/
theorem addEndpoint (h : q.Valid) (uri : String) : (q.addEndpoint uri).Valid :=
  ⟨h.columns_lt, h.order_lt, h.slots_lt, h.lists_lt, h.names⟩

/-- So does choosing an endpoint. -/
theorem activate (h : q.Valid) (uri : String) : (q.activate uri).Valid :=
  ⟨h.columns_lt, h.order_lt, h.slots_lt, h.lists_lt, h.names⟩

/-- **A call keeps a query valid**, whatever it hands over. -/
theorem perform (h : q.Valid) {c : Call} (hok : c.perform q = .ok q') : q'.Valid := by
  cases c with
  | annotate label comment =>
      obtain rfl := Except.ok.inj hok
      exact ⟨h.columns_lt, h.order_lt, h.slots_lt, h.lists_lt, h.names⟩
  | addVariable v =>
      obtain ⟨⟨id, r⟩, hadd, rfl⟩ := Outcome.map_eq_ok.mp hok
      exact h.addVariable hadd
  | internVariable v =>
      obtain ⟨⟨id, r⟩, hintern, rfl⟩ := Outcome.map_eq_ok.mp hok
      rcases internVariable_eq_ok.mp hintern with ⟨-, rfl⟩ | hadd
      · exact h
      · exact h.addVariable hadd
  | freshVariable base =>
      obtain ⟨⟨id, r⟩, hfresh, rfl⟩ := Outcome.map_eq_ok.mp hok
      exact h.addVariable (freshVariable_eq_ok.mp hfresh).2
  | bind id value =>
      obtain ⟨⟨old, r⟩, hbind, rfl⟩ := Outcome.map_eq_ok.mp hok
      exact h.setBound hbind
  | unbind id =>
      obtain ⟨⟨old, r⟩, hunbind, rfl⟩ := Outcome.map_eq_ok.mp hok
      exact h.setBound hunbind
  | project id =>
      obtain ⟨⟨isNew, r⟩, hproject, rfl⟩ := Outcome.map_eq_ok.mp hok
      exact h.project hproject
  | unproject id =>
      obtain rfl := Except.ok.inj hok
      exact h.withProjections fun i hi => h.columns_lt i (List.mem_of_mem_filter hi)
  | reorder order =>
      have hlt := lt_size_of_reorder hok
      obtain ⟨names, ids, -, -, -, rfl⟩ := reorder_eq_ok.mp hok
      exact h.withProjections hlt
  | pushClause d => exact h.pushClause hok
  | pushOrder k => exact h.pushOrder hok
  | addEndpoint uri =>
      obtain rfl := Except.ok.inj hok
      exact h.addEndpoint uri
  | activate uri =>
      obtain rfl := Except.ok.inj hok
      exact h.activate uri
  | scopeTo instanceId =>
      obtain rfl := Except.ok.inj hok
      exact h.scopeTo instanceId

/-- A call leaves a valid query valid, whether it succeeds or fails. -/
theorem after (h : q.Valid) (c : Call) : (q.after c).Valid := by
  rcases after_cases q c with hsame | hok
  · rw [hsame]
    exact h
  · exact h.perform hok

/-- A run of calls keeps a query valid. -/
theorem afterAll (h : q.Valid) (calls : List Call) : (q.afterAll calls).Valid := by
  induction calls generalizing q with
  | nil => exact h
  | cons c calls ih => exact ih (h.after c)

end Valid

/-! ### Joins make valid composites -/

/-- A query without variables and without a body is valid. -/
theorem valid_empty (uri : String) (label : Option String) :
    Valid { uri := uri, label := label } := by
  refine ⟨?_, ?_, ?_, ?_, ?_⟩ <;> simp

/-- **Every composite is valid**, whether or not its operands are: whatever a join adds has passed
a check of its own. -/
theorem valid_join {l r : Query} {n m : String} {requested mode : JoinMode}
    (hok : join ⟨l, n⟩ ⟨r, m⟩ requested = .ok (q, mode)) : q.Valid := by
  refine join_preserves (fun _ _ h hnew => h.insert hnew) ?_ valid_empty hok
  exact ⟨fun h hok => h.project hok, fun h hok => h.pushClause hok, fun h hok => h.pushOrder hok,
    fun uri h => h.activate uri, fun uri h => h.addEndpoint uri⟩

end Query

end SparqlCompose
