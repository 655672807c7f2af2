import Mathlib
import SparqlCompose.Proofs.FreshName
import SparqlCompose.Proofs.Operation

/-!
# Well-formed queries

A query is *well formed* when its table lists legal variables under their own names, its result
columns, order keys and clauses stay within the table, no result column occurs twice, every
clause is made, and the active endpoint is a known one (`Query.WellFormed`).  Each operation
keeps a query well formed; what is added to a table stands behind the rest of it
(`SoundTable.Added`), so that a place goes on naming the variable that it named before.
-/

namespace SparqlCompose

/-! ### Variable tables -/

/-- The variable has a legal name, and its value, if it has one, is as its constructors make
it. -/
structure Variable.Legal (v : Variable) : Prop where
  name : isVarName v.name = true
  bound : ∀ c, v.bound = some c → c.IsNormal

/-- Every entry of the table is a legal variable under its own name. -/
def SoundTable (t : OrderedMap Variable) : Prop :=
  ∀ e ∈ t.entries, e.1 = e.2.name ∧ e.2.Legal

namespace SoundTable

variable {t : OrderedMap Variable}

/-- A table without entries is sound. -/
theorem empty : SoundTable ∅ := by
  intro e he
  cases he

/-- The names of the variables, in the order of the table, are its keys. -/
theorem keys_eq (h : SoundTable t) : t.keys = t.values.map Variable.name := by
  rw [OrderedMap.keys, OrderedMap.values, List.map_map]
  exact List.map_congr_left fun e he => (h e he).1

/-- The place of a variable is the place of its name. -/
theorem getElem?_keys (h : SoundTable t) (id : VarId) :
    t.keys[id]? = (t.at? id).map Variable.name := by
  rw [h.keys_eq, OrderedMap.at?_eq_getElem?, List.getElem?_map]

/-- The variables of a sound table are legal. -/
theorem legal_of_at? (h : SoundTable t) {id : VarId} {v : Variable} (hv : t.at? id = some v) :
    v.Legal := by
  obtain ⟨e, he, rfl⟩ := Option.map_eq_some_iff.mp hv
  exact (h e (List.mem_of_getElem? he)).2

/-- A legal variable with a new name can be added. -/
theorem insert (h : SoundTable t) {v : Variable} (hv : v.Legal) (hnew : v.name ∉ t.keys) :
    SoundTable (t.insert v.name v) := by
  intro e he
  rw [OrderedMap.entries_insert_of_not_mem v hnew] at he
  rcases List.mem_append.mp he with he | he
  · exact h e he
  · rw [List.mem_singleton.mp he]
    exact ⟨rfl, hv⟩

/-- What adding a legal variable with a new name does to the table. -/
structure Added (t : OrderedMap Variable) (v : Variable) (u : OrderedMap Variable) : Prop where
  sound : SoundTable u
  size : u.size = t.size + 1
  keys : u.keys = t.keys ++ [v.name]
  kept : ∀ id w, t.at? id = some w → u.at? id = some w
  last : u.at? t.size = some v

/-- Adding a legal variable with a new name does what `Added` says. -/
theorem added (h : SoundTable t) {v : Variable} (hv : v.Legal) (hnew : v.name ∉ t.keys) :
    Added t v (t.insert v.name v) where
  sound := h.insert hv hnew
  size := OrderedMap.size_insert_of_not_mem v hnew
  keys := OrderedMap.keys_insert_of_not_mem v hnew
  kept := fun _ _ hw => OrderedMap.at?_insert_of_not_mem hnew hw
  last := OrderedMap.at?_insert_size v hnew

/-- Variables may be changed, as long as they keep their names and stay legal. -/
theorem of_at? {u : OrderedMap Variable} (h : SoundTable t) (hkeys : u.keys = t.keys)
    (hat : ∀ id w, u.at? id = some w → ∃ v, t.at? id = some v ∧ w.name = v.name ∧ w.Legal) :
    SoundTable u := by
  intro e he
  obtain ⟨id, hid⟩ := List.getElem?_of_mem he
  obtain ⟨v, hv, hname, hlegal⟩ := hat id e.2 (by simp [OrderedMap.at?, hid])
  refine ⟨?_, hlegal⟩
  have hkey : u.keys[id]? = some e.1 := by simp [OrderedMap.keys, hid]
  rw [hkeys, h.getElem?_keys, hv] at hkey
  rw [hname]
  exact (Option.some.inj hkey).symm

end SoundTable

/-! ### Queries -/

/-- The name that stands at a place of the table. -/
def Query.nameAt (q : Query) (id : VarId) : String := q.table.keys[id]?.getD ""

/-- Two places of the table have different names. -/
theorem Query.nameAt_inj {q : Query} {i j : VarId} (hi : i < q.table.size)
    (hj : j < q.table.size) (h : q.nameAt i = q.nameAt j) : i = j := by
  rw [← OrderedMap.length_keys] at hi hj
  simp only [nameAt, List.getElem?_eq_getElem, hi, hj, Option.getD_some] at h
  exact q.table.nodup_keys.getElem_inj_iff.mp h

/-- What the operations on a query keep. -/
structure Query.WellFormed (q : Query) : Prop where
  table : SoundTable q.table
  projections_nodup : q.projections.Nodup
  projections_lt : ∀ id ∈ q.projections, id < q.table.size
  order_lt : ∀ k ∈ q.order, k.variableId < q.table.size
  made : ∀ c ∈ q.clauses, c.Made
  clauses_lt : ∀ c ∈ q.clauses, ∀ id ∈ c.varIds, id < q.table.size
  endpoints_nodup : q.endpoints.Nodup
  active_mem : ∀ e, q.activeEndpoint = some e → e ∈ q.endpoints

/-- The table lists the variables under their own names, and the result columns are places of it. -/
structure Query.Indexed (q : Query) : Prop where
  names : q.table.keys = q.table.values.map Variable.name
  columns_lt : ∀ id ∈ q.projections, id < q.table.size

namespace Query.Indexed

variable {q : Query}

/-- The name at the place of a variable is that of the variable. -/
theorem nameAt_eq (h : q.Indexed) {id : VarId} {v : Variable} (hv : q.table.at? id = some v) :
    q.nameAt id = v.name := by
  rw [OrderedMap.at?_eq_getElem?] at hv
  rw [nameAt, h.names, List.getElem?_map, hv]
  rfl

/-- The result columns are read off the keys of the table. -/
theorem projectedNames_eq (h : q.Indexed) :
    q.projectedNames = .ok (q.projections.map q.nameAt) := by
  have hnames : ∀ ids : List VarId, (∀ id ∈ ids, id < q.table.size) →
      (ids.mapM q.var).map (List.map Variable.name) = .ok (ids.map q.nameAt) := by
    intro ids
    induction ids with
    | nil => intro _; rfl
    | cons id ids ih =>
        intro hlt
        obtain ⟨v, hv⟩ := OrderedMap.exists_at? (hlt id List.mem_cons_self)
        obtain ⟨vs, hvs, hmap⟩ := Outcome.map_eq_ok.mp
          (ih fun i hi => hlt i (List.mem_cons_of_mem _ hi))
        have hall : (id :: ids).mapM q.var = .ok (v :: vs) :=
          Outcome.mapM_eq_ok.mpr (.cons (Query.var_eq_ok.mpr hv) (Outcome.mapM_eq_ok.mp hvs))
        rw [hall, List.map_cons, h.nameAt_eq hv, ← hmap]
        rfl
  exact hnames q.projections h.columns_lt

end Query.Indexed

/-- A legal variable with a new name is added at the end of the table. -/
theorem Query.exists_addVariable {q : Query} (h : SoundTable q.table) {v : Variable}
    (hv : v.Legal) (hnew : v.name ∉ q.table.keys) :
    ∃ u, SoundTable.Added q.table v u ∧
      q.addVariable v = .ok (q.table.size, { q with table := u }) :=
  ⟨_, h.added hv hnew, addVariable_eq_ok.mpr ⟨hv.name, hnew, rfl, rfl⟩⟩

/-- Only a variable of the table has a value. -/
theorem Query.lt_of_boundAt {q : Query} {id : VarId} {c : Constant}
    (hc : q.boundAt id = some c) : id < q.table.size := by
  obtain ⟨v, hv, -⟩ := Option.bind_eq_some_iff.mp hc
  exact OrderedMap.lt_size_of_at? hv

/-- Whether the slot holds a blank node. -/
def Term.isBlank : Term → Bool
  | .resource (.blank _) => true
  | _ => false

/-- The table has the variable of a slot. -/
def Query.Has (q : Query) (tm : Term) : Prop := ∀ id ∈ tm.var?, id < q.table.size

/-- The table has the variables of the pattern. -/
def Query.Holds (q : Query) (p : Pattern) : Prop :=
  q.Has p.subject ∧ q.Has p.predicate ∧ q.Has p.object

/-- A table has the variables of a pattern when their places are in it. -/
theorem Query.holds_iff {q : Query} {p : Pattern} :
    q.Holds p ↔ ∀ id ∈ p.varIds, id < q.table.size := by
  constructor
  · rintro ⟨hs, hm, ho⟩ id hid
    obtain ⟨x, hx, hvar⟩ := List.mem_filterMap.mp hid
    simp only [List.mem_cons, List.not_mem_nil, or_false] at hx
    rcases hx with rfl | rfl | rfl
    · exact hs id hvar
    · exact hm id hvar
    · exact ho id hvar
  · intro hlt
    have hhas : ∀ x ∈ [p.subject, p.predicate, p.object], q.Has x :=
      fun x hx id hid => hlt id (List.mem_filterMap.mpr ⟨x, hx, hid⟩)
    exact ⟨hhas _ (by simp), hhas _ (by simp), hhas _ (by simp)⟩

/-- No variable of the query has a value. -/
def Query.Unbound (q : Query) : Prop := ∀ v ∈ q.table.values, v.bound = none

/-- No pattern of the query has a blank node. -/
def Query.NoBlank (q : Query) : Prop :=
  ∀ p ∈ q.patterns, ∀ t ∈ [p.subject, p.predicate, p.object], t.isBlank = false

/-- In a query without values no entry has one. -/
theorem Query.Unbound.of_at? {q : Query} (h : q.Unbound) {id : VarId} {v : Variable}
    (hv : q.table.at? id = some v) : v.bound = none := by
  rw [OrderedMap.at?_eq_getElem?] at hv
  exact h v (List.mem_of_getElem? hv)

/-- In a query without values no place has one. -/
theorem Query.Unbound.boundAt {q : Query} (h : q.Unbound) (id : VarId) : q.boundAt id = none :=
  Option.bind_eq_none_iff.mpr fun _ hv => h.of_at? hv

namespace Query.WellFormed

variable {q q' : Query} {id : VarId}

/-- A query without variables and without a body is well formed. -/
theorem ofNotes (uri : String) (label comment : Option String) :
    WellFormed { uri := uri, label := label, comment := comment } where
  table := SoundTable.empty
  projections_nodup := List.nodup_nil
  projections_lt := by simp
  order_lt := by simp
  made := by simp
  clauses_lt := by simp
  endpoints_nodup := List.nodup_nil
  active_mem := by simp

/-- The notes of a query do not matter. -/
theorem annotated (h : q.WellFormed) (label comment : Option String) :
    WellFormed { q with label := label, comment := comment } :=
  ⟨h.table, h.projections_nodup, h.projections_lt, h.order_lt, h.made, h.clauses_lt,
    h.endpoints_nodup, h.active_mem⟩

/-- A table may be exchanged for one that is no smaller. -/
theorem withTable (h : q.WellFormed) {t : OrderedMap Variable} (ht : SoundTable t)
    (hsize : q.table.size ≤ t.size) (instanceId : Option String) :
    WellFormed { q with table := t, instanceId := instanceId } where
  table := ht
  projections_nodup := h.projections_nodup
  projections_lt := fun id hid => lt_of_lt_of_le (h.projections_lt id hid) hsize
  order_lt := fun k hk => lt_of_lt_of_le (h.order_lt k hk) hsize
  made := h.made
  clauses_lt := fun c hc id hid => lt_of_lt_of_le (h.clauses_lt c hc id hid) hsize
  endpoints_nodup := h.endpoints_nodup
  active_mem := h.active_mem

/-- Scoping a query keeps it well formed. -/
theorem scopeTo (h : q.WellFormed) (instanceId : String) : (q.scopeTo instanceId).WellFormed := by
  refine h.withTable (h.table.of_at? (OrderedMap.keys_map _ _) ?_) (by simp) (some instanceId)
  intro id w hw
  rw [OrderedMap.at?_map] at hw
  obtain ⟨v, hv, rfl⟩ := Option.map_eq_some_iff.mp hw
  have hlegal := h.table.legal_of_at? hv
  exact ⟨v, hv, rfl, hlegal.name, hlegal.bound⟩

/-- Adding a variable keeps a query well formed, and the answer is a place of the grown table. -/
theorem addVariable (h : q.WellFormed) {v : Variable} (hv : ∀ c, v.bound = some c → c.IsNormal)
    (hok : q.addVariable v = .ok (id, q')) :
    q'.WellFormed ∧ id < q'.table.size ∧ q.table.size ≤ q'.table.size := by
  obtain ⟨hname, hnew, rfl, rfl⟩ := Query.addVariable_eq_ok.mp hok
  have hsize := OrderedMap.size_insert_of_not_mem v hnew
  refine ⟨h.withTable (h.table.insert ⟨hname, hv⟩ hnew) ?_ q.instanceId, ?_, ?_⟩
  · rw [hsize]
    exact Nat.le_succ _
  · exact hsize ▸ Nat.lt_succ_self _
  · exact hsize ▸ Nat.le_succ _

/-- So does looking up a name or adding its variable. -/
theorem internVariable (h : q.WellFormed) {v : Variable}
    (hv : ∀ c, v.bound = some c → c.IsNormal) (hok : q.internVariable v = .ok (id, q')) :
    q'.WellFormed ∧ id < q'.table.size ∧ q.table.size ≤ q'.table.size := by
  rcases Query.internVariable_eq_ok.mp hok with ⟨hid, rfl⟩ | hadd
  · refine ⟨h, ?_, le_rfl⟩
    rw [← OrderedMap.length_keys]
    exact (List.getElem?_eq_some_iff.mp hid).1
  · exact h.addVariable hv hadd

/-- So does adding a fresh variable. -/
theorem freshVariable (h : q.WellFormed) {base : String}
    (hok : q.freshVariable base = .ok (id, q')) : q'.WellFormed := by
  obtain ⟨-, hadd⟩ := Query.freshVariable_eq_ok.mp hok
  exact (h.addVariable (by simp) hadd).1

/-- Setting a value that is as its constructors make it keeps a query well formed and its table as
long. -/
theorem setBound (h : q.WellFormed) {value old : Option Constant}
    (hvalue : ∀ c, value = some c → c.IsNormal) (hok : q.setBound id value = .ok (old, q')) :
    q'.WellFormed ∧ q'.table.size = q.table.size := by
  obtain ⟨-, -, rfl⟩ := Query.setBound_eq_ok.mp hok
  refine ⟨h.withTable (h.table.of_at? (OrderedMap.keys_modifyAt _ _ _) ?_) (by simp)
    q.instanceId, by simp⟩
  intro i w hw
  rw [OrderedMap.at?_modifyAt] at hw
  obtain ⟨v, hv, rfl⟩ := Option.map_eq_some_iff.mp hw
  have hlegal := h.table.legal_of_at? hv
  refine ⟨v, hv, ?_⟩
  split
  · exact ⟨rfl, hlegal.name, hvalue⟩
  · exact ⟨rfl, hlegal⟩

/-- Result columns may be exchanged for others of the table that are listed once. -/
theorem withProjections (h : q.WellFormed) {ids : List VarId} (hnodup : ids.Nodup)
    (hlt : ∀ id ∈ ids, id < q.table.size) : WellFormed { q with projections := ids } :=
  ⟨h.table, hnodup, hlt, h.order_lt, h.made, h.clauses_lt, h.endpoints_nodup, h.active_mem⟩

/-- Adding a result column keeps a query well formed and leaves its table alone. -/
theorem project (h : q.WellFormed) {isNew : Bool} (hok : q.project id = .ok (isNew, q')) :
    q'.WellFormed ∧ q'.table = q.table := by
  obtain ⟨hid, -, rfl⟩ := Query.project_eq_ok.mp hok
  refine ⟨h.withProjections (nodup_appendNew h.projections_nodup id) ?_, rfl⟩
  intro i hi
  rcases mem_appendNew.mp hi with hi | rfl
  · exact h.projections_lt i hi
  · exact hid

/-- Taking one away keeps it well formed. -/
theorem unproject (h : q.WellFormed) (id : VarId) : (q.unproject id).2.WellFormed :=
  h.withProjections (h.projections_nodup.filter _)
    fun i hi => h.projections_lt i (List.mem_of_mem_filter hi)

/-- The variables of patterns, at any depth, are in the table of a well-formed query. -/
theorem patterns_lt (h : q.WellFormed) {p : Pattern} (hp : p ∈ q.patterns) {id : VarId}
    (hid : id ∈ p.varIds) : id < q.table.size := by
  rw [Query.patterns, Clause.patternsAll_eq_flatMap] at hp
  obtain ⟨c, hc, hpc⟩ := List.mem_flatMap.mp hp
  exact h.clauses_lt c hc id (Clause.mem_varIds.mpr ⟨p, hpc, hid⟩)

/-- The table of a well-formed query has the variables of its patterns. -/
theorem holds (h : q.WellFormed) {p : Pattern} (hp : p ∈ q.patterns) : q.Holds p :=
  holds_iff.mpr fun _ hid => h.patterns_lt hp hid

/-- The patterns of a well-formed query, at any depth, are made. -/
theorem made_pattern (h : q.WellFormed) {p : Pattern} (hp : p ∈ q.patterns) :
    (Clause.pattern p).Made := by
  rw [Query.patterns, Clause.patternsAll_eq_flatMap] at hp
  obtain ⟨c, hc, hpc⟩ := List.mem_flatMap.mp hp
  exact (h.made c hc).of_mem_patterns hpc

/-- A well-formed query is indexed. -/
theorem indexed (h : q.WellFormed) : q.Indexed := ⟨h.table.keys_eq, h.projections_lt⟩

/-- The name at the place of a variable is that of the variable. -/
theorem nameAt_eq (h : q.WellFormed) {v : Variable} (hv : q.table.at? id = some v) :
    q.nameAt id = v.name :=
  h.indexed.nameAt_eq hv

/-- The result columns are read off the keys of the table. -/
theorem projectedNames_eq (h : q.WellFormed) :
    q.projectedNames = .ok (q.projections.map q.nameAt) :=
  h.indexed.projectedNames_eq

/-- Putting the columns into another order keeps a query well formed and leaves its table alone. -/
theorem reorder (h : q.WellFormed) {order : List String} (hok : q.reorder order = .ok q') :
    q'.WellFormed ∧ q'.table = q.table := by
  obtain ⟨names, ids, hnames, hperm, hids, rfl⟩ := Query.reorder_eq_ok.mp hok
  rw [h.projectedNames_eq] at hnames
  obtain rfl := Except.ok.inj hnames
  have hdistinct : (q.projections.map q.nameAt).Nodup := by
    refine h.projections_nodup.map_on ?_
    intro i hi j hj hij
    exact nameAt_inj (h.projections_lt i hi) (h.projections_lt j hj) hij
  have hkeys : ids.map (fun id => q.table.keys[id]?) = (order.map bareName).map some := by
    rw [← List.forall₂_eq_eq_eq, List.map_map, List.forall₂_map_left_iff,
      List.forall₂_map_right_iff]
    exact hids.flip
  have hnodup : (ids.map fun id => q.table.keys[id]?).Nodup := by
    rw [hkeys]
    exact (hperm.nodup_iff.mp hdistinct).map (Option.some_injective _)
  exact ⟨h.withProjections hnodup.of_map (Query.lt_size_of_reorder hok), rfl⟩

/-- A made clause over the table can be added. -/
theorem pushClause (h : q.WellFormed) {c : Clause} (hc : c.Made)
    (hok : q.pushClause c = .ok q') : q'.WellFormed ∧ q'.table = q.table := by
  obtain ⟨hcheck, rfl⟩ := Query.pushClause_eq_ok.mp hok
  have hlt := (Query.checkClause_eq_ok_of_made hc).mp hcheck
  refine ⟨⟨h.table, h.projections_nodup, h.projections_lt, h.order_lt, ?_, ?_,
    h.endpoints_nodup, h.active_mem⟩, rfl⟩
  · intro d hd
    rcases List.mem_append.mp hd with hd | hd
    · exact h.made d hd
    · exact List.mem_singleton.mp hd ▸ hc
  · intro d hd
    rcases List.mem_append.mp hd with hd | hd
    · exact h.clauses_lt d hd
    · exact List.mem_singleton.mp hd ▸ hlt

/-- Adding an order key keeps a query well formed and leaves its table alone. -/
theorem pushOrder (h : q.WellFormed) {k : OrderKey} (hok : q.pushOrder k = .ok q') :
    q'.WellFormed ∧ q'.table = q.table := by
  obtain ⟨hk, rfl⟩ := Query.pushOrder_eq_ok.mp hok
  refine ⟨⟨h.table, h.projections_nodup, h.projections_lt, ?_, h.made, h.clauses_lt,
    h.endpoints_nodup, h.active_mem⟩, rfl⟩
  intro k' hk'
  rcases List.mem_append.mp hk' with hk' | hk'
  · exact h.order_lt k' hk'
  · exact List.mem_singleton.mp hk' ▸ hk

/-- Recording an endpoint keeps a query well formed. -/
theorem addEndpoint (h : q.WellFormed) (uri : String) : (q.addEndpoint uri).WellFormed :=
  ⟨h.table, h.projections_nodup, h.projections_lt, h.order_lt, h.made, h.clauses_lt,
    nodup_appendNew h.endpoints_nodup uri,
    fun e he => mem_appendNew.mpr (Or.inl (h.active_mem e he))⟩

/-- So does choosing one. -/
theorem activate (h : q.WellFormed) (uri : String) : (q.activate uri).WellFormed := by
  refine ⟨h.table, h.projections_nodup, h.projections_lt, h.order_lt, h.made, h.clauses_lt,
    nodup_appendNew h.endpoints_nodup uri, ?_⟩
  intro e he
  exact mem_appendNew.mpr (Or.inr (Option.some.inj he).symm)

/-- A well-formed query passes its own check. -/
theorem validate (h : q.WellFormed) : q.validate = .ok () := by
  refine validate_eq_ok.mpr ⟨h.projections_lt, h.order_lt, h.clauses_lt, ?_,
    fun e he => (h.table e he).1⟩
  intro e cs vs hc
  have hcheck := (checkClause_eq_ok_of_made (h.made _ hc)).mpr (h.clauses_lt _ hc)
  exact (checkClause_eq_ok.mp hcheck).2 e cs vs rfl

end Query.WellFormed

end SparqlCompose
