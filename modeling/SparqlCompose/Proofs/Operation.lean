import Mathlib
import SparqlCompose.Proofs.Clause
import SparqlCompose.Proofs.OrderedMap
import SparqlCompose.Proofs.Outcome
import SparqlCompose.Query.Basic

/-!
# What the operations on a query do

One law for each operation that may fail: when it succeeds, and which query it then answers.
Callers use the laws and do not open the operations again.
-/

namespace SparqlCompose

/-- A name determines its place. -/
theorem OrderedMap.getElem?_keys_inj {α : Type} {m : OrderedMap α} {i j : Nat} {k : String}
    (hi : m.keys[i]? = some k) (hj : m.keys[j]? = some k) : i = j := by
  obtain ⟨hlt, hik⟩ := List.getElem?_eq_some_iff.mp hi
  obtain ⟨hlt', hjk⟩ := List.getElem?_eq_some_iff.mp hj
  exact m.nodup_keys.getElem_inj_iff.mp (hik.trans hjk.symm)

namespace Query

variable {q q' : Query} {id : VarId}

/-- Exactly the places of the table pass. -/
theorem checkId_eq_ok : q.checkId id = .ok () ↔ id < q.table.size := by
  unfold checkId
  split <;> simp_all

/-- A lookup answers the variable at the place. -/
theorem var_eq_ok {v : Variable} : q.var id = .ok v ↔ q.table.at? id = some v := by
  unfold var
  split <;> simp_all

/-- A variable is added exactly when its name is legal and new; it goes to the end. -/
theorem addVariable_eq_ok {v : Variable} :
    q.addVariable v = .ok (id, q') ↔
      isVarName v.name = true ∧ v.name ∉ q.table.keys ∧ id = q.table.size ∧
        q' = { q with table := q.table.insert v.name v } := by
  rw [← OrderedMap.contains_iff]
  unfold addVariable
  constructor
  · intro h
    split at h
    · cases h
    · next hname =>
        split at h
        · cases h
        · next hnew =>
            obtain ⟨rfl, rfl⟩ := Prod.mk.inj (Except.ok.inj h)
            exact ⟨by simpa using hname, hnew, rfl, rfl⟩
  · intro hparts
    obtain ⟨hname, hnew, rfl, rfl⟩ := hparts
    rw [if_neg (by simp [hname]), if_neg hnew]

/-- A variable whose name is known is found, any other is added. -/
theorem internVariable_eq_ok {v : Variable} :
    q.internVariable v = .ok (id, q') ↔
      (q.table.keys[id]? = some v.name ∧ q' = q) ∨ q.addVariable v = .ok (id, q') := by
  unfold internVariable idOf?
  split
  · next i hi =>
      have hkey := OrderedMap.idxOf?_eq_some_iff.mp hi
      constructor
      · intro h
        obtain ⟨rfl, rfl⟩ := Prod.mk.inj (Except.ok.inj h)
        exact Or.inl ⟨hkey, rfl⟩
      · intro hcases
        rcases hcases with ⟨hid, rfl⟩ | hadd
        · rw [OrderedMap.getElem?_keys_inj hid hkey]
        · exact absurd (List.mem_of_getElem? hkey) (addVariable_eq_ok.mp hadd).2.1
  · next hnone =>
      refine (or_iff_right ?_).symm
      intro hparts
      obtain ⟨hid, -⟩ := hparts
      exact OrderedMap.idxOf?_eq_none_iff.mp hnone (List.mem_of_getElem? hid)

/-- A fresh variable is added under a name that is found for the wanted one. -/
theorem freshVariable_eq_ok {base : String} :
    q.freshVariable base = .ok (id, q') ↔
      isVarName (bareName base) = true ∧
        q.addVariable
          { uri := q.variableUri (uniqueName (bareName base) q.table.keys)
            name := uniqueName (bareName base) q.table.keys } = .ok (id, q') := by
  unfold freshVariable
  by_cases h : isVarName (bareName base) = true
  · rw [if_neg (by simp [h])]
    exact (and_iff_right h).symm
  · rw [if_pos (by simpa using h)]
    simp [h]

/-- A value is set or cleared at a place of the table. -/
theorem setBound_eq_ok {value old : Option Constant} :
    q.setBound id value = .ok (old, q') ↔
      id < q.table.size ∧ old = q.boundAt id ∧
        q' = { q with table := q.table.modifyAt id fun v => { v with bound := value } } := by
  unfold setBound
  rw [Outcome.check_bind_eq_ok, checkId_eq_ok]
  refine and_congr_right fun _ => ?_
  simp [pure, Except.pure, eq_comm]

/-- A place of the table becomes a result column, if it is none yet. -/
theorem project_eq_ok {isNew : Bool} :
    q.project id = .ok (isNew, q') ↔
      id < q.table.size ∧ isNew = !q.isProjected id ∧
        q' = { q with projections := appendNew q.projections id } := by
  have hrest : (if q.isProjected id then pure (false, q)
      else pure (true, { q with projections := q.projections ++ [id] }) :
        Except QueryError (Bool × Query)) =
      .ok (!q.isProjected id, { q with projections := appendNew q.projections id }) := by
    by_cases h : id ∈ q.projections <;> simp [isProjected, appendNew, h, pure, Except.pure]
  unfold project
  rw [Outcome.check_bind_eq_ok, checkId_eq_ok]
  refine and_congr_right fun _ => ?_
  rw [hrest]
  simp [eq_comm]

/-- A clause passes when the places in its patterns, and those that it lists if it is a block,
are in the table. -/
theorem checkClause_eq_ok {c : Clause} :
    q.checkClause c = .ok () ↔
      (∀ id ∈ c.varIds, id < q.table.size) ∧
        ∀ e cs vs, c = .service e cs vs → ∀ id ∈ vs, id < q.table.size := by
  unfold checkClause
  rw [Outcome.check_bind_eq_ok, Outcome.forM_eq_ok]
  simp only [checkId_eq_ok]
  cases c with
  | pattern p => simp [pure, Except.pure]
  | service e cs vs =>
      refine and_congr_right fun _ => (Outcome.forM_eq_ok (l := vs)).trans ?_
      simp [checkId_eq_ok]

/-- A made clause passes when the places in its patterns are in the table. -/
theorem checkClause_eq_ok_of_made {c : Clause} (hmade : c.Made) :
    q.checkClause c = .ok () ↔ ∀ id ∈ c.varIds, id < q.table.size := by
  rw [checkClause_eq_ok]
  refine and_iff_left_of_imp ?_
  intro hlt e cs vs heq id hid
  subst heq
  rw [(Clause.made_service_iff.mp hmade).2] at hid
  exact hlt id (Clause.mem_varIds.mpr (Clause.mem_varIdsAll.mp hid))

/-- What the check of a query looks at: the places where it finds them, and the keys of the
table. -/
structure Valid (q : Query) : Prop where
  columns_lt : ∀ id ∈ q.projections, id < q.table.size
  order_lt : ∀ k ∈ q.order, k.variableId < q.table.size
  slots_lt : ∀ c ∈ q.clauses, ∀ id ∈ c.varIds, id < q.table.size
  lists_lt : ∀ e cs vs, .service e cs vs ∈ q.clauses → ∀ id ∈ vs, id < q.table.size
  names : ∀ e ∈ q.table.entries, e.1 = e.2.name

/-- A query passes its check exactly when what the check looks at is in order. -/
theorem validate_eq_ok : q.validate = .ok () ↔ q.Valid := by
  have hnames : (q.table.entries.find? fun e => e.1 != e.2.name) = none ↔
      ∀ e ∈ q.table.entries, e.1 = e.2.name := by
    simp [List.find?_eq_none]
  unfold validate
  rw [Outcome.check_bind_eq_ok, Outcome.check_bind_eq_ok, Outcome.check_bind_eq_ok,
    Outcome.forM_eq_ok, Outcome.forM_eq_ok, Outcome.forM_eq_ok]
  simp only [checkId_eq_ok, checkClause_eq_ok]
  constructor
  · intro hparts
    obtain ⟨hcolumns, horder, hclauses, hkeys⟩ := hparts
    refine ⟨hcolumns, horder, fun c hc => (hclauses c hc).1,
      fun e cs vs hc => (hclauses _ hc).2 e cs vs rfl, hnames.mp ?_⟩
    split at hkeys
    · cases hkeys
    · assumption
  · intro h
    refine ⟨h.columns_lt, h.order_lt, fun c hc => ⟨h.slots_lt c hc, ?_⟩, ?_⟩
    · rintro e cs vs rfl
      exact h.lists_lt e cs vs hc
    · rw [hnames.mpr h.names]
      rfl

/-- A clause that passes goes to the end of the body. -/
theorem pushClause_eq_ok {c : Clause} :
    q.pushClause c = .ok q' ↔
      q.checkClause c = .ok () ∧ q' = { q with clauses := q.clauses ++ [c] } := by
  unfold pushClause
  rw [Outcome.check_bind_eq_ok]
  simp [pure, Except.pure, eq_comm]

/-- An order key on a place of the table goes after the others. -/
theorem pushOrder_eq_ok {k : OrderKey} :
    q.pushOrder k = .ok q' ↔
      k.variableId < q.table.size ∧ q' = { q with order := q.order ++ [k] } := by
  unfold pushOrder
  rw [Outcome.check_bind_eq_ok, checkId_eq_ok]
  simp [pure, Except.pure, eq_comm]

/-- A name that is found has its place in the table. -/
theorem idOf?_lt {name : String} (h : q.idOf? name = some id) : id < q.table.size := by
  rw [← OrderedMap.length_keys]
  exact (List.getElem?_eq_some_iff.mp (OrderedMap.idxOf?_eq_some_iff.mp h)).1

/-- A name resolves to its place. -/
theorem resolve_eq_ok {name : String} :
    q.resolve name = .ok id ↔ q.table.keys[id]? = some (bareName name) := by
  rw [← OrderedMap.idxOf?_eq_some_iff]
  unfold resolve idOf?
  split <;> simp_all

/-- Two lists of names have no name whose counts differ exactly when each is a permutation of
the other. -/
theorem firstMiscounted_eq_none_iff {xs ys : List String} :
    firstMiscounted xs ys (xs ++ ys) = none ↔ xs.Perm ys := by
  simp only [firstMiscounted, List.find?_eq_none, bne_iff_ne, ne_eq, not_not,
    List.perm_iff_count]
  constructor
  · intro h name
    by_cases hmem : name ∈ xs ++ ys
    · exact h name hmem
    · obtain ⟨hx, hy⟩ := not_or.mp (mt List.mem_append.mpr hmem)
      rw [List.count_eq_zero_of_not_mem hx, List.count_eq_zero_of_not_mem hy]
  · intro h name _
    exact h name

/-- The result columns are put into an order exactly when it is a permutation of their names,
and then they are the places of the names in that order. -/
theorem reorder_eq_ok {order : List String} :
    q.reorder order = .ok q' ↔
      ∃ names ids, q.projectedNames = .ok names ∧ names.Perm (order.map bareName) ∧
        List.Forall₂ (fun name id => q.table.keys[id]? = some (bareName name)) order ids ∧
        q' = { q with projections := ids } := by
  unfold reorder
  rw [Outcome.bind_eq_ok]
  refine exists_congr fun names => ?_
  rw [exists_and_left]
  refine and_congr_right fun _ => ?_
  rw [exists_and_left, ← firstMiscounted_eq_none_iff]
  simp only [← resolve_eq_ok, ← Outcome.mapM_eq_ok]
  split
  · next h => simp [h]
  · next h =>
      rw [Outcome.bind_eq_ok]
      constructor
      · intro hparts
        obtain ⟨ids, hids, hq⟩ := hparts
        exact ⟨h, ids, hids, (Except.ok.inj hq).symm⟩
      · intro hparts
        obtain ⟨-, ids, hids, rfl⟩ := hparts
        exact ⟨ids, hids, rfl⟩

/-- The columns of a query that was reordered are places of the table. -/
theorem lt_size_of_reorder {order : List String} (hok : q.reorder order = .ok q') :
    ∀ i ∈ q'.projections, i < q.table.size := by
  obtain ⟨names, ids, -, -, hids, rfl⟩ := reorder_eq_ok.mp hok
  change ∀ i ∈ ids, i < q.table.size
  clear hok
  induction hids with
  | nil => simp
  | cons hkey _ ih =>
      refine List.forall_mem_cons.mpr ⟨?_, ih⟩
      rw [← OrderedMap.length_keys]
      exact (List.getElem?_eq_some_iff.mp hkey).1

end Query

end SparqlCompose
