import Mathlib
import SparqlCompose.Proofs.Validation

/-!
# What can be seen of a query

A `View` holds the names of the result columns of a query and the values of its variables by name.
What can be seen changes when the columns change, and the values stay as they are then; or it
changes when a value is set or cleared, and the columns and all other values stay as they are
(`Query.Indexed.setBound`).  Nothing else is seen.  For this a query has to be indexed; every query
that passes `validate` is (`Query.indexed_of_validate`), and the operations keep a query indexed.
-/

namespace SparqlCompose

/-- The names of the result columns, and the value of each name. -/
@[ext]
structure View where
  columns : List String
  value : String → Option Constant

namespace Query

variable {q q' : Query} {id : VarId}

/-- What can be seen of a query.  A name that the query does not have has no value. -/
def view (q : Query) : View where
  columns := q.projections.map q.nameAt
  value name := (q.idOf? name).bind q.boundAt

/-- Queries with the same keys have the same names at their places. -/
theorem nameAt_congr (h : q'.table.keys = q.table.keys) : q'.nameAt = q.nameAt := by
  funext i
  rw [nameAt, nameAt, h]

/-- A view depends on the keys of the table, the values of its variables and the columns. -/
theorem view_congr (hkeys : q'.table.keys = q.table.keys)
    (hbound : ∀ i, q'.boundAt i = q.boundAt i) (hcolumns : q'.projections = q.projections) :
    q'.view = q.view := by
  ext1
  · rw [view, view, hcolumns, nameAt_congr hkeys]
  · funext name
    have hplace : q'.idOf? name = q.idOf? name := OrderedMap.idxOf?_congr hkeys name
    simp only [view, hplace, funext hbound]

/-- Under the name of a variable its value is seen. -/
theorem value_nameAt (hid : id < q.table.size) : q.view.value (q.nameAt id) = q.boundAt id := by
  rw [← OrderedMap.length_keys] at hid
  have hplace : q.idOf? (q.nameAt id) = some id := by
    refine OrderedMap.idxOf?_eq_some_iff.mpr ?_
    rw [nameAt, List.getElem?_eq_getElem hid, Option.getD_some]
  simp only [view, hplace, Option.bind_some]

/-! ### Indexed queries -/

/-- A query that is valid is indexed. -/
theorem indexed_of_validate (h : q.validate = .ok ()) : q.Indexed := by
  have hvalid := validate_eq_ok.mp h
  refine ⟨?_, hvalid.columns_lt⟩
  rw [OrderedMap.keys, OrderedMap.values, List.map_map]
  exact List.map_congr_left hvalid.names

namespace Indexed

/-- The table may be exchanged for one with the same names. -/
theorem withTable (h : q.Indexed) {t : OrderedMap Variable} (hkeys : t.keys = q.table.keys)
    (hnames : ∀ i, (t.at? i).map Variable.name = (q.table.at? i).map Variable.name)
    (instanceId : Option String) : Indexed { q with table := t, instanceId := instanceId } where
  names := by
    rw [hkeys, h.names]
    refine List.ext_getElem? fun i => ?_
    rw [List.getElem?_map, List.getElem?_map, ← OrderedMap.at?_eq_getElem?,
      ← OrderedMap.at?_eq_getElem?, hnames]
  columns_lt := by
    have hsize : t.size = q.table.size := by
      rw [← OrderedMap.length_keys, hkeys, OrderedMap.length_keys]
    intro i hi
    exact hsize ▸ h.columns_lt i hi

/-- Other result columns of the table leave a query indexed. -/
theorem withProjections (h : q.Indexed) {ids : List VarId} (hids : ∀ i ∈ ids, i < q.table.size) :
    Indexed { q with projections := ids } :=
  ⟨h.names, hids⟩

/-- So does scoping it to an instance. -/
theorem scopeTo (h : q.Indexed) (instanceId : String) : (q.scopeTo instanceId).Indexed := by
  refine h.withTable (OrderedMap.keys_map _ _) (fun i => ?_) (some instanceId)
  rw [OrderedMap.at?_map]
  cases q.table.at? i <;> rfl

/-- So does choosing an endpoint. -/
theorem activate (h : q.Indexed) (uri : String) : (q.activate uri).Indexed :=
  ⟨h.names, h.columns_lt⟩

/-- The key at the place of a variable is its name. -/
theorem key_of_at? (h : q.Indexed) {v : Variable} (hv : q.table.at? id = some v) :
    q.table.keys[id]? = some v.name := by
  rw [h.names, List.getElem?_map, ← OrderedMap.at?_eq_getElem?, hv]
  rfl

/-! ### What operations change -/

/-- A new variable without a value is not seen. -/
theorem addVariable (h : q.Indexed) {v : Variable} (hv : v.bound = none)
    (hok : q.addVariable v = .ok (id, q')) : q'.Indexed ∧ q'.view = q.view := by
  obtain ⟨-, hnew, -, rfl⟩ := addVariable_eq_ok.mp hok
  have hkeys := OrderedMap.keys_insert_of_not_mem v hnew
  have hsize := OrderedMap.size_insert_of_not_mem v hnew
  refine ⟨⟨?_, ?_⟩, ?_⟩
  · rw [hkeys, h.names, OrderedMap.values_insert_of_not_mem v hnew, List.map_append]
    rfl
  · intro i hi
    exact hsize ▸ Nat.lt_succ_of_lt (h.columns_lt i hi)
  · ext1
    · refine List.map_congr_left fun i hi => ?_
      have hlt : i < q.table.keys.length := by
        rw [OrderedMap.length_keys]
        exact h.columns_lt i hi
      rw [nameAt, nameAt, hkeys, List.getElem?_append_left hlt]
    · funext name
      cases hplace : q.idOf? name with
      | some i =>
          have hkey := OrderedMap.idxOf?_eq_some_iff.mp hplace
          obtain ⟨w, hw⟩ := OrderedMap.exists_at? (idOf?_lt hplace)
          have hplace' : idOf? { q with table := q.table.insert v.name v } name = some i := by
            refine OrderedMap.idxOf?_eq_some_iff.mpr ?_
            rw [hkeys, List.getElem?_append_left (List.getElem?_eq_some_iff.mp hkey).1, hkey]
          simp only [view, hplace, hplace', Option.bind_some, boundAt, hw,
            OrderedMap.at?_insert_of_not_mem hnew hw]
      | none =>
          -- either the name is that of the new variable, or neither table has it
          have hnone := OrderedMap.idxOf?_eq_none_iff.mp hplace
          simp only [view, hplace, Option.bind_none, Option.bind_eq_none_iff]
          intro i hi
          have hkey := OrderedMap.idxOf?_eq_some_iff.mp hi
          have hmem : name ∈ q.table.keys ++ [v.name] := hkeys ▸ List.mem_of_getElem? hkey
          rw [List.mem_append, or_iff_right hnone, List.mem_singleton] at hmem
          have hlast : i = q.table.size := by
            refine OrderedMap.getElem?_keys_inj hkey ?_
            rw [hkeys, hmem, ← OrderedMap.length_keys, List.getElem?_concat_length]
          simp only [boundAt, hlast, OrderedMap.at?_insert_size v hnew, Option.bind_some, hv]

/-- A value that is set or cleared is seen under the name of its variable, and nothing else
changes. -/
theorem setBound (h : q.Indexed) {value old : Option Constant} {v : Variable}
    (hok : q.setBound id value = .ok (old, q')) (hv : q'.table.at? id = some v) :
    q'.Indexed ∧
      q'.view = { q.view with value := Function.update q.view.value v.name value } := by
  obtain ⟨hid, -, rfl⟩ := setBound_eq_ok.mp hok
  have hkeys := OrderedMap.keys_modifyAt q.table id fun v => { v with bound := value }
  refine ⟨h.withTable hkeys (fun i => ?_) q.instanceId, ?_⟩
  · rw [OrderedMap.at?_modifyAt, Option.map_map]
    congr 1
    funext w
    simp only [Function.comp_apply]
    split <;> rfl
  · obtain ⟨w, hw⟩ := OrderedMap.exists_at? hid
    rw [OrderedMap.at?_modifyAt, hw, Option.map_some, if_pos rfl] at hv
    obtain rfl := Option.some.inj hv
    ext1
    · exact congrArg (q.projections.map ·) (nameAt_congr hkeys)
    · funext name
      -- a name has the same place as before, so only the value there has to be compared
      have hplace : idOf? { q with table := q.table.modifyAt id fun v => { v with bound := value } }
          name = q.idOf? name := OrderedMap.idxOf?_congr hkeys name
      have hkey := h.key_of_at? hw
      simp only [view, hplace, Function.update_apply]
      cases hname : q.idOf? name with
      | some i =>
          have hi := OrderedMap.idxOf?_eq_some_iff.mp hname
          obtain ⟨u, hu⟩ := OrderedMap.exists_at? (idOf?_lt hname)
          simp only [Option.bind_some, boundAt, OrderedMap.at?_modifyAt, hu, Option.map_some]
          by_cases hid' : id = i
          · subst hid'
            have hwn : name = w.name := Option.some.inj (hi.symm.trans hkey)
            rw [if_pos rfl, if_pos hwn]
          · have hwn : name ≠ w.name := by
              rintro rfl
              exact hid' (OrderedMap.getElem?_keys_inj hkey hi)
            rw [if_neg hid', if_neg hwn]
      | none =>
          have hwn : name ≠ w.name := by
            rintro rfl
            exact OrderedMap.idxOf?_eq_none_iff.mp hname (List.mem_of_getElem? hkey)
          rw [if_neg hwn]
          rfl

/-- A result column does not touch the values; if it was there, nothing is seen of the call. -/
theorem project (h : q.Indexed) {isNew : Bool} (hok : q.project id = .ok (isNew, q')) :
    q'.Indexed ∧ q'.view.value = q.view.value ∧ (isNew = false → q'.view = q.view) := by
  obtain ⟨hid, rfl, rfl⟩ := project_eq_ok.mp hok
  refine ⟨h.withProjections ?_, rfl, ?_⟩
  · intro i hi
    rcases mem_appendNew.mp hi with hi | rfl
    · exact h.columns_lt i hi
    · exact hid
  · intro hold
    have hmem : id ∈ q.projections := by simpa [isProjected] using hold
    refine view_congr rfl (fun _ => rfl) ?_
    simp [appendNew, hmem]

/-- Taking a column away does not touch the values; if there was none, nothing is seen of the call.
-/
theorem unproject (h : q.Indexed) (id : VarId) :
    (q.unproject id).2.Indexed ∧ (q.unproject id).2.view.value = q.view.value ∧
      ((q.unproject id).1 = false → (q.unproject id).2.view = q.view) := by
  refine ⟨h.withProjections fun i hi => h.columns_lt i (List.mem_of_mem_filter hi), rfl, ?_⟩
  intro hold
  have hmem : id ∉ q.projections := by simpa [Query.unproject, isProjected] using hold
  refine view_congr rfl (fun _ => rfl) (List.filter_eq_self.mpr fun i hi => ?_)
  simpa using ne_of_mem_of_not_mem hi hmem

/-- Another order of the columns does not touch the values. -/
theorem reorder (h : q.Indexed) {order : List String} (hok : q.reorder order = .ok q') :
    q'.Indexed ∧ q'.view.value = q.view.value := by
  have hlt := lt_size_of_reorder hok
  obtain ⟨names, ids, -, -, -, rfl⟩ := reorder_eq_ok.mp hok
  exact ⟨h.withProjections hlt, rfl⟩

/-- Nothing is seen of a clause. -/
theorem pushClause (h : q.Indexed) {c : Clause} (hok : q.pushClause c = .ok q') :
    q'.Indexed ∧ q'.view = q.view := by
  obtain ⟨-, rfl⟩ := pushClause_eq_ok.mp hok
  exact ⟨⟨h.names, h.columns_lt⟩, rfl⟩

end Indexed

/-- A composite is indexed, whatever its operands are. -/
theorem indexed_join {l r : Query} {n m : String} {requested mode : JoinMode}
    (hok : join ⟨l, n⟩ ⟨r, m⟩ requested = .ok (q, mode)) : q.Indexed :=
  indexed_of_validate (validate_eq_ok.mpr (valid_join hok))

end Query

end SparqlCompose
