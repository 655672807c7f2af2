import Mathlib
import SparqlCompose.Proofs.Built

/-!
# The order of the result columns

The columns of a query are put into an order that is given as a list of names.  That succeeds
exactly when the list is a permutation of the names of the columns, and then the columns have the
names of the list, in its order; a list that is none is refused for the first name that it has too
often or not often enough, and nothing changes (`Query.reorder_iff_perm`).

A list passes the check of the counts when it is a permutation (`firstMiscounted_eq_none_iff`), and
all names of a permutation are names of the table, so the names that passed are found
(`Query.WellFormed.exists_reorder`): the search for places, which comes after the check, never
fails.
-/

namespace SparqlCompose.Query

variable {q q' : Query} {xs ys order : List String} {name : String}

/-- The name is the first, in one list and then in the other, that the two do not have equally
often. -/
def FirstApart (xs ys : List String) (name : String) : Prop :=
  ∃ before after, xs ++ ys = before ++ name :: after ∧ xs.count name ≠ ys.count name ∧
    ∀ n ∈ before, xs.count n = ys.count n

/-- The name that a refusal gives is the first one at fault. -/
theorem firstMiscounted_eq_some_iff :
    firstMiscounted xs ys (xs ++ ys) = some name ↔ FirstApart xs ys name := by
  rw [firstMiscounted, List.find?_eq_some_iff_append]
  constructor
  · intro hparts
    obtain ⟨hname, before, after, hsplit, hbefore⟩ := hparts
    exact ⟨before, after, hsplit, by simpa using hname, by simpa using hbefore⟩
  · intro hparts
    obtain ⟨before, after, hsplit, hname, hbefore⟩ := hparts
    exact ⟨by simpa using hname, before, after, hsplit, by simpa using hbefore⟩

/-- Of two lists that are no permutations of each other some name is the first that tells them
apart. -/
theorem exists_firstApart (h : ¬ xs.Perm ys) : ∃ name, FirstApart xs ys name := by
  obtain ⟨name, hname⟩ := Option.ne_none_iff_exists'.mp (mt firstMiscounted_eq_none_iff.mp h)
  exact ⟨name, firstMiscounted_eq_some_iff.mp hname⟩

/-- A list is refused for the first name that tells it apart from the names of the columns. -/
theorem reorder_eq_error_of_firstApart {names : List String} (hnames : q.projectedNames = .ok names)
    (h : FirstApart names (order.map bareName) name) :
    q.reorder order = .error (.projectionMismatch name) := by
  unfold reorder
  rw [hnames, Outcome.ok_bind]
  dsimp only
  rw [firstMiscounted_eq_some_iff.mpr h]

namespace WellFormed

/-- The names of the columns are names of the table. -/
theorem mem_keys_of_column (h : q.WellFormed) (hname : name ∈ q.projections.map q.nameAt) :
    name ∈ q.table.keys := by
  obtain ⟨id, hid, rfl⟩ := List.mem_map.mp hname
  have hlt := h.projections_lt id hid
  rw [← OrderedMap.length_keys] at hlt
  rw [nameAt, List.getElem?_eq_getElem hlt]
  exact List.getElem_mem hlt

/-- A permutation of the names of the columns is found in the table. -/
theorem exists_reorder (h : q.WellFormed)
    (hperm : (q.projections.map q.nameAt).Perm (order.map bareName)) :
    ∃ q', q.reorder order = .ok q' := by
  have hplaces : List.Forall₂ (fun name id => q.table.keys[id]? = some (bareName name)) order
      (order.map fun name => q.table.keys.idxOf (bareName name)) := by
    rw [List.forall₂_map_right_iff, List.forall₂_same]
    intro name hname
    have hcolumn : bareName name ∈ q.projections.map q.nameAt :=
      hperm.mem_iff.mpr (List.mem_map_of_mem hname)
    exact List.getElem?_idxOf (h.mem_keys_of_column hcolumn)
  exact ⟨_, reorder_eq_ok.mpr ⟨_, _, h.projectedNames_eq, hperm, hplaces, rfl⟩⟩

/-- After a success the columns have the names of the list, and nothing else has changed. -/
theorem projectedNames_reorder (h : q.WellFormed) (hok : q.reorder order = .ok q') :
    q'.projectedNames = .ok (order.map bareName) ∧
      q' = { q with projections := q'.projections } := by
  obtain ⟨names, ids, -, -, hids, hq'⟩ := reorder_eq_ok.mp hok
  have hnames : ids.map q.nameAt = order.map bareName := by
    rw [← List.forall₂_eq_eq_eq, List.forall₂_map_left_iff, List.forall₂_map_right_iff]
    refine hids.flip.imp fun id name hid => ?_
    rw [nameAt, hid]
    rfl
  rw [(h.reorder hok).1.projectedNames_eq, hq']
  exact ⟨congrArg Except.ok hnames, rfl⟩

end WellFormed

/-- **Columns are put into every order of their names, and into no other.**  A list of names, of
which each may be written with one leading question mark, is taken exactly when it is a permutation
of the names of the columns, and these then come in its order; nothing else of the query changes.
Any other list is refused for the first name, in the order of the columns and then of the list, that
does not occur equally often in both, and the query stays as it was. -/
theorem reorder_iff_perm (h : q.Built) (order : List String) :
    ∃ names, q.projectedNames = .ok names ∧
      ((∃ q', q.reorder order = .ok q') ↔ (order.map bareName).Perm names) ∧
      (∀ q', q.reorder order = .ok q' → q'.projectedNames = .ok (order.map bareName) ∧
        q' = { q with projections := q'.projections }) ∧
      (¬ (order.map bareName).Perm names →
        ∃ name, FirstApart names (order.map bareName) name ∧
          q.reorder order = .error (.projectionMismatch name) ∧ q.after (.reorder order) = q) := by
  have hq := h.wellFormed
  refine ⟨_, hq.projectedNames_eq, ⟨?_, ?_⟩, fun q' hok => hq.projectedNames_reorder hok, ?_⟩
  · intro hsuccess
    obtain ⟨q', hok⟩ := hsuccess
    obtain ⟨names, -, hnames, hperm, -⟩ := reorder_eq_ok.mp hok
    obtain rfl := Except.ok.inj (hq.projectedNames_eq.symm.trans hnames)
    exact hperm.symm
  · exact fun hperm => hq.exists_reorder hperm.symm
  · intro hnot
    obtain ⟨name, hname⟩ := exists_firstApart (mt List.Perm.symm hnot)
    have herror := reorder_eq_error_of_firstApart hq.projectedNames_eq hname
    refine ⟨name, hname, herror, ?_⟩
    rw [after, Call.perform, herror]

/-- The two columns of the example change places, and a list that has one of them twice is
refused. -/
theorem reorder_iff_perm_cities :
    citiesQuery.Built ∧ citiesQuery.projectedNames = .ok ["x", "place"] ∧
      (∃ q', citiesQuery.reorder ["?place", "x"] = .ok q' ∧
        q'.projectedNames = .ok ["place", "x"]) ∧
      citiesQuery.reorder ["place", "x", "?place"] = .error (.projectionMismatch "place") := by
  have hnames : citiesQuery.projectedNames = .ok ["x", "place"] := by decide +kernel
  refine ⟨citiesQuery_built, hnames, ?_, ?_⟩
  · obtain ⟨names, hnames', hiff, hok, -⟩ := reorder_iff_perm citiesQuery_built ["?place", "x"]
    obtain rfl := Except.ok.inj (hnames.symm.trans hnames')
    obtain ⟨q', hq'⟩ := hiff.mpr (by decide +kernel)
    have hcolumns := (hok q' hq').1
    exact ⟨q', hq', hcolumns.trans (congrArg Except.ok (by decide +kernel))⟩
  · obtain ⟨names, hnames', -, -, herror⟩ :=
      reorder_iff_perm citiesQuery_built ["place", "x", "?place"]
    obtain rfl := Except.ok.inj (hnames.symm.trans hnames')
    obtain ⟨name, hname, herror, -⟩ := herror (by decide +kernel)
    rw [herror]
    have hfirst := firstMiscounted_eq_some_iff.mpr hname
    have hplace : firstMiscounted ["x", "place"] (["place", "x", "?place"].map bareName)
        (["x", "place"] ++ ["place", "x", "?place"].map bareName) = some "place" := by
      decide +kernel
    rw [Option.some.inj (hfirst.symm.trans hplace)]

end SparqlCompose.Query
