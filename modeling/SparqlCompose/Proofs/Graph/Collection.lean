import Mathlib
import SparqlCompose.Graph.Collection
import SparqlCompose.Proofs.Graph.Index
import SparqlCompose.Proofs.Outcome

/-!
# What is collected from a list

`Graph.collect` follows the cells of a list, with the cells it has passed in hand.  Whatever a graph
holds, it either comes to `rdf:nil`, and then answers with the members of the cells, or to a term
where it cannot go on, and then says why (`Graph.collect_afterWrites`).

Two things have to be seen.  A chain that ends at `rdf:nil` passes no cell twice
(`Graph.Chain.nodup`): from a cell that comes back the rest of the chain would be a part of itself.
So the look at the cells that were passed refuses no list.  And each cell that was passed is the
subject of a triple, so a walk over distinct cells has an end before the fuel has
(`Graph.Walk.length_le_size`).
-/

namespace SparqlCompose.Graph

variable {g : Graph}

/-! ### Walks over cells -/

/-- From a term the walk passes these cells with these members, and then stands at `last`. -/
inductive Walk (g : Graph) : Constant → List Resource → List Constant → Constant → Prop
  | nil (head : Constant) : Walk g head [] [] head
  | cons {cell : Resource} {member rest last : Constant} {cells : List Resource}
      {items : List Constant} (hcell : cell ≠ .iri Vocabulary.rdfNil)
      (hfirst : g.object? cell Vocabulary.rdfFirst = some member)
      (hrest : g.object? cell Vocabulary.rdfRest = some rest)
      (htail : Walk g rest cells items last) :
      Walk g (.resource cell) (cell :: cells) (member :: items) last

/-- The chain of cells that starts at a term ends at the empty list; it has these cells and
members. -/
inductive Chain (g : Graph) : Constant → List Resource → List Constant → Prop
  | nil : Chain g (.iri Vocabulary.rdfNil) [] []
  | cons {cell : Resource} {member rest : Constant} {cells : List Resource}
      {members : List Constant} (hcell : cell ≠ .iri Vocabulary.rdfNil)
      (hfirst : g.object? cell Vocabulary.rdfFirst = some member)
      (hrest : g.object? cell Vocabulary.rdfRest = some rest)
      (htail : Chain g rest cells members) :
      Chain g (.resource cell) (cell :: cells) (member :: members)

/-- A chain is a walk to the empty list. -/
theorem chain_iff_walk {head : Constant} {cells : List Resource} {items : List Constant} :
    g.Chain head cells items ↔ g.Walk head cells items (.iri Vocabulary.rdfNil) := by
  constructor
  · intro h
    induction h with
    | nil => exact .nil _
    | cons hcell hfirst hrest _ ih => exact .cons hcell hfirst hrest ih
  · intro h
    generalize hlast : Constant.iri Vocabulary.rdfNil = last at h
    induction h with
    | nil head =>
        subst hlast
        exact .nil
    | cons hcell hfirst hrest _ ih => exact .cons hcell hfirst hrest (ih hlast)

/-- The cells of a walk are subjects of triples, so there are only so many of them. -/
theorem Walk.subset_subjects {head last : Constant} {cells : List Resource}
    {items : List Constant} (h : g.Walk head cells items last) (hg : g.Consistent) :
    cells ⊆ g.toList.map Triple.subject := by
  induction h with
  | nil head => exact List.nil_subset _
  | @cons cell member rest last cells items _ hfirst _ _ ih =>
      have hmem : member ∈ g.objects cell Vocabulary.rdfFirst := List.mem_of_mem_head? hfirst
      exact List.cons_subset.mpr ⟨List.mem_map.mpr ⟨_, (hg _ _ _).mp hmem, rfl⟩, ih⟩

/-- **A walk over distinct cells has no more of them than the graph has triples.** -/
theorem Walk.length_le_size {head last : Constant} {cells : List Resource}
    {items : List Constant} (h : g.Walk head cells items last) (hg : g.Consistent)
    (hnodup : cells.Nodup) : cells.length ≤ g.size := by
  have hle := (List.subperm_of_subset hnodup (h.subset_subjects hg)).length_le
  simpa [toList, size] using hle

/-! ### A chain passes no cell twice -/

/-- A term is the head of one chain only. -/
theorem Chain.unique {head : Constant} {cells cells' : List Resource}
    {items items' : List Constant} (h : g.Chain head cells items)
    (h' : g.Chain head cells' items') : cells = cells' ∧ items = items' := by
  induction h generalizing cells' items' with
  | nil =>
      cases h' with
      | nil => exact ⟨rfl, rfl⟩
      | cons hcell => exact absurd rfl hcell
  | @cons cell member rest cells items hcell hfirst hrest _ ih =>
      cases h' with
      | nil => exact absurd rfl hcell
      | @cons _ member' rest' cells' items' _ hfirst' hrest' htail' =>
          obtain rfl := Option.some.inj (hfirst.symm.trans hfirst')
          obtain rfl := Option.some.inj (hrest.symm.trans hrest')
          obtain ⟨rfl, rfl⟩ := ih htail'
          exact ⟨rfl, rfl⟩

/-- From each of its cells on, a chain is a chain that is no longer. -/
theorem Chain.exists_of_mem {head : Constant} {cells : List Resource} {items : List Constant}
    (h : g.Chain head cells items) {cell : Resource} (hmem : cell ∈ cells) :
    ∃ cells' items', g.Chain (.resource cell) cells' items' ∧ cells'.length ≤ cells.length := by
  induction h with
  | nil => cases hmem
  | @cons c member rest cells items hcell hfirst hrest htail ih =>
      rcases List.mem_cons.mp hmem with rfl | hmem
      · exact ⟨_, _, .cons hcell hfirst hrest htail, le_rfl⟩
      · obtain ⟨cells', items', hchain, hle⟩ := ih hmem
        exact ⟨cells', items', hchain, hle.trans (Nat.le_succ _)⟩

/-- **The cells of a chain are distinct.** -/
theorem Chain.nodup {head : Constant} {cells : List Resource} {items : List Constant}
    (h : g.Chain head cells items) : cells.Nodup := by
  induction h with
  | nil => exact List.nodup_nil
  | @cons cell member rest cells items hcell hfirst hrest htail ih =>
      refine List.nodup_cons.mpr ⟨?_, ih⟩
      intro hmem
      obtain ⟨cells', items', hchain, hle⟩ := htail.exists_of_mem hmem
      obtain ⟨hcells, -⟩ := hchain.unique (.cons hcell hfirst hrest htail)
      rw [hcells, List.length_cons] at hle
      omega

/-! ### Where a walk ends -/

/-- Why a walk over these cells, of which there may be `limit`, cannot go on at a term. -/
inductive Stuck (g : Graph) (limit : Nat) (cells : List Resource) : Constant → ListError → Prop
  | literalCell (l : Literal) : Stuck g limit cells (.literal l) (.literalCell (.literal l))
  | cycle {cell : Resource} (hcell : cell ≠ .iri Vocabulary.rdfNil) (hold : cell ∈ cells) :
      Stuck g limit cells (.resource cell) (.cycle cell)
  | tooLong {cell : Resource} (hcell : cell ≠ .iri Vocabulary.rdfNil) (hnew : cell ∉ cells)
      (hlong : limit ≤ cells.length) : Stuck g limit cells (.resource cell) (.tooLong limit)
  | noFirst {cell : Resource} (hcell : cell ≠ .iri Vocabulary.rdfNil) (hnew : cell ∉ cells)
      (hshort : cells.length < limit) (hfirst : g.object? cell Vocabulary.rdfFirst = none) :
      Stuck g limit cells (.resource cell) (.noFirst cell)
  | noRest {cell : Resource} {member : Constant} (hcell : cell ≠ .iri Vocabulary.rdfNil)
      (hnew : cell ∉ cells) (hshort : cells.length < limit)
      (hfirst : g.object? cell Vocabulary.rdfFirst = some member)
      (hrest : g.object? cell Vocabulary.rdfRest = none) :
      Stuck g limit cells (.resource cell) (.noRest cell)

/-- Only which cells were passed matters, and how many they are. -/
theorem Stuck.perm {limit : Nat} {cells cells' : List Resource} {last : Constant} {e : ListError}
    (h : g.Stuck limit cells last e) (hperm : cells.Perm cells') :
    g.Stuck limit cells' last e := by
  cases h with
  | literalCell l => exact .literalCell l
  | cycle hcell hold => exact .cycle hcell (hperm.mem_iff.mp hold)
  | tooLong hcell hnew hlong =>
      exact .tooLong hcell (mt hperm.mem_iff.mpr hnew) (hlong.trans hperm.length_eq.le)
  | noFirst hcell hnew hshort hfirst =>
      exact .noFirst hcell (mt hperm.mem_iff.mpr hnew) (hperm.length_eq ▸ hshort) hfirst
  | noRest hcell hnew hshort hfirst hrest =>
      exact .noRest hcell (mt hperm.mem_iff.mpr hnew) (hperm.length_eq ▸ hshort) hfirst hrest

/-- A cell that is not the empty list does not pass for it. -/
theorem iri?_ne_rdfNil {cell : Resource} (hcell : cell ≠ .iri Vocabulary.rdfNil) :
    (Constant.resource cell).iri? ≠ some Vocabulary.rdfNil := by
  intro hiri
  cases cell with
  | iri text => exact hcell (congrArg Resource.iri (Option.some.inj hiri))
  | blank label => cases hiri

/-- The empty list has no members. -/
theorem members_rdfNil (limit fuel : Nat) (visited : List Resource) :
    g.members limit fuel visited (.iri Vocabulary.rdfNil) = .ok [] := by
  unfold members
  exact if_pos rfl

/-- A cell that can be passed is passed. -/
theorem members_cell {cell : Resource} {member rest : Constant} {limit : Nat}
    {visited : List Resource} (hcell : cell ≠ .iri Vocabulary.rdfNil) (hnew : cell ∉ visited)
    (hshort : visited.length < limit)
    (hfirst : g.object? cell Vocabulary.rdfFirst = some member)
    (hrest : g.object? cell Vocabulary.rdfRest = some rest) (fuel : Nat) :
    g.members limit (fuel + 1) visited (.resource cell) =
      (g.members limit fuel (cell :: visited) rest).map (member :: ·) := by
  rw [members, if_neg (iri?_ne_rdfNil hcell), if_neg hnew, if_neg hshort.not_ge, hfirst, hrest]

/-- Where it cannot go on the collection fails. -/
theorem Stuck.members_eq_error {limit : Nat} {visited : List Resource} {last : Constant}
    {e : ListError} (h : g.Stuck limit visited last e) (fuel : Nat) :
    g.members limit (fuel + 1) visited last = .error e := by
  cases h with
  | literalCell l => rw [members, if_neg (by simp [Constant.iri?])]
  | cycle hcell hold => rw [members, if_neg (iri?_ne_rdfNil hcell), if_pos hold]
  | tooLong hcell hnew hlong =>
      rw [members, if_neg (iri?_ne_rdfNil hcell), if_neg hnew, if_pos hlong]
  | noFirst hcell hnew hshort hfirst =>
      rw [members, if_neg (iri?_ne_rdfNil hcell), if_neg hnew, if_neg hshort.not_ge, hfirst]
  | noRest hcell hnew hshort hfirst hrest =>
      rw [members, if_neg (iri?_ne_rdfNil hcell), if_neg hnew, if_neg hshort.not_ge, hfirst, hrest]

/-- A term is the empty list, or the walk is stuck there, or it is a cell that can be passed. -/
theorem stuck_or_passes (g : Graph) (limit : Nat) (visited : List Resource) (head : Constant) :
    head = .iri Vocabulary.rdfNil ∨ (∃ e, g.Stuck limit visited head e) ∨
      ∃ cell member rest, head = .resource cell ∧ cell ≠ .iri Vocabulary.rdfNil ∧
        cell ∉ visited ∧ visited.length < limit ∧
        g.object? cell Vocabulary.rdfFirst = some member ∧
        g.object? cell Vocabulary.rdfRest = some rest := by
  cases head with
  | literal l => exact Or.inr (Or.inl ⟨_, .literalCell l⟩)
  | resource cell =>
      by_cases hcell : cell = .iri Vocabulary.rdfNil
      · exact Or.inl (congrArg Constant.resource hcell)
      refine Or.inr ?_
      by_cases hold : cell ∈ visited
      · exact Or.inl ⟨_, .cycle hcell hold⟩
      by_cases hlong : limit ≤ visited.length
      · exact Or.inl ⟨_, .tooLong hcell hold hlong⟩
      have hshort : visited.length < limit := Nat.lt_of_not_le hlong
      cases hfirst : g.object? cell Vocabulary.rdfFirst with
      | none => exact Or.inl ⟨_, .noFirst hcell hold hshort hfirst⟩
      | some member =>
          cases hrest : g.object? cell Vocabulary.rdfRest with
          | none => exact Or.inl ⟨_, .noRest hcell hold hshort hfirst hrest⟩
          | some rest =>
              exact Or.inr ⟨cell, member, rest, rfl, hcell, hold, hshort, hfirst, hrest⟩

/-! ### Collecting along a walk -/

/-- Along a walk over new cells the members are collected one by one. -/
theorem Walk.members_eq {head last : Constant} {cells visited : List Resource}
    {items : List Constant} {limit : Nat} (h : g.Walk head cells items last)
    (hnodup : cells.Nodup) (hnew : ∀ cell ∈ cells, cell ∉ visited)
    (hlimit : visited.length + cells.length ≤ limit) (fuel : Nat) :
    g.members limit (cells.length + fuel) visited head =
      (g.members limit fuel (cells.reverse ++ visited) last).map (items ++ ·) := by
  induction h generalizing visited with
  | nil head =>
      have hid : ∀ x : Except ListError (List Constant), x.map ([] ++ ·) = x := by
        intro x
        cases x <;> rfl
      rw [hid]
      simp
  | @cons cell member rest last cells items hcell hfirst hrest _ ih =>
      obtain ⟨hfresh, hnodup'⟩ := List.nodup_cons.mp hnodup
      rw [List.length_cons] at hlimit
      have hnew' : ∀ c ∈ cells, c ∉ cell :: visited := by
        intro c hc hmem
        rcases List.mem_cons.mp hmem with rfl | hmem
        · exact hfresh hc
        · exact hnew c (List.mem_cons_of_mem _ hc) hmem
      have htail := ih hnodup' hnew' (by rw [List.length_cons]; omega)
      rw [List.length_cons, Nat.add_right_comm, members_cell hcell (hnew cell List.mem_cons_self)
        (by omega) hfirst hrest, htail, List.reverse_cons, List.append_assoc, List.singleton_append]
      cases g.members limit fuel (cells.reverse ++ cell :: visited) last <;> rfl

/-- A walk over distinct cells leaves fuel for what comes after it. -/
theorem Walk.collect_eq {head last : Constant} {cells : List Resource} {items : List Constant}
    {limit : Nat} (h : g.Walk head cells items last) (hg : g.Consistent) (hnodup : cells.Nodup)
    (hlimit : cells.length ≤ limit) :
    ∃ fuel, g.collect head limit =
      (g.members limit (fuel + 1) cells.reverse last).map (items ++ ·) := by
  obtain ⟨fuel, hfuel⟩ := Nat.exists_eq_add_of_le (h.length_le_size hg hnodup)
  have hnew : ∀ cell ∈ cells, cell ∉ ([] : List Resource) := fun _ _ => List.not_mem_nil
  have hrun := h.members_eq hnodup hnew (by simpa using hlimit) (fuel + 1)
  rw [List.append_nil] at hrun
  exact ⟨fuel, by rw [collect, hfuel, Nat.add_assoc, hrun]⟩

/-- **A chain is collected.**  Its cells must be no more than allowed. -/
theorem Chain.collect_eq_ok {head : Constant} {cells : List Resource} {items : List Constant}
    {limit : Nat} (h : g.Chain head cells items) (hg : g.Consistent)
    (hlimit : cells.length ≤ limit) : g.collect head limit = .ok items := by
  obtain ⟨fuel, hrun⟩ := (chain_iff_walk.mp h).collect_eq hg h.nodup hlimit
  rw [hrun, members_rdfNil, Except.map, List.append_nil]

/-- A walk that is stuck is answered with the reason. -/
theorem Walk.collect_eq_error {head last : Constant} {cells : List Resource}
    {items : List Constant} {limit : Nat} {e : ListError} (h : g.Walk head cells items last)
    (hg : g.Consistent) (hnodup : cells.Nodup) (hlimit : cells.length ≤ limit)
    (hstuck : g.Stuck limit cells last e) : g.collect head limit = .error e := by
  obtain ⟨fuel, hrun⟩ := h.collect_eq hg hnodup hlimit
  rw [hrun, (hstuck.perm (List.reverse_perm cells).symm).members_eq_error]
  rfl

/-- What is collected under a limit is collected under a higher one. -/
theorem members_of_le {limit limit' fuel : Nat} (hle : limit ≤ limit') {visited : List Resource}
    {head : Constant} {ms : List Constant} (h : g.members limit fuel visited head = .ok ms) :
    g.members limit' fuel visited head = .ok ms := by
  induction fuel generalizing visited head ms with
  | zero => cases head <;> exact h
  | succ fuel ih =>
      rcases g.stuck_or_passes limit visited head with
        rfl | ⟨e, hstuck⟩ | ⟨cell, member, rest, rfl, hcell, hnew, hshort, hfirst, hrest⟩
      · rwa [members_rdfNil] at h ⊢
      · rw [hstuck.members_eq_error] at h
        cases h
      · rw [members_cell hcell hnew hshort hfirst hrest] at h
        rw [members_cell hcell hnew (hshort.trans_le hle) hfirst hrest]
        obtain ⟨tail, htail, hms⟩ := Outcome.map_eq_ok.mp h
        exact Outcome.map_eq_ok.mpr ⟨tail, ih htail, hms⟩

/-- A list that is read within a limit is read within a higher one. -/
theorem collect_of_le {limit limit' : Nat} (hle : limit ≤ limit') {head : Constant}
    {ms : List Constant} (h : g.collect head limit = .ok ms) : g.collect head limit' = .ok ms :=
  members_of_le hle h

/-! ### Every collection is a walk -/

/-- **Each collection is a walk to its end.**  The walk goes on over cells that are not in
`visited`, at most to the limit; the fuel must be more than the triples that are left for new
cells. -/
theorem members_walk (hg : g.Consistent) {limit fuel : Nat} {visited : List Resource}
    (hnodup : visited.Nodup) (hsub : visited ⊆ g.toList.map Triple.subject)
    (hlimit : visited.length ≤ limit) (hfuel : g.size < fuel + visited.length)
    (head : Constant) :
    ∃ cells items last, g.Walk head cells items last ∧ (cells.reverse ++ visited).Nodup ∧
      visited.length + cells.length ≤ limit ∧
      (last = .iri Vocabulary.rdfNil ∧ g.members limit fuel visited head = .ok items ∨
        ∃ e, g.Stuck limit (cells.reverse ++ visited) last e ∧
          g.members limit fuel visited head = .error e) := by
  induction fuel generalizing visited head with
  | zero =>
      -- the visited cells are distinct subjects, so they are no more than the triples
      have hle := (List.subperm_of_subset hnodup hsub).length_le
      have hsize : g.size = g.toList.length := Array.length_toList.symm
      rw [List.length_map] at hle
      omega
  | succ fuel ih =>
      rcases g.stuck_or_passes limit visited head with
        rfl | ⟨e, hstuck⟩ | ⟨cell, member, rest, rfl, hcell, hnew, hshort, hfirst, hrest⟩
      · exact ⟨[], [], _, .nil _, hnodup, hlimit, Or.inl ⟨rfl, members_rdfNil _ _ _⟩⟩
      · exact ⟨[], [], head, .nil head, hnodup, hlimit,
          Or.inr ⟨e, hstuck, hstuck.members_eq_error fuel⟩⟩
      · have hmem : member ∈ g.objects cell Vocabulary.rdfFirst := List.mem_of_mem_head? hfirst
        have hsubject : cell ∈ g.toList.map Triple.subject :=
          List.mem_map.mpr ⟨_, (hg _ _ _).mp hmem, rfl⟩
        obtain ⟨cells, items, last, hwalk, hdistinct, hbound, hend⟩ :=
          ih (List.nodup_cons.mpr ⟨hnew, hnodup⟩) (List.cons_subset.mpr ⟨hsubject, hsub⟩) hshort
            (by rw [List.length_cons]; omega) rest
        have hreverse : (cell :: cells).reverse ++ visited = cells.reverse ++ cell :: visited := by
          simp
        rw [List.length_cons] at hbound
        refine ⟨cell :: cells, member :: items, last, .cons hcell hfirst hrest hwalk, ?_,
          by rw [List.length_cons]; omega, ?_⟩
        · rwa [hreverse]
        · rw [members_cell hcell hnew hshort hfirst hrest, hreverse]
          rcases hend with ⟨hlast, hok⟩ | ⟨e, hstuck, herror⟩
          · rw [hok]
            exact Or.inl ⟨hlast, rfl⟩
          · rw [herror]
            exact Or.inr ⟨e, hstuck, rfl⟩

/-- **Reading a list is a walk.** It goes over cells that differ from one another, within the limit,
and ends at the empty list with the members that it passed, or at a term where it cannot go on. -/
theorem collect_walk (hg : g.Consistent) (head : Constant) (limit : Nat) :
    ∃ cells items last, g.Walk head cells items last ∧ cells.Nodup ∧ cells.length ≤ limit ∧
      (last = .iri Vocabulary.rdfNil ∧ g.collect head limit = .ok items ∨
        ∃ e, g.Stuck limit cells last e ∧ g.collect head limit = .error e) := by
  obtain ⟨cells, items, last, hwalk, hnodup, hlimit, hend⟩ :=
    @members_walk g hg limit (g.size + 1) [] List.nodup_nil (List.nil_subset _) (Nat.zero_le _)
      (by simp) head
  rw [List.append_nil] at hnodup hend
  refine ⟨cells, items, last, hwalk, List.nodup_reverse.mp hnodup, by simpa using hlimit, ?_⟩
  rcases hend with hnil | ⟨e, hstuck, herror⟩
  · exact Or.inl hnil
  · exact Or.inr ⟨e, hstuck.perm (List.reverse_perm cells), herror⟩

/-- A list is collected exactly when it is a chain that is no longer than allowed. -/
theorem collect_eq_ok_iff (hg : g.Consistent) {head : Constant} {limit : Nat}
    {items : List Constant} :
    g.collect head limit = .ok items ↔
      ∃ cells, g.Chain head cells items ∧ cells.length ≤ limit := by
  constructor
  · intro hok
    obtain ⟨cells, items', last, hwalk, -, hlimit, ⟨rfl, hok'⟩ | ⟨e, -, herror⟩⟩ :=
      collect_walk hg head limit
    · obtain rfl := Except.ok.inj (hok.symm.trans hok')
      exact ⟨cells, chain_iff_walk.mpr hwalk, hlimit⟩
    · rw [hok] at herror
      cases herror
  · intro hexists
    obtain ⟨cells, hchain, hlimit⟩ := hexists
    exact hchain.collect_eq_ok hg hlimit

/-- A list is refused exactly when the walk over its cells is stuck. -/
theorem collect_eq_error_iff (hg : g.Consistent) {head : Constant} {limit : Nat} {e : ListError} :
    g.collect head limit = .error e ↔
      ∃ cells items last, g.Walk head cells items last ∧ cells.Nodup ∧ cells.length ≤ limit ∧
        g.Stuck limit cells last e := by
  constructor
  · intro herror
    obtain ⟨cells, items, last, hwalk, hnodup, hlimit, ⟨-, hok⟩ | ⟨e', hstuck, herror'⟩⟩ :=
      collect_walk hg head limit
    · rw [herror] at hok
      cases hok
    · obtain rfl := Except.error.inj (herror.symm.trans herror')
      exact ⟨cells, items, last, hwalk, hnodup, hlimit, hstuck⟩
  · intro hexists
    obtain ⟨cells, items, last, hwalk, hnodup, hlimit, hstuck⟩ := hexists
    exact hwalk.collect_eq_error hg hnodup hlimit hstuck

/-- **What is collected from a list.**  In every graph that writes can make, from every term and
under every limit: the answer is a list of members exactly when the cells from the term on, each
with a member and a rest, lead to the empty list and are no more than allowed, and it is the
members of these cells in their order.  Otherwise the walk over the cells comes, after as many
distinct cells as are allowed or fewer, to a term where it is stuck, and the answer is the reason.
One of the two always happens. -/
theorem collect_afterWrites (ws : List Write) (head : Constant) (limit : Nat) :
    (∀ items, (afterWrites ws).collect head limit = .ok items ↔
        ∃ cells, (afterWrites ws).Chain head cells items ∧ cells.length ≤ limit) ∧
      (∀ e, (afterWrites ws).collect head limit = .error e ↔
        ∃ cells items last, (afterWrites ws).Walk head cells items last ∧ cells.Nodup ∧
          cells.length ≤ limit ∧ (afterWrites ws).Stuck limit cells last e) ∧
      ((∃ cells items, (afterWrites ws).Chain head cells items ∧ cells.length ≤ limit) ∨
        ∃ cells items last e, (afterWrites ws).Walk head cells items last ∧ cells.Nodup ∧
          cells.length ≤ limit ∧ (afterWrites ws).Stuck limit cells last e) := by
  have hg : (afterWrites ws).Consistent := by
    rw [afterWrites_eq_ofList]
    exact consistent_ofList _
  refine ⟨fun items => collect_eq_ok_iff hg, fun e => collect_eq_error_iff hg, ?_⟩
  obtain ⟨cells, items, last, hwalk, hnodup, hlimit, ⟨rfl, -⟩ | ⟨e, hstuck, -⟩⟩ :=
    collect_walk hg head limit
  · exact Or.inl ⟨cells, items, chain_iff_walk.mpr hwalk, hlimit⟩
  · exact Or.inr ⟨cells, items, last, e, hwalk, hnodup, hlimit, hstuck⟩

end SparqlCompose.Graph
