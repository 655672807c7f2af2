import Mathlib
import SparqlCompose.Proofs.FreshName
import SparqlCompose.Proofs.Graph.Collection
import SparqlCompose.Spin.Describe

/-!
# Numbered nodes

A description speaks about the node of the query and about two rows of numbered blank nodes:
those of the variables and the cells.  Different numbers make different nodes, so a list of
triples that was written node by node is read node by node (`Tells`): about each node of the
row it says what was written there, and about every other node it says nothing.

For the cells of a list this is what a reader needs to walk along the list
(`Spin.collect_listHead`).
-/

namespace SparqlCompose

namespace Spin

open SparqlCompose.Graph

/-- Different variables have different nodes. -/
theorem variableNode_injective : Function.Injective variableNode := by
  intro i j h
  have htext := String.append_right_inj _ |>.mp (Resource.blank.inj h)
  exact toString_injective htext

/-- So have different cells. -/
theorem cell_injective : Function.Injective cell := by
  intro i j h
  have htext := String.append_right_inj _ |>.mp (Resource.blank.inj h)
  exact toString_injective htext

/-- No variable has the node of a cell. -/
theorem variableNode_ne_cell (i n : Nat) : variableNode i ≠ cell n := by
  intro h
  have hchars := congrArg String.toList (Resource.blank.inj h)
  rw [String.toList_append, String.toList_append] at hchars
  exact absurd (List.cons.inj hchars).1 (by decide)

/-! ### Rows of nodes -/

/-- The triples say `facts` about the nodes of a row, node by node, and nothing else. -/
structure Tells (node : Nat → Resource) (facts : List (List (String × Constant)))
    (ts : List Triple) : Prop where
  about_node : ∀ i fs, facts[i]? = some fs → about (node i) ts = fs
  about_other : ∀ s, (∀ i, i < facts.length → s ≠ node i) → about s ts = []

/-- No triples say nothing. -/
theorem tells_nil (node : Nat → Resource) : Tells node [] [] where
  about_node := by simp
  about_other := fun _ _ => rfl

/-- The triples about the first node may stand before those about the others, or after them. -/
theorem Tells.cons {node : Nat → Resource} {facts : List (List (String × Constant))}
    {ts us vs : List Triple} (hnode : Function.Injective node)
    (hts : Tells (fun i => node (i + 1)) facts ts) (hus : ∀ t ∈ us, t.subject = node 0)
    (hvs : vs = us ++ ts ∨ vs = ts ++ us) : Tells node (us.map fact :: facts) vs := by
  have hfirst : about (node 0) ts = [] := by
    refine hts.about_other _ ?_
    intro i _ h
    exact absurd (hnode h) (Nat.succ_ne_zero i).symm
  have hother : ∀ s, s ≠ node 0 → about s us = [] := by
    intro s hs
    exact about_eq_nil fun t ht h => hs (h.symm.trans (hus t ht))
  have habout : ∀ s, about s us = [] ∨ about s ts = [] → about s vs = about s us ++ about s ts := by
    intro s hs
    rcases hvs with rfl | rfl
    · exact about_append s us ts
    · rw [about_append]
      rcases hs with hs | hs <;> simp [hs]
  refine ⟨?_, ?_⟩
  · intro i fs hfs
    cases i with
    | zero =>
        obtain rfl := Option.some.inj hfs
        rw [habout _ (Or.inr hfirst), hfirst, about_of_forall hus, List.append_nil]
    | succ i =>
        have hi := hother (node (i + 1)) fun h => absurd (hnode h) (Nat.succ_ne_zero i)
        rw [habout _ (Or.inl hi), hi, List.nil_append]
        exact hts.about_node i fs hfs
  · intro s hs
    have hs₀ := hother s (hs 0 (Nat.succ_pos _))
    rw [habout _ (Or.inl hs₀), hs₀, List.nil_append]
    refine hts.about_other s ?_
    intro i hi
    exact hs (i + 1) (Nat.succ_lt_succ hi)

/-- Triples that are written block by block, one block for each node. -/
theorem tells_blocks {α : Type} {node : Nat → Resource} (hnode : Function.Injective node)
    {block : Nat → α → List Triple} {facts : α → List (String × Constant)}
    (hblock : ∀ i a, (∀ t ∈ block i a, t.subject = node i) ∧ (block i a).map fact = facts a)
    (l : List α) : Tells node (l.map facts) (l.mapIdx block).flatten := by
  induction l generalizing node block with
  | nil => exact tells_nil node
  | cons a l ih =>
      obtain ⟨hsubject, hfacts⟩ := hblock 0 a
      have hshift : Function.Injective fun i => node (i + 1) := by
        intro i j h
        exact Nat.succ_injective (hnode h)
      rw [List.mapIdx_cons, List.flatten_cons, List.map_cons, ← hfacts]
      exact Tells.cons hnode (ih hshift fun i b => hblock (i + 1) b) hsubject (Or.inl rfl)

/-- One row may go on where another ends. -/
theorem Tells.append {node : Nat → Resource} {facts facts' : List (List (String × Constant))}
    {ts us : List Triple} (hnode : Function.Injective node) (hts : Tells node facts ts)
    (hus : Tells (fun i => node (facts.length + i)) facts' us) :
    Tells node (facts ++ facts') (ts ++ us) := by
  refine ⟨?_, ?_⟩
  · intro i fs hfs
    rw [about_append]
    by_cases hi : i < facts.length
    · rw [List.getElem?_append_left hi] at hfs
      have hother : about (node i) us = [] := by
        refine hus.about_other _ ?_
        intro j _ h
        have hij := hnode h
        omega
      rw [hts.about_node i fs hfs, hother, List.append_nil]
    · obtain ⟨j, rfl⟩ := Nat.exists_eq_add_of_le (Nat.not_lt.mp hi)
      rw [List.getElem?_append_right (Nat.le_add_right _ _), Nat.add_sub_cancel_left] at hfs
      have hother : about (node (facts.length + j)) ts = [] := by
        refine hts.about_other _ ?_
        intro i hi h
        have hij := hnode h
        omega
      rw [hother, List.nil_append]
      exact hus.about_node j fs hfs
  · intro s hs
    rw [List.length_append] at hs
    rw [about_append, hts.about_other s fun i hi => hs i (Nat.lt_add_right _ hi), List.nil_append]
    exact hus.about_other s fun i hi => hs _ (Nat.add_lt_add_left hi _)

/-- What is said about a node further on in a row. -/
theorem Tells.about_middle {node : Nat → Resource}
    {before facts after : List (List (String × Constant))} {ts : List Triple}
    (h : Tells node (before ++ (facts ++ after)) ts) {i : Nat} {fs : List (String × Constant)}
    (hfs : facts[i]? = some fs) : about (node (before.length + i)) ts = fs := by
  refine h.about_node _ fs ?_
  rw [List.getElem?_append_right (Nat.le_add_right _ _), Nat.add_sub_cancel_left,
    List.getElem?_append_left (List.getElem?_eq_some_iff.mp hfs).1]
  exact hfs

/-! ### Lists -/

/-- The cells from a number on. -/
def cellsFrom (n i : Nat) : Resource := cell (n + i)

/-- The cells from a number on are different. -/
theorem cellsFrom_injective (n : Nat) : Function.Injective (cellsFrom n) := by
  intro i j h
  exact Nat.add_left_cancel (cell_injective h)

/-- Those from the next number on are these without the first. -/
theorem cellsFrom_succ (n : Nat) : cellsFrom (n + 1) = fun i => cellsFrom n (i + 1) := by
  funext i
  exact congrArg cell (Nat.succ_add_eq_add_succ n i)

/-- Those after some of them are the cells from a later number on. -/
theorem cellsFrom_add (n k : Nat) : (fun i => cellsFrom n (k + i)) = cellsFrom (n + k) := by
  funext i
  exact congrArg cell (Nat.add_assoc n k i).symm

/-- What a list says about its cells. -/
def listFacts (n : Nat) : List Constant → List (List (String × Constant))
  | [] => []
  | m :: ms =>
    [(Vocabulary.rdfFirst, m), (Vocabulary.rdfRest, listHead (n + 1) ms)] :: listFacts (n + 1) ms

/-- A list says something about one cell for each member. -/
theorem length_listFacts (n : Nat) (ms : List Constant) :
    (listFacts n ms).length = ms.length := by
  induction ms generalizing n with
  | nil => rfl
  | cons m ms ih => exact congrArg (· + 1) (ih (n + 1))

/-- The triples of a list say what a list says about its cells. -/
theorem tells_listTriples (n : Nat) (ms : List Constant) :
    Tells (cellsFrom n) (listFacts n ms) (listTriples n ms) := by
  induction ms generalizing n with
  | nil => exact tells_nil _
  | cons m ms ih =>
      have hrest := ih (n + 1)
      rw [cellsFrom_succ] at hrest
      have hcell : ∀ t ∈ [⟨cell n, Vocabulary.rdfFirst, m⟩,
          (⟨cell n, Vocabulary.rdfRest, listHead (n + 1) ms⟩ : Triple)],
          t.subject = cellsFrom n 0 := by
        intro t ht
        simp only [List.mem_cons, List.not_mem_nil, or_false] at ht
        rcases ht with rfl | rfl <;> rfl
      exact Tells.cons (cellsFrom_injective n) hrest hcell (Or.inr rfl)

/-- Whoever knows about each cell what the list says about it can walk along the list. -/
theorem chain_listHead {ts : List Triple} {n : Nat} {ms : List Constant}
    (h : ∀ i fs, (listFacts n ms)[i]? = some fs → about (cellsFrom n i) ts = fs) :
    (ofList ts).Chain (listHead n ms) ((List.range ms.length).map (cellsFrom n)) ms := by
  induction ms generalizing n with
  | nil => exact .nil
  | cons m ms ih =>
      have hcell : about (cell n) ts =
          [(Vocabulary.rdfFirst, m), (Vocabulary.rdfRest, listHead (n + 1) ms)] := h 0 _ rfl
      have hrest : (ofList ts).Chain (listHead (n + 1) ms)
          ((List.range ms.length).map (cellsFrom (n + 1))) ms := by
        refine ih ?_
        intro i fs hfs
        rw [cellsFrom_succ]
        exact h (i + 1) fs hfs
      have hne : Vocabulary.rdfFirst ≠ Vocabulary.rdfRest := by decide +kernel
      have hcells : (List.range (m :: ms).length).map (cellsFrom n) =
          cell n :: (List.range ms.length).map (cellsFrom (n + 1)) := by
        rw [List.length_cons, List.range_succ_eq_map, List.map_cons, List.map_map, cellsFrom_succ]
        rfl
      rw [hcells]
      refine .cons (by simp [cell]) ?_ ?_ hrest
      · rw [object?_ofList, hcell]
        simp [valuesOf]
      · rw [object?_ofList, hcell]
        simp [valuesOf, hne]

/-- **A list that is written is collected.**  It must be no longer than allowed. -/
theorem collect_listHead {ts : List Triple} {n limit : Nat} {ms : List Constant}
    (h : ∀ i fs, (listFacts n ms)[i]? = some fs → about (cellsFrom n i) ts = fs)
    (hlimit : ms.length ≤ limit) : (ofList ts).collect (listHead n ms) limit = .ok ms := by
  refine (chain_listHead h).collect_eq_ok (consistent_ofList ts) ?_
  rw [List.length_map, List.length_range]
  exact hlimit

end Spin

end SparqlCompose
