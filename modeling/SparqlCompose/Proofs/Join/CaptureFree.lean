import Mathlib
import SparqlCompose.Proofs.Built

/-!
# Joins capture no variable

A join of two built queries never fails on names that resolve, and it confuses no two variables
that it should keep apart.  The left variables stay where they are; the right ones go to places
that differ from one another, so that a right variable meets a left one only where the two are
joined on or have a URI in common (`Pairing.Unified`).  All others are new and have names of
their own (`Query.join_captureFree`).
-/

namespace SparqlCompose

namespace Pairing

variable {p : Pairing} {t : OrderedMap Variable} {places : List Nat}

/-- The variable at the place `b` of the right query is identified with the one at the place `a`
of the left query. -/
def Identified (p : Pairing) (a b : Nat) : Prop :=
  (a = p.leftId ∧ b = p.rightId) ∨ p.Unified a b

/-- A left variable that is identified with a right one is in its table. -/
theorem WellFormed.left_lt_of_identified (h : p.WellFormed) {a b : Nat}
    (hid : p.Identified a b) : a < p.left.table.size := by
  rcases hid with ⟨rfl, -⟩ | hunified
  · exact h.leftId_lt
  · exact hunified.left_lt

/-- So is the right one. -/
theorem WellFormed.right_lt_of_identified (h : p.WellFormed) {a b : Nat}
    (hid : p.Identified a b) : b < p.right.table.size := by
  rcases hid with ⟨-, rfl⟩ | hunified
  · exact h.rightId_lt
  · exact hunified.right_lt

/-- The query holds the variables of both sides, those of the right one at the places that
`place` says, and confuses none of them. -/
structure CaptureFree (p : Pairing) (q : Query) (place : Nat → Nat) : Prop where
  left_kept : ∀ a v, p.left.table.at? a = some v →
    ∃ w, q.table.at? a = some w ∧ w.name = v.name
  place_injOn : Set.InjOn place {b | b < p.right.table.size}
  place_eq_iff : ∀ a < p.left.table.size, ∀ b < p.right.table.size,
    place b = a ↔ p.Identified a b
  /-- Any other variable is added under a name that no left variable has and no right one that
  was brought in before it. -/
  added : ∀ b < p.right.table.size, (∀ a, ¬ p.Identified a b) →
    ∃ w name, p.right.table.at? b = some w ∧
      q.table.at? (place b) = some { w with name := name } ∧
      name ∉ p.left.table.keys ∧ ∀ b' < b, q.table.keys[place b']? ≠ some name
  covered : ∀ i, i < q.table.size ↔
    i < p.left.table.size ∨ ∃ b < p.right.table.size, place b = i
  projections : q.projections = p.left.projections ++
    (p.right.projections.filter fun b => decide (p.left.table.size ≤ place b)).map place
  patterns : q.patterns = p.left.patterns ++ p.right.patterns.map (Pattern.mapVar place)
  order : q.order = p.left.order ++
    p.right.order.map fun k => { k with variableId := place k.variableId }

/-- Every right variable stands at its place. -/
theorem Merged.placed_placeIn (hm : p.Merged t places) {b : Nat} (hb : b < p.right.table.size) :
    p.Placed t b (Query.placeIn places b) := by
  have hlt : b < places.length := hm.length ▸ hb
  refine hm.placed b _ ?_
  rw [Query.placeIn_eq_getElem hlt]
  exact List.getElem?_eq_getElem hlt

/-- A right variable stands at a left place exactly when the two are identified. -/
theorem Merged.placeIn_eq_iff (hm : p.Merged t places) {a b : Nat}
    (ha : a < p.left.table.size) (hb : b < p.right.table.size) :
    Query.placeIn places b = a ↔ p.Identified a b := by
  have hplaced := hm.placed_placeIn hb
  constructor
  · intro heq
    rw [heq] at hplaced
    cases hplaced with
    | joined hright hleft => exact Or.inl ⟨hleft, hright⟩
    | unified hunified => exact Or.inr hunified
    | added _ _ _ hbehind => omega
  · intro hid
    cases hplaced with
    | joined hright hleft =>
        rcases hid with hjoined | hunified
        · exact hleft.trans hjoined.1.symm
        · exact absurd hright hunified.right_ne
    | unified hunified =>
        rcases hid with hjoined | hunified'
        · exact absurd hjoined.2 hunified.right_ne
        · exact hunified.left_unique hunified'
    | added _ hright hnone _ _ =>
        rcases hid with hjoined | hunified
        · exact absurd hjoined.2 hright
        · exact absurd hunified (hnone a)

/-- Of two variables that are identified, the right one stands where the left one does. -/
theorem Merged.placeIn_eq (hm : p.Merged t places) (h : p.WellFormed) {a b : Nat}
    (hid : p.Identified a b) : Query.placeIn places b = a :=
  (hm.placeIn_eq_iff (h.left_lt_of_identified hid) (h.right_lt_of_identified hid)).mpr hid

/-- The patterns that the right query brings in are its own, with their places exchanged, in either
mode. -/
theorem patternsAll_rightClauses (p : Pairing) (mode : JoinMode) (places : List Nat) :
    Clause.patternsAll (p.rightClauses mode places) =
      p.right.patterns.map (Pattern.mapVar (Query.placeIn places)) := by
  have hmapped : Clause.patternsAll (p.right.clauses.map
      (Clause.mapVar (Query.placeIn places))) =
        p.right.patterns.map (Pattern.mapVar (Query.placeIn places)) := by
    rw [← Clause.mapVarAll_eq_map, Clause.patternsAll_mapVarAll]
    rfl
  unfold rightClauses
  split
  · exact (List.append_nil _).trans hmapped
  · exact hmapped

/-- The patterns of a composite are those of both queries, the right ones with their places
exchanged. -/
theorem composite_patterns (p : Pairing) (mode : JoinMode) (t : OrderedMap Variable)
    (places : List Nat) : (p.composite mode t places).patterns =
      p.left.patterns ++ p.right.patterns.map (Pattern.mapVar (Query.placeIn places)) := by
  refine (Clause.patternsAll_append _ _).trans ?_
  rw [patternsAll_rightClauses]
  rfl

/-- The names of the left variables stay where they were. -/
theorem Merged.getElem?_keys_left (hm : p.Merged t places) (h : p.WellFormed) {a : Nat}
    (ha : a < p.left.table.size) : t.keys[a]? = p.left.table.keys[a]? := by
  obtain ⟨v, hv⟩ := OrderedMap.exists_at? ha
  rw [hm.sound.getElem?_keys, h.left.table.getElem?_keys, hm.left a v hv, hv]
  exact congrArg some (leftCopy_name a v)

/-- In a composite that confuses no variables, a right variable that is identified stands at its
left one. -/
theorem CaptureFree.place_eq {q : Query} {place : Nat → Nat} (h : p.CaptureFree q place)
    (hp : p.WellFormed) {a b : Nat} (hid : p.Identified a b) : place b = a :=
  (h.place_eq_iff a (hp.left_lt_of_identified hid) b (hp.right_lt_of_identified hid)).mpr hid

/-- A composite confuses no variables. -/
theorem Merged.captureFree (hm : p.Merged t places) (h : p.WellFormed) (mode : JoinMode) :
    p.CaptureFree (p.composite mode t places) (Query.placeIn places) where
  left_kept := fun a v hv => ⟨_, hm.left a v hv, leftCopy_name a v⟩
  place_injOn := hm.injOn
  place_eq_iff := fun _ ha _ hb => hm.placeIn_eq_iff ha hb
  added := by
    intro b hb hnone
    cases hm.placed_placeIn hb with
    | joined hright hleft => exact absurd (Or.inl ⟨hleft, hright⟩) (hnone _)
    | unified hunified => exact absurd (Or.inr hunified) (hnone _)
    | @added w hw _ _ hbehind hat =>
        -- the name stands at the place of `b`, hence at no other
        have hname := (hm.sound.getElem?_keys (Query.placeIn places b)).trans (congrArg _ hat)
        refine ⟨w, _, hw, hat, ?_, ?_⟩
        · intro hmem
          obtain ⟨a, ha⟩ := List.getElem?_of_mem hmem
          have halt : a < p.left.table.size := by
            rw [← OrderedMap.length_keys]
            exact (List.getElem?_eq_some_iff.mp ha).1
          have hkey := (hm.getElem?_keys_left h halt).trans ha
          have hsame := OrderedMap.getElem?_keys_inj hkey hname
          omega
        · intro b' hb' hkey
          have hsame := OrderedMap.getElem?_keys_inj hkey hname
          exact absurd (hm.injOn (Nat.lt_trans hb' hb) hb hsame) (Nat.ne_of_lt hb')
  covered := by
    intro i
    constructor
    · intro hi
      rcases hm.cover i hi with hleft | hmem
      · exact Or.inl hleft
      · obtain ⟨b, hb⟩ := List.getElem?_of_mem hmem
        obtain ⟨hlt, hbi⟩ := List.getElem?_eq_some_iff.mp hb
        exact Or.inr ⟨b, hm.length ▸ hlt, (Query.placeIn_eq_getElem hlt).trans hbi⟩
    · intro hi
      rcases hi with hi | hi
      · exact hm.left_lt hi
      · obtain ⟨b, hb, hbi⟩ := hi
        exact hbi ▸ hm.right_lt hb
  projections := by
    have hjoined : Query.placeIn places p.rightId = p.leftId :=
      hm.placeIn_eq h (Or.inl ⟨rfl, rfl⟩)
    refine congrArg (fun l : List Nat => p.left.projections ++ l.map (Query.placeIn places)) ?_
    refine List.filter_congr fun b _ => ?_
    by_cases hb : b = p.rightId
    · rw [hb, hjoined]
      simp [h.leftId_lt]
    · simp [hb]
  patterns := composite_patterns p mode t places
  order := rfl

end Pairing

/-- **Joins capture no variable.**  Two built queries are joined on any two names that resolve in
them, in the mode that their endpoints allow, and the composite confuses no variables. -/
theorem Query.join_captureFree {l r : Query} (hl : l.Built) (hr : r.Built) {n m : String}
    {leftId rightId : VarId} (hn : l.resolve n = .ok leftId) (hm : r.resolve m = .ok rightId)
    (requested : JoinMode) :
    ∃ (q : Query) (place : VarId → VarId),
      Query.join ⟨l, n⟩ ⟨r, m⟩ requested = .ok (q, Query.effectiveMode l r requested) ∧
        (Pairing.mk l r leftId rightId).CaptureFree q place := by
  have hp := Pairing.wellFormed_of_resolve hl.wellFormed hr.wellFormed hn hm
  obtain ⟨t, places, hmerged, hjoin⟩ := hp.join_eq_ok hn hm requested
  exact ⟨_, _, hjoin, hmerged.captureFree hp _⟩

/-- The two examples are joined on `id`.  Each has a variable for a city, with the same URI, and
an `x` of its own. -/
theorem Query.join_captureFree_people_cities :
    peopleQuery.Built ∧ citiesQuery.Built ∧
      peopleQuery.resolve "?id" = .ok 0 ∧ citiesQuery.resolve "id" = .ok 1 ∧
      ∃ (q : Query) (place : VarId → VarId),
        Query.join ⟨peopleQuery, "?id"⟩ ⟨citiesQuery, "id"⟩ .inline = .ok (q, .service) ∧
          (Pairing.mk peopleQuery citiesQuery 0 1).CaptureFree q place :=
  ⟨peopleQuery_built, citiesQuery_built, rfl, rfl,
    Query.join_captureFree peopleQuery_built citiesQuery_built rfl rfl .inline⟩

end SparqlCompose
