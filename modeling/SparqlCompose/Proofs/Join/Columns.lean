import Mathlib
import SparqlCompose.Proofs.Join.CaptureFree

/-!
# What a join does to columns

A query shows its result columns, or all variables of its patterns if it has none
(`Query.Visible`).  A join takes the columns of the left query and those of the right one that
stand for a variable of their own.  So whether a variable that is identified is shown is for the
left query to say: where both operands have columns, a visible variable of the right one is hidden
exactly when it is identified with a left variable that is no column (`Query.join_hides`).

Where neither operand has columns, the composite has none and shows everything.
-/

namespace SparqlCompose

/-- The query shows the variable. -/
def Query.Visible (q : Query) (id : VarId) : Prop :=
  if q.projections = [] then id ∈ Clause.varIdsAll q.clauses else id ∈ q.projections

/-- With result columns, they are what is visible. -/
theorem Query.visible_iff_of_ne_nil {q : Query} (h : q.projections ≠ []) {id : VarId} :
    q.Visible id ↔ id ∈ q.projections := by
  rw [Visible, if_neg h]

/-- A result column is visible. -/
theorem Query.visible_of_mem {q : Query} {id : VarId} (h : id ∈ q.projections) : q.Visible id :=
  (visible_iff_of_ne_nil (List.ne_nil_of_mem h)).mpr h

/-- Without result columns, the variables of the patterns are. -/
theorem Query.visible_iff_of_nil {q : Query} (h : q.projections = []) {id : VarId} :
    q.Visible id ↔ ∃ p ∈ q.patterns, id ∈ p.varIds := by
  rw [Visible, if_pos h, Clause.mem_varIdsAll]
  rfl

namespace Pairing

variable {p : Pairing} {q : Query} {place : Nat → Nat}

/-- The variable at the place `b` of the right query is identified with a left one that is no
column of the left query. -/
def Hides (p : Pairing) (b : Nat) : Prop := ∃ a, p.Identified a b ∧ a ∉ p.left.projections

/-- Which variables of the operands are visible in a composite that holds the right ones at the
places that `place` says. -/
structure KeepsColumns (p : Pairing) (q : Query) (place : Nat → Nat) : Prop where
  left : ∀ a ∈ p.left.projections, q.Visible a
  right : ∀ b ∈ p.right.projections, ¬ p.Hides b → q.Visible (place b)
  /-- Where both operands have columns, no other column of the right one is shown. -/
  both : p.left.projections ≠ [] → p.right.projections ≠ [] →
    (∀ a, p.left.Visible a → q.Visible a) ∧
      ∀ b, p.right.Visible b → (q.Visible (place b) ↔ ¬ p.Hides b)
  /-- Where neither operand has columns, all that was visible is visible. -/
  neither : p.left.projections = [] → p.right.projections = [] →
    (∀ a, p.left.Visible a → q.Visible a) ∧ ∀ b, p.right.Visible b → q.Visible (place b)

/-- A variable that is identified with none is behind all left ones. -/
theorem CaptureFree.size_le_place (h : p.CaptureFree q place) {b : Nat}
    (hb : b < p.right.table.size) (hnone : ∀ a, ¬ p.Identified a b) :
    p.left.table.size ≤ place b := by
  by_contra hlt
  exact hnone (place b) ((h.place_eq_iff (place b) (Nat.lt_of_not_le hlt) b hb).mp rfl)

/-- The columns of a composite are those of the left query, and those of the right one that stand
behind the left variables. -/
theorem CaptureFree.mem_projections_iff (h : p.CaptureFree q place) {i : Nat} :
    i ∈ q.projections ↔ i ∈ p.left.projections ∨
      ∃ b ∈ p.right.projections, p.left.table.size ≤ place b ∧ place b = i := by
  simp [h.projections, and_assoc]

/-- A right column that is not hidden is a column. -/
theorem CaptureFree.place_mem_projections (h : p.CaptureFree q place) (hp : p.WellFormed) {b : Nat}
    (hb : b ∈ p.right.projections) (hshown : ¬ p.Hides b) : place b ∈ q.projections := by
  have hlt := hp.right.projections_lt b hb
  rw [h.mem_projections_iff]
  by_cases hid : ∃ a, p.Identified a b
  · obtain ⟨a, hid⟩ := hid
    left
    by_contra hnot
    exact hshown ⟨a, hid, h.place_eq hp hid ▸ hnot⟩
  · exact Or.inr ⟨b, hb, h.size_le_place hlt (not_exists.mp hid), rfl⟩

/-- A hidden variable is no column. -/
theorem CaptureFree.place_not_mem_projections (h : p.CaptureFree q place) (hp : p.WellFormed)
    {b : Nat} (hhidden : p.Hides b) : place b ∉ q.projections := by
  obtain ⟨a, hid, hnot⟩ := hhidden
  rw [h.mem_projections_iff, h.place_eq hp hid]
  rintro (hleft | ⟨b', -, hbehind, rfl⟩)
  · exact hnot hleft
  · exact absurd (hp.left_lt_of_identified hid) (Nat.not_lt_of_le hbehind)

/-- A composite keeps columns: only a variable that is identified with a left one that is none is
lost. -/
theorem CaptureFree.keepsColumns (h : p.CaptureFree q place) (hp : p.WellFormed) :
    p.KeepsColumns q place := by
  have hleft : ∀ a ∈ p.left.projections, q.Visible a :=
    fun a ha => Query.visible_of_mem (h.mem_projections_iff.mpr (Or.inl ha))
  have hright : ∀ b ∈ p.right.projections, ¬ p.Hides b → q.Visible (place b) :=
    fun b hb hshown => Query.visible_of_mem (h.place_mem_projections hp hb hshown)
  refine ⟨hleft, hright, ?_, ?_⟩
  · intro hleftNe hrightNe
    refine ⟨fun a ha => hleft a ((Query.visible_iff_of_ne_nil hleftNe).mp ha), fun b hb => ?_⟩
    have hne : q.projections ≠ [] := by
      rw [h.projections]
      exact List.append_ne_nil_of_left_ne_nil hleftNe _
    rw [Query.visible_iff_of_ne_nil hrightNe] at hb
    refine ⟨fun hshown hhidden => ?_, hright b hb⟩
    exact h.place_not_mem_projections hp hhidden ((Query.visible_iff_of_ne_nil hne).mp hshown)
  · intro hleftNil hrightNil
    have hnil : q.projections = [] := by simp [h.projections, hleftNil, hrightNil]
    simp only [Query.visible_iff_of_nil hleftNil, Query.visible_iff_of_nil hrightNil,
      Query.visible_iff_of_nil hnil, h.patterns]
    refine ⟨fun a hshown => ?_, fun b hshown => ?_⟩
    · obtain ⟨pattern, hpattern, ha⟩ := hshown
      exact ⟨pattern, List.mem_append_left _ hpattern, ha⟩
    · obtain ⟨pattern, hpattern, hb⟩ := hshown
      refine ⟨_, List.mem_append_right _ (List.mem_map_of_mem hpattern), ?_⟩
      rw [Pattern.varIds_mapVar]
      exact List.mem_map_of_mem hb

end Pairing

/-- **A join keeps columns**, where the left operand does not say otherwise: every column of the
left query is visible in the composite, and so is every column of the right one, unless it is
identified with a left variable that is no column.  Where both have columns these are all; where
neither has, everything that was visible is visible. -/
theorem Query.join_keepsColumns {l r : Query} (hl : l.Built) (hr : r.Built) {n m : String}
    {leftId rightId : VarId} (hn : l.resolve n = .ok leftId) (hm : r.resolve m = .ok rightId)
    (requested : JoinMode) :
    ∃ (q : Query) (place : VarId → VarId),
      Query.join ⟨l, n⟩ ⟨r, m⟩ requested = .ok (q, Query.effectiveMode l r requested) ∧
        (Pairing.mk l r leftId rightId).CaptureFree q place ∧
        (Pairing.mk l r leftId rightId).KeepsColumns q place := by
  have hp := Pairing.wellFormed_of_resolve hl.wellFormed hr.wellFormed hn hm
  obtain ⟨t, places, hmerged, hjoin⟩ := hp.join_eq_ok hn hm requested
  have hfree := hmerged.captureFree hp (Query.effectiveMode l r requested)
  exact ⟨_, _, hjoin, hfree, hfree.keepsColumns hp⟩

/-- The variables for the city are joined, of which the left one is no column and the right one is.
-/
theorem Query.join_keepsColumns_people_cities :
    peopleQuery.Built ∧ citiesQuery.Built ∧
      peopleQuery.resolve "city" = .ok 1 ∧ citiesQuery.resolve "place" = .ok 0 ∧
      ∃ (q : Query) (place : VarId → VarId),
        Query.join ⟨peopleQuery, "city"⟩ ⟨citiesQuery, "place"⟩ .service = .ok (q, .service) ∧
          (Pairing.mk peopleQuery citiesQuery 1 0).CaptureFree q place ∧
          (Pairing.mk peopleQuery citiesQuery 1 0).KeepsColumns q place :=
  ⟨peopleQuery_built, citiesQuery_built, rfl, rfl,
    Query.join_keepsColumns peopleQuery_built citiesQuery_built rfl rfl .service⟩

/-- The cities are a column of the right example.  Joined on who it is, they are the cities of the
left one, which are none. -/
theorem Query.join_hides :
    ∃ (q : Query) (place : VarId → VarId), peopleQuery.Built ∧ citiesQuery.Built ∧
      Query.join ⟨peopleQuery, "id"⟩ ⟨citiesQuery, "id"⟩ .inline = .ok (q, .service) ∧
      (Pairing.mk peopleQuery citiesQuery 0 1).CaptureFree q place ∧
      citiesQuery.Visible 0 ∧ ¬ q.Visible (place 0) := by
  have hl : peopleQuery.resolve "id" = .ok 0 := rfl
  have hr : citiesQuery.resolve "id" = .ok 1 := rfl
  have hp : (Pairing.mk peopleQuery citiesQuery 0 1).WellFormed :=
    Pairing.wellFormed_of_resolve peopleQuery_built.wellFormed citiesQuery_built.wellFormed hl hr
  have hunified : (Pairing.mk peopleQuery citiesQuery 0 1).Unified 1 0 :=
    ⟨by decide, by decide, ⟨"urn:city", by decide +kernel, by decide +kernel⟩,
      by decide +kernel, by decide +kernel⟩
  have hhidden : (Pairing.mk peopleQuery citiesQuery 0 1).Hides 0 :=
    ⟨1, Or.inr hunified, by decide +kernel⟩
  obtain ⟨t, places, hmerged, hjoin⟩ := hp.join_eq_ok hl hr .inline
  have hfree := hmerged.captureFree hp (Query.effectiveMode peopleQuery citiesQuery .inline)
  have hcolumn : (0 : VarId) ∈ citiesQuery.projections := by decide +kernel
  have hne : peopleQuery.projections ≠ [] := by decide +kernel
  refine ⟨_, _, peopleQuery_built, citiesQuery_built, hjoin, hfree,
    Query.visible_of_mem hcolumn, ?_⟩
  intro hshown
  exact (((hfree.keepsColumns hp).both hne (List.ne_nil_of_mem hcolumn)).2 0
    (Query.visible_of_mem hcolumn)).mp hshown hhidden

end SparqlCompose
