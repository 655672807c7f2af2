import Mathlib
import SparqlCompose.Proofs.Join.Meaning
import SparqlCompose.Proofs.Settled

/-!
# What a join does to blank nodes

A blank node of a query is a variable without a column: it stands for some term, the same one
wherever the query has its label, be it in a slot or as the value of a variable
(`Query.Matches`).  A join keeps the variables of its operands apart, but it copies labels as they
are, so that a label of both operands is one label of the composite (`Query.join_sharedLabel`).

Where the operands have no label in common, the composite asks no more than they do: two matches of
the operands that agree on the variables that are identified make a match of the composite, and
only the value of a variable that is identified can bring a label into both parts
(`Query.join_copiesLabels`).
-/

namespace SparqlCompose

/-- The label of a blank node. -/
def Constant.label? (c : Constant) : Option String := c.toTerm.label?

/-- The labels in the slots of a pattern. -/
def Pattern.labels (p : Pattern) : List String :=
  [p.subject, p.predicate, p.object].filterMap Term.label?

/-- The labels in the slots of clauses. -/
def Clause.labels (cs : List Clause) : List String := (patternsAll cs).flatMap Pattern.labels

/-- The label is in a slot of the clauses or in the value of a variable among the given ones. -/
def Query.HasLabel (q : Query) (cs : List Clause) (ids : Set VarId) (label : String) : Prop :=
  label ∈ Clause.labels cs ∨ ∃ id ∈ ids, ∃ c, q.boundAt id = some c ∧ c.label? = some label

/-- The label occurs somewhere in the query. -/
def Query.Uses (q : Query) (label : String) : Prop := q.HasLabel q.clauses Set.univ label

/-- The term that a constant stands for in a query. -/
def Constant.value (blanks : String → Constant) (c : Constant) : Constant :=
  (c.label?).elim c blanks

/-- The assignment to the variables of the table matches the query as it is written, asked of an
endpoint: in the place of a variable its value stands, and a blank node stands for some term. -/
def Query.Matches (D : Dataset) (e : Option String) (q : Query)
    (μ : Fin q.table.size → Constant) : Prop :=
  ∃ blanks : String → Constant,
    (∀ id c, q.boundAt id = some c → valueAt μ id = some (c.value blanks)) ∧
      Clause.HoldsAll D (Term.value (valueAt μ) blanks) e q.clauses

/-- What a constant stands for depends on its own label only. -/
theorem Constant.value_congr {blanks blanks' : String → Constant} {c : Constant}
    (h : ∀ label, c.label? = some label → blanks label = blanks' label) :
    c.value blanks = c.value blanks' := by
  unfold value
  cases hlabel : c.label? with
  | none => rfl
  | some label => exact h label hlabel

/-- A label in a slot of a pattern is used. -/
theorem Query.uses_of_slot {q : Query} {p : Pattern} (hp : p ∈ q.patterns) {x : Term}
    (hx : x ∈ [p.subject, p.predicate, p.object]) {label : String}
    (hlabel : x.label? = some label) : q.Uses label :=
  Or.inl (List.mem_flatMap.mpr ⟨p, hp, List.mem_filterMap.mpr ⟨x, hx, hlabel⟩⟩)

/-- So is a label in a value. -/
theorem Query.uses_of_boundAt {q : Query} {id : VarId} {c : Constant} {label : String}
    (hc : q.boundAt id = some c) (hlabel : c.label? = some label) : q.Uses label :=
  Or.inr ⟨id, Set.mem_univ id, c, hc, hlabel⟩

section

variable {q : Query} {assigned assigned' : VarId → Option Constant}
  {blanks blanks' : String → Constant}

/-- The values that a query gives depend on its variables and on the labels that it uses. -/
theorem Query.values_of_agree (hvar : ∀ id < q.table.size, assigned id = assigned' id)
    (hblanks : ∀ label, q.Uses label → blanks label = blanks' label)
    (h : ∀ id c, q.boundAt id = some c → assigned' id = some (c.value blanks')) :
    ∀ id c, q.boundAt id = some c → assigned id = some (c.value blanks) := by
  intro id c hc
  rw [hvar id (lt_of_boundAt hc), h id c hc]
  refine congrArg some (Constant.value_congr fun label hlabel => ?_)
  exact (hblanks label (uses_of_boundAt hc hlabel)).symm

/-- Whether the body of a query holds depends on its variables and on the labels that it uses. -/
theorem Query.WellFormed.holdsAll_iff_of_agree (h : q.WellFormed) {D : Dataset}
    {e : Option String} (hvar : ∀ id < q.table.size, assigned id = assigned' id)
    (hblanks : ∀ label, q.Uses label → blanks label = blanks' label) :
    Clause.HoldsAll D (Term.value assigned blanks) e q.clauses ↔
      Clause.HoldsAll D (Term.value assigned' blanks') e q.clauses := by
  refine Clause.holdsAll_congr e q.clauses fun p hp x hx => ?_
  refine Term.value_congr (fun id hid => ?_) fun label hlabel => ?_
  · exact hvar id (h.patterns_lt hp (List.mem_filterMap.mpr ⟨x, hx, hid⟩))
  · exact hblanks label (uses_of_slot hp hx hlabel)

end

/-- Exchanging places touches no label. -/
theorem Term.label?_mapVar (f : VarId → VarId) (x : Term) : (x.mapVar f).label? = x.label? := by
  cases x <;> rfl

/-- So a mapped pattern has the labels of the pattern. -/
theorem Pattern.labels_mapVar (f : VarId → VarId) (p : Pattern) :
    (p.mapVar f).labels = p.labels := by
  simp [labels, mapVar, List.filterMap_cons, Term.label?_mapVar]

/-- Clauses have the labels that they had, whatever becomes of their variables. -/
theorem Clause.labels_eq {cs ds : List Clause} {f : VarId → VarId}
    (h : patternsAll cs = (patternsAll ds).map (Pattern.mapVar f)) : labels cs = labels ds := by
  rw [labels, h, List.flatMap_map]
  exact List.flatMap_congr fun p _ => p.labels_mapVar f

namespace Pairing

variable {p : Pairing} {t : OrderedMap Variable} {places : List Nat}

/-- The body of the composite is that of the left query with a part that the right query brings
in.  Labels are copied as they are. -/
structure Parted (p : Pairing) (q : Query) (place : Nat → Nat) (part : List Clause) : Prop where
  clauses : q.clauses = p.left.clauses ++ part
  patterns : Clause.patternsAll part = p.right.patterns.map (Pattern.mapVar place)
  labels : Clause.labels part = Clause.labels p.right.clauses

/-- The operands have no label in common. -/
def Apart (p : Pairing) : Prop := ∀ label, p.left.Uses label → ¬ p.right.Uses label

/-- The body of a composite is that of the left query and what the right one brings in. -/
theorem parted (p : Pairing) (mode : JoinMode) (t : OrderedMap Variable) (places : List Nat) :
    p.Parted (p.composite mode t places) (Query.placeIn places) (p.rightClauses mode places) where
  clauses := rfl
  patterns := patternsAll_rightClauses p mode places
  labels := Clause.labels_eq (patternsAll_rightClauses p mode places)

/-- A left variable has a value in the composite that it had before, or that of the joined
variable on the right. -/
theorem Merged.boundAt_left_cases (hm : p.Merged t places) (h : p.WellFormed) (mode : JoinMode)
    {a : Nat} {c : Constant} (ha : a < p.left.table.size)
    (hc : (p.composite mode t places).boundAt a = some c) :
    p.left.boundAt a = some c ∨ (a = p.leftId ∧ p.right.boundAt p.rightId = some c) := by
  rw [hm.boundAt_left h mode ha, valueAt] at hc
  split at hc
  · next heq =>
      cases hleft : p.left.boundAt p.leftId with
      | some d => exact Or.inl (by rw [heq, hleft, ← hc, hleft]; rfl)
      | none => exact Or.inr ⟨heq, by rwa [hleft] at hc⟩
  · exact Or.inl hc

/-- The values in the composite are values that an operand has. -/
theorem Merged.boundAt_cases (hm : p.Merged t places) (h : p.WellFormed) (mode : JoinMode)
    {i : Nat} {c : Constant} (hc : (p.composite mode t places).boundAt i = some c) :
    p.left.boundAt i = some c ∨
      ∃ b, Query.placeIn places b = i ∧ p.right.boundAt b = some c := by
  by_cases hi : i < p.left.table.size
  · rcases hm.boundAt_left_cases h mode hi hc with hown | ⟨rfl, hother⟩
    · exact Or.inl hown
    · exact Or.inr ⟨p.rightId, hm.placeIn_eq h (Or.inl ⟨rfl, rfl⟩), hother⟩
  · rcases ((hm.captureFree h .inline).covered i).mp (Query.lt_of_boundAt hc) with hlt | hright
    · exact absurd hlt hi
    · obtain ⟨b, hb, rfl⟩ := hright
      rcases hm.boundAt_right h mode hb with ⟨a, hid, -⟩ | hown
      · exact absurd (hm.placeIn_eq h hid ▸ h.left_lt_of_identified hid) hi
      · exact Or.inr ⟨b, rfl, hown.symm.trans hc⟩

/-- Operands without a common label bring a label into both parts of the composite only through
the value of a variable that is identified. -/
theorem Merged.exists_identified (hm : p.Merged t places) (h : p.WellFormed) (mode : JoinMode)
    (hapart : p.Apart) {label : String}
    (hleft : (p.composite mode t places).HasLabel p.left.clauses
      {a | a < p.left.table.size} label)
    (hright : (p.composite mode t places).HasLabel (p.rightClauses mode places)
      {i | ∃ b < p.right.table.size, Query.placeIn places b = i} label) :
    ∃ a b c, p.Identified a b ∧ (p.composite mode t places).boundAt a = some c ∧
      c.label? = some label := by
  by_contra hnone
  have hleftUses : p.left.Uses label := by
    rcases hleft with hslots | ⟨a, ha, c, hc, hlabel⟩
    · exact Or.inl hslots
    · rcases hm.boundAt_left_cases h mode ha hc with hown | ⟨rfl, -⟩
      · exact Query.uses_of_boundAt hown hlabel
      · exact absurd ⟨p.leftId, p.rightId, c, Or.inl ⟨rfl, rfl⟩, hc, hlabel⟩ hnone
  have hrightUses : p.right.Uses label := by
    rcases hright with hslots | ⟨i, ⟨b, hb, rfl⟩, c, hc, hlabel⟩
    · exact Or.inl ((p.parted mode t places).labels ▸ hslots)
    · rcases hm.boundAt_right h mode hb with ⟨a, hid, -⟩ | hown
      · exact absurd ⟨a, b, c, hid, hm.placeIn_eq h hid ▸ hc, hlabel⟩ hnone
      · exact Query.uses_of_boundAt (hown.symm.trans hc) hlabel
  exact hapart label hleftUses hrightUses

/-- Two matches of operands without a common label that agree make a match of the composite. -/
theorem Merged.exists_matches (hm : p.Merged t places) (h : p.WellFormed) (requested : JoinMode)
    (hapart : p.Apart) {D : Dataset}
    {s : (Fin p.left.table.size → Constant) × (Fin p.right.table.size → Constant)}
    (hleft : p.left.Matches D p.left.activeEndpoint s.1)
    (hright : p.right.Matches D (p.right.activeEndpoint <|> p.left.activeEndpoint) s.2)
    (hagree : p.Agree s) :
    ∃ μ : Fin t.size → Constant, μ ∘ hm.leftMap = s.1 ∧ μ ∘ hm.rightMap = s.2 ∧
      (p.composite (Query.effectiveMode p.left p.right requested) t places).Matches D
        p.left.activeEndpoint μ := by
  classical
  obtain ⟨μ, hμleft, hμright⟩ := hm.exists_glue h hagree
  obtain ⟨leftBlanks, hleftBound, hleftHolds⟩ := hleft
  obtain ⟨rightBlanks, hrightBound, hrightHolds⟩ := hright
  -- no label is used by both operands, so the values of both can be taken at once
  let blanks : String → Constant := fun label =>
    if p.left.Uses label then leftBlanks label else rightBlanks label
  have hleftBlanks : ∀ label, p.left.Uses label → blanks label = leftBlanks label :=
    fun label huses => if_pos huses
  have hrightBlanks : ∀ label, p.right.Uses label → blanks label = rightBlanks label :=
    fun label huses => if_neg fun hleft => hapart label hleft huses
  have hleftVar : ∀ a < p.left.table.size,
      SparqlCompose.valueAt μ a = SparqlCompose.valueAt s.1 a := by
    intro a ha
    rw [valueAt_of_lt μ (hm.left_lt ha), valueAt_of_lt s.1 ha, ← hμleft]
    rfl
  have hrightVar : ∀ b < p.right.table.size,
      SparqlCompose.valueAt μ (Query.placeIn places b) = SparqlCompose.valueAt s.2 b := by
    intro b hb
    rw [valueAt_of_lt μ (hm.right_lt hb), valueAt_of_lt s.2 hb, ← hμright]
    rfl
  have hleftValue := Query.values_of_agree hleftVar hleftBlanks hleftBound
  have hrightValue : ∀ b c, p.right.boundAt b = some c →
      SparqlCompose.valueAt μ (Query.placeIn places b) = some (c.value blanks) :=
    Query.values_of_agree hrightVar hrightBlanks hrightBound
  refine ⟨μ, hμleft, hμright, blanks, ?_, ?_⟩
  · intro i c hc
    rcases hm.boundAt_cases h _ hc with hown | ⟨b, rfl, hown⟩
    · exact hleftValue i c hown
    · exact hrightValue b c hown
  · refine Clause.holdsAll_append.mpr ⟨?_, (holdsAll_rightClauses requested).mpr ?_⟩
    · exact (h.left.holdsAll_iff_of_agree hleftVar hleftBlanks).mpr hleftHolds
    · rw [← Clause.mapVarAll_eq_map, Clause.holdsAll_mapVarAll]
      simp only [Term.value_mapVar]
      exact (h.right.holdsAll_iff_of_agree hrightVar hrightBlanks).mpr hrightHolds

/-- What becomes of the blank nodes of both operands in a composite. -/
structure CopiesLabels (p : Pairing) (q : Query) (place : Nat → Nat) (part : List Clause) : Prop
    extends p.Parted q place part where
  /-- Only the value of a variable that is identified brings a label into both parts, if the
  operands have none in common. -/
  identified : p.Apart → ∀ label, q.HasLabel p.left.clauses {a | a < p.left.table.size} label →
    q.HasLabel part {i | ∃ b < p.right.table.size, place b = i} label →
    ∃ a b c, p.Identified a b ∧ q.boundAt a = some c ∧ c.label? = some label
  /-- No condition is added: matches of the operands that agree on the variables that are
  identified make a match, where the right operand is asked of its own endpoint, or of that of the
  left one if it has none. -/
  matched : p.Apart → ∀ (D : Dataset) (s : (Fin p.left.table.size → Constant) ×
      (Fin p.right.table.size → Constant)),
    p.left.Matches D p.left.activeEndpoint s.1 →
    p.right.Matches D (p.right.activeEndpoint <|> p.left.activeEndpoint) s.2 → p.Agree s →
    ∃ μ : Fin q.table.size → Constant, q.Matches D q.activeEndpoint μ ∧
      (∀ a : Fin p.left.table.size, SparqlCompose.valueAt μ a = some (s.1 a)) ∧
      ∀ b : Fin p.right.table.size, SparqlCompose.valueAt μ (place b) = some (s.2 b)

/-- A composite copies labels.  One that comes into both parts comes by a value, and that belongs to
variables that are identified. -/
theorem Merged.copiesLabels (hm : p.Merged t places) (h : p.WellFormed) (requested : JoinMode) :
    p.CopiesLabels (p.composite (Query.effectiveMode p.left p.right requested) t places)
      (Query.placeIn places)
      (p.rightClauses (Query.effectiveMode p.left p.right requested) places) where
  toParted := p.parted _ t places
  identified := fun hapart _ hleft hright => hm.exists_identified h _ hapart hleft hright
  matched := by
    intro hapart D s hleft hright hagree
    obtain ⟨μ, hμleft, hμright, hmatches⟩ :=
      hm.exists_matches h requested hapart hleft hright hagree
    refine ⟨μ, hmatches, fun a => ?_, fun b => ?_⟩
    · exact (valueAt_of_lt μ (hm.left_lt a.isLt)).trans (congrArg some (congrFun hμleft a))
    · exact (valueAt_of_lt μ (hm.right_lt b.isLt)).trans (congrArg some (congrFun hμright b))

end Pairing

/-- **Joins copy the labels of blank nodes.**  A label in a slot of an operand is in a slot of the
part that comes from it.  If the operands have no label in common, then a label gets into both
parts only as the value of a variable that is identified, and the composite asks no more than that
its operands match and agree on the variables that are identified. -/
theorem Query.join_copiesLabels {l r : Query} (hl : l.Built) (hr : r.Built) {n m : String}
    {leftId rightId : VarId} (hn : l.resolve n = .ok leftId) (hm : r.resolve m = .ok rightId)
    (requested : JoinMode) :
    ∃ (q : Query) (place : VarId → VarId) (part : List Clause),
      Query.join ⟨l, n⟩ ⟨r, m⟩ requested = .ok (q, Query.effectiveMode l r requested) ∧
        (Pairing.mk l r leftId rightId).CaptureFree q place ∧
        (Pairing.mk l r leftId rightId).CopiesLabels q place part := by
  have hp := Pairing.wellFormed_of_resolve hl.wellFormed hr.wellFormed hn hm
  obtain ⟨t, places, hmerged, hjoin⟩ := hp.join_eq_ok hn hm requested
  exact ⟨_, _, _, hjoin, hmerged.captureFree hp _, hmerged.copiesLabels hp requested⟩

/-- Those who have a property of some thing. -/
def someQuery (property label : String) : Query :=
  ({ uri := property } : Query).afterAll
    [.addVariable { uri := property ++ ";var=id", name := "id" },
      .pushClause (.pattern ⟨.var 0, .resource (.iri property), .resource (.blank label)⟩)]

/-- The example is made by lawful calls. -/
theorem someQuery_built (property label : String) : (someQuery property label).Built := by
  refine (Query.Built.new _).afterAll ?_
  simp [Query.Call.Lawful, Clause.made_pattern_iff, Term.isLiteral, Term.IsNormal]

/-- A query without values uses the labels in its slots only. -/
theorem Query.Unbound.mem_labels {q : Query} (h : q.Unbound) {label : String}
    (huses : q.Uses label) : label ∈ Clause.labels q.clauses := by
  rcases huses with hslot | ⟨id, -, c, hc, -⟩
  · exact hslot
  · rw [h.boundAt] at hc
    cases hc

/-- Two queries for some thing, with labels of their own, are joined on the one who knows and likes
it. -/
theorem Query.join_copiesLabels_knows_likes :
    (Pairing.mk (someQuery "urn:knows" "b") (someQuery "urn:likes" "c") 0 0).Apart ∧
      ∃ (q : Query) (place : VarId → VarId) (part : List Clause),
        Query.join ⟨someQuery "urn:knows" "b", "id"⟩ ⟨someQuery "urn:likes" "c", "?id"⟩ .inline =
            .ok (q, .inline) ∧
          (Pairing.mk (someQuery "urn:knows" "b") (someQuery "urn:likes" "c") 0 0).CaptureFree q
            place ∧
          (Pairing.mk (someQuery "urn:knows" "b") (someQuery "urn:likes" "c") 0 0).CopiesLabels q
            place part := by
  refine ⟨?_, Query.join_copiesLabels (someQuery_built _ _) (someQuery_built _ _) rfl rfl .inline⟩
  have hknows : (someQuery "urn:knows" "b").Unbound := by unfold Query.Unbound; decide +kernel
  have hlikes : (someQuery "urn:likes" "c").Unbound := by unfold Query.Unbound; decide +kernel
  have hlabels : ∀ label ∈ Clause.labels (someQuery "urn:knows" "b").clauses,
      label ∉ Clause.labels (someQuery "urn:likes" "c").clauses := by decide +kernel
  intro label hleft hright
  exact hlabels label (hknows.mem_labels hleft) (hlikes.mem_labels hright)

/-- Two blank nodes with one label become one. -/
theorem Query.join_sharedLabel :
    ∃ (q : Query) (part : List Clause),
      (someQuery "urn:knows" "b").Built ∧ (someQuery "urn:likes" "b").Built ∧
      Query.join ⟨someQuery "urn:knows" "b", "id"⟩ ⟨someQuery "urn:likes" "b", "id"⟩ .inline =
          .ok (q, .inline) ∧
        q.clauses = (someQuery "urn:knows" "b").clauses ++ part ∧
        "b" ∈ Clause.labels (someQuery "urn:knows" "b").clauses ∧ "b" ∈ Clause.labels part :=
  ⟨_, (someQuery "urn:likes" "b").clauses, someQuery_built _ _, someQuery_built _ _, rfl, rfl,
    by decide +kernel, by decide +kernel⟩

end SparqlCompose
