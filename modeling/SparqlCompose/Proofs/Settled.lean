import Mathlib
import SparqlCompose.Proofs.Join.CaptureFree
import SparqlCompose.Proofs.View
import SparqlCompose.Query.Text

/-!
# Values in the place of variables

In query text a bound variable is written as its value, so what a pattern says is what it says with
the values in place (`Query.settled`).  A pattern is refused when a literal is its subject or its
predicate, its *heads*; but a value may come later.  A query is *proper* when no head of its
patterns is a literal with the values in place (`Query.Proper`).

A value that is set keeps a query proper unless it is a literal and the variable heads a pattern
(`Query.Proper.setBound_iff`).  A join gives values to variables too: two variables that are
identified have one value from then on, and a literal must not come to one of them that heads a
pattern (`Pairing.Merged.proper_composite_iff`).
-/

namespace SparqlCompose

/-- The subject and the predicate of a pattern, which are no literals. -/
def Pattern.heads (p : Pattern) : List Term := [p.subject, p.predicate]

/-- The heads of a mapped pattern are its heads, mapped. -/
theorem Pattern.heads_mapVar (f : VarId → VarId) (p : Pattern) :
    (p.mapVar f).heads = p.heads.map (Term.mapVar f) := rfl

/-- The heads of a pattern that can be made are no literals. -/
theorem Clause.Made.isLiteral_heads {p : Pattern} (h : (Clause.pattern p).Made) {x : Term}
    (hx : x ∈ p.heads) : x.isLiteral = false := by
  obtain ⟨hs, hm, -⟩ := made_pattern_iff.mp h
  simp only [Pattern.heads, List.mem_cons, List.not_mem_nil, or_false] at hx
  rcases hx with rfl | rfl
  · exact hs
  · exact hm

namespace Query

variable {q q' q'' : Query} {id : VarId}

/-- The slot with the value of its variable in place, if that has one. -/
def settled (q : Query) : Term → Term
  | .var id => (q.boundAt id).elim (.var id) Constant.toTerm
  | x => x

/-- With the values in place, no pattern has a literal as its subject or its predicate. -/
def Proper (q : Query) : Prop :=
  ∀ p ∈ q.patterns, ∀ x ∈ p.heads, (q.settled x).isLiteral = false

instance (q : Query) : Decidable q.Proper :=
  inferInstanceAs (Decidable (∀ p ∈ q.patterns, ∀ x ∈ p.heads, (q.settled x).isLiteral = false))

/-- The variable is the subject or the predicate of a pattern. -/
def Heads (q : Query) (id : VarId) : Prop := ∃ p ∈ q.patterns, .var id ∈ p.heads

/-- A variable says no literal exactly when its value, if it has one, is none. -/
theorem isLiteral_settled_var :
    (q.settled (.var id)).isLiteral = false ↔ ∀ l, q.boundAt id ≠ some (.literal l) := by
  unfold settled
  cases hvalue : q.boundAt id with
  | none => simp [Term.isLiteral, hvalue]
  | some c => cases c <;> simp [Constant.toTerm, Term.isLiteral, hvalue]

/-- A well-formed query is proper when no variable that heads a pattern has a literal as its
value. -/
theorem WellFormed.proper_iff (h : q.WellFormed) :
    q.Proper ↔ ∀ id, q.Heads id → ∀ l, q.boundAt id ≠ some (.literal l) := by
  constructor
  · rintro hproper id ⟨p, hp, hid⟩
    exact isLiteral_settled_var.mp (hproper p hp _ hid)
  · intro hheads p hp x hx
    cases x with
    | var id => exact isLiteral_settled_var.mpr (hheads id ⟨p, hp, hx⟩)
    | resource r => rfl
    | literal l => exact (h.made_pattern hp).isLiteral_heads hx

/-- A variable that heads a pattern of a well-formed query is in its table. -/
theorem WellFormed.lt_of_heads (h : q.WellFormed) (hid : q.Heads id) : id < q.table.size := by
  obtain ⟨p, hp, hmem⟩ := hid
  refine h.patterns_lt hp (List.mem_filterMap.mpr ⟨.var id, ?_, rfl⟩)
  simp only [Pattern.heads, List.mem_cons, List.not_mem_nil, or_false] at hmem ⊢
  exact hmem.imp_right Or.inl

/-- A query without values is proper. -/
theorem Unbound.proper (hunbound : q.Unbound) (h : q.WellFormed) : q.Proper := by
  refine h.proper_iff.mpr fun id _ l => ?_
  rw [hunbound.boundAt]
  nofun

/-! ### Patterns with values in place -/

/-- The pattern with the values of its variables in place. -/
def settledPattern (q : Query) (p : Pattern) : Pattern :=
  ⟨q.settled p.subject, q.settled p.predicate, q.settled p.object⟩

/-- A slot has the value of its variable in place, or it is as it was. -/
theorem settled_cases (q : Query) (x : Term) :
    (∃ id c, x = .var id ∧ q.boundAt id = some c ∧ q.settled x = c.toTerm) ∨ q.settled x = x := by
  cases x with
  | resource r => exact Or.inr rfl
  | literal l => exact Or.inr rfl
  | var id =>
      cases hvalue : q.boundAt id with
      | none => exact Or.inr (by simp [settled, hvalue])
      | some c => exact Or.inl ⟨id, c, rfl, hvalue, by simp [settled, hvalue]⟩

/-- The value of a variable asks nothing of the table. -/
theorem has_settled {x : Term} (hx : q.Has x) : q.Has (q.settled x) := by
  rcases q.settled_cases x with ⟨id, c, -, -, hsettled⟩ | hsame
  · rw [hsettled]
    cases c <;> nofun
  · rwa [hsame]

/-- The values of a well-formed query are as their constructors make them. -/
theorem WellFormed.isNormal_boundAt (h : q.WellFormed) {c : Constant}
    (hc : q.boundAt id = some c) : c.IsNormal := by
  obtain ⟨v, hv, hbound⟩ := Option.bind_eq_some_iff.mp hc
  exact (h.table.legal_of_at? hv).bound c hbound

/-- So are those that can be seen under its names. -/
theorem WellFormed.isNormal_value (h : q.WellFormed) (name : String) (c : Constant)
    (hc : q.view.value name = some c) : c.IsNormal := by
  obtain ⟨id, -, hbound⟩ := Option.bind_eq_some_iff.mp hc
  exact h.isNormal_boundAt hbound

/-- So is a slot with the value of its variable in place. -/
theorem WellFormed.isNormal_settled (h : q.WellFormed) {x : Term} (hx : x.IsNormal) :
    (q.settled x).IsNormal := by
  rcases q.settled_cases x with ⟨id, c, -, hc, hsettled⟩ | hsame
  · have hnormal := h.isNormal_boundAt hc
    rw [hsettled]
    cases c with
    | resource r => trivial
    | literal l => exact Constant.literal.inj hnormal
  · rwa [hsame]

/-- The table has the variables that are left when the values are in place. -/
theorem WellFormed.holds_settledPattern (h : q.WellFormed) {p : Pattern} (hp : p ∈ q.patterns) :
    q.Holds (q.settledPattern p) := by
  obtain ⟨hs, hm, ho⟩ := h.holds hp
  exact ⟨has_settled hs, has_settled hm, has_settled ho⟩

/-- In a proper query a pattern with the values in place can be made. -/
theorem Proper.made_settledPattern (hproper : q.Proper) (h : q.WellFormed) {p : Pattern}
    (hp : p ∈ q.patterns) : (Clause.pattern (q.settledPattern p)).Made := by
  have hheads := hproper p hp
  simp only [Pattern.heads, List.forall_mem_cons] at hheads
  obtain ⟨hsubject, hpredicate, -⟩ := hheads
  obtain ⟨-, -, hobject⟩ := Clause.made_pattern_iff.mp (h.made_pattern hp)
  exact Clause.made_pattern_iff.mpr ⟨hsubject, hpredicate, h.isNormal_settled hobject⟩

/-! ### Edits -/

/-- The query has the same patterns and the same values. -/
structure SaysAs (q q' : Query) : Prop where
  patterns : q'.patterns = q.patterns
  boundAt : q'.boundAt = q.boundAt

/-- A query says what it says. -/
theorem SaysAs.refl (q : Query) : q.SaysAs q := ⟨rfl, rfl⟩

/-- What a second query says of a third, the first one does. -/
theorem SaysAs.trans (h : q.SaysAs q') (h' : q'.SaysAs q'') : q.SaysAs q'' :=
  ⟨h'.patterns.trans h.patterns, h'.boundAt.trans h.boundAt⟩

/-- Queries that say the same settle a slot alike. -/
theorem SaysAs.settled (h : q.SaysAs q') : q'.settled = q.settled := by
  funext x
  cases x with
  | var id => rw [Query.settled, Query.settled, h.boundAt]
  | resource r => rfl
  | literal l => rfl

/-- Of queries that say the same, both are proper or neither. -/
theorem SaysAs.proper_iff (h : q.SaysAs q') : q'.Proper ↔ q.Proper := by
  unfold Proper
  rw [h.patterns, h.settled]

/-- Choosing an endpoint changes nothing of what a query says. -/
theorem SaysAs.activate (q : Query) (uri : String) : q.SaysAs (q.activate uri) := ⟨rfl, rfl⟩

/-- Nor does scoping it to an instance. -/
theorem SaysAs.scopeTo (q : Query) (instanceId : String) : q.SaysAs (q.scopeTo instanceId) where
  patterns := rfl
  boundAt := by
    funext i
    rw [Query.boundAt, Query.scopeTo, OrderedMap.at?_map, Query.boundAt]
    cases q.table.at? i <;> rfl

/-- A new variable without a value says nothing. -/
theorem SaysAs.addVariable {v : Variable} (hv : v.bound = none)
    (hok : q.addVariable v = .ok (id, q')) : q.SaysAs q' := by
  obtain ⟨-, hnew, -, rfl⟩ := addVariable_eq_ok.mp hok
  refine ⟨rfl, ?_⟩
  funext i
  rw [Query.boundAt, Query.boundAt]
  cases hat : q.table.at? i with
  | some w => rw [OrderedMap.at?_insert_of_not_mem hnew hat]
  | none =>
      refine Option.bind_eq_none_iff.mpr fun w hw => ?_
      rw [OrderedMap.at?_eq_getElem?, OrderedMap.values_insert_of_not_mem v hnew] at hw
      rw [OrderedMap.at?_eq_getElem?, List.getElem?_eq_none_iff] at hat
      rw [List.getElem?_append_right hat] at hw
      rw [List.mem_singleton.mp (List.mem_of_getElem? hw), hv]

/-- Nor does a fresh variable, which has no value. -/
theorem SaysAs.freshVariable {base : String} (hok : q.freshVariable base = .ok (id, q')) :
    q.SaysAs q' :=
  addVariable rfl (freshVariable_eq_ok.mp hok).2

/-- Nor does a result column. -/
theorem SaysAs.project {isNew : Bool} (hok : q.project id = .ok (isNew, q')) : q.SaysAs q' := by
  obtain ⟨-, -, rfl⟩ := project_eq_ok.mp hok
  exact ⟨rfl, rfl⟩

/-- Nor does taking one away. -/
theorem SaysAs.unproject (q : Query) (id : VarId) : q.SaysAs (q.unproject id).2 := ⟨rfl, rfl⟩

/-- Nor does putting the columns into another order. -/
theorem SaysAs.reorder {order : List String} (hok : q.reorder order = .ok q') : q.SaysAs q' := by
  obtain ⟨names, ids, -, -, -, rfl⟩ := reorder_eq_ok.mp hok
  exact ⟨rfl, rfl⟩

/-- **A value may be set** in a proper query unless it is a literal and its variable heads a
pattern. -/
theorem Proper.setBound_iff (hproper : q.Proper) (h : q.WellFormed)
    {value old : Option Constant} (hvalue : ∀ c, value = some c → c.IsNormal)
    (hok : q.setBound id value = .ok (old, q')) :
    q'.Proper ↔ ∀ l, value = some (.literal l) → ¬ q.Heads id := by
  rw [((h.setBound hvalue hok).1).proper_iff]
  obtain ⟨hid, -, rfl⟩ := setBound_eq_ok.mp hok
  obtain ⟨v, hv⟩ := OrderedMap.exists_at? hid
  have hat : ∀ i, boundAt { q with table := q.table.modifyAt id fun v => { v with bound := value } }
      i = if i = id then value else q.boundAt i := by
    intro i
    rw [boundAt, boundAt, OrderedMap.at?_modifyAt]
    by_cases hi : i = id
    · simp [hi, hv]
    · rw [if_neg hi]
      cases q.table.at? i <;> simp [Ne.symm hi]
  constructor
  · intro hheads l hl hid
    exact hheads id hid l (by rw [hat, if_pos rfl, hl])
  · intro hvalue i hi l
    rw [hat]
    split
    · next heq =>
        intro hl
        exact hvalue l hl (heq ▸ hi)
    · exact h.proper_iff.mp hproper i hi l

/-- A pattern is added to what a query says. -/
theorem proper_pushPattern_iff {p : Pattern} (hok : q.pushClause (.pattern p) = .ok q') :
    q'.Proper ↔ q.Proper ∧ ∀ x ∈ p.heads, (q.settled x).isLiteral = false := by
  obtain ⟨-, rfl⟩ := pushClause_eq_ok.mp hok
  have hpatterns : ({ q with clauses := q.clauses ++ [.pattern p] } : Query).patterns =
      q.patterns ++ [p] := Clause.patternsAll_append _ _
  unfold Proper
  rw [hpatterns, List.forall_mem_append, List.forall_mem_singleton]
  rfl

end Query

/-! ### Joins -/

namespace Pairing

variable {p : Pairing} {t : OrderedMap Variable} {places : List Nat}

/-- The value in the composite of the variable at the place `a` of the left query. -/
def valueAt (p : Pairing) (a : Nat) : Option Constant :=
  if a = p.leftId then p.left.boundAt p.leftId <|> p.right.boundAt p.rightId else p.left.boundAt a

/-- No literal comes to variables that are identified when one of them heads a pattern. -/
def KeepsProper (p : Pairing) : Prop :=
  ∀ a b l, p.Identified a b → p.valueAt a = some (.literal l) → ¬ p.left.Heads a ∧ ¬ p.right.Heads b

/-- A left variable has its value in the composite. -/
theorem Merged.boundAt_left (hm : p.Merged t places) (h : p.WellFormed) (mode : JoinMode) {a : Nat}
    (ha : a < p.left.table.size) : (p.composite mode t places).boundAt a = p.valueAt a := by
  obtain ⟨v, hv⟩ := OrderedMap.exists_at? ha
  obtain ⟨w, hw⟩ := OrderedMap.exists_at? h.rightId_lt
  have hat : (p.composite mode t places).boundAt a = (p.leftCopy a v).bound := by
    rw [Query.boundAt, composite, hm.left a v hv]
    rfl
  rw [hat, leftCopy, hw, valueAt]
  split
  · next heq =>
      subst heq
      simp only [Query.boundAt, hv, hw]
      rfl
  · simp only [Query.boundAt, hv]
    rfl

/-- A right variable has the value of the left one with which it is identified, or its own. -/
theorem Merged.boundAt_right (hm : p.Merged t places) (h : p.WellFormed) (mode : JoinMode) {b : Nat}
    (hb : b < p.right.table.size) :
    (∃ a, p.Identified a b ∧
      (p.composite mode t places).boundAt (Query.placeIn places b) = p.valueAt a) ∨
    (p.composite mode t places).boundAt (Query.placeIn places b) = p.right.boundAt b := by
  cases hm.placed_placeIn hb with
  | joined hright hleft =>
      refine Or.inl ⟨p.leftId, Or.inl ⟨rfl, hright⟩, ?_⟩
      rw [hleft]
      exact hm.boundAt_left h mode h.leftId_lt
  | unified hunified => exact Or.inl ⟨_, Or.inr hunified, hm.boundAt_left h mode hunified.left_lt⟩
  | @added w hw _ _ _ hat =>
      refine Or.inr ?_
      simp only [Query.boundAt, composite, hat, hw]
      rfl

/-- What heads a pattern of a composite comes from the left query, or from a variable of the right
one that has gone to its place. -/
theorem composite_heads {mode : JoinMode} {i : Nat} :
    (p.composite mode t places).Heads i ↔
      p.left.Heads i ∨ ∃ b, p.right.Heads b ∧ Query.placeIn places b = i := by
  unfold Query.Heads
  rw [composite_patterns]
  constructor
  · rintro ⟨pattern, hpattern, hi⟩
    rcases List.mem_append.mp hpattern with hleft | hright
    · exact Or.inl ⟨pattern, hleft, hi⟩
    · obtain ⟨r, hr, rfl⟩ := List.mem_map.mp hright
      rw [Pattern.heads_mapVar] at hi
      obtain ⟨x, hx, hxi⟩ := List.mem_map.mp hi
      cases x with
      | var b => exact Or.inr ⟨b, ⟨r, hr, hx⟩, Term.var.inj hxi⟩
      | resource r => cases hxi
      | literal l => cases hxi
  · rintro (⟨pattern, hpattern, hi⟩ | ⟨b, ⟨r, hr, hb⟩, rfl⟩)
    · exact ⟨pattern, List.mem_append_left _ hpattern, hi⟩
    · refine ⟨_, List.mem_append_right _ (List.mem_map_of_mem hr), ?_⟩
      rw [Pattern.heads_mapVar]
      exact List.mem_map_of_mem (f := Term.mapVar (Query.placeIn places)) hb

/-- **What a join does to proper queries.**  Their composite is proper exactly when no literal comes
to variables that are identified and one of which heads a pattern. -/
theorem Merged.proper_composite_iff (hm : p.Merged t places) (h : p.WellFormed) (mode : JoinMode)
    (hleft : p.left.Proper) (hright : p.right.Proper) :
    (p.composite mode t places).Proper ↔ p.KeepsProper := by
  rw [h.left.proper_iff] at hleft
  rw [h.right.proper_iff] at hright
  rw [(hm.composite_wellFormed h mode).proper_iff]
  constructor
  · intro hheads a b l hid hl
    have ha := h.left_lt_of_identified hid
    have hbound := (hm.boundAt_left h mode ha).trans hl
    refine ⟨?_, ?_⟩
    · intro hhead
      exact hheads a (composite_heads.mpr (Or.inl hhead)) l hbound
    · intro hhead
      have hplace := hm.placeIn_eq h hid
      exact hheads a (composite_heads.mpr (Or.inr ⟨b, hhead, hplace⟩)) l hbound
  · intro hkeeps i hi l
    rcases composite_heads.mp hi with hhead | ⟨b, hhead, rfl⟩
    · rw [hm.boundAt_left h mode (h.left.lt_of_heads hhead)]
      intro hl
      by_cases hjoined : i = p.leftId
      · exact (hkeeps i p.rightId l (Or.inl ⟨hjoined, rfl⟩) hl).1 hhead
      · rw [valueAt, if_neg hjoined] at hl
        exact hleft i hhead l hl
    · intro hl
      rcases hm.boundAt_right h mode (h.right.lt_of_heads hhead) with
        ⟨a, hid, hvalue⟩ | hown
      · exact (hkeeps a b l hid (hvalue.symm.trans hl)).2 hhead
      · exact hright b hhead l (hown.symm.trans hl)

end Pairing

end SparqlCompose
