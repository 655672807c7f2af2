import Mathlib
import SparqlCompose.Proofs.Settled

/-!
# What a join does to values

A variable may have a value in an operand, and a variable of the composite may stand for two
variables.  A left variable always keeps its value.  A right one keeps its value unless it is
identified with a left variable; then the value of the left one comes first, and the joined
variable has that of the right operand only where the left operand leaves it open
(`Query.join_keepsValues`).  So of two values for one variable one is lost
(`Query.join_conflict`).
-/

namespace SparqlCompose

namespace Pairing

variable {p : Pairing} {t : OrderedMap Variable} {places : List Nat}

/-- What becomes of the values of both operands in a composite that holds the right variables at
the places that `place` says. -/
structure KeepsValues (p : Pairing) (q : Query) (place : Nat → Nat) : Prop where
  left : ∀ a c, p.left.boundAt a = some c → q.boundAt a = some c
  /-- A right variable keeps its value, unless it is identified with a left variable that has
  another one, or that has none and is not the joined one. -/
  right : ∀ b c, p.right.boundAt b = some c →
    (∀ a, p.Identified a b →
      p.left.boundAt a = some c ∨ (a = p.leftId ∧ p.left.boundAt a = none)) →
    q.boundAt (place b) = some c
  leftFirst : ∀ a b c, p.Identified a b → p.left.boundAt a = some c →
    q.boundAt (place b) = some c

/-- The value of a left variable is its own, if it has one. -/
theorem valueAt_of_boundAt {a : Nat} {c : Constant} (hc : p.left.boundAt a = some c) :
    p.valueAt a = some c := by
  unfold valueAt
  split
  · next heq =>
      rw [← heq, hc]
      rfl
  · exact hc

/-- A composite keeps the values of left variables, and those of right ones where the left ones
leave room for them. -/
theorem Merged.keepsValues (hm : p.Merged t places) (h : p.WellFormed) (mode : JoinMode) :
    p.KeepsValues (p.composite mode t places) (Query.placeIn places) := by
  have hleft : ∀ a c, p.left.boundAt a = some c →
      (p.composite mode t places).boundAt a = some c := by
    intro a c hc
    rw [hm.boundAt_left h mode (Query.lt_of_boundAt hc), valueAt_of_boundAt hc]
  refine ⟨hleft, ?_, ?_⟩
  · intro b c hc hfree
    rcases hm.boundAt_right h mode (Query.lt_of_boundAt hc) with ⟨a, hid, hvalue⟩ | hown
    · rcases hfree a hid with hsame | ⟨hjoined, hnone⟩
      · rw [hvalue, valueAt_of_boundAt hsame]
      · have hb : b = p.rightId := by
          rcases hid with ⟨-, hb⟩ | hunified
          · exact hb
          · exact absurd hjoined hunified.left_ne
        rw [hvalue, valueAt, if_pos hjoined, ← hjoined, hnone, ← hb, hc]
        rfl
    · rw [hown, hc]
  · intro a b c hid hc
    rw [hm.placeIn_eq h hid]
    exact hleft a c hc

end Pairing

/-- **A join keeps values**, where the two operands leave room for them: every left variable has
its value in the composite, and so has every right one that is not identified with a left
variable, or with one that has the same value, or that is joined with one that has none.  A right
variable that is identified with a left one has the value of that one, if it has one. -/
theorem Query.join_keepsValues {l r : Query} (hl : l.Built) (hr : r.Built) {n m : String}
    {leftId rightId : VarId} (hn : l.resolve n = .ok leftId) (hm : r.resolve m = .ok rightId)
    (requested : JoinMode) :
    ∃ (q : Query) (place : VarId → VarId),
      Query.join ⟨l, n⟩ ⟨r, m⟩ requested = .ok (q, Query.effectiveMode l r requested) ∧
        (Pairing.mk l r leftId rightId).CaptureFree q place ∧
        (Pairing.mk l r leftId rightId).KeepsValues q place := by
  have hp := Pairing.wellFormed_of_resolve hl.wellFormed hr.wellFormed hn hm
  obtain ⟨t, places, hmerged, hjoin⟩ := hp.join_eq_ok hn hm requested
  exact ⟨_, _, hjoin, hmerged.captureFree hp _, hmerged.keepsValues hp _⟩

/-- Cities of the people whose city is Paris. -/
def parisQuery : Query :=
  ({ uri := "urn:paris" } : Query).afterAll
    [.addVariable { uri := "urn:paris;var=id", name := "id" },
      .addVariable { uri := "urn:city", name := "city" }, .bind 1 (.iri "urn:Paris"),
      .pushClause (.pattern ⟨.var 0, .resource (.iri "urn:livesIn"), .var 1⟩)]

/-- Mayors of London. -/
def londonQuery : Query :=
  ({ uri := "urn:london" } : Query).afterAll
    [.addVariable { uri := "urn:london;var=place", name := "place" },
      .addVariable { uri := "urn:london;var=id", name := "id" }, .bind 0 (.iri "urn:London"),
      .bind 1 (.iri "urn:Ada"),
      .pushClause (.pattern ⟨.var 0, .resource (.iri "urn:mayor"), .var 1⟩)]

/-- The first example is made by lawful calls. -/
theorem parisQuery_built : parisQuery.Built := by
  refine (Query.Built.new _).afterAll ?_
  simp [Query.Call.Lawful, Clause.made_pattern_iff, Term.isLiteral, Term.IsNormal,
    Constant.IsNormal, Constant.normal, Constant.iri]

/-- So is the second. -/
theorem londonQuery_built : londonQuery.Built := by
  refine (Query.Built.new _).afterAll ?_
  simp [Query.Call.Lawful, Clause.made_pattern_iff, Term.isLiteral, Term.IsNormal,
    Constant.IsNormal, Constant.normal, Constant.iri]

/-- Joined on who it is, the two examples keep all their values. -/
theorem Query.join_keepsValues_paris_london :
    parisQuery.Built ∧ londonQuery.Built ∧
      parisQuery.resolve "id" = .ok 0 ∧ londonQuery.resolve "?id" = .ok 1 ∧
      ∃ (q : Query) (place : VarId → VarId),
        Query.join ⟨parisQuery, "id"⟩ ⟨londonQuery, "?id"⟩ .service = .ok (q, .inline) ∧
          (Pairing.mk parisQuery londonQuery 0 1).CaptureFree q place ∧
          (Pairing.mk parisQuery londonQuery 0 1).KeepsValues q place :=
  ⟨parisQuery_built, londonQuery_built, rfl, rfl,
    Query.join_keepsValues parisQuery_built londonQuery_built rfl rfl .service⟩

/-- Joined on the city, the two examples have two values for it, and one is lost. -/
theorem Query.join_conflict :
    ∃ q, parisQuery.Built ∧ londonQuery.Built ∧
      Query.join ⟨parisQuery, "city"⟩ ⟨londonQuery, "place"⟩ .inline = .ok (q, .inline) ∧
      parisQuery.boundAt 1 = some (.iri "urn:Paris") ∧
      londonQuery.boundAt 0 = some (.iri "urn:London") ∧
      ∀ v ∈ q.table.values, v.bound ≠ some (.iri "urn:London") :=
  ⟨_, parisQuery_built, londonQuery_built, rfl, by decide +kernel, by decide +kernel,
    by decide +kernel⟩

end SparqlCompose
