import Mathlib
import SparqlCompose.Graph.Basic
import SparqlCompose.Proofs.Clause
import SparqlCompose.Query.Basic

/-!
# Solutions of a query

A dataset assigns a set of triples to every endpoint, and one to no endpoint.  A solution assigns
a constant to every variable of the table so that every pattern holds: a pattern outside of
blocks in the triples of the active endpoint, a pattern inside of blocks in those of the endpoint
of the innermost block.  A bound variable has its value, and a blank node of a pattern stands for
some term, the same one wherever the query has its label.
-/

namespace SparqlCompose

/-- The triples of every endpoint; `none` is for queries without one. -/
abbrev Dataset := Option String → Set Triple

/-- The term in a slot, where variables and blank nodes have values. -/
def Term.value (assigned : VarId → Option Constant) (blanks : String → Constant) :
    Term → Option Constant
  | .var id => assigned id
  | .resource (.iri text) => some (.iri text)
  | .resource (.blank label) => some (blanks label)
  | .literal l => some (.literal l)

/-- The label of the blank node in a slot. -/
def Term.label? : Term → Option String
  | .resource (.blank label) => some label
  | _ => none

/-- The pattern is a triple of the graph, where its slots have values. -/
def Pattern.Holds (triples : Set Triple) (value : Term → Option Constant) (p : Pattern) : Prop :=
  ∃ t ∈ triples, value p.subject = some (.resource t.subject) ∧
    value p.predicate = some (.iri t.predicate) ∧ value p.object = some t.object

namespace Clause

mutual

/-- The clause holds at an endpoint. -/
def Holds (D : Dataset) (value : Term → Option Constant) : Option String → Clause → Prop
  | e, .pattern p => p.Holds (D e) value
  | _, .service e cs _ => HoldsAll D value (some e) cs

/-- Each of the clauses holds at an endpoint. -/
def HoldsAll (D : Dataset) (value : Term → Option Constant) : Option String → List Clause → Prop
  | _, [] => True
  | e, c :: cs => Holds D value e c ∧ HoldsAll D value e cs

end

end Clause

/-- The value of a place under an assignment to the places below `n`. -/
def valueAt {n : Nat} (μ : Fin n → Constant) (id : VarId) : Option Constant :=
  if h : id < n then some (μ ⟨id, h⟩) else none

/-- The assignment to the variables of the table solves the query. -/
def Query.Solution (D : Dataset) (q : Query) (μ : Fin q.table.size → Constant) : Prop :=
  (∀ id v c, q.table.at? id = some v → v.bound = some c → valueAt μ id = some c) ∧
    ∃ blanks, Clause.HoldsAll D (Term.value (valueAt μ) blanks) q.activeEndpoint q.clauses

/-! ### Laws -/

variable {D : Dataset} {value value' : Term → Option Constant}

/-- Only the values of the slots matter. -/
theorem Pattern.holds_congr {triples : Set Triple} {p : Pattern}
    (h : ∀ t ∈ [p.subject, p.predicate, p.object], value t = value' t) :
    p.Holds triples value ↔ p.Holds triples value' := by
  unfold Holds
  rw [h p.subject (by simp), h p.predicate (by simp), h p.object (by simp)]

/-- A mapped pattern holds exactly when the pattern does under the mapped values. -/
theorem Pattern.holds_mapVar {triples : Set Triple} {f : VarId → VarId} {p : Pattern} :
    (p.mapVar f).Holds triples value ↔ p.Holds triples fun t => value (t.mapVar f) :=
  Iff.rfl

namespace Clause

/-- Clauses hold together exactly when either part does. -/
theorem holdsAll_append {e : Option String} {cs ds : List Clause} :
    HoldsAll D value e (cs ++ ds) ↔ HoldsAll D value e cs ∧ HoldsAll D value e ds := by
  induction cs with
  | nil => simp [HoldsAll]
  | cons c cs ih => rw [List.cons_append, HoldsAll, HoldsAll, ih, and_assoc]

mutual

/-- Whether a clause holds depends on the values of the slots of its patterns only. -/
theorem holds_congr : ∀ (e : Option String) (c : Clause),
    (∀ p ∈ c.patterns, ∀ t ∈ [p.subject, p.predicate, p.object], value t = value' t) →
      (Holds D value e c ↔ Holds D value' e c)
  | _, .pattern p, h => Pattern.holds_congr (h p (List.mem_singleton_self p))
  | _, .service e cs _, h => holdsAll_congr (some e) cs h

/-- Whether clauses hold depends on the values of the slots of their patterns only. -/
theorem holdsAll_congr : ∀ (e : Option String) (cs : List Clause),
    (∀ p ∈ patternsAll cs, ∀ t ∈ [p.subject, p.predicate, p.object], value t = value' t) →
      (HoldsAll D value e cs ↔ HoldsAll D value' e cs)
  | _, [], _ => Iff.rfl
  | e, c :: cs, h => by
      have hc := holds_congr e c fun p hp => h p (List.mem_append_left _ hp)
      have hcs := holdsAll_congr e cs fun p hp => h p (List.mem_append_right _ hp)
      rw [HoldsAll, HoldsAll, hc, hcs]

end

mutual

/-- A mapped clause holds exactly when the clause does where the mapping is applied to the values.
-/
theorem holds_mapVar (f : VarId → VarId) : ∀ (e : Option String) (c : Clause),
    Holds D value e (c.mapVar f) ↔ Holds D (fun t => value (t.mapVar f)) e c
  | _, .pattern _ => Pattern.holds_mapVar
  | _, .service e cs _ => holdsAll_mapVarAll f (some e) cs

/-- Renamed clauses hold exactly when the clauses do where the renaming is applied to the
values. -/
theorem holdsAll_mapVarAll (f : VarId → VarId) : ∀ (e : Option String) (cs : List Clause),
    HoldsAll D value e (mapVarAll f cs) ↔ HoldsAll D (fun t => value (t.mapVar f)) e cs
  | _, [] => Iff.rfl
  | e, c :: cs => by
      rw [mapVarAll, HoldsAll, HoldsAll, holds_mapVar f e c, holdsAll_mapVarAll f e cs]

end

end Clause

/-- The term in a slot depends on the value of its variable and on what its label stands for. -/
theorem Term.value_congr {assigned assigned' : VarId → Option Constant}
    {blanks blanks' : String → Constant} {t : Term}
    (hvar : ∀ id, t.var? = some id → assigned id = assigned' id)
    (hlabel : ∀ label, t.label? = some label → blanks label = blanks' label) :
    t.value assigned blanks = t.value assigned' blanks' := by
  cases t with
  | var id => exact hvar id rfl
  | resource r =>
      cases r with
      | iri text => rfl
      | blank label => exact congrArg some (hlabel label rfl)
  | literal l => rfl

/-- The value of a mapped slot is that of the slot where the variables have the values of the places
they are mapped to. -/
theorem Term.value_mapVar (assigned : VarId → Option Constant) (blanks : String → Constant)
    (f : VarId → VarId) (t : Term) :
    (t.mapVar f).value assigned blanks = t.value (fun id => assigned (f id)) blanks := by
  cases t with
  | var id => rfl
  | resource r => cases r <;> rfl
  | literal l => rfl

end SparqlCompose
