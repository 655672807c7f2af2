import Mathlib
import SparqlCompose.Proofs.Built

/-!
# The table of a composite

A join copies the variables of the left query and then brings in those of the right one; what it
does afterwards leaves the table alone.  This holds of any two queries, well formed or not
(`Query.join_table`).  One turn of either loop adds one variable under its own name or none
(`Query.addLeft_cons`, `Query.addRight_cons`), so both loops keep whatever adding a variable keeps
(`Query.KeptByAdding`).  What is filled in afterwards comes by operations of the library
(`Query.KeptByFilling`), so that a composite keeps what all of these keep
(`Query.join_preserves`).
-/

namespace SparqlCompose

namespace Query

variable {l r q q' : Query} {leftId rightId shared id leftSize : Nat} {v : Variable}
  {vs : List Variable} {ids claimed : List VarId}

/-! ### The two loops -/

/-- A turn of the loop over the left query copies a variable with its URI. -/
theorem addLeft_cons (hok : addLeft l r leftId rightId id (v :: vs) q = .ok (ids, q')) :
    ∃ copy i q₁ rest, copy.uri = v.uri ∧ q.addVariable copy = .ok (i, q₁) ∧
      addLeft l r leftId rightId (id + 1) vs q₁ = .ok (rest, q') := by
  rw [addLeft] at hok
  split at hok
  · obtain ⟨copy, hcopy, hok⟩ := Outcome.bind_eq_ok.mp hok
    obtain ⟨⟨i, q₁⟩, hadd, hok⟩ := Outcome.bind_eq_ok.mp hok
    obtain ⟨⟨rest, q₂⟩, hloop, hpure⟩ := Outcome.bind_eq_ok.mp hok
    obtain ⟨-, rfl⟩ := Prod.mk.inj (Outcome.pure_eq_ok.mp hpure)
    obtain ⟨w, -, rfl⟩ := Outcome.map_eq_ok.mp hcopy
    exact ⟨sharedVariable l r v w, i, q₁, rest, rfl, hadd, hloop⟩
  · obtain ⟨copy, hcopy, hok⟩ := Outcome.bind_eq_ok.mp hok
    obtain ⟨⟨i, q₁⟩, hadd, hok⟩ := Outcome.bind_eq_ok.mp hok
    obtain ⟨⟨rest, q₂⟩, hloop, hpure⟩ := Outcome.bind_eq_ok.mp hok
    obtain ⟨-, rfl⟩ := Prod.mk.inj (Outcome.pure_eq_ok.mp hpure)
    obtain rfl := Outcome.pure_eq_ok.mp hcopy
    exact ⟨v, i, q₁, rest, rfl, hadd, hloop⟩

/-- A turn of the loop over the right query passes a variable that is one of the left query, or
adds it with its URI. -/
theorem addRight_cons
    (hok : addRight leftSize shared rightId id claimed (v :: vs) q = .ok (ids, q')) :
    ((id = rightId ∨ (q.unified? leftSize claimed v).isSome) ∧ ∃ claimed' rest,
      addRight leftSize shared rightId (id + 1) claimed' vs q = .ok (rest, q')) ∨
    (id ≠ rightId ∧ ∃ w i q₁ rest, w.uri = v.uri ∧ q.addVariable w = .ok (i, q₁) ∧
      addRight leftSize shared rightId (id + 1) claimed vs q₁ = .ok (rest, q')) := by
  rw [addRight] at hok
  split at hok
  · next hid =>
      obtain ⟨⟨rest, q₁⟩, hloop, hpure⟩ := Outcome.bind_eq_ok.mp hok
      obtain ⟨-, rfl⟩ := Prod.mk.inj (Outcome.pure_eq_ok.mp hpure)
      exact Or.inl ⟨Or.inl hid, claimed, rest, hloop⟩
  · next hid =>
      split at hok
      · next found hfound =>
          obtain ⟨⟨rest, q₁⟩, hloop, hpure⟩ := Outcome.bind_eq_ok.mp hok
          obtain ⟨-, rfl⟩ := Prod.mk.inj (Outcome.pure_eq_ok.mp hpure)
          exact Or.inl ⟨Or.inr (by rw [hfound]; rfl), _, rest, hloop⟩
      · obtain ⟨⟨i, q₁⟩, hadd, hok⟩ := Outcome.bind_eq_ok.mp hok
        obtain ⟨⟨rest, q₂⟩, hloop, hpure⟩ := Outcome.bind_eq_ok.mp hok
        obtain ⟨-, rfl⟩ := Prod.mk.inj (Outcome.pure_eq_ok.mp hpure)
        exact Or.inr ⟨hid, { v with name := uniqueName v.name q.table.keys }, i, q₁, rest, rfl,
          hadd, hloop⟩

/-- Adding a variable under its own name, if that is new, keeps what `P` says of a query. -/
def KeptByAdding (P : Query → Prop) : Prop :=
  ∀ (q : Query) (v : Variable), P q → v.name ∉ q.table.keys →
    P { q with table := q.table.insert v.name v }

variable {P : Query → Prop}

/-- What adding keeps, `addVariable` keeps. -/
theorem KeptByAdding.addVariable (hP : KeptByAdding P) (hq : P q)
    (hok : q.addVariable v = .ok (id, q')) : P q' := by
  obtain ⟨-, hnew, -, rfl⟩ := addVariable_eq_ok.mp hok
  exact hP q v hq hnew

/-- The loop over the left variables keeps it. -/
theorem KeptByAdding.addLeft (hP : KeptByAdding P) (hq : P q)
    (hok : addLeft l r leftId rightId id vs q = .ok (ids, q')) : P q' := by
  induction vs generalizing id q ids with
  | nil =>
      obtain ⟨-, rfl⟩ := Prod.mk.inj (Except.ok.inj hok)
      exact hq
  | cons v vs ih =>
      obtain ⟨copy, i, q₁, rest, -, hadd, hloop⟩ := addLeft_cons hok
      exact ih (hP.addVariable hq hadd) hloop

/-- The loop over the right variables keeps it. -/
theorem KeptByAdding.addRight (hP : KeptByAdding P) (hq : P q)
    (hok : addRight leftSize shared rightId id claimed vs q = .ok (ids, q')) : P q' := by
  induction vs generalizing id claimed q ids with
  | nil =>
      obtain ⟨-, rfl⟩ := Prod.mk.inj (Except.ok.inj hok)
      exact hq
  | cons v vs ih =>
      rcases addRight_cons hok with
        ⟨-, claimed', rest, hloop⟩ | ⟨-, w, i, q₁, rest, -, hadd, hloop⟩
      · exact ih hq hloop
      · exact ih (hP.addVariable hq hadd) hloop

/-! ### After the table is made -/

/-- Columns, clauses, order keys and endpoints that are added keep what `P` says of a query. -/
structure KeptByFilling (P : Query → Prop) : Prop where
  project : ∀ {q q' : Query} {id : VarId} {isNew : Bool}, P q → q.project id = .ok (isNew, q') →
    P q'
  pushClause : ∀ {q q' : Query} {c : Clause}, P q → q.pushClause c = .ok q' → P q'
  pushOrder : ∀ {q q' : Query} {k : OrderKey}, P q → q.pushOrder k = .ok q' → P q'
  activate : ∀ {q : Query} (uri : String), P q → P (q.activate uri)
  addEndpoint : ∀ {q : Query} (uri : String), P q → P (q.addEndpoint uri)

namespace KeptByFilling

variable {mode : JoinMode}

/-- What filling keeps, bringing in a column of an operand keeps. -/
theorem projectMapped (hP : KeptByFilling P) {wanted : VarId → VarId → Bool} (hq : P q)
    (hok : projectMapped ids wanted q id = .ok q') : P q' := by
  obtain ⟨mapped, -, hrest⟩ := Outcome.bind_eq_ok.mp hok
  split at hrest
  · obtain ⟨⟨isNew, p⟩, hproject, hpure⟩ := Outcome.bind_eq_ok.mp hrest
    obtain rfl := Outcome.pure_eq_ok.mp hpure
    exact hP.project hq hproject
  · obtain rfl := Outcome.pure_eq_ok.mp hrest
    exact hq

/-- So does bringing in an order key. -/
theorem pushMappedOrder (hP : KeptByFilling P) {k : OrderKey} (hq : P q)
    (hok : pushMappedOrder ids q k = .ok q') : P q' := by
  unfold Query.pushMappedOrder at hok
  split at hok
  · exact hP.pushOrder hq hok
  · cases hok

/-- So does bringing in the clauses of the right query. -/
theorem pushRight (hP : KeptByFilling P) {cs : List Clause} (hq : P q)
    (hok : pushRight r mode cs q = .ok q') : P q' := by
  cases mode with
  | inline =>
      exact Outcome.foldlM_preserves P (fun _ _ _ _ hb hpush => hP.pushClause hb hpush) hq hok
  | service =>
      simp only [Query.pushRight] at hok
      split at hok
      · exact hP.pushClause hq hok
      · cases hok

end KeptByFilling

/-- The query has the variables that a join on the named ones gives the composite: those of the
left query are copied, then those of the right one are brought in. -/
inductive HasJoinedTable (l r : Query) (n m : String) (q : Query) : Prop
  | intro {leftId rightId shared : VarId} {ids ids' : List VarId} {q₁ : Query}
      (hleft : l.resolve n = .ok leftId) (hright : r.resolve m = .ok rightId)
      (haddLeft : addLeft l r leftId rightId 0 l.table.values
        { uri := "join(" ++ l.uri ++ "," ++ r.uri ++ ")"
          label := some (l.displayLabel ++ " ⋈ " ++ r.displayLabel) } = .ok (ids, q₁))
      (haddRight : addRight q₁.table.size shared rightId 0 [shared] r.table.values q₁ =
        .ok (ids', q)) : HasJoinedTable l r n m q

/-- What adding keeps, and what an empty query has, holds of a query with the joined table. -/
theorem KeptByAdding.hasJoinedTable {n m : String} (hP : KeptByAdding P)
    (hempty : ∀ (uri : String) (label : Option String), P { uri := uri, label := label })
    (h : HasJoinedTable l r n m q) : P q := by
  obtain ⟨-, -, haddLeft, haddRight⟩ := h
  exact hP.addRight (hP.addLeft (hempty _ _) haddLeft) haddRight

/-- A join adds the variables of both queries, and then fills in columns, clauses, order keys and
endpoints. -/
theorem join_filled {n m : String} {requested mode : JoinMode}
    (hok : join ⟨l, n⟩ ⟨r, m⟩ requested = .ok (q, mode)) :
    ∃ q₂, HasJoinedTable l r n m q₂ ∧ ∀ P, KeptByFilling P → P q₂ → P q := by
  unfold join at hok
  obtain ⟨leftId, hleft, hok⟩ := Outcome.bind_eq_ok.mp hok
  obtain ⟨rightId, hright, hok⟩ := Outcome.bind_eq_ok.mp hok
  obtain ⟨⟨ids, q₁⟩, haddLeft, hok⟩ := Outcome.bind_eq_ok.mp hok
  dsimp only at hok
  split at hok
  · obtain ⟨shared, -, hok⟩ := Outcome.bind_eq_ok.mp hok
    obtain ⟨⟨ids', q₂⟩, haddRight, hok⟩ := Outcome.bind_eq_ok.mp hok
    obtain ⟨q₃, hleftColumns, hok⟩ := Outcome.bind_eq_ok.mp hok
    obtain ⟨q₄, hrightColumns, hok⟩ := Outcome.bind_eq_ok.mp hok
    obtain ⟨q₅, hclauses, hok⟩ := Outcome.bind_eq_ok.mp hok
    obtain ⟨cs, -, hok⟩ := Outcome.bind_eq_ok.mp hok
    obtain ⟨q₆, hpushRight, hok⟩ := Outcome.bind_eq_ok.mp hok
    obtain ⟨q₇, hleftOrder, hok⟩ := Outcome.bind_eq_ok.mp hok
    obtain ⟨q₈, hrightOrder, hok⟩ := Outcome.bind_eq_ok.mp hok
    have hleftId := JoinOperand.variableId_eq_ok.mp hleft
    have hrightId := JoinOperand.variableId_eq_ok.mp hright
    refine ⟨q₂, ⟨hleftId, hrightId, haddLeft, haddRight⟩, ?_⟩
    intro P hP h₂
    have h₃ := Outcome.foldlM_preserves P
      (fun _ _ _ _ hb hstep => hP.projectMapped hb hstep) h₂ hleftColumns
    have h₄ := Outcome.foldlM_preserves P
      (fun _ _ _ _ hb hstep => hP.projectMapped hb hstep) h₃ hrightColumns
    have h₅ : P q₅ := by
      refine Outcome.foldlM_preserves P ?_ h₄ hclauses
      intro b c _ b' hb hstep
      obtain ⟨d, -, hpush⟩ := Outcome.bind_eq_ok.mp hstep
      exact hP.pushClause hb hpush
    have h₆ := hP.pushRight h₅ hpushRight
    have h₇ := Outcome.foldlM_preserves P
      (fun _ _ _ _ hb hstep => hP.pushMappedOrder hb hstep) h₆ hleftOrder
    have h₈ := Outcome.foldlM_preserves P
      (fun _ _ _ _ hb hstep => hP.pushMappedOrder hb hstep) h₇ hrightOrder
    obtain ⟨rfl, -⟩ := Prod.mk.inj (Outcome.pure_eq_ok.mp hok)
    cases l.activeEndpoint with
    | none =>
        cases r.activeEndpoint with
        | none => exact h₈
        | some e => exact hP.addEndpoint e h₈
    | some d =>
        cases r.activeEndpoint with
        | none => exact hP.activate d h₈
        | some e => exact hP.addEndpoint e (hP.activate d h₈)
  · obtain ⟨shared, hthrow, -⟩ := Outcome.bind_eq_ok.mp hok
    cases hthrow

/-- **A composite keeps what its making keeps.**  What holds of an empty query, and stays when
variables are added and columns, clauses, order keys and endpoints are filled in, holds of every
composite, whatever the operands are. -/
theorem join_preserves (hP : KeptByAdding P) (hfill : KeptByFilling P)
    (hempty : ∀ (uri : String) (label : Option String), P { uri := uri, label := label })
    {n m : String} {requested mode : JoinMode}
    (hok : join ⟨l, n⟩ ⟨r, m⟩ requested = .ok (q, mode)) : P q := by
  obtain ⟨q₂, htable, hfilled⟩ := join_filled hok
  exact hfilled P hfill (hP.hasJoinedTable hempty htable)

/-- The query has the table, and its result columns are places of it. -/
structure ColumnsIn (t : OrderedMap Variable) (q : Query) : Prop where
  table : q.table = t
  projections_lt : ∀ id ∈ q.projections, id < t.size

/-- Filling a query leaves its table alone, and checks the columns. -/
theorem columnsIn_keptByFilling (t : OrderedMap Variable) : KeptByFilling (ColumnsIn t) where
  project := by
    intro q q' id isNew h hok
    obtain ⟨hid, -, rfl⟩ := project_eq_ok.mp hok
    refine ⟨h.table, ?_⟩
    intro i hi
    rcases mem_appendNew.mp hi with hi | rfl
    · exact h.projections_lt i hi
    · exact h.table ▸ hid
  pushClause := by
    intro q q' c h hok
    obtain ⟨-, rfl⟩ := pushClause_eq_ok.mp hok
    exact ⟨h.table, h.projections_lt⟩
  pushOrder := by
    intro q q' k h hok
    obtain ⟨-, rfl⟩ := pushOrder_eq_ok.mp hok
    exact ⟨h.table, h.projections_lt⟩
  activate := fun _ h => ⟨h.table, h.projections_lt⟩
  addEndpoint := fun _ h => ⟨h.table, h.projections_lt⟩

/-- **The table of a composite.**  The left variables are copied, then the right ones are brought
in; the columns, clauses and order keys that follow leave the table as it is. -/
theorem join_table {n m : String} {requested mode : JoinMode}
    (hok : join ⟨l, n⟩ ⟨r, m⟩ requested = .ok (q, mode)) :
    ∃ q₂, HasJoinedTable l r n m q₂ ∧ q.ColumnsIn q₂.table := by
  obtain ⟨q₂, htable, hfilled⟩ := join_filled hok
  have hnone : q₂.projections = [] := by
    have hP : KeptByAdding fun q => q.projections = [] := fun _ _ hq _ => hq
    exact hP.hasJoinedTable (fun _ _ => rfl) htable
  exact ⟨q₂, htable, hfilled _ (columnsIn_keptByFilling q₂.table) ⟨rfl, by simp [hnone]⟩⟩

end Query

end SparqlCompose
