import Mathlib
import SparqlCompose.Proofs.Mention
import SparqlCompose.Proofs.Validation
import SparqlCompose.Query.Template
import SparqlCompose.Spin.Describe

/-!
# No place dangles in a valid query

An operation that looks up a variable at a place that the table does not have answers
`QueryError.dangling`, and nothing handles that answer.  A computation is `Safe` when it does not
end there: it answers a value, or an error of another kind.  Chains, loops and mapped computations
are safe when their links are (`Safe.bind`, `Safe.mapM`, `Safe.foldlM`), so each operation is safe
when the places that it looks up are in the table.

What a valid query looks up is in its table.  Its text and the parts of it are written, its columns
are named, and templates, reordering, descriptions and joins run to an answer of their own
(`Query.operations_safe`).
-/

namespace SparqlCompose

/-- The computation does not run into a place that a variable table does not have. -/
def Safe {α : Type} (x : Except QueryError α) : Prop := ∀ id, x ≠ .error (.dangling id)

/-! ### Chains and loops -/

namespace Safe

variable {α β : Type} {x : Except QueryError α}

/-- An answer is safe. -/
theorem ok (a : α) : Safe (.ok a) := by
  intro id h
  cases h

/-- What is known to answer is safe. -/
theorem of_eq_ok {a : α} (h : x = .ok a) : Safe x := by
  rw [h]
  exact ok a

/-- An error of another kind is a safe answer. -/
theorem error {e : QueryError} (he : ∀ id, e ≠ .dangling id) : Safe (.error e : Except _ α) := by
  intro id h
  exact he id (Except.error.inj h)

/-- A chain is safe when its links are. -/
theorem bind {f : α → Except QueryError β} (hx : Safe x) (hf : ∀ a, x = .ok a → Safe (f a)) :
    Safe (x >>= f) := by
  cases x with
  | ok a => exact hf a rfl
  | error e =>
      intro id h
      exact hx id (congrArg Except.error (Except.error.inj h))

/-- Changing the answer of a computation keeps it safe. -/
theorem map {f : α → β} (hx : Safe x) : Safe (x.map f) := by
  intro id h
  exact hx id (Outcome.map_eq_error.mp h)

/-- A loop of checks is safe when each check is. -/
theorem forM {f : α → Except QueryError Unit} {l : List α} (hf : ∀ a ∈ l, Safe (f a)) :
    Safe (l.forM f) := by
  induction l with
  | nil => exact ok ()
  | cons a l ih =>
      refine bind (hf a List.mem_cons_self) fun _ _ => ?_
      exact ih fun b hb => hf b (List.mem_cons_of_mem _ hb)

/-- A loop that collects results is safe when each step is. -/
theorem mapM {f : α → Except QueryError β} {l : List α} (hf : ∀ a ∈ l, Safe (f a)) :
    Safe (l.mapM f) := by
  induction l with
  | nil => exact ok []
  | cons a l ih =>
      rw [List.mapM_cons]
      refine bind (hf a List.mem_cons_self) fun b _ => ?_
      exact bind (ih fun b hb => hf b (List.mem_cons_of_mem _ hb)) fun bs _ => ok _

/-- A loop that builds on its result is safe when each step is. -/
theorem foldlM {f : β → α → Except QueryError β} {l : List α} {b : β}
    (hf : ∀ b, ∀ a ∈ l, Safe (f b a)) : Safe (l.foldlM f b) := by
  induction l generalizing b with
  | nil => exact ok b
  | cons a l ih =>
      rw [List.foldlM_cons]
      refine bind (hf b a List.mem_cons_self) fun b' _ => ?_
      exact ih fun b a ha => hf b a (List.mem_cons_of_mem _ ha)

end Safe

/-! ### Operations that check their places -/

namespace Query

variable {q : Query} {id : VarId}

/-- Checking a place is safe: one outside the table is refused as unknown. -/
theorem safe_checkId (q : Query) (id : VarId) : Safe (q.checkId id) := by
  unfold checkId
  split
  · exact .ok ()
  · exact .error (by simp)

/-- A place of the table can be looked up. -/
theorem safe_var (hid : id < q.table.size) : Safe (q.var id) := by
  obtain ⟨v, hv⟩ := OrderedMap.exists_at? hid
  exact .of_eq_ok (var_eq_ok.mpr hv)

/-- Looking up a name is safe. -/
theorem safe_resolve (q : Query) (name : String) : Safe (q.resolve name) := by
  unfold resolve
  split
  · exact .ok _
  · exact .error (by simp)

/-- A name resolves to a place of the table. -/
theorem lt_of_resolve {name : String} (h : q.resolve name = .ok id) : id < q.table.size := by
  rw [← OrderedMap.length_keys]
  exact (List.getElem?_eq_some_iff.mp (resolve_eq_ok.mp h)).1

/-- Adding a variable is safe. -/
theorem safe_addVariable (q : Query) (v : Variable) : Safe (q.addVariable v) := by
  unfold addVariable
  split
  · exact .error (by simp)
  · split
    · exact .error (by simp)
    · exact .ok _

/-- Adding a result column is safe, since its place is checked first. -/
theorem safe_project (q : Query) (id : VarId) : Safe (q.project id) := by
  refine (safe_checkId q id).bind fun _ _ => ?_
  split <;> exact .ok _

/-- Checking a clause is safe. -/
theorem safe_checkClause (q : Query) (c : Clause) : Safe (q.checkClause c) := by
  refine (Safe.forM fun id _ => safe_checkId q id).bind fun _ _ => ?_
  cases c with
  | pattern p => exact .ok ()
  | service e cs vs => exact .forM fun id _ => safe_checkId q id

/-- Adding a clause is safe. -/
theorem safe_pushClause (q : Query) (c : Clause) : Safe (q.pushClause c) :=
  (safe_checkClause q c).bind fun _ _ => .ok _

/-- Adding an order key is safe. -/
theorem safe_pushOrder (q : Query) (k : OrderKey) : Safe (q.pushOrder k) :=
  (safe_checkId q k.variableId).bind fun _ _ => .ok _

/-- Columns are put into an order if they can be named. -/
theorem safe_reorder (h : ∃ names, q.projectedNames = .ok names) (order : List String) :
    Safe (q.reorder order) := by
  obtain ⟨names, hnames⟩ := h
  refine (Safe.of_eq_ok hnames).bind fun present _ => ?_
  dsimp only
  split
  · exact .error (by simp)
  · exact (Safe.mapM fun name _ => safe_resolve q name).bind fun _ _ => .ok _

/-! ### Joins -/

/-- Exchanging a place is safe: one that has no counterpart is refused as unknown. -/
theorem safe_mappedId (ids : List VarId) (id : VarId) : Safe (mappedId ids id) := by
  unfold mappedId
  split
  · exact .ok _
  · exact .error (by simp)

/-- Bringing in a result column of an operand is safe. -/
theorem safe_projectMapped (ids : List VarId) (wanted : VarId → VarId → Bool) (q : Query)
    (id : VarId) : Safe (projectMapped ids wanted q id) := by
  refine (safe_mappedId ids id).bind fun mapped _ => ?_
  split
  · exact (safe_project q mapped).bind fun _ _ => .ok _
  · exact .ok q

/-- Exchanging the places of a clause is safe. -/
theorem safe_mapClause (ids : List VarId) (c : Clause) : Safe (mapClause ids c) := by
  refine (Safe.forM fun p _ => ?_).bind fun _ _ => .ok _
  exact .forM fun id _ => (safe_mappedId ids id).bind fun _ _ => .ok ()

/-- Bringing in an order key of an operand is safe. -/
theorem safe_pushMappedOrder (ids : List VarId) (q : Query) (k : OrderKey) :
    Safe (pushMappedOrder ids q k) := by
  unfold pushMappedOrder
  split
  · exact safe_pushOrder q _
  · exact .error (by simp)

/-- Bringing in the clauses of the right operand is safe, in either mode. -/
theorem safe_pushRight (right : Query) (mode : JoinMode) (cs : List Clause) (q : Query) :
    Safe (pushRight right mode cs q) := by
  cases mode with
  | inline => exact .foldlM fun b c _ => safe_pushClause b c
  | service =>
      rw [pushRight]
      split
      · exact safe_pushClause q _
      · exact .error (by simp)

/-- The loop over the left variables looks up the right join variable and nothing else. -/
theorem safe_addLeft {l r : Query} {leftId rightId : VarId} (hright : rightId < r.table.size)
    (vs : List Variable) (id : VarId) (q : Query) :
    Safe (addLeft l r leftId rightId id vs q) := by
  induction vs generalizing id q with
  | nil => exact .ok _
  | cons v vs ih =>
      rw [addLeft]
      split
      · refine (safe_var hright).map.bind fun copy _ => ?_
        refine (safe_addVariable q copy).bind fun added _ => ?_
        exact (ih (id + 1) added.2).bind fun _ _ => .ok _
      · refine (Safe.ok v).bind fun copy _ => ?_
        refine (safe_addVariable q copy).bind fun added _ => ?_
        exact (ih (id + 1) added.2).bind fun _ _ => .ok _

/-- The loop over the right variables is safe: it looks up no place. -/
theorem safe_addRight {leftSize shared rightId : VarId} (vs : List Variable) (id : VarId)
    (claimed : List VarId) (q : Query) :
    Safe (addRight leftSize shared rightId id claimed vs q) := by
  induction vs generalizing id claimed q with
  | nil => exact .ok _
  | cons v vs ih =>
      rw [addRight]
      split
      · exact (ih (id + 1) claimed q).bind fun _ _ => .ok _
      · split
        · next found _ => exact (ih (id + 1) (found :: claimed) q).bind fun _ _ => .ok _
        · refine (safe_addVariable q _).bind fun added _ => ?_
          exact (ih (id + 1) claimed added.2).bind fun _ _ => .ok _

/-- Looking up the name to join on is safe. -/
theorem safe_variableId (o : JoinOperand) : Safe o.variableId := by
  unfold JoinOperand.variableId
  split
  · exact .ok _
  · exact .error (by simp)

/-- **No join runs into a dangling place**, whatever the operands are: the one variable that is
looked up is that of a name. -/
theorem safe_join (left right : JoinOperand) (requested : JoinMode) :
    Safe (join left right requested) := by
  unfold join
  refine (safe_variableId left).bind fun leftId _ => ?_
  refine (safe_variableId right).bind fun rightId hright => ?_
  have hlt := lt_of_resolve (JoinOperand.variableId_eq_ok.mp hright)
  refine (safe_addLeft hlt _ _ _).bind fun copied _ => ?_
  dsimp only
  split
  · refine (Safe.ok _).bind fun shared _ => ?_
    refine (safe_addRight _ _ _ _).bind fun brought _ => ?_
    refine (Safe.foldlM fun q id _ => safe_projectMapped _ _ q id).bind fun q₁ _ => ?_
    refine (Safe.foldlM fun q id _ => safe_projectMapped _ _ q id).bind fun q₂ _ => ?_
    refine (Safe.foldlM fun q c _ => ?_).bind fun q₃ _ => ?_
    · exact (safe_mapClause _ c).bind fun d _ => safe_pushClause q d
    refine (Safe.mapM fun c _ => safe_mapClause _ c).bind fun cs _ => ?_
    refine (safe_pushRight _ _ cs q₃).bind fun q₄ _ => ?_
    refine (Safe.foldlM fun q k _ => safe_pushMappedOrder _ q k).bind fun q₅ _ => ?_
    exact (Safe.foldlM fun q k _ => safe_pushMappedOrder _ q k).bind fun q₆ _ => .ok _
  · exact .error (by simp)

/-! ### Texts -/

variable {t : PrefixTable}

/-- The `PREFIX` lines for a valid query and further constants are written. -/
theorem prefixText_eq_ok (h : q.validate = .ok ()) (t : PrefixTable) (extra : List Constant) :
    ∃ lines, q.prefixText t extra = .ok lines := by
  rw [prefixText, iris_eq_ok h, Outcome.ok_bind]
  exact ⟨_, rfl⟩

end Query

namespace Template

variable {q : Query} {t : PrefixTable} {values : Values}

/-- A variable that a value names is one of the table. -/
theorem safe_resolve_var {α : Type} (q : Query) (name : String) {f : Variable → α} :
    Safe (do return f (← q.var (← q.resolve name))) :=
  (Query.safe_resolve q name).bind fun _ hid =>
    (Query.safe_var (Query.lt_of_resolve hid)).bind fun _ _ => .ok _

/-- The constant for a value is safe to find. -/
theorem safe_valueConstant (q : Query) (v : TemplateValue) : Safe (valueConstant q v) := by
  cases v with
  | var name => exact safe_resolve_var q name
  | resource r => exact .ok _
  | literal l => exact .ok _
  | raw s => exact .ok _

/-- The text for a value is safe to write. -/
theorem safe_valueText (q : Query) (t : PrefixTable) (v : TemplateValue) :
    Safe (valueText q t v) := by
  cases v with
  | var name => exact safe_resolve_var q name
  | resource r => exact .ok _
  | literal l => exact .ok _
  | raw s => exact .ok _

/-- The text for a placeholder is safe to write if the query is valid. -/
theorem safe_placeholderText (h : q.validate = .ok ()) (extra : List Constant) (name : String) :
    Safe (placeholderText q t values extra name) := by
  unfold placeholderText
  split
  · exact safe_valueText q t _
  · split
    · obtain ⟨lines, hlines⟩ := Query.prefixText_eq_ok h t extra
      exact .of_eq_ok hlines
    · split
      · exact .of_eq_ok (Query.bodyText_eq_ok h t)
      · exact .error (by simp)

/-- A template is written segment by segment. -/
theorem safe_renderSegments (h : q.validate = .ok ()) (extra : List Constant)
    (names : FreshNames) (segments : List Segment) :
    Safe (renderSegments q t values extra names segments) := by
  induction segments generalizing names with
  | nil => exact .ok _
  | cons segment rest ih =>
      cases segment with
      | text s => exact (ih names).map
      | fresh base => exact (ih _).map
      | placeholder name =>
          refine (safe_placeholderText h extra name).bind fun s _ => ?_
          exact (ih names).bind fun _ _ => .ok _

/-- No template for a valid query runs into a dangling place. -/
theorem safe_render (h : q.validate = .ok ()) (m : Template) (t : PrefixTable) (values : Values) :
    Safe (m.render q t values) := by
  have hextra : Safe (m.extraConstants q values) :=
    (Safe.mapM fun v _ => safe_valueConstant q v).bind fun _ _ => .ok _
  exact hextra.bind fun extra _ => safe_renderSegments h extra [] m.segments

end Template

/-! ### Descriptions -/

namespace Spin

/-- What is wrong with a term is no fault of a query. -/
theorem ofTerm_ne_query {α : Type} (x : Except TermError α) (e : QueryError) :
    SpinError.ofTerm x ≠ .error (.query e) := by
  intro h
  obtain ⟨fault, -, habsurd⟩ := Outcome.mapError_eq_error.mp h
  cases habsurd

/-- What a clause can fail at in a description is no fault of a query. -/
theorem clauseTriples_ne_query (n : Nat) (c : Clause) (e : QueryError) :
    clauseTriples n c ≠ .error (.query e) := by
  cases c with
  | pattern p => exact ofTerm_ne_query _ e
  | service endpoint cs vs => simp [clauseTriples]

/-- Nor is what a list of clauses can fail at. -/
theorem clausesTriples_ne_query (n : Nat) (cs : List Clause) (e : QueryError) :
    clausesTriples n cs ≠ .error (.query e) := by
  induction cs generalizing n with
  | nil => simp [clausesTriples]
  | cons c cs ih =>
      intro h
      rcases Outcome.bind_eq_error.mp h with hfirst | ⟨first, -, hrest⟩
      · exact clauseTriples_ne_query n c e hfirst
      · rcases Outcome.bind_eq_error.mp hrest with hothers | ⟨others, -, habsurd⟩
        · exact ih (n + 1) hothers
        · cases habsurd

end Spin

/-- A description looks up no place: it takes the variables in the order of the table. -/
theorem Query.describe_ne_query (q : Query) (uri : String) (e : QueryError) :
    q.describe uri ≠ .error (.query e) := by
  intro h
  rcases Outcome.bind_eq_error.mp h with hroot | ⟨root, -, hrest⟩
  · exact Spin.ofTerm_ne_query _ e hroot
  · rcases Outcome.bind_eq_error.mp hrest with hclauses | ⟨patterns, -, habsurd⟩
    · exact Spin.clausesTriples_ne_query _ _ e hclauses
    · cases habsurd

/-! ### All operations -/

namespace Query

/-- What the operations on a query answer. -/
structure OperationsSafe (q : Query) : Prop where
  text : ∀ t slice, ∃ s, q.text t slice = .ok s
  bodyText : ∀ t, ∃ s, q.bodyText t = .ok s
  prefixText : ∀ t extra, ∃ s, q.prefixText t extra = .ok s
  render : ∀ (m : Template) t values, Safe (m.render q t values)
  projectedNames : ∃ names, q.projectedNames = .ok names
  reorder : ∀ order, Safe (q.reorder order)
  describe : ∀ uri id, q.describe uri ≠ .error (.query (.dangling id))
  /-- Joins with any other query, on either side, run to an answer. -/
  join : ∀ (r : Query) (n m : String) (mode : JoinMode),
    Safe (Query.join ⟨q, n⟩ ⟨r, m⟩ mode) ∧ Safe (Query.join ⟨r, m⟩ ⟨q, n⟩ mode)
  /-- Their composites pass the check again. -/
  composite : ∀ (r : Query) (n m : String) (mode mode' : JoinMode) (c : Query),
    (Query.join ⟨q, n⟩ ⟨r, m⟩ mode = .ok (c, mode') ∨
      Query.join ⟨r, m⟩ ⟨q, n⟩ mode = .ok (c, mode')) → c.validate = .ok ()
  /-- Whatever calls follow, the query goes on passing the check. -/
  stays : ∀ calls, (q.afterAll calls).validate = .ok ()

/-- **No operation on a valid query runs into a dangling place.**  The text, the body, the `PREFIX`
lines and the names of the columns are answered; a template, a new order of the columns, a
description and a join with any other query are answered or refused for another reason; and a
composite is valid again, as is the query after any calls. -/
theorem operations_safe (q : Query) (h : q.validate = .ok ()) : q.OperationsSafe where
  text := by
    intro t slice
    obtain ⟨lines, hlines⟩ := prefixText_eq_ok h t []
    exact ⟨_, text_eq_textOf h hlines slice⟩
  bodyText := fun t => ⟨_, bodyText_eq_ok h t⟩
  prefixText := prefixText_eq_ok h
  render := Template.safe_render h
  projectedNames := ⟨_, (indexed_of_validate h).projectedNames_eq⟩
  reorder := safe_reorder ⟨_, (indexed_of_validate h).projectedNames_eq⟩
  describe := fun uri id => q.describe_ne_query uri (.dangling id)
  join := fun r n m mode => ⟨safe_join _ _ mode, safe_join _ _ mode⟩
  composite := by
    intro r n m mode mode' c hok
    rcases hok with hok | hok
    · exact validate_eq_ok.mpr (valid_join hok)
    · exact validate_eq_ok.mpr (valid_join hok)
  stays := fun calls => validate_eq_ok.mpr ((validate_eq_ok.mp h).afterAll calls)

/-- A query as a snapshot may hold it: a column that is listed twice, an order key and a block in
which another block lists a place outside the table. -/
def restoredQuery : Query where
  uri := "urn:restored"
  table := .ofList [("id", { uri := "urn:restored;var=id", name := "id" }),
    ("city", { uri := "urn:city", name := "city", bound := some (.resource (.iri "urn:paris")) })]
  projections := [1, 0, 1]
  clauses := [.service "urn:a"
    [.pattern ⟨.var 0, .resource (.iri "urn:livesIn"), .var 1⟩, .service "urn:b" [] [9]] [0, 1]]
  order := [⟨.descending, 1⟩]
  activeEndpoint := some "urn:a"

/-- The restored query is safe, and so is its composite with itself. -/
theorem operations_safe_restored :
    restoredQuery.validate = .ok () ∧ 9 ∈ restoredQuery.places ∧ ¬ 9 < restoredQuery.table.size ∧
      restoredQuery.OperationsSafe ∧
      ∃ c, Query.join ⟨restoredQuery, "city"⟩ ⟨restoredQuery, "id"⟩ .service =
        .ok (c, .service) ∧ c.table.keys = ["id", "city", "city1"] ∧ c.OperationsSafe := by
  have hvalid : restoredQuery.validate = .ok () := by decide +kernel
  have hsafe := operations_safe restoredQuery hvalid
  obtain ⟨c, hjoin, hkeys⟩ : ∃ c,
      Query.join ⟨restoredQuery, "city"⟩ ⟨restoredQuery, "id"⟩ .service = .ok (c, .service) ∧
        c.table.keys = ["id", "city", "city1"] := ⟨_, rfl, by decide +kernel⟩
  have hcomposite := hsafe.composite restoredQuery "city" "id" .service .service c (Or.inl hjoin)
  exact ⟨hvalid, by decide +kernel, by decide +kernel, hsafe, c, hjoin, hkeys,
    operations_safe c hcomposite⟩

end Query

end SparqlCompose
