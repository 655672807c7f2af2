import SparqlCompose.Proofs.Sparql.Answers
import SparqlCompose.Proofs.Sparql.Regain

/-!
# Nothing in a text is dropped

A text that is read as a query is held by it as a whole.  Its algebra is a slice of a selection
of columns from a pattern with values, order keys and a body that lists clauses (`Shape`), and the
query has these columns, these clauses, these order keys and this slice, and its variables have
these values and no others.  Every text that asks for anything else is refused
(`Query.ofText_faithful`).

The reader takes the algebra apart from the outside: the lemmas here say that what it has taken off
can be put back (`exists_of_bindings`, `exists_shape_of_readProjection`).  That no value is
overwritten by a later one rests on the text: its pattern is fresh.
-/

namespace SparqlCompose

open Sparql

namespace Sparql

variable {q r : Query}

/-! ### Taking a pattern apart -/

/-- The values that were found can be put back around the pattern that was left. -/
theorem exists_of_bindings {p body : Algebra} {bs : List (String × Constant)}
    (h : bindings p = .ok (bs, body)) :
    ∃ values, p = body.extended values ∧ bs = values.map normalValue ∧
      bindings body = .ok ([], body) := by
  fun_induction bindings p generalizing bs body with
  | case1 p v e c hc ih =>
      obtain ⟨⟨bs', body'⟩, hp, hok⟩ := Outcome.bind_eq_ok.mp h
      obtain ⟨rfl, rfl⟩ := Prod.mk.inj (Except.ok.inj hok)
      obtain ⟨values, hvalues, rfl, hbody⟩ := ih hp
      have he : e = .constant c := by
        cases e with
        | constant c' => exact congrArg Expr.constant (Option.some.inj hc)
        | _ => cases hc
      refine ⟨values ++ [(v, c)], ?_, by simp [normalValue], hbody⟩
      rw [Algebra.extended_concat, ← hvalues, he]
  | case2 p v e hnone => cases h
  | case3 p hother =>
      obtain ⟨rfl, rfl⟩ := Prod.mk.inj (Except.ok.inj h)
      refine ⟨[], rfl, rfl, ?_⟩
      cases p with
      | extend p v e => exact absurd rfl (hother p v e)
      | _ => rfl

/-- The order keys that were found can be put back, if there were any. -/
theorem eq_of_orderKeys {p body : Algebra} {keys : List (Direction × Expr)}
    (h : orderKeys p = (keys, body)) : p = .orderBy body keys ∨ keys = [] ∧ body = p := by
  cases p with
  | orderBy p ks =>
      obtain ⟨rfl, rfl⟩ := Prod.mk.inj h
      exact Or.inl rfl
  | _ =>
      obtain ⟨rfl, rfl⟩ := Prod.mk.inj h
      exact Or.inr ⟨rfl, rfl⟩

/-- A name that becomes a result column is legal. -/
theorem isVarName_of_readColumns {names : List String} (h : q.WellFormed)
    (hok : names.foldlM readColumn q = .ok r) : ∀ name ∈ names, isVarName name = true := by
  induction names generalizing q with
  | nil => nofun
  | cons name names ih =>
      rw [List.foldlM_cons] at hok
      obtain ⟨u, hu, hrest⟩ := Outcome.bind_eq_ok.mp hok
      obtain ⟨⟨id, v⟩, hintern, -⟩ := Outcome.bind_eq_ok.mp hu
      exact List.forall_mem_cons.mpr
        ⟨isVarName_of_intern h hintern, ih (readColumn_wellFormed h hu) hrest⟩

/-- A name that gets a value is legal. -/
theorem isVarName_of_readBindings {bs : List (String × Constant)} (hbs : ∀ b ∈ bs, b.2.IsNormal)
    (h : q.WellFormed) (hok : bs.foldlM readBinding q = .ok r) :
    ∀ b ∈ bs, isVarName b.1 = true := by
  induction bs generalizing q with
  | nil => nofun
  | cons b bs ih =>
      rw [List.forall_mem_cons] at hbs
      rw [List.foldlM_cons] at hok
      obtain ⟨u, hu, hrest⟩ := Outcome.bind_eq_ok.mp hok
      obtain ⟨⟨id, v⟩, hintern, -⟩ := Outcome.bind_eq_ok.mp hu
      exact List.forall_mem_cons.mpr
        ⟨isVarName_of_intern h hintern, ih hbs.2 (readBinding_wellFormed hbs.1 h hu) hrest⟩

/-- Only variables of the query are read as order keys. -/
theorem exists_of_readKeys {keys : List (Direction × Expr)}
    (hok : keys.foldlM readKey q = .ok r) :
    ∃ order : List (Direction × String), keys = order.map Parser.keyValue ∧
      ∀ k ∈ order, k.2 ∈ q.table.keys := by
  induction keys generalizing q with
  | nil => exact ⟨[], rfl, nofun⟩
  | cons k keys ih =>
      rw [List.foldlM_cons] at hok
      obtain ⟨u, hu, hrest⟩ := Outcome.bind_eq_ok.mp hok
      obtain ⟨direction, e⟩ := k
      unfold readKey at hu
      split at hu
      · next name hname =>
          cases hname
          split at hu
          · next id hid =>
              obtain ⟨-, rfl⟩ := Query.pushOrder_eq_ok.mp (Outcome.mapError_eq_ok.mp hu)
              obtain ⟨order, rfl, horder⟩ := ih hrest
              have hmem : name ∈ q.table.keys :=
                List.mem_of_getElem? (OrderedMap.idxOf?_eq_some_iff.mp hid)
              exact ⟨(direction, name) :: order, rfl, List.forall_mem_cons.mpr ⟨hmem, horder⟩⟩
          · cases hu
      · cases hu

/-! ### Fresh values -/

/-- In scope around a body are the names with values and what is in scope in the body. -/
theorem Algebra.mem_inScope_extended {p : Algebra} {values : List (String × Constant)}
    {v : String} : v ∈ (p.extended values).inScope ↔ v ∈ values.map Prod.fst ∨ v ∈ p.inScope := by
  induction values using List.reverseRecOn with
  | nil => simp [extended]
  | append_singleton values b ih =>
      rw [extended_concat, inScope, List.mem_cons, ih, List.map_append, List.mem_append,
        List.map_singleton, List.mem_singleton, ← or_assoc, or_comm (a := v = b.1)]

/-- The values around a fresh pattern go to different variables, none of which the pattern has. -/
theorem Algebra.Fresh.of_extended {p : Algebra} {values : List (String × Constant)}
    (h : (p.extended values).Fresh) :
    p.Fresh ∧ (values.map Prod.fst).Nodup ∧ ∀ v ∈ values.map Prod.fst, v ∉ p.inScope := by
  induction values using List.reverseRecOn with
  | nil => exact ⟨h, List.nodup_nil, nofun⟩
  | append_singleton values b ih =>
      rw [extended_concat] at h
      obtain ⟨hnew, hrest⟩ := h
      obtain ⟨hp, hnodup, hvalues⟩ := ih hrest
      rw [mem_inScope_extended, not_or] at hnew
      rw [List.map_append, List.map_singleton, List.forall_mem_append]
      refine ⟨hp, List.nodup_append.mpr ⟨hnodup, List.nodup_singleton _, ?_⟩, hvalues, ?_⟩
      · rintro v hv w hw rfl
        exact hnew.1 (List.mem_singleton.mp hw ▸ hv)
      · intro v hv
        exact List.mem_singleton.mp hv ▸ hnew.2

/-- In a fresh pattern no name has two values. -/
theorem Shape.nodup_values {s : Shape} (h : s.pattern.Fresh) :
    (s.values.map Prod.fst).Nodup := by
  obtain ⟨hmiddle, houter, hapart⟩ := Algebra.Fresh.of_extended h
  have hscope : s.middle.inScope = (s.body.extended s.inner).inScope ∧
      (s.body.extended s.inner).Fresh := by
    unfold middle at hmiddle ⊢
    cases horder : s.order with
    | none => exact ⟨rfl, by simpa [horder, Selection.ordered] using hmiddle⟩
    | some keys =>
        rw [horder] at hmiddle
        exact ⟨rfl, hmiddle⟩
  obtain ⟨-, hinner, -⟩ := Algebra.Fresh.of_extended hscope.2
  rw [values, List.map_append]
  refine List.nodup_append.mpr ⟨houter, hinner, ?_⟩
  rintro v hv w hw rfl
  refine hapart v hv ?_
  rw [hscope.1, Algebra.mem_inScope_extended]
  exact Or.inl hw

/-! ### What is read is held -/

/-- The parts of a pattern that is read: what was taken off it can be put back. -/
theorem exists_shape {p p₁ p₂ body : Algebra} {outer inner : List (String × Constant)}
    {keys : List (Direction × Expr)} {order : List (Direction × String)}
    (houter : bindings p = .ok (outer, p₁)) (hkeys : orderKeys p₁ = (keys, p₂))
    (horder : keys = order.map Parser.keyValue) (hinner : bindings p₂ = .ok (inner, body)) :
    ∃ s : Shape, p = s.pattern ∧ s.body = body ∧ s.order.getD [] = order ∧
      s.values.map normalValue = outer ++ inner ∧ (s.order = none → s.inner = []) := by
  obtain ⟨outerValues, rfl, rfl, hrest⟩ := exists_of_bindings houter
  obtain ⟨innerValues, rfl, rfl, -⟩ := exists_of_bindings hinner
  rcases eq_of_orderKeys hkeys with hp₁ | ⟨hnil, hp₁⟩
  · refine ⟨⟨outerValues, some order, innerValues, body⟩, ?_, rfl, rfl, ?_, nofun⟩
    · rw [hp₁, horder]
      rfl
    · rw [Shape.values, List.map_append]
  · -- without order keys all values have been found at once
    have hempty : innerValues.map normalValue = [] := by
      rw [hp₁, hrest] at hinner
      exact (Prod.mk.inj (Except.ok.inj hinner)).1.symm
    have hnone : innerValues = [] := List.map_eq_nil_iff.mp hempty
    have horderNil : order = [] := List.map_eq_nil_iff.mp (horder.symm.trans hnil)
    subst hnone
    refine ⟨⟨outerValues, none, [], body⟩, ?_, rfl, horderNil.symm, ?_, fun _ => rfl⟩
    · rw [← hp₁]
      rfl
    · rw [Shape.values, List.append_nil, List.map_nil, List.append_nil]

/-- **A pattern that is read has parts that a query can hold**, and the query presents them. -/
theorem exists_shape_of_readProjection {p : Algebra} {uri : String} {columns : List String}
    (hnodup : columns.Nodup) (hok : readProjection uri p columns = .ok q) :
    ∃ (s : Shape) (ns : List NamedClause), p = s.pattern ∧ s.body.Lists ns ∧
      q.Presents ⟨columns, NamedClause.normalAll ns, s.order.getD []⟩
        (assigned (fun _ => none) (s.values.map normalValue)) := by
  have hread := hok
  unfold readProjection at hread
  obtain ⟨⟨outer, p₁⟩, houter, hread⟩ := Outcome.bind_eq_ok.mp hread
  obtain ⟨⟨inner, body⟩, hinner, hread⟩ := Outcome.bind_eq_ok.mp hread
  obtain ⟨q₁, hcolumns, hread⟩ := Outcome.bind_eq_ok.mp hread
  obtain ⟨q₂, hvalues, hread⟩ := Outcome.bind_eq_ok.mp hread
  obtain ⟨⟨cs, q₃⟩, hclauses, hread⟩ := Outcome.bind_eq_ok.mp hread
  obtain ⟨q₄, hpush, hkeys⟩ := Outcome.bind_eq_ok.mp hread
  obtain ⟨order, hkeysOrder, horder⟩ := exists_of_readKeys hkeys
  obtain ⟨s, rfl, rfl, rfl, hbs, hsinner⟩ := exists_shape houter rfl hkeysOrder hinner
  -- each step has left a well-formed query, so what it has read was legal
  have hnormal : ∀ b ∈ outer ++ inner, b.2.IsNormal :=
    List.forall_mem_append.mpr ⟨bindings_isNormal houter, bindings_isNormal hinner⟩
  have hempty : Query.WellFormed { uri := uri } := .ofNotes uri none none
  have h₁ : q₁.WellFormed := Outcome.foldlM_preserves Query.WellFormed
    (fun _ _ _ _ h hstep => readColumn_wellFormed h hstep) hempty hcolumns
  have h₂ : q₂.WellFormed := Outcome.foldlM_preserves Query.WellFormed
    (fun _ b hb _ h hstep => readBinding_wellFormed (hnormal b hb) h hstep) h₁ hvalues
  obtain ⟨ns, hlists, hlegal⟩ := lists_of_readClauses h₂ hclauses
  have hnames : ∀ b ∈ s.values, isVarName b.1 = true := by
    intro b hb
    refine isVarName_of_readBindings hnormal h₁ hvalues (normalValue b) ?_
    rw [← hbs]
    exact List.mem_map_of_mem hb
  obtain ⟨u, hu, hparts⟩ := exists_readParts uri hlists hsinner (isVarName_of_readColumns hempty
    hcolumns) hnodup hnames hlegal
  have hkeysRead : ((s.order.getD []).map Parser.keyValue).foldlM readKey u = .ok q :=
    hparts.symm.trans hok
  obtain ⟨order, hsame, hmem⟩ := exists_of_readKeys hkeysRead
  have hinjective : Function.Injective Parser.keyValue := by
    rintro ⟨d, name⟩ ⟨d', name'⟩ heq
    obtain ⟨hdirection, hname⟩ := Prod.mk.inj heq
    exact Prod.ext hdirection (Expr.var.inj hname)
  have horderSame : s.order.getD [] = order := List.map_injective_iff.mpr hinjective hsame
  obtain ⟨r, hr, hpresents⟩ := exists_readKeys (o := ⟨columns, NamedClause.normalAll ns, []⟩) [] hu
    (horderSame ▸ hmem)
  obtain rfl := Except.ok.inj (hkeysRead.symm.trans hr)
  exact ⟨s, ns, rfl, hlists, hpresents⟩

/-- The algebra of columns from a pattern with the given parts, and of a slice of its solutions. -/
def Shape.selection (s : Shape) (columns : List String) (bounds : Option (Nat × Option Nat)) :
    Algebra :=
  Selection.sliced (.project s.pattern columns) bounds

/-- The algebra is one that a query can hold. -/
def Algebra.Holdable (p : Algebra) : Prop :=
  ∃ (s : Shape) (columns : List String) (bounds : Option (Nat × Option Nat))
    (ns : List NamedClause), p = s.selection columns bounds ∧ s.body.Lists ns

/-- A selection that is read keeps repeated solutions as they are. -/
theorem eq_kept_of_readAlgebra {uri : String} {p : Algebra} {columns : List String}
    {repetition : Repetition} {bounds : Option (Nat × Option Nat)} {slice : Slice}
    (hok : readAlgebra uri
      (Selection.sliced (Selection.repeated (.project p columns) repetition) bounds) =
        .ok (q, slice)) : repetition = .kept := by
  have hinner : ∀ {r : Repetition} {result : Query × Slice},
      readAlgebra uri (Selection.repeated (.project p columns) r) = .ok result → r = .kept := by
    intro r result h
    cases r with
    | kept => rfl
    | distinct => cases h
    | reduced => cases h
  cases bounds with
  | none => exact hinner hok
  | some b =>
      obtain ⟨result, hresult, -⟩ := Outcome.bind_eq_ok.mp hok
      exact hinner hresult

end Sparql

/-- **Nothing in a text is dropped.**  If a text is read as a query, then its algebra is that of
columns from a pattern whose body lists clauses, and of a slice.  The query has these columns, none
of them twice, one pattern for each triple and one block for each block of the body, in order and
at every depth, the order keys with their directions, and the slice; and the values of its
variables are exactly those of the pattern.  A text for solutions is refused if it names a dataset
or if its algebra has any other form. -/
theorem Query.ofText_faithful (text uri : String) :
    (∀ q slice, Query.ofText text uri = .ok (q, slice) →
      ∃ (s : Shape) (columns : List String) (bounds : Option (Nat × Option Nat))
        (ns : List NamedClause),
        Request.ofText? text = some (.select false (s.selection columns bounds)) ∧
        s.body.Lists ns ∧ columns.Nodup ∧
        q.outline = ⟨columns, NamedClause.normalAll ns, s.order.getD []⟩ ∧
        (∀ name c, q.view.value name = some c ↔ (name, c) ∈ s.values.map normalValue) ∧
        slice = sliceOf bounds) ∧
    ∀ hasDataset p, Request.ofText? text = some (.select hasDataset p) →
      (hasDataset = true ∨ ¬ p.Holdable) → ∃ e, Query.ofText text uri = .error e := by
  have hread : ∀ q slice, Query.ofText text uri = .ok (q, slice) →
      ∃ (s : Shape) (columns : List String) (bounds : Option (Nat × Option Nat))
        (ns : List NamedClause),
        Request.ofText? text = some (.select false (s.selection columns bounds)) ∧
        s.body.Lists ns ∧ columns.Nodup ∧
        q.outline = ⟨columns, NamedClause.normalAll ns, s.order.getD []⟩ ∧
        (∀ name c, q.view.value name = some c ↔ (name, c) ∈ s.values.map normalValue) ∧
        slice = sliceOf bounds := by
    intro q slice hok
    unfold Query.ofText at hok
    split at hok
    · cases hok
    · cases hok
    · cases hok
    · next p hrequest =>
        obtain ⟨inner, columns, repetition, bounds, rfl, hnodup, hfresh⟩ :=
          Request.isSelection_of_ofText? hrequest
        obtain rfl := eq_kept_of_readAlgebra hok
        rw [Selection.repeated, readAlgebra_sliced] at hok
        obtain ⟨r, hr, heq⟩ := Outcome.map_eq_ok.mp hok
        obtain ⟨rfl, rfl⟩ := Prod.mk.inj heq
        obtain ⟨s, ns, rfl, hlists, hpresents⟩ := exists_shape_of_readProjection hnodup hr
        have hnames : ((s.values.map normalValue).map Prod.fst).Nodup := by
          rw [List.map_map]
          exact s.nodup_values hfresh
        refine ⟨s, columns, bounds, ns, hrequest, hlists, hnodup, hpresents.outline, ?_, rfl⟩
        intro name c
        rw [hpresents.value, assigned_eq_some hnames]
  refine ⟨hread, fun hasDataset p hp hother => ?_⟩
  cases hok : Query.ofText text uri with
  | error e => exact ⟨e, rfl⟩
  | ok result =>
      obtain ⟨s, columns, bounds, ns, hrequest, hlists, -⟩ := hread result.1 result.2 hok
      obtain ⟨rfl, rfl⟩ := Request.select.inj (Option.some.inj (hp.symm.trans hrequest))
      rcases hother with habsurd | hnot
      · cases habsurd
      · exact absurd ⟨s, columns, bounds, ns, rfl, hlists⟩ hnot

/-- A text with a value, a block and an order key. -/
def countedText : String :=
  "SELECT ?s (5 AS ?x) WHERE \x7b ?s <urn:count> 5 SERVICE <urn:e> \x7b ?s ?p ?o \x7d \x7d" ++
    " ORDER BY DESC(?o) LIMIT 3"

/-- A text that names a dataset. -/
def datasetText : String := "SELECT ?s FROM <urn:g> WHERE \x7b ?s ?p ?o \x7d"

/-- The first text is read, with its value, its block, its order key and its limit; the second is
refused for its dataset. -/
theorem Query.ofText_faithful_counted :
    (∃ q slice s columns bounds ns, Query.ofText countedText "urn:q" = .ok (q, slice) ∧
      Request.ofText? countedText = some (.select false (Shape.selection s columns bounds)) ∧
      s.body.Lists ns ∧ columns.Nodup ∧
      q.outline = ⟨columns, NamedClause.normalAll ns, s.order.getD []⟩ ∧
      (∀ name c, q.view.value name = some c ↔ (name, c) ∈ s.values.map normalValue) ∧
      slice = sliceOf bounds) ∧
    ∃ e, Query.ofText datasetText "urn:q" = .error e := by
  constructor
  · have hok : (Query.ofText countedText "urn:q").isOk = true := by decide +kernel
    cases hread : Query.ofText countedText "urn:q" with
    | error e =>
        rw [hread] at hok
        cases hok
    | ok result =>
        obtain ⟨s, columns, bounds, ns, hparts⟩ :=
          (ofText_faithful countedText "urn:q").1 result.1 result.2 hread
        exact ⟨result.1, result.2, s, columns, bounds, ns, rfl, hparts⟩
  · have hdataset : (Request.ofText? datasetText).elim false
        (Request.casesOn (motive := fun _ => Bool) · (fun named _ => named) false) = true := by
      decide +kernel
    cases hasked : Request.ofText? datasetText with
    | none =>
        rw [hasked] at hdataset
        cases hdataset
    | some request =>
        rw [hasked] at hdataset
        cases request with
        | other => cases hdataset
        | select named p =>
            exact (ofText_faithful datasetText "urn:q").2 named p hasked (Or.inl hdataset)

end SparqlCompose
