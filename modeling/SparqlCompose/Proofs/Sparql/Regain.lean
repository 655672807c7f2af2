import SparqlCompose.Proofs.Sparql.Clauses

/-!
# A query is regained from its algebra

The reader of an algebra starts with an empty query and reads the columns, the values of variables,
the clauses and the order keys.  After each part the query presents one part more, by name
(`Query.Presents`); in the end it presents the outline that the algebra was made from, with the
values of variables in place, and the values of the columns (`Sparql.exists_readAlgebra`).  Only a
variable can be an order key, so an outline that sorts by a variable with a value is refused
(`Sparql.readAlgebra_eq_error`).
-/

namespace SparqlCompose

open Sparql

/-! ### Reading the parts of an outline -/

namespace Query

variable {q r : Query} {o : Outline} {name : String}

/-- The outline has a variable among its columns or in its clauses. -/
def Outline.Shows (o : Outline) (name : String) : Prop :=
  name ∈ o.columns ∨
    ∃ p ∈ NamedClause.triplesAll o.tree, .var name ∈ [p.subject, p.predicate, p.object]

/-- What an outline shows has a place in the table. -/
theorem WellFormed.exists_place (h : q.WellFormed) (hname : q.outline.Shows name) :
    ∃ id : VarId, q.table.keys[id]? = some name := by
  have hplace : ∀ id : VarId, id < q.table.size → q.nameAt id = name →
      ∃ id : VarId, q.table.keys[id]? = some name := by
    intro id hid hat
    rw [← OrderedMap.length_keys] at hid
    refine ⟨id, ?_⟩
    rw [← hat, nameAt, List.getElem?_eq_getElem hid, Option.getD_some]
  have hslot : ∀ x : Term, q.Has x → Node.var name = q.node x →
      ∃ id : VarId, q.table.keys[id]? = some name := by
    intro x hx hnode
    cases x with
    | var id => exact hplace id (hx id rfl) (Node.var.inj hnode).symm
    | resource r => cases hnode
    | literal l => cases hnode
  rcases hname with hcolumn | ⟨p, hp, hvar⟩
  · obtain ⟨id, hid, hat⟩ := List.mem_map.mp hcolumn
    exact hplace id (h.projections_lt id hid) hat
  · have htree : q.outline.tree = q.tree := rfl
    rw [htree, triplesAll_tree] at hp
    obtain ⟨pattern, hpattern, rfl⟩ := List.mem_map.mp hp
    obtain ⟨hs, hm, ho⟩ := h.holds hpattern
    simp only [List.mem_cons, List.not_mem_nil, or_false] at hvar
    rcases hvar with hvar | hvar | hvar
    · exact hslot _ hs hvar
    · exact hslot _ hm hvar
    · exact hslot _ ho hvar

/-- A later query has the same outline. -/
theorem Widened.outline (h : q.Widened r) (hq : q.WellFormed) : r.outline = q.outline := by
  have hprojections : r.projections = q.projections := by rw [h.rest]
  have hclauses : r.clauses = q.clauses := by rw [h.rest]
  have horder : r.order = q.order := by rw [h.rest]
  unfold Query.outline tree namedOrder
  rw [hprojections, hclauses, horder, h.namedAll fun p hp => hq.holds hp]
  congr 1
  · exact List.map_congr_left fun id hid => h.nameAt (hq.projections_lt id hid)
  · exact List.map_congr_left fun k hk => by rw [h.nameAt (hq.order_lt k hk)]

/-- The outline is made with the names of the table. -/
theorem outline_of_keys {u : Query} (h : u.table.keys = q.table.keys) :
    u.outline = ⟨u.projections.map q.nameAt, q.namedAll u.clauses,
      u.order.map fun k => (k.direction, q.nameAt k.variableId)⟩ := by
  have hname : u.nameAt = q.nameAt := nameAt_congr h
  have hnode : u.node = q.node := by
    funext x
    cases x with
    | var id => exact congrArg Node.var (congrFun hname id)
    | resource r => rfl
    | literal l => rfl
  have htriple : ∀ p, u.triple p = q.triple p := by
    intro p
    rw [triple, triple, hnode]
  rw [outline, tree, namedOrder, hname, namedAll_congr fun p _ => htriple p]

/-- Other result columns show in the columns of the outline only. -/
theorem outline_withProjections (q : Query) (ids : List VarId) :
    outline { q with projections := ids } = { q.outline with columns := ids.map q.nameAt } :=
  outline_of_keys (q := q) (u := { q with projections := ids }) rfl

/-- Other clauses show in its tree only. -/
theorem outline_withClauses (q : Query) (cs : List Clause) :
    outline { q with clauses := cs } = { q.outline with tree := q.namedAll cs } :=
  outline_of_keys (q := q) (u := { q with clauses := cs }) rfl

/-- Other order keys show in its order only. -/
theorem outline_withOrder (q : Query) (ks : List OrderKey) :
    outline { q with order := ks } =
      { q.outline with order := ks.map fun k => (k.direction, q.nameAt k.variableId) } :=
  outline_of_keys (q := q) (u := { q with order := ks }) rfl

/-- What the query shows by name: its columns, clauses and order keys, and the values of its
variables. -/
structure Presents (q : Query) (o : Outline) (value : String → Option Constant) : Prop where
  wellFormed : q.WellFormed
  outline : q.outline = o
  value : q.view.value = value

/-- A new query presents an outline of nothing, without values. -/
theorem presents_empty (uri : String) :
    Presents { uri := uri } ⟨[], [], []⟩ fun _ => none where
  wellFormed := .ofNotes uri none none
  outline := rfl
  value := rfl

/-- A later query presents what an earlier one does. -/
theorem Presents.widened {value : String → Option Constant} (h : q.Presents o value)
    (hwidened : q.Widened r) (hr : r.WellFormed) : r.Presents o value where
  wellFormed := hr
  outline := (hwidened.outline h.wellFormed).trans h.outline
  value := hwidened.value.trans h.value

end Query

namespace Sparql

variable {q r : Query} {o : Query.Outline} {name : String} {value σ : String → Option Constant}

/-! ### Columns -/

/-- A name that is no column yet is read as the next column. -/
theorem exists_readColumn {done : List String} (h : q.Presents ⟨done, [], []⟩ value)
    (hname : isVarName name = true) (hnew : name ∉ done) :
    ∃ r, readColumn q name = .ok r ∧ r.Presents ⟨done ++ [name], [], []⟩ value := by
  obtain ⟨id, r, hintern, hwidened, hid⟩ := exists_intern h.wellFormed hname
  have hr := h.widened hwidened (intern_wellFormed h.wellFormed hintern)
  have hcolumns : r.projections.map r.nameAt = done := congrArg Query.Outline.columns hr.outline
  have hfresh : id ∉ r.projections := by
    intro habsurd
    refine hnew ?_
    rw [← hcolumns, ← Query.nameAt_of_getElem? hid]
    exact List.mem_map_of_mem habsurd
  have hproject : r.project id = .ok (!r.isProjected id,
      { r with projections := appendNew r.projections id }) :=
    Query.project_eq_ok.mpr ⟨Query.lt_size_of_getElem? hid, rfl, rfl⟩
  have hread : readColumn q name = .ok { r with projections := appendNew r.projections id } :=
    Outcome.bind_eq_ok.mpr ⟨(id, r), hintern,
      Outcome.bind_eq_ok.mpr ⟨_, Outcome.mapError_eq_ok.mpr hproject, rfl⟩⟩
  refine ⟨_, hread, readColumn_wellFormed h.wellFormed hread, ?_, ?_⟩
  · rw [Query.outline_withProjections, hr.outline, appendNew, if_neg hfresh, List.map_append,
      hcolumns, List.map_singleton, Query.nameAt_of_getElem? hid]
  · exact (hr.wellFormed.indexed.project hproject).2.1.trans hr.value

/-- The columns are read one after the other. -/
theorem exists_readColumns {names done : List String} (h : q.Presents ⟨done, [], []⟩ value)
    (hnames : ∀ name ∈ names, isVarName name = true) (hnodup : (done ++ names).Nodup) :
    ∃ r, names.foldlM readColumn q = .ok r ∧ r.Presents ⟨done ++ names, [], []⟩ value := by
  induction names generalizing q done with
  | nil => exact ⟨q, rfl, by rwa [List.append_nil]⟩
  | cons name names ih =>
      rw [List.forall_mem_cons] at hnames
      have hnew : name ∉ done := by
        intro habsurd
        exact List.disjoint_of_nodup_append hnodup habsurd List.mem_cons_self
      obtain ⟨r, hread, hr⟩ := exists_readColumn h hnames.1 hnew
      rw [List.append_cons] at hnodup ⊢
      obtain ⟨u, hloop, hu⟩ := ih hr hnames.2 hnodup
      refine ⟨u, ?_, hu⟩
      rw [List.foldlM_cons, hread]
      exact hloop

/-! ### Values -/

/-- The values of variables after some more have got one. -/
def assigned (value : String → Option Constant) (bs : List (String × Constant)) :
    String → Option Constant :=
  bs.foldl (fun value b => Function.update value b.1 (some b.2)) value

/-- A variable gets the value that is read for it. -/
theorem exists_readBinding {b : String × Constant} (h : q.Presents o value)
    (hname : isVarName b.1 = true) (hb : b.2.IsNormal) :
    ∃ r, readBinding q b = .ok r ∧ r.Presents o (Function.update value b.1 (some b.2)) := by
  obtain ⟨id, r, hintern, hwidened, hid⟩ := exists_intern h.wellFormed hname
  have hr := h.widened hwidened (intern_wellFormed h.wellFormed hintern)
  have hlt := Query.lt_size_of_getElem? hid
  have hset : r.setBound id (some b.2) = .ok (r.boundAt id,
      { r with table := r.table.modifyAt id fun v => { v with bound := some b.2 } }) :=
    Query.setBound_eq_ok.mpr ⟨hlt, rfl, rfl⟩
  have hread : readBinding q b =
      .ok { r with table := r.table.modifyAt id fun v => { v with bound := some b.2 } } :=
    Outcome.bind_eq_ok.mpr ⟨(id, r), hintern,
      Outcome.bind_eq_ok.mpr ⟨_, Outcome.mapError_eq_ok.mpr hset, rfl⟩⟩
  obtain ⟨v, hv⟩ := OrderedMap.exists_at? hlt
  have hat : (r.table.modifyAt id fun v => { v with bound := some b.2 }).at? id =
      some { v with bound := some b.2 } := by
    rw [OrderedMap.at?_modifyAt, hv, Option.map_some, if_pos rfl]
  have hkey : v.name = b.1 :=
    Option.some.inj ((hr.wellFormed.indexed.key_of_at? hv).symm.trans hid)
  refine ⟨_, hread, readBinding_wellFormed hb h.wellFormed hread, ?_, ?_⟩
  · have hkeys := OrderedMap.keys_modifyAt r.table id fun v => { v with bound := some b.2 }
    rw [← hr.outline]
    exact Query.outline_of_keys hkeys
  · have hview := (hr.wellFormed.indexed.setBound hset hat).2
    rw [congrArg View.value hview, hr.value]
    exact congrArg (Function.update value · (some b.2)) hkey

/-- The values are read one after the other. -/
theorem exists_readBindings {bs : List (String × Constant)} (h : q.Presents o value)
    (hnames : ∀ b ∈ bs, isVarName b.1 = true) (hbs : ∀ b ∈ bs, b.2.IsNormal) :
    ∃ r, bs.foldlM readBinding q = .ok r ∧ r.Presents o (assigned value bs) := by
  induction bs generalizing q value with
  | nil => exact ⟨q, rfl, h⟩
  | cons b bs ih =>
      rw [List.forall_mem_cons] at hnames hbs
      obtain ⟨r, hread, hr⟩ := exists_readBinding h hnames.1 hbs.1
      obtain ⟨u, hloop, hu⟩ := ih hr hnames.2 hbs.2
      refine ⟨u, ?_, hu⟩
      rw [List.foldlM_cons, hread]
      exact hloop

/-! ### Clauses -/

/-- Made clauses over the table are added one after the other. -/
theorem pushClauses_eq_ok {cs : List Clause} (hmade : ∀ c ∈ cs, c.Made)
    (hholds : ∀ p ∈ Clause.patternsAll cs, q.Holds p) :
    cs.foldlM (fun q c => onQuery (q.pushClause c)) q =
      .ok { q with clauses := q.clauses ++ cs } := by
  induction cs generalizing q with
  | nil =>
      rw [List.append_nil]
      rfl
  | cons c cs ih =>
      rw [List.forall_mem_cons] at hmade
      rw [Clause.patternsAll, List.forall_mem_append] at hholds
      have hcheck : q.checkClause c = .ok () := by
        refine (Query.checkClause_eq_ok_of_made hmade.1).mpr ?_
        intro id hid
        obtain ⟨p, hp, hpid⟩ := Clause.mem_varIds.mp hid
        exact Query.holds_iff.mp (hholds.1 p hp) id hpid
      have hpush : q.pushClause c = .ok { q with clauses := q.clauses ++ [c] } :=
        Query.pushClause_eq_ok.mpr ⟨hcheck, rfl⟩
      have hstep : onQuery (q.pushClause c) = .ok { q with clauses := q.clauses ++ [c] } :=
        Outcome.mapError_eq_ok.mpr hpush
      have hrest := ih (q := { q with clauses := q.clauses ++ [c] }) hmade.2 hholds.2
      rw [List.foldlM_cons, hstep, Outcome.ok_bind, hrest, List.append_assoc, List.singleton_append]

/-- The clauses are read and added. -/
theorem exists_readBody {a : Algebra} {columns : List String} {ns : List NamedClause}
    (h : q.Presents ⟨columns, [], []⟩ value) (ha : a.Lists ns)
    (hns : ∀ p ∈ NamedClause.triplesAll ns, p.normal.Legal) :
    ∃ cs r u, readClauses q a = .ok (cs, r) ∧
      cs.foldlM (fun q c => onQuery (q.pushClause c)) r = .ok u ∧
        u.Presents ⟨columns, NamedClause.normalAll ns, []⟩ value := by
  obtain ⟨cs, r, hread, hwidened, hholds, hnames⟩ := exists_readClauses ha hns h.wellFormed
  obtain ⟨hwell, hmade⟩ := readClauses_wellFormed h.wellFormed hread
  have hr := h.widened hwidened hwell
  have hpush := pushClauses_eq_ok hmade hholds
  have hu : Query.WellFormed { r with clauses := r.clauses ++ cs } :=
    Outcome.foldlM_preserves Query.WellFormed
      (fun _ c hc _ h hstep => (h.pushClause (hmade c hc) (Outcome.mapError_eq_ok.mp hstep)).1)
      hwell hpush
  refine ⟨cs, r, _, hread, hpush, hu, ?_, ?_⟩
  · have hbefore : r.namedAll r.clauses = [] := congrArg Query.Outline.tree hr.outline
    rw [Query.namedAll_eq_map] at hbefore hnames
    rw [Query.outline_withClauses, hr.outline, Query.namedAll_eq_map, List.map_append, hbefore,
      hnames, List.nil_append]
  · rw [← hr.value]
    rfl

/-! ### Order keys -/

/-- A key on a variable of the query is read as the next key. -/
theorem exists_readKey {done : List (Direction × String)} {k : Direction × String}
    (h : q.Presents { o with order := done } value) (hk : k.2 ∈ q.table.keys) :
    ∃ r, readKey q (Parser.keyValue k) = .ok r ∧ r.table = q.table ∧
      r.Presents { o with order := done ++ [k] } value := by
  obtain ⟨id, hid⟩ := List.getElem?_of_mem hk
  have hplace : q.idOf? k.2 = some id := OrderedMap.idxOf?_eq_some_iff.mpr hid
  have hpush : q.pushOrder ⟨k.1, id⟩ = .ok { q with order := q.order ++ [⟨k.1, id⟩] } :=
    Query.pushOrder_eq_ok.mpr ⟨Query.lt_size_of_getElem? hid, rfl⟩
  refine ⟨{ q with order := q.order ++ [⟨k.1, id⟩] }, ?_, rfl,
    (h.wellFormed.pushOrder hpush).1, ?_, h.value⟩
  · simp only [readKey, Parser.keyValue, hplace]
    exact Outcome.mapError_eq_ok.mpr hpush
  · have hbefore : q.namedOrder = done := congrArg Query.Outline.order h.outline
    unfold Query.namedOrder at hbefore
    rw [Query.outline_withOrder, h.outline, List.map_append, hbefore, List.map_singleton,
      Query.nameAt_of_getElem? hid]

/-- The keys are read one after the other. -/
theorem exists_readKeys {keys : List (Direction × String)} (done : List (Direction × String))
    (h : q.Presents { o with order := done } value) (hkeys : ∀ k ∈ keys, k.2 ∈ q.table.keys) :
    ∃ r, (keys.map Parser.keyValue).foldlM readKey q = .ok r ∧
      r.Presents { o with order := done ++ keys } value := by
  induction keys generalizing q done with
  | nil => exact ⟨q, rfl, by rwa [List.append_nil]⟩
  | cons k keys ih =>
      rw [List.forall_mem_cons] at hkeys
      obtain ⟨r, hread, htable, hr⟩ := exists_readKey h hkeys.1
      obtain ⟨u, hloop, hu⟩ := ih _ hr (htable ▸ hkeys.2)
      refine ⟨u, ?_, List.append_cons done k keys ▸ hu⟩
      rw [List.map_cons, List.foldlM_cons, hread]
      exact hloop

/-! ### Reading the whole pattern -/

/-- A value as the query gets it. -/
def normalValue (b : String × Constant) : String × Constant := (b.1, b.2.normal)

/-- The values around a pattern are found. -/
theorem bindings_extended {p : Algebra} (hp : bindings p = .ok ([], p))
    (values : List (String × Constant)) :
    bindings (p.extended values) = .ok (values.map normalValue, p) := by
  induction values using List.reverseRecOn with
  | nil => exact hp
  | append_singleton values b ih =>
      rw [Algebra.extended_concat, bindings]
      simp only [Expr.constant?, ih, Outcome.ok_bind, List.map_append]
      rfl

/-- The parts of a pattern that a query can hold. -/
structure Shape where
  /-- The values that variables get around the order keys, innermost first. -/
  outer : List (String × Constant)
  order : Option (List (Direction × String))
  /-- The values that variables get inside of the order keys, innermost first. -/
  inner : List (String × Constant)
  body : Algebra

namespace Shape

/-- All values of variables. -/
def values (s : Shape) : List (String × Constant) := s.outer ++ s.inner

/-- The pattern inside of the outer values. -/
def middle (s : Shape) : Algebra :=
  Selection.ordered (s.body.extended s.inner) (s.order.map (·.map Parser.keyValue))

/-- The pattern. -/
def pattern (s : Shape) : Algebra := s.middle.extended s.outer

end Shape

/-- A pattern that lists clauses gives no variable a value. -/
theorem Algebra.Lists.bindings_eq {a : Algebra} {ns : List NamedClause} (h : a.Lists ns) :
    bindings a = .ok ([], a) := by
  cases h <;> rfl

/-- A pattern that lists clauses has no order keys. -/
theorem Algebra.Lists.orderKeys_eq {a : Algebra} {ns : List NamedClause} (h : a.Lists ns) :
    orderKeys a = ([], a) := by
  cases h <;> rfl

/-- What is read before the order keys is presented, if the reader accepts it part by part: the
names of columns and values can be written and the clauses can be held.  There are inner values
only inside of order keys. -/
theorem exists_readBefore {body : Algebra} (outer inner : List (String × Constant))
    (keys : Option (List (Direction × Expr))) {columns : List String} {ns : List NamedClause}
    (uri : String) (hbody : body.Lists ns) (hinner : keys = none → inner = [])
    (hcolumns : ∀ name ∈ columns, isVarName name = true) (hnodup : columns.Nodup)
    (hvalues : ∀ b ∈ outer ++ inner, isVarName b.1 = true)
    (hns : ∀ p ∈ NamedClause.triplesAll ns, p.normal.Legal) :
    ∃ u, u.Presents ⟨columns, NamedClause.normalAll ns, []⟩
        (assigned (fun _ => none) ((outer ++ inner).map normalValue)) ∧
      readProjection uri ((Selection.ordered (body.extended inner) keys).extended outer) columns =
        (keys.getD []).foldlM readKey u := by
  obtain ⟨q₁, hcolumnsRead, h₁⟩ := exists_readColumns (Query.presents_empty uri) hcolumns
    (by simpa using hnodup)
  rw [List.nil_append] at h₁
  have hnormal : ∀ b ∈ (outer ++ inner).map normalValue, isVarName b.1 = true ∧ b.2.IsNormal := by
    intro b hb
    obtain ⟨b', hb', rfl⟩ := List.mem_map.mp hb
    exact ⟨hvalues b' hb', b'.2.isNormal_normal⟩
  obtain ⟨q₂, hvaluesRead, h₂⟩ := exists_readBindings h₁ (fun b hb => (hnormal b hb).1)
    fun b hb => (hnormal b hb).2
  obtain ⟨cs, q₃, q₄, hbodyRead, hpush, h₄⟩ := exists_readBody h₂ hbody hns
  have hmiddle : bindings (Selection.ordered (body.extended inner) keys) =
        .ok ([], Selection.ordered (body.extended inner) keys) ∧
      orderKeys (Selection.ordered (body.extended inner) keys) =
        (keys.getD [], body.extended inner) := by
    cases keys with
    | some ks => exact ⟨rfl, rfl⟩
    | none =>
        rw [hinner rfl]
        exact ⟨hbody.bindings_eq, hbody.orderKeys_eq⟩
  refine ⟨q₄, h₄, ?_⟩
  rw [List.map_append] at hvaluesRead
  unfold readProjection
  rw [bindings_extended hmiddle.1 outer, Outcome.ok_bind]
  simp only [hmiddle.2, bindings_extended hbody.bindings_eq inner, Outcome.ok_bind, hcolumnsRead,
    hvaluesRead, hbodyRead, hpush]

/-- What is read of a shape before its order keys is presented. -/
theorem exists_readParts {s : Shape} {columns : List String} {ns : List NamedClause}
    (uri : String) (hbody : s.body.Lists ns) (hinner : s.order = none → s.inner = [])
    (hcolumns : ∀ name ∈ columns, isVarName name = true) (hnodup : columns.Nodup)
    (hvalues : ∀ b ∈ s.values, isVarName b.1 = true)
    (hns : ∀ p ∈ NamedClause.triplesAll ns, p.normal.Legal) :
    ∃ u, u.Presents ⟨columns, NamedClause.normalAll ns, []⟩
        (assigned (fun _ => none) (s.values.map normalValue)) ∧
      readProjection uri s.pattern columns =
        ((s.order.getD []).map Parser.keyValue).foldlM readKey u := by
  obtain ⟨u, hu, hread⟩ := exists_readBefore s.outer s.inner
    (s.order.map (·.map Parser.keyValue)) uri hbody
    (fun hnone => hinner (Option.map_eq_none_iff.mp hnone)) hcolumns hnodup hvalues hns
  refine ⟨u, hu, hread.trans ?_⟩
  cases s.order <;> rfl

/-! ### Reading the algebra -/

/-- The slice that a query gets. -/
def sliceOf : Option (Nat × Option Nat) → Slice
  | some (start, length) => ⟨if start = 0 then none else some start, length⟩
  | none => {}

/-- The algebra of a selection of columns is read as the pattern below the columns. -/
theorem readAlgebra_sliced (uri : String) (p : Algebra) (columns : List String)
    (slice : Option (Nat × Option Nat)) :
    readAlgebra uri (Selection.sliced (.project p columns) slice) =
      (readProjection uri p columns).map (·, sliceOf slice) := by
  have hproject : readAlgebra uri (.project p columns) =
      (readProjection uri p columns).map (·, {}) := by
    rw [readAlgebra]
    cases readProjection uri p columns <;> rfl
  cases slice with
  | none => exact hproject
  | some bounds =>
      rw [Selection.sliced, readAlgebra, hproject]
      cases readProjection uri p columns <;> rfl

/-- A slice that does not begin at an explicit zero is read back. -/
theorem sliceOf_sliceValue {slice : Slice} (h : slice.offset ≠ some 0) :
    sliceOf (Parser.sliceValue slice) = slice := by
  obtain ⟨offset, limit⟩ := slice
  cases offset with
  | none => cases limit <;> rfl
  | some n =>
      have hn : n ≠ 0 := fun hzero => h (congrArg some hzero)
      simp [Parser.sliceValue, sliceOf, hn]

/-! ### Reading the algebra of an outline -/

/-- Where no variable gets two values, each keeps the value that it gets. -/
theorem assigned_eq_some {bs : List (String × Constant)} (h : (bs.map Prod.fst).Nodup)
    {name : String} {c : Constant} :
    assigned (fun _ => none) bs name = some c ↔ (name, c) ∈ bs := by
  induction bs using List.reverseRecOn with
  | nil => simp [assigned]
  | append_singleton bs b ih =>
      obtain ⟨other, value⟩ := b
      rw [List.map_append, List.map_singleton] at h
      obtain ⟨hnodup, -, hapart⟩ := List.nodup_append.mp h
      have hstep : assigned (fun _ => none) (bs ++ [(other, value)]) =
          Function.update (assigned (fun _ => none) bs) other (some value) := by
        rw [assigned, List.foldl_append]
        rfl
      rw [hstep, Function.update_apply, List.mem_append, List.mem_singleton, Prod.mk.injEq]
      by_cases hname : name = other
      · subst hname
        have hnew : (name, c) ∉ bs := by
          intro habsurd
          exact hapart name (List.mem_map_of_mem habsurd) name (List.mem_singleton_self name) rfl
        rw [if_pos rfl, Option.some.injEq, or_iff_right hnew]
        exact ⟨fun heq => ⟨rfl, heq.symm⟩, fun heq => heq.2.symm⟩
      · rw [if_neg hname, ih hnodup]
        simp [hname]

/-- The values of the columns. -/
def shownValues (σ : String → Option Constant) (names : List String) : String → Option Constant :=
  fun name => if name ∈ names then σ name else none

/-- A shown value is that of a column. -/
theorem shownValues_eq_some {names : List String} {c : Constant} :
    shownValues σ names name = some c ↔ name ∈ names ∧ σ name = some c := by
  unfold shownValues
  split <;> simp_all

/-- Without values none are shown. -/
@[simp]
theorem shownValues_none (names : List String) :
    shownValues (fun _ => none) names = fun _ => none := by
  funext name
  rw [shownValues, ite_self]

/-- Columns without repeats get the values that they have. -/
theorem assigned_boundColumns {names : List String} (h : names.Nodup)
    (hnormal : ∀ name c, σ name = some c → c.IsNormal) :
    assigned (fun _ => none) ((boundColumns σ names).map normalValue) = shownValues σ names := by
  have hsame : (boundColumns σ names).map normalValue = boundColumns σ names := by
    refine (List.map_congr_left ?_).trans (List.map_id _)
    rintro ⟨name, c⟩ hb
    exact congrArg (Prod.mk name) (hnormal name c (mem_boundColumns.mp hb).2)
  have hnodup : ((boundColumns σ names).map Prod.fst).Nodup := by
    rw [names_boundColumns]
    exact h.filter _
  funext name
  refine Option.ext fun c => ?_
  rw [hsame, assigned_eq_some hnodup, mem_boundColumns, shownValues_eq_some]

/-- The reader of an outline comes to its order keys with a query that presents the rest. -/
theorem exists_readOutline {slice : Slice} {body : Algebra} (uri : String)
    (hoffset : slice.offset ≠ some 0) (hbody : body.Lists (o.settled σ).tree)
    (hcolumns : ∀ name ∈ o.columns, isVarName name = true) (hnodup : o.columns.Nodup)
    (hnormal : ∀ name c, σ name = some c → c.IsNormal)
    (htree : ∀ p ∈ NamedClause.triplesAll (o.settled σ).tree, p.Legal) :
    ∃ u, u.Presents ⟨o.columns, (o.settled σ).tree, []⟩ (shownValues σ o.columns) ∧
      readAlgebra uri (outlineAlgebra o σ slice body) =
        ((o.order.map (Parser.settledKey σ)).foldlM readKey u).map (·, slice) := by
  have hlegal : NamedClause.normalAll (o.settled σ).tree = (o.settled σ).tree :=
    NamedClause.normalAll_of_legal htree
  have hkeys : (Parser.orderValue o σ).getD [] = o.order.map (Parser.settledKey σ) := by
    unfold Parser.orderValue
    cases o.order <;> rfl
  -- the values stand inside of the order keys, if there are any
  obtain ⟨outer, inner, hvalues, hinner, hpattern⟩ : ∃ outer inner,
      outer ++ inner = boundColumns σ o.columns ∧ (Parser.orderValue o σ = none → inner = []) ∧
      Selection.ordered (body.extended (boundColumns σ o.columns)) (Parser.orderValue o σ) =
        (Selection.ordered (body.extended inner) (Parser.orderValue o σ)).extended outer := by
    cases Parser.orderValue o σ with
    | none => exact ⟨boundColumns σ o.columns, [], List.append_nil _, fun _ => rfl, rfl⟩
    | some keys => exact ⟨[], boundColumns σ o.columns, rfl, nofun, rfl⟩
  have hnames : ∀ b ∈ outer ++ inner, isVarName b.1 = true := by
    rw [hvalues]
    rintro ⟨name, c⟩ hb
    exact hcolumns name (mem_boundColumns.mp hb).1
  obtain ⟨u, hu, hread⟩ := exists_readBefore _ _ (Parser.orderValue o σ) uri hbody hinner
    hcolumns hnodup hnames fun p hp => (htree p hp).normal.symm ▸ htree p hp
  rw [hlegal, hvalues, assigned_boundColumns hnodup hnormal] at hu
  refine ⟨u, hu, ?_⟩
  rw [outlineAlgebra, readAlgebra_sliced, hpattern, hread, hkeys, sliceOf_sliceValue hoffset]

/-- A variable without a value shows when the values of others are in place. -/
theorem shows_settled (h : o.Shows name) (hvalue : σ name = none) : (o.settled σ).Shows name := by
  rcases h with hcolumn | ⟨p, hp, hvar⟩
  · exact Or.inl hcolumn
  · have hslot : (Node.var name).settled σ = .var name := by simp [Node.settled, hvalue]
    refine Or.inr ⟨p.settled σ, ?_, ?_⟩
    · rw [Query.Outline.settled, NamedClause.triplesAll_settledAll]
      exact List.mem_map_of_mem hp
    · have hmem := List.mem_map_of_mem (f := Node.settled σ) hvar
      rwa [hslot] at hmem

/-- What an outline shows is in the table of a query that presents the outline up to its order
keys. -/
theorem mem_keys_of_shows {u : Query} {value : String → Option Constant}
    (hu : u.Presents ⟨o.columns, o.tree, []⟩ value) (h : o.Shows name) : name ∈ u.table.keys := by
  have hshows : u.outline.Shows name := by
    rw [hu.outline]
    exact h
  obtain ⟨id, hid⟩ := hu.wellFormed.exists_place hshows
  exact List.mem_of_getElem? hid

/-- **The query of the algebra of an outline has the outline** with the values of variables in
place, if it sorts by variables without values that it shows; and its columns have their values. -/
theorem exists_readAlgebra {slice : Slice} {body : Algebra} (uri : String)
    (hoffset : slice.offset ≠ some 0) (hbody : body.Lists (o.settled σ).tree)
    (hcolumns : ∀ name ∈ o.columns, isVarName name = true) (hnodup : o.columns.Nodup)
    (hnormal : ∀ name c, σ name = some c → c.IsNormal)
    (htree : ∀ p ∈ NamedClause.triplesAll (o.settled σ).tree, p.Legal)
    (horder : ∀ k ∈ o.order, o.Shows k.2) (hkeys : ∀ k ∈ o.order, σ k.2 = none) :
    ∃ r, readAlgebra uri (outlineAlgebra o σ slice body) = .ok (r, slice) ∧
      r.Presents (o.settled σ) (shownValues σ o.columns) := by
  obtain ⟨u, hu, hread⟩ := exists_readOutline uri hoffset hbody hcolumns hnodup hnormal htree
  have hplain : o.order.map (Parser.settledKey σ) = o.order.map Parser.keyValue := by
    refine List.map_congr_left fun k hk => ?_
    rw [Parser.settledKey, Node.settled, hkeys k hk]
    rfl
  obtain ⟨r, hkeysRead, hr⟩ := exists_readKeys (o := o.settled σ) [] hu fun k hk =>
    mem_keys_of_shows (o := o.settled σ) hu (shows_settled (horder k hk) (hkeys k hk))
  refine ⟨r, ?_, hr⟩
  rw [hread, hplain, hkeysRead]
  rfl

/-- A value in the place of a variable is no order key. -/
theorem foldlM_readKey_eq_error {keys : List (Direction × String)} {k : Direction × String}
    {c : Constant} (hk : keys.find? (fun k => (σ k.2).isSome) = some k) (hc : σ k.2 = some c)
    (hknown : ∀ k ∈ keys, σ k.2 = none → k.2 ∈ q.table.keys) :
    (keys.map (Parser.settledKey σ)).foldlM readKey q =
      .error (.query (.orderExpression c.canonical)) := by
  induction keys generalizing q with
  | nil => cases hk
  | cons k' keys ih =>
      rw [List.forall_mem_cons] at hknown
      rw [List.map_cons, List.foldlM_cons, Parser.settledKey, Node.settled]
      cases hvalue : σ k'.2 with
      | some c' =>
          have hfound : k' = k := by simpa [hvalue] using hk
          subst hfound
          obtain rfl := Option.some.inj (hvalue.symm.trans hc)
          rw [Option.elim_some, Parser.expr_ofConstant]
          rfl
      | none =>
          have hmore : keys.find? (fun k => (σ k.2).isSome) = some k := by
            simpa [hvalue] using hk
          obtain ⟨id, hid⟩ := List.getElem?_of_mem (hknown.1 hvalue)
          have hplace : q.idOf? k'.2 = some id := OrderedMap.idxOf?_eq_some_iff.mpr hid
          have hpush : q.pushOrder ⟨k'.1, id⟩ = .ok { q with order := q.order ++ [⟨k'.1, id⟩] } :=
            Query.pushOrder_eq_ok.mpr ⟨Query.lt_size_of_getElem? hid, rfl⟩
          have hread : readKey q (k'.1, .var k'.2) =
              .ok { q with order := q.order ++ [⟨k'.1, id⟩] } := by
            simp only [readKey, hplace]
            exact Outcome.mapError_eq_ok.mpr hpush
          rw [Option.elim_none, Node.expr, hread, Outcome.ok_bind]
          exact ih hmore hknown.2

/-- **An outline is refused if it sorts by a variable that has a value.** -/
theorem readAlgebra_eq_error {slice : Slice} {body : Algebra} (uri : String)
    (hoffset : slice.offset ≠ some 0) (hbody : body.Lists (o.settled σ).tree)
    (hcolumns : ∀ name ∈ o.columns, isVarName name = true) (hnodup : o.columns.Nodup)
    (hnormal : ∀ name c, σ name = some c → c.IsNormal)
    (htree : ∀ p ∈ NamedClause.triplesAll (o.settled σ).tree, p.Legal)
    (horder : ∀ k ∈ o.order, o.Shows k.2) {k : Direction × String} {c : Constant}
    (hk : o.order.find? (fun k => (σ k.2).isSome) = some k) (hc : σ k.2 = some c) :
    readAlgebra uri (outlineAlgebra o σ slice body) =
      .error (.query (.orderExpression c.canonical)) := by
  obtain ⟨u, hu, hread⟩ := exists_readOutline uri hoffset hbody hcolumns hnodup hnormal htree
  rw [hread, foldlM_readKey_eq_error hk hc fun k hk hnone =>
    mem_keys_of_shows (o := o.settled σ) hu (shows_settled (horder k hk) hnone)]
  rfl

end Sparql

end SparqlCompose
