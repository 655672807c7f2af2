import Mathlib
import SparqlCompose.Proofs.Join.Merge

/-!
# The composite of two queries

Once the two variable tables are merged, a join copies result columns, clauses and order keys of
both queries with the places of their variables exchanged.  `Pairing.composite` is the query that
comes out, written down field by field; `Pairing.WellFormed.join_eq_ok` says that a join of two
well-formed queries never fails and answers it.  The places of the right query are exchanged
injectively, so the composite is well formed again (`Pairing.Merged.composite_wellFormed`).
-/

namespace SparqlCompose

namespace Query

/-- The place in a composite of a place in an operand. -/
def placeIn (places : List VarId) (id : VarId) : VarId := places.getD id id

/-- The place of a right variable is the one in the list. -/
theorem placeIn_eq_getElem {places : List VarId} {id : VarId} (h : id < places.length) :
    placeIn places id = places[id] :=
  List.getD_eq_getElem _ _ h

/-- It is one of the list. -/
theorem placeIn_mem {places : List VarId} {id : VarId} (h : id < places.length) :
    placeIn places id ∈ places := by
  rw [placeIn_eq_getElem h]
  exact List.getElem_mem h

/-- A place that has a counterpart is exchanged for it. -/
theorem mappedId_eq_ok {places : List VarId} {id : VarId} (h : id < places.length) :
    mappedId places id = .ok (placeIn places id) := by
  simp [mappedId, List.getElem?_eq_getElem h, placeIn_eq_getElem h]

/-- Clauses that pass are added one after the other. -/
theorem foldlM_pushClause {f : Query → Clause → Except QueryError Query} {g : Clause → Clause}
    {cs : List Clause} {q : Query}
    (hstep : ∀ r : Query, r.table = q.table → ∀ c ∈ cs, f r c = r.pushClause (g c))
    (hcheck : ∀ c ∈ cs, q.checkClause (g c) = .ok ()) :
    cs.foldlM f q = .ok { q with clauses := q.clauses ++ cs.map g } := by
  induction cs generalizing q with
  | nil => simp [pure, Except.pure]
  | cons c cs ih =>
      have hpush : f q c = .ok { q with clauses := q.clauses ++ [g c] } :=
        (hstep q rfl c List.mem_cons_self).trans
          (pushClause_eq_ok.mpr ⟨hcheck c List.mem_cons_self, rfl⟩)
      rw [List.foldlM_cons, hpush, Outcome.ok_bind, ih]
      · simp
      · intro r hr d hd
        exact hstep r hr d (List.mem_cons_of_mem _ hd)
      · intro d hd
        have hold := checkClause_eq_ok.mp (hcheck d (List.mem_cons_of_mem _ hd))
        exact checkClause_eq_ok.mpr hold

/-- The wanted columns of an operand are added, each once. -/
theorem foldlM_projectMapped {places ids : List VarId} {wanted : VarId → VarId → Bool} {q : Query}
    (hids : ∀ id ∈ ids, id < places.length) (hplaces : ∀ i ∈ places, i < q.table.size) :
    ids.foldlM (projectMapped places wanted) q = .ok { q with
      projections := ((ids.filter fun id => wanted id (placeIn places id)).map
        (placeIn places)).foldl appendNew q.projections } := by
  induction ids generalizing q with
  | nil => rfl
  | cons id ids ih =>
      have hid := hids id List.mem_cons_self
      have hrest : ∀ i ∈ ids, i < places.length :=
        fun i hi => hids i (List.mem_cons_of_mem _ hi)
      rw [List.foldlM_cons, projectMapped, mappedId_eq_ok hid, Outcome.ok_bind]
      by_cases hw : wanted id (placeIn places id) = true
      · have hproject := (project_eq_ok (q := q)).mpr ⟨hplaces _ (placeIn_mem hid), rfl, rfl⟩
        have hfilter : (id :: ids).filter (fun i => wanted i (placeIn places i)) =
            id :: ids.filter (fun i => wanted i (placeIn places i)) := by simp [hw]
        rw [if_pos hw, hproject, hfilter]
        exact ih hrest hplaces
      · have hfilter : (id :: ids).filter (fun i => wanted i (placeIn places i)) =
            ids.filter (fun i => wanted i (placeIn places i)) := by simp [hw]
        rw [if_neg hw, hfilter]
        exact ih hrest hplaces

/-- The order keys of an operand are added. -/
theorem foldlM_pushMappedOrder {places : List VarId} {ks : List OrderKey} {q : Query}
    (hks : ∀ k ∈ ks, k.variableId < places.length) (hplaces : ∀ i ∈ places, i < q.table.size) :
    ks.foldlM (pushMappedOrder places) q = .ok { q with
      order := q.order ++
        ks.map fun k => { k with variableId := placeIn places k.variableId } } := by
  induction ks generalizing q with
  | nil => simp [pure, Except.pure]
  | cons k ks ih =>
      have hk := hks k List.mem_cons_self
      have hpush : pushMappedOrder places q k = .ok { q with
          order := q.order ++ [{ k with variableId := placeIn places k.variableId }] } := by
        rw [pushMappedOrder, List.getElem?_eq_getElem hk, ← placeIn_eq_getElem hk]
        exact pushOrder_eq_ok.mpr ⟨hplaces _ (placeIn_mem hk), rfl⟩
      rw [List.foldlM_cons, hpush, Outcome.ok_bind, ih]
      · simp
      · exact fun l hl => hks l (List.mem_cons_of_mem _ hl)
      · exact hplaces

/-- The places of a clause are exchanged, if there is one for each. -/
theorem mapClause_eq_ok {places : List VarId} {c : Clause}
    (hc : ∀ id ∈ c.varIds, id < places.length) :
    mapClause places c = .ok (c.mapVar (placeIn places)) := by
  unfold mapClause
  rw [Outcome.check_bind_eq_ok]
  refine ⟨Outcome.forM_eq_ok.mpr fun pattern hpattern => ?_, rfl⟩
  refine Outcome.forM_eq_ok.mpr fun id hid => ?_
  rw [mappedId_eq_ok (hc id (Clause.mem_varIds.mpr ⟨pattern, hpattern, hid⟩))]
  rfl

end Query

namespace Pairing

variable {p : Pairing} {t : OrderedMap Variable} {places : List Nat}

/-- The table holds the variables of both queries; those of the right one stand at
`places`. -/
structure Merged (p : Pairing) (t : OrderedMap Variable) (places : List Nat) : Prop
    extends p.Merging t places where
  length : places.length = p.right.table.size

/-- The clauses of the right query as they enter the composite. -/
def rightClauses (p : Pairing) (mode : JoinMode) (places : List Nat) : List Clause :=
  let cs := p.right.clauses.map (Clause.mapVar (Query.placeIn places))
  match mode, p.right.activeEndpoint with
  | .service, some e => [.block e cs]
  | _, _ => cs

/-- The query that a join answers when the variable tables are merged into `t` and the
variables of the right query stand at `places`. -/
def composite (p : Pairing) (mode : JoinMode) (t : OrderedMap Variable) (places : List Nat) :
    Query where
  uri := "join(" ++ p.left.uri ++ "," ++ p.right.uri ++ ")"
  label := some (p.left.displayLabel ++ " ⋈ " ++ p.right.displayLabel)
  table := t
  projections := p.left.projections ++
    (p.right.projections.filter fun id => id != p.rightId &&
      decide (p.left.table.size ≤ Query.placeIn places id)).map (Query.placeIn places)
  clauses := p.left.clauses ++ p.rightClauses mode places
  order := p.left.order ++
    p.right.order.map fun k => { k with variableId := Query.placeIn places k.variableId }
  endpoints := (p.left.activeEndpoint.toList ++ p.right.activeEndpoint.toList).foldl appendNew []
  activeEndpoint := p.left.activeEndpoint

/-- The variables of two well-formed queries can be merged. -/
theorem WellFormed.exists_merged (h : p.WellFormed) (q : Query) (hq : q.table = ∅) :
    ∃ (t u : OrderedMap Variable) (places : List Nat),
      Query.addLeft p.left p.right p.leftId p.rightId 0 p.left.table.values q =
        .ok (List.range' 0 p.left.table.size, { q with table := t }) ∧
      t.size = p.left.table.size ∧
      Query.addRight p.left.table.size p.leftId p.rightId 0 [p.leftId] p.right.table.values
        { q with table := t } = .ok (places, { q with table := u }) ∧
      p.Merged u places := by
  have hlegal : ∀ v ∈ p.left.table.values, v.Legal := by
    intro v hv
    obtain ⟨e, he, rfl⟩ := List.mem_map.mp hv
    exact (h.left.table e he).2
  have hnodup : ((∅ : OrderedMap Variable).keys ++
      p.left.table.values.map Variable.name).Nodup := by
    rw [← h.left.table.keys_eq]
    exact p.left.table.nodup_keys
  obtain ⟨t, hleft, hsound, hsize, -, hcopies⟩ :=
    h.addLeft_eq_ok (q := q) SoundTable.empty hlegal hnodup
  have htsize : t.size = p.left.table.size := by
    rw [hsize, OrderedMap.length_values]
    exact Nat.zero_add _
  have hstart : p.Merging t [] := by
    refine .start hsound htsize fun a v hv => ?_
    rw [OrderedMap.at?_eq_getElem?] at hv
    have hcopy := hcopies a v hv
    rwa [show (∅ : OrderedMap Variable).size = 0 from rfl, Nat.zero_add] at hcopy
  have hclaims : p.Claims ([] : List Nat).length [p.leftId] := by
    intro a
    simp
  obtain ⟨u, places, hright, hmerging, hlength⟩ :=
    h.addRight_eq_ok (q := q) hstart hclaims List.drop_zero.symm
  refine ⟨t, u, places, ?_, htsize, hright, ⟨hmerging, ?_⟩⟩
  · have hempty : { q with table := ∅ } = q := by rw [← hq]
    rw [OrderedMap.length_values, hempty] at hleft
    exact hleft
  · rw [hlength, OrderedMap.length_values]

/-- The left places are in the table of the composite. -/
theorem Merged.left_lt (h : p.Merged t places) {a : Nat} (ha : a < p.left.table.size) :
    a < t.size :=
  Nat.lt_of_lt_of_le ha h.size_le

/-- So are those of the right variables. -/
theorem Merged.right_lt (h : p.Merged t places) {b : Nat} (hb : b < p.right.table.size) :
    Query.placeIn places b < t.size :=
  h.lt _ (Query.placeIn_mem (h.length ▸ hb))

/-- Two variables of the right query stand at different places. -/
theorem Merged.injOn (h : p.Merged t places) :
    Set.InjOn (Query.placeIn places) {b | b < p.right.table.size} := by
  intro b hb b' hb' heq
  have hlt : b < places.length := h.length.symm ▸ hb
  have hlt' : b' < places.length := h.length.symm ▸ hb'
  rw [Query.placeIn_eq_getElem hlt, Query.placeIn_eq_getElem hlt'] at heq
  exact h.nodup.getElem_inj_iff.mp heq

/-- The clauses of the right query are made and within the table when they enter the
composite. -/
theorem Merged.rightClauses_made (hm : p.Merged t places) (h : p.WellFormed) (mode : JoinMode) :
    ∀ c ∈ p.rightClauses mode places, c.Made ∧ ∀ id ∈ c.varIds, id < t.size := by
  have hmapped : ∀ c ∈ p.right.clauses.map (Clause.mapVar (Query.placeIn places)),
      c.Made ∧ ∀ id ∈ c.varIds, id < t.size := by
    intro d hd
    obtain ⟨c, hc, rfl⟩ := List.mem_map.mp hd
    refine ⟨(h.right.made c hc).mapVar (hm.injOn.mono (h.right.clauses_lt c hc)), ?_⟩
    intro id hid
    obtain ⟨i, hi, rfl⟩ := Clause.mem_varIds_mapVar.mp hid
    exact hm.right_lt (h.right.clauses_lt c hc i hi)
  unfold rightClauses
  split
  · intro c hc
    rw [List.mem_singleton.mp hc]
    refine ⟨.block fun d hd => (hmapped d hd).1, ?_⟩
    intro id hid
    obtain ⟨d, hd, hid⟩ := Clause.mem_varIds_block.mp hid
    exact (hmapped d hd).2 id hid
  · exact hmapped

/-- The result columns of the composite are distinct: those that come from the right query
stand behind the left table. -/
theorem Merged.columns_nodup (hm : p.Merged t places) (h : p.WellFormed) (mode : JoinMode) :
    (p.composite mode t places).projections.Nodup := by
  refine List.nodup_append.mpr ⟨h.left.projections_nodup, ?_, ?_⟩
  · refine (h.right.projections_nodup.filter _).map_on ?_
    intro b hb b' hb' heq
    exact hm.injOn (h.right.projections_lt b (List.mem_of_mem_filter hb))
      (h.right.projections_lt b' (List.mem_of_mem_filter hb')) heq
  · intro a ha _ hmapped heq
    subst heq
    obtain ⟨b, hb, rfl⟩ := List.mem_map.mp hmapped
    have hbehind := (List.mem_filter.mp hb).2
    have hlt := h.left.projections_lt _ ha
    simp only [Bool.and_eq_true, decide_eq_true_eq] at hbehind
    exact absurd hlt (Nat.not_lt.mpr hbehind.2)

/-- **A composite is well formed.** -/
theorem Merged.composite_wellFormed (hm : p.Merged t places) (h : p.WellFormed)
    (mode : JoinMode) : (p.composite mode t places).WellFormed where
  table := hm.sound
  projections_nodup := hm.columns_nodup h mode
  projections_lt := by
    intro id hid
    rcases List.mem_append.mp hid with hid | hid
    · exact hm.left_lt (h.left.projections_lt id hid)
    · obtain ⟨b, hb, rfl⟩ := List.mem_map.mp hid
      exact hm.right_lt (h.right.projections_lt b (List.mem_of_mem_filter hb))
  order_lt := by
    intro k hk
    rcases List.mem_append.mp hk with hk | hk
    · exact hm.left_lt (h.left.order_lt k hk)
    · obtain ⟨k', hk', rfl⟩ := List.mem_map.mp hk
      exact hm.right_lt (h.right.order_lt k' hk')
  made := by
    intro c hc
    rcases List.mem_append.mp hc with hc | hc
    · exact h.left.made c hc
    · exact (hm.rightClauses_made h mode c hc).1
  clauses_lt := by
    intro c hc id hid
    rcases List.mem_append.mp hc with hc | hc
    · exact hm.left_lt (h.left.clauses_lt c hc id hid)
    · exact (hm.rightClauses_made h mode c hc).2 id hid
  endpoints_nodup := (firstOccurrences_distinct _).nodup
  active_mem := by
    intro e he
    refine mem_foldl_appendNew.mpr (Or.inr (List.mem_append_left _ ?_))
    exact Option.mem_toList.mpr he

/-! ### Running a join -/

/-- Exchanging the places of the left query changes nothing. -/
theorem placeIn_range' (n : Nat) : Query.placeIn (List.range' 0 n) = fun id => id := by
  funext id
  by_cases h : id < n <;> simp [Query.placeIn, h]

section Loops

variable {q : Query}

/-- The result columns of both queries are copied. -/
theorem Merged.columns_eq_ok (hm : p.Merged t places) (h : p.WellFormed) (mode : JoinMode)
    (hq : q.table = t) (hnone : q.projections = []) :
    (p.left.projections.foldlM
        (Query.projectMapped (List.range' 0 p.left.table.size) fun _ _ => true) q >>= fun q =>
      p.right.projections.foldlM (Query.projectMapped places fun id mapped =>
        id != p.rightId && decide (p.left.table.size ≤ mapped)) q) =
      .ok { q with projections := (p.composite mode t places).projections } := by
  subst hq
  have hleft : p.left.projections.foldlM
      (Query.projectMapped (List.range' 0 p.left.table.size) fun _ _ => true) q =
        .ok { q with projections := p.left.projections } := by
    rw [Query.foldlM_projectMapped (by simpa using h.left.projections_lt)
      (by simpa using fun i hi => hm.left_lt hi), hnone, placeIn_range', List.map_id',
      foldl_appendNew_of_nodup (by simpa using h.left.projections_nodup)]
    simp
  have hright : p.right.projections.foldlM (Query.projectMapped places fun id mapped =>
        id != p.rightId && decide (p.left.table.size ≤ mapped))
        { q with projections := p.left.projections } =
      .ok { q with projections := (p.composite mode q.table places).projections } := by
    refine (Query.foldlM_projectMapped (hm.length ▸ h.right.projections_lt)
      (by exact hm.lt)).trans ?_
    exact congrArg (fun l => Except.ok { q with projections := l })
      (foldl_appendNew_of_nodup (hm.columns_nodup h mode))
  rw [hleft, Outcome.ok_bind, hright]

/-- The clauses of the left query are copied. -/
theorem Merged.leftClauses_eq_ok (hm : p.Merged t places) (h : p.WellFormed) (hq : q.table = t)
    (hnone : q.clauses = []) :
    p.left.clauses.foldlM (fun q c => do
        q.pushClause (← Query.mapClause (List.range' 0 p.left.table.size) c)) q =
      .ok { q with clauses := p.left.clauses } := by
  subst hq
  rw [Query.foldlM_pushClause (g := fun c => c), List.map_id', hnone, List.nil_append]
  · intro r _ c hc
    rw [Query.mapClause_eq_ok (by simpa using h.left.clauses_lt c hc), placeIn_range',
      Clause.mapVar_id]
    rfl
  · intro c hc
    refine (Query.checkClause_eq_ok_of_made (h.left.made c hc)).mpr ?_
    exact fun id hid => hm.left_lt (h.left.clauses_lt c hc id hid)

/-- The clauses of the right query are renamed. -/
theorem Merged.mapM_mapClause_eq_ok (hm : p.Merged t places) (h : p.WellFormed) :
    p.right.clauses.mapM (Query.mapClause places) =
      .ok (p.right.clauses.map (Clause.mapVar (Query.placeIn places))) := by
  rw [Outcome.mapM_eq_ok, List.forall₂_map_right_iff, List.forall₂_same]
  intro c hc
  exact Query.mapClause_eq_ok fun id hid => hm.length ▸ h.right.clauses_lt c hc id hid

/-- The clauses of the right query are copied, beside the others or in a block. -/
theorem Merged.pushRight_eq_ok (hm : p.Merged t places) (h : p.WellFormed) (requested : JoinMode)
    (hq : q.table = t) :
    p.right.pushRight (Query.effectiveMode p.left p.right requested)
        (p.right.clauses.map (Clause.mapVar (Query.placeIn places))) q =
      .ok { q with clauses := q.clauses ++
        p.rightClauses (Query.effectiveMode p.left p.right requested) places } := by
  subst hq
  have hcheck : ∀ mode, ∀ c ∈ p.rightClauses mode places, q.checkClause c = .ok () := by
    intro mode c hc
    obtain ⟨hmade, hlt⟩ := hm.rightClauses_made h mode c hc
    exact (Query.checkClause_eq_ok_of_made hmade).mpr hlt
  cases hmode : Query.effectiveMode p.left p.right requested with
  | inline =>
      have hpush := Query.foldlM_pushClause (f := Query.pushClause) (g := fun c => c)
        (fun _ _ _ _ => rfl) (hcheck .inline)
      rwa [List.map_id'] at hpush
  | service =>
      cases he : p.right.activeEndpoint with
      | none => simp [Query.effectiveMode, he] at hmode
      | some e =>
          have hblock : p.rightClauses .service places =
              [.block e (p.right.clauses.map (Clause.mapVar (Query.placeIn places)))] := by
            simp [rightClauses, he]
          have hpass := hcheck .service
          rw [hblock] at hpass ⊢
          simp only [Query.pushRight, he]
          exact Query.pushClause_eq_ok.mpr ⟨hpass _ (List.mem_singleton_self _), rfl⟩

/-- The order keys of both queries are copied. -/
theorem Merged.order_eq_ok (hm : p.Merged t places) (h : p.WellFormed) (mode : JoinMode)
    (hq : q.table = t) (hnone : q.order = []) :
    (p.left.order.foldlM (Query.pushMappedOrder (List.range' 0 p.left.table.size)) q >>= fun q =>
      p.right.order.foldlM (Query.pushMappedOrder places) q) =
      .ok { q with order := (p.composite mode t places).order } := by
  subst hq
  have hleft : p.left.order.foldlM
      (Query.pushMappedOrder (List.range' 0 p.left.table.size)) q =
        .ok { q with order := p.left.order } := by
    rw [Query.foldlM_pushMappedOrder (by simpa using h.left.order_lt)
      (by simpa using fun i hi => hm.left_lt hi), hnone, placeIn_range']
    simp
  rw [hleft, Outcome.ok_bind]
  exact Query.foldlM_pushMappedOrder (hm.length ▸ h.right.order_lt) hm.lt

end Loops

/-- **A join succeeds.**  Two well-formed queries are joined on any two of their variables and
in any mode; the answer is their composite. -/
theorem WellFormed.join_eq_ok (h : p.WellFormed) {leftName rightName : String}
    (hleft : p.left.resolve leftName = .ok p.leftId)
    (hright : p.right.resolve rightName = .ok p.rightId) (requested : JoinMode) :
    ∃ (t : OrderedMap Variable) (places : List Nat), p.Merged t places ∧
      Query.join ⟨p.left, leftName⟩ ⟨p.right, rightName⟩ requested =
        .ok (p.composite (Query.effectiveMode p.left p.right requested) t places,
          Query.effectiveMode p.left p.right requested) := by
  let q : Query :=
    { uri := "join(" ++ p.left.uri ++ "," ++ p.right.uri ++ ")"
      label := some (p.left.displayLabel ++ " ⋈ " ++ p.right.displayLabel) }
  obtain ⟨t, u, places, haddLeft, hsize, haddRight, hm⟩ := h.exists_merged q rfl
  refine ⟨u, places, hm, ?_⟩
  have hleftId : JoinOperand.variableId ⟨p.left, leftName⟩ = .ok p.leftId := by
    simp [JoinOperand.variableId, hleft]
  have hrightId : JoinOperand.variableId ⟨p.right, rightName⟩ = .ok p.rightId := by
    simp [JoinOperand.variableId, hright]
  have hshared : (List.range' 0 p.left.table.size)[p.leftId]? = some p.leftId := by
    simp [h.leftId_lt]
  unfold Query.join
  simp only [hleftId, hrightId, Outcome.ok_bind]
  change (Query.addLeft p.left p.right p.leftId p.rightId 0 p.left.table.values q >>= _) = _
  rw [haddLeft, Outcome.ok_bind]
  simp only [hshared, pure_bind, hsize]
  rw [haddRight, Outcome.ok_bind]
  rw [← bind_assoc, hm.columns_eq_ok h .inline rfl rfl, Outcome.ok_bind,
    hm.leftClauses_eq_ok h rfl rfl, Outcome.ok_bind, hm.mapM_mapClause_eq_ok h, Outcome.ok_bind,
    hm.pushRight_eq_ok h requested rfl, Outcome.ok_bind, ← bind_assoc,
    hm.order_eq_ok h .inline rfl rfl, Outcome.ok_bind]
  unfold composite
  cases p.left.activeEndpoint <;> cases p.right.activeEndpoint <;> rfl

end Pairing

end SparqlCompose
