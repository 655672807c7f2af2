import Mathlib
import SparqlCompose.Proofs.Join.CaptureFree
import SparqlCompose.Proofs.Solution

/-!
# What a join means

The solutions of a composite are the pairs of solutions of its operands that agree on the
variables that are identified (`Query.join_solutions`).  A solution of the composite is read
through the places of the left and of the right variables; in the other direction two solutions
that agree are glued together, which the places allow because no two right variables share one.

Both modes mean the same: a block for the endpoint of the right query is put up exactly when the
clauses would otherwise be asked of another endpoint.
-/

namespace SparqlCompose

/-- A slot without a blank node has no label. -/
theorem Term.label?_eq_none {t : Term} (h : t.isBlank = false) : t.label? = none := by
  cases t with
  | var id => rfl
  | resource r =>
      cases r with
      | iri text => rfl
      | blank label => cases h
  | literal l => rfl

/-- A place of the table has the value that the assignment gives it. -/
theorem valueAt_of_lt {n : Nat} (μ : Fin n → Constant) {id : Nat} (h : id < n) :
    valueAt μ id = some (μ ⟨id, h⟩) :=
  dif_pos h

/-- A query without values and blank nodes is solved when its clauses hold. -/
theorem Query.solution_iff {q : Query} (hu : q.Unbound) (hb : q.NoBlank) {D : Dataset}
    {μ : Fin q.table.size → Constant} (blanks : String → Constant) :
    q.Solution D μ ↔
      Clause.HoldsAll D (Term.value (valueAt μ) blanks) q.activeEndpoint q.clauses := by
  have hany : ∀ blanks', Clause.HoldsAll D (Term.value (valueAt μ) blanks') q.activeEndpoint
      q.clauses ↔
        Clause.HoldsAll D (Term.value (valueAt μ) blanks) q.activeEndpoint q.clauses := by
    intro blanks'
    refine Clause.holdsAll_congr _ _ fun p hp t ht => ?_
    exact Term.value_congr (fun _ _ => rfl) (by simp [Term.label?_eq_none (hb p hp t ht)])
  constructor
  · intro h
    obtain ⟨-, blanks', hholds⟩ := h
    exact (hany blanks').mp hholds
  · intro h
    refine ⟨?_, blanks, h⟩
    intro id v c hv hc
    rw [hu.of_at? hv] at hc
    cases hc

/-- Clauses whose places are exchanged by `f` hold under an assignment exactly when the clauses
themselves hold under the assignment read through `f`. -/
theorem Query.WellFormed.holdsAll_pull {q : Query} (h : q.WellFormed) (hb : q.NoBlank)
    {D : Dataset} {e : Option String} {n : Nat} {f : Nat → Nat}
    (hf : ∀ id < q.table.size, f id < n) (μ : Fin n → Constant) (blanks : String → Constant) :
    Clause.HoldsAll D (Term.value (valueAt μ) blanks) e (q.clauses.map (Clause.mapVar f)) ↔
      Clause.HoldsAll D
        (Term.value (valueAt fun i : Fin q.table.size => μ ⟨f i, hf i i.isLt⟩) blanks) e
        q.clauses := by
  rw [← Clause.mapVarAll_eq_map, Clause.holdsAll_mapVarAll]
  refine Clause.holdsAll_congr e q.clauses fun p hp t ht => ?_
  rw [Term.value_mapVar]
  refine Term.value_congr ?_ (by simp [Term.label?_eq_none (hb p hp t ht)])
  intro id hid
  have hlt : id < q.table.size := h.patterns_lt hp (List.mem_filterMap.mpr ⟨t, ht, hid⟩)
  rw [valueAt_of_lt _ (hf id hlt), valueAt_of_lt _ hlt]

namespace Pairing

variable {p : Pairing} {t : OrderedMap Variable} {places : List Nat} {mode : JoinMode}

/-- Two queries without values have a composite without values. -/
theorem Merged.composite_unbound (hm : p.Merged t places) (h : p.WellFormed)
    (hl : p.left.Unbound) (hr : p.right.Unbound) : (p.composite mode t places).Unbound := by
  obtain ⟨joined, hjoined⟩ := OrderedMap.exists_at? h.rightId_lt
  have hleft : ∀ a < p.left.table.size, ∀ v, t.at? a = some v → v.bound = none := by
    intro a ha v hv
    obtain ⟨u, hu⟩ := OrderedMap.exists_at? ha
    rw [hm.left a u hu] at hv
    obtain rfl := Option.some.inj hv
    unfold leftCopy
    rw [hjoined]
    split
    · simp [Query.sharedVariable, hl.of_at? hu, hr.of_at? hjoined]
    · exact hl.of_at? hu
  intro v hmem
  obtain ⟨i, hi⟩ := List.getElem?_of_mem hmem
  have hv : t.at? i = some v := (OrderedMap.at?_eq_getElem? t i).trans hi
  have hi : i < t.size := OrderedMap.lt_size_of_at? hv
  rcases hm.cover i hi with hlt | hmem
  · exact hleft i hlt v hv
  · obtain ⟨b, hb⟩ := List.getElem?_of_mem hmem
    cases hm.placed b i hb with
    | joined hright hleftId => exact hleft i (hleftId ▸ h.leftId_lt) v hv
    | unified hunified => exact hleft i hunified.left_lt v hv
    | @added w hw _ _ _ hat =>
        have hbound : w.bound = none := hr.of_at? hw
        obtain rfl := Option.some.inj (hat.symm.trans hv)
        exact hbound

/-- Two queries without blank nodes have a composite without blank nodes. -/
theorem composite_noBlank (hl : p.left.NoBlank) (hr : p.right.NoBlank) :
    (p.composite mode t places).NoBlank := by
  have hslot : ∀ u : Term, u.isBlank = false →
      (u.mapVar (Query.placeIn places)).isBlank = false := by
    intro u hu
    cases u with
    | var id => rfl
    | resource r => exact hu
    | literal l => rfl
  intro q hq u hu
  rw [composite_patterns] at hq
  rcases List.mem_append.mp hq with hq | hq
  · exact hl q hq u hu
  · obtain ⟨q, hq', rfl⟩ := List.mem_map.mp hq
    have hmem : u ∈ [q.subject, q.predicate, q.object].map (Term.mapVar (Query.placeIn places)) :=
      hu
    obtain ⟨u', hu', rfl⟩ := List.mem_map.mp hmem
    exact hslot u' (hr q hq' u' hu')

/-- Wherever the clauses of the right query stand in the composite, they are asked of the
endpoint of the right query, or of that of the left one if it has none. -/
theorem holdsAll_rightClauses {D : Dataset} {value : Term → Option Constant}
    (requested : JoinMode) :
    Clause.HoldsAll D value p.left.activeEndpoint
        (p.rightClauses (Query.effectiveMode p.left p.right requested) places) ↔
      Clause.HoldsAll D value (p.right.activeEndpoint <|> p.left.activeEndpoint)
        (p.right.clauses.map (Clause.mapVar (Query.placeIn places))) := by
  cases he : p.right.activeEndpoint with
  | none => simp [rightClauses, Query.effectiveMode, he]
  | some e =>
      by_cases hsame : p.left.activeEndpoint = some e
      · cases requested with
        | inline => simp [rightClauses, Query.effectiveMode, he, hsame]
        | service =>
            simp [rightClauses, Query.effectiveMode, he, hsame, Clause.HoldsAll, Clause.block,
              Clause.Holds]
      · simp [rightClauses, Query.effectiveMode, he, hsame, Clause.HoldsAll, Clause.block,
          Clause.Holds]

/-- The place of a left variable in the composite. -/
def Merged.leftMap (hm : p.Merged t places) : Fin p.left.table.size → Fin t.size :=
  fun a => ⟨a, hm.left_lt a.isLt⟩

/-- The place of a right variable in the composite. -/
def Merged.rightMap (hm : p.Merged t places) : Fin p.right.table.size → Fin t.size :=
  fun b => ⟨Query.placeIn places b, hm.right_lt b.isLt⟩

/-- The two assignments give the same values to variables that are identified. -/
def Agree (p : Pairing)
    (s : (Fin p.left.table.size → Constant) × (Fin p.right.table.size → Constant)) : Prop :=
  ∀ a b, p.Identified a.val b.val → s.1 a = s.2 b

/-- Two assignments that agree are the two sides of one. -/
theorem Merged.exists_glue (hm : p.Merged t places) (h : p.WellFormed)
    {s : (Fin p.left.table.size → Constant) × (Fin p.right.table.size → Constant)}
    (hs : p.Agree s) :
    ∃ μ : Fin t.size → Constant, μ ∘ hm.leftMap = s.1 ∧ μ ∘ hm.rightMap = s.2 := by
  have hcf := hm.captureFree h .inline
  have hvalue : ∀ i : Fin t.size, ∃ c, (∀ a, hm.leftMap a = i → c = s.1 a) ∧
      ∀ b, hm.rightMap b = i → c = s.2 b := by
    intro i
    by_cases hi : i.val < p.left.table.size
    · refine ⟨s.1 ⟨i, hi⟩, ?_, ?_⟩
      · intro a ha
        exact congrArg s.1 (Fin.ext (congrArg Fin.val ha).symm)
      · intro b hb
        exact hs _ b ((hcf.place_eq_iff i hi b b.isLt).mp (congrArg Fin.val hb))
    · rcases (hcf.covered i).mp i.isLt with hleft | hright
      · exact absurd hleft hi
      · obtain ⟨b, hb, hbi⟩ := hright
        refine ⟨s.2 ⟨b, hb⟩, ?_, ?_⟩
        · intro a ha
          exact absurd ((congrArg Fin.val ha).symm ▸ a.isLt) hi
        · intro b' hb'
          have hsame := hcf.place_injOn hb b'.isLt (hbi.trans (congrArg Fin.val hb').symm)
          exact congrArg s.2 (Fin.ext hsame)
  choose μ hleft hright using hvalue
  exact ⟨μ, funext fun a => hleft _ a rfl, funext fun b => hright _ b rfl⟩

/-- An assignment solves the composite exactly when its two sides solve the operands. -/
theorem Merged.solution_iff (hm : p.Merged t places) (h : p.WellFormed) {D : Dataset}
    (hlu : p.left.Unbound) (hru : p.right.Unbound) (hlb : p.left.NoBlank)
    (hrb : p.right.NoBlank) (requested : JoinMode)
    (hend : p.right.activeEndpoint.isSome ∨
      (p.left.activeEndpoint = none ∧ p.right.activeEndpoint = none))
    (μ : Fin t.size → Constant) :
    (p.composite (Query.effectiveMode p.left p.right requested) t places).Solution D μ ↔
      p.left.Solution D (μ ∘ hm.leftMap) ∧ p.right.Solution D (μ ∘ hm.rightMap) := by
  let blanks : String → Constant := fun _ => default
  refine (Query.solution_iff (hm.composite_unbound h hlu hru) (composite_noBlank hlb hrb)
    blanks).trans ?_
  rw [Query.solution_iff hlu hlb blanks, Query.solution_iff hru hrb blanks]
  have hleft : Clause.HoldsAll D (Term.value (valueAt μ) blanks) p.left.activeEndpoint
      p.left.clauses ↔
        Clause.HoldsAll D (Term.value (valueAt (μ ∘ hm.leftMap)) blanks) p.left.activeEndpoint
          p.left.clauses := by
    have hpull := h.left.holdsAll_pull hlb (D := D) (e := p.left.activeEndpoint)
      (f := fun a => a) (fun a ha => hm.left_lt ha) μ blanks
    rw [← Clause.mapVarAll_eq_map, Clause.mapVarAll_id] at hpull
    exact hpull
  have hright := h.right.holdsAll_pull hrb (D := D) (e := p.right.activeEndpoint)
    (f := Query.placeIn places) (fun b hb => hm.right_lt hb) μ blanks
  have hown : (p.right.activeEndpoint <|> p.left.activeEndpoint) = p.right.activeEndpoint := by
    rcases hend with hsome | ⟨hleftNone, hrightNone⟩
    · obtain ⟨e, he⟩ := Option.isSome_iff_exists.mp hsome
      rw [he]
      rfl
    · rw [hleftNone, hrightNone]
      rfl
  refine Clause.holdsAll_append.trans (and_congr hleft ?_)
  refine (holdsAll_rightClauses requested).trans ?_
  rw [hown]
  exact hright

/-- Read through the places of the variables, the solutions of a composite are the pairs of
solutions that agree. -/
theorem Merged.solutions_bijOn (hm : p.Merged t places) (h : p.WellFormed) (D : Dataset)
    (hlu : p.left.Unbound) (hru : p.right.Unbound) (hlb : p.left.NoBlank)
    (hrb : p.right.NoBlank) (requested : JoinMode)
    (hend : p.right.activeEndpoint.isSome ∨
      (p.left.activeEndpoint = none ∧ p.right.activeEndpoint = none)) :
    Set.BijOn (fun μ => (μ ∘ hm.leftMap, μ ∘ hm.rightMap))
      {μ | (p.composite (Query.effectiveMode p.left p.right requested) t places).Solution D μ}
      {s | p.left.Solution D s.1 ∧ p.right.Solution D s.2 ∧ p.Agree s} := by
  have hcf := hm.captureFree h .inline
  have hsol := hm.solution_iff h (D := D) hlu hru hlb hrb requested hend
  refine ⟨?_, ?_, ?_⟩
  · intro μ hμ
    obtain ⟨hleft, hright⟩ := (hsol μ).mp hμ
    refine ⟨hleft, hright, ?_⟩
    intro a b hid
    have hplace := (hcf.place_eq_iff a a.isLt b b.isLt).mpr hid
    exact congrArg μ (Fin.ext hplace.symm)
  · intro μ _ ν _ heq
    obtain ⟨hleft, hright⟩ := Prod.mk.inj heq
    funext i
    rcases (hcf.covered i).mp i.isLt with hi | hi
    · exact congrFun hleft ⟨i, hi⟩
    · obtain ⟨b, hb, hbi⟩ := hi
      have hplace : hm.rightMap ⟨b, hb⟩ = i := Fin.ext hbi
      rw [← hplace]
      exact congrFun hright ⟨b, hb⟩
  · intro s hs
    obtain ⟨hleft, hright, hagree⟩ := hs
    obtain ⟨μ, hμleft, hμright⟩ := hm.exists_glue h hagree
    refine ⟨μ, (hsol μ).mpr ⟨hμleft.symm ▸ hleft, hμright.symm ▸ hright⟩, ?_⟩
    exact Prod.ext hμleft hμright

end Pairing

/-- **A join keeps the meaning.**  Take two built queries without values and without blank
nodes, and let the right one have an endpoint if the left one has.  Whatever the triples of the
endpoints are and whatever mode is asked for, the solutions of the composite correspond, through
the places of the left and of the right variables, to the pairs of solutions that agree on the
variables that are identified. -/
theorem Query.join_solutions {l r : Query} (hl : l.Built) (hr : r.Built) {n m : String}
    {leftId rightId : VarId} (hn : l.resolve n = .ok leftId) (hm : r.resolve m = .ok rightId)
    (hlu : l.Unbound) (hru : r.Unbound) (hlb : l.NoBlank) (hrb : r.NoBlank)
    (hend : r.activeEndpoint.isSome ∨ (l.activeEndpoint = none ∧ r.activeEndpoint = none))
    (requested : JoinMode) :
    ∃ (q : Query) (place : VarId → VarId) (leftMap : Fin l.table.size → Fin q.table.size)
      (rightMap : Fin r.table.size → Fin q.table.size),
      Query.join ⟨l, n⟩ ⟨r, m⟩ requested = .ok (q, Query.effectiveMode l r requested) ∧
        (Pairing.mk l r leftId rightId).CaptureFree q place ∧
        (∀ a, (leftMap a).val = a.val) ∧ (∀ b, (rightMap b).val = place b.val) ∧
        ∀ D : Dataset, Set.BijOn (fun μ => (μ ∘ leftMap, μ ∘ rightMap)) {μ | q.Solution D μ}
          {s | l.Solution D s.1 ∧ r.Solution D s.2 ∧
            (Pairing.mk l r leftId rightId).Agree s} := by
  have hp := Pairing.wellFormed_of_resolve hl.wellFormed hr.wellFormed hn hm
  obtain ⟨t, places, hmerged, hjoin⟩ := hp.join_eq_ok hn hm requested
  refine ⟨Pairing.composite ⟨l, r, leftId, rightId⟩ (Query.effectiveMode l r requested) t places,
    Query.placeIn places, hmerged.leftMap, hmerged.rightMap, hjoin, hmerged.captureFree hp _,
    fun _ => rfl, fun _ => rfl, ?_⟩
  intro D
  exact hmerged.solutions_bijOn hp D hlu hru hlb hrb requested hend

/-- The two examples are joined on `id`; the cities go to a block of their own. -/
theorem Query.join_solutions_people_cities :
    peopleQuery.Unbound ∧ citiesQuery.Unbound ∧ peopleQuery.NoBlank ∧ citiesQuery.NoBlank ∧
      ∃ (q : Query) (place : VarId → VarId)
        (leftMap : Fin peopleQuery.table.size → Fin q.table.size)
        (rightMap : Fin citiesQuery.table.size → Fin q.table.size),
        Query.join ⟨peopleQuery, "id"⟩ ⟨citiesQuery, "id"⟩ .inline = .ok (q, .service) ∧
          (Pairing.mk peopleQuery citiesQuery 0 1).CaptureFree q place ∧
          (∀ a, (leftMap a).val = a.val) ∧ (∀ b, (rightMap b).val = place b.val) ∧
          ∀ D : Dataset, Set.BijOn (fun μ => (μ ∘ leftMap, μ ∘ rightMap)) {μ | q.Solution D μ}
            {s | peopleQuery.Solution D s.1 ∧ citiesQuery.Solution D s.2 ∧
              (Pairing.mk peopleQuery citiesQuery 0 1).Agree s} := by
  have hlu : peopleQuery.Unbound := by unfold Query.Unbound; decide +kernel
  have hru : citiesQuery.Unbound := by unfold Query.Unbound; decide +kernel
  have hlb : peopleQuery.NoBlank := by unfold Query.NoBlank; decide +kernel
  have hrb : citiesQuery.NoBlank := by unfold Query.NoBlank; decide +kernel
  exact ⟨hlu, hru, hlb, hrb, Query.join_solutions peopleQuery_built citiesQuery_built rfl rfl
    hlu hru hlb hrb (Or.inl rfl) .inline⟩

end SparqlCompose
