import Mathlib
import SparqlCompose.Catalog.Concept
import SparqlCompose.Proofs.Graph.Collection
import SparqlCompose.Proofs.WellFormed
import SparqlCompose.Sparql.Select
import SparqlCompose.Spin.Read

/-!
# Queries that are read are well formed

A query comes from a description in a graph, from a text or from a class.  Each of the three
readers starts with an empty query and performs operations on it; between the operations it
only makes patterns, blocks and literals by their constructors.  So every step of a reader keeps
the query well formed, and what it answers can be added as a clause.
-/

namespace SparqlCompose

/-! ### Reading a description -/

/-- An IRI is read when it is absolute, and as it stands. -/
theorem checkIri_eq_ok {text text' : String} :
    checkIri text = .ok text' ↔ Iri.isAbsolute text = true ∧ text' = text := by
  unfold checkIri
  split
  · next habsolute => simp [habsolute, eq_comm]
  · next hno => simp [hno]

namespace Spin.Source

variable {src : Source} {q q' : Query}

/-- A result column is read exactly when the member is the node of a variable. -/
theorem readColumn_eq_ok {member : Constant} :
    src.readColumn q member = .ok q' ↔
      ∃ node name id isNew r, member = .resource node ∧
        src.graph.object? node (Vocabulary.sp "expression") = none ∧
        src.variableName? node = some name ∧
        q.internVariable (src.variableOf node name) = .ok (id, r) ∧
        r.project id = .ok (isNew, q') := by
  cases member with
  | literal l => simp [readColumn, nodeOf]
  | resource node =>
      simp only [readColumn, nodeOf, Outcome.ok_bind]
      cases hexpr : src.graph.object? node (Vocabulary.sp "expression") with
      | some e =>
          simp only [Option.isSome_some, if_true]
          constructor
          · intro habsurd
            cases habsurd
          · intro hparts
            obtain ⟨node', name, id, isNew, r, ⟨⟩, hnone, -⟩ := hparts
            rw [hexpr] at hnone
            cases hnone
      | none =>
          cases hname : src.variableName? node with
          | none =>
              simp only [Option.isSome_none, Bool.false_eq_true, if_false]
              constructor
              · intro habsurd
                cases habsurd
              · intro hparts
                obtain ⟨node', name, id, isNew, r, ⟨⟩, -, hsome, -⟩ := hparts
                rw [hname] at hsome
                cases hsome
          | some name =>
              simp only [Option.isSome_none, Bool.false_eq_true, if_false]
              constructor
              · intro hok
                obtain ⟨⟨id, r⟩, hintern, hok⟩ := Outcome.bind_eq_ok.mp hok
                obtain ⟨⟨isNew, r'⟩, hproject, hok⟩ := Outcome.bind_eq_ok.mp hok
                obtain rfl := Except.ok.inj hok
                exact ⟨node, name, id, isNew, r, rfl, hexpr, hname,
                  Outcome.mapError_eq_ok.mp hintern, Outcome.mapError_eq_ok.mp hproject⟩
              · intro hparts
                obtain ⟨node', name', id, isNew, r, ⟨⟩, -, hname', hintern, hproject⟩ := hparts
                obtain rfl := Option.some.inj (hname.symm.trans hname')
                exact Outcome.bind_eq_ok.mpr ⟨(id, r), Outcome.mapError_eq_ok.mpr hintern,
                  Outcome.bind_eq_ok.mpr ⟨(isNew, q'), Outcome.mapError_eq_ok.mpr hproject, rfl⟩⟩

/-- A pattern is read exactly when the member is a node of no other type and has three slots
that make a pattern. -/
theorem readPattern_eq_ok {member : Constant} :
    src.readPattern q member = .ok q' ↔
      ∃ node s q₁ p q₂ o q₃ pattern, member = .resource node ∧
        (∀ t ∈ src.graph.objects node Vocabulary.rdfType,
          t.iri? = some (Vocabulary.sp "TriplePattern")) ∧
        src.readSlot node (Vocabulary.sp "subject") q = .ok (s, q₁) ∧
        src.readSlot node (Vocabulary.sp "predicate") q₁ = .ok (p, q₂) ∧
        src.readSlot node (Vocabulary.sp "object") q₂ = .ok (o, q₃) ∧
        Pattern.make s p o = .ok pattern ∧ q₃.pushClause (.pattern pattern) = .ok q' := by
  cases member with
  | literal l => simp [readPattern, nodeOf]
  | resource node =>
      have htypes : (src.graph.objects node Vocabulary.rdfType).find?
            (·.iri? != some (Vocabulary.sp "TriplePattern")) = none ↔
          ∀ t ∈ src.graph.objects node Vocabulary.rdfType,
            t.iri? = some (Vocabulary.sp "TriplePattern") := by
        simp [List.find?_eq_none]
      simp only [readPattern, nodeOf, Outcome.ok_bind]
      constructor
      · intro hok
        split at hok
        · cases hok
        · next hnone =>
            obtain ⟨⟨s, q₁⟩, hs, hok⟩ := Outcome.bind_eq_ok.mp hok
            obtain ⟨⟨p, q₂⟩, hp, hok⟩ := Outcome.bind_eq_ok.mp hok
            obtain ⟨⟨o, q₃⟩, ho, hok⟩ := Outcome.bind_eq_ok.mp hok
            obtain ⟨pattern, hmake, hpush⟩ := Outcome.bind_eq_ok.mp (Outcome.mapError_eq_ok.mp hok)
            exact ⟨node, s, q₁, p, q₂, o, q₃, pattern, rfl, htypes.mp hnone, hs, hp, ho, hmake,
              hpush⟩
      · intro hparts
        obtain ⟨node', s, q₁, p, q₂, o, q₃, pattern, ⟨⟩, hnone, hs, hp, ho, hmake, hpush⟩ := hparts
        rw [htypes.mpr hnone]
        exact Outcome.bind_eq_ok.mpr ⟨(s, q₁), hs, Outcome.bind_eq_ok.mpr ⟨(p, q₂), hp,
          Outcome.bind_eq_ok.mpr ⟨(o, q₃), ho, Outcome.mapError_eq_ok.mpr
            (Outcome.bind_eq_ok.mpr ⟨pattern, hmake, hpush⟩)⟩⟩⟩

/-- Reading a result column keeps the query well formed. -/
theorem readColumn_wellFormed {member : Constant} (h : q.WellFormed)
    (hok : src.readColumn q member = .ok q') : q'.WellFormed := by
  obtain ⟨node, name, id, isNew, r, -, -, -, hintern, hproject⟩ := readColumn_eq_ok.mp hok
  have hr := h.internVariable (by simp [variableOf]) hintern
  exact (hr.1.project hproject).1

/-- Reading a slot keeps the query well formed; a literal in the slot is as its constructors
make it. -/
theorem readSlot_wellFormed {node : Resource} {predicate : String} {t : Term}
    (h : q.WellFormed) (hok : src.readSlot node predicate q = .ok (t, q')) :
    q'.WellFormed ∧ t.IsNormal := by
  obtain ⟨value, -, hterm⟩ := Outcome.bind_eq_ok.mp hok
  unfold readTerm at hterm
  split at hterm
  · next l =>
      obtain ⟨rfl, rfl⟩ := Prod.mk.inj (Except.ok.inj hterm)
      exact ⟨h, l.isNormal_normal⟩
  · split at hterm
    · obtain ⟨⟨id, r⟩, hintern, hterm⟩ := Outcome.bind_eq_ok.mp hterm
      obtain ⟨rfl, rfl⟩ := Prod.mk.inj (Except.ok.inj hterm)
      have hr := h.internVariable (by simp [variableOf]) (Outcome.mapError_eq_ok.mp hintern)
      exact ⟨hr.1, trivial⟩
    · split at hterm
      all_goals
        obtain ⟨rfl, rfl⟩ := Prod.mk.inj (Except.ok.inj hterm)
        exact ⟨h, trivial⟩

/-- Reading a pattern keeps the query well formed. -/
theorem readPattern_wellFormed {member : Constant} (h : q.WellFormed)
    (hok : src.readPattern q member = .ok q') : q'.WellFormed := by
  obtain ⟨node, s, q₁, p, q₂, o, q₃, pattern, -, -, hs, hp, ho, hmake, hpush⟩ :=
    readPattern_eq_ok.mp hok
  have h₁ := (readSlot_wellFormed h hs).1
  have h₂ := (readSlot_wellFormed h₁ hp).1
  obtain ⟨h₃, hnormal⟩ := readSlot_wellFormed h₂ ho
  exact (h₃.pushClause (.pattern hnormal hmake) hpush).1

/-- An order key is read by adding one to the query. -/
theorem exists_pushOrder_of_readKey {member : Constant} (hok : src.readKey q member = .ok q') :
    ∃ k, q.pushOrder k = .ok q' := by
  unfold readKey at hok
  obtain ⟨node, -, hok⟩ := Outcome.bind_eq_ok.mp hok
  obtain ⟨⟨direction, c⟩, -, hok⟩ := Outcome.bind_eq_ok.mp hok
  obtain ⟨id, -, hpush⟩ := Outcome.bind_eq_ok.mp (Outcome.mapError_eq_ok.mp hok)
  exact ⟨_, hpush⟩

/-- Reading an order key keeps the query well formed. -/
theorem readKey_wellFormed {member : Constant} (h : q.WellFormed)
    (hok : src.readKey q member = .ok q') : q'.WellFormed := by
  obtain ⟨k, hpush⟩ := exists_pushOrder_of_readKey hok
  exact (h.pushOrder hpush).1

/-- An order key changes neither the variables nor the patterns. -/
theorem readKey_keeps {member : Constant} (hok : src.readKey q member = .ok q') :
    q'.table = q.table ∧ q'.clauses = q.clauses := by
  obtain ⟨k, hpush⟩ := exists_pushOrder_of_readKey hok
  obtain ⟨-, rfl⟩ := Query.pushOrder_eq_ok.mp hpush
  exact ⟨rfl, rfl⟩

/-- A list that is read within a limit is read within a higher one. -/
theorem members_of_le {g : Graph} {uri : String} {limit limit' : Nat} (hle : limit ≤ limit')
    {node : Resource} {predicate : String} {ms : List Constant}
    (h : members ⟨g, uri, limit⟩ node predicate = .ok ms) :
    members ⟨g, uri, limit'⟩ node predicate = .ok ms := by
  unfold members at h ⊢
  simp only at h ⊢
  split at h
  · exact Outcome.mapError_eq_ok.mpr (Graph.collect_of_le hle (Outcome.mapError_eq_ok.mp h))
  · exact h

end Spin.Source

namespace Graph

open Spin

variable {g : Graph} {uri : String} {q : Query}

/-- A query is read from three lists, one after the other. -/
theorem readQuery_eq_ok_iff {limit : Nat} :
    g.readQuery uri limit = .ok q ↔
      (Iri.isAbsolute uri = true ∧ checkType g (.iri uri) = .ok () ∧
        modifiers.forM (checkModifier g (.iri uri)) = .ok ()) ∧
      ∃ columns patterns keys,
        (Source.members ⟨g, uri, limit⟩ (.iri uri) (Vocabulary.sp "resultVariables") =
            .ok columns ∧
          Source.members ⟨g, uri, limit⟩ (.iri uri) (Vocabulary.sp "where") = .ok patterns ∧
          Source.members ⟨g, uri, limit⟩ (.iri uri) (Vocabulary.sp "orderBy") = .ok keys) ∧
        ∃ q₁ q₂,
          columns.foldlM (Source.readColumn ⟨g, uri, limit⟩)
              { uri := uri
                label := g.literal? (.iri uri) Vocabulary.rdfsLabel
                comment := g.literal? (.iri uri) Vocabulary.rdfsComment } = .ok q₁ ∧
          patterns.foldlM (Source.readPattern ⟨g, uri, limit⟩) q₁ = .ok q₂ ∧
          keys.foldlM (Source.readKey ⟨g, uri, limit⟩) q₂ = .ok q := by
  unfold readQuery
  constructor
  · intro hok
    obtain ⟨text, htext, hok⟩ := Outcome.bind_eq_ok.mp hok
    obtain ⟨habsolute, rfl⟩ := checkIri_eq_ok.mp (Outcome.mapError_eq_ok.mp htext)
    obtain ⟨htype, hok⟩ := Outcome.check_bind_eq_ok.mp hok
    obtain ⟨hmodifiers, hok⟩ := Outcome.check_bind_eq_ok.mp hok
    obtain ⟨columns, hcolumns, hok⟩ := Outcome.bind_eq_ok.mp hok
    obtain ⟨q₁, hq₁, hok⟩ := Outcome.bind_eq_ok.mp hok
    obtain ⟨patterns, hpatterns, hok⟩ := Outcome.bind_eq_ok.mp hok
    obtain ⟨q₂, hq₂, hok⟩ := Outcome.bind_eq_ok.mp hok
    obtain ⟨keys, hkeys, hok⟩ := Outcome.bind_eq_ok.mp hok
    exact ⟨⟨habsolute, htype, hmodifiers⟩, columns, patterns, keys,
      ⟨hcolumns, hpatterns, hkeys⟩, q₁, q₂, hq₁, hq₂, hok⟩
  · rintro ⟨⟨habsolute, htype, hmodifiers⟩, columns, patterns, keys,
      ⟨hcolumns, hpatterns, hkeys⟩, q₁, q₂, hq₁, hq₂, hq⟩
    have huri : SpinError.ofTerm (checkIri uri) = .ok uri :=
      Outcome.mapError_eq_ok.mpr (checkIri_eq_ok.mpr ⟨habsolute, rfl⟩)
    simp only [huri, Outcome.ok_bind]
    rw [htype, Outcome.ok_bind, hmodifiers, Outcome.ok_bind, hcolumns, Outcome.ok_bind, hq₁,
      Outcome.ok_bind, hpatterns, Outcome.ok_bind, hq₂, Outcome.ok_bind, hkeys, Outcome.ok_bind,
      hq]

/-- A query that is read from a description is well formed. -/
theorem readQuery_wellFormed {limit : Nat} (hok : g.readQuery uri limit = .ok q) :
    q.WellFormed := by
  obtain ⟨-, columns, patterns, keys, -, q₁, q₂, hcolumns, hpatterns, hkeys⟩ :=
    readQuery_eq_ok_iff.mp hok
  have h₁ : q₁.WellFormed := Outcome.foldlM_preserves Query.WellFormed
    (fun _ _ _ _ h hstep => Source.readColumn_wellFormed h hstep)
    (Query.WellFormed.ofNotes _ _ _) hcolumns
  have h₂ : q₂.WellFormed := Outcome.foldlM_preserves Query.WellFormed
    (fun _ _ _ _ h hstep => Source.readPattern_wellFormed h hstep) h₁ hpatterns
  exact Outcome.foldlM_preserves Query.WellFormed
    (fun _ _ _ _ h hstep => Source.readKey_wellFormed h hstep) h₂ hkeys

/-- What is read with short lists is read with longer ones. -/
theorem readQuery_of_le {limit limit' : Nat} (hle : limit ≤ limit')
    (h : g.readQuery uri limit = .ok q) : g.readQuery uri limit' = .ok q := by
  obtain ⟨hroot, columns, patterns, keys, ⟨hcolumns, hpatterns, hkeys⟩, hread⟩ :=
    readQuery_eq_ok_iff.mp h
  exact readQuery_eq_ok_iff.mpr ⟨hroot, columns, patterns, keys,
    ⟨Source.members_of_le hle hcolumns, Source.members_of_le hle hpatterns,
      Source.members_of_le hle hkeys⟩, hread⟩

end Graph

/-! ### Reading a text -/

namespace Sparql

variable {q q' : Query}

/-- Looking up a name, or adding it, keeps the query well formed. -/
theorem intern_wellFormed {name : String} {id : VarId} (h : q.WellFormed)
    (hok : intern q name = .ok (id, q')) : q'.WellFormed :=
  (h.internVariable (by simp) (Outcome.mapError_eq_ok.mp hok)).1

/-- Reading a node keeps the query well formed, and the slot that comes of it is as its constructors
make it. -/
theorem readNode_wellFormed {n : Node} {t : Term} (h : q.WellFormed)
    (hok : readNode q n = .ok (t, q')) : q'.WellFormed ∧ t.IsNormal := by
  cases n with
  | var name =>
      obtain ⟨⟨id, r⟩, hintern, hok⟩ := Outcome.bind_eq_ok.mp hok
      obtain ⟨rfl, rfl⟩ := Prod.mk.inj (Except.ok.inj hok)
      exact ⟨intern_wellFormed h hintern, trivial⟩
  | resource r =>
      obtain ⟨rfl, rfl⟩ := Prod.mk.inj (Except.ok.inj hok)
      exact ⟨h, trivial⟩
  | literal l =>
      obtain ⟨rfl, rfl⟩ := Prod.mk.inj (Except.ok.inj hok)
      exact ⟨h, l.isNormal_normal⟩

/-- Reading a triple pattern keeps the query well formed, and the clause is made. -/
theorem readTriple_wellFormed {t : TriplePattern} {c : Clause} (h : q.WellFormed)
    (hok : readTriple q t = .ok (c, q')) : q'.WellFormed ∧ c.Made := by
  obtain ⟨⟨s, q₁⟩, hs, hok⟩ := Outcome.bind_eq_ok.mp hok
  obtain ⟨⟨p, q₂⟩, hp, hok⟩ := Outcome.bind_eq_ok.mp hok
  obtain ⟨⟨o, q₃⟩, ho, hok⟩ := Outcome.bind_eq_ok.mp hok
  obtain ⟨pattern, hmake, hok⟩ := Outcome.bind_eq_ok.mp hok
  obtain ⟨rfl, rfl⟩ := Prod.mk.inj (Except.ok.inj hok)
  have h₁ := (readNode_wellFormed h hs).1
  have h₂ := (readNode_wellFormed h₁ hp).1
  obtain ⟨h₃, hnormal⟩ := readNode_wellFormed h₂ ho
  exact ⟨h₃, .pattern hnormal (Outcome.mapError_eq_ok.mp hmake)⟩

/-- So does reading triple patterns one after the other. -/
theorem readTriples_wellFormed {ts : List TriplePattern} {cs : List Clause} (h : q.WellFormed)
    (hok : readTriples q ts = .ok (cs, q')) : q'.WellFormed ∧ ∀ c ∈ cs, c.Made := by
  induction ts generalizing q cs q' with
  | nil =>
      obtain ⟨rfl, rfl⟩ := Prod.mk.inj (Except.ok.inj hok)
      exact ⟨h, by simp⟩
  | cons t ts ih =>
      obtain ⟨⟨c, q₁⟩, ht, hok⟩ := Outcome.bind_eq_ok.mp hok
      obtain ⟨⟨ds, q₂⟩, hts, hok⟩ := Outcome.bind_eq_ok.mp hok
      obtain ⟨rfl, rfl⟩ := Prod.mk.inj (Except.ok.inj hok)
      obtain ⟨h₁, hc⟩ := readTriple_wellFormed h ht
      obtain ⟨h₂, hds⟩ := ih h₁ hts
      exact ⟨h₂, List.forall_mem_cons.mpr ⟨hc, hds⟩⟩

/-- Reading the clauses of a pattern keeps the query well formed, and the clauses are made. -/
theorem readClauses_wellFormed {a : Algebra} {cs : List Clause} (h : q.WellFormed)
    (hok : readClauses q a = .ok (cs, q')) : q'.WellFormed ∧ ∀ c ∈ cs, c.Made := by
  fun_induction readClauses q a generalizing cs q' with
  | case1 q ts => exact readTriples_wellFormed h hok
  | case2 q l r ihl ihr =>
      obtain ⟨⟨ds, q₁⟩, hl, hok⟩ := Outcome.bind_eq_ok.mp hok
      obtain ⟨⟨es, q₂⟩, hr, hok⟩ := Outcome.bind_eq_ok.mp hok
      obtain ⟨rfl, rfl⟩ := Prod.mk.inj (Except.ok.inj hok)
      obtain ⟨h₁, hds⟩ := ihl h hl
      obtain ⟨h₂, hes⟩ := ihr q₁ h₁ hr
      exact ⟨h₂, List.forall_mem_append.mpr ⟨hds, hes⟩⟩
  | case3 q e p ih =>
      obtain ⟨⟨ds, q₁⟩, hp, hok⟩ := Outcome.bind_eq_ok.mp hok
      obtain ⟨rfl, rfl⟩ := Prod.mk.inj (Except.ok.inj hok)
      obtain ⟨h₁, hds⟩ := ih h hp
      refine ⟨h₁, ?_⟩
      intro c hc
      exact List.mem_singleton.mp hc ▸ .block hds
  | case4 q p => cases hok

/-- The values that a text gives to variables are as their constructors make them. -/
theorem bindings_isNormal {a body : Algebra} {bs : List (String × Constant)}
    (hok : bindings a = .ok (bs, body)) : ∀ b ∈ bs, b.2.IsNormal := by
  fun_induction bindings a generalizing bs body with
  | case1 p v e c hc ih =>
      obtain ⟨⟨bs', body'⟩, hp, hok⟩ := Outcome.bind_eq_ok.mp hok
      obtain ⟨rfl, rfl⟩ := Prod.mk.inj (Except.ok.inj hok)
      refine List.forall_mem_append.mpr ⟨ih hp, ?_⟩
      intro b hb
      exact List.mem_singleton.mp hb ▸ c.isNormal_normal
  | case2 p v e hnone => cases hok
  | case3 p hother =>
      obtain ⟨rfl, -⟩ := Prod.mk.inj (Except.ok.inj hok)
      simp

/-- Naming a result column keeps the query well formed. -/
theorem readColumn_wellFormed {name : String} (h : q.WellFormed)
    (hok : readColumn q name = .ok q') : q'.WellFormed := by
  obtain ⟨⟨id, r⟩, hintern, hok⟩ := Outcome.bind_eq_ok.mp hok
  obtain ⟨⟨isNew, r'⟩, hproject, hok⟩ := Outcome.bind_eq_ok.mp hok
  obtain rfl := Except.ok.inj hok
  exact ((intern_wellFormed h hintern).project (Outcome.mapError_eq_ok.mp hproject)).1

/-- Giving a variable its value keeps the query well formed. -/
theorem readBinding_wellFormed {b : String × Constant} (hb : b.2.IsNormal) (h : q.WellFormed)
    (hok : readBinding q b = .ok q') : q'.WellFormed := by
  obtain ⟨⟨id, r⟩, hintern, hok⟩ := Outcome.bind_eq_ok.mp hok
  obtain ⟨⟨old, r'⟩, hset, hok⟩ := Outcome.bind_eq_ok.mp hok
  obtain rfl := Except.ok.inj hok
  have hvalue : ∀ c, some b.2 = some c → c.IsNormal := by
    intro c habsurd
    cases habsurd
    exact hb
  exact ((intern_wellFormed h hintern).setBound hvalue (Outcome.mapError_eq_ok.mp hset)).1

/-- Reading an order key keeps the query well formed. -/
theorem readKey_wellFormed {k : Direction × Expr} (h : q.WellFormed)
    (hok : readKey q k = .ok q') : q'.WellFormed := by
  unfold readKey at hok
  split at hok
  · split at hok
    · exact (h.pushOrder (Outcome.mapError_eq_ok.mp hok)).1
    · cases hok
  · cases hok

/-- The query for a projection is well formed, since it is built from nothing step by step. -/
theorem readProjection_wellFormed {uri : String} {p : Algebra} {columns : List String}
    (hok : readProjection uri p columns = .ok q) : q.WellFormed := by
  obtain ⟨⟨outer, p₁⟩, houter, hok⟩ := Outcome.bind_eq_ok.mp hok
  obtain ⟨⟨inner, p₂⟩, hinner, hok⟩ := Outcome.bind_eq_ok.mp hok
  obtain ⟨q₁, hcolumns, hok⟩ := Outcome.bind_eq_ok.mp hok
  obtain ⟨q₂, hbindings, hok⟩ := Outcome.bind_eq_ok.mp hok
  obtain ⟨⟨cs, q₃⟩, hclauses, hok⟩ := Outcome.bind_eq_ok.mp hok
  obtain ⟨q₄, hpush, hkeys⟩ := Outcome.bind_eq_ok.mp hok
  have hvalues : ∀ b ∈ outer ++ inner, b.2.IsNormal :=
    List.forall_mem_append.mpr ⟨bindings_isNormal houter, bindings_isNormal hinner⟩
  have h₁ : q₁.WellFormed := Outcome.foldlM_preserves Query.WellFormed
    (fun _ _ _ _ h hstep => readColumn_wellFormed h hstep)
    (Query.WellFormed.ofNotes uri none none) hcolumns
  have h₂ : q₂.WellFormed := Outcome.foldlM_preserves Query.WellFormed
    (fun _ b hb _ h hstep => readBinding_wellFormed (hvalues b hb) h hstep) h₁ hbindings
  obtain ⟨h₃, hmade⟩ := readClauses_wellFormed h₂ hclauses
  have h₄ : q₄.WellFormed := Outcome.foldlM_preserves Query.WellFormed
    (fun _ c hc _ h hstep => (h.pushClause (hmade c hc) (Outcome.mapError_eq_ok.mp hstep)).1)
    h₃ hpush
  exact Outcome.foldlM_preserves Query.WellFormed
    (fun _ _ _ _ h hstep => readKey_wellFormed h hstep) h₄ hkeys

/-- So is the query for any algebra that is accepted. -/
theorem readAlgebra_wellFormed {uri : String} {a : Algebra} {slice : Slice}
    (hok : readAlgebra uri a = .ok (q, slice)) : q.WellFormed := by
  fun_induction readAlgebra uri a generalizing q slice with
  | case1 p start length ih =>
      obtain ⟨⟨r, s⟩, hp, hok⟩ := Outcome.bind_eq_ok.mp hok
      obtain ⟨rfl, -⟩ := Prod.mk.inj (Except.ok.inj hok)
      exact ih hp
  | case2 p columns =>
      obtain ⟨r, hr, hok⟩ := Outcome.bind_eq_ok.mp hok
      obtain ⟨rfl, -⟩ := Prod.mk.inj (Except.ok.inj hok)
      exact readProjection_wellFormed hr
  | case3 => cases hok
  | case4 => cases hok
  | case5 => cases hok

end Sparql

/-- A query that is read from a text is well formed. -/
theorem Query.ofText_wellFormed {text uri : String} {q : Query} {slice : Slice}
    (hok : Query.ofText text uri = .ok (q, slice)) : q.WellFormed := by
  unfold Query.ofText at hok
  split at hok
  · cases hok
  · cases hok
  · cases hok
  · exact Sparql.readAlgebra_wellFormed hok

/-! ### The query of a class -/

/-- The query for the instances of a class is well formed. -/
theorem Concept.template_wellFormed {c : Concept} {q : Query} (hok : c.template = .ok q) :
    q.WellFormed := by
  obtain ⟨⟨id, q₁⟩, hadd, hok⟩ := Outcome.bind_eq_ok.mp hok
  obtain ⟨⟨isNew, q₂⟩, hproject, hok⟩ := Outcome.bind_eq_ok.mp hok
  obtain ⟨pattern, hmake, hok⟩ := Outcome.bind_eq_ok.mp hok
  obtain ⟨q₃, hpush, hok⟩ := Outcome.bind_eq_ok.mp hok
  have h₁ := ((Query.WellFormed.ofNotes c.uri c.label c.comment).addVariable (by simp) hadd).1
  have h₂ := (h₁.project hproject).1
  have hiri : (Term.resource (.iri c.uri)).IsNormal := trivial
  have h₃ := (h₂.pushClause (.pattern hiri hmake) hpush).1
  obtain rfl := Except.ok.inj hok
  cases c.endpoint with
  | none => exact h₃
  | some e => exact h₃.activate e

end SparqlCompose
