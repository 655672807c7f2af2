import SparqlCompose.Proofs.Reading
import SparqlCompose.Proofs.Sparql.Request
import SparqlCompose.Proofs.View

/-!
# Reading the clauses of an algebra

The reader of an algebra adds the variables that it meets, so the places of the variables are new,
but what has a name keeps it (`Query.Widened`), and no variable gets or loses a value
(`Query.Widened`).  By names the clauses that are read are those that the algebra lists, with
literals as their constructors make them (`exists_readClauses`); and only an algebra that lists
clauses which a query can hold is read at all (`lists_of_readClauses`).
-/

namespace SparqlCompose

open Sparql

/-! ### Patterns that can be made -/

namespace Sparql

/-- The slot of a pattern that a query can hold. -/
def Node.Legal : Node → Prop
  | .var name => isVarName name = true
  | .resource _ => True
  | .literal l => l.IsNormal

/-- A pattern that a query can hold. -/
structure TriplePattern.Legal (p : TriplePattern) : Prop where
  subject : p.subject.Legal
  predicate : p.predicate.Legal
  object : p.object.Legal
  noLiteral : ∀ l, p.subject ≠ .literal l ∧ p.predicate ≠ .literal l

/-- The slot with its literal as it is made from its parts. -/
def Node.normal : Node → Node
  | .literal l => .literal l.normal
  | n => n

/-- The pattern with its literals as they are made from their parts. -/
def TriplePattern.normal (p : TriplePattern) : TriplePattern :=
  ⟨p.subject.normal, p.predicate.normal, p.object.normal⟩

/-- A slot that a query can hold is as it is made from its parts. -/
theorem Node.Legal.normal {n : Node} (h : n.Legal) : n.normal = n := by
  cases n with
  | var name => rfl
  | resource r => rfl
  | literal l => exact congrArg Node.literal h

/-- So is a pattern that a query can hold. -/
theorem TriplePattern.Legal.normal {p : TriplePattern} (h : p.Legal) : p.normal = p := by
  unfold TriplePattern.normal
  rw [h.subject.normal, h.predicate.normal, h.object.normal]

end Sparql

namespace NamedClause

mutual

/-- The clause with its literals as they are made from their parts. -/
def normal : NamedClause → NamedClause
  | .triple p => .triple p.normal
  | .block e cs => .block e (normalAll cs)

/-- The clauses with their literals as they are made from their parts. -/
def normalAll : List NamedClause → List NamedClause
  | [] => []
  | c :: cs => normal c :: normalAll cs

end

/-- Clauses are put into normal form one by one. -/
theorem normalAll_append (cs ds : List NamedClause) :
    normalAll (cs ++ ds) = normalAll cs ++ normalAll ds := by
  induction cs with
  | nil => rfl
  | cons c cs ih => rw [List.cons_append, normalAll, ih, normalAll, List.cons_append]

/-- So are patterns. -/
theorem normalAll_triple (ps : List TriplePattern) :
    normalAll (ps.map .triple) = ps.map fun p => .triple p.normal := by
  induction ps with
  | nil => rfl
  | cons p ps ih => rw [List.map_cons, normalAll, ih, normal, List.map_cons]

mutual

/-- A clause whose patterns a query can hold is as it is made from its parts. -/
theorem normal_of_legal {c : NamedClause} (h : ∀ p ∈ c.triples, p.Legal) : c.normal = c := by
  cases c with
  | triple p => rw [normal, (h p (by simp [triples])).normal]
  | block e cs =>
      rw [triples] at h
      rw [normal, normalAll_of_legal h]

/-- Clauses that a query can hold have their literals as they are made. -/
theorem normalAll_of_legal {cs : List NamedClause} (h : ∀ p ∈ triplesAll cs, p.Legal) :
    normalAll cs = cs := by
  cases cs with
  | nil => rfl
  | cons c cs =>
      rw [triplesAll, List.forall_mem_append] at h
      rw [normalAll, normal_of_legal h.1, normalAll_of_legal h.2]

end

end NamedClause

namespace Query

variable {q r u : Query}

/-- The names in a well-formed query are legal. -/
theorem WellFormed.isVarName_nameAt (h : q.WellFormed) {id : VarId} (hid : id < q.table.size) :
    isVarName (q.nameAt id) = true := by
  obtain ⟨v, hv⟩ := OrderedMap.exists_at? hid
  rw [h.nameAt_eq hv]
  exact (h.table.legal_of_at? hv).name

/-- By name, a pattern over the table that can be made can be held. -/
theorem WellFormed.legal_triple_of_made (h : q.WellFormed) {p : Pattern} (hholds : q.Holds p)
    (hmade : (Clause.pattern p).Made) : (q.triple p).Legal := by
  obtain ⟨hs, hm, ho⟩ := hholds
  obtain ⟨hsubject, hpredicate, hobject⟩ := Clause.made_pattern_iff.mp hmade
  have hlegal : ∀ x : Term, q.Has x → x.IsNormal → (q.node x).Legal := by
    intro x hx hnormal
    cases x with
    | var id => exact h.isVarName_nameAt (hx id rfl)
    | resource r => trivial
    | literal l => exact hnormal
  refine ⟨hlegal _ hs (Term.isNormal_of_isLiteral hsubject),
    hlegal _ hm (Term.isNormal_of_isLiteral hpredicate), hlegal _ ho hobject, ?_⟩
  intro l
  constructor
  · intro habsurd
    cases hcase : p.subject <;> simp_all [triple, node, Term.isLiteral]
  · intro habsurd
    cases hcase : p.predicate <;> simp_all [triple, node, Term.isLiteral]

/-! ### Growing tables -/

/-- A later query has more variables than an earlier one and the same columns, clauses and order
keys, and shows the same values by name. -/
structure Widened (q r : Query) : Prop where
  keys : q.table.keys <+: r.table.keys
  rest : r = { q with table := r.table }
  value : r.view.value = q.view.value

/-- A query has what it has. -/
theorem Widened.refl (q : Query) : q.Widened q := ⟨List.prefix_rfl, rfl, rfl⟩

/-- What a later query has, one that is later still has too. -/
theorem Widened.trans (h : q.Widened r) (h' : r.Widened u) : q.Widened u where
  keys := h.keys.trans h'.keys
  rest := by rw [h'.rest, h.rest]
  value := h'.value.trans h.value

/-- A later query has no fewer variables. -/
theorem Widened.size_le (h : q.Widened r) : q.table.size ≤ r.table.size := by
  rw [← OrderedMap.length_keys, ← OrderedMap.length_keys]
  exact h.keys.length_le

/-- A place keeps its name. -/
theorem Widened.nameAt (h : q.Widened r) {id : VarId} (hid : id < q.table.size) :
    r.nameAt id = q.nameAt id := by
  obtain ⟨more, hmore⟩ := h.keys
  rw [← OrderedMap.length_keys] at hid
  rw [Query.nameAt, Query.nameAt, ← hmore, List.getElem?_append_left hid]

/-- The name at a place is the key there. -/
theorem nameAt_of_getElem? {id : VarId} {name : String} (h : q.table.keys[id]? = some name) :
    q.nameAt id = name := by
  rw [nameAt, h, Option.getD_some]

/-- A place with a key is in the table. -/
theorem lt_size_of_getElem? {id : VarId} {name : String} (h : q.table.keys[id]? = some name) :
    id < q.table.size := by
  rw [← OrderedMap.length_keys]
  exact (List.getElem?_eq_some_iff.mp h).1

/-- A later query has the variables of a slot that an earlier one has. -/
theorem Widened.has (h : q.Widened r) {x : Term} (hx : q.Has x) : r.Has x :=
  fun id hid => lt_of_lt_of_le (hx id hid) h.size_le

/-- It writes the slot by the same name. -/
theorem Widened.node (h : q.Widened r) {x : Term} (hx : q.Has x) : r.node x = q.node x := by
  cases x with
  | var id => exact congrArg Node.var (h.nameAt (hx id rfl))
  | resource r => rfl
  | literal l => rfl

/-- A later query has the variables of a pattern that an earlier one has. -/
theorem Widened.holds (h : q.Widened r) {p : Pattern} (hp : q.Holds p) : r.Holds p :=
  ⟨h.has hp.1, h.has hp.2.1, h.has hp.2.2⟩

/-- It writes the pattern by the same names. -/
theorem Widened.triple (h : q.Widened r) {p : Pattern} (hp : q.Holds p) :
    r.triple p = q.triple p := by
  unfold Query.triple
  rw [h.node hp.1, h.node hp.2.1, h.node hp.2.2]

mutual

/-- Two queries that write the patterns of a clause by the same names write the clause so. -/
theorem named_congr {c : Clause} (h : ∀ p ∈ c.patterns, r.triple p = q.triple p) :
    r.named c = q.named c := by
  cases c with
  | pattern p => rw [named, named, h p (by simp [Clause.patterns])]
  | service e cs vs =>
      rw [Clause.patterns] at h
      rw [named, named, namedAll_congr h]

/-- Clauses have the same names in queries that name the variables of their patterns alike. -/
theorem namedAll_congr {cs : List Clause}
    (h : ∀ p ∈ Clause.patternsAll cs, r.triple p = q.triple p) :
    r.namedAll cs = q.namedAll cs := by
  cases cs with
  | nil => rfl
  | cons c cs =>
      rw [Clause.patternsAll, List.forall_mem_append] at h
      rw [namedAll, namedAll, named_congr h.1, namedAll_congr h.2]

end

/-- Clauses are written by names one by one. -/
theorem namedAll_eq_map (q : Query) (cs : List Clause) : q.namedAll cs = cs.map q.named := by
  induction cs with
  | nil => rfl
  | cons c cs ih => rw [namedAll, ih, List.map_cons]

/-- Clauses that the table holds are named alike in a later query. -/
theorem Widened.namedAll (h : q.Widened r) {cs : List Clause}
    (hcs : ∀ p ∈ Clause.patternsAll cs, q.Holds p) : r.namedAll cs = q.namedAll cs :=
  namedAll_congr fun p hp => h.triple (hcs p hp)

/-- A variable without a value is found under its name or gets a place with it. -/
theorem widened_of_internVariable (h : q.WellFormed) {v : Variable} {id : VarId}
    (hbound : v.bound = none) (hok : q.internVariable v = .ok (id, r)) :
    q.Widened r ∧ r.table.keys[id]? = some v.name := by
  rcases internVariable_eq_ok.mp hok with ⟨hid, rfl⟩ | hadd
  · exact ⟨.refl _, hid⟩
  · have hview := (h.indexed.addVariable hbound hadd).2
    obtain ⟨hname, hnew, rfl, rfl⟩ := addVariable_eq_ok.mp hadd
    have hlegal : v.Legal := ⟨hname, by simp [hbound]⟩
    have hkeys := (h.table.added hlegal hnew).keys
    refine ⟨⟨⟨[v.name], hkeys.symm⟩, rfl, congrArg View.value hview⟩, ?_⟩
    rw [hkeys, ← OrderedMap.length_keys, List.getElem?_concat_length]

end Query

/-! ### Reading clauses -/

namespace Sparql

variable {q r : Query}

/-- A name is found in the table or added to it. -/
theorem exists_intern (h : q.WellFormed) {name : String} (hname : isVarName name = true) :
    ∃ id r, intern q name = .ok (id, r) ∧ q.Widened r ∧ r.table.keys[id]? = some name := by
  have hfound : ∃ id r,
      q.internVariable { uri := q.variableUri name, name := name } = .ok (id, r) := by
    by_cases hmem : name ∈ q.table.keys
    · obtain ⟨id, hid⟩ := List.getElem?_of_mem hmem
      exact ⟨id, q, Query.internVariable_eq_ok.mpr (Or.inl ⟨hid, rfl⟩)⟩
    · exact ⟨_, _, Query.internVariable_eq_ok.mpr
        (Or.inr (Query.addVariable_eq_ok.mpr ⟨hname, hmem, rfl, rfl⟩))⟩
  obtain ⟨id, r, hintern⟩ := hfound
  obtain ⟨hwidened, hid⟩ := Query.widened_of_internVariable h rfl hintern
  exact ⟨id, r, Outcome.mapError_eq_ok.mpr hintern, hwidened, hid⟩

/-- Only the name of a variable is found or added. -/
theorem isVarName_of_intern (h : q.WellFormed) {name : String} {id : VarId}
    (hok : intern q name = .ok (id, r)) : isVarName name = true := by
  rcases Query.internVariable_eq_ok.mp (Outcome.mapError_eq_ok.mp hok) with ⟨hid, -⟩ | hadd
  · have hname : q.nameAt id = name := Query.nameAt_of_getElem? hid
    rw [← hname]
    exact h.isVarName_nameAt (Query.lt_size_of_getElem? hid)
  · exact (Query.addVariable_eq_ok.mp hadd).1

/-- A slot is read as a slot with the same name. -/
theorem exists_readNode (h : q.WellFormed) {n : Node} (hn : n.normal.Legal) :
    ∃ x r, readNode q n = .ok (x, r) ∧ q.Widened r ∧ r.Has x ∧ r.node x = n.normal := by
  cases n with
  | var name =>
      obtain ⟨id, r, hintern, hwidened, hid⟩ := exists_intern h hn
      refine ⟨.var id, r, ?_, hwidened, ?_, congrArg Node.var (Query.nameAt_of_getElem? hid)⟩
      · exact Outcome.bind_eq_ok.mpr ⟨(id, r), hintern, rfl⟩
      · intro i hi
        obtain rfl := Option.some.inj hi
        exact Query.lt_size_of_getElem? hid
  | resource x => exact ⟨_, q, rfl, .refl q, nofun, rfl⟩
  | literal l => exact ⟨_, q, rfl, .refl q, nofun, rfl⟩

/-- Only slots that a query can hold are read. -/
theorem legal_of_readNode (h : q.WellFormed) {n : Node} {x : Term}
    (hok : readNode q n = .ok (x, r)) : n.normal.Legal := by
  cases n with
  | resource y => trivial
  | literal l => exact l.isNormal_normal
  | var name =>
      obtain ⟨⟨id, r'⟩, hintern, -⟩ := Outcome.bind_eq_ok.mp hok
      exact isVarName_of_intern h hintern

/-- A pattern is read as a pattern with the same names. -/
theorem exists_readTriple (h : q.WellFormed) {p : TriplePattern} (hp : p.normal.Legal) :
    ∃ pattern r, readTriple q p = .ok (.pattern pattern, r) ∧ q.Widened r ∧ r.Holds pattern ∧
      r.triple pattern = p.normal := by
  obtain ⟨x, q₁, hx, hwidened₁, hhas₁, hnode₁⟩ := exists_readNode h hp.subject
  have h₁ := (readNode_wellFormed h hx).1
  obtain ⟨y, q₂, hy, hwidened₂, hhas₂, hnode₂⟩ := exists_readNode h₁ hp.predicate
  have h₂ := (readNode_wellFormed h₁ hy).1
  obtain ⟨z, q₃, hz, hwidened₃, hhas₃, hnode₃⟩ := exists_readNode h₂ hp.object
  have hnoLiteral : x.isLiteral = false ∧ y.isLiteral = false := by
    constructor
    · cases x with
      | literal l => exact absurd hnode₁.symm (hp.noLiteral l).1
      | _ => rfl
    · cases y with
      | literal l => exact absurd hnode₂.symm (hp.noLiteral l).2
      | _ => rfl
  have hmake : Pattern.make x y z = .ok ⟨x, y, z⟩ :=
    Pattern.make_eq_ok.mpr ⟨hnoLiteral.1, hnoLiteral.2, rfl⟩
  have hgrown₃ := hwidened₃
  have hx₃ := (hwidened₂.trans hwidened₃)
  refine ⟨⟨x, y, z⟩, q₃, ?_, hwidened₁.trans (hwidened₂.trans hwidened₃),
    ⟨hx₃.has hhas₁, hgrown₃.has hhas₂, hhas₃⟩, ?_⟩
  · exact Outcome.bind_eq_ok.mpr ⟨(x, q₁), hx, Outcome.bind_eq_ok.mpr ⟨(y, q₂), hy,
      Outcome.bind_eq_ok.mpr ⟨(z, q₃), hz, Outcome.bind_eq_ok.mpr
        ⟨⟨x, y, z⟩, Outcome.mapError_eq_ok.mpr hmake, rfl⟩⟩⟩⟩
  · rw [Query.triple, hx₃.node hhas₁, hgrown₃.node hhas₂, hnode₁, hnode₂, hnode₃]
    rfl

/-- Only patterns that a query can hold are read. -/
theorem legal_of_readTriple (h : q.WellFormed) {p : TriplePattern} {c : Clause}
    (hok : readTriple q p = .ok (c, r)) : p.normal.Legal := by
  obtain ⟨⟨x, q₁⟩, hx, hok⟩ := Outcome.bind_eq_ok.mp hok
  obtain ⟨⟨y, q₂⟩, hy, hok⟩ := Outcome.bind_eq_ok.mp hok
  obtain ⟨⟨z, q₃⟩, hz, hok⟩ := Outcome.bind_eq_ok.mp hok
  obtain ⟨pattern, hmake, -⟩ := Outcome.bind_eq_ok.mp hok
  have h₁ := (readNode_wellFormed h hx).1
  have h₂ := (readNode_wellFormed h₁ hy).1
  obtain ⟨hsubject, hpredicate, -⟩ := Pattern.make_eq_ok.mp (Outcome.mapError_eq_ok.mp hmake)
  have hnone : ∀ {n : Node} {x : Term} {u v : Query}, readNode u n = .ok (x, v) →
      x.isLiteral = false → ∀ l, n.normal ≠ .literal l := by
    intro n x u v hread hx l habsurd
    cases n with
    | literal l' =>
        obtain ⟨rfl, -⟩ := Prod.mk.inj (Except.ok.inj hread)
        cases hx
    | var name => cases habsurd
    | resource y => cases habsurd
  exact ⟨legal_of_readNode h hx, legal_of_readNode h₁ hy, legal_of_readNode h₂ hz,
    fun l => ⟨hnone hx hsubject l, hnone hy hpredicate l⟩⟩

/-- Patterns are read as clauses with the same names. -/
theorem exists_readTriples (h : q.WellFormed) {ps : List TriplePattern}
    (hps : ∀ p ∈ ps, p.normal.Legal) :
    ∃ cs r, readTriples q ps = .ok (cs, r) ∧ q.Widened r ∧
      (∀ p ∈ Clause.patternsAll cs, r.Holds p) ∧
      r.namedAll cs = ps.map fun p => .triple p.normal := by
  induction ps generalizing q with
  | nil => exact ⟨[], q, rfl, .refl q, nofun, rfl⟩
  | cons p ps ih =>
      rw [List.forall_mem_cons] at hps
      obtain ⟨pattern, q₁, hp, hwidened₁, hholds₁, hname⟩ := exists_readTriple h hps.1
      have h₁ := (readTriple_wellFormed h hp).1
      obtain ⟨cs, q₂, hcs, hwidened₂, hholds₂, hnames⟩ := ih h₁ hps.2
      refine ⟨.pattern pattern :: cs, q₂, ?_, hwidened₁.trans hwidened₂, ?_, ?_⟩
      · exact Outcome.bind_eq_ok.mpr ⟨(.pattern pattern, q₁), hp,
          Outcome.bind_eq_ok.mpr ⟨(cs, q₂), hcs, rfl⟩⟩
      · rw [Clause.patternsAll, List.forall_mem_append]
        refine ⟨?_, hholds₂⟩
        intro p' hp'
        rw [Clause.patterns, List.mem_singleton] at hp'
        exact hp' ▸ hwidened₂.holds hholds₁
      · rw [Query.namedAll, Query.named, hwidened₂.triple hholds₁, hname, hnames]
        rfl

/-- Only patterns that a query can hold are read. -/
theorem legal_of_readTriples (h : q.WellFormed) {ps : List TriplePattern} {cs : List Clause}
    (hok : readTriples q ps = .ok (cs, r)) : ∀ p ∈ ps, p.normal.Legal := by
  induction ps generalizing q cs r with
  | nil => nofun
  | cons p ps ih =>
      obtain ⟨⟨c, q₁⟩, hp, hok⟩ := Outcome.bind_eq_ok.mp hok
      obtain ⟨⟨ds, q₂⟩, hps, -⟩ := Outcome.bind_eq_ok.mp hok
      exact List.forall_mem_cons.mpr
        ⟨legal_of_readTriple h hp, ih (readTriple_wellFormed h hp).1 hps⟩

/-- **An algebra that lists clauses is read as clauses with the same names.** -/
theorem exists_readClauses {a : Algebra} {ns : List NamedClause} (ha : a.Lists ns)
    (hns : ∀ p ∈ NamedClause.triplesAll ns, p.normal.Legal) (h : q.WellFormed) :
    ∃ cs r, readClauses q a = .ok (cs, r) ∧ q.Widened r ∧
      (∀ p ∈ Clause.patternsAll cs, r.Holds p) ∧ r.namedAll cs = NamedClause.normalAll ns := by
  induction ha generalizing q with
  | bgp ps =>
      rw [NamedClause.triplesAll_triple] at hns
      rw [NamedClause.normalAll_triple]
      exact exists_readTriples h hns
  | @join left right ls rs _ _ ihl ihr =>
      rw [NamedClause.triplesAll_append, List.forall_mem_append] at hns
      obtain ⟨cs, q₁, hcs, hwidened₁, hholds₁, hnames₁⟩ := ihl hns.1 h
      have h₁ := (readClauses_wellFormed h hcs).1
      obtain ⟨ds, q₂, hds, hwidened₂, hholds₂, hnames₂⟩ := ihr hns.2 h₁
      refine ⟨cs ++ ds, q₂, ?_, hwidened₁.trans hwidened₂, ?_, ?_⟩
      · rw [readClauses]
        exact Outcome.bind_eq_ok.mpr ⟨(cs, q₁), hcs, Outcome.bind_eq_ok.mpr ⟨(ds, q₂), hds, rfl⟩⟩
      · rw [Clause.patternsAll_append, List.forall_mem_append]
        exact ⟨fun p hp => hwidened₂.holds (hholds₁ p hp), hholds₂⟩
      · rw [NamedClause.normalAll_append, Query.namedAll_eq_map, List.map_append,
          ← Query.namedAll_eq_map, ← Query.namedAll_eq_map, hwidened₂.namedAll hholds₁, hnames₁,
          hnames₂]
  | @service e inner ls _ ih =>
      rw [NamedClause.triplesAll, NamedClause.triplesAll, List.append_nil,
        NamedClause.triples] at hns
      obtain ⟨cs, q₁, hcs, hwidened, hholds, hnames⟩ := ih hns h
      refine ⟨[.block e cs], q₁, ?_, hwidened, ?_, ?_⟩
      · rw [Node.iri, readClauses]
        exact Outcome.bind_eq_ok.mpr ⟨(cs, q₁), hcs, rfl⟩
      · rw [Clause.patternsAll, Clause.patternsAll, List.append_nil, Clause.block, Clause.patterns]
        exact hholds
      · rw [Query.namedAll, Query.namedAll, Clause.block, Query.named, hnames]
        rfl

/-- **Only an algebra that lists clauses is read**, and only clauses that a query can hold. -/
theorem lists_of_readClauses {a : Algebra} {cs : List Clause} (h : q.WellFormed)
    (hok : readClauses q a = .ok (cs, r)) :
    ∃ ns, a.Lists ns ∧ ∀ p ∈ NamedClause.triplesAll ns, p.normal.Legal := by
  fun_induction readClauses q a generalizing cs r with
  | case1 q ts =>
      refine ⟨_, .bgp ts, ?_⟩
      rw [NamedClause.triplesAll_triple]
      exact legal_of_readTriples h hok
  | case2 q left right ihl ihr =>
      obtain ⟨⟨ds, q₁⟩, hl, hok⟩ := Outcome.bind_eq_ok.mp hok
      obtain ⟨⟨es, q₂⟩, hr, -⟩ := Outcome.bind_eq_ok.mp hok
      obtain ⟨ls, hls, hlegalLeft⟩ := ihl h hl
      obtain ⟨rs, hrs, hlegalRight⟩ := ihr q₁ (readClauses_wellFormed h hl).1 hr
      refine ⟨ls ++ rs, hls.join hrs, ?_⟩
      rw [NamedClause.triplesAll_append]
      exact List.forall_mem_append.mpr ⟨hlegalLeft, hlegalRight⟩
  | case3 q e p ih =>
      obtain ⟨⟨ds, q₁⟩, hp, -⟩ := Outcome.bind_eq_ok.mp hok
      obtain ⟨ns, hns, hlegal⟩ := ih h hp
      refine ⟨[.block e ns], .service hns, ?_⟩
      rw [NamedClause.triplesAll, NamedClause.triplesAll, List.append_nil, NamedClause.triples]
      exact hlegal
  | case4 q p => cases hok

end Sparql

end SparqlCompose
