import Mathlib
import SparqlCompose.Proofs.Sparql.Regain
import SparqlCompose.Proofs.Spin.Agreement
import SparqlCompose.Proofs.Spin.RoundTrip

/-!
# What becomes of a description

A query that is read represents what the graph says first (`Spin.Source.Represents`): its result
columns, patterns and order keys are, one by one, the members of the three lists, and its modifiers
say the same as none.  The reader takes the oldest value everywhere.  So when there is one value
for each list and each modifier, every value at the node of the query is accounted for
(`Spin.Source.Accounts`).

When there are more, the later ones are not looked at: without them (`Graph.firsts`) the reader
gets the same query (`Graph.readQuery_accounts`).  What they say is lost without an error
(`Graph.readQuery_drops_later`).
-/

namespace SparqlCompose

open Sparql

namespace Spin.Source

variable {src : Source} {q q' : Query} {member : Constant}

/-! ### What the members of the lists say -/

/-- What a value is in the slot of a pattern, with variables by name. -/
def namedSlot (src : Source) : Constant → Node
  | .literal l => .literal l.normal
  | .resource node =>
    match src.variableName? node, node with
    | some name, _ => .var name
    | none, .iri text => .resource (.iri text)
    | none, .blank label => .resource (.ofLabel label)

/-- The list member is a variable of this name, and nothing that is computed. -/
def ShowsColumn (src : Source) (member : Constant) (name : String) : Prop :=
  ∃ node, member = .resource node ∧
    src.graph.object? node (Vocabulary.sp "expression") = none ∧
    src.variableName? node = some name

/-- The list member is a pattern with these slots, and of no other type. -/
def ShowsPattern (src : Source) (member : Constant) (t : TriplePattern) : Prop :=
  ∃ node s p o, member = .resource node ∧
    (∀ kind ∈ src.graph.objects node Vocabulary.rdfType,
      kind.iri? = some (Vocabulary.sp "TriplePattern")) ∧
    src.graph.object? node (Vocabulary.sp "subject") = some s ∧
    src.graph.object? node (Vocabulary.sp "predicate") = some p ∧
    src.graph.object? node (Vocabulary.sp "object") = some o ∧
    t = ⟨src.namedSlot s, src.namedSlot p, src.namedSlot o⟩

/-- The node sorts in this direction by this value. -/
def SortsBy (src : Source) (node : Resource) (direction : Direction) (value : Constant) : Prop :=
  src.graph.object? node Vocabulary.rdfType = some (.iri (directionClass direction)) ∧
      src.graph.object? node (Vocabulary.sp "expression") = some value ∨
    (∀ d, src.graph.object? node Vocabulary.rdfType ≠ some (.iri (directionClass d))) ∧
      direction = .ascending ∧ value = .resource node

/-- The list member sorts in this direction by the variable of this name. -/
def ShowsKey (src : Source) (member : Constant) (k : Direction × String) : Prop :=
  ∃ node sorted, member = .resource node ∧ src.SortsBy node k.1 (.resource sorted) ∧
    src.variableName? sorted = some k.2

/-! ### What a step adds -/

/-- A required value is the one that is looked up. -/
theorem required_eq_ok_iff {node : Resource} {predicate : String} {value : Constant} :
    src.required node predicate = .ok value ↔ src.graph.object? node predicate = some value := by
  unfold required
  cases src.graph.object? node predicate <;> simp

/-- A slot without a variable needs none in the table. -/
theorem has_of_var?_eq_none {t : Term} (h : t.var? = none) : q.Has t := by
  intro id hid
  rw [h] at hid
  cases hid

/-- A value is read as what it is in the slot of a pattern. -/
theorem named_of_readTerm (h : q.WellFormed) {value : Constant} {t : Term}
    (hok : src.readTerm q value = .ok (t, q')) :
    q.Widened q' ∧ q'.Has t ∧ q'.node t = src.namedSlot value := by
  cases value with
  | literal l =>
      obtain ⟨rfl, rfl⟩ := Prod.mk.inj (Except.ok.inj hok)
      exact ⟨.refl _, has_of_var?_eq_none rfl, rfl⟩
  | resource node =>
      cases hname : src.variableName? node with
      | some name =>
          simp only [readTerm, hname] at hok
          obtain ⟨⟨id, r⟩, hintern, hok⟩ := Outcome.bind_eq_ok.mp hok
          obtain ⟨rfl, rfl⟩ := Prod.mk.inj (Except.ok.inj hok)
          obtain ⟨hwidened, hid⟩ :=
            Query.widened_of_internVariable h rfl (Outcome.mapError_eq_ok.mp hintern)
          refine ⟨hwidened, ?_, ?_⟩
          · intro i hi
            obtain rfl := Option.some.inj hi
            exact Query.lt_size_of_getElem? hid
          · simp only [namedSlot, hname]
            exact congrArg Node.var (Query.nameAt_of_getElem? hid)
      | none =>
          simp only [readTerm, hname] at hok
          cases node with
          | iri text =>
              obtain ⟨rfl, rfl⟩ := Prod.mk.inj (Except.ok.inj hok)
              refine ⟨.refl _, has_of_var?_eq_none rfl, ?_⟩
              simp only [namedSlot, hname, Query.node]
          | blank label =>
              obtain ⟨rfl, rfl⟩ := Prod.mk.inj (Except.ok.inj hok)
              refine ⟨.refl _, has_of_var?_eq_none rfl, ?_⟩
              simp only [namedSlot, hname, Query.node]

/-- A slot is read as what its value is there. -/
theorem named_of_readSlot (h : q.WellFormed) {node : Resource} {predicate : String} {t : Term}
    (hok : src.readSlot node predicate q = .ok (t, q')) :
    ∃ value, src.graph.object? node predicate = some value ∧ q.Widened q' ∧ q'.Has t ∧
      q'.node t = src.namedSlot value := by
  obtain ⟨value, hvalue, hok⟩ := Outcome.bind_eq_ok.mp hok
  exact ⟨value, required_eq_ok_iff.mp hvalue, named_of_readTerm h hok⟩

/-- A result column that is read is a column of the query, if it was none yet a new one. -/
theorem shows_of_readColumn (h : q.WellFormed) (hok : src.readColumn q member = .ok q') :
    ∃ name, src.ShowsColumn member name ∧
      q'.outline = { q.outline with columns := appendNew q.outline.columns name } := by
  obtain ⟨node, name, id, isNew, r, rfl, hexpression, hname, hintern, hproject⟩ :=
    readColumn_eq_ok.mp hok
  obtain ⟨hwidened, hid⟩ := Query.widened_of_internVariable h rfl hintern
  have hr := (h.internVariable (by simp [variableOf]) hintern).1
  obtain ⟨-, -, rfl⟩ := Query.project_eq_ok.mp hproject
  have hinj : Set.InjOn r.nameAt {i | i ∈ r.projections ∨ i ∈ [id]} := by
    have hlt : ∀ i, i ∈ r.projections ∨ i ∈ [id] → i < r.table.size := by
      intro i hi
      rcases hi with hi | hi
      · exact hr.projections_lt i hi
      · exact List.mem_singleton.mp hi ▸ Query.lt_size_of_getElem? hid
    intro i hi j hj heq
    exact Query.nameAt_inj (hlt i hi) (hlt j hj) heq
  have hcolumns : (appendNew r.projections id).map r.nameAt =
      appendNew (r.projections.map r.nameAt) (r.nameAt id) := (foldl_appendNew_map hinj).symm
  refine ⟨name, ⟨node, rfl, hexpression, hname⟩, ?_⟩
  rw [Query.outline_withProjections, hcolumns, Query.nameAt_of_getElem? hid,
    ← hwidened.outline h]
  rfl

/-- A pattern that is read goes after the others. -/
theorem shows_of_readPattern (h : q.WellFormed) (hok : src.readPattern q member = .ok q') :
    ∃ t, src.ShowsPattern member t ∧
      q'.outline = { q.outline with tree := q.outline.tree ++ [.triple t] } := by
  obtain ⟨node, s, q₁, p, q₂, o, q₃, pattern, rfl, htypes, hs, hp, ho, hmake, hpush⟩ :=
    readPattern_eq_ok.mp hok
  have h₁ := (readSlot_wellFormed h hs).1
  have h₂ := (readSlot_wellFormed h₁ hp).1
  obtain ⟨x, hx, hwidened₁, hhas₁, hnode₁⟩ := named_of_readSlot h hs
  obtain ⟨y, hy, hwidened₂, hhas₂, hnode₂⟩ := named_of_readSlot h₁ hp
  obtain ⟨z, hz, hwidened₃, hhas₃, hnode₃⟩ := named_of_readSlot h₂ ho
  have hwidened := (hwidened₁.trans hwidened₂).trans hwidened₃
  obtain ⟨-, -, rfl⟩ := Pattern.make_eq_ok.mp hmake
  obtain ⟨-, rfl⟩ := Query.pushClause_eq_ok.mp hpush
  have htriple : q₃.triple ⟨s, p, o⟩ = ⟨src.namedSlot x, src.namedSlot y, src.namedSlot z⟩ := by
    rw [Query.triple, (hwidened₂.trans hwidened₃).node hhas₁, hwidened₃.node hhas₂, hnode₁,
      hnode₂, hnode₃]
  refine ⟨_, ⟨node, x, y, z, rfl, htypes, hx, hy, hz, rfl⟩, ?_⟩
  rw [Query.outline_withClauses, Query.namedAll_eq_map, List.map_append, ← Query.namedAll_eq_map,
    List.map_singleton, Query.named, htriple, ← hwidened.outline h]
  rfl

/-- The direction that is read off a node is one in which the node sorts. -/
theorem readDirection_eq_ok {node : Resource} {direction : Direction} {value : Constant}
    (hok : src.readDirection node = .ok (direction, value)) :
    src.SortsBy node direction value := by
  have hkind : ∀ d, (src.graph.object? node Vocabulary.rdfType).bind Constant.iri? =
      some (directionClass d) ↔
        src.graph.object? node Vocabulary.rdfType = some (.iri (directionClass d)) := by
    intro d
    simp [Option.bind_eq_some_iff, Constant.iri?_eq_some]
  unfold readDirection at hok
  dsimp only at hok
  split at hok
  · next hasc =>
      obtain ⟨value', hvalue, heq⟩ := Outcome.map_eq_ok.mp hok
      obtain ⟨rfl, rfl⟩ := Prod.mk.inj heq
      exact Or.inl ⟨(hkind .ascending).mp hasc, required_eq_ok_iff.mp hvalue⟩
  · next hasc =>
      split at hok
      · next hdesc =>
          obtain ⟨value', hvalue, heq⟩ := Outcome.map_eq_ok.mp hok
          obtain ⟨rfl, rfl⟩ := Prod.mk.inj heq
          exact Or.inl ⟨(hkind .descending).mp hdesc, required_eq_ok_iff.mp hvalue⟩
      · next hdesc =>
          obtain ⟨rfl, rfl⟩ := Prod.mk.inj (Except.ok.inj hok)
          refine Or.inr ⟨?_, rfl, rfl⟩
          intro d
          cases d with
          | ascending => exact mt (hkind .ascending).mpr hasc
          | descending => exact mt (hkind .descending).mpr hdesc

/-- An order key that is read goes after the others. -/
theorem shows_of_readKey (hok : src.readKey q member = .ok q') :
    ∃ k, src.ShowsKey member k ∧
      q'.outline = { q.outline with order := q.outline.order ++ [k] } := by
  unfold readKey at hok
  obtain ⟨node, hnode, hok⟩ := Outcome.bind_eq_ok.mp hok
  obtain ⟨⟨direction, value⟩, hdirection, hok⟩ := Outcome.bind_eq_ok.mp hok
  obtain ⟨id, hvariable, hpush⟩ := Outcome.bind_eq_ok.mp (Outcome.mapError_eq_ok.mp hok)
  obtain ⟨-, rfl⟩ := Query.pushOrder_eq_ok.mp hpush
  have hmember : member = .resource node := by
    cases member with
    | resource r => exact congrArg Constant.resource (Except.ok.inj hnode)
    | literal l => cases hnode
  unfold orderVariable at hvariable
  split at hvariable
  · cases hvariable
  · next name hname =>
      obtain ⟨sorted, hsorted, hname⟩ := Option.bind_eq_some_iff.mp hname
      have hvalue : value = .resource sorted := by
        cases value with
        | resource r => exact congrArg Constant.resource (Option.some.inj hsorted)
        | literal l => cases hsorted
      split at hvariable
      · next i hplace =>
          obtain rfl := Except.ok.inj hvariable
          have hid := OrderedMap.idxOf?_eq_some_iff.mp hplace
          refine ⟨(direction, name), ⟨node, sorted, hmember, ?_, hname⟩, ?_⟩
          · exact hvalue ▸ readDirection_eq_ok hdirection
          · rw [Query.outline_withOrder, List.map_append, List.map_singleton,
              Query.nameAt_of_getElem? hid]
            rfl
      · cases hvariable

/-! ### The whole description -/

/-- The query says what the source says first: the members of its lists, in order, and modifiers
that say the same as none.  A variable that is listed twice is one result column. -/
structure Represents (src : Source) (q : Query) : Prop where
  columns : ∃ items names, src.members (.iri src.uri) (Vocabulary.sp "resultVariables") =
      .ok items ∧ List.Forall₂ src.ShowsColumn items names ∧
    q.outline.columns = names.foldl appendNew []
  patterns : ∃ items triples, src.members (.iri src.uri) (Vocabulary.sp "where") = .ok items ∧
    List.Forall₂ src.ShowsPattern items triples ∧ q.outline.tree = triples.map .triple
  order : ∃ items, src.members (.iri src.uri) (Vocabulary.sp "orderBy") = .ok items ∧
    List.Forall₂ src.ShowsKey items q.outline.order
  modifiers : ∀ m ∈ modifiers, ∀ value, src.graph.object? (.iri src.uri) m = some value →
    isDisabled m value = true

/-- Every value at the node of the query is accounted for: the members of each list are result
columns, patterns or order keys of the query, and each value of a modifier says the same as none. -/
structure Accounts (src : Source) (q : Query) : Prop where
  columns : ∀ head ∈ src.graph.objects (.iri src.uri) (Vocabulary.sp "resultVariables"),
    ∃ items, src.graph.collect head src.limit = .ok items ∧
      ∀ member ∈ items, ∃ name ∈ q.outline.columns, src.ShowsColumn member name
  patterns : ∀ head ∈ src.graph.objects (.iri src.uri) (Vocabulary.sp "where"),
    ∃ items, src.graph.collect head src.limit = .ok items ∧
      ∀ member ∈ items, ∃ t, .triple t ∈ q.outline.tree ∧ src.ShowsPattern member t
  order : ∀ head ∈ src.graph.objects (.iri src.uri) (Vocabulary.sp "orderBy"),
    ∃ items, src.graph.collect head src.limit = .ok items ∧
      ∀ member ∈ items, ∃ k ∈ q.outline.order, src.ShowsKey member k
  modifiers : ∀ m ∈ modifiers, ∀ value ∈ src.graph.objects (.iri src.uri) m,
    isDisabled m value = true

/-- The predicates whose values at the node of the query are to be accounted for. -/
def described : List String :=
  ["resultVariables", "where", "orderBy"].map Vocabulary.sp ++ modifiers

/-- The only value is the one that is looked up. -/
theorem object?_of_single {g : Graph} {node : Resource} {predicate : String} {value : Constant}
    (hsingle : (g.objects node predicate).length ≤ 1) (hvalue : value ∈ g.objects node predicate) :
    g.object? node predicate = some value := by
  obtain ⟨first, rest, hobjects⟩ := List.exists_cons_of_ne_nil (List.ne_nil_of_mem hvalue)
  rw [hobjects, List.length_cons] at hsingle
  have hrest : rest = [] := List.length_eq_zero_iff.mp (by omega)
  rw [hobjects, hrest, List.mem_singleton] at hvalue
  rw [Graph.object?, hobjects, hvalue]
  rfl

/-- What is related to a list member by member has a member for each of its members. -/
theorem exists_mem_of_forall₂ {α β : Type} {R : α → β → Prop} {as : List α} {bs : List β}
    (h : List.Forall₂ R as bs) {a : α} (ha : a ∈ as) : ∃ b ∈ bs, R a b := by
  induction h with
  | nil => cases ha
  | @cons a' b' as bs hab _ ih =>
      rcases List.mem_cons.mp ha with rfl | ha
      · exact ⟨b', List.mem_cons_self, hab⟩
      · obtain ⟨b, hb, hR⟩ := ih ha
        exact ⟨b, List.mem_cons_of_mem _ hb, hR⟩

/-- The members of the only list are those that are read, and they stand for what they show. -/
theorem listed_of_single {β : Type} {R : Constant → β → Prop} {predicate : String}
    {items : List Constant} {things : List β}
    (hitems : src.members (.iri src.uri) predicate = .ok items)
    (hshows : List.Forall₂ R items things)
    (hsingle : (src.graph.objects (.iri src.uri) predicate).length ≤ 1) :
    ∀ head ∈ src.graph.objects (.iri src.uri) predicate,
      ∃ items, src.graph.collect head src.limit = .ok items ∧
        ∀ member ∈ items, ∃ b ∈ things, R member b := by
  intro head hhead
  unfold members at hitems
  rw [object?_of_single hsingle hhead] at hitems
  exact ⟨items, Outcome.mapError_eq_ok.mp hitems, fun _ hm => exists_mem_of_forall₂ hshows hm⟩

/-- **With one value for each list and each modifier, every value is accounted for.** -/
theorem Represents.accounts (h : src.Represents q)
    (hsingle : ∀ p ∈ described, (src.graph.objects (.iri src.uri) p).length ≤ 1) :
    src.Accounts q where
  columns := by
    obtain ⟨items, names, hitems, hshows, hcolumns⟩ := h.columns
    have hlisted := listed_of_single hitems hshows (hsingle _ (by simp [described]))
    simpa [hcolumns, mem_foldl_appendNew] using hlisted
  patterns := by
    obtain ⟨items, triples, hitems, hshows, htree⟩ := h.patterns
    have hlisted := listed_of_single hitems hshows (hsingle _ (by simp [described]))
    simpa [htree] using hlisted
  order := by
    obtain ⟨items, hitems, hshows⟩ := h.order
    exact listed_of_single hitems hshows (hsingle _ (by simp [described]))
  modifiers := by
    intro m hm value hvalue
    have hone := hsingle m (List.mem_append_right _ hm)
    exact h.modifiers m hm value (object?_of_single hone hvalue)

end Spin.Source

namespace Graph

open Spin

variable {g : Graph} {uri : String} {limit : Nat} {q : Query}

/-- **What is read represents what the graph says first.** -/
theorem represents_of_readQuery (hok : g.readQuery uri limit = .ok q) :
    Source.Represents ⟨g, uri, limit⟩ q := by
  obtain ⟨⟨-, -, hmodifiers⟩, columns, patterns, keys, ⟨hcolumns, hpatterns, hkeys⟩,
    q₁, q₂, hq₁, hq₂, hq⟩ := readQuery_eq_ok_iff.mp hok
  obtain ⟨names, hnames, h₁, hout₁⟩ := Outcome.exists_of_foldlM_eq_ok
    (fun names r => r.WellFormed ∧ r.outline = ⟨names.foldl appendNew [], [], []⟩)
    (by
      intro member _ names r r' hr hstep
      obtain ⟨hr, houtline⟩ := hr
      obtain ⟨name, hshow, houtline'⟩ := Source.shows_of_readColumn hr hstep
      refine ⟨name, hshow, Source.readColumn_wellFormed hr hstep, ?_⟩
      rw [houtline', houtline, List.foldl_append]
      rfl)
    ⟨Query.WellFormed.ofNotes _ _ _, rfl⟩ hq₁
  obtain ⟨triples, htriples, h₂, hout₂⟩ := Outcome.exists_of_foldlM_eq_ok
    (fun triples r => r.WellFormed ∧
      r.outline = ⟨names.foldl appendNew [], triples.map .triple, []⟩)
    (by
      intro member _ triples r r' hr hstep
      obtain ⟨hr, houtline⟩ := hr
      obtain ⟨t, hshow, houtline'⟩ := Source.shows_of_readPattern hr hstep
      refine ⟨t, hshow, Source.readPattern_wellFormed hr hstep, ?_⟩
      rw [houtline', houtline, List.map_append]
      rfl)
    ⟨h₁, hout₁⟩ hq₂
  obtain ⟨order, horder, hout⟩ := Outcome.exists_of_foldlM_eq_ok
    (fun order r => r.outline = ⟨names.foldl appendNew [], triples.map .triple, order⟩)
    (by
      intro member _ order r r' houtline hstep
      obtain ⟨k, hshow, houtline'⟩ := Source.shows_of_readKey hstep
      refine ⟨k, hshow, ?_⟩
      rw [houtline', houtline])
    hout₂ hq
  exact {
    columns := ⟨columns, names, hcolumns, hnames, by rw [hout]⟩
    patterns := ⟨patterns, triples, hpatterns, htriples, by rw [hout]⟩
    order := ⟨keys, hkeys, by rwa [hout]⟩
    modifiers := fun m hm => checkModifier_eq_ok.mp (Outcome.forM_eq_ok.mp hmodifiers m hm) }

/-! ### Later values -/

/-- Adds a triple unless its subject has a value under its predicate.  A subject may have many
types. -/
def keepFirst (ts : List Triple) (t : Triple) : List Triple :=
  if t.predicate = Vocabulary.rdfType ∨
      ∀ u ∈ ts, ¬ (u.subject = t.subject ∧ u.predicate = t.predicate) then ts ++ [t]
  else ts

/-- The triples without the later values. -/
def firsts (ts : List Triple) : List Triple := ts.foldl keepFirst []

/-- A triple is added to the first values as it comes. -/
theorem firsts_concat (ts : List Triple) (t : Triple) :
    firsts (ts ++ [t]) = keepFirst (firsts ts) t := by
  rw [firsts, List.foldl_append]
  rfl

/-- The values of a subject under a predicate in a list of triples. -/
theorem valuesOf_about_concat (ts : List Triple) (t : Triple) (s : Resource) (p : String) :
    valuesOf p (about s (ts ++ [t])) = valuesOf p (about s ts) ++
      if t.subject = s ∧ t.predicate = p then [t.object] else [] := by
  rw [about_append, valuesOf_append]
  by_cases hs : t.subject = s <;> by_cases hp : t.predicate = p <;> simp [about, fact, hs, hp]

/-- A subject has a value under each predicate with which it occurs. -/
theorem valuesOf_about_ne_nil {ts : List Triple} {u : Triple} (hu : u ∈ ts) :
    valuesOf u.predicate (about u.subject ts) ≠ [] := by
  have hfact : fact u ∈ about u.subject ts :=
    List.mem_map_of_mem (List.mem_filter.mpr ⟨hu, by simp⟩)
  have hvalue : u.object ∈ valuesOf u.predicate (about u.subject ts) :=
    List.mem_map.mpr ⟨fact u, List.mem_filter.mpr ⟨hfact, by simp [fact]⟩, rfl⟩
  exact List.ne_nil_of_mem hvalue

/-- The first value stays the first, and of the types all stay. -/
theorem valuesOf_firsts (ts : List Triple) (s : Resource) (p : String) :
    (valuesOf p (about s (firsts ts))).head? = (valuesOf p (about s ts)).head? ∧
      (p = Vocabulary.rdfType → valuesOf p (about s (firsts ts)) = valuesOf p (about s ts)) := by
  induction ts using List.reverseRecOn with
  | nil => exact ⟨rfl, fun _ => rfl⟩
  | append_singleton ts t ih =>
      obtain ⟨hhead, htypes⟩ := ih
      rw [firsts_concat, keepFirst, valuesOf_about_concat]
      split
      · rw [valuesOf_about_concat, List.head?_append, List.head?_append, hhead]
        exact ⟨rfl, fun hp => by rw [htypes hp]⟩
      · next hlater =>
          obtain ⟨htype, hold⟩ := not_or.mp hlater
          obtain ⟨u, hu, hkey⟩ : ∃ u ∈ firsts ts, u.subject = t.subject ∧
              u.predicate = t.predicate := by simpa using hold
          by_cases hsame : t.subject = s ∧ t.predicate = p
          · obtain ⟨rfl, rfl⟩ := hsame
            have hfirst := valuesOf_about_ne_nil hu
            rw [hkey.1, hkey.2] at hfirst
            refine ⟨?_, fun hp => absurd hp htype⟩
            rw [List.head?_append, ← hhead]
            obtain ⟨v, vs, hvs⟩ := List.exists_cons_of_ne_nil hfirst
            rw [hvs]
            rfl
          · rw [if_neg hsame, List.append_nil]
            exact ⟨hhead, htypes⟩

/-- The first value under a predicate is the same without the later ones. -/
theorem object?_firsts (ts : List Triple) (s : Resource) (p : String) :
    (ofList (firsts ts)).object? s p = (ofList ts).object? s p := by
  rw [object?_ofList, object?_ofList]
  exact (valuesOf_firsts ts s p).1

/-- Without the later values a graph answers the lookups of the reader alike. -/
theorem agree_firsts (ts : List Triple) (root : Resource) :
    Agree (ofList ts) (ofList (firsts ts)) root where
  object? := fun s p _ => (object?_firsts ts s p).symm
  types := by
    intro s o
    rw [objects_ofList, objects_ofList, (valuesOf_firsts ts s _).2 rfl]
  type? := fun s _ => (object?_firsts ts s _).symm
  modifiers := by
    refine forall₂_congr fun m _ => ?_
    rw [checkModifier_eq_ok, checkModifier_eq_ok, object?_firsts]

/-- So the reader makes the same query of a graph and of its first values. -/
theorem readQuery_firsts (ts : List Triple) (uri : String) (limit : Nat) (q : Query) :
    (ofList ts).readQuery uri limit = .ok q ↔ (ofList (firsts ts)).readQuery uri limit = .ok q := by
  have hagree := agree_firsts ts (.iri uri)
  refine hagree.readQuery_eq_ok_iff (consistent_ofList ts) (consistent_ofList _) ?_
  intro keys _ _
  exact hagree.readDirection (object?_firsts ts _ _).symm

/-- **What becomes of a description.**  Later values change nothing about what is read.  A query
that is read represents what the graph says first; and if the node of the query has one value at
most for each list and each modifier, then every one of them is accounted for. -/
theorem readQuery_accounts (ts : List Triple) (uri : String) (limit : Nat) (q : Query) :
    ((ofList ts).readQuery uri limit = .ok q ↔
        (ofList (firsts ts)).readQuery uri limit = .ok q) ∧
      ((ofList ts).readQuery uri limit = .ok q →
        Source.Represents ⟨ofList ts, uri, limit⟩ q ∧
          ((∀ p ∈ Source.described, ((ofList ts).objects (.iri uri) p).length ≤ 1) →
            Source.Accounts ⟨ofList ts, uri, limit⟩ q)) := by
  refine ⟨readQuery_firsts ts uri limit q, ?_⟩
  intro hok
  have hrepresents := represents_of_readQuery hok
  exact ⟨hrepresents, hrepresents.accounts⟩

/-- The description of the example has one value for each list, and is accounted for. -/
theorem readQuery_accounts_mayors :
    let g := ofList (description mayorsQuery "urn:mayors")
    g.readQuery "urn:mayors" 3 = .ok (mayorsQuery.regained "urn:mayors") ∧
      (∀ p ∈ Source.described, (g.objects (.iri "urn:mayors") p).length ≤ 1) ∧
      Source.Accounts ⟨g, "urn:mayors", 3⟩ (mayorsQuery.regained "urn:mayors") := by
  intro g
  have hsingle : ∀ p ∈ Source.described, (g.objects (.iri "urn:mayors") p).length ≤ 1 := by
    simp only [g, objects_ofList]
    decide +kernel
  have haccounts := (readQuery_accounts (description mayorsQuery "urn:mayors") "urn:mayors" 3 _).2
    mayorsQuery_read
  exact ⟨mayorsQuery_read, hsingle, haccounts.2 hsingle⟩

/-- What may come after a description: that the results are distinct, after the opposite, and a
second list of patterns, whose members are variables. -/
def laterTriples : List Triple :=
  [⟨.iri "urn:mayors", Vocabulary.sp "distinct", .literal (.plain "false")⟩,
    ⟨.iri "urn:mayors", Vocabulary.sp "distinct", .literal (.plain "true")⟩,
    ⟨.iri "urn:mayors", Vocabulary.sp "where", .resource (.blank "c1")⟩]

/-- The reader finds in the description what it found before. -/
theorem agree_laterTriples :
    Agree (ofList (description mayorsQuery "urn:mayors"))
      (ofList (description mayorsQuery "urn:mayors" ++ laterTriples)) (.iri "urn:mayors") := by
  have hother : ∀ s, s ≠ .iri "urn:mayors" → about s laterTriples = [] := by
    intro s hs
    refine about_eq_nil ?_
    simp [laterTriples, hs.symm]
  have hsame : ∀ s, s ≠ .iri "urn:mayors" → ∀ p,
      (ofList (description mayorsQuery "urn:mayors")).object? s p =
        (ofList (description mayorsQuery "urn:mayors" ++ laterTriples)).object? s p := by
    intro s hs p
    rw [object?_ofList, object?_ofList, about_append, hother s hs, List.append_nil]
  refine ⟨?_, ?_, fun s hs => hsame s hs _, ?_⟩
  · intro s p hp
    by_cases hs : s = .iri "urn:mayors"
    · rw [object?_ofList, object?_ofList, hs]
      revert p
      decide +kernel
    · exact hsame s hs p
  · intro s o
    rw [mem_objects_ofList, mem_objects_ofList, List.mem_append]
    refine (or_iff_left ?_).symm
    simp [laterTriples]
  · refine iff_of_true ?_ ?_
    · have hchecks := (readQuery_eq_ok_iff.mp mayorsQuery_read).1.2.2
      exact Outcome.forM_eq_ok.mp hchecks
    · have hfirst : ∀ m ∈ modifiers, (valuesOf m (about (.iri "urn:mayors")
          (description mayorsQuery "urn:mayors" ++ laterTriples))).head?.all (isDisabled m) := by
        decide +kernel
      intro m hm
      refine checkModifier_eq_ok.mpr fun value hvalue => ?_
      have hdisabled := hfirst m hm
      rw [object?_ofList] at hvalue
      rwa [hvalue] at hdisabled

/-- **Later values are lost.**  The example is read from its description as before when a second
value of a modifier and a second list of patterns are added, and these are not accounted for. -/
theorem readQuery_drops_later :
    let g := ofList (description mayorsQuery "urn:mayors" ++ laterTriples)
    g.readQuery "urn:mayors" 3 = .ok (mayorsQuery.regained "urn:mayors") ∧
      ¬ Source.Accounts ⟨g, "urn:mayors", 3⟩ (mayorsQuery.regained "urn:mayors") := by
  intro g
  constructor
  · refine (agree_laterTriples.readQuery_eq_ok_iff (consistent_ofList _) (consistent_ofList _)
      ?_).mp mayorsQuery_read
    intro keys _ _
    refine agree_laterTriples.readDirection ?_
    rw [object?_ofList, object?_ofList]
    decide +kernel
  · intro haccounts
    have hlater : ⟨.iri "urn:mayors", Vocabulary.sp "distinct", .literal (.plain "true")⟩ ∈
        laterTriples := by simp [laterTriples]
    have hvalue := mem_objects_ofList.mpr
      (List.mem_append_right (description mayorsQuery "urn:mayors") hlater)
    have hmodifiers := haccounts.modifiers
    dsimp only at hmodifiers
    have hdisabled := hmodifiers (Vocabulary.sp "distinct") (by simp [modifiers]) _ hvalue
    revert hdisabled
    decide +kernel

end Graph

end SparqlCompose
