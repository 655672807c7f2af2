import SparqlCompose.Proofs.Settled
import SparqlCompose.Proofs.Sparql.Regain
import SparqlCompose.Proofs.Spin.Depiction

/-!
# Queries that can be written and read

A query is printable when its names and IRIs, those of its values too, can be written and
read one by one (`Query.Printable`).  If it is proper, if no value in its columns and order keys is
a number with a sign, and if no pattern of it is misread, then the reader knows its outline
(`Query.Readable.knowsOutline`).  Its text is read as a query with the outline, in which the values
of variables are in place (`Query.Readable.exists_ofText`), unless the query sorts by a variable
that has a value; then its text is refused (`Query.Readable.ofText_eq_error`).
-/

namespace SparqlCompose

open Sparql

/-! ### Patterns one by one -/

namespace NamedClause

mutual

/-- Every pattern of a clause, with the pattern before it, has a property. -/
def Each (P : Option TriplePattern → TriplePattern → Prop) (previous : Option TriplePattern) :
    NamedClause → Prop
  | .triple p => P previous p
  | .block _ cs => EachAll P none cs

/-- Every pattern of the clauses, with the pattern before it, has a property. -/
def EachAll (P : Option TriplePattern → TriplePattern → Prop) (previous : Option TriplePattern) :
    List NamedClause → Prop
  | [] => True
  | c :: cs => Each P previous c ∧ EachAll P c.last cs

end

section Decidable

variable {P : Option TriplePattern → TriplePattern → Prop} [∀ previous p, Decidable (P previous p)]

mutual

/-- Whether every pattern of a clause has a property. -/
def decideEach (previous : Option TriplePattern) : (c : NamedClause) → Decidable (Each P previous c)
  | .triple p => inferInstanceAs (Decidable (P previous p))
  | .block _ cs => decideEachAll none cs

/-- Whether every pattern of the clauses has a property. -/
def decideEachAll (previous : Option TriplePattern) :
    (cs : List NamedClause) → Decidable (EachAll P previous cs)
  | [] => .isTrue trivial
  | c :: cs => @instDecidableAnd _ _ (decideEach previous c) (decideEachAll c.last cs)

end

instance (previous : Option TriplePattern) (cs : List NamedClause) :
    Decidable (EachAll P previous cs) := decideEachAll previous cs

end Decidable

/-- No pattern of the clauses is misread when they are written with values in place. -/
def NotMisread (σ : String → Option Constant) (cs : List NamedClause) : Prop :=
  EachAll (fun previous p => ¬ p.MisreadWith σ previous) none cs

instance (σ : String → Option Constant) (cs : List NamedClause) : Decidable (NotMisread σ cs) :=
  inferInstanceAs (Decidable (EachAll _ none cs))

/-- The endpoint of a block stands in a clause, at any depth. -/
inductive Asks (e : String) : NamedClause → Prop
  | here {cs : List NamedClause} : Asks e (.block e cs)
  | deeper {d : String} {c : NamedClause} {cs : List NamedClause} (hc : c ∈ cs) (h : Asks e c) :
      Asks e (.block d cs)

variable {t : PrefixTable} {s : Scope} {σ : String → Option Constant}

mutual

/-- A clause can be read if what it mentions is known and none of its statements is misread. -/
theorem legible_of_knows (previous : Option TriplePattern) (c : NamedClause)
    (hknown : ∀ p ∈ c.triples, KnowsTriple t s σ p)
    (hasked : ∀ e, c.Asks e → Iri.isAbsolute e = true)
    (hread : Each (fun previous p => ¬ p.MisreadWith σ previous) previous c) :
    c.Legible t s σ previous := by
  cases c with
  | triple p => exact ⟨hknown p (by simp [triples]), hread⟩
  | block e cs =>
      refine ⟨hasked e .here, ?_⟩
      exact legibleAll_of_knows none cs (by simpa [triples] using hknown)
        (fun d hd e' he' => hasked e' (.deeper hd he')) hread

/-- **Clauses of known patterns can be read when no pattern is misread.** -/
theorem legibleAll_of_knows (previous : Option TriplePattern) (cs : List NamedClause)
    (hknown : ∀ p ∈ triplesAll cs, KnowsTriple t s σ p)
    (hasked : ∀ c ∈ cs, ∀ e, c.Asks e → Iri.isAbsolute e = true)
    (hread : EachAll (fun previous p => ¬ p.MisreadWith σ previous) previous cs) :
    LegibleAll t s σ previous cs := by
  cases cs with
  | nil => trivial
  | cons c cs =>
      rw [triplesAll, List.forall_mem_append] at hknown
      rw [List.forall_mem_cons] at hasked
      exact ⟨legible_of_knows previous c hknown.1 hasked.1 hread.1,
        legibleAll_of_knows c.last cs hknown.2 hasked.2 hread.2⟩

end

end NamedClause

/-! ### Queries that keep to plain text -/

/-- An absolute IRI in ASCII. -/
def IsPlainIri (text : String) : Prop := Iri.isAbsolute text = true ∧ IsAscii text

instance (text : String) : Decidable (IsPlainIri text) := by
  unfold IsPlainIri
  infer_instance

/-- The slot is no blank node, its IRI or datatype is a plain one and its language tag is well
formed. -/
def Term.Plain : Term → Prop
  | .var _ => True
  | .resource (.iri text) => IsPlainIri text
  | .resource (.blank _) => False
  | .literal l =>
    match l.kind with
    | .simple => True
    | .typed d => IsPlainIri d
    | .tagged tag => LanguageTag.isWellFormed tag = true

instance (x : Term) : Decidable x.Plain :=
  match x with
  | .var _ => inferInstanceAs (Decidable True)
  | .resource (.iri text) => inferInstanceAs (Decidable (IsPlainIri text))
  | .resource (.blank _) => inferInstanceAs (Decidable False)
  | .literal ⟨_, .simple⟩ => inferInstanceAs (Decidable True)
  | .literal ⟨_, .typed d⟩ => inferInstanceAs (Decidable (IsPlainIri d))
  | .literal ⟨_, .tagged tag⟩ => inferInstanceAs (Decidable (LanguageTag.isWellFormed tag = true))

namespace Query

/-- The query shows at least one column and has no blank nodes, its names are in ASCII, its IRIs are
absolute and in ASCII, its language tags are well formed, and it sorts by no variable that occurs
nowhere else. -/
structure Printable (q : Query) : Prop where
  columns : q.projections ≠ []
  names : ∀ name ∈ q.table.keys, IsAscii name
  values : ∀ v ∈ q.table.values, ∀ c ∈ v.bound, c.toTerm.Plain
  slots : ∀ p ∈ q.patterns, p.subject.Plain ∧ p.predicate.Plain ∧ p.object.Plain
  /-- So are the endpoints of blocks, at any depth. -/
  endpoints : ∀ e cs vs, (Clause.service e cs vs).Inside q.clauses → IsPlainIri e
  order : ∀ k ∈ q.order, k.variableId ∈ q.used

/-- No result column and no order key has a number with a sign as its value that is written
bare. -/
def Unsigned (q : Query) : Prop :=
  ∀ id ∈ q.projections ++ q.order.map OrderKey.variableId, ∀ c ∈ q.boundAt id,
    (Node.ofConstant c).isSigned = false

instance (q : Query) : Decidable q.Unsigned :=
  inferInstanceAs (Decidable (∀ id ∈ _, ∀ c ∈ q.boundAt id, (Node.ofConstant c).isSigned = false))

/-- The query can be written, and what is written can be read part by part. -/
structure Readable (q : Query) : Prop extends q.Printable where
  wellFormed : q.WellFormed
  proper : q.Proper
  unsigned : q.Unsigned
  notMisread : NamedClause.NotMisread q.view.value q.tree

variable {q : Query} {t : PrefixTable} {s : Scope}

/-- What a block of the tree asks is asked by a block of the query. -/
theorem inside_of_asks {e : String} {n : NamedClause} (h : n.Asks e) {c : Clause}
    {cs : List Clause} (hc : c ∈ cs) (hn : q.named c = n) :
    ∃ inner vs, (Clause.service e inner vs).Inside cs := by
  induction h generalizing c cs with
  | @here ns =>
      cases c with
      | pattern p => cases hn
      | service d inner vs =>
          rw [named] at hn
          obtain ⟨rfl, -⟩ := NamedClause.block.inj hn
          exact ⟨inner, vs, .here hc⟩
  | @deeper d m ns hm _ ih =>
      cases c with
      | pattern p => cases hn
      | service d' inner vs =>
          rw [named, namedAll_eq_map] at hn
          obtain ⟨-, rfl⟩ := NamedClause.block.inj hn
          obtain ⟨c', hc', hnamed⟩ := List.mem_map.mp hm
          obtain ⟨inner', vs', hinside⟩ := ih hc' hnamed
          exact ⟨inner', vs', .deeper hc hinside⟩

/-! ### Slots with values in place -/

/-- A slot with its value in place, by name. -/
theorem node_settled {x : Term} (hx : q.Has x) :
    (q.node x).settled q.view.value = q.node (q.settled x) := by
  cases x with
  | resource r => rfl
  | literal l => rfl
  | var id =>
      rw [node, Node.settled, value_nameAt (hx id rfl), settled]
      cases q.boundAt id with
      | none => rfl
      | some c => cases c <;> rfl

/-- A pattern with its values in place, by name. -/
theorem WellFormed.triple_settled (h : q.WellFormed) {p : Pattern} (hp : p ∈ q.patterns) :
    (q.triple p).settled q.view.value = q.triple (q.settledPattern p) := by
  obtain ⟨hs, hm, ho⟩ := h.holds hp
  rw [triple, TriplePattern.settled, node_settled hs, node_settled hm, node_settled ho]
  rfl

/-- Only a literal is named as one. -/
theorem node_ne_literal {x : Term} (h : x.isLiteral = false) (l : Literal) :
    q.node x ≠ .literal l := by
  cases x with
  | literal l' => cases h
  | _ => nofun

/-- With the values in place the patterns of a proper query can be held. -/
theorem Proper.legal_settled (hproper : q.Proper) (h : q.WellFormed) :
    ∀ p ∈ NamedClause.triplesAll (q.outline.settled q.view.value).tree, p.Legal := by
  intro p hp
  have htree : (q.outline.settled q.view.value).tree =
      NamedClause.settledAll q.view.value q.tree := rfl
  rw [htree, NamedClause.triplesAll_settledAll, triplesAll_tree, List.map_map] at hp
  obtain ⟨pattern, hpattern, rfl⟩ := List.mem_map.mp hp
  rw [Function.comp_apply, h.triple_settled hpattern]
  exact h.legal_triple_of_made (h.holds_settledPattern hpattern)
    (hproper.made_settledPattern h hpattern)

namespace Printable

/-- A slot with the value of its variable in place is plain if it was. -/
theorem plain_settled (h : q.Printable) {x : Term} (hx : x.Plain) : (q.settled x).Plain := by
  rcases q.settled_cases x with ⟨id, c, -, hc, hsettled⟩ | hsame
  · obtain ⟨v, hv, hbound⟩ := Option.bind_eq_some_iff.mp hc
    rw [OrderedMap.at?_eq_getElem?] at hv
    rw [hsettled]
    exact h.values v (List.mem_of_getElem? hv) c hbound
  · rwa [hsame]

/-- The name at a place of a query that can be written is a name that the reader reads. -/
theorem isVarName_nameAt (h : q.Printable) (hq : q.WellFormed) {id : VarId}
    (hid : id < q.table.size) : isVarName (q.nameAt id) = true ∧ IsAscii (q.nameAt id) := by
  refine ⟨hq.isVarName_nameAt hid, h.names _ ?_⟩
  rw [← OrderedMap.length_keys] at hid
  rw [nameAt, List.getElem?_eq_getElem hid, Option.getD_some]
  exact List.getElem_mem hid

/-- The reader knows a slot whose IRIs it knows. -/
theorem knowsNode (h : q.Printable) (hq : q.WellFormed) {x : Term} (hx : q.Has x)
    (hnormal : x.IsNormal) (hplain : x.Plain)
    (hknown : ∀ iri ∈ (q.node x).iris, IsPlainIri iri → Knows t s iri) :
    KnowsNode t s (q.node x) := by
  cases x with
  | var id => exact h.isVarName_nameAt hq (hx id rfl)
  | resource r =>
      cases r with
      | iri text => exact hknown text (by simp [node, Node.iris, constantIris]) hplain
      | blank label => exact hplain.elim
  | literal l =>
      refine ⟨hnormal, ?_⟩
      obtain ⟨value, kind⟩ := l
      cases kind with
      | simple => trivial
      | tagged tag => exact hplain
      | typed d =>
          intro hbare
          refine hknown d ?_ hplain
          simp [node, Node.iris, literalIris, hbare, Literal.datatype?]

/-- The reader knows a slot with its value in place whose IRIs it knows. -/
theorem knowsSettled (h : q.Printable) (hq : q.WellFormed) {x : Term} (hx : q.Has x)
    (hnormal : x.IsNormal) (hplain : x.Plain)
    (hknown : ∀ iri ∈ ((q.node x).settled q.view.value).iris, IsPlainIri iri → Knows t s iri) :
    KnowsNode t s ((q.node x).settled q.view.value) := by
  rw [node_settled hx] at hknown ⊢
  exact h.knowsNode hq (has_settled hx) (hq.isNormal_settled hnormal) (h.plain_settled hplain)
    hknown

/-- The reader knows a pattern of a proper query whose IRIs it knows. -/
theorem knowsTriple (h : q.Printable) (hq : q.WellFormed) (hproper : q.Proper) {p : Pattern}
    (hp : p ∈ q.patterns)
    (hknown : ∀ iri ∈ (q.triple p).iris q.view.value, IsPlainIri iri → Knows t s iri) :
    KnowsTriple t s q.view.value (q.triple p) := by
  obtain ⟨hs, hm, ho⟩ := hq.holds hp
  obtain ⟨hsPlain, hmPlain, hoPlain⟩ := h.slots p hp
  obtain ⟨hsubject, hpredicate, hobject⟩ := Clause.made_pattern_iff.mp (hq.made_pattern hp)
  have hnoLiteral : ∀ x ∈ p.heads, q.Has x → ∀ l,
      (q.node x).settled q.view.value ≠ .literal l := by
    intro x hx hhas l
    rw [node_settled hhas]
    exact node_ne_literal (hproper p hp x hx) l
  have hiris : (q.triple p).iris q.view.value =
      ((q.node p.subject).settled q.view.value).iris ++
      (if q.node p.predicate = .iri Vocabulary.rdfType then []
        else ((q.node p.predicate).settled q.view.value).iris) ++
      ((q.node p.object).settled q.view.value).iris := rfl
  rw [hiris] at hknown
  refine ⟨?_, hnoLiteral _ (by simp [Pattern.heads]) hs, ?_, ?_⟩
  · refine h.knowsSettled hq hs (Term.isNormal_of_isLiteral hsubject) hsPlain ?_
    exact fun iri hiri => hknown iri (by simp [hiri])
  · intro (hverb : q.node p.predicate ≠ .iri Vocabulary.rdfType)
    refine ⟨?_, hnoLiteral _ (by simp [Pattern.heads]) hm⟩
    refine h.knowsSettled hq hm (Term.isNormal_of_isLiteral hpredicate) hmPlain ?_
    rw [if_neg hverb] at hknown
    exact fun iri hiri => hknown iri (by simp [hiri])
  · refine h.knowsSettled hq ho hobject hoPlain ?_
    exact fun iri hiri => hknown iri (by simp [hiri])

end Printable

/-- A variable that is used shows in the outline. -/
theorem shows_of_mem_used {id : VarId} (h : id ∈ q.used) : q.outline.Shows (q.nameAt id) := by
  rcases mem_used.mp h with hcolumn | ⟨p, hp, hid⟩
  · exact Or.inl (List.mem_map_of_mem hcolumn)
  · refine Or.inr ⟨q.triple p, ?_, ?_⟩
    · have htree : q.outline.tree = q.tree := rfl
      rw [htree, triplesAll_tree]
      exact List.mem_map_of_mem hp
    · obtain ⟨x, hx, hvar⟩ := List.mem_filterMap.mp hid
      have hnode : Node.var (q.nameAt id) = q.node x := by
        cases x with
        | resource r => cases hvar
        | literal l => cases hvar
        | var i =>
            obtain rfl := Option.some.inj hvar
            rfl
      rw [hnode]
      exact List.mem_map_of_mem (f := q.node) hx

/-! ### What the outlines of such queries are -/

/-- No result column has the name of another. -/
theorem WellFormed.nodup_columns (h : q.WellFormed) : q.outline.columns.Nodup := by
  refine h.projections_nodup.map_on ?_
  intro i hi j hj heq
  exact nameAt_inj (h.projections_lt i hi) (h.projections_lt j hj) heq

namespace Readable

/-- The value of a column or of an order key is no number with a sign. -/
theorem isSigned_settled (h : q.Readable) {id : VarId} (hid : id < q.table.size)
    (hplace : id ∈ q.projections ++ q.order.map OrderKey.variableId) :
    ((Node.var (q.nameAt id)).settled q.view.value).isSigned = false := by
  rw [Node.settled, value_nameAt hid]
  cases hvalue : q.boundAt id with
  | none => rfl
  | some c => exact h.unsigned id hplace c hvalue

/-- **In the scope of its text the reader knows the outline of a query.** -/
theorem knowsOutline (h : q.Readable) (ht : t.Sound)
    (hnames : ∀ e ∈ t.toList, isPrefixName e.1.toList = true) (slice : Slice) :
    KnowsOutline t (textScope q.outline t q.view.value slice).selecting q.view.value
      q.outline := by
  have hq := h.wellFormed
  have hknown : ∀ iri ∈ q.outline.iris q.view.value, IsPlainIri iri →
      Knows t (textScope q.outline t q.view.value slice).selecting iri := by
    intro iri hiri hplain
    let front : Scope := { anonymousLead := unusedLead (q.outline.chars t q.view.value slice) }
    exact knows_of_declared (s := front.selecting) ht hnames rfl rfl hiri hplain.1 hplain.2
  have hvariable : ∀ id, id < q.table.size →
      (∀ iri ∈ ((Node.var (q.nameAt id)).settled q.view.value).iris,
        iri ∈ q.outline.iris q.view.value) →
      KnowsNode t (textScope q.outline t q.view.value slice).selecting
        ((Node.var (q.nameAt id)).settled q.view.value) := by
    intro id hid hiris
    exact h.knowsSettled (x := .var id) hq (has_var hid) trivial trivial
      fun iri hiri => hknown iri (hiris iri hiri)
  constructor
  case columns => exact fun hnil => h.columns (List.map_eq_nil_iff.mp hnil)
  case nodup => exact hq.nodup_columns
  case names =>
    intro name hname
    obtain ⟨id, hid, rfl⟩ := List.mem_map.mp hname
    exact h.isVarName_nameAt hq (hq.projections_lt id hid)
  case values =>
    intro name hname
    obtain ⟨id, hid, rfl⟩ := List.mem_map.mp hname
    have hlt := hq.projections_lt id hid
    refine ⟨hvariable id hlt fun iri hiri => ?_, h.isSigned_settled hlt (by simp [hid])⟩
    exact List.mem_append_left _ (List.mem_append_right _ (List.mem_flatMap.mpr ⟨_, hname, hiri⟩))
  case order =>
    intro k hk
    obtain ⟨key, hkey, rfl⟩ := List.mem_map.mp hk
    have hlt := hq.order_lt key hkey
    refine ⟨hvariable _ hlt fun iri hiri => ?_,
      h.isSigned_settled hlt (List.mem_append_right _ (List.mem_map_of_mem hkey))⟩
    exact List.mem_append_right _ (List.mem_flatMap.mpr ⟨_, hk, hiri⟩)
  case tree =>
    refine NamedClause.legibleAll_of_knows none q.tree ?_ ?_ h.notMisread
    · intro p hp
      rw [triplesAll_tree] at hp
      obtain ⟨pattern, hpattern, rfl⟩ := List.mem_map.mp hp
      refine h.knowsTriple hq h.proper hpattern fun iri hiri => hknown iri ?_
      refine List.mem_append_left _ (List.mem_append_left _ (List.mem_flatMap.mpr ⟨_, ?_, hiri⟩))
      exact (triplesAll_tree q).symm ▸ List.mem_map_of_mem hpattern
    · intro c hc e he
      rw [tree, namedAll_eq_map] at hc
      obtain ⟨d, hd, rfl⟩ := List.mem_map.mp hc
      obtain ⟨inner, vs, hinside⟩ := inside_of_asks he hd rfl
      exact (h.endpoints e inner vs hinside).1

/-! ### The text is read -/

section Texts

variable {pairs : List (String × String)} {slice : Slice}

/-- The text of a query is read as a selection with its outline. -/
theorem exists_request (h : q.Readable) (hpairs : ∀ e ∈ pairs, Declarable e)
    (hoffset : ∀ n ∈ slice.offset, n < wordSize) (hlimit : ∀ n ∈ slice.limit, n < wordSize) :
    ∃ text body, q.text ((∅ : PrefixTable).bindAll pairs) slice = .ok text ∧
      body.Lists (q.outline.settled q.view.value).tree ∧
      Request.ofText? text =
        some (.select false (outlineAlgebra q.outline q.view.value slice body)) := by
  have ht : ((∅ : PrefixTable).bindAll pairs).Sound := PrefixTable.sound_empty.bindAll pairs
  have hbound : ∀ e ∈ ((∅ : PrefixTable).bindAll pairs).toList, Declarable e := by
    intro e he
    rcases PrefixTable.mem_toList_bindAll he with habsurd | he
    · cases habsurd
    · exact hpairs e he
  have hprefixes : ∀ e ∈ q.outline.prefixes ((∅ : PrefixTable).bindAll pairs) q.view.value,
      Declarable e :=
    fun e he => hbound e (OrderedMap.get?_eq_some_iff.mp (mem_usedPrefixes he))
  obtain ⟨body, hlists, hrequest⟩ := ofText?_chars hprefixes
    (h.knowsOutline ht (fun e he => (hbound e he).1) slice) hoffset hlimit
  exact ⟨_, body, text_eq_ok h.wellFormed h.columns slice, hlists, hrequest⟩

/-- What the outline sorts by, it shows. -/
theorem shows_order (h : q.Readable) : ∀ k ∈ q.outline.order, q.outline.Shows k.2 := by
  intro k hk
  obtain ⟨key, hkey, rfl⟩ := List.mem_map.mp hk
  exact shows_of_mem_used (h.order key hkey)

/-- The result columns of a readable query have legal names. -/
theorem isVarName_columns (h : q.Readable) :
    ∀ name ∈ q.outline.columns, isVarName name = true := by
  intro name hname
  obtain ⟨id, hid, rfl⟩ := List.mem_map.mp hname
  exact h.wellFormed.isVarName_nameAt (h.wellFormed.projections_lt id hid)

/-- **The text of a query that sorts by no variable with a value is read** as a query with its
outline, in which the values of variables are in place, and with the values of its columns. -/
theorem exists_ofText (h : q.Readable) (hpairs : ∀ e ∈ pairs, Declarable e)
    (hstart : slice.offset ≠ some 0) (hoffset : ∀ n ∈ slice.offset, n < wordSize)
    (hlimit : ∀ n ∈ slice.limit, n < wordSize)
    (hkeys : ∀ k ∈ q.order, q.boundAt k.variableId = none) (uri : String) :
    ∃ text r, q.text ((∅ : PrefixTable).bindAll pairs) slice = .ok text ∧
      Query.ofText text uri = .ok (r, slice) ∧
      r.Presents (q.outline.settled q.view.value)
        (shownValues q.view.value q.outline.columns) := by
  obtain ⟨text, body, htext, hlists, hrequest⟩ := h.exists_request hpairs hoffset hlimit
  have hunbound : ∀ k ∈ q.outline.order, q.view.value k.2 = none := by
    intro k hk
    obtain ⟨key, hkey, rfl⟩ := List.mem_map.mp hk
    exact (value_nameAt (h.wellFormed.order_lt key hkey)).trans (hkeys key hkey)
  obtain ⟨r, halgebra, hr⟩ := exists_readAlgebra uri hstart hlists h.isVarName_columns
    h.wellFormed.nodup_columns h.wellFormed.isNormal_value (h.proper.legal_settled h.wellFormed)
    h.shows_order hunbound
  refine ⟨text, r, htext, ?_, hr⟩
  unfold Query.ofText
  rw [hrequest]
  exact halgebra

/-- **The text of a query that sorts by a variable with a value is refused**: the value is no order
key. -/
theorem ofText_eq_error (h : q.Readable) (hpairs : ∀ e ∈ pairs, Declarable e)
    (hstart : slice.offset ≠ some 0) (hoffset : ∀ n ∈ slice.offset, n < wordSize)
    (hlimit : ∀ n ∈ slice.limit, n < wordSize)
    (hkeys : ∃ k ∈ q.order, (q.boundAt k.variableId).isSome) (uri : String) :
    ∃ text, q.text ((∅ : PrefixTable).bindAll pairs) slice = .ok text ∧
      ∃ k ∈ q.order, ∃ c, q.boundAt k.variableId = some c ∧
        Query.ofText text uri = .error (.query (.orderExpression c.canonical)) := by
  obtain ⟨text, body, htext, hlists, hrequest⟩ := h.exists_request hpairs hoffset hlimit
  have hvalue : ∀ key ∈ q.order,
      q.view.value (q.nameAt key.variableId) = q.boundAt key.variableId :=
    fun key hkey => value_nameAt (h.wellFormed.order_lt key hkey)
  have hfound : (q.outline.order.find? fun k => (q.view.value k.2).isSome).isSome := by
    obtain ⟨key, hkey, hsome⟩ := hkeys
    refine List.find?_isSome.mpr ⟨_, List.mem_map_of_mem hkey, ?_⟩
    rwa [hvalue key hkey]
  obtain ⟨k, hk⟩ := Option.isSome_iff_exists.mp hfound
  have hsome : (q.view.value k.2).isSome = true := by simpa using List.find?_some hk
  obtain ⟨c, hc⟩ := Option.isSome_iff_exists.mp hsome
  obtain ⟨key, hkey, rfl⟩ := List.mem_map.mp (List.mem_of_find?_eq_some hk)
  have halgebra := readAlgebra_eq_error uri hstart hlists h.isVarName_columns
    h.wellFormed.nodup_columns h.wellFormed.isNormal_value (h.proper.legal_settled h.wellFormed)
    h.shows_order hk hc
  refine ⟨text, htext, key, hkey, c, (hvalue key hkey).symm.trans hc, ?_⟩
  unfold Query.ofText
  rw [hrequest]
  exact halgebra

end Texts

end Readable

end Query

end SparqlCompose
