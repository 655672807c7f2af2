import Mathlib
import SparqlCompose.Proofs.Piece

/-!
# The IRIs behind prefixed names

The `PREFIX` lines of a text come from a search for IRIs that is made apart from the writing.
The search finds what is written: the prefixed names among the pieces of a part of the text are
those of the IRIs that the search finds for it (`Piece.Mentions`), for constants first, then for
slots, for the clauses of the body, for the columns and for the order keys.

The search looks at every slot of every pattern, while the writer leaves out the subject and the
verb that it has just written.  The invariant for the clauses is therefore about what is written
and what the writer remembers together (`Query.mentions_clausesPieces`).
-/

namespace SparqlCompose

open Piece

/-! ### The prefixed names of IRIs -/

namespace PrefixTable

variable {t : PrefixTable} {iri name ns rest : String}

/-- An IRI is split into a namespace and a local name that make it up. -/
theorem append_of_splitIri (h : splitIri iri = some (ns, rest)) : ns ++ rest = iri := by
  obtain ⟨⟨a, b⟩, hcut, heq⟩ := Option.map_eq_some_iff.mp h
  obtain ⟨rfl, rfl⟩ := Prod.mk.inj heq
  have hchars := cutLast_append hcut
  rw [← String.ofList_append, ← hchars, String.ofList_toList]

/-- An IRI has a prefixed name exactly when the table has a prefix for its namespace. -/
theorem named?_eq_some : t.named? iri = some (name, rest) ↔
    t.compactingPrefix? iri = some name ∧ ∃ ns, splitIri iri = some (ns, rest) := by
  unfold named?
  cases t.compactingPrefix? iri with
  | none => simp
  | some name' =>
      cases splitIri iri with
      | none => simp
      | some e =>
          obtain ⟨ns, rest'⟩ := e
          simp

/-- The line for an IRI that is written with a prefix gives its namespace back. -/
theorem Sound.usedPrefix?_eq_some (h : t.Sound) : Query.usedPrefix? t iri = some (name, ns) ↔
    ∃ rest, t.named? iri = some (name, rest) ∧ ns ++ rest = iri := by
  have hused : Query.usedPrefix? t iri = some (name, ns) ↔
      t.compactingPrefix? iri = some name ∧ t.namespaces.get? name = some ns := by
    unfold Query.usedPrefix?
    cases t.compactingPrefix? iri with
    | none => simp
    | some name' =>
        simp only [Option.bind_eq_bind, Option.bind_some, Option.bind_eq_some_iff,
          Option.pure_def, Option.some.injEq, Prod.mk.injEq]
        constructor
        · rintro ⟨ns', hns', rfl, rfl⟩
          exact ⟨rfl, hns'⟩
        · rintro ⟨rfl, hns⟩
          exact ⟨ns, hns, rfl, rfl⟩
  rw [hused]
  constructor
  · intro hparts
    obtain ⟨hname, hns⟩ := hparts
    have hsplit : ∃ ns' rest, splitIri iri = some (ns', rest) := by
      rw [compactingPrefix?] at hname
      split at hname
      · next ns' rest heq => exact ⟨ns', rest, heq⟩
      · cases hname
    obtain ⟨ns', rest, hsplit⟩ := hsplit
    have hsame : ns = ns' :=
      Option.some.inj (hns.symm.trans (h.get?_of_compactingPrefix? hname hsplit))
    exact ⟨rest, named?_eq_some.mpr ⟨hname, ns', hsplit⟩, hsame ▸ append_of_splitIri hsplit⟩
  · intro hparts
    obtain ⟨rest, hnamed, hiri⟩ := hparts
    obtain ⟨hname, ns', hsplit⟩ := named?_eq_some.mp hnamed
    have hsame : ns = ns' :=
      (String.append_left_inj rest).mp (hiri.trans (append_of_splitIri hsplit).symm)
    exact ⟨hname, hsame ▸ h.get?_of_compactingPrefix? hname hsplit⟩

end PrefixTable

/-- The prefixed names among the pieces are those of the IRIs that the table has one for. -/
def Piece.Mentions (t : PrefixTable) (pieces : List Piece) (iris : List String) : Prop :=
  ∀ iri name rest, .named iri name rest ∈ pieces ↔ iri ∈ iris ∧ t.named? iri = some (name, rest)

namespace Piece

variable {t : PrefixTable} {pieces more : List Piece} {iris others : List String}

theorem mentions_nil : Mentions t [] [] := by simp [Mentions]

/-- Plain text mentions no IRI. -/
theorem mentions_plain (s : String) : Mentions t [plain s] [] := by simp [Mentions]

/-- Pieces that follow one another mention what either part does. -/
theorem Mentions.append (h : Mentions t pieces iris) (hmore : Mentions t more others) :
    Mentions t (pieces ++ more) (iris ++ others) := by
  intro iri name rest
  rw [List.mem_append, List.mem_append, h, hmore, or_and_right]

/-- Plain text in front mentions nothing more. -/
theorem Mentions.cons_plain (s : String) (h : Mentions t pieces iris) :
    Mentions t (plain s :: pieces) iris := (mentions_plain s).append h

/-- Nor does plain text at the end. -/
theorem Mentions.snoc_plain (s : String) (h : Mentions t pieces iris) :
    Mentions t (pieces ++ [plain s]) iris := by
  have hends := h.append (mentions_plain s)
  rwa [List.append_nil] at hends

/-- Only which IRIs are mentioned counts, not how often or in which order. -/
theorem Mentions.congr (h : Mentions t pieces iris) (hsame : ∀ iri, iri ∈ iris ↔ iri ∈ others) :
    Mentions t pieces others := by
  intro iri name rest
  rw [h, hsame]

/-- Pieces that are made item by item mention what each item does. -/
theorem mentions_flatMap {α : Type} {f : α → List Piece} {g : α → List String} {l : List α}
    (h : ∀ a ∈ l, Mentions t (f a) (g a)) : Mentions t (l.flatMap f) (l.flatMap g) := by
  induction l with
  | nil => exact mentions_nil
  | cons a l ih =>
      rw [List.forall_mem_cons] at h
      rw [List.flatMap_cons, List.flatMap_cons]
      exact h.1.append (ih h.2)

/-- The spaces between groups are plain. -/
theorem named_mem_spaced {iri name rest : String} {groups : List (List Piece)} :
    named iri name rest ∈ spaced groups ↔ named iri name rest ∈ groups.flatten := by
  induction groups with
  | nil => rfl
  | cons g groups ih =>
      cases groups with
      | nil => simp
      | cons h groups =>
          rw [spaced_cons_cons, List.mem_append, List.mem_cons, ih, List.flatten_cons,
            List.mem_append]
          simp

/-- So do groups of pieces with spaces between them. -/
theorem mentions_spaced {α : Type} {f : α → List Piece} {g : α → List String} {l : List α}
    (h : ∀ a ∈ l, Mentions t (f a) (g a)) : Mentions t (spaced (l.map f)) (l.flatMap g) := by
  intro iri name rest
  rw [named_mem_spaced, ← List.flatMap_def]
  exact mentions_flatMap h iri name rest

end Piece

/-! ### What constants and slots mention -/

/-- A resource mentions its own IRI, if it has one. -/
theorem Resource.mentions_pieces (t : PrefixTable) (r : Resource) :
    Mentions t (r.pieces t) (Query.constantIris (.resource r)) := by
  cases r with
  | blank label => exact mentions_plain _
  | iri text =>
      intro iri name rest
      rw [pieces, Query.constantIris, List.mem_singleton]
      split
      · next heq =>
          rw [List.mem_singleton, Piece.named.injEq]
          constructor
          · rintro ⟨rfl, rfl, rfl⟩
            exact ⟨rfl, heq⟩
          · rintro ⟨rfl, hnamed⟩
            obtain ⟨rfl, rfl⟩ := Prod.mk.inj (Option.some.inj (hnamed.symm.trans heq))
            exact ⟨rfl, rfl, rfl⟩
      · next heq =>
          simp only [List.mem_singleton, reduceCtorEq, false_iff]
          rintro ⟨rfl, hnamed⟩
          rw [heq] at hnamed
          cases hnamed

/-- A literal mentions its datatype, unless it is written without one. -/
theorem Literal.mentions_pieces (t : PrefixTable) (l : Literal) :
    Mentions t (l.pieces t) (Query.literalIris l) := by
  rw [pieces, Query.literalIris, isBare, datatype?]
  cases l.kind with
  | simple => exact mentions_plain _
  | tagged tag => exact mentions_plain _
  | typed d =>
      simp only
      split
      · exact mentions_plain _
      · exact (Resource.mentions_pieces t (.iri d)).cons_plain _

/-- A constant mentions what its resource or its literal does. -/
theorem Constant.mentions_pieces (t : PrefixTable) (c : Constant) :
    Mentions t (c.pieces t) (Query.constantIris c) := by
  cases c with
  | resource r => exact r.mentions_pieces t
  | literal l => exact l.mentions_pieces t

namespace Query

variable {q : Query} {t : PrefixTable}

/-- The IRIs that a slot writes. -/
def slotIris (q : Query) : Term → List String
  | .var id => (q.boundAt id).elim [] constantIris
  | .resource r => constantIris (.resource r)
  | .literal l => literalIris l

/-- The IRIs that a predicate writes. -/
def verbIris (q : Query) (p : Term) : List String :=
  if p = .resource (.iri Vocabulary.rdfType) then [] else q.slotIris p

/-- The IRIs that a pattern writes. -/
def tripleIris (q : Query) (p : Pattern) : List String :=
  q.slotIris p.subject ++ q.verbIris p.predicate ++ q.slotIris p.object

/-- The IRIs that the text of a query writes. -/
def textIris (q : Query) : List String :=
  q.patterns.flatMap q.tripleIris ++ q.projections.flatMap (fun id => q.slotIris (.var id)) ++
    q.order.flatMap fun k => q.slotIris (.var k.variableId)

/-- The search looks up a variable of the table without fail. -/
theorem variableIris_eq_ok {id : VarId} (hid : id < q.table.size) :
    q.variableIris id = .ok (q.slotIris (.var id)) := by
  obtain ⟨v, hv⟩ := OrderedMap.exists_at? hid
  rw [variableIris, var_eq_ok.mpr hv, slotIris, boundAt, hv, Option.bind_some]
  rfl

/-- It finds the IRIs of a slot whose variable is in the table. -/
theorem termIris_eq_ok {x : Term} (hx : q.Has x) : q.termIris x = .ok (q.slotIris x) := by
  cases x with
  | var id => exact variableIris_eq_ok (hx id rfl)
  | resource r => rfl
  | literal l => rfl

/-- It finds the IRIs of a pattern whose variables are in the table. -/
theorem patternIris_eq_ok {p : Pattern} (hp : q.Holds p) :
    q.patternIris p = .ok (q.tripleIris p) := by
  unfold patternIris tripleIris verbIris
  simp only [termIris_eq_ok hp.1, termIris_eq_ok hp.2.1, termIris_eq_ok hp.2.2, Outcome.ok_bind]
  split <;> rfl

/-- The search finds the IRIs of a valid query. -/
theorem iris_eq_ok (h : q.validate = .ok ()) : q.iris = .ok q.textIris := by
  have hbody := Outcome.mapM_map (l := q.patterns) fun p hp =>
    patternIris_eq_ok (holds_of_validate h hp)
  have hcolumns := Outcome.mapM_map (l := q.projections) fun id hid =>
    variableIris_eq_ok (columns_lt_of_validate h hid)
  have horder := Outcome.mapM_map (l := q.order) fun k hk =>
    variableIris_eq_ok (order_lt_of_validate h hk)
  rw [iris, hbody, Outcome.ok_bind, hcolumns, Outcome.ok_bind, horder, Outcome.ok_bind]
  rfl

/-! ### What the parts of a text mention -/

/-- A slot mentions the IRIs that are found in it. -/
theorem mentions_slotPieces {x : Term} (hx : q.Has x) :
    Mentions t (q.slotPieces t x) (q.slotIris x) := by
  cases x with
  | resource r => exact r.mentions_pieces t
  | literal l => exact l.mentions_pieces t
  | var id =>
      obtain ⟨v, hv⟩ := OrderedMap.exists_at? (hx id rfl)
      rw [slotPieces, slotIris, boundAt, hv, Option.bind_some, Option.elim_some,
        Variable.inlinePieces]
      cases v.bound with
      | none => exact mentions_plain _
      | some c => exact c.mentions_pieces t

/-- So does a result column, which shows the value of its variable. -/
theorem mentions_columnPieces {id : VarId} (hid : id < q.table.size) :
    Mentions t (q.columnPieces t id) (q.slotIris (.var id)) := by
  obtain ⟨v, hv⟩ := OrderedMap.exists_at? hid
  rw [columnPieces, slotIris, boundAt, hv, Option.bind_some, Option.elim_some,
    Variable.projectedPieces]
  cases v.bound with
  | none => exact mentions_plain _
  | some c => exact ((c.mentions_pieces t).cons_plain "(").snoc_plain _

/-- So does a predicate; class membership is written without its IRI. -/
theorem mentions_verbPieces {x : Term} (hx : q.Has x) :
    Mentions t (q.verbPieces t x) (q.verbIris x) := by
  rw [verbPieces, verbIris]
  split
  · exact mentions_plain _
  · exact mentions_slotPieces hx

/-- The IRIs that the writer has just written and need not write again. -/
def rememberedIris (q : Query) (previous : Option Pattern) : List String :=
  previous.elim [] fun p => q.slotIris p.subject ++ q.verbIris p.predicate

/-- Two lists have the same elements, those of a third list aside. -/
def SameBeside (memory l l' : List String) : Prop :=
  ∀ a, a ∈ memory ∨ a ∈ l ↔ a ∈ memory ∨ a ∈ l'

theorem SameBeside.refl (memory l : List String) : SameBeside memory l l := fun _ => Iff.rfl

/-- What is written next may lean on what has just been found. -/
theorem SameBeside.append {memory memory' a a' b b' : List String} (ha : SameBeside memory a a')
    (hb : SameBeside memory' b b') (hmemory : ∀ x ∈ memory', x ∈ a') :
    SameBeside memory (a ++ b) (a' ++ b') := by
  intro x
  rw [List.mem_append, List.mem_append, ← or_assoc, ha x, ← or_assoc]
  by_cases hx : x ∈ a'
  · simp [hx]
  · have hnew : x ∉ memory' := fun hmem => hx (hmemory x hmem)
    have hsame := hb x
    rw [or_iff_right hnew, or_iff_right hnew] at hsame
    rw [hsame]

/-- A pattern mentions its IRIs, those aside that the writer remembers. -/
theorem mentions_patternPieces {depth : Nat} {previous : Option Pattern} {p : Pattern}
    (hp : q.Holds p) :
    ∃ iris, Mentions t (q.patternPieces t depth previous p) iris ∧
      SameBeside (q.rememberedIris previous) iris (q.tripleIris p) := by
  have hs := mentions_slotPieces (t := t) hp.1
  have hv := mentions_verbPieces (t := t) hp.2.1
  have ho := mentions_slotPieces (t := t) hp.2.2
  have hfull : Mentions t (q.fullPieces t depth previous p) (q.tripleIris p) :=
    ((hs.append (hv.cons_plain " ")).append (ho.cons_plain " ")).cons_plain _
  cases previous with
  | none => exact ⟨_, hfull, .refl _ _⟩
  | some prev =>
      rw [patternPieces]
      split
      · next hsame =>
          split
          · next hverb =>
              refine ⟨_, ho.cons_plain _, ?_⟩
              intro iri
              simp only [rememberedIris, Option.elim_some, tripleIris, hsame, hverb,
                List.mem_append]
              tauto
          · refine ⟨_, (hv.append (ho.cons_plain " ")).cons_plain _, ?_⟩
            intro iri
            simp only [rememberedIris, Option.elim_some, tripleIris, hsame, List.mem_append]
            tauto
      · exact ⟨_, hfull, .refl _ _⟩

/-- What the writer remembers of a clause, it has found in it. -/
theorem rememberedIris_lastPattern {c : Clause} {iri : String}
    (h : iri ∈ q.rememberedIris (lastPattern c)) : iri ∈ c.patterns.flatMap q.tripleIris := by
  cases c with
  | service e cs vs => cases h
  | pattern p =>
      rw [Clause.patterns, List.flatMap_singleton]
      exact List.mem_append_left _ h

mutual

/-- A clause mentions the IRIs of its patterns, those aside that the writer remembers. -/
theorem mentions_clausePieces (depth : Nat) (previous : Option Pattern) (c : Clause)
    (hc : ∀ p ∈ c.patterns, q.Holds p) :
    ∃ iris, Mentions t (q.clausePieces t depth previous c) iris ∧
      SameBeside (q.rememberedIris previous) iris (c.patterns.flatMap q.tripleIris) := by
  cases c with
  | pattern p =>
      rw [clausePieces, Clause.patterns, List.flatMap_singleton]
      exact mentions_patternPieces (hc p (by simp [Clause.patterns]))
  | service e cs vs =>
      obtain ⟨iris, hiris, hsame⟩ := mentions_clausesPieces (depth + 1) none cs
        (by simpa [Clause.patterns] using hc)
      rw [clausePieces, Clause.patterns]
      refine ⟨iris, (hiris.cons_plain _).snoc_plain _, fun iri => or_congr_right ?_⟩
      simpa [rememberedIris] using hsame iri

/-- Clauses mention the IRIs of their patterns, those aside that the writer remembers. -/
theorem mentions_clausesPieces (depth : Nat) (previous : Option Pattern) (cs : List Clause)
    (hcs : ∀ p ∈ Clause.patternsAll cs, q.Holds p) :
    ∃ iris, Mentions t (q.clausesPieces t depth previous cs) iris ∧
      SameBeside (q.rememberedIris previous) iris
        ((Clause.patternsAll cs).flatMap q.tripleIris) := by
  cases cs with
  | nil =>
      rw [clausesPieces, Clause.patternsAll]
      exact ⟨[], mentions_plain _, .refl _ _⟩
  | cons c cs =>
      rw [Clause.patternsAll, List.forall_mem_append] at hcs
      obtain ⟨first, hfirst, hsameFirst⟩ := mentions_clausePieces depth previous c hcs.1
      obtain ⟨rest, hrest, hsameRest⟩ := mentions_clausesPieces depth (lastPattern c) cs hcs.2
      rw [clausesPieces, Clause.patternsAll, List.flatMap_append]
      exact ⟨first ++ rest, hfirst.append hrest,
        hsameFirst.append hsameRest fun _ => rememberedIris_lastPattern⟩

end

/-- The body mentions the IRIs of its patterns: at its start the writer remembers nothing. -/
theorem mentions_bodyPieces (h : q.validate = .ok ()) :
    Mentions t (q.bodyPieces t) (q.patterns.flatMap q.tripleIris) := by
  obtain ⟨iris, hiris, hsame⟩ := mentions_clausesPieces (t := t) 1 none q.clauses
    fun _ hp => holds_of_validate h hp
  refine hiris.congr fun iri => ?_
  have hnone := hsame iri
  simp only [rememberedIris, Option.elim_none, List.not_mem_nil, false_or] at hnone
  exact hnone

/-- The list of results mentions the IRIs of the columns. -/
theorem mentions_columnsPieces (h : q.validate = .ok ()) :
    Mentions t (q.columnsPieces t) (q.projections.flatMap fun id => q.slotIris (.var id)) := by
  unfold columnsPieces
  split
  · next hempty =>
      rw [List.isEmpty_iff.mp hempty]
      exact mentions_plain _
  · exact mentions_spaced fun id hid => mentions_columnPieces (columns_lt_of_validate h hid)

/-- The line of the order keys mentions the IRIs of the keys. -/
theorem mentions_orderPieces (h : q.validate = .ok ()) :
    Mentions t (q.orderPieces t) (q.order.flatMap fun k => q.slotIris (.var k.variableId)) := by
  unfold orderPieces
  split
  · next hempty =>
      rw [List.isEmpty_iff.mp hempty]
      exact mentions_nil
  · have hkeys : ∀ k ∈ q.order,
        Mentions t (q.orderKeyPieces t k) (q.slotIris (.var k.variableId)) := by
      intro k hk
      have hhas : q.Has (.var k.variableId) := by
        rintro id ⟨⟩
        exact order_lt_of_validate h hk
      exact ((mentions_slotPieces hhas).cons_plain _).snoc_plain _
    exact ((mentions_spaced hkeys).cons_plain _).snoc_plain _

end Query

end SparqlCompose
