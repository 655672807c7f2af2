import SparqlCompose.Proofs.Built
import SparqlCompose.Proofs.Sparql.Printable

/-!
# A query with values comes back from its text

The reader of a text finds a value where the writer had a variable.  So the query that comes back
has the values in place, and its own text is abbreviated by them: patterns that share a subject or
a predicate only by value are written together, and class membership by value is written as a word.
That makes the text shorter (`Sparql.TriplePattern.length_charsAfter_settled_le`).  The text is the
same one exactly if nothing of this happens (`Query.Steady`), and it is read unless the query sorts
by a variable that has a value (`Query.ofText_text_settled`).
-/

namespace SparqlCompose

open Sparql

namespace Sparql

variable {t : PrefixTable} {σ τ : String → Option Constant} {depth : Nat}
  {previous : Option TriplePattern} {p : TriplePattern}

/-! ### Slots -/

/-- A slot is not written as an empty text. -/
theorem Node.chars_ne_nil (t : PrefixTable) (n : Node) : n.chars t ≠ [] := by
  have hquoted : ∀ value, (quoteText value).toList ≠ [] := by
    intro value
    simp only [quoteText]
    split <;> simp
  cases n with
  | var name => exact List.cons_ne_nil _ _
  | resource r =>
      cases r with
      | blank label => simp [chars, Resource.render]
      | iri text =>
          rcases render_iri_cases t text with ⟨p, ns, l, -, -, -, hform⟩ | hform
          · simp [chars, hform]
          · simp [chars, hform]
  | literal l =>
      obtain ⟨value, kind⟩ := l
      cases kind with
      | simple => exact hquoted value
      | tagged tag => simp [chars, Literal.render, hquoted]
      | typed d =>
          by_cases hbare : isBareForm d value.toList = true
          · intro hnil
            have hvalue : value.toList = [] := by simpa [chars, Literal.render, hbare] using hnil
            rw [hvalue] at hbare
            unfold isBareForm at hbare
            split_ifs at hbare <;> cases hbare
          · simp [chars, Literal.render, hbare, hquoted]

/-- The word for class membership is shorter than its IRI. -/
theorem Node.two_le_length_rdfType (t : PrefixTable) :
    2 ≤ ((Node.iri Vocabulary.rdfType).chars t).length := by
  have hchars : (Node.iri Vocabulary.rdfType).chars t =
      ((Resource.iri Vocabulary.rdfType).render t).toList := rfl
  rw [hchars]
  rcases render_iri_cases t Vocabulary.rdfType with ⟨p, ns, l, -, -, hlocal, hform⟩ | hform
  · have hl : l.toList ≠ [] := by
      intro hnil
      rw [PrefixTable.isLocalName, hnil] at hlocal
      cases hlocal
    have hpos := List.length_pos_iff.mpr hl
    rw [hform, List.length_append, List.length_cons]
    omega
  · rw [hform]
    simp

/-! ### Predicates -/

section Settled

variable (hτ : ∀ name c, τ name = some c → σ name = some c)
include hτ

/-- A predicate is written no longer with its value in place. -/
theorem Node.length_verbChars_settled_le (m : Node) :
    ((m.settled σ).verbChars t τ).length ≤ (m.verbChars t σ).length := by
  unfold verbChars
  by_cases hm : m = .iri Vocabulary.rdfType
  · rw [if_pos hm, if_pos (by rw [hm]; rfl)]
  · rw [if_neg hm]
    split
    · exact List.length_pos_iff.mpr (chars_ne_nil t _)
    · rw [settled_settled hτ]

/-- A predicate is written in the same way with its value in place unless it is a variable for
class membership. -/
theorem Node.verbChars_settled_eq_iff (m : Node) :
    (m.settled σ).verbChars t τ = m.verbChars t σ ↔
      (m.settled σ = .iri Vocabulary.rdfType → m = .iri Vocabulary.rdfType) := by
  unfold verbChars
  by_cases hm : m = .iri Vocabulary.rdfType
  · rw [if_pos hm, if_pos (by rw [hm]; rfl)]
    exact iff_of_true rfl fun _ => hm
  · rw [if_neg hm]
    split
    · next htype =>
        refine iff_of_false ?_ fun h => hm (h htype)
        intro heq
        have hlength := Node.two_le_length_rdfType t
        rw [← htype, ← heq] at hlength
        exact absurd hlength (by decide)
    · next htype =>
        rw [settled_settled hτ]
        exact iff_of_true rfl fun h => absurd h htype

end Settled

/-! ### Patterns -/

namespace TriplePattern

/-- The pattern is abbreviated after the pattern before it as it would be with the values in place:
it shares a subject or a predicate with that pattern not by value only, and its predicate is no
variable for class membership. -/
structure Steady (σ : String → Option Constant) (previous : Option TriplePattern)
    (p : TriplePattern) : Prop where
  subject : ∀ prev ∈ previous, prev.subject.settled σ = p.subject.settled σ →
    prev.subject = p.subject
  predicate : ∀ prev ∈ previous, prev.subject = p.subject →
    prev.predicate.settled σ = p.predicate.settled σ → prev.predicate = p.predicate
  verb : p.predicate.settled σ = .iri Vocabulary.rdfType →
    p.predicate = .iri Vocabulary.rdfType

instance : Decidable (p.Steady σ previous) :=
  decidable_of_iff
    ((∀ prev ∈ previous, prev.subject.settled σ = p.subject.settled σ → prev.subject = p.subject) ∧
      (∀ prev ∈ previous, prev.subject = p.subject →
        prev.predicate.settled σ = p.predicate.settled σ → prev.predicate = p.predicate) ∧
      (p.predicate.settled σ = .iri Vocabulary.rdfType → p.predicate = .iri Vocabulary.rdfType))
    ⟨fun h => ⟨h.1, h.2.1, h.2.2⟩, fun h => ⟨h.subject, h.predicate, h.verb⟩⟩

section Settled

variable (hτ : ∀ name c, τ name = some c → σ name = some c)
include hτ

/-- A pattern with the values in place, slot by slot. -/
theorem chars_settled :
    (p.settled σ).chars t τ = (p.subject.settled σ).chars t ++
      ' ' :: ((p.predicate.settled σ).verbChars t τ ++ ' ' :: (p.object.settled σ).chars t) := by
  rw [chars, settled, Node.settled_settled hτ, Node.settled_settled hτ]

/-- With the values in place a pattern is written no longer than before. -/
theorem length_charsAfter_settled_le :
    ((p.settled σ).charsAfter t τ depth (previous.map (settled σ))).length ≤
      (p.charsAfter t σ depth previous).length := by
  have hverb := Node.length_verbChars_settled_le (t := t) hτ p.predicate
  cases previous with
  | none =>
      rw [Option.map_none, charsAfter, charsAfter, chars_settled hτ, chars]
      simp only [List.length_append, List.length_cons]
      omega
  | some prev =>
      have hsubject := List.length_pos_iff.mpr (Node.chars_ne_nil t (p.subject.settled σ))
      rw [Option.map_some, charsAfter, charsAfter, chars_settled hτ, chars]
      simp only [settled, Node.settled_settled hτ]
      by_cases hs : prev.subject = p.subject
      · rw [if_pos (congrArg (Node.settled σ) hs), if_pos hs]
        by_cases hm : prev.predicate = p.predicate
        · rw [if_pos (congrArg (Node.settled σ) hm), if_pos hm]
        · rw [if_neg hm]
          split <;> simp [indentChars] <;> omega
      · rw [if_neg hs]
        split_ifs <;> simp [indentChars] <;> omega

/-- **With the values in place a pattern is written as before exactly if it is steady.** -/
theorem charsAfter_settled_eq_iff
    (hprevious : ∀ prev ∈ previous, prev.predicate.settled σ = .iri Vocabulary.rdfType →
      prev.predicate = .iri Vocabulary.rdfType) :
    (p.settled σ).charsAfter t τ depth (previous.map (settled σ)) =
      p.charsAfter t σ depth previous ↔ p.Steady σ previous := by
  have hverb := Node.verbChars_settled_eq_iff (t := t) hτ p.predicate
  cases previous with
  | none =>
      rw [Option.map_none, charsAfter, charsAfter, chars_settled hτ, chars]
      simp only [List.append_cancel_left_eq, List.append_cancel_right_eq, List.cons.injEq,
        true_and, hverb]
      exact ⟨fun h => ⟨by simp, by simp, h⟩, Steady.verb⟩
  | some prev =>
      rw [Option.map_some, charsAfter, charsAfter, chars_settled hτ, chars]
      simp only [settled, Node.settled_settled hτ]
      by_cases hs : prev.subject = p.subject
      · rw [if_pos (congrArg (Node.settled σ) hs), if_pos hs]
        by_cases hm : prev.predicate = p.predicate
        · rw [if_pos (congrArg (Node.settled σ) hm), if_pos hm]
          refine iff_of_true rfl ⟨?_, ?_, hm ▸ hprevious prev rfl⟩
          · rintro _ ⟨⟩ -
            exact hs
          · rintro _ ⟨⟩ - -
            exact hm
        · rw [if_neg hm]
          split
          · next heq =>
              refine iff_of_false (by simp) fun h => hm (h.predicate prev rfl hs heq)
          · next hne =>
              simp only [List.append_cancel_left_eq, List.append_cancel_right_eq, hverb]
              refine ⟨fun h => ⟨?_, ?_, h⟩, Steady.verb⟩
              · rintro _ ⟨⟩ -
                exact hs
              · rintro _ ⟨⟩ - heq
                exact absurd heq hne
      · rw [if_neg hs]
        by_cases heq : prev.subject.settled σ = p.subject.settled σ
        · rw [if_pos heq]
          refine iff_of_false ?_ fun h => hs (h.subject prev rfl heq)
          split <;> simp
        · rw [if_neg heq]
          simp only [List.append_cancel_left_eq, List.append_cancel_right_eq, List.cons.injEq,
            true_and, hverb]
          refine ⟨fun h => ⟨?_, ?_, h⟩, Steady.verb⟩
          · rintro _ ⟨⟩ habsurd
            exact absurd habsurd heq
          · rintro _ ⟨⟩ habsurd
            exact absurd habsurd hs

end Settled

end TriplePattern

end Sparql

/-! ### Clauses -/

/-- Two texts are equal part by part if neither part of the one is longer than that of the other. -/
theorem append_eq_append_iff_of_length_le {α : Type} {as bs cs ds : List α}
    (hfirst : as.length ≤ bs.length) (hsecond : cs.length ≤ ds.length) :
    as ++ cs = bs ++ ds ↔ as = bs ∧ cs = ds := by
  refine ⟨fun h => ?_, fun h => by rw [h.1, h.2]⟩
  have hlength := congrArg List.length h
  rw [List.length_append, List.length_append] at hlength
  exact List.append_inj h (by omega)

namespace NamedClause

variable {t : PrefixTable} {σ τ : String → Option Constant}

/-- The last pattern of a clause with the values in place is its last pattern, with the values in
place. -/
theorem last_settled (c : NamedClause) :
    (c.settled σ).last = c.last.map (TriplePattern.settled σ) := by
  cases c <;> rfl

/-- Settling the pattern before does not change whether there is one. -/
theorem stopChars_map (f : TriplePattern → TriplePattern) (previous : Option TriplePattern) :
    stopChars (previous.map f) = stopChars previous := by
  cases previous <;> rfl

mutual

/-- What holds of each pattern after the one before it holds of every pattern after some. -/
theorem mem_triples_each {P : Option TriplePattern → TriplePattern → Prop}
    {previous : Option TriplePattern} {p : TriplePattern} (c : NamedClause)
    (h : c.Each P previous) (hp : p ∈ c.triples) : ∃ before, P before p := by
  cases c with
  | triple p' =>
      obtain rfl := List.mem_singleton.mp hp
      exact ⟨previous, h⟩
  | block e cs => exact mem_triplesAll_each cs h hp

/-- What holds of every pattern with the pattern before it holds of each with some pattern. -/
theorem mem_triplesAll_each {P : Option TriplePattern → TriplePattern → Prop}
    {previous : Option TriplePattern} {p : TriplePattern} (cs : List NamedClause)
    (h : EachAll P previous cs) (hp : p ∈ triplesAll cs) : ∃ before, P before p := by
  cases cs with
  | nil => cases hp
  | cons c cs =>
      rcases List.mem_append.mp hp with hp | hp
      · exact mem_triples_each c h.1 hp
      · exact mem_triplesAll_each cs h.2 hp

end

mutual

/-- A clause is written no longer with the values in place. -/
theorem length_chars_settled_le (depth : Nat) (hτ : ∀ name c, τ name = some c → σ name = some c)
    (previous : Option TriplePattern) (c : NamedClause) :
    ((c.settled σ).chars t τ depth (previous.map (TriplePattern.settled σ))).length ≤
      (c.chars t σ depth previous).length := by
  cases c with
  | triple p => exact TriplePattern.length_charsAfter_settled_le hτ
  | block e cs =>
      have hinner := length_charsAll_settled_le (depth + 1) hτ none cs
      rw [settled, chars, chars, stopChars_map]
      simp only [List.length_append, Option.map_none] at hinner ⊢
      omega

/-- With the values in place clauses are written no longer than before. -/
theorem length_charsAll_settled_le (depth : Nat)
    (hτ : ∀ name c, τ name = some c → σ name = some c) (previous : Option TriplePattern)
    (cs : List NamedClause) :
    (charsAll t τ depth (previous.map (TriplePattern.settled σ)) (settledAll σ cs)).length ≤
      (charsAll t σ depth previous cs).length := by
  cases cs with
  | nil => rw [settledAll, charsAll, charsAll, stopChars_map]
  | cons c cs =>
      have hfirst := length_chars_settled_le depth hτ previous c
      have hrest := length_charsAll_settled_le depth hτ c.last cs
      rw [settledAll, charsAll, charsAll, last_settled, List.length_append, List.length_append]
      omega

end

mutual

/-- A clause is written in the same way with the values in place exactly if each of its patterns is
steady. -/
theorem chars_settled_eq_iff (depth : Nat) (previous : Option TriplePattern)
    (hτ : ∀ name c, τ name = some c → σ name = some c)
    (hprevious : ∀ prev ∈ previous, prev.predicate.settled σ = .iri Vocabulary.rdfType →
      prev.predicate = .iri Vocabulary.rdfType) (c : NamedClause) :
    (c.settled σ).chars t τ depth (previous.map (TriplePattern.settled σ)) =
      c.chars t σ depth previous ↔ c.Each (TriplePattern.Steady σ) previous := by
  cases c with
  | triple p => exact TriplePattern.charsAfter_settled_eq_iff hτ hprevious
  | block e cs =>
      have hinner := charsAll_settled_eq_iff (depth + 1) none hτ (by simp) cs
      rw [settled, chars, chars, stopChars_map, Each, ← hinner]
      simp only [List.append_cancel_left_eq, List.append_cancel_right_eq, Option.map_none]

/-- **With the values in place clauses are written as before exactly if each pattern is steady.** -/
theorem charsAll_settled_eq_iff (depth : Nat) (previous : Option TriplePattern)
    (hτ : ∀ name c, τ name = some c → σ name = some c)
    (hprevious : ∀ prev ∈ previous, prev.predicate.settled σ = .iri Vocabulary.rdfType →
      prev.predicate = .iri Vocabulary.rdfType) (cs : List NamedClause) :
    charsAll t τ depth (previous.map (TriplePattern.settled σ)) (settledAll σ cs) =
      charsAll t σ depth previous cs ↔ EachAll (TriplePattern.Steady σ) previous cs := by
  cases cs with
  | nil => exact iff_of_true (stopChars_map _ previous) trivial
  | cons c cs =>
      rw [settledAll, charsAll, charsAll, last_settled, EachAll,
        append_eq_append_iff_of_length_le (length_chars_settled_le depth hτ previous c)
          (length_charsAll_settled_le depth hτ c.last cs),
        chars_settled_eq_iff depth previous hτ hprevious c]
      refine and_congr_right fun hfirst => charsAll_settled_eq_iff depth c.last hτ ?_ cs
      -- the verb of the pattern just written is steady
      intro prev hprev
      cases c with
      | triple p =>
          obtain rfl := Option.some.inj hprev
          exact hfirst.verb
      | block e ds => cases hprev

end

end NamedClause

/-! ### Whole texts -/

/-- With the values in place a pattern writes no other IRIs. -/
theorem Sparql.TriplePattern.iris_settled_subset {σ τ : String → Option Constant}
    (hτ : ∀ name c, τ name = some c → σ name = some c) (p : TriplePattern) :
    (p.settled σ).iris τ ⊆ p.iris σ := by
  rw [iris, iris, settled, Node.settled_settled hτ, Node.settled_settled hτ,
    Node.settled_settled hτ]
  by_cases hm : p.predicate = .iri Vocabulary.rdfType
  · rw [if_pos hm, if_pos (by rw [hm]; rfl)]
    exact List.Subset.refl _
  · rw [if_neg hm]
    split
    · intro iri hiri
      simp only [List.append_nil, List.mem_append] at hiri ⊢
      exact hiri.imp Or.inl id
    · exact List.Subset.refl _

/-- It writes the same ones unless its predicate is class membership by value. -/
theorem Sparql.TriplePattern.iris_settled {σ τ : String → Option Constant}
    (hτ : ∀ name c, τ name = some c → σ name = some c) {p : TriplePattern}
    (hverb : p.predicate.settled σ = .iri Vocabulary.rdfType →
      p.predicate = .iri Vocabulary.rdfType) : (p.settled σ).iris τ = p.iris σ := by
  have htype : p.predicate.settled σ = .iri Vocabulary.rdfType ↔
      p.predicate = .iri Vocabulary.rdfType := ⟨hverb, fun h => by rw [h]; rfl⟩
  rw [iris, iris, settled, Node.settled_settled hτ, Node.settled_settled hτ,
    Node.settled_settled hτ]
  simp only [htype]

namespace Query

variable {t : PrefixTable} {σ τ : String → Option Constant} {o : Outline}

/-- Fewer IRIs need no more lines of prefixes. -/
theorem length_prefixLines_le {iris iris' : List String} (h : iris ⊆ iris') :
    ((usedPrefixes t iris).flatMap fun e => (prefixLine e).toList).length ≤
      ((usedPrefixes t iris').flatMap fun e => (prefixLine e).toList).length := by
  have hnodup : (usedPrefixes t iris).Nodup :=
    (pairwise_usedPrefixes t iris).imp fun hlt heq => hlt.ne (congrArg Prod.fst heq)
  obtain ⟨l, hperm, hsublist⟩ := List.subperm_of_subset hnodup (usedPrefixes_subset h)
  rw [← (hperm.flatMap_right _).length_eq]
  exact (hsublist.flatMap _).length_le

namespace Outline

section Settled

variable (hcolumns : ∀ name ∈ o.columns, τ name = σ name)
  (horder : ∀ k ∈ o.order, τ k.2 = σ k.2)
include hcolumns horder

/-- Values that are in place in the clauses change the IRIs of the clauses only. -/
theorem iris_settled_eq : (o.settled σ).iris τ =
    ((NamedClause.triplesAll o.tree).flatMap fun p => (p.settled σ).iris τ) ++
      o.columns.flatMap (fun name => ((Node.var name).settled σ).iris) ++
      o.order.flatMap fun k => ((Node.var k.2).settled σ).iris := by
  have hvariable : ∀ name, τ name = σ name →
      (Node.var name).settled τ = (Node.var name).settled σ := by
    intro name hname
    rw [Node.settled, Node.settled, hname]
  have hnames : o.columns.flatMap (fun name => ((Node.var name).settled τ).iris) =
      o.columns.flatMap fun name => ((Node.var name).settled σ).iris :=
    List.flatMap_congr fun name hname => by rw [hvariable name (hcolumns name hname)]
  have hkeys : o.order.flatMap (fun k => ((Node.var k.2).settled τ).iris) =
      o.order.flatMap fun k => ((Node.var k.2).settled σ).iris :=
    List.flatMap_congr fun k hk => by rw [hvariable k.2 (horder k hk)]
  rw [iris, settled, NamedClause.triplesAll_settledAll, List.flatMap_map, hnames, hkeys]

variable (hτ : ∀ name c, τ name = some c → σ name = some c)
include hτ

/-- With the values in place an outline writes no other IRIs. -/
theorem iris_settled_subset : (o.settled σ).iris τ ⊆ o.iris σ := by
  rw [iris_settled_eq hcolumns horder, iris]
  intro iri hiri
  rw [List.mem_append, List.mem_append] at hiri ⊢
  refine hiri.imp (Or.imp ?_ id) id
  intro hbody
  obtain ⟨p, hp, hmem⟩ := List.mem_flatMap.mp hbody
  exact List.mem_flatMap.mpr ⟨p, hp, TriplePattern.iris_settled_subset hτ p hmem⟩

/-- The clauses write the same IRIs if each pattern is steady. -/
theorem iris_settled (h : NamedClause.EachAll (TriplePattern.Steady σ) none o.tree) :
    (o.settled σ).iris τ = o.iris σ := by
  have hbody : ∀ p ∈ NamedClause.triplesAll o.tree, (p.settled σ).iris τ = p.iris σ := by
    intro p hp
    obtain ⟨before, hsteady⟩ := NamedClause.mem_triplesAll_each o.tree h hp
    exact TriplePattern.iris_settled hτ hsteady.verb
  rw [iris_settled_eq hcolumns horder, iris, List.flatMap_congr hbody]

/-- **With the values in place the text is the same exactly if each pattern is steady.** -/
theorem chars_settled_eq_iff (slice : Slice) :
    (o.settled σ).chars t τ slice = o.chars t σ slice ↔
      NamedClause.EachAll (TriplePattern.Steady σ) none o.tree := by
  have hcolumnsText : (o.settled σ).columns.map (columnChars t τ) =
      o.columns.map (columnChars t σ) :=
    List.map_congr_left fun name hname => by rw [columnChars, columnChars, hcolumns name hname]
  have horderText : (o.settled σ).orderChars t τ = o.orderChars t σ := by
    have hkeys : o.order.map (keyChars t τ) = o.order.map (keyChars t σ) :=
      List.map_congr_left fun k hk => by
        rw [keyChars, keyChars, Node.settled, Node.settled, horder k hk]
    rw [orderChars, orderChars, settled, hkeys]
  have hlines : (((o.settled σ).prefixes t τ).flatMap fun e => (prefixLine e).toList).length ≤
      ((o.prefixes t σ).flatMap fun e => (prefixLine e).toList).length :=
    length_prefixLines_le (iris_settled_subset hcolumns horder hτ)
  have hbody : (NamedClause.charsAll t τ 1 none (o.settled σ).tree).length ≤
      (NamedClause.charsAll t σ 1 none o.tree).length :=
    NamedClause.length_charsAll_settled_le 1 hτ none o.tree
  have hsteady : NamedClause.charsAll t τ 1 none (o.settled σ).tree =
      NamedClause.charsAll t σ 1 none o.tree ↔
        NamedClause.EachAll (TriplePattern.Steady σ) none o.tree :=
    NamedClause.charsAll_settled_eq_iff 1 none hτ (by simp) o.tree
  rw [chars, chars, horderText, hcolumnsText]
  simp only [List.append_assoc]
  rw [append_eq_append_iff_of_length_le hlines (by simpa using hbody)]
  simp only [List.append_cancel_left_eq, List.append_cancel_right_eq, hsteady]
  refine and_iff_right_of_imp fun h => ?_
  rw [prefixes, prefixes, iris_settled hcolumns horder hτ h]

end Settled

end Outline

/-! ### Queries with values -/

/-- Each pattern of the query is abbreviated after the pattern before it as it would be with the
values of variables in place. -/
def Steady (q : Query) : Prop :=
  NamedClause.EachAll (TriplePattern.Steady q.view.value) none q.tree

instance (q : Query) : Decidable q.Steady :=
  inferInstanceAs (Decidable (NamedClause.EachAll _ none q.tree))

/-- **The query that comes back with its values in place has the same text exactly if the query is
steady.** -/
theorem Presents.text_eq_iff {q r : Query}
    (hr : r.Presents (q.outline.settled q.view.value) (shownValues q.view.value q.outline.columns))
    (h : q.WellFormed) (hcolumns : q.projections ≠ [])
    (hkeys : ∀ k ∈ q.order, q.boundAt k.variableId = none) (slice : Slice) :
    r.text t slice = q.text t slice ↔ q.Steady := by
  have hprojections : r.projections ≠ [] := by
    intro hnil
    have hnone : r.outline.columns = [] := congrArg (List.map r.nameAt) hnil
    rw [hr.outline] at hnone
    exact hcolumns (List.map_eq_nil_iff.mp hnone)
  have hshown : ∀ name ∈ q.outline.columns,
      shownValues q.view.value q.outline.columns name = q.view.value name :=
    fun name hname => if_pos hname
  have horder : ∀ k ∈ q.outline.order,
      shownValues q.view.value q.outline.columns k.2 = q.view.value k.2 := by
    intro k hk
    obtain ⟨key, hkey, rfl⟩ := List.mem_map.mp hk
    have hnone : q.view.value (q.nameAt key.variableId) = none :=
      (value_nameAt (h.order_lt key hkey)).trans (hkeys key hkey)
    rw [hnone, shownValues, hnone, ite_self]
  rw [text_eq_ok hr.wellFormed hprojections, text_eq_ok h hcolumns, hr.outline, hr.value,
    Except.ok.injEq, String.ofList_inj]
  exact Outline.chars_settled_eq_iff hshown horder (fun _ _ hc => (shownValues_eq_some.mp hc).2)
    slice

/-- **A query with values comes back from its text.**  Take a built query whose names, IRIs and
values can be written, in which no literal comes to a subject or a predicate, with a table of legal
prefixes that are bound to absolute IRIs and a slice of machine words that does not begin at an
explicit zero.  Let no value in its columns and order keys be a number with a sign, and no pattern
be misread.  Then the query has a text.  If it sorts by no variable that has a value, the text is
read as a query with the same result columns and order keys and with the same patterns and blocks
in the same order, in which the values of variables are in place; it has the values of its columns,
comes with the same slice, and has the same text exactly if the query is steady.  If the query
sorts by a variable that has a value, the text is refused because of the value. -/
theorem ofText_text_settled {q : Query} (hq : q.Built) (hprintable : q.Printable)
    (hproper : q.Proper) (hunsigned : q.Unsigned)
    (hread : NamedClause.NotMisread q.view.value q.tree) (pairs : List (String × String))
    (hpairs : ∀ e ∈ pairs, Declarable e) (slice : Slice) (hstart : slice.offset ≠ some 0)
    (hoffset : ∀ n ∈ slice.offset, n < wordSize) (hlimit : ∀ n ∈ slice.limit, n < wordSize)
    (uri : String) :
    ∃ text, q.text ((∅ : PrefixTable).bindAll pairs) slice = .ok text ∧
      ((∀ k ∈ q.order, q.boundAt k.variableId = none) → ∃ r,
        Query.ofText text uri = .ok (r, slice) ∧
        r.outline = q.outline.settled q.view.value ∧
        r.view.value = shownValues q.view.value q.outline.columns ∧
        (r.text ((∅ : PrefixTable).bindAll pairs) slice = .ok text ↔ q.Steady)) ∧
      ((∃ k ∈ q.order, (q.boundAt k.variableId).isSome) →
        ∃ k ∈ q.order, ∃ c, q.boundAt k.variableId = some c ∧
          Query.ofText text uri = .error (.query (.orderExpression c.canonical))) := by
  have h : q.Readable := ⟨hprintable, hq.wellFormed, hproper, hunsigned, hread⟩
  obtain ⟨text, -, htext, -⟩ := h.exists_request hpairs hoffset hlimit
  refine ⟨text, htext, fun hkeys => ?_, fun hkeys => ?_⟩
  · obtain ⟨text', r, htext', hregained, hr⟩ :=
      h.exists_ofText hpairs hstart hoffset hlimit hkeys uri
    obtain rfl := Except.ok.inj (htext.symm.trans htext')
    refine ⟨r, hregained, hr.outline, hr.value, ?_⟩
    rw [← htext]
    exact hr.text_eq_iff h.wellFormed h.columns hkeys slice
  · obtain ⟨text', htext', hrefused⟩ :=
      h.ofText_eq_error hpairs hstart hoffset hlimit hkeys uri
    obtain rfl := Except.ok.inj (htext.symm.trans htext')
    exact hrefused

end Query

/-! ### Examples -/

/-- People whose age and whose relation to their name have values. -/
def agedQuery : Query :=
  ({ uri := "urn:aged" } : Query).afterAll
    [.addVariable { uri := "urn:aged;var=id", name := "id" },
      .addVariable { uri := "urn:aged;var=age", name := "age" },
      .addVariable { uri := "urn:aged;var=naming", name := "naming" },
      .project 0, .project 1,
      .bind 1 (.literal ⟨"42", .typed (Vocabulary.xsd "integer")⟩),
      .bind 2 (.resource (.iri "http://xmlns.com/foaf/0.1/name")),
      .pushClause (.pattern ⟨.var 0, .resource (.iri Vocabulary.rdfType),
        .resource (.iri "http://xmlns.com/foaf/0.1/Person")⟩),
      .pushClause (.pattern ⟨.var 0, .resource (.iri "urn:age"), .var 1⟩),
      .pushClause (.block "urn:names" [
        .pattern ⟨.var 0, .var 2, .literal ⟨"Ann", .tagged "en"⟩⟩]),
      .pushOrder ⟨.descending, 0⟩]

/-- The first example is made by lawful calls. -/
theorem agedQuery_built : agedQuery.Built := by
  have hage : (Constant.literal ⟨"42", .typed (Vocabulary.xsd "integer")⟩).IsNormal := by
    unfold Constant.IsNormal
    decide +kernel
  have hnaming : (Constant.resource (.iri "http://xmlns.com/foaf/0.1/name")).IsNormal := rfl
  have hname : (⟨"Ann", .tagged "en"⟩ : Literal).IsNormal := by
    unfold Literal.IsNormal
    decide +kernel
  refine (Query.Built.new _).afterAll ?_
  simp [Query.Call.Lawful, Clause.made_pattern_iff, Clause.block, Clause.made_service_iff,
    Term.isLiteral, Term.IsNormal, hage, hnaming, hname]

/-- The clauses of the example. -/
theorem agedQuery_clauses : agedQuery.clauses =
    [.pattern ⟨.var 0, .resource (.iri Vocabulary.rdfType),
        .resource (.iri "http://xmlns.com/foaf/0.1/Person")⟩,
      .pattern ⟨.var 0, .resource (.iri "urn:age"), .var 1⟩,
      .service "urn:names" [
        .pattern ⟨.var 0, .var 2, .literal ⟨"Ann", .tagged "en"⟩⟩] [0, 2]] := rfl

/-- It can be printed. -/
theorem agedQuery_printable : agedQuery.Printable where
  columns := by decide
  names := by decide +kernel
  values := by decide +kernel
  slots := by decide +kernel
  endpoints := by
    intro e cs vs hinside
    rw [agedQuery_clauses] at hinside
    obtain ⟨rfl, -⟩ : e = "urn:names" ∧ _ := by simpa using hinside
    decide +kernel
  order := by decide +kernel

/-- The text of the example. -/
def agedText : String :=
  "PREFIX foaf: <http://xmlns.com/foaf/0.1/>\nSELECT ?id (42 AS ?age)\nWHERE \x7b\n" ++
    "  ?id a foaf:Person ;\n    <urn:age> 42 .\n  SERVICE <urn:names> \x7b\n" ++
    "    ?id foaf:name \"Ann\"@en .\n  \x7d\n\x7d\nORDER BY DESC(?id)\nOFFSET 3\n"

/-- The example comes back from its text, with the same text. -/
theorem Query.ofText_text_aged :
    ∃ r, agedQuery.text .standard ⟨some 3, none⟩ = .ok agedText ∧
      Query.ofText agedText "urn:again" = .ok (r, ⟨some 3, none⟩) ∧
      r.outline = agedQuery.outline.settled agedQuery.view.value ∧
      r.view.value "age" = agedQuery.view.value "age" ∧
      r.text .standard ⟨some 3, none⟩ = .ok agedText := by
  have hpairs : ∀ e ∈ PrefixTable.wellKnown, Declarable e := by
    unfold Declarable
    decide +kernel
  obtain ⟨text, htext, hregained, -⟩ :=
    Query.ofText_text_settled agedQuery_built agedQuery_printable (by decide +kernel)
      (by decide +kernel) (by decide +kernel) PrefixTable.wellKnown hpairs ⟨some 3, none⟩
      (by decide) (by simp [wordSize]) (by simp) "urn:again"
  have hsame : agedQuery.text .standard ⟨some 3, none⟩ = .ok agedText := by decide +kernel
  obtain rfl := Except.ok.inj (htext.symm.trans hsame)
  obtain ⟨r, hread, houtline, hvalue, hagain⟩ := hregained (by decide +kernel)
  refine ⟨r, hsame, hread, houtline, ?_, hagain.mpr (by decide +kernel)⟩
  rw [hvalue]
  decide +kernel

/-- The same people, sorted by the age that has a value too. -/
def sortedQuery : Query := agedQuery.afterAll [.pushOrder ⟨.ascending, 1⟩]

/-- The text of the sorted people. -/
def sortedText : String :=
  "PREFIX foaf: <http://xmlns.com/foaf/0.1/>\nSELECT ?id (42 AS ?age)\nWHERE \x7b\n" ++
    "  ?id a foaf:Person ;\n    <urn:age> 42 .\n  SERVICE <urn:names> \x7b\n" ++
    "    ?id foaf:name \"Ann\"@en .\n  \x7d\n\x7d\nORDER BY DESC(?id) ASC(42)\n"

/-- Sorted by its age the example is still made by lawful calls. -/
theorem sortedQuery_built : sortedQuery.Built :=
  agedQuery_built.afterAll (by simp [Query.Call.Lawful])

/-- It can still be printed. -/
theorem sortedQuery_printable : sortedQuery.Printable where
  columns := agedQuery_printable.columns
  names := agedQuery_printable.names
  values := agedQuery_printable.values
  slots := agedQuery_printable.slots
  endpoints := agedQuery_printable.endpoints
  order := by decide +kernel

/-- Whom Ann knows, and her name, where one of two patterns has her as the value of a variable. -/
def pairedQuery : Query :=
  ({ uri := "urn:paired" } : Query).afterAll
    [.addVariable { uri := "urn:paired;var=id", name := "id" },
      .addVariable { uri := "urn:paired;var=person", name := "person" },
      .project 0, .bind 1 (.resource (.iri "urn:ann")),
      .pushClause (.pattern ⟨.var 1, .resource (.iri "urn:knows"), .var 0⟩),
      .pushClause (.pattern ⟨.resource (.iri "urn:ann"), .resource (.iri "urn:name"),
        .literal ⟨"Ann", .simple⟩⟩)]

/-- The third example is made by lawful calls. -/
theorem pairedQuery_built : pairedQuery.Built := by
  have hann : (Constant.resource (.iri "urn:ann")).IsNormal := rfl
  have hname : (⟨"Ann", .simple⟩ : Literal).IsNormal := by
    unfold Literal.IsNormal
    decide +kernel
  refine (Query.Built.new _).afterAll ?_
  simp [Query.Call.Lawful, Clause.made_pattern_iff, Term.isLiteral, Term.IsNormal, hann, hname]

/-- It can be printed too. -/
theorem pairedQuery_printable : pairedQuery.Printable where
  columns := by decide
  names := by decide +kernel
  values := by decide +kernel
  slots := by decide +kernel
  endpoints := by
    intro e cs vs hinside
    have hclauses : pairedQuery.clauses =
        [.pattern ⟨.var 1, .resource (.iri "urn:knows"), .var 0⟩,
          .pattern ⟨.resource (.iri "urn:ann"), .resource (.iri "urn:name"),
            .literal ⟨"Ann", .simple⟩⟩] := rfl
    simp [hclauses] at hinside
  order := by decide +kernel

/-- The conditions are needed.  The text of the sorted people is refused because of the value they
are sorted by, and what is read from the text about Ann has another text. -/
theorem Query.ofText_text_sorted :
    (sortedQuery.Built ∧ sortedQuery.Printable ∧ sortedQuery.Proper ∧
      sortedQuery.text .standard {} = .ok sortedText ∧
      Query.ofText sortedText "urn:again" = .error (.query (.orderExpression
        "\"42\"^^<http://www.w3.org/2001/XMLSchema#integer>"))) ∧
    pairedQuery.Built ∧ pairedQuery.Printable ∧ pairedQuery.Proper ∧
      pairedQuery.text .standard {} =
        .ok ("SELECT ?id\nWHERE \x7b\n  <urn:ann> <urn:knows> ?id .\n" ++
          "  <urn:ann> <urn:name> \"Ann\" .\n\x7d\n") ∧
      ∃ r, Query.ofText ("SELECT ?id\nWHERE \x7b\n  <urn:ann> <urn:knows> ?id .\n" ++
          "  <urn:ann> <urn:name> \"Ann\" .\n\x7d\n") "urn:again" = .ok (r, {}) ∧
        r.text .standard {} =
          .ok ("SELECT ?id\nWHERE \x7b\n  <urn:ann> <urn:knows> ?id ;\n" ++
            "    <urn:name> \"Ann\" .\n\x7d\n") := by
  refine ⟨⟨sortedQuery_built, sortedQuery_printable, by decide +kernel, by decide +kernel, ?_⟩,
    pairedQuery_built, pairedQuery_printable, by decide +kernel, by decide +kernel, ?_⟩
  · have hrefused : (Query.ofText sortedText "urn:again").map (fun _ => ()) =
        .error (.query (.orderExpression
          "\"42\"^^<http://www.w3.org/2001/XMLSchema#integer>")) := by
      decide +kernel
    exact Outcome.map_eq_error.mp hrefused
  · have hread : (Query.ofText ("SELECT ?id\nWHERE \x7b\n  <urn:ann> <urn:knows> ?id .\n" ++
        "  <urn:ann> <urn:name> \"Ann\" .\n\x7d\n") "urn:again").map
          (fun found => (found.1.text .standard {}, found.2)) =
        .ok (.ok ("SELECT ?id\nWHERE \x7b\n  <urn:ann> <urn:knows> ?id ;\n" ++
          "    <urn:name> \"Ann\" .\n\x7d\n"), {}) := by
      decide +kernel
    obtain ⟨⟨r, slice⟩, hregained, hfound⟩ := Outcome.map_eq_ok.mp hread
    obtain ⟨htext, rfl⟩ := Prod.mk.inj hfound
    exact ⟨r, hregained, htext⟩

end SparqlCompose
