import Mathlib
import SparqlCompose.Proofs.Clause
import SparqlCompose.Proofs.Sparql.Reads
import SparqlCompose.Sparql.Request

/-!
# What readers answer

A reader *answers* with a property when every value that it can answer has the property, whatever
the text and whatever has been declared (`Parser.Answers`).  The laws follow the combinators.  With
them a property of patterns is carried through the reader of requests: no value goes to a
variable that has one (`Algebra.Fresh`).  So the pattern of every selection is a selection of
distinct columns from a fresh pattern (`Request.isSelection_of_ofText?`).
-/

namespace SparqlCompose.Sparql

namespace Parser

/-! ### Laws -/

section Laws

variable {α β : Type} {p q : Parser α} {f : α → Parser β} {P : α → Prop} {Q : β → Prop}

/-- Every value that the reader answers has the property. -/
def Answers (p : Parser α) (P : α → Prop) : Prop :=
  ∀ cs s a rest s', p.exec cs s = (some (a, rest), s') → P a

/-- A sequence answers when its first link answers a value with which the second one answers. -/
theorem exists_of_exec_bind {cs rest : List Char} {s s' : Scope} {b : β}
    (h : (p >>= f).exec cs s = (some (b, rest), s')) :
    ∃ a mid u, p.exec cs s = (some (a, mid), u) ∧ (f a).exec mid u = (some (b, rest), s') := by
  cases hp : p.exec cs s with
  | mk result u =>
      cases result with
      | none =>
          rw [exec_bind_of_none hp] at h
          cases h
      | some x =>
          obtain ⟨a, mid⟩ := x
          rw [exec_bind_of_some hp] at h
          exact ⟨a, mid, u, rfl, h⟩

/-- A sequence answers with what its second link answers to any value of the first one. -/
theorem Answers.bind (hp : Answers p P) (hf : ∀ a, P a → Answers (f a) Q) :
    Answers (p >>= f) Q := by
  intro cs s b rest s' h
  obtain ⟨a, mid, u, ha, hb⟩ := exists_of_exec_bind h
  exact hf a (hp cs s a mid u ha) mid u b rest s' hb

/-- Nothing needs to be known of the first link. -/
theorem Answers.of_bind (hf : ∀ a, Answers (f a) Q) : Answers (p >>= f) Q := by
  intro cs s b rest s' h
  obtain ⟨a, mid, u, -, hb⟩ := exists_of_exec_bind h
  exact hf a mid u b rest s' hb

/-- An alternative answers with what both sides answer with. -/
theorem Answers.orElse (hp : Answers p P) (hq : Answers q P) : Answers (p <|> q) P := by
  intro cs s a rest s' h
  cases hpcs : p.exec cs s with
  | mk result u =>
      cases result with
      | none =>
          rw [exec_orElse_of_none hpcs] at h
          exact hq cs u a rest s' h
      | some x =>
          rw [exec_orElse_of_some hpcs] at h
          obtain ⟨rfl, rfl⟩ := Prod.mk.inj (Option.some.inj (Prod.mk.inj h).1)
          exact hp cs s _ _ u hpcs

/-- An answer alone has the property if its value has. -/
theorem answers_pure {a : α} (h : P a) : Answers (pure a) P := by
  intro cs s b rest s' hb
  obtain ⟨rfl, -⟩ := Prod.mk.inj (Option.some.inj (Prod.mk.inj hb).1)
  exact h

/-- A reader that fails answers nothing. -/
theorem answers_failure : Answers (failure : Parser α) P := by
  intro cs s a rest s' h
  cases h

/-- A value that may be missing has the property if it is there and has it. -/
theorem answers_option {o : Option α} (h : ∀ a, o = some a → P a) :
    Answers (liftM o : Parser α) P := by
  intro cs s a rest s' ha
  cases o with
  | none => cases ha
  | some b =>
      obtain ⟨rfl, -⟩ := Prod.mk.inj (Option.some.inj (Prod.mk.inj ha).1)
      exact h _ rfl

/-- What is made of a value has the property if it is made so. -/
theorem Answers.map {g : α → β} (h : Answers p fun a => Q (g a)) : Answers (g <$> p) Q := by
  rw [map_eq_pure_bind]
  exact h.bind fun a ha => answers_pure ha

/-- The white space behind a value does not matter. -/
theorem Answers.spaced (h : Answers p P) : Answers (spaced p) P :=
  h.bind fun _ ha => .of_bind fun _ => answers_pure ha

/-- Each of several values has the property of one. -/
theorem Answers.manyUpTo (h : Answers p P) (fuel : Nat) :
    Answers (manyUpTo p fuel) fun as => ∀ a ∈ as, P a := by
  induction fuel with
  | zero => exact answers_pure (by simp)
  | succ fuel ih =>
      refine Answers.orElse ?_ (answers_pure (by simp))
      exact h.bind fun a ha => ih.bind fun as has =>
        answers_pure (List.forall_mem_cons.mpr ⟨ha, has⟩)

/-- So has each of any number of values. -/
theorem Answers.many (h : Answers p P) : Answers (many p) fun as => ∀ a ∈ as, P a :=
  .of_bind fun fuel => h.manyUpTo fuel

/-- So has each value between separators. -/
theorem Answers.sepBy1 (h : Answers p P) (separator : Parser Unit) :
    Answers (sepBy1 p separator) fun as => ∀ a ∈ as, P a :=
  h.bind fun _ ha =>
    (Answers.many (Answers.of_bind fun _ => h)).bind fun _ has =>
      answers_pure (List.forall_mem_cons.mpr ⟨ha, has⟩)

end Laws

end Parser

/-! ### Fresh patterns -/

namespace Algebra

/-- No value goes to a variable that has a value already, as far as values stand around the
pattern. -/
def Fresh : Algebra → Prop
  | .extend p v _ => v ∉ p.inScope ∧ p.Fresh
  | .orderBy p _ => p.Fresh
  | _ => True

/-- Of two fresh patterns beside one another, both stay fresh. -/
theorem Fresh.beside {p q : Algebra} (hp : p.Fresh) (hq : q.Fresh) : (p.beside q).Fresh := by
  unfold Algebra.beside
  split
  · exact hq
  · exact hp
  · trivial
  · trivial

/-- The patterns of statements hold no values. -/
theorem fresh_parts (l : List Statement) : ∀ p ∈ Statement.parts l, p.Fresh := by
  induction l with
  | nil => simp [Statement.parts]
  | cons statement l ih =>
      cases statement with
      | path s o text =>
          rw [Statement.parts, List.forall_mem_cons]
          exact ⟨trivial, ih⟩
      | triple t =>
          rw [Statement.parts]
          split
          · next ts ps hparts =>
              rw [hparts, List.forall_mem_cons] at ih
              exact List.forall_mem_cons.mpr ⟨trivial, ih.2⟩
          · exact List.forall_mem_cons.mpr ⟨trivial, ih⟩

/-- So what they make is fresh. -/
theorem fresh_algebra (l : List Statement) : (Statement.algebra l).Fresh := by
  have hall : ∀ (ps : List Algebra) (p : Algebra), p.Fresh → (∀ q ∈ ps, q.Fresh) →
      (ps.foldl Algebra.beside p).Fresh := by
    intro ps
    induction ps with
    | nil => exact fun _ hp _ => hp
    | cons q ps ih =>
        intro p hp hps
        rw [List.forall_mem_cons] at hps
        exact ih _ (hp.beside hps.1) hps.2
  exact hall _ _ trivial (fresh_parts l)

end Algebra

namespace GroupStep

/-- What stands beside in a step is fresh. -/
def Fresh : GroupStep → Prop
  | .beside p => p.Fresh
  | _ => True

/-- A step of a group keeps a pattern fresh: a value goes to a variable only if that is not in
scope. -/
theorem Fresh.apply {p q : Algebra} {step : GroupStep} (hp : p.Fresh) (hstep : step.Fresh)
    (h : step.apply p = some q) : q.Fresh := by
  cases step with
  | beside r =>
      obtain rfl := Option.some.inj h
      exact hp.beside hstep
  | optional r =>
      have hshape : ∃ inner condition, q = .leftJoin p inner condition := by
        cases r <;> exact ⟨_, _, (Option.some.inj h).symm⟩
      obtain ⟨inner, condition, rfl⟩ := hshape
      trivial
  | minus r =>
      obtain rfl := Option.some.inj h
      trivial
  | bind e v =>
      rw [GroupStep.apply] at h
      split at h
      · cases h
      · next hnew =>
          obtain rfl := Option.some.inj h
          exact ⟨by simpa using hnew, hp⟩
  | filter e =>
      obtain rfl := Option.some.inj h
      exact hp

/-- So do the steps one after the other. -/
theorem Fresh.foldlM {p q : Algebra} {steps : List GroupStep} (hp : p.Fresh)
    (hsteps : ∀ step ∈ steps, step.Fresh) (h : steps.foldlM GroupStep.apply p = some q) :
    q.Fresh := by
  induction steps generalizing p with
  | nil =>
      obtain rfl := Option.some.inj h
      exact hp
  | cons step steps ih =>
      rw [List.forall_mem_cons] at hsteps
      rw [List.foldlM_cons] at h
      obtain ⟨r, hr, hq⟩ := Option.bind_eq_some_iff.mp h
      exact ih (Fresh.apply hp hsteps.1 hr) hsteps.2 hq

end GroupStep

namespace Selection

/-- A filter adds no value. -/
theorem fresh_filtered {p : Algebra} (hp : p.Fresh) (es : List Expr) : (filtered p es).Fresh := by
  cases es with
  | nil => exact hp
  | cons e es => trivial

/-- Nor does a grouping. -/
theorem fresh_grouped {p : Algebra} (hp : p.Fresh) (groups : Option (List GroupKey)) :
    (grouped p groups).Fresh := by
  cases groups with
  | none => exact hp
  | some ks => trivial

/-- Nor does an order. -/
theorem fresh_ordered {p : Algebra} (hp : p.Fresh) (order : Option (List (Direction × Expr))) :
    (ordered p order).Fresh := by
  cases order <;> exact hp

/-- Computed columns give values to variables that have none: a computed column is not visible in
the pattern, and no two columns have one name. -/
theorem fresh_withColumns {isGrouped : Bool} {visible : List String} (done : List String)
    {p q : Algebra} {cs : List Column} (hp : p.Fresh)
    (hscope : ∀ v ∈ p.inScope, v ∈ visible ∨ v ∈ done)
    (hnodup : (done ++ cs.map Column.name).Nodup)
    (h : withColumns isGrouped visible p cs = some q) : q.Fresh := by
  induction cs generalizing p done with
  | nil =>
      obtain rfl := Option.some.inj h
      exact hp
  | cons c cs ih =>
      rw [List.map_cons, List.append_cons] at hnodup
      cases c with
      | var v =>
          rw [withColumns] at h
          split at h
          · cases h
          · refine ih _ hp (fun w hw => ?_) hnodup h
            exact (hscope w hw).imp id (List.mem_append_left _)
      | computed e v =>
          rw [withColumns] at h
          split at h
          · cases h
          · next hvisible =>
              rw [Bool.not_eq_true, Bool.or_eq_false_iff] at hvisible
              have hhidden : v ∉ visible := by simpa using hvisible.1
              have hnew : v ∉ done := by
                intro habsurd
                exact List.disjoint_of_nodup_append (List.nodup_append.mp hnodup).1 habsurd
                  (List.mem_singleton_self v)
              have hfresh : v ∉ p.inScope := by
                intro habsurd
                rcases hscope v habsurd with hv | hv
                · exact hhidden hv
                · exact hnew hv
              refine ih (p := .extend p v e) _ ⟨hfresh, hp⟩ (fun w hw => ?_) hnodup h
              rw [Algebra.inScope, List.mem_cons] at hw
              rcases hw with rfl | hw
              · exact Or.inr (List.mem_append_right _ (List.mem_singleton_self w))
              · exact (hscope w hw).imp id (List.mem_append_left _)

/-- The variables in scope are sorted and listed once. -/
theorem nodup_sortedScope (p : Algebra) : (sortedScope p).Nodup := by
  have hall : ∀ (vs acc : List String), acc.Nodup → (vs.foldl appendNew acc).Nodup := by
    intro vs
    induction vs with
    | nil => exact fun _ hacc => hacc
    | cons v vs ih => exact fun _ hacc => ih _ (nodup_appendNew hacc v)
  unfold sortedScope
  exact (List.mergeSort_perm _ _).nodup_iff.mpr (hall _ [] List.nodup_nil)

end Selection

/-- The algebra of a selection of distinct columns from a fresh pattern. -/
def Algebra.IsSelection (p : Algebra) : Prop :=
  ∃ inner columns repetition slice,
    p = Selection.sliced (Selection.repeated (.project inner columns) repetition) slice ∧
    columns.Nodup ∧ inner.Fresh

/-- The computed columns of a selection go to variables that are not in scope, and no column is
named twice. -/
theorem Selection.fresh_of_selected? {s : Selection} {p q : Algebra} {names : List String}
    (hp : p.Fresh) (h : s.selected? p = some (q, names)) : q.Fresh ∧ names.Nodup := by
  unfold selected? at h
  simp only at h
  split at h
  · split at h
    · cases h
    · obtain ⟨rfl, rfl⟩ := Prod.mk.inj (Option.some.inj h)
      exact ⟨hp, nodup_sortedScope p⟩
  · split at h
    · next hnodup =>
        obtain ⟨r, hr, heq⟩ := Option.map_eq_some_iff.mp h
        obtain ⟨rfl, rfl⟩ := Prod.mk.inj heq
        exact ⟨fresh_withColumns [] hp (fun v hv => Or.inl hv) hnodup hr, hnodup⟩
    · cases h

/-- A selection from a fresh body is one of distinct columns from a fresh pattern. -/
theorem Selection.isSelection_of_algebra? {s : Selection} {p : Algebra} (hbody : s.body.Fresh)
    (hvalues : ∀ rows ∈ s.values, rows.Fresh) (h : s.algebra? = some p) : p.IsSelection := by
  have hfiltered := fresh_filtered (fresh_grouped hbody s.effectiveGroups) s.having
  unfold algebra? at h
  obtain ⟨⟨q, names⟩, hselected, hp⟩ := Option.bind_eq_some_iff.mp h
  obtain rfl := Option.some.inj hp
  have hpattern : q.Fresh ∧ names.Nodup := by
    refine fresh_of_selected? ?_ hselected
    cases hrows : s.values with
    | none => exact hfiltered
    | some rows => exact hfiltered.beside (hvalues rows hrows)
  exact ⟨_, names, s.repetition, s.slice, rfl, hpattern.2, fresh_ordered hpattern.1 s.order⟩

/-- A selection gives no value to a variable. -/
theorem Algebra.IsSelection.fresh {p : Algebra} (h : p.IsSelection) : p.Fresh := by
  obtain ⟨inner, columns, repetition, slice, rfl, -, -⟩ := h
  cases slice with
  | some bounds => trivial
  | none => cases repetition <;> trivial

/-! ### What patterns and requests answer -/

namespace Parser

variable {n : Nested}

/-- A block of data holds no values around it. -/
theorem answers_dataBlock : Answers dataBlock Algebra.Fresh := by
  refine Answers.orElse ?_ ?_
  · exact .of_bind fun _ => .of_bind fun _ => .of_bind fun _ => .of_bind fun _ => .of_bind fun _ =>
      answers_pure trivial
  · exact .of_bind fun _ => .of_bind fun _ => .of_bind fun _ => .of_bind fun _ => .of_bind fun _ =>
      .of_bind fun _ => .of_bind fun _ => .of_bind fun _ => .of_bind fun _ => .of_bind fun _ =>
        answers_pure trivial

/-- Alternatives hold no values around them. -/
theorem answers_unions (h : Answers n.group Algebra.Fresh) :
    Answers (unions n) GroupStep.Fresh := by
  refine (h.spaced.sepBy1 _).bind fun ps hps => ?_
  cases ps with
  | nil => exact answers_failure
  | cons p ps =>
      refine answers_pure ?_
      -- alternatives give no values of their own
      have hunion : ∀ (qs : List Algebra) (p : Algebra), p.Fresh → (qs.foldl .union p).Fresh := by
        intro qs
        induction qs with
        | nil => exact fun _ hp => hp
        | cons q qs ih => exact fun _ _ => ih _ trivial
      exact hunion ps p (hps p List.mem_cons_self)

/-- A step of a group is read as a fresh one. -/
theorem answers_groupStep (h : Answers n.group Algebra.Fresh) :
    Answers (groupStep n) GroupStep.Fresh := by
  unfold groupStep
  refine (answers_unions h).orElse (.orElse ?_ (.orElse ?_ (.orElse ?_ (.orElse ?_ (.orElse ?_
    (.orElse ?_ ?_))))))
  · exact .of_bind fun _ => .of_bind fun _ => answers_pure trivial
  · exact .of_bind fun _ => .of_bind fun _ => answers_pure trivial
  · exact .of_bind fun _ => .of_bind fun _ => .of_bind fun _ => answers_pure trivial
  · refine Answers.orElse ?_ ?_
    · exact .of_bind fun _ => .of_bind fun _ => .of_bind fun _ => .of_bind fun _ =>
        answers_pure trivial
    · exact .of_bind fun _ => .of_bind fun _ => .of_bind fun _ => answers_pure trivial
  · exact .of_bind fun _ => .of_bind fun _ => answers_pure trivial
  · exact .of_bind fun _ => .of_bind fun _ => answers_pure trivial
  · exact .of_bind fun _ => answers_dataBlock.bind fun _ hp => answers_pure hp

/-- So are the steps of an item of a group. -/
theorem answers_groupItem (h : Answers n.group Algebra.Fresh) :
    Answers (groupItem n) fun steps => ∀ step ∈ steps, step.Fresh := by
  refine (answers_groupStep h).spaced.bind fun step hstep => .of_bind fun _ => .of_bind fun ts => ?_
  cases ts with
  | none => exact answers_pure (by simpa using hstep)
  | some ts =>
      refine answers_pure ?_
      simp only [List.forall_mem_cons, List.not_mem_nil, false_imp_iff, implies_true, and_true]
      exact ⟨hstep, Algebra.fresh_algebra ts⟩

/-- The body of a group is read as a fresh pattern. -/
theorem answers_groupBody (h : Answers n.group Algebra.Fresh) :
    Answers (groupBody n) Algebra.Fresh := by
  refine .of_bind fun first => (answers_groupItem h).many.bind fun steps hsteps => ?_
  refine answers_option fun p hp => ?_
  obtain ⟨q, hq, hfiltered⟩ := Option.bind_eq_some_iff.mp hp
  obtain rfl := Option.some.inj hfiltered
  refine Selection.fresh_filtered (GroupStep.Fresh.foldlM ?_ ?_ hq) _
  · cases first with
    | none => trivial
    | some ts => exact Algebra.fresh_algebra ts
  · intro step hstep
    obtain ⟨group, hgroup, hmem⟩ := List.mem_flatten.mp hstep
    exact hsteps group hgroup step hmem

/-- The rows of values after a query are fresh. -/
theorem answers_modifiers : Answers (modifiers n) fun m => ∀ rows ∈ m.values, rows.Fresh := by
  refine .of_bind fun _ => .of_bind fun _ => .of_bind fun _ => .of_bind fun _ => ?_
  have hvalues : Answers (optional do word "VALUES"; dataBlock) fun values =>
      ∀ rows ∈ values, Algebra.Fresh rows := by
    refine Answers.orElse (Answers.map (.of_bind fun _ => ?_)) (answers_pure (by simp))
    intro cs s a rest s' ha rows hrows
    obtain rfl := Option.some.inj hrows
    exact answers_dataBlock cs s _ rest s' ha
  exact hvalues.bind fun values hfresh => answers_pure hfresh

/-- A selection is read as one of distinct columns from a fresh pattern. -/
theorem answers_selection {α : Type} (h : Answers n.group Algebra.Fresh) (dataset : Parser α) :
    Answers (selection n dataset) fun r => r.2.IsSelection := by
  refine .of_bind fun _ => .of_bind fun _ => .of_bind fun repetition => .of_bind fun columns =>
    .of_bind fun d => ?_
  have hbody : Answers (whereClause n) Algebra.Fresh := .of_bind fun _ => .of_bind fun _ => h
  refine hbody.spaced.bind fun body hfresh => answers_modifiers.bind fun m hvalues => ?_
  refine Answers.bind (P := Algebra.IsSelection) ?_ fun p hp => answers_pure hp
  refine .of_bind fun _ => answers_option fun p hp => ?_
  exact Selection.isSelection_of_algebra? hfresh hvalues hp

/-- A group is read as a fresh pattern, at every depth. -/
theorem answers_group (h : Answers n.group Algebra.Fresh) : Answers (group n) Algebra.Fresh := by
  have hbraced : ∀ {p : Parser Algebra}, Answers p Algebra.Fresh →
      Answers (group.braced p) Algebra.Fresh := by
    intro p hp
    refine .of_bind fun _ => .of_bind fun _ => .of_bind fun _ => hp.bind fun a ha => ?_
    exact .of_bind fun _ => .of_bind fun _ => .of_bind fun _ => answers_pure ha
  refine (hbraced (answers_groupBody h)).orElse (hbraced (Answers.map ?_))
  intro cs s a rest s' ha
  exact (answers_selection h _ cs s a rest s' ha).fresh

/-- **Patterns that are read are fresh**, at every depth of nesting. -/
theorem answers_nested (terms : NestedTerms) (depth : Nat) :
    Answers (nested terms depth).group Algebra.Fresh := by
  induction depth with
  | zero => exact answers_failure
  | succ depth ih => exact answers_group ih

/-- So the selection that a request asks for is one of distinct columns from a fresh pattern. -/
theorem answers_request (depth : Nat) :
    Answers (request depth) fun r => ∀ d p, r = .select d p → p.IsSelection := by
  refine .of_bind fun _ => .of_bind fun _ => .of_bind fun _ => ?_
  have hselect : Answers (request.select (nested (nestedTerms true depth) depth)) fun r =>
      ∀ d p, r = .select d p → p.IsSelection := by
    refine (answers_selection (answers_nested _ depth) dataset).bind fun r hr => ?_
    refine answers_pure fun d p hp => ?_
    obtain ⟨rfl, rfl⟩ := Request.select.inj hp
    exact hr
  refine Answers.bind (hselect.orElse (.of_bind fun _ => answers_pure nofun)) fun r hr => ?_
  exact .of_bind fun _ => answers_pure hr

end Parser

/-- **A text that asks for solutions selects distinct columns from a fresh pattern.** -/
theorem Request.isSelection_of_ofText? {text : String} {d : Bool} {p : Algebra}
    (h : Request.ofText? text = some (.select d p)) : p.IsSelection := by
  unfold Request.ofText? at h
  simp only at h
  split at h
  · next r heq =>
      obtain rfl := Option.some.inj h
      exact Parser.answers_request _ _ _ _ _ _ (Prod.ext heq rfl) d p rfl
  · cases h

end SparqlCompose.Sparql
