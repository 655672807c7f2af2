import Mathlib
import SparqlCompose.Proofs.Call
import SparqlCompose.Query.Text

/-!
# The body of a query loses nothing

The body is written with abbreviations.  Its text is a sequence of marks (`Body.Mark`): a statement
in full, a verb and an object after a semicolon, an object after a comma, a dot, and the two ends of
a block.  `Body.undo` takes the abbreviations back.  It goes through the marks with the subject and
the verb of the statement that has not ended yet and with the blocks that are still open, and it
refuses marks that make no sense: a comma without a statement, a brace before the dot.

What it gives for the text of a query are the clauses of the query in order, nothing lost, doubled
or moved (`Query.bodyText_undone`).  The induction follows the clauses.  Its invariant is that the
statement that has not ended is the one of the pattern that the writer remembers.
-/

namespace SparqlCompose

namespace Body

/-- A clause as it is written, without abbreviations. -/
inductive Written where
  | triple (subject verb object : String)
  | block (endpoint : String) (clauses : List Written)

/-- A piece of the text of a body. -/
inductive Mark where
  | statement (depth : Nat) (subject verb object : String)
  | semicolon (depth : Nat) (verb object : String)
  | comma (object : String)
  | dot
  | opening (depth : Nat) (endpoint : String)
  | closing (depth : Nat)

/-- The text of a mark. -/
def Mark.text : Mark → String
  | .statement depth s v o => Query.indent depth ++ s ++ " " ++ v ++ " " ++ o
  | .semicolon depth v o => " ;\n" ++ Query.indent (depth + 1) ++ v ++ " " ++ o
  | .comma o => ", " ++ o
  | .dot => " .\n"
  | .opening depth e => Query.indent depth ++ "SERVICE <" ++ e ++ "> \x7b\n"
  | .closing depth => Query.indent depth ++ "\x7d\n"

/-- What is known after some marks. -/
structure Undoing where
  /-- The subject and the verb of a statement that has not ended. -/
  unended : Option (String × String)
  /-- The clauses of the innermost open block. -/
  clauses : List Written
  /-- The endpoints of the open blocks, each with the clauses before it, innermost first. -/
  outer : List (String × List Written)

namespace Undoing

/-- Takes one mark back, if it may stand where it stands. -/
def step (u : Undoing) : Mark → Option Undoing
  | .statement _ s v o =>
    match u.unended with
    | none => some { u with unended := some (s, v), clauses := u.clauses ++ [.triple s v o] }
    | some _ => none
  | .semicolon _ v o =>
    u.unended.map fun (s, _) =>
      { u with unended := some (s, v), clauses := u.clauses ++ [.triple s v o] }
  | .comma o =>
    u.unended.map fun (s, v) => { u with clauses := u.clauses ++ [.triple s v o] }
  | .dot => u.unended.map fun _ => { u with unended := none }
  | .opening _ e =>
    match u.unended with
    | none => some ⟨none, [], (e, u.clauses) :: u.outer⟩
    | some _ => none
  | .closing _ =>
    match u.unended, u.outer with
    | none, (e, before) :: outer => some ⟨none, before ++ [.block e u.clauses], outer⟩
    | _, _ => none

/-- The clauses, if every statement and every block has ended. -/
def finish (u : Undoing) : Option (List Written) :=
  match u.unended, u.outer with
  | none, [] => some u.clauses
  | _, _ => none

end Undoing

/-- The clauses that are written in a sequence of marks. -/
def undo (marks : List Mark) : Option (List Written) :=
  (marks.foldlM Undoing.step ⟨none, [], []⟩).bind Undoing.finish

/-- The marks lead from one point to another. -/
def Leads (u : Undoing) (marks : List Mark) (u' : Undoing) : Prop :=
  marks.foldlM Undoing.step u = some u'

variable {u u' u'' : Undoing} {m : Mark} {marks more : List Mark}

theorem Leads.nil (u : Undoing) : Leads u [] u := rfl

/-- A mark that leads on is put before the marks that follow it. -/
theorem Leads.cons (hm : u.step m = some u') (h : Leads u' marks u'') :
    Leads u (m :: marks) u'' := by
  rw [Leads, List.foldlM_cons, hm]
  exact h

/-- What leads to a point and what leads on from there are read one after the other. -/
theorem Leads.append (h : Leads u marks u') (hmore : Leads u' more u'') :
    Leads u (marks ++ more) u'' := by
  rw [Leads, List.foldlM_append, h]
  exact hmore

/-- The text of a sequence of marks. -/
def textOf (marks : List Mark) : String := String.join (marks.map Mark.text)

@[simp]
theorem textOf_nil : textOf [] = "" := rfl

@[simp]
theorem textOf_cons (m : Mark) (marks : List Mark) :
    textOf (m :: marks) = m.text ++ textOf marks := by
  rw [textOf, List.map_cons, String.join_cons]
  rfl

@[simp]
theorem textOf_append (marks more : List Mark) :
    textOf (marks ++ more) = textOf marks ++ textOf more := by
  induction marks with
  | nil => simp
  | cons m marks ih => rw [List.cons_append, textOf_cons, ih, textOf_cons, String.append_assoc]

end Body

open Body

namespace Query

variable {q : Query} {t : PrefixTable}

/-! ### What is to be written -/

/-- A slot as it is written: the value of a variable that is bound, and the name of one that is
not. -/
def writtenTerm (q : Query) (t : PrefixTable) : Term → String
  | .var id => (q.table.at? id).elim "" fun v => v.bound.elim ("?" ++ v.name) (·.render t)
  | .resource r => r.render t
  | .literal l => l.render t

/-- A predicate as it is written. -/
def writtenVerb (q : Query) (t : PrefixTable) (p : Term) : String :=
  if p = .resource (.iri Vocabulary.rdfType) then "a" else q.writtenTerm t p

mutual

/-- A clause as it is written. -/
def written (q : Query) (t : PrefixTable) : Clause → Written
  | .pattern p =>
    .triple (q.writtenTerm t p.subject) (q.writtenVerb t p.predicate) (q.writtenTerm t p.object)
  | .service e cs _ => .block e (writtenAll q t cs)

/-- Clauses as they are written. -/
def writtenAll (q : Query) (t : PrefixTable) : List Clause → List Written
  | [] => []
  | c :: cs => written q t c :: writtenAll q t cs

end

/-! ### What the writer writes -/

/-- A query that passes its check has the variables of its patterns, at any depth. -/
theorem holds_of_validate (h : q.validate = .ok ()) {p : Pattern} (hp : p ∈ q.patterns) :
    q.Holds p := by
  rw [patterns, Clause.patternsAll_eq_flatMap] at hp
  obtain ⟨c, hc, hpc⟩ := List.mem_flatMap.mp hp
  refine holds_iff.mpr ?_
  intro id hid
  exact (validate_eq_ok.mp h).slots_lt c hc id (Clause.mem_varIds.mpr ⟨p, hpc, hid⟩)

/-- A slot whose variable is in the table is written without fail. -/
theorem termText_eq_ok {x : Term} (hx : q.Has x) :
    q.termText t x = .ok (q.writtenTerm t x) := by
  cases x with
  | resource r => rfl
  | literal l => rfl
  | var id =>
      obtain ⟨v, hv⟩ := OrderedMap.exists_at? (hx id rfl)
      rw [termText, var_eq_ok.mpr hv, writtenTerm, hv]
      cases hbound : v.bound <;> simp [Except.map, Variable.inline, Variable.token, hbound]

/-- So is a predicate. -/
theorem predicateText_eq_ok {x : Term} (hx : q.Has x) :
    q.predicateText t x = .ok (q.writtenVerb t x) := by
  unfold predicateText writtenVerb
  split
  · rfl
  · exact termText_eq_ok hx

/-- What the writer remembers of a pattern: the statement that it has not ended. -/
def unended (q : Query) (t : PrefixTable) (previous : Option Pattern) : Option (String × String) :=
  previous.map fun p => (q.writtenTerm t p.subject, q.writtenVerb t p.predicate)

/-- The end of the statement that has not ended. -/
theorem exists_stop (q : Query) (t : PrefixTable) (previous : Option Pattern)
    (before : List Written) (outer : List (String × List Written)) :
    ∃ marks, textOf marks = stop previous ∧
      Leads ⟨q.unended t previous, before, outer⟩ marks ⟨none, before, outer⟩ := by
  cases previous with
  | none => exact ⟨[], rfl, .nil _⟩
  | some p => exact ⟨[.dot], by simp [stop, Mark.text], .cons rfl (.nil _)⟩

/-- A pattern is written in marks that add it to the clauses. -/
theorem patternText_undone {depth : Nat} {previous : Option Pattern} {p : Pattern}
    (hp : q.Holds p) (before : List Written) (outer : List (String × List Written)) :
    ∃ text marks, q.patternText t depth previous p = .ok text ∧ textOf marks = text ∧
      Leads ⟨q.unended t previous, before, outer⟩ marks
        ⟨q.unended t (some p), before ++ [q.written t (.pattern p)], outer⟩ := by
  have hs : q.termText t p.subject = .ok (q.writtenTerm t p.subject) := termText_eq_ok hp.1
  have hv : q.predicateText t p.predicate = .ok (q.writtenVerb t p.predicate) :=
    predicateText_eq_ok hp.2.1
  have ho : q.termText t p.object = .ok (q.writtenTerm t p.object) := termText_eq_ok hp.2.2
  -- in full, after the end of what stands before
  obtain ⟨ending, hending, hended⟩ := q.exists_stop t previous before outer
  have hfull : Leads ⟨q.unended t previous, before, outer⟩
      (ending ++ [.statement depth (q.writtenTerm t p.subject) (q.writtenVerb t p.predicate)
        (q.writtenTerm t p.object)])
      ⟨q.unended t (some p), before ++ [q.written t (.pattern p)], outer⟩ := by
    refine hended.append (.cons ?_ (.nil _))
    rw [written]
    rfl
  unfold patternText
  simp only [hs, hv, ho, Outcome.ok_bind]
  cases previous with
  | none =>
      refine ⟨_, _, rfl, ?_, hfull⟩
      simp [hending, Mark.text, String.append_assoc]
  | some prev =>
      simp only
      by_cases hsame : prev.subject = p.subject
      · rw [if_pos hsame]
        by_cases hverb : prev.predicate = p.predicate
        · rw [if_pos hverb]
          refine ⟨_, [.comma (q.writtenTerm t p.object)], rfl, by simp [Mark.text],
            .cons ?_ (.nil _)⟩
          simp [Undoing.step, unended, written, hsame, hverb]
        · rw [if_neg hverb]
          refine ⟨_, [.semicolon depth (q.writtenVerb t p.predicate) (q.writtenTerm t p.object)],
            rfl, by simp [Mark.text], .cons ?_ (.nil _)⟩
          simp [Undoing.step, unended, written, hsame]
      · rw [if_neg hsame]
        refine ⟨_, _, rfl, ?_, hfull⟩
        simp [hending, Mark.text, String.append_assoc]

mutual

/-- A clause is written as marks that undo to it, from any point at which a statement may be open;
after it the statement of its last pattern is. -/
theorem clauseText_undone (depth : Nat) (previous : Option Pattern) (c : Clause)
    (hc : ∀ p ∈ c.patterns, q.Holds p) (before : List Written)
    (outer : List (String × List Written)) :
    ∃ text marks, q.clauseText t depth previous c = .ok text ∧ textOf marks = text ∧
      Leads ⟨q.unended t previous, before, outer⟩ marks
        ⟨q.unended t (lastPattern c), before ++ [q.written t c], outer⟩ := by
  cases c with
  | pattern p =>
      rw [clauseText]
      exact patternText_undone (hc p (by simp [Clause.patterns])) before outer
  | service e cs vs =>
      obtain ⟨ending, hending, hended⟩ := q.exists_stop t previous before outer
      obtain ⟨inner, marks, hinner, htext, hleads⟩ := clausesText_undone (depth + 1) none cs
        (by simpa [Clause.patterns] using hc) [] ((e, before) :: outer)
      rw [clauseText, hinner]
      refine ⟨_, ending ++ .opening depth e :: (marks ++ [.closing depth]), rfl, ?_, ?_⟩
      · simp [hending, htext, Mark.text, String.append_assoc]
      · refine hended.append (.cons rfl (hleads.append (.cons ?_ (.nil _))))
        rw [written]
        rfl

/-- Clauses are written in marks that add them to the clauses, and end the last statement. -/
theorem clausesText_undone (depth : Nat) (previous : Option Pattern) (cs : List Clause)
    (hcs : ∀ p ∈ Clause.patternsAll cs, q.Holds p) (before : List Written)
    (outer : List (String × List Written)) :
    ∃ text marks, q.clausesText t depth previous cs = .ok text ∧ textOf marks = text ∧
      Leads ⟨q.unended t previous, before, outer⟩ marks
        ⟨none, before ++ q.writtenAll t cs, outer⟩ := by
  cases cs with
  | nil =>
      obtain ⟨ending, hending, hended⟩ := q.exists_stop t previous before outer
      rw [clausesText, writtenAll, List.append_nil]
      exact ⟨_, ending, rfl, hending, hended⟩
  | cons c cs =>
      rw [Clause.patternsAll, List.forall_mem_append] at hcs
      obtain ⟨first, marks, hfirst, htext, hleads⟩ := clauseText_undone depth previous c hcs.1
        before outer
      obtain ⟨rest, more, hrest, hmoreText, hmore⟩ := clausesText_undone depth
        (lastPattern c) cs hcs.2 (before ++ [q.written t c]) outer
      rw [clausesText, hfirst, Outcome.ok_bind, hrest, writtenAll, List.append_cons]
      exact ⟨_, marks ++ more, rfl, by rw [textOf_append, htext, hmoreText], hleads.append hmore⟩

end

/-- **The body of a query loses nothing.**  A query that passes its check has a body.  It is written
in marks, and when their abbreviations are undone, there are the clauses of the query again: its
patterns and blocks in order, at every depth, each pattern by its three slots. -/
theorem bodyText_undone (q : Query) (h : q.validate = .ok ()) (t : PrefixTable) :
    ∃ text marks, q.bodyText t = .ok text ∧ text = String.join (marks.map Mark.text) ∧
      undo marks = some (q.writtenAll t q.clauses) := by
  obtain ⟨text, marks, htext, hmarks, hleads⟩ := clausesText_undone (t := t) 1 none q.clauses
    (fun p hp => holds_of_validate h hp) [] []
  refine ⟨text, marks, htext, hmarks.symm, ?_⟩
  have hfold : marks.foldlM Undoing.step ⟨none, [], []⟩ =
      some ⟨none, q.writtenAll t q.clauses, []⟩ := hleads
  rw [undo, hfold]
  rfl

end Query

/-- People by the name of Ann, with what two endpoints know of them, one of them nothing. -/
def annQuery : Query :=
  ({ uri := "urn:ann" } : Query).afterAll
    [.addVariable { uri := "urn:ann;var=id", name := "id" },
      .addVariable { uri := "urn:ann;var=name", name := "name" },
      .bind 1 (.literal (.plain "Ann")),
      .pushClause
        (.pattern ⟨.var 0, .resource (.iri Vocabulary.rdfType), .resource (.iri "urn:P")⟩),
      .pushClause (.pattern ⟨.var 0, .resource (.iri "urn:name"), .var 1⟩),
      .pushClause (.pattern ⟨.var 0, .resource (.iri "urn:name"), .resource (.iri "urn:N")⟩),
      .pushClause (.block "urn:e" [.pattern ⟨.var 0, .var 1, .var 0⟩, .block "urn:f" []]),
      .pushClause (.pattern ⟨.var 0, .var 1, .var 0⟩)]

/-- The body of the example. -/
def annBody : String :=
  "  ?id a <urn:P> ;\n    <urn:name> \"Ann\", <urn:N> .\n  SERVICE <urn:e> \x7b\n" ++
    "    ?id \"Ann\" ?id .\n    SERVICE <urn:f> \x7b\n    \x7d\n  \x7d\n  ?id \"Ann\" ?id .\n"

/-- The body of the example has statements that share a subject, and a block. -/
theorem Query.bodyText_undone_ann :
    annQuery.validate = .ok () ∧ ∃ marks, annQuery.bodyText .standard = .ok annBody ∧
      annBody = String.join (marks.map Mark.text) ∧
      undo marks = some (annQuery.writtenAll .standard annQuery.clauses) := by
  have hvalid : annQuery.validate = .ok () := by decide +kernel
  have hbody : annQuery.bodyText .standard = .ok annBody := by decide +kernel
  obtain ⟨text, marks, htext, hmarks, hundone⟩ := bodyText_undone annQuery hvalid .standard
  obtain rfl := Except.ok.inj (htext.symm.trans hbody)
  exact ⟨hvalid, marks, hbody, hmarks, hundone⟩

end SparqlCompose
