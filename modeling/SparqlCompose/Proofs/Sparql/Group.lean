import SparqlCompose.Proofs.Sparql.Triples
import SparqlCompose.Sparql.Group

/-!
# Graph patterns are read back

The body of a query is a run of patterns, then a block for an endpoint, then a run again, and so on;
inside a block it is the same one level deeper.  The reader makes a step of each block and of each
run and joins the steps, where runs next to each other merge.  What comes out lists the clauses in
order (`Algebra.Lists`), however it is nested in joins.

The induction in `reads_clauses` follows the clauses.  It holds the run that is being collected
apart from the blocks after it, since the reader of a run does not stop inside of it.
-/

namespace SparqlCompose.Sparql

/-! ### Algebra that lists clauses -/

/-- The algebra has the patterns and blocks of the clauses, in order. -/
inductive Algebra.Lists : Algebra → List NamedClause → Prop
  | bgp (ts : List TriplePattern) : Lists (.bgp ts) (ts.map .triple)
  | join {l r : Algebra} {cs ds : List NamedClause} (hl : Lists l cs) (hr : Lists r ds) :
      Lists (.join l r) (cs ++ ds)
  | service {e : String} {a : Algebra} {cs : List NamedClause} (h : Lists a cs) :
      Lists (.service (.iri e) a false) [.block e cs]

namespace Algebra.Lists

variable {l r : Algebra} {cs ds : List NamedClause}

/-- Side by side, two patterns list the clauses of both. -/
theorem beside (hl : l.Lists cs) (hr : r.Lists ds) : (l.beside r).Lists (cs ++ ds) := by
  unfold Algebra.beside
  split
  · next ts =>
      cases hl
      exact hr
  · cases hr
    rw [List.map_nil, List.append_nil]
    exact hl
  · next ts us hts hus =>
      cases hl
      cases hr
      rw [← List.map_append]
      exact .bgp _
  · exact .join hl hr

end Algebra.Lists

/-- The steps put patterns beside what stands before them; together they list the clauses. -/
inductive Besides : List GroupStep → List NamedClause → Prop
  | nil : Besides [] []
  | cons {a : Algebra} {steps : List GroupStep} {cs ds : List NamedClause} (h : a.Lists cs)
      (hrest : Besides steps ds) : Besides (.beside a :: steps) (cs ++ ds)

/-- Steps after steps list the clauses of both. -/
theorem Besides.append {steps more : List GroupStep} {cs ds : List NamedClause}
    (h : Besides steps cs) (hmore : Besides more ds) : Besides (steps ++ more) (cs ++ ds) := by
  induction h with
  | nil => exact hmore
  | cons h _ ih =>
      rw [List.cons_append, List.append_assoc]
      exact .cons h ih

/-- The pattern of a group lists what its start and its steps list. -/
theorem Besides.algebra? {steps : List GroupStep} {ds : List NamedClause} (h : Besides steps ds)
    {start : Algebra} {cs : List NamedClause} (hstart : start.Lists cs) :
    ∃ a, GroupStep.algebra? start steps = some a ∧ a.Lists (cs ++ ds) := by
  have hsteps : ∃ a, steps.foldlM GroupStep.apply start = some a ∧ a.Lists (cs ++ ds) ∧
      steps.filterMap GroupStep.condition? = [] := by
    induction h generalizing start cs with
    | nil => exact ⟨start, rfl, by simpa using hstart, rfl⟩
    | cons h _ ih =>
        obtain ⟨a, hfold, ha, hnone⟩ := ih (hstart.beside h)
        rw [List.append_assoc] at ha
        exact ⟨a, hfold, ha, hnone⟩
  obtain ⟨a, hfold, ha, hnone⟩ := hsteps
  refine ⟨a, ?_, ha⟩
  rw [GroupStep.algebra?, hfold, hnone]
  rfl

/-- The pattern of a run of triples lists them. -/
theorem lists_algebra (ps : List TriplePattern) :
    (Statement.algebra (ps.map .triple)).Lists (ps.map .triple) := by
  have hparts : ∀ p : TriplePattern, ∀ ps : List TriplePattern,
      Statement.parts ((p :: ps).map .triple) = [.bgp (p :: ps)] := by
    intro p ps
    induction ps generalizing p with
    | nil => rfl
    | cons p' ps ih =>
        have hrest := ih p'
        rw [List.map_cons, Statement.parts, hrest]
  cases ps with
  | nil => exact .bgp []
  | cons p ps =>
      rw [Statement.algebra, hparts]
      exact .bgp (p :: ps)

end SparqlCompose.Sparql

namespace SparqlCompose.NamedClause

open Sparql

mutual

/-- The reader can read a clause after the pattern before it. -/
def Legible (t : PrefixTable) (s : Scope) (σ : String → Option Constant)
    (previous : Option TriplePattern) : NamedClause → Prop
  | .triple p => KnowsTriple t s σ p ∧ ¬ p.MisreadWith σ previous
  | .block e cs => Iri.isAbsolute e = true ∧ LegibleAll t s σ none cs

/-- The reader can read clauses after the pattern before them. -/
def LegibleAll (t : PrefixTable) (s : Scope) (σ : String → Option Constant)
    (previous : Option TriplePattern) : List NamedClause → Prop
  | [] => True
  | c :: cs => Legible t s σ previous c ∧ LegibleAll t s σ c.last cs

end

/-- The clauses begin with a block, if there are any. -/
def Headed : List NamedClause → Prop
  | .triple _ :: _ => False
  | _ => True

/-- A run of patterns and what follows it. -/
def blockChars (t : PrefixTable) (σ : String → Option Constant) (depth : Nat)
    (after : List Char) : List TriplePattern → List Char
  | [] => after
  | p :: ps => indentChars depth ++ (p.chars t σ ++ Parser.tailChars t σ depth p ps after)

variable {t : PrefixTable} {σ : String → Option Constant} {depth : Nat} {ds : List NamedClause}

/-- Before a block the pattern before it is at its end. -/
theorem charsAll_of_headed (h : Headed ds) (p : TriplePattern) :
    charsAll t σ depth (some p) ds = ' ' :: '.' :: '\n' :: charsAll t σ depth none ds := by
  have hstop : " .\n".toList = [' ', '.', '\n'] := by decide
  cases ds with
  | nil => simp [charsAll, stopChars, hstop]
  | cons c ds =>
      cases c with
      | triple p => exact h.elim
      | block e cs => simp [charsAll, chars, stopChars, hstop]

/-- A run of patterns before a block is written like the statements that follow a pattern. -/
theorem charsAll_run (h : Headed ds) (ps : List TriplePattern) (p : TriplePattern)
    (rest : List Char) :
    charsAll t σ depth (some p) (ps.map .triple ++ ds) ++ rest =
      Parser.tailChars t σ depth p ps (charsAll t σ depth none ds ++ rest) := by
  induction ps generalizing p with
  | nil =>
      rw [List.map_nil, List.nil_append, charsAll_of_headed h]
      rfl
  | cons p' ps ih =>
      rw [List.map_cons, List.cons_append, charsAll, last, chars, List.append_assoc, ih]
      simp [Parser.tailChars, runChars]

/-- Values are put in place in a run and in what follows it. -/
theorem settledAll_append (σ : String → Option Constant) (ps : List TriplePattern)
    (ds : List NamedClause) :
    settledAll σ (ps.map .triple ++ ds) =
      (ps.map (TriplePattern.settled σ)).map .triple ++ settledAll σ ds := by
  induction ps with
  | nil => rfl
  | cons p ps ih =>
      rw [List.map_cons, List.cons_append, settledAll, settled, ih, List.map_cons, List.map_cons,
        List.cons_append]

/-- The text of clauses is that of their first run and of what follows. -/
theorem charsAll_append (h : Headed ds) (ps : List TriplePattern) (rest : List Char) :
    charsAll t σ depth none (ps.map .triple ++ ds) ++ rest =
      blockChars t σ depth (charsAll t σ depth none ds ++ rest) ps := by
  cases ps with
  | nil => rfl
  | cons p ps =>
      rw [List.map_cons, List.cons_append, charsAll, last, List.append_assoc, charsAll_run h]
      simp [chars, TriplePattern.charsAfter, blockChars]

/-- The text of a block and what follows it. -/
theorem charsAll_block (e : String) (cs ds : List NamedClause) (rest : List Char) :
    charsAll t σ depth none (.block e cs :: ds) ++ rest =
      indentChars depth ++ ("SERVICE".toList ++ ' ' :: '<' :: (e.toList ++ '>' :: ' ' :: '\x7b' ::
        '\n' :: (charsAll t σ (depth + 1) none cs ++ (indentChars depth ++ '\x7d' :: '\n' ::
          (charsAll t σ depth none ds ++ rest))))) := by
  have hwords : "SERVICE <".toList = "SERVICE".toList ++ [' ', '<'] ∧
      "> \x7b\n".toList = ['>', ' ', '\x7b', '\n'] ∧ "\x7d\n".toList = ['\x7d', '\n'] := by
    decide
  simp [charsAll, chars, last, stopChars, hwords]

end SparqlCompose.NamedClause

namespace SparqlCompose.Sparql.Parser

open NamedClause

variable {t : PrefixTable} {s : Scope} {σ : String → Option Constant} {cs rest : List Char}

/-! ### What ends a run -/

/-- What stands after a run of patterns: the end of the group, or a block. -/
def EndsRun (cs : List Char) : Prop :=
  cs.head? = some '\x7d' ∨ ∃ rest, cs = "SERVICE".toList ++ ' ' :: rest

/-- A run ends before a brace or before the first letter of a block. -/
theorem EndsRun.head (h : EndsRun cs) : ∀ c, cs.head? = some c → c = '\x7d' ∨ c = 'S' := by
  intro c hc
  rcases h with h | ⟨rest, rfl⟩
  · left
    exact Option.some.inj (hc.symm.trans h)
  · right
    have hword : "SERVICE".toList = ['S', 'E', 'R', 'V', 'I', 'C', 'E'] := by decide
    rw [hword] at hc
    exact (Option.some.inj hc).symm

/-- It ends where no other character stands. -/
theorem EndsRun.head_ne (h : EndsRun cs) {c : Char} (hc : c ≠ '\x7d' ∧ c ≠ 'S') :
    cs.head? ≠ some c := by
  intro habsurd
  rcases h.head c habsurd with rfl | rfl
  · exact hc.1 rfl
  · exact hc.2 rfl

/-- No IRI begins there. -/
theorem EndsRun.refuses_iri (h : EndsRun cs) : Refuses iri s cs := by
  rcases h with h | ⟨rest, rfl⟩
  · refine Parser.refuses_iri ?_
    intro c hc
    obtain rfl := Option.some.inj (hc.symm.trans h)
    decide
  · have hinner : "SERVICE".toList.all NameChars.isInner = true := by decide
    exact refuses_iri_of_word (List.all_eq_true.mp hinner) (delimited_cons rfl _)

/-- Nor does a literal. -/
theorem EndsRun.refuses_literal (h : EndsRun cs) : Refuses literal s cs := by
  have hstring : Refuses stringLiteral s cs := by
    refine (refuses_string ?_).bind
    intro c hc
    rcases h.head c hc with rfl | rfl
    all_goals decide
  have hnumber : Refuses number s cs := by
    refine refuses_number ?_
    intro c hc
    rcases h.head c hc with rfl | rfl
    all_goals decide
  have hboolean : Refuses boolean s cs := by
    refine Refuses.orElse ?_ ?_
    · exact Refuses.bind (refuses_lead (c := 't') (by decide) (h.head_ne (by decide)))
    · exact Refuses.bind (refuses_lead (c := 'f') (by decide) (h.head_ne (by decide)))
  exact hstring.orElse (hnumber.orElse hboolean)

/-- So neither a variable nor a term begins there. -/
theorem EndsRun.refuses_varOrTerm (h : EndsRun cs) : Refuses varOrTerm s cs := by
  have hvariable : Refuses variableName s cs := by
    refine refuses_variableName ?_
    intro c hc
    rcases h.head c hc with rfl | rfl
    all_goals decide
  have hlabel : Refuses labelledNode s cs := by
    refine Refuses.bind (.lift (Scan.bind_of_none (Scan.lead_of_head (c := '_') ?_ ?_)))
    · decide
    · exact h.head_ne (by decide)
  have hbrackets : Refuses emptyBrackets s cs := Refuses.bind (refuses_char (h.head_ne (by decide)))
  have hnil : Refuses nil s cs := Refuses.bind (refuses_char (h.head_ne (by decide)))
  refine Refuses.orElse hvariable.map ?_
  refine Refuses.orElse h.refuses_iri.map ?_
  refine Refuses.orElse h.refuses_literal.map ?_
  refine Refuses.orElse hlabel.map ?_
  exact Refuses.orElse hbrackets.map hnil.bind

/-- Nor does a term with properties of its own. -/
theorem EndsRun.refuses_described (h : EndsRun cs) (d : Nat) :
    Refuses (nestedTerms true d).described s cs := by
  cases d with
  | zero => exact refuses_failure _ _
  | succ d =>
      refine Refuses.orElse ?_ ?_
      · exact Refuses.bind (refuses_char (h.head_ne (by decide)))
      · exact Refuses.bind (refuses_char (h.head_ne (by decide)))

/-- So no triples with a subject of their own begin there. -/
theorem EndsRun.refuses_sameSubject (h : EndsRun cs) (d : Nat) :
    Refuses (sameSubject (nestedTerms true d)) s cs :=
  Refuses.orElse h.refuses_varOrTerm.spaced.bind (h.refuses_described d).spaced.bind

/-- Whether terms may have paths is the same at every depth. -/
theorem paths_nestedTerms (paths : Bool) (d : Nat) : (nestedTerms paths d).paths = paths := by
  cases d <;> rfl

/-! ### Runs -/

/-- The value of a run, which is none where no pattern stands. -/
def runValue (ps : List TriplePattern) : Option (List Statement) :=
  if ps.isEmpty then none else some (ps.map .triple)

/-- A run is read up to what ends it, with the values of variables in place. -/
theorem reads_runChars (d depth : Nat) {ps : List TriplePattern} {after : List Char}
    (h : LegibleRun t s σ none ps) (hafter : EndsRun (strip after)) :
    Reads (spaced (optional (triplesBlock (nestedTerms true d)))) s
      (strip (blockChars t σ depth after ps)) (runValue (ps.map (TriplePattern.settled σ)))
      (strip after) := by
  cases ps with
  | nil =>
      have hrefuses := (hafter.refuses_sameSubject (s := s) d).spaced
      exact hrefuses.sepBy1.bind.optional.spaced_to strip_strip
  | cons p ps =>
      have hblock := reads_triplesBlock (paths_nestedTerms true d)
        (hafter.refuses_sameSubject (s := s) d) depth h
      have hstart : strip (blockChars t σ depth after (p :: ps)) =
          p.chars t σ ++ tailChars t σ depth p ps after := by
        rw [blockChars, strip_indent, strip_pattern h.1]
      rw [hstart]
      exact hblock.optional.spaced_to strip_strip

/-! ### Blocks -/

section Blocks

variable {n : Nested}

/-- A word in capitals is read as it stands, with the white space behind it. -/
theorem reads_word (w : String) (hw : w.toList.map Char.toUpper = w.toList)
    (hrest : strip cs = rest) : Reads (word w) s (w.toList ++ cs) () rest :=
  (reads_keyword w hw).bind (reads_space_to hrest)

/-- A word is refused where its first letter does not stand. -/
theorem refuses_word {w : String} {c : Char} (hw : w.toList.head? = some c)
    (h : ∀ d, cs.head? = some d → d.toUpper ≠ c) : Refuses (word w) s cs :=
  (refuses_keyword_of_head hw h).bind

/-- Without labels in it, a pattern begins and ends without a trace. -/
theorem reads_closePattern (h : s.openLabels = []) : Reads closePattern s cs () cs := by
  have hsame : { s with closedLabels := s.openLabels ++ s.closedLabels, openLabels := [] } = s := by
    rw [h, List.nil_append, ← h]
  exact congrArg (Prod.mk (some ((), cs))) hsame

/-- A group is read when its body is read up to the brace at its end. -/
theorem reads_group (hlabels : s.openLabels = []) {a : Algebra}
    (h : Reads (groupBody n) s (strip cs) a ('\x7d' :: rest)) :
    Reads (group n) s ('\x7b' :: cs) a rest := by
  have hclose : strip ('\x7d' :: rest) = '\x7d' :: rest := strip_cons rfl (by decide)
  refine Reads.orElse ?_
  refine (reads_char '\x7b').bind (reads_space.bind ?_)
  refine (reads_closePattern hlabels).bind (h.bind ?_)
  refine (reads_closePattern hlabels).bind (reads_space.bind ?_)
  rw [hclose]
  exact (reads_char '\x7d').bind (reads_pure _ _ _)

/-- A group begins with a brace. -/
theorem refuses_group {d k : Nat} (h : cs.head? ≠ some '\x7b') :
    Refuses (nested (nestedTerms true d) k).group s cs := by
  cases k with
  | zero => exact refuses_failure _ _
  | succ k =>
      refine Refuses.orElse ?_ ?_
      · exact Refuses.bind (refuses_char h)
      · exact Refuses.bind (refuses_char h)

/-- The terms of a group are the same at every depth. -/
theorem terms_nested (terms : NestedTerms) (k : Nat) : (nested terms k).terms = terms := by
  cases k <;> rfl

theorem toList_service : "SERVICE".toList = ['S', 'E', 'R', 'V', 'I', 'C', 'E'] := by decide

/-- No other word than that of a block stands where a block begins. -/
theorem refuses_word_service {w : String} {c : Char} (hw : w.toList.head? = some c) (hne : 'S' ≠ c)
    (more : List Char) : Refuses (word w) s ("SERVICE".toList ++ more) := by
  refine refuses_word hw ?_
  rw [toList_service]
  intro d hd
  obtain rfl := Option.some.inj hd
  exact hne

/-- The endpoint of a block is read up to the brace of its pattern. -/
theorem reads_endpoint {e : String} (hbase : s.base = none) (he : Iri.isAbsolute e = true) :
    Reads (spaced varOrIri) s ('<' :: (e.toList ++ '>' :: ' ' :: '\x7b' :: cs)) (.iri e)
      ('\x7b' :: cs) := by
  have hbrace : strip (' ' :: '\x7b' :: cs) = '\x7b' :: cs := by
    rw [strip_space]
    exact strip_cons rfl (by decide)
  have hread : Reads iriRef s ('<' :: (e.toList ++ '>' :: ' ' :: '\x7b' :: cs)) e
      (' ' :: '\x7b' :: cs) := reads_iriRef hbase he
  refine Reads.spaced_to (Refuses.orElse_reads ?_ hread.orElse.map) hbrace
  exact (refuses_variableName (by simp)).map

/-- A block is read when its pattern is. -/
theorem reads_serviceStep {d k : Nat} {e : String} (hbase : s.base = none)
    (he : Iri.isAbsolute e = true) {a : Algebra}
    (h : Reads (nested (nestedTerms true d) k).group s ('\x7b' :: cs) a rest) :
    Reads (serviceStep (nested (nestedTerms true d) k)) s
      ("SERVICE".toList ++ ' ' :: '<' :: (e.toList ++ '>' :: ' ' :: '\x7b' :: cs))
      (.beside (.service (.iri e) a false)) rest := by
  have hopen : strip (' ' :: '<' :: (e.toList ++ '>' :: ' ' :: '\x7b' :: cs)) =
      '<' :: (e.toList ++ '>' :: ' ' :: '\x7b' :: cs) := by
    rw [strip_space]
    exact strip_cons rfl (by decide)
  have hservice : Reads (word "SERVICE") s
      ("SERVICE".toList ++ ' ' :: '<' :: (e.toList ++ '>' :: ' ' :: '\x7b' :: cs)) ()
      ('<' :: (e.toList ++ '>' :: ' ' :: '\x7b' :: cs)) :=
    reads_word "SERVICE" (by decide) hopen
  have hsilent : Refuses (word "SILENT") s ('<' :: (e.toList ++ '>' :: ' ' :: '\x7b' :: cs)) := by
    refine refuses_word (c := 'S') (by decide) ?_
    intro d hd
    obtain rfl := Option.some.inj hd
    decide
  refine Refuses.orElse_reads (hservice.bind_refuses hsilent.bind) ?_
  exact hservice.bind ((reads_endpoint hbase he).bind (h.bind (reads_pure _ _ _)))

/-- A block is a step of a group: the forms that are tried before it begin with another word. -/
theorem reads_groupStep {d k : Nat} {e : String} (hbase : s.base = none)
    (he : Iri.isAbsolute e = true) {a : Algebra}
    (h : Reads (nested (nestedTerms true d) k).group s ('\x7b' :: cs) a rest) :
    Reads (groupStep (nested (nestedTerms true d) k)) s
      ("SERVICE".toList ++ ' ' :: '<' :: (e.toList ++ '>' :: ' ' :: '\x7b' :: cs))
      (.beside (.service (.iri e) a false)) rest := by
  have hunions : Refuses (unions (nested (nestedTerms true d) k)) s
      ("SERVICE".toList ++ ' ' :: '<' :: (e.toList ++ '>' :: ' ' :: '\x7b' :: cs)) := by
    refine Refuses.bind (Refuses.sepBy1 (refuses_group ?_).spaced)
    rw [toList_service]
    simp
  refine Refuses.orElse_reads hunions ?_
  refine Refuses.orElse_reads (refuses_word_service (c := 'O') (by decide) (by decide) _).bind ?_
  refine Refuses.orElse_reads (refuses_word_service (c := 'M') (by decide) (by decide) _).bind ?_
  refine Refuses.orElse_reads (refuses_word_service (c := 'G') (by decide) (by decide) _).bind ?_
  exact (reads_serviceStep hbase he h).orElse

/-- The steps of a block and of the run after it. -/
def itemSteps (e : String) (a : Algebra) (ps : List TriplePattern) : List GroupStep :=
  match runValue ps with
  | some ts => [.beside (.service (.iri e) a false), .beside (Statement.algebra ts)]
  | none => [.beside (.service (.iri e) a false)]

/-- The steps of a block and of the run after it list the block and the patterns. -/
theorem besides_itemSteps {e : String} {a : Algebra} {cs : List NamedClause} (h : a.Lists cs)
    (ps : List TriplePattern) :
    Besides (itemSteps e a ps) (.block e cs :: ps.map .triple) := by
  have hblock : (Algebra.service (.iri e) a false).Lists [.block e cs] := .service h
  cases ps with
  | nil => exact .cons hblock .nil
  | cons p ps =>
      have hrun := lists_algebra (p :: ps)
      have hsteps :
          Besides (itemSteps e a (p :: ps)) ([.block e cs] ++ ((p :: ps).map .triple ++ [])) :=
        .cons hblock (.cons hrun .nil)
      rwa [List.append_nil] at hsteps

/-- A run does not begin with a dot. -/
theorem head_run {depth : Nat} {ps : List TriplePattern} {after : List Char}
    (h : LegibleRun t s σ none ps) (hafter : EndsRun (strip after)) :
    (strip (blockChars t σ depth after ps)).head? ≠ some '.' := by
  cases ps with
  | nil => exact hafter.head_ne (by decide)
  | cons p ps =>
      rw [blockChars, strip_indent, strip_pattern h.1, TriplePattern.chars, List.append_assoc]
      exact head_chars_of_noLiteral h.1.subject h.1.noLiteral

/-- A block and the run after it are read. -/
theorem reads_groupItem {d k depth : Nat} {e : String} (hbase : s.base = none)
    (he : Iri.isAbsolute e = true) {a : Algebra} {ps : List TriplePattern} {after : List Char}
    (h : Reads (nested (nestedTerms true d) k).group s ('\x7b' :: cs) a
      ('\n' :: blockChars t σ depth after ps))
    (hps : LegibleRun t s σ none ps) (hafter : EndsRun (strip after)) :
    Reads (groupItem (nested (nestedTerms true d) k)) s
      ("SERVICE".toList ++ ' ' :: '<' :: (e.toList ++ '>' :: ' ' :: '\x7b' :: cs))
      (itemSteps e a (ps.map (TriplePattern.settled σ))) (strip after) := by
  have hstep := (reads_groupStep hbase he h).spaced
  rw [strip_newline] at hstep
  have hdot : Refuses (separator '.') s (strip (blockChars t σ depth after ps)) :=
    Refuses.bind (refuses_char (head_run hps hafter))
  have hrun := reads_runChars d depth hps hafter
  refine hstep.bind (hdot.optional.bind ?_)
  rw [terms_nested]
  refine hrun.bind ?_
  cases ps with
  | nil => exact reads_pure _ _ _
  | cons p ps => exact reads_pure _ _ _

/-- No item of a group begins with the brace at its end. -/
theorem refuses_groupItem {d k : Nat} (h : cs.head? = some '\x7d') :
    Refuses (groupItem (nested (nestedTerms true d) k)) s cs := by
  have hword : ∀ {w : String} {c : Char}, w.toList.head? = some c → '\x7d' ≠ c →
      Refuses (word w) s cs := by
    intro w c hw hne
    refine refuses_word hw ?_
    intro d hd
    obtain rfl := Option.some.inj (hd.symm.trans h)
    exact hne
  have hunions : Refuses (unions (nested (nestedTerms true d) k)) s cs := by
    refine Refuses.bind (Refuses.sepBy1 (refuses_group ?_).spaced)
    rw [h]
    decide
  have hservice : Refuses (word "SERVICE") s cs := hword (c := 'S') (by decide) (by decide)
  refine Refuses.bind (Refuses.spaced ?_)
  refine Refuses.orElse hunions ?_
  refine Refuses.orElse (hword (c := 'O') (by decide) (by decide)).bind ?_
  refine Refuses.orElse (hword (c := 'M') (by decide) (by decide)).bind ?_
  refine Refuses.orElse (hword (c := 'G') (by decide) (by decide)).bind ?_
  refine Refuses.orElse (Refuses.orElse hservice.bind hservice.bind) ?_
  refine Refuses.orElse (hword (c := 'F') (by decide) (by decide)).bind ?_
  refine Refuses.orElse (hword (c := 'B') (by decide) (by decide)).bind ?_
  exact (hword (c := 'V') (by decide) (by decide)).bind

end Blocks

/-! ### Clauses -/

section Clauses

variable {d k depth : Nat} {ps : List TriplePattern} {ds : List NamedClause}

/-- The clauses are read as the body of a group, up to the brace at its end, with the values of
variables in place. -/
def ReadsBody (t : PrefixTable) (s : Scope) (σ : String → Option Constant) (d k depth : Nat)
    (cs : List NamedClause) : Prop :=
  ∀ indent rest, ∃ a, Reads (groupBody (nested (nestedTerms true d) k)) s
    (strip (charsAll t σ depth none cs ++ (indentChars indent ++ '\x7d' :: rest))) a
    ('\x7d' :: rest) ∧ a.Lists (settledAll σ cs)

/-- The clauses are read as the steps of a group, up to the brace at its end, with the values of
variables in place. -/
def ReadsSteps (t : PrefixTable) (s : Scope) (σ : String → Option Constant) (d k depth : Nat)
    (ds : List NamedClause) : Prop :=
  ∀ indent rest, ∃ steps, ReadsAll (groupItem (nested (nestedTerms true d) k)) s
    (strip (charsAll t σ depth none ds ++ (indentChars indent ++ '\x7d' :: rest))) steps
    ('\x7d' :: rest) ∧ Besides steps.flatten (settledAll σ ds)

/-- No white space stands before a brace. -/
theorem strip_brace (rest : List Char) : strip ('\x7d' :: rest) = '\x7d' :: rest :=
  strip_cons rfl (by decide)

/-- Nor before the word of a block. -/
theorem strip_service (rest : List Char) :
    strip ("SERVICE".toList ++ rest) = "SERVICE".toList ++ rest := by
  rw [toList_service]
  exact strip_cons rfl (by decide)

/-- What is written before a block or at the end of a group ends a run. -/
theorem endsRun_of_headed (t : PrefixTable) (σ : String → Option Constant) (depth : Nat)
    (h : Headed ds) (indent : Nat)
    (rest : List Char) :
    EndsRun (strip (charsAll t σ depth none ds ++ (indentChars indent ++ '\x7d' :: rest))) := by
  cases ds with
  | nil =>
      have hend : charsAll t σ depth none [] = [] := rfl
      rw [hend, List.nil_append, strip_indent, strip_brace]
      exact Or.inl rfl
  | cons c ds =>
      cases c with
      | triple p => exact h.elim
      | block e cs =>
          rw [charsAll_block, strip_indent, strip_service]
          exact Or.inr ⟨_, rfl⟩

/-- The body of a group is its first run and its steps. -/
theorem ReadsSteps.body (h : ReadsSteps t s σ d k depth ds) (hds : Headed ds)
    (hps : LegibleRun t s σ none ps) : ReadsBody t s σ d k depth (ps.map .triple ++ ds) := by
  intro indent rest
  obtain ⟨steps, hsteps, hbesides⟩ := h indent rest
  have hrun := reads_runChars d depth hps (endsRun_of_headed t σ depth hds indent rest)
  have hstart : (match runValue (ps.map (TriplePattern.settled σ)) with
      | some ts => Statement.algebra ts
      | none => .empty).Lists ((ps.map (TriplePattern.settled σ)).map .triple) := by
    cases ps with
    | nil => exact .bgp []
    | cons p ps => exact lists_algebra (p.settled σ :: ps.map (TriplePattern.settled σ))
  obtain ⟨a, halgebra, ha⟩ := hbesides.algebra? hstart
  rw [← settledAll_append] at ha
  refine ⟨a, ?_, ha⟩
  unfold groupBody
  rw [terms_nested, charsAll_append hds]
  exact hrun.bind (hsteps.many.bind (reads_option halgebra))

/-- Without clauses there are no steps to read. -/
theorem readsSteps_nil : ReadsSteps t s σ d k depth [] := by
  intro indent rest
  have hend : charsAll t σ depth none [] = [] := rfl
  rw [hend, List.nil_append, strip_indent, strip_brace]
  exact ⟨[], .nil (refuses_groupItem rfl), .nil⟩

/-- Writing a run makes no text shorter than what follows it. -/
theorem length_blockChars (t : PrefixTable) (σ : String → Option Constant) (depth : Nat)
    (ps : List TriplePattern) (after : List Char) :
    after.length ≤ (blockChars t σ depth after ps).length := by
  cases ps with
  | nil => exact le_rfl
  | cons p ps =>
      simp [blockChars, tailChars]
      omega

/-- A block is a step of its own, and the run after it is another. -/
theorem ReadsBody.steps {e : String} {cs : List NamedClause}
    (hbody : ReadsBody t s σ d k (depth + 1) cs) (hbase : s.base = none)
    (hlabels : s.openLabels = []) (he : Iri.isAbsolute e = true) (hds : Headed ds)
    (hps : LegibleRun t s σ none ps)
    (h : ReadsSteps t s σ d (k + 1) depth ds) :
    ReadsSteps t s σ d (k + 1) depth (.block e cs :: (ps.map .triple ++ ds)) := by
  intro indent rest
  obtain ⟨steps, hsteps, hbesides⟩ := h indent rest
  have hafter := endsRun_of_headed t σ depth hds indent rest
  rw [charsAll_block, strip_indent, strip_service, charsAll_append hds]
  generalize charsAll t σ depth none ds ++ (indentChars indent ++ '\x7d' :: rest) = after at *
  obtain ⟨a, ha, hlists⟩ := hbody depth ('\n' :: blockChars t σ depth after ps)
  have hgroup : Reads (nested (nestedTerms true d) (k + 1)).group s
      ('\x7b' :: '\n' :: (charsAll t σ (depth + 1) none cs ++
        (indentChars depth ++ '\x7d' :: '\n' :: blockChars t σ depth after ps))) a
      ('\n' :: blockChars t σ depth after ps) :=
    reads_group hlabels (by rwa [strip_newline])
  have hitem := reads_groupItem hbase he hgroup hps hafter
  refine ⟨itemSteps e a (ps.map (TriplePattern.settled σ)) :: steps, .cons hitem ?_ hsteps, ?_⟩
  · have hstrip := length_strip after
    have hblock := length_blockChars t σ depth ps after
    simp
    omega
  · have hall :=
      (besides_itemSteps (e := e) hlists (ps.map (TriplePattern.settled σ))).append hbesides
    rw [settledAll, settled, settledAll_append]
    simpa using hall

/-- **Clauses are read as a run of patterns and the steps of a group.**  The induction is on the
clauses.  A pattern goes to the front of the run; a block closes the run that was collected after
it, and its own clauses are read one level deeper. -/
theorem reads_clauses (hbase : s.base = none) (hlabels : s.openLabels = []) (d k depth : Nat)
    (previous : Option TriplePattern) (cs : List NamedClause)
    (h : LegibleAll t s σ previous cs) (hlength : (charsAll t σ depth previous cs).length ≤ k) :
    ∃ ps ds, cs = ps.map .triple ++ ds ∧ Headed ds ∧ LegibleRun t s σ previous ps ∧
      ReadsSteps t s σ d k depth ds := by
  cases cs with
  | nil => exact ⟨[], [], rfl, trivial, trivial, readsSteps_nil⟩
  | cons c cs =>
      obtain ⟨hc, hcs⟩ := h
      rw [charsAll, List.length_append] at hlength
      obtain ⟨ps, ds, rfl, hds, hps, hsteps⟩ := reads_clauses hbase hlabels d k depth c.last cs hcs
        (by omega)
      cases c with
      | triple p =>
          exact ⟨p :: ps, ds, rfl, hds, ⟨hc.1, hc.2, hps⟩, hsteps⟩
      | block e inner =>
          have hinner : (charsAll t σ (depth + 1) none inner).length < k := by
            rw [chars] at hlength
            simp only [List.length_append] at hlength
            have hbrace : 0 < "\x7d\n".toList.length := by decide
            omega
          obtain ⟨k, rfl⟩ : ∃ m, k = m + 1 := ⟨k - 1, by omega⟩
          obtain ⟨qs, es, rfl, hes, hqs, hinnerSteps⟩ :=
            reads_clauses hbase hlabels d k (depth + 1) none inner hc.2 (by omega)
          have hbody := hinnerSteps.body hes hqs
          exact ⟨[], _, rfl, trivial, trivial, hbody.steps hbase hlabels hc.1 hds hps hsteps⟩

/-- **The body of a query is read as an algebra that lists its clauses.** -/
theorem reads_body (hbase : s.base = none) (hlabels : s.openLabels = []) (d k depth : Nat)
    {cs : List NamedClause} (h : LegibleAll t s σ none cs)
    (hlength : (charsAll t σ depth none cs).length ≤ k) : ReadsBody t s σ d k depth cs := by
  obtain ⟨ps, ds, rfl, hds, hps, hsteps⟩ := reads_clauses hbase hlabels d k depth none cs h hlength
  exact hsteps.body hds hps

end Clauses

end SparqlCompose.Sparql.Parser
