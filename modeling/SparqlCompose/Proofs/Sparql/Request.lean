import SparqlCompose.Proofs.Sparql.Modifiers
import SparqlCompose.Proofs.Sparql.Prologue

/-!
# The text of a query is read as a selection

The declarations, the columns, the body and the clauses after it are read one after the other.
What comes out is the algebra of the outline of the query around a pattern that lists its
clauses (`Sparql.ofText?_chars`).  The values of variables are in place in the clauses; around the
pattern the variables among the columns get their values (`Algebra.extended`).
-/

namespace SparqlCompose.Sparql

open NamedClause

variable {o : Query.Outline} {t : PrefixTable} {s : Scope} {σ : String → Option Constant}
  {cs rest : List Char}

/-! ### Values around a pattern -/

/-- A pattern under values for variables, the first one innermost. -/
def Algebra.extended (p : Algebra) (values : List (String × Constant)) : Algebra :=
  values.foldl (fun p b => .extend p b.1 (.constant b.2)) p

/-- The last value is the outermost one. -/
theorem Algebra.extended_concat (p : Algebra) (values : List (String × Constant))
    (b : String × Constant) :
    p.extended (values ++ [b]) = .extend (p.extended values) b.1 (.constant b.2) := by
  rw [extended, List.foldl_append]
  rfl

/-- The columns whose variables have values, with the values. -/
def boundColumns (σ : String → Option Constant) (names : List String) : List (String × Constant) :=
  names.filterMap fun name => (σ name).map (name, ·)

/-- A bound column is one of the columns, with its value. -/
theorem mem_boundColumns {names : List String} {name : String} {c : Constant} :
    (name, c) ∈ boundColumns σ names ↔ name ∈ names ∧ σ name = some c := by
  simp [boundColumns]

/-- The bound columns are those that have values, in order. -/
theorem names_boundColumns (names : List String) :
    (boundColumns σ names).map Prod.fst = names.filter fun name => (σ name).isSome := by
  unfold boundColumns
  induction names with
  | nil => rfl
  | cons name names ih =>
      rw [List.filterMap_cons, List.filter_cons]
      cases hvalue : σ name <;> simp [ih]

/-- The columns add their values to the pattern, unless it has one of their variables. -/
theorem withColumns_columnValue {visible names : List String} (p : Algebra)
    (hfresh : ∀ name ∈ names, ∀ c, σ name = some c → name ∉ visible) :
    Selection.withColumns false visible p (names.map (Parser.columnValue σ)) =
      some (p.extended (boundColumns σ names)) := by
  induction names generalizing p with
  | nil => rfl
  | cons name names ih =>
      rw [List.forall_mem_cons] at hfresh
      rw [List.map_cons, Parser.columnValue]
      cases hvalue : σ name with
      | none =>
          rw [Selection.withColumns, boundColumns, List.filterMap_cons, hvalue]
          exact ih p hfresh.2
      | some c =>
          have hnew : visible.contains name = false := by simpa using hfresh.1 c hvalue
          rw [Selection.withColumns, boundColumns, List.filterMap_cons, hvalue]
          simp only [hnew, Bool.false_and, Bool.or_self, Bool.false_eq_true, if_false]
          exact ih _ hfresh.2

/-- What a pattern has is in the clauses that it lists. -/
theorem Algebra.Lists.exists_of_mem_inScope {a : Algebra} {ns : List NamedClause} (h : a.Lists ns)
    {name : String} (hname : name ∈ a.inScope) :
    ∃ p ∈ triplesAll ns, .var name ∈ [p.subject, p.predicate, p.object] := by
  induction h with
  | bgp ts =>
      obtain ⟨p, hp, hvar⟩ := List.mem_flatMap.mp hname
      obtain ⟨x, hx, hxname⟩ := List.mem_filterMap.mp hvar
      have hnode : x = .var name := by
        cases x with
        | var other => exact congrArg Node.var (Option.some.inj hxname)
        | resource r => cases hxname
        | literal l => cases hxname
      exact ⟨p, by rwa [triplesAll_triple], hnode ▸ hx⟩
  | join _ _ ihl ihr =>
      rw [triplesAll_append]
      rcases List.mem_append.mp hname with hname | hname
      · obtain ⟨p, hp, hvar⟩ := ihl hname
        exact ⟨p, List.mem_append_left _ hp, hvar⟩
      · obtain ⟨p, hp, hvar⟩ := ihr hname
        exact ⟨p, List.mem_append_right _ hp, hvar⟩
  | service _ ih =>
      obtain ⟨p, hp, hvar⟩ := ih (by simpa [inScope, Node.iri, Node.var?] using hname)
      exact ⟨p, by rwa [triplesAll, triplesAll, List.append_nil, triples], hvar⟩

/-- A pattern that has the values in place has no variable that has a value. -/
theorem Algebra.Lists.eq_none_of_mem_inScope {a : Algebra} {ns : List NamedClause}
    (h : a.Lists (settledAll σ ns)) {name : String} (hname : name ∈ a.inScope) : σ name = none := by
  obtain ⟨p, hp, hvar⟩ := h.exists_of_mem_inScope hname
  rw [triplesAll_settledAll] at hp
  obtain ⟨p, -, rfl⟩ := List.mem_map.mp hp
  simp only [TriplePattern.settled, List.mem_cons, List.not_mem_nil, or_false] at hvar
  rcases hvar with hvar | hvar | hvar
  all_goals exact (Node.of_settled_eq_var hvar.symm).2

/-! ### The algebra of an outline -/

/-- The algebra of an outline around the pattern of its clauses. -/
def outlineAlgebra (o : Query.Outline) (σ : String → Option Constant) (slice : Slice)
    (body : Algebra) : Algebra :=
  Selection.sliced (.project (Selection.ordered (body.extended (boundColumns σ o.columns))
    (Parser.orderValue o σ)) o.columns) (Parser.sliceValue slice)

/-- The selection that an outline stands for. -/
def outlineSelection (o : Query.Outline) (σ : String → Option Constant) (slice : Slice)
    (body : Algebra) : Selection where
  repetition := .kept
  columns := some (o.columns.map (Parser.columnValue σ))
  body := body
  groups := none
  having := []
  order := Parser.orderValue o σ
  slice := Parser.sliceValue slice
  values := none
  hasAggregate := false

/-- The scope inside of a selection. -/
def Scope.selecting (s : Scope) : Scope := { s with aggregates := false :: s.aggregates }

/-- The selection of an outline has the algebra of the outline: no value goes to a variable that the
clauses show, since there the values are in place. -/
theorem algebra?_outlineSelection (hnodup : o.columns.Nodup) (slice : Slice) {body : Algebra}
    (hbody : body.Lists (settledAll σ o.tree)) :
    (outlineSelection o σ slice body).algebra? = some (outlineAlgebra o σ slice body) := by
  have hnames : (o.columns.map (Parser.columnValue σ)).map Column.name = o.columns := by
    have hname : ∀ name, (Parser.columnValue σ name).name = name := by
      intro name
      rw [Parser.columnValue]
      cases σ name <;> rfl
    rw [List.map_map]
    exact (List.map_congr_left fun name _ => hname name).trans (List.map_id _)
  have hfresh : ∀ name ∈ o.columns, ∀ c, σ name = some c → name ∉ body.inScope := by
    intro name _ c hc habsurd
    rw [hbody.eq_none_of_mem_inScope habsurd] at hc
    cases hc
  have hselected : (outlineSelection o σ slice body).selected? body =
      some (body.extended (boundColumns σ o.columns), o.columns) := by
    unfold Selection.selected?
    simp only [outlineSelection, hnames, if_pos hnodup]
    change (Selection.withColumns false _ _ _).map _ = _
    rw [withColumns_columnValue body hfresh]
    rfl
  change (do
    let shown ← (outlineSelection o σ slice body).selected? body
    return Selection.sliced (Selection.repeated (.project
      (Selection.ordered shown.1 (Parser.orderValue o σ)) shown.2) .kept)
        (Parser.sliceValue slice)) = _
  rw [hselected]
  rfl

/-- What the reader has to know for an outline in which variables have values. -/
structure KnowsOutline (t : PrefixTable) (s : Scope) (σ : String → Option Constant)
    (o : Query.Outline) : Prop where
  columns : o.columns ≠ []
  nodup : o.columns.Nodup
  names : ∀ name ∈ o.columns, isVarName name = true ∧ IsAscii name
  values : ∀ name ∈ o.columns, KnowsNode t s ((Node.var name).settled σ) ∧
    ((Node.var name).settled σ).isSigned = false
  order : Parser.KnowsOrder t s σ o
  tree : LegibleAll t s σ none o.tree

namespace Parser

/-! ### Columns -/

variable {n : Nested}

theorem toList_where : "WHERE".toList = ['W', 'H', 'E', 'R', 'E'] := by decide

/-- The columns in query text. -/
def columnsChars (t : PrefixTable) (σ : String → Option Constant) (o : Query.Outline) :
    List Char :=
  Query.spacedChars (o.columns.map (Query.columnChars t σ))

/-- A column begins with the mark of a variable or with a parenthesis. -/
theorem head_columnsChars (hne : o.columns ≠ []) :
    ∃ c cs, columnsChars t σ o = c :: cs ∧ (c = '?' ∨ c = '(') := by
  obtain ⟨name, names, hcolumns⟩ := List.exists_cons_of_ne_nil hne
  have hhead : ∃ c cs, Query.columnChars t σ name = c :: cs ∧ (c = '?' ∨ c = '(') := by
    unfold Query.columnChars
    cases σ name with
    | none => exact ⟨_, _, rfl, Or.inl rfl⟩
    | some value => exact ⟨_, _, rfl, Or.inr rfl⟩
  obtain ⟨c, cs, hform, hc⟩ := hhead
  unfold columnsChars
  rw [hcolumns]
  cases names with
  | nil => exact ⟨c, cs, by rw [List.map_singleton, spacedChars_singleton, hform], hc⟩
  | cons name' names =>
      rw [List.map_cons, List.map_cons, spacedChars_cons_cons, hform]
      exact ⟨c, _, rfl, hc⟩

/-- No white space stands before the word of the body. -/
theorem strip_where (rest : List Char) :
    strip ("WHERE".toList ++ rest) = "WHERE".toList ++ rest := by
  rw [toList_where]
  exact strip_cons rfl (by decide)

/-- The result columns are read up to the body. -/
theorem reads_columns {terms : NestedTerms} {d : Nat} (h : KnowsOutline t s σ o)
    (rest : List Char) :
    Reads (columns (nested terms (d + 1))) s
      (columnsChars t σ o ++ '\n' :: ("WHERE".toList ++ rest))
      (some (o.columns.map (columnValue σ))) ("WHERE".toList ++ rest) := by
  obtain ⟨name, names, hcolumns⟩ := List.exists_cons_of_ne_nil h.columns
  have hitem : ∀ c ∈ name :: names, ∀ rest, Delimited rest → Reads (column (nested terms (d + 1)))
      s (Query.columnChars t σ c ++ rest) (columnValue σ c) rest := by
    intro c hc rest hrest
    have hmem : c ∈ o.columns := hcolumns ▸ hc
    obtain ⟨hname, hascii⟩ := h.names c hmem
    obtain ⟨hknown, hsign⟩ := h.values c hmem
    exact reads_column hname hascii hknown hsign hrest
  have hstop : Refuses (column (nested terms (d + 1))) s (strip ("WHERE".toList ++ rest)) := by
    rw [strip_where, toList_where]
    refine Refuses.orElse (Refuses.map (refuses_variableName (by simp))) ?_
    exact Refuses.bind (Refuses.bind (refuses_char (by simp)))
  have hwords := reads_words name names hitem strip_columnChars hstop
  have hstar : Refuses (char '*') s (columnsChars t σ o ++ '\n' :: ("WHERE".toList ++ rest)) := by
    obtain ⟨c, cs, hhead, hc⟩ := head_columnsChars (t := t) (σ := σ) h.columns
    rw [hhead]
    refine refuses_char ?_
    rcases hc with rfl | rfl
    all_goals simp
  rw [strip_where] at hwords
  unfold columnsChars at hstar ⊢
  rw [hcolumns] at hstar ⊢
  exact hstar.bind.orElse_reads hwords.map

/-! ### Selections -/

/-- The body and the clauses after it. -/
def bodyChars (o : Query.Outline) (t : PrefixTable) (σ : String → Option Constant)
    (slice : Slice) : List Char :=
  '\x7b' :: '\n' :: (charsAll t σ 1 none o.tree ++ (indentChars 0 ++ '\x7d' :: '\n' ::
    (o.orderChars t σ ++ sliceChars slice)))

/-- Nothing between the word of a selection and its columns stands for repeated solutions. -/
theorem reads_repetition {c : Char} (hc : c = '?' ∨ c = '(') (cs : List Char) :
    Reads (spaced repetition) s (c :: cs) .kept (c :: cs) := by
  have hstart : strip (c :: cs) = c :: cs := by
    rcases hc with rfl | rfl
    all_goals exact strip_cons rfl (by decide)
  have hword : ∀ {w : String} {d : Char}, w.toList.head? = some d → '?' ≠ d ∧ '(' ≠ d →
      Refuses (keyword w) s (c :: cs) := by
    intro w d hw hd
    refine refuses_keyword_of_head hw ?_
    intro e he
    obtain rfl := Option.some.inj he
    rcases hc with rfl | rfl
    · exact hd.1
    · exact hd.2
  refine Reads.spaced_to ?_ hstart
  refine Refuses.orElse_reads (hword (d := 'D') (by decide) (by decide)).bind ?_
  refine Refuses.orElse_reads (hword (d := 'R') (by decide) (by decide)).bind ?_
  exact reads_pure _ _ _

/-- Nothing between the columns and the body names a dataset. -/
theorem reads_dataset (rest : List Char) :
    Reads (spaced dataset) s ("WHERE".toList ++ rest) false ("WHERE".toList ++ rest) := by
  have hfrom : Refuses (word "FROM") s ("WHERE".toList ++ rest) := by
    refine refuses_word (c := 'F') (by decide) ?_
    rw [toList_where]
    intro d hd
    obtain rfl := Option.some.inj hd
    decide
  have hnone : ReadsAll (spaced do
      word "FROM"
      let _ ← iri <|> (do word "NAMED"; iri)) s ("WHERE".toList ++ rest) []
      ("WHERE".toList ++ rest) := .nil hfrom.bind.spaced
  have hread : Reads dataset s ("WHERE".toList ++ rest) false ("WHERE".toList ++ rest) :=
    hnone.many.bind (reads_pure _ _ _)
  exact hread.spaced_to (strip_where rest)

/-- The body is read up to the clauses after it. -/
theorem reads_whereClause {terms : NestedTerms} {k : Nat} {slice : Slice} {body : Algebra}
    (hlabels : s.openLabels = [])
    (h : Reads (groupBody (nested terms k)) s
      (strip (charsAll t σ 1 none o.tree ++ (indentChars 0 ++ '\x7d' :: '\n' ::
        (o.orderChars t σ ++ sliceChars slice)))) body
      ('\x7d' :: '\n' :: (o.orderChars t σ ++ sliceChars slice))) :
    Reads (spaced (whereClause (nested terms (k + 1)))) s
      ("WHERE".toList ++ ' ' :: bodyChars o t σ slice) body
      (o.orderChars t σ ++ sliceChars slice) := by
  have hbrace : strip (' ' :: bodyChars o t σ slice) = bodyChars o t σ slice := by
    rw [strip_space]
    exact strip_cons rfl (by decide)
  have hkeyword : Reads (keyword "WHERE") s ("WHERE".toList ++ ' ' :: bodyChars o t σ slice) ()
      (' ' :: bodyChars o t σ slice) := reads_keyword "WHERE" (by decide)
  have hgroup : Reads (nested terms (k + 1)).group s (bodyChars o t σ slice) body
      ('\n' :: (o.orderChars t σ ++ sliceChars slice)) :=
    reads_group hlabels (by rwa [strip_newline])
  have hread : Reads (whereClause (nested terms (k + 1))) s
      ("WHERE".toList ++ ' ' :: bodyChars o t σ slice) body
      ('\n' :: (o.orderChars t σ ++ sliceChars slice)) :=
    hkeyword.optional.bind ((reads_space_to hbrace).bind hgroup)
  exact hread.spaced_to (continues_order slice).strip

/-- At the end of a selection its clauses are put together, and its scope is left. -/
theorem exec_selected (hnodup : o.columns.Nodup) (slice : Slice) {body : Algebra}
    (hbody : body.Lists (settledAll σ o.tree)) :
    (selected .kept (some (o.columns.map (columnValue σ))) body
      ⟨none, none, orderValue o σ, sliceValue slice, none⟩).exec [] s.selecting =
      (some (outlineAlgebra o σ slice body, []), s) := by
  have hclose : closeQuery.exec [] s.selecting = (some (false, []), s) := rfl
  have halgebra := algebra?_outlineSelection hnodup slice hbody
  exact (exec_bind_of_some hclose).trans (reads_option halgebra)

/-- The columns and what follows them. -/
def outlineChars (o : Query.Outline) (t : PrefixTable) (σ : String → Option Constant)
    (slice : Slice) : List Char :=
  columnsChars t σ o ++ '\n' :: ("WHERE".toList ++ ' ' :: bodyChars o t σ slice)

/-- **A selection is read**, when its body is, as the algebra of its outline. -/
theorem reads_selection {d k : Nat} {slice : Slice} (hlabels : s.openLabels = [])
    (h : KnowsOutline t s.selecting σ o)
    (hoffset : ∀ n ∈ slice.offset, n < wordSize) (hlimit : ∀ n ∈ slice.limit, n < wordSize)
    (hbody : ReadsBody t s.selecting σ d k 1 o.tree) :
    ∃ body, body.Lists (settledAll σ o.tree) ∧
      Reads (selection (nested (nestedTerms true d) (k + 1)) dataset) s
        ("SELECT".toList ++ ' ' :: outlineChars o t σ slice) (false, outlineAlgebra o σ slice body)
        [] := by
  obtain ⟨body, hreads, hlists⟩ := hbody 0 ('\n' :: (o.orderChars t σ ++ sliceChars slice))
  obtain ⟨c, front, hfront, hc⟩ := head_columnsChars (t := t) (σ := σ) h.columns
  have hhead : outlineChars o t σ slice = c :: (front ++ '\n' ::
      ("WHERE".toList ++ ' ' :: bodyChars o t σ slice)) := by
    rw [outlineChars, hfront, List.cons_append]
  have hstart : strip (outlineChars o t σ slice) = outlineChars o t σ slice := by
    rw [hhead]
    rcases hc with rfl | rfl
    all_goals exact strip_cons rfl (by decide)
  have hselect : Reads (word "SELECT") s ("SELECT".toList ++ ' ' :: outlineChars o t σ slice) ()
      (outlineChars o t σ slice) := reads_word "SELECT" (by decide) hstart
  have hopen : openQuery.exec (outlineChars o t σ slice) s =
      (some ((), outlineChars o t σ slice), s.selecting) := rfl
  have hrepetition : Reads (spaced repetition) s.selecting (outlineChars o t σ slice) .kept
      (outlineChars o t σ slice) := by
    rw [hhead]
    exact reads_repetition hc _
  have hcolumns : Reads (spaced (columns (nested (nestedTerms true d) (k + 1)))) s.selecting
      (outlineChars o t σ slice) (some (o.columns.map (columnValue σ)))
      ("WHERE".toList ++ ' ' :: bodyChars o t σ slice) :=
    (reads_columns h _).spaced_to (strip_where _)
  have hselecting : s.selecting.openLabels = [] := hlabels
  have hwhere := reads_whereClause hselecting hreads
  have hmodifiers : Reads (modifiers (nested (nestedTerms true d) (k + 1))) s.selecting
      (o.orderChars t σ ++ sliceChars slice)
      ⟨none, none, orderValue o σ, sliceValue slice, none⟩ [] :=
    reads_modifiers h.order hoffset hlimit
  refine ⟨body, hlists, ?_⟩
  unfold Reads selection
  rw [exec_bind_of_some hselect, exec_bind_of_some hopen, exec_bind_of_some hrepetition,
    exec_bind_of_some hcolumns, exec_bind_of_some (reads_dataset _), exec_bind_of_some hwhere,
    exec_bind_of_some hmodifiers, exec_bind_of_some (exec_selected h.nodup slice hlists)]
  rfl

/-! ### Requests -/

/-- The text of an outline is its declarations, the word of a selection and what follows that. -/
theorem chars_eq (o : Query.Outline) (t : PrefixTable) (σ : String → Option Constant)
    (slice : Slice) :
    o.chars t σ slice = (o.prefixes t σ).flatMap (fun e => (Query.prefixLine e).toList) ++
      ("SELECT".toList ++ ' ' :: outlineChars o t σ slice) := by
  have hparts : "SELECT ".toList = "SELECT".toList ++ [' '] ∧
      "\nWHERE \x7b\n".toList = '\n' :: "WHERE".toList ++ [' ', '\x7b', '\n'] ∧
      "\x7d\n".toList = ['\x7d', '\n'] := by decide
  simp [Query.Outline.chars, outlineChars, columnsChars, bodyChars, sliceChars, indentChars, hparts]

theorem toList_select : "SELECT".toList = ['S', 'E', 'L', 'E', 'C', 'T'] := by decide

/-- No white space stands before the word of a selection. -/
theorem strip_select (cs : List Char) : strip ("SELECT".toList ++ cs) = "SELECT".toList ++ cs := by
  rw [toList_select]
  exact strip_cons rfl (by decide)

/-- The declarations end there. -/
theorem refuses_declaration (slice : Slice) :
    Refuses (spaced declaration) s ("SELECT".toList ++ ' ' :: outlineChars o t σ slice) := by
  have hword : ∀ {w : String} {c : Char}, w.toList.head? = some c → 'S' ≠ c →
      Refuses (word w) s ("SELECT".toList ++ ' ' :: outlineChars o t σ slice) := by
    intro w c hw hc
    refine refuses_word hw ?_
    rw [toList_select]
    intro d hd
    obtain rfl := Option.some.inj hd
    exact hc
  refine Refuses.spaced (Refuses.orElse ?_ ?_)
  · exact (hword (c := 'B') (by decide) (by decide)).bind
  · exact (hword (c := 'P') (by decide) (by decide)).bind

/-- No white space stands before the text. -/
theorem strip_chars_outline (slice : Slice) : strip (o.chars t σ slice) = o.chars t σ slice := by
  rw [chars_eq]
  cases o.prefixes t σ with
  | nil => exact strip_select _
  | cons e pairs =>
      have hword : "PREFIX".toList = ['P', 'R', 'E', 'F', 'I', 'X'] := by decide
      rw [List.flatMap_cons, toList_prefixLine, hword]
      exact strip_cons rfl (by decide)

/-- The declarations of a text are read up to its selection. -/
theorem exec_prologue (hbase : s.base = none) (hprefixes : ∀ e ∈ o.prefixes t σ, Declarable e)
    (slice : Slice) :
    (many (spaced declaration)).exec (o.chars t σ slice) s =
      (some ((o.prefixes t σ).map fun _ => (), "SELECT".toList ++ ' ' :: outlineChars o t σ slice),
        s.declaring (o.prefixes t σ)) := by
  unfold many
  rw [exec_bind_of_some reads_remaining, chars_eq]
  exact exec_declarations (o.prefixes t σ) hbase hprefixes (fun s => refuses_declaration slice)
    (strip_select _) le_rfl

/-- A request is its declarations and its selection. -/
theorem exec_request (hbase : s.base = none) (hprefixes : ∀ e ∈ o.prefixes t σ, Declarable e)
    {slice : Slice} {d : Nat} {a : Algebra}
    (h : Reads (selection (nested (nestedTerms true d) d) dataset) (s.declaring (o.prefixes t σ))
      ("SELECT".toList ++ ' ' :: outlineChars o t σ slice) (false, a) []) :
    (request d).exec (o.chars t σ slice) s =
      (some (.select false a, []), s.declaring (o.prefixes t σ)) := by
  have hselect : Reads (request.select (nested (nestedTerms true d) d))
      (s.declaring (o.prefixes t σ)) ("SELECT".toList ++ ' ' :: outlineChars o t σ slice)
      (.select false a) [] :=
    h.bind (reads_pure _ _ _)
  unfold request
  rw [exec_bind_of_some (reads_space_to (strip_chars_outline slice)),
    exec_bind_of_some (exec_prologue hbase hprefixes slice),
    exec_bind_of_some (reads_space_to (strip_select _)),
    exec_bind_of_some hselect.orElse, exec_bind_of_some (reads_space_to strip_nil)]
  rfl

end Parser

/-- The scope in which the selection of a text is read. -/
def textScope (o : Query.Outline) (t : PrefixTable) (σ : String → Option Constant)
    (slice : Slice) : Scope :=
  Scope.declaring { anonymousLead := unusedLead (o.chars t σ slice) } (o.prefixes t σ)

/-- **The text of an outline is read as a selection with the clauses of the outline**, in which the
values of variables are in place. -/
theorem ofText?_chars {slice : Slice} (hprefixes : ∀ e ∈ o.prefixes t σ, Declarable e)
    (h : KnowsOutline t (textScope o t σ slice).selecting σ o)
    (hoffset : ∀ n ∈ slice.offset, n < wordSize) (hlimit : ∀ n ∈ slice.limit, n < wordSize) :
    ∃ body, body.Lists (settledAll σ o.tree) ∧
      Request.ofText? (String.ofList (o.chars t σ slice)) =
        some (.select false (outlineAlgebra o σ slice body)) := by
  have hlength : (charsAll t σ 1 none o.tree).length ≤ (o.chars t σ slice).length := by
    rw [Parser.chars_eq, Parser.outlineChars, Parser.bodyChars]
    simp
    omega
  have hbody := Parser.reads_body rfl rfl ((o.chars t σ slice).length + 1) _ 1 h.tree hlength
  have hlabels : (textScope o t σ slice).openLabels = [] := rfl
  obtain ⟨body, hlists, hselection⟩ := Parser.reads_selection hlabels h hoffset hlimit hbody
  have hbase : Scope.base { anonymousLead := unusedLead (o.chars t σ slice) } = none := rfl
  have hrequest := Parser.exec_request hbase hprefixes hselection
  refine ⟨body, hlists, ?_⟩
  unfold Parser.exec at hrequest
  unfold Request.ofText?
  simp only [String.toList_ofList]
  rw [hrequest]

end SparqlCompose.Sparql
