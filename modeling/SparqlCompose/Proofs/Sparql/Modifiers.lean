import SparqlCompose.Proofs.Cut
import SparqlCompose.Proofs.Sparql.Expression
import SparqlCompose.Proofs.Sparql.Group

/-!
# Columns, order keys and slices are read back

Columns and order keys are words with a space between them (`Parser.reads_words`).  The expression
of an order key is a single slot in parentheses, a variable or the value of one
(`Parser.reads_orderKey`); a column is a variable, or a value before the name of its variable in
parentheses (`Parser.reads_column`).  The lines of the slice end the list of the order keys,
because no order key begins like them (`Parser.EndsKeys`).
-/

namespace SparqlCompose.Sparql

namespace Parser

variable {t : PrefixTable} {s : Scope} {σ : String → Option Constant} {cs rest after : List Char}

/-! ### Words -/

section Words

/-- A word alone has no space behind it. -/
theorem spacedChars_singleton (w : List Char) : Query.spacedChars [w] = w := by
  simp [Query.spacedChars]

/-- Words have a space between them. -/
theorem spacedChars_cons_cons (v w : List Char) (ws : List (List Char)) :
    Query.spacedChars (v :: w :: ws) = v ++ ' ' :: Query.spacedChars (w :: ws) := by
  simp [Query.spacedChars, List.intercalate]

variable {α β : Type} {p : Parser α} {f : β → List Char} {g : β → α}

/-- No white space stands before words if none stands before a word. -/
theorem strip_spacedChars (hstrip : ∀ b rest, strip (f b ++ rest) = f b ++ rest) (b : β)
    (bs : List β) (rest : List Char) :
    strip (Query.spacedChars ((b :: bs).map f) ++ rest) =
      Query.spacedChars ((b :: bs).map f) ++ rest := by
  cases bs with
  | nil =>
      rw [List.map_singleton, spacedChars_singleton]
      exact hstrip _ _
  | cons c bs =>
      rw [List.map_cons, List.map_cons, spacedChars_cons_cons, List.append_assoc]
      exact hstrip _ _

/-- Words with a space between them are read one by one, up to the line after them. -/
theorem reads_words (b : β) (bs : List β)
    (hitem : ∀ c ∈ b :: bs, ∀ rest, Delimited rest → Reads p s (f c ++ rest) (g c) rest)
    (hstrip : ∀ b rest, strip (f b ++ rest) = f b ++ rest) (hstop : Refuses p s (strip after)) :
    Reads (many1 (spaced p)) s (Query.spacedChars ((b :: bs).map f) ++ '\n' :: after)
      ((b :: bs).map g) (strip after) := by
  have hall : ∃ mid, mid.length < (Query.spacedChars ((b :: bs).map f) ++ '\n' :: after).length ∧
      Reads (spaced p) s (Query.spacedChars ((b :: bs).map f) ++ '\n' :: after) (g b) mid ∧
      ReadsAll (spaced p) s mid (bs.map g) (strip after) := by
    induction bs generalizing b with
    | nil =>
        have hread := hitem b List.mem_cons_self ('\n' :: after) (delimited_cons rfl _)
        have hlength := length_strip after
        rw [List.map_singleton, spacedChars_singleton]
        refine ⟨strip after, ?_, hread.spaced_to strip_newline, .nil hstop.spaced⟩
        simp
        omega
    | cons b' bs ih =>
        rw [List.forall_mem_cons] at hitem
        obtain ⟨mid, hlt, hread, hmore⟩ := ih b' hitem.2
        have hstart := strip_spacedChars hstrip b' bs ('\n' :: after)
        rw [List.map_cons] at hread hlt hstart
        rw [List.map_cons, List.map_cons, spacedChars_cons_cons, List.append_assoc]
        have hspace : isDelimiter ' ' = true := rfl
        have hfirst := hitem.1 _
          (delimited_cons hspace (Query.spacedChars (f b' :: bs.map f) ++ '\n' :: after))
        refine ⟨_, ?_, hfirst.spaced_to hstart, .cons hread hlt hmore⟩
        simp
        omega
  obtain ⟨mid, -, hread, hmore⟩ := hall
  exact hmore.many1 hread

end Words

/-! ### Columns -/

section Columns

variable {n : Nested} {name : String}

/-- A column as the reader answers it. -/
def columnValue (σ : String → Option Constant) (name : String) : Column :=
  match σ name with
  | some c => .computed (.constant c) name
  | none => .var name

/-- The expression of a constant is the constant. -/
theorem expr_ofConstant (c : Constant) : (Node.ofConstant c).expr = .constant c := by
  cases c <;> rfl

/-- No white space stands before a column. -/
theorem strip_columnChars (name : String) (rest : List Char) :
    strip (Query.columnChars t σ name ++ rest) = Query.columnChars t σ name ++ rest := by
  unfold Query.columnChars
  cases σ name with
  | none => exact strip_cons rfl (by decide)
  | some c => exact strip_cons rfl (by decide)

/-- A value under the name of its variable is read. -/
theorem reads_computedValue {terms : NestedTerms} {d : Nat} {name : String} {c : Constant}
    (hname : isVarName name = true) (hascii : IsAscii name) (hknown : KnowsNode t s (.ofConstant c))
    (hsign : (Node.ofConstant c).isSigned = false) :
    Reads (computedValue (nested terms (d + 1))) s
      ('(' :: ((Node.ofConstant c).chars t ++ ' ' :: ("AS".toList ++ ' ' :: '?' ::
        (name.toList ++ ')' :: rest)))) (.constant c, name) rest := by
  have hword : "AS".toList = ['A', 'S'] := by decide
  have has : strip ("AS".toList ++ ' ' :: '?' :: (name.toList ++ ')' :: rest)) =
      "AS".toList ++ ' ' :: '?' :: (name.toList ++ ')' :: rest) := by
    rw [hword]
    exact strip_cons rfl (by decide)
  have hends : EndsExpression ("AS".toList ++ ' ' :: '?' :: (name.toList ++ ')' :: rest)) := by
    rw [hword]
    intro e he
    exact Or.inr (Option.some.inj he).symm
  have hclose : strip (')' :: rest) = ')' :: rest := strip_cons rfl (by decide)
  have hmark : strip (' ' :: '?' :: (name.toList ++ ')' :: rest)) =
      '?' :: (name.toList ++ ')' :: rest) := by
    rw [strip_space]
    exact strip_cons rfl (by decide)
  have hexpression := reads_expression (n := nested terms d) hknown hsign (delimited_cons rfl _)
    ((strip_space.trans has).symm ▸ hends)
  rw [strip_space, has, expr_ofConstant] at hexpression
  have hvariable : Reads variableName s ('?' :: (name.toList ++ ')' :: rest)) name
      (')' :: rest) := reads_variableName hname hascii (delimited_cons rfl _)
  refine (reads_char '(').bind ((reads_space_to (strip_chars hknown)).bind ?_)
  refine Reads.bind ?_ ((reads_space_to hclose).bind
    ((reads_char ')').bind (reads_pure _ _ _)))
  refine (hexpression.spaced_to has).bind ((reads_word "AS" (by decide) hmark).bind ?_)
  exact hvariable.bind (reads_pure _ _ _)

/-- A column is read: a variable, or a value under the name of its variable. -/
theorem reads_column {terms : NestedTerms} {d : Nat} (hname : isVarName name = true)
    (hascii : IsAscii name) (hknown : KnowsNode t s ((Node.var name).settled σ))
    (hsign : ((Node.var name).settled σ).isSigned = false) (hrest : Delimited rest) :
    Reads (column (nested terms (d + 1))) s (Query.columnChars t σ name ++ rest)
      (columnValue σ name) rest := by
  unfold Query.columnChars columnValue
  cases hvalue : σ name with
  | none => exact (reads_variableName hname hascii hrest).map.orElse
  | some c =>
      have hform : (Node.var name).settled σ = .ofConstant c := by simp [Node.settled, hvalue]
      rw [hform] at hknown hsign
      have hword : "AS".toList = ['A', 'S'] ∧ " AS ?".toList = [' ', 'A', 'S', ' ', '?'] := by
        decide
      have hparts :
          '(' :: ((Node.ofConstant c).chars t ++ " AS ?".toList ++ name.toList ++ [')']) ++ rest =
          '(' :: ((Node.ofConstant c).chars t ++ ' ' :: ("AS".toList ++ ' ' :: '?' ::
            (name.toList ++ ')' :: rest))) := by simp [hword]
      rw [hparts]
      refine Refuses.orElse_reads (refuses_variableName (by simp)).map ?_
      exact (reads_computedValue hname hascii hknown hsign).bind (reads_pure _ _ _)

end Columns

/-! ### Order keys -/

section Keys

variable {n : Nested}

/-- A key on a variable without a value as the reader answers it. -/
def keyValue (k : Direction × String) : Direction × Expr := (k.1, .var k.2)

/-- A key as the reader answers it. -/
def settledKey (σ : String → Option Constant) (k : Direction × String) : Direction × Expr :=
  (k.1, ((Node.var k.2).settled σ).expr)

/-- A slot between parentheses is read. -/
theorem reads_bracketed {terms : NestedTerms} {d : Nat} {x : Node} (hknown : KnowsNode t s x)
    (hsign : x.isSigned = false) :
    Reads (bracketedExpression (nested terms (d + 1))) s ('(' :: (x.chars t ++ ')' :: rest)) x.expr
      rest := by
  have hclose : strip (')' :: rest) = ')' :: rest := strip_cons rfl (by decide)
  have hends : EndsExpression (strip (')' :: rest)) := by
    rw [hclose]
    intro c hc
    exact Or.inl (Option.some.inj hc).symm
  have hexpression :=
    reads_expression (n := nested terms d) hknown hsign (delimited_cons rfl _) hends
  rw [hclose] at hexpression
  refine (reads_char '(').bind ((reads_space_to (strip_chars hknown)).bind ?_)
  refine hexpression.bind ((reads_space_to hclose).bind ?_)
  exact (reads_char ')').bind (reads_pure _ _ _)

/-- An order key is read, with its slot between parentheses. -/
theorem reads_orderKey {terms : NestedTerms} {d : Nat} {k : Direction × String}
    (hknown : KnowsNode t s ((Node.var k.2).settled σ))
    (hsign : ((Node.var k.2).settled σ).isSigned = false) :
    Reads (orderKey (nested terms (d + 1))) s (Query.keyChars t σ k ++ rest) (settledKey σ k)
      rest := by
  obtain ⟨direction, name⟩ := k
  have hopen : ∀ cs : List Char, strip ('(' :: cs) = '(' :: cs :=
    fun cs => strip_cons rfl (by decide)
  have hbracketed : Reads (bracketedExpression (nested terms (d + 1))) s
      ('(' :: (((Node.var name).settled σ).chars t ++ ')' :: rest))
      ((Node.var name).settled σ).expr rest := reads_bracketed hknown hsign
  have hform : Query.keyChars t σ (direction, name) ++ rest = direction.word.toList ++
      '(' :: (((Node.var name).settled σ).chars t ++ ')' :: rest) := by
    simp [Query.keyChars]
  rw [hform]
  cases direction with
  | ascending =>
      refine Reads.orElse ?_
      refine (reads_word "ASC" (by decide) (hopen _)).bind ?_
      exact hbracketed.bind (reads_pure _ _ _)
  | descending =>
      have hword : "DESC".toList = ['D', 'E', 'S', 'C'] := by decide
      refine Refuses.orElse_reads (Refuses.bind (refuses_word (c := 'A') (by decide) ?_)) ?_
      · rw [Direction.word, hword]
        intro c hc
        obtain rfl := Option.some.inj hc
        decide
      · refine Reads.orElse ?_
        refine (reads_word "DESC" (by decide) (hopen _)).bind ?_
        exact hbracketed.bind (reads_pure _ _ _)

/-- What stands after the order keys: a line of the slice, or nothing. -/
def EndsKeys (cs : List Char) : Prop :=
  cs = [] ∨ ∃ w ∈ ["OFFSET", "LIMIT"], ∃ d rest, d.isDigit = true ∧
    cs = w.toList ++ ' ' :: d :: rest

/-- The text begins like one of the clauses after the body, if it goes on at all. -/
def Continues (cs : List Char) : Prop := ∀ c, cs.head? = some c → c = 'O' ∨ c = 'L'

/-- The text after a body begins like its own clauses only. -/
theorem Continues.head_ne (h : Continues cs) {c : Char} (hc : c ≠ 'O' ∧ c ≠ 'L') :
    cs.head? ≠ some c := by
  intro habsurd
  rcases h c habsurd with rfl | rfl
  · exact hc.1 rfl
  · exact hc.2 rfl

/-- So other keywords are refused there. -/
theorem Continues.refuses_keyword (h : Continues cs) {w : String} {c : Char}
    (hw : w.toList.head? = some c) (hc : c ≠ 'O' ∧ c ≠ 'L') : Refuses (keyword w) s cs := by
  refine refuses_keyword_of_head hw ?_
  intro d hd
  rcases h d hd with rfl | rfl
  · exact hc.1.symm
  · exact hc.2.symm

/-- No white space stands before it. -/
theorem Continues.strip (h : Continues cs) : strip cs = cs := by
  cases cs with
  | nil => rfl
  | cons c cs =>
      have hopening : isOpening c = true := by
        rcases h c rfl with rfl | rfl
        all_goals decide
      exact strip_opening hopening cs

/-- What stands after the order keys goes on like a clause after the body. -/
theorem EndsKeys.continues (h : EndsKeys cs) : Continues cs := by
  have hwords : "OFFSET".toList.head? = some 'O' ∧ "LIMIT".toList.head? = some 'L' := by
    decide
  intro c hc
  rcases h with rfl | ⟨w, hw, d, rest, -, rfl⟩
  · cases hc
  · rw [List.head?_append] at hc
    simp only [List.mem_cons, List.not_mem_nil, or_false] at hw
    rcases hw with rfl | rfl
    · rw [hwords.1] at hc
      exact Or.inl (Option.some.inj hc).symm
    · rw [hwords.2] at hc
      exact Or.inr (Option.some.inj hc).symm

/-- No IRI begins there. -/
theorem EndsKeys.refuses_iri (h : EndsKeys cs) : Refuses iri s cs := by
  rcases h with rfl | ⟨w, hw, d, rest, -, rfl⟩
  · exact Parser.refuses_iri (by simp)
  · have hinner : ["OFFSET", "LIMIT"].all (fun w => w.toList.all NameChars.isInner) = true := by
      decide
    exact refuses_iri_of_word (List.all_eq_true.mp (List.all_eq_true.mp hinner w hw))
      (delimited_cons rfl _)

/-- The words of the slice are no names of functions that take arguments. -/
theorem EndsKeys.functionName (h : EndsKeys cs) :
    Refuses functionName s cs ∨ ∃ w ∈ ["OFFSET", "LIMIT"], ∃ d rest, d.isDigit = true ∧
      Reads functionName s cs w (' ' :: d :: rest) := by
  rcases h with rfl | ⟨w, hw, d, rest, hd, rfl⟩
  · exact Or.inl (Refuses.bind (.lift rfl))
  · refine Or.inr ⟨w, hw, d, rest, hd, ?_⟩
    have hall : ["OFFSET", "LIMIT"].all (fun w =>
        w.toList.all (fun c => c.isAlphanum || c == '_') &&
          String.ofList (w.toList.map Char.toUpper) == w && !w.toList.isEmpty) = true := by
      decide
    have hword := List.all_eq_true.mp hall w hw
    simp only [Bool.and_eq_true, beq_iff_eq, Bool.not_eq_true', List.isEmpty_eq_false_iff] at hword
    obtain ⟨⟨hclass, hupper⟩, hne⟩ := hword
    cases hcs : w.toList with
    | nil => exact absurd hcs hne
    | cons c cs =>
        rw [hcs, List.all_cons, Bool.and_eq_true] at hclass
        have hrun : Scan.run1 (fun c => c.isAlphanum || c == '_') (c :: cs ++ ' ' :: d :: rest) =
            some (c :: cs, ' ' :: d :: rest) :=
          Scan.run1_append hclass.1 (List.all_eq_true.mp hclass.2) (by simp)
        refine (Reads.lift hrun).bind ?_
        rw [← hcs, hupper]
        exact reads_pure _ _ _

/-- No call of a function begins there. -/
theorem EndsKeys.refuses_builtInCall (h : EndsKeys cs) : Refuses (builtInCall n) s cs := by
  have hexists : Refuses (existence n) s cs :=
    (h.continues.refuses_keyword (c := 'E') (by decide) (by decide)).bind
  have hnot : Refuses (keyword "NOT") s cs :=
    h.continues.refuses_keyword (c := 'N') (by decide) (by decide)
  have hcalls : Refuses (aggregate n) s cs ∧ Refuses (namedCall n) s cs := by
    rcases h.functionName (s := s) with hnone | ⟨w, hw, d, rest, hd, hread⟩
    · exact ⟨hnone.spaced.bind, hnone.bind⟩
    · constructor
      · have hopening : isOpening d = true := by simp [isOpening, hd]
        have hstart : strip (' ' :: d :: rest) = d :: rest := strip_opening hopening rest
        refine (hread.spaced_to hstart).bind_refuses (Refuses.bind (refuses_char ?_))
        intro habsurd
        exact ne_of_isOpening hopening (by decide) (Option.some.inj habsurd)
      · have hcounts : ["OFFSET", "LIMIT"].all (fun w => argumentCounts w == [] &&
            ["BOUND", "CONCAT", "COALESCE"].all (w != ·)) = true := by decide
        have hword := List.all_eq_true.mp hcounts w hw
        simp only [Bool.and_eq_true, beq_iff_eq, List.all_cons, List.all_nil, bne_iff_ne,
          and_true] at hword
        obtain ⟨hnone, hbound, hconcat, hcoalesce⟩ := hword
        refine hread.bind_refuses ?_
        rw [if_neg hbound, if_neg hconcat, if_neg hcoalesce, hnone]
        exact Refuses.bind (refuses_failure _ _)
  exact Refuses.orElse hcalls.1 (Refuses.orElse hcalls.2 (Refuses.orElse hexists hnot.bind))

/-- The list of the order keys ends at the slice. -/
theorem EndsKeys.refuses_orderKey (h : EndsKeys cs) : Refuses (orderKey n) s cs := by
  have hascending : Refuses (word "ASC") s cs :=
    (h.continues.refuses_keyword (c := 'A') (by decide) (by decide)).bind
  have hdescending : Refuses (word "DESC") s cs :=
    (h.continues.refuses_keyword (c := 'D') (by decide) (by decide)).bind
  have hbracketed : Refuses (bracketedExpression n) s cs :=
    Refuses.bind (refuses_char (h.continues.head_ne (by decide)))
  have hcall : Refuses (functionCall n) s cs := h.refuses_iri.spaced.bind
  have hvariable : Refuses variableName s cs := by
    refine refuses_variableName ?_
    intro c hc
    rcases h.continues c hc with rfl | rfl
    all_goals decide
  refine Refuses.orElse hascending.bind (Refuses.orElse hdescending.bind ?_)
  refine Refuses.orElse (Refuses.bind ?_) hvariable.bind
  exact Refuses.orElse hbracketed (Refuses.orElse hcall h.refuses_builtInCall)

end Keys

/-! ### The slice -/

section Slices

/-- The lines of the slice. -/
def sliceChars (slice : Slice) : List Char :=
  (Query.sliceLine "OFFSET" slice.offset).toList ++ (Query.sliceLine "LIMIT" slice.limit).toList

/-- The slice as the reader answers it. -/
def sliceValue (slice : Slice) : Option (Nat × Option Nat) :=
  match slice.offset, slice.limit with
  | none, none => none
  | none, some l => some (0, some l)
  | some o, l => some (o, l)

/-- A line of the slice is its word and its number. -/
theorem toList_sliceLine (w : String) (n : Nat) :
    (Query.sliceLine w (some n)).toList = w.toList ++ ' ' :: ((toString n).toList ++ ['\n']) := by
  have hparts : " ".toList = [' '] ∧ "\n".toList = ['\n'] := by decide
  simp [Query.sliceLine, hparts]

/-- The digits of a number. -/
theorem exists_digits (n : Nat) :
    ∃ d ds, (toString n).toList = d :: ds ∧ d.isDigit = true ∧ ∀ c ∈ ds, c.isDigit = true := by
  have hall : ∀ c ∈ (toString n).toList, c.isDigit = true := fun c hc => isDigit_of_mem_toString hc
  cases hdigits : (toString n).toList with
  | nil => exact absurd hdigits (toString_toList_ne_nil n)
  | cons d ds =>
      rw [hdigits, List.forall_mem_cons] at hall
      exact ⟨d, ds, rfl, hall⟩

/-- The lines of the slice end the order keys. -/
theorem endsKeys_sliceChars (slice : Slice) : EndsKeys (sliceChars slice) := by
  have hline : ∀ w ∈ ["OFFSET", "LIMIT"], ∀ n more, EndsKeys
      ((Query.sliceLine w (some n)).toList ++ more) := by
    intro w hw n more
    obtain ⟨d, ds, hdigits, hd, -⟩ := exists_digits n
    refine Or.inr ⟨w, hw, d, ds ++ '\n' :: more, hd, ?_⟩
    rw [toList_sliceLine, hdigits]
    simp
  obtain ⟨offset, limit⟩ := slice
  cases offset with
  | some o => exact hline "OFFSET" (by simp) o _
  | none =>
      cases limit with
      | none => exact Or.inl rfl
      | some l =>
          have hlimit := hline "LIMIT" (by simp) l []
          rw [List.append_nil] at hlimit
          exact hlimit

/-- A number after its word is read. -/
theorem reads_count {w : String} (hw : w.toList.map Char.toUpper = w.toList) {n : Nat}
    (hn : n < wordSize) (rest : List Char) :
    Reads (count w) s ((Query.sliceLine w (some n)).toList ++ rest) n ('\n' :: rest) := by
  obtain ⟨d, ds, hdigits, hd, hds⟩ := exists_digits n
  have hform : (Query.sliceLine w (some n)).toList ++ rest =
      w.toList ++ ' ' :: d :: (ds ++ '\n' :: rest) := by
    rw [toList_sliceLine, hdigits]
    simp
  have hopening : isOpening d = true := by simp [isOpening, hd]
  have hstart : strip (' ' :: d :: (ds ++ '\n' :: rest)) = d :: (ds ++ '\n' :: rest) :=
    strip_opening hopening _
  have hrun : Scan.run1 Char.isDigit (d :: ds ++ '\n' :: rest) = some (d :: ds, '\n' :: rest) :=
    Scan.run1_append hd hds (by simp)
  have hvalue : decimal (d :: ds) = n := by rw [← hdigits, decimal_toString]
  rw [hform]
  refine (reads_word w hw hstart).bind ((Reads.lift hrun).bind ?_)
  rw [hvalue]
  exact (reads_guard hn).bind (reads_pure _ _ _)

/-- No white space stands before them. -/
theorem strip_sliceChars (slice : Slice) : strip (sliceChars slice) = sliceChars slice :=
  (endsKeys_sliceChars slice).continues.strip

/-- The lines of the slice are read. -/
theorem reads_slice {slice : Slice} (hoffset : ∀ n ∈ slice.offset, n < wordSize)
    (hlimit : ∀ n ∈ slice.limit, n < wordSize) :
    Reads (spaced (optional sliceClause)) s (sliceChars slice) (sliceValue slice) [] := by
  have hempty : ∀ {w : String} {c : Char}, w.toList.head? = some c → Refuses (count w) s [] :=
    fun hw => (refuses_word hw (by simp)).bind
  have hlimitEmpty : Refuses (count "LIMIT") s [] := hempty (c := 'L') (by decide)
  have hoffsetEmpty : Refuses (count "OFFSET") s [] := hempty (c := 'O') (by decide)
  have hend : strip ['\n'] = [] := rfl
  obtain ⟨offset, limit⟩ := slice
  cases offset with
  | none =>
      cases limit with
      | none =>
          have hclause : Refuses sliceClause s [] :=
            Refuses.orElse hlimitEmpty.spaced.bind hoffsetEmpty.spaced.bind
          exact hclause.optional.spaced_to strip_nil
      | some l =>
          have hline := reads_count (s := s) (w := "LIMIT") (by decide) (hlimit l rfl) []
          rw [List.append_nil] at hline
          have hclause :
              Reads sliceClause s (Query.sliceLine "LIMIT" (some l)).toList (0, some l) [] := by
            refine Reads.orElse ?_
            exact (hline.spaced_to hend).bind (hoffsetEmpty.optional.bind (reads_pure _ _ _))
          exact hclause.optional.spaced_to strip_nil
  | some o =>
      -- the reader tries the limit first, though the offset is written first
      have hword : "OFFSET".toList = ['O', 'F', 'F', 'S', 'E', 'T'] := by decide
      have hrefuses : ∀ more, Refuses (count "LIMIT") s
          ((Query.sliceLine "OFFSET" (some o)).toList ++ more) := by
        intro more
        refine (refuses_word (c := 'L') (by decide) ?_).bind
        rw [toList_sliceLine, hword]
        intro c hc
        obtain rfl := Option.some.inj hc
        decide
      have hline := fun more => reads_count (s := s) (w := "OFFSET") (by decide)
        (hoffset o rfl) more
      cases limit with
      | none =>
          have hclause : Reads sliceClause s (sliceChars ⟨some o, none⟩) (o, none) [] := by
            refine Refuses.orElse_reads (hrefuses []).spaced.bind ?_
            refine ((hline []).spaced_to hend).bind ?_
            exact hlimitEmpty.optional.bind (reads_pure _ _ _)
          exact hclause.optional.spaced_to strip_nil
      | some l =>
          have hmore := reads_count (s := s) (w := "LIMIT") (by decide) (hlimit l rfl) []
          rw [List.append_nil] at hmore
          have hstart : strip ('\n' :: (Query.sliceLine "LIMIT" (some l)).toList) =
              (Query.sliceLine "LIMIT" (some l)).toList := strip_sliceChars ⟨none, some l⟩
          have hclause : Reads sliceClause s (sliceChars ⟨some o, some l⟩) (o, some l) ['\n'] := by
            refine Refuses.orElse_reads (hrefuses _).spaced.bind ?_
            refine ((hline _).spaced_to hstart).bind ?_
            exact hmore.optional.bind (reads_pure _ _ _)
          exact hclause.optional.spaced_to hend

end Slices

/-! ### The clauses after the body -/

section Clauses

variable {o : Query.Outline}

/-- The order keys as the reader answers them. -/
def orderValue (o : Query.Outline) (σ : String → Option Constant) :
    Option (List (Direction × Expr)) :=
  if o.order.isEmpty then none else some (o.order.map (settledKey σ))

/-- No line of the slice begins like the order keys. -/
theorem EndsKeys.refuses_order (h : EndsKeys cs) : Refuses (word "ORDER") s cs := by
  refine (Parser.refuses_keyword ?_).bind
  have hlength : "ORDER".length = 5 ∧ "ORDER".toList = ['O', 'R', 'D', 'E', 'R'] := by
    decide
  have hwords : "OFFSET".toList = ['O', 'F', 'F', 'S', 'E', 'T'] ∧
      "LIMIT".toList = ['L', 'I', 'M', 'I', 'T'] := by decide
  rw [hlength.1, hlength.2]
  rcases h with rfl | ⟨w, hw, d, rest, -, rfl⟩
  · simp
  · simp only [List.mem_cons, List.not_mem_nil, or_false] at hw
    rcases hw with rfl | rfl
    · rw [hwords.1]
      simp
    · rw [hwords.2]
      simp

/-- No white space stands before an order key. -/
theorem strip_keyChars (k : Direction × String) (rest : List Char) :
    strip (Query.keyChars t σ k ++ rest) = Query.keyChars t σ k ++ rest := by
  have hwords : "ASC".toList = ['A', 'S', 'C'] ∧ "DESC".toList = ['D', 'E', 'S', 'C'] := by
    decide
  obtain ⟨direction, name⟩ := k
  cases direction with
  | ascending =>
      rw [Query.keyChars, Direction.word, hwords.1]
      exact strip_cons rfl (by decide)
  | descending =>
      rw [Query.keyChars, Direction.word, hwords.2]
      exact strip_cons rfl (by decide)

/-- The reader can read the order keys of an outline. -/
def KnowsOrder (t : PrefixTable) (s : Scope) (σ : String → Option Constant) (o : Query.Outline) :
    Prop :=
  ∀ k ∈ o.order, KnowsNode t s ((Node.var k.2).settled σ) ∧
    ((Node.var k.2).settled σ).isSigned = false

/-- The order keys are read up to the slice. -/
theorem reads_order {terms : NestedTerms} {d : Nat} (horder : KnowsOrder t s σ o)
    (slice : Slice) :
    Reads (spaced (optional do
        word "ORDER"; word "BY"; many1 (spaced (orderKey (nested terms (d + 1))))))
      s (o.orderChars t σ ++ sliceChars slice) (orderValue o σ) (sliceChars slice) := by
  unfold Query.Outline.orderChars orderValue
  cases hkeys : o.order with
  | nil =>
      have hends := endsKeys_sliceChars slice
      exact (hends.refuses_order.bind.optional).spaced_to hends.continues.strip
  | cons k ks =>
      have hends := endsKeys_sliceChars slice
      have hparts : "ORDER BY ".toList = "ORDER".toList ++ ' ' :: ("BY".toList ++ [' ']) ∧
          "BY".toList = ['B', 'Y'] := by decide
      have hform : "ORDER BY ".toList ++ Query.spacedChars ((k :: ks).map (Query.keyChars t σ)) ++
          ['\n'] ++ sliceChars slice = "ORDER".toList ++ ' ' :: ("BY".toList ++ ' ' ::
            (Query.spacedChars ((k :: ks).map (Query.keyChars t σ)) ++ '\n' ::
              sliceChars slice)) := by
        simp [hparts.1]
      have hby : ∀ cs, strip (' ' :: ("BY".toList ++ cs)) = "BY".toList ++ cs := by
        intro cs
        rw [strip_space, hparts.2]
        exact strip_cons rfl (by decide)
      have hitem : ∀ c ∈ k :: ks, ∀ rest, Delimited rest → Reads (orderKey (nested terms (d + 1))) s
          (Query.keyChars t σ c ++ rest) (settledKey σ c) rest := by
        intro c hc rest _
        obtain ⟨hknown, hsign⟩ := horder c (hkeys ▸ hc)
        exact reads_orderKey hknown hsign
      have hstop : Refuses (orderKey (nested terms (d + 1))) s (strip (sliceChars slice)) := by
        rw [hends.continues.strip]
        exact hends.refuses_orderKey
      have hwords := reads_words k ks hitem strip_keyChars hstop
      have hstart : strip (' ' :: (Query.spacedChars ((k :: ks).map (Query.keyChars t σ)) ++
          '\n' :: sliceChars slice)) = Query.spacedChars ((k :: ks).map (Query.keyChars t σ)) ++
          '\n' :: sliceChars slice := strip_spacedChars strip_keyChars k ks _
      rw [hends.continues.strip] at hwords
      have hclause : Reads
          (do word "ORDER"; word "BY"; many1 (spaced (orderKey (nested terms (d + 1)))))
          s ("ORDER".toList ++ ' ' :: ("BY".toList ++ ' ' ::
            (Query.spacedChars ((k :: ks).map (Query.keyChars t σ)) ++ '\n' ::
              sliceChars slice)))
          ((k :: ks).map (settledKey σ)) (sliceChars slice) := by
        refine (reads_word "ORDER" (by decide) (hby _)).bind ?_
        exact (reads_word "BY" (by decide) hstart).bind hwords
      have hread := hclause.optional.spaced_to hends.continues.strip
      rwa [← hform] at hread

/-- The order keys and the slice go on like clauses after the body. -/
theorem continues_order (slice : Slice) : Continues (o.orderChars t σ ++ sliceChars slice) := by
  unfold Query.Outline.orderChars
  split
  · exact (endsKeys_sliceChars slice).continues
  · have hparts : "ORDER BY ".toList.head? = some 'O' := by decide
    intro c hc
    rw [List.append_assoc, List.append_assoc, List.head?_append, hparts] at hc
    exact Or.inl (Option.some.inj hc).symm

/-- **The clauses after the body are read.** -/
theorem reads_modifiers {terms : NestedTerms} {d : Nat} (horder : KnowsOrder t s σ o)
    {slice : Slice} (hoffset : ∀ n ∈ slice.offset, n < wordSize)
    (hlimit : ∀ n ∈ slice.limit, n < wordSize) :
    Reads (modifiers (nested terms (d + 1))) s (o.orderChars t σ ++ sliceChars slice)
      ⟨none, none, orderValue o σ, sliceValue slice, none⟩ [] := by
  have hcontinues := continues_order (t := t) (σ := σ) (o := o) slice
  have hgroup : Refuses (word "GROUP") s (o.orderChars t σ ++ sliceChars slice) :=
    (hcontinues.refuses_keyword (c := 'G') (by decide) (by decide)).bind
  have hhaving : Refuses (word "HAVING") s (o.orderChars t σ ++ sliceChars slice) :=
    (hcontinues.refuses_keyword (c := 'H') (by decide) (by decide)).bind
  have hvalues : Refuses (word "VALUES") s [] := refuses_word (c := 'V') (by decide) (by simp)
  refine (hgroup.bind.optional.spaced_to hcontinues.strip).bind ?_
  refine (hhaving.bind.optional.spaced_to hcontinues.strip).bind ?_
  refine (reads_order horder slice).bind ((reads_slice hoffset hlimit).bind ?_)
  exact hvalues.bind.optional.bind (reads_pure _ _ _)

end Clauses

end Parser

end SparqlCompose.Sparql
