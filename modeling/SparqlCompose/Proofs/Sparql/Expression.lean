import SparqlCompose.Proofs.Sparql.Slot
import SparqlCompose.Sparql.Group

/-!
# Slots are read as expressions

In a result column and in an order key a slot stands where an expression is read.  The reader goes
down through the levels of the operators, and every level passes the slot on, since what stands
after it is no operator (`Parser.EndsExpression`).  Only a number that is written bare with a sign
is read in two parts: the sign is an operator there (`Literal.isSigned`).  Every other slot is read
as the variable or the constant that it is (`Parser.reads_expression`).
-/

namespace SparqlCompose

/-- The literal is a number that is written bare with a sign. -/
def Literal.isSigned (l : Literal) : Bool :=
  l.isBare && (l.value.toList.head? == some '+' || l.value.toList.head? == some '-')

namespace Sparql

/-- The slot holds a number that is written bare with a sign. -/
def Node.isSigned : Node → Bool
  | .literal l => l.isSigned
  | _ => false

/-- The slot as an expression. -/
def Node.expr : Node → Expr
  | .var name => .var name
  | .resource r => .constant (.resource r)
  | .literal l => .constant (.literal l)

/-- Only a number with a sign begins with a sign. -/
theorem isSigned_of_head {t : PrefixTable} {s : Scope} {x : Node} (h : KnowsNode t s x) {c : Char}
    (hc : (x.chars t).head? = some c) (hsign : c = '+' ∨ c = '-') : x.isSigned = true := by
  cases x with
  | var name =>
      obtain rfl := Option.some.inj hc
      exact absurd hsign (by decide)
  | resource r =>
      cases r with
      | blank label => exact h.elim
      | iri text =>
          obtain ⟨d, ds, hform, hd⟩ := Parser.head_render h
          rw [Node.chars, hform] at hc
          obtain rfl := Option.some.inj hc
          rcases hsign with rfl | rfl
          all_goals exact absurd hd (by decide)
  | literal l =>
      rw [Node.chars] at hc
      cases hbare : l.isBare with
      | true =>
          rw [Parser.render_of_isBare hbare] at hc
          rcases hsign with rfl | rfl
          all_goals simp [Node.isSigned, Literal.isSigned, hbare, hc]
      | false =>
          obtain ⟨ds, hform⟩ := head_render_quoted (t := t) hbare
          rw [hform] at hc
          obtain rfl := Option.some.inj hc
          exact absurd hsign (by decide)

namespace Parser

variable {t : PrefixTable} {s : Scope} {n : Nested} {x : Node} {e : Expr} {cs rest : List Char}

/-- What stands after an expression and the space after it: the end of its parentheses, or the word
before the name of a column. -/
def EndsExpression (cs : List Char) : Prop := ∀ c, cs.head? = some c → c = ')' ∨ c = 'A'

/-- An expression ends where nothing stands that could go on with it. -/
theorem EndsExpression.head_ne (h : EndsExpression cs) {c : Char} (hc : c ≠ ')' ∧ c ≠ 'A') :
    cs.head? ≠ some c := by
  intro habsurd
  rcases h c habsurd with rfl | rfl
  · exact hc.1 rfl
  · exact hc.2 rfl

/-- No keyword other than those that may follow stands there. -/
theorem EndsExpression.refuses_keyword (h : EndsExpression cs) {w : String} {c : Char}
    (hw : w.toList.head? = some c) (hc : c ≠ ')' ∧ c ≠ 'A') : Refuses (keyword w) s cs := by
  refine refuses_keyword_of_head hw ?_
  intro d hd
  rcases h d hd with rfl | rfl
  · exact hc.1.symm
  · exact hc.2.symm

/-! ### Operators -/

/-- A chain of operators is its first operand where no operator follows. -/
theorem reads_chain {p : Parser Expr} {isOperator : Char → Bool} (h : Reads p s cs e rest)
    (hends : EndsExpression (strip rest)) (hop : [')', 'A'].all (fun c => !isOperator c) = true) :
    Reads (chain p isOperator) s cs e (strip rest) := by
  have hstop : Refuses (do
      let op ← spaced (Scan.charIf isOperator)
      return (op, ← spaced p)) s (strip rest) := by
    refine Refuses.bind (Refuses.spaced (.lift (Scan.charIf_of_neg ?_)))
    intro c hc
    have hmem : c ∈ [')', 'A'] := by simpa using hends c hc
    simpa using List.all_eq_true.mp hop c hmem
  exact h.spaced.bind ((ReadsAll.nil hstop).many.bind (reads_pure _ _ _))

/-- So is a chain of logical operators. -/
theorem reads_logical {p : Parser Expr} (h : Reads p s cs e rest)
    (hends : EndsExpression (strip rest)) (op : String) {c : Char}
    (hop : op.toList.head? = some c) (hc : c ≠ ')' ∧ c ≠ 'A') :
    Reads (logical p op) s cs e (strip rest) := by
  have hstop : Refuses (do lead op; space) s (strip rest) :=
    Refuses.bind (refuses_lead hop (hends.head_ne hc))
  exact (h.spaced.sepBy1_single hstop).bind (reads_pure _ _ _)

/-- What stands after an expression compares it with nothing. -/
theorem EndsExpression.refuses_relationalTail (h : EndsExpression cs) (e : Expr) :
    Refuses (relationalTail n e) s cs := by
  have hsign : ∀ {w : String} {c : Char}, w.toList.head? = some c → c ≠ ')' ∧ c ≠ 'A' →
      Refuses (comparison.sign w) s cs :=
    fun hw hc => Refuses.bind (refuses_lead hw (h.head_ne hc))
  have hcomparison : Refuses comparison s cs := by
    refine Refuses.orElse (hsign (c := '=') (by decide) (by decide)) ?_
    refine Refuses.orElse (hsign (c := '!') (by decide) (by decide)) ?_
    refine Refuses.orElse (hsign (c := '>') (by decide) (by decide)) ?_
    refine Refuses.orElse (hsign (c := '>') (by decide) (by decide)) ?_
    refine Refuses.orElse (hsign (c := '<') (by decide) (by decide)) ?_
    exact hsign (c := '<') (by decide) (by decide)
  refine Refuses.orElse hcomparison.spaced.bind ?_
  refine Refuses.orElse (h.refuses_keyword (c := 'I') (by decide) (by decide)).bind ?_
  exact (h.refuses_keyword (c := 'N') (by decide) (by decide)).bind

/-! ### Expressions -/

/-- A slot is read as the expression that it is. -/
theorem reads_primary (h : KnowsNode t s x) (hrest : Delimited rest)
    (hends : EndsExpression (strip rest)) :
    Reads (primary n) s (x.chars t ++ rest) x.expr rest := by
  have hbracketed : Refuses (bracketedExpression n) s (x.chars t ++ rest) :=
    Refuses.bind (refuses_char (head_chars_ne h (by decide)))
  refine Refuses.orElse_reads hbracketed ?_
  cases x with
  | var name =>
      have hiri : Refuses iri s ((Node.var name).chars t ++ rest) := by
        refine refuses_iri ?_
        intro c hc
        obtain rfl := Option.some.inj hc
        decide
      have hread : Reads variableName s ((Node.var name).chars t ++ rest) name rest :=
        reads_variableName h.1 h.2 hrest
      refine Refuses.orElse_reads (Refuses.orElse hiri.spaced.bind hiri.bind) ?_
      exact hread.map.orElse
  | resource r =>
      cases r with
      | blank label => exact h.elim
      | iri text =>
          have hread : Reads iri s ((Node.iri text).chars t ++ rest) text rest := reads_iri h hrest
          have harguments : Refuses (argumentList n) s (strip rest) := by
            have hopen : (strip rest).head? ≠ some '(' := hends.head_ne (by decide)
            exact Refuses.orElse (Refuses.bind (refuses_char hopen))
              (Refuses.bind (Refuses.bind (refuses_char hopen)))
          have hcall : Refuses (functionCall n) s ((Node.iri text).chars t ++ rest) :=
            hread.spaced.bind_refuses harguments.bind
          exact (hcall.orElse_reads (hread.bind (reads_pure _ _ _))).orElse
  | literal l =>
      obtain ⟨c, ds, hform, hopening, hmark, -⟩ := head_literal (t := t) h.1
      have hiri : Refuses iri s ((Node.literal l).chars t ++ rest) := refuses_iri_literal h.1 hrest
      have hvariable : Refuses variableName s ((Node.literal l).chars t ++ rest) := by
        refine refuses_variableName ?_
        rw [Node.chars, hform]
        intro d hd
        obtain rfl := Option.some.inj hd
        exact ⟨hmark, ne_of_isOpening hopening (by decide)⟩
      have hended : Ended rest :=
        ⟨hrest, hends.head_ne (by decide), hends.head_ne (by decide)⟩
      have hread : Reads literal s ((Node.literal l).chars t ++ rest) l rest :=
        reads_literal h.1 h.2 hended
      refine Refuses.orElse_reads (Refuses.orElse hiri.spaced.bind hiri.bind) ?_
      refine hvariable.map.orElse_reads (Reads.orElse ?_)
      exact hread.bind (reads_pure _ _ _)

/-- **A slot is read as the expression that it is**, unless it is a number with a sign. -/
theorem reads_expression (h : KnowsNode t s x) (hsign : x.isSigned = false)
    (hrest : Delimited rest) (hends : EndsExpression (strip rest)) :
    Reads (expression n) s (x.chars t ++ rest) x.expr (strip rest) := by
  have hunary : Reads (unary n) s (x.chars t ++ rest) x.expr rest := by
    have hnone : Refuses (Scan.charIf fun c => c == '!' || c == '+' || c == '-') s
        (x.chars t ++ rest) := by
      obtain ⟨c, ds, hform, hopening, -⟩ := head_chars h
      have hplus : ¬ (c = '+' ∨ c = '-') := by
        intro habsurd
        rw [isSigned_of_head h (by rw [hform]; rfl) habsurd] at hsign
        cases hsign
      refine .lift (Scan.charIf_of_neg ?_)
      rw [hform]
      intro d hd
      obtain rfl := Option.some.inj hd
      have hdenial := ne_of_isOpening (d := '!') hopening (by decide)
      simpa [hdenial, not_or] using hplus
    exact hnone.optional.bind (reads_primary h hrest hends)
  have hends' : EndsExpression (strip (strip rest)) := by rwa [strip_strip]
  have hproduct : Reads (multiplicative n) s (x.chars t ++ rest) x.expr (strip rest) :=
    reads_chain hunary hends (by decide)
  have hsum : Reads (additive n) s (x.chars t ++ rest) x.expr (strip (strip rest)) :=
    reads_chain hproduct hends' (by decide)
  have hrelational : Reads (relational n) s (x.chars t ++ rest) x.expr (strip rest) := by
    rw [strip_strip] at hsum
    refine (hsum.spaced_to strip_strip).bind ?_
    exact (hends.refuses_relationalTail x.expr).optional.bind (reads_pure _ _ _)
  have hand := reads_logical hrelational hends' "&&" (c := '&') (by decide) (by decide)
  rw [strip_strip] at hand
  have hor := reads_logical hand hends' "||" (c := '|') (by decide) (by decide)
  rwa [strip_strip] at hor

end Parser

end Sparql

end SparqlCompose
