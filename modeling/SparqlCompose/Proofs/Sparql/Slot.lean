import SparqlCompose.Proofs.Sparql.Literal
import SparqlCompose.Proofs.Sparql.Tree
import SparqlCompose.Sparql.Triples

/-!
# Slots and verbs are read as they are written

What a slot begins with decides which reader takes it.  A verb is harder: an IRI is read as a path,
and after the path, with or without space before it, an operator may stand.  So the object that
follows must not look like one.  Objects begin with none of the operators except a number that is
written bare with a plus sign in front (`Node.isPlusLed`); every other object leaves the path at
its IRI (`Parser.reads_verb`).
-/

namespace SparqlCompose.Sparql

/-! ### What slots begin with -/

/-- Characters that a slot begins with. -/
def isOpening (c : Char) : Bool :=
  NameChars.isLetter c || c.isDigit || ['?', '<', ':', '"', '.', '+', '-'].contains c

/-- A character that opens a slot is none that does not. -/
theorem ne_of_isOpening {c d : Char} (h : isOpening c = true) (hd : isOpening d = false) :
    c ≠ d := by
  rintro rfl
  rw [h] at hd
  cases hd

/-- The slot holds a number that is written bare with a plus sign. -/
def Node.isPlusLed : Node → Bool
  | .literal l => l.isBare && l.value.toList.head? == some '+'
  | _ => false

/-- What the reader has to know for a slot. -/
def KnowsNode (t : PrefixTable) (s : Scope) : Node → Prop
  | .var name => isVarName name = true ∧ IsAscii name
  | .resource (.iri text) => Knows t s text
  | .resource (.blank _) => False
  | .literal l => l.IsNormal ∧ Parser.KnowsLiteral t s l

/-- What the reader has to know for a predicate; class membership has a word of its own. -/
def KnowsVerb (t : PrefixTable) (s : Scope) (σ : String → Option Constant) (m : Node) : Prop :=
  m ≠ .iri Vocabulary.rdfType →
    KnowsNode t s (m.settled σ) ∧ ∀ l, m.settled σ ≠ .literal l

/-- The slot can be a predicate: it holds a variable or an IRI. -/
def Node.IsVerb : Node → Prop
  | .var _ => True
  | .resource (.iri _) => True
  | _ => False

/-- No digit is a letter. -/
theorem isLetter_of_isDigit {c : Char} (h : c.isDigit = true) : NameChars.isLetter c = false := by
  have hall : ∀ n < 58, (Char.ofNat n).isDigit = true →
      NameChars.isLetter (Char.ofNat n) = false := by decide
  have hlt : c.toNat < 58 := by
    simp only [Char.isDigit, Bool.and_eq_true, decide_eq_true_eq] at h
    exact Nat.lt_succ_of_le h.2
  have hchar := hall c.toNat hlt
  rw [Char.ofNat_toNat] at hchar
  exact hchar h

/-- A quoted text begins with a quotation mark. -/
theorem head_quoteText (value : String) : ∃ cs, (quoteText value).toList = '"' :: cs := by
  have hquote : "\"".toList = ['"'] ∧ "\"\"\"".toList = ['"', '"', '"'] := by decide
  unfold quoteText
  simp only
  split
  all_goals simp [hquote]

/-- A bare literal begins with a digit, a point, a sign or a letter. -/
theorem head_bare {l : Literal} (hnormal : l.IsNormal) (hbare : l.isBare = true) :
    ∃ c cs, l.value.toList = c :: cs ∧ isOpening c = true ∧ c ≠ '?' := by
  rcases Parser.isBare_cases hbare hnormal with ⟨type, htype, hform, -⟩ | ⟨word, hword, hvalue, -⟩
  · have hspace : Delimited [' '] := delimited_cons rfl []
    obtain ⟨d, hhead, hd⟩ := Parser.head_number htype hform hspace
    cases hvalue : l.value.toList with
    | nil =>
        rw [hvalue] at hhead
        obtain rfl := Option.some.inj hhead
        exact absurd hd (by decide)
    | cons c cs =>
        rw [hvalue] at hhead
        obtain rfl := Option.some.inj hhead
        refine ⟨c, cs, rfl, ?_, ?_⟩
        · rcases hd with hd | rfl | rfl | rfl
          · simp [isOpening, hd]
          all_goals rfl
        · rintro rfl
          exact absurd hd (by decide)
  · have hwords : "true".toList = ['t', 'r', 'u', 'e'] ∧
        "false".toList = ['f', 'a', 'l', 's', 'e'] := by decide
    simp only [List.mem_cons, List.not_mem_nil, or_false] at hword
    rcases hword with rfl | rfl
    · exact ⟨'t', _, by rw [hvalue, hwords.1], by decide, by decide⟩
    · exact ⟨'f', _, by rw [hvalue, hwords.2], by decide, by decide⟩

variable {t : PrefixTable} {s : Scope} {σ : String → Option Constant} {n : Node}
  {rest : List Char}

/-- A verb that the reader knows is one with its value in place. -/
theorem KnowsVerb.isVerb {m : Node} (h : KnowsVerb t s σ m) : (m.settled σ).IsVerb := by
  by_cases htype : m = .iri Vocabulary.rdfType
  · rw [htype]
    trivial
  · obtain ⟨hknown, hno⟩ := h htype
    cases hform : m.settled σ with
    | var name => trivial
    | literal l => exact absurd hform (hno l)
    | resource r =>
        rw [hform] at hknown
        cases r with
        | iri text => trivial
        | blank label => exact hknown.elim

/-- A literal that is not bare stands between quotes. -/
theorem head_render_quoted {l : Literal} (hbare : l.isBare = false) :
    ∃ cs, (l.render t).toList = '"' :: cs := by
  obtain ⟨value, kind⟩ := l
  obtain ⟨cs, hquoted⟩ := head_quoteText value
  cases kind with
  | simple => exact ⟨cs, hquoted⟩
  | tagged tag => simp [Literal.render, hquoted]
  | typed d =>
      have hno : isBareForm d value.toList = false := hbare
      simp [Literal.render, hno, hquoted]

/-- A literal begins with a character that opens slots and is no mark of a variable; it begins with
a plus sign only if it is a number with one. -/
theorem head_literal {l : Literal} (hnormal : l.IsNormal) :
    ∃ c cs, (l.render t).toList = c :: cs ∧ isOpening c = true ∧ c ≠ '?' ∧
      (c = '+' → (Node.literal l).isPlusLed = true) := by
  cases hbare : l.isBare with
  | true =>
      obtain ⟨c, cs, hvalue, hopening, hmark⟩ := head_bare hnormal hbare
      refine ⟨c, cs, by rw [Parser.render_of_isBare hbare, hvalue], hopening, hmark, ?_⟩
      rintro rfl
      simp [Node.isPlusLed, hbare, hvalue]
  | false =>
      obtain ⟨cs, hform⟩ := head_render_quoted (t := t) hbare
      exact ⟨'"', cs, hform, by decide, by decide, fun habsurd => by cases habsurd⟩

/-- What the form of a known slot begins with: only a variable begins with a question mark, and only
a number with a plus sign. -/
theorem head_chars (h : KnowsNode t s n) :
    ∃ c cs, n.chars t = c :: cs ∧ isOpening c = true ∧ (c = '?' → ∃ name, n = .var name) ∧
      (c = '+' → n.isPlusLed = true) := by
  cases n with
  | var name =>
      exact ⟨'?', _, rfl, by decide, fun _ => ⟨name, rfl⟩, fun habsurd => by cases habsurd⟩
  | literal l =>
      obtain ⟨c, cs, hform, hopening, hmark, hplus⟩ := head_literal (t := t) h.1
      exact ⟨c, cs, hform, hopening, fun habsurd => absurd habsurd hmark, hplus⟩
  | resource r =>
      cases r with
      | blank label => exact h.elim
      | iri text =>
          obtain ⟨c, cs, hform, hc⟩ := Parser.head_render h
          refine ⟨c, cs, hform, ?_, ?_, ?_⟩
          · rcases hc with rfl | rfl | hc
            · rfl
            · rfl
            · simp [isOpening, hc]
          · rintro rfl
            exact absurd hc (by decide)
          · rintro rfl
            exact absurd hc (by decide)

/-- No white space stands before a slot. -/
theorem strip_opening {c : Char} (h : isOpening c = true) (cs : List Char) :
    Parser.strip (c :: cs) = c :: cs := by
  refine Parser.strip_cons ?_ (ne_of_isOpening h (by decide))
  have hclosed : [' ', '\t', '\n', '\r'].all (fun d => !isOpening d) = true := by decide
  have hspace : ∀ d ∈ [' ', '\t', '\n', '\r'], c ≠ d := fun d hd =>
    ne_of_isOpening h (by simpa using List.all_eq_true.mp hclosed d hd)
  simp only [List.forall_mem_cons] at hspace
  simp [Lexeme.isSpace, hspace]

/-- No white space and no comment stands before the form of a slot. -/
theorem strip_chars (h : KnowsNode t s n) :
    Parser.strip (n.chars t ++ rest) = n.chars t ++ rest := by
  obtain ⟨c, cs, hform, hopening, -⟩ := head_chars h
  rw [hform, List.cons_append]
  exact strip_opening hopening _

/-- A character that no slot begins with is not at the front. -/
theorem head_chars_ne (h : KnowsNode t s n) {d : Char} (hd : isOpening d = false) :
    (n.chars t ++ rest).head? ≠ some d := by
  obtain ⟨c, cs, hform, hopening, -⟩ := head_chars h
  rw [hform]
  intro habsurd
  exact ne_of_isOpening hopening hd (Option.some.inj habsurd)

/-- Only a literal can begin with a point. -/
theorem head_chars_of_noLiteral (h : KnowsNode t s n) (hno : ∀ l, n ≠ .literal l) :
    (n.chars t ++ rest).head? ≠ some '.' := by
  cases n with
  | var name => simp [Node.chars]
  | literal l => exact absurd rfl (hno l)
  | resource r =>
      cases r with
      | blank label => exact h.elim
      | iri text =>
          obtain ⟨c, cs, hform, hc⟩ := Parser.head_render h
          rw [Node.chars, hform]
          intro habsurd
          obtain rfl := Option.some.inj habsurd
          exact absurd hc (by decide)

/-! ### Reading slots -/

namespace Parser

/-- No literal is taken for an IRI: it begins with a quotation mark or like a number, or it is a
word. -/
theorem refuses_iri_literal {l : Literal} (hnormal : l.IsNormal) (hrest : Delimited rest) :
    Refuses iri s ((l.render t).toList ++ rest) := by
  cases hbare : l.isBare with
  | false =>
      obtain ⟨cs, hform⟩ := head_render_quoted (t := t) hbare
      refine refuses_iri ?_
      rw [hform]
      intro c hc
      obtain rfl := Option.some.inj hc
      decide
  | true =>
      rw [render_of_isBare hbare]
      rcases isBare_cases hbare hnormal with ⟨type, htype, hform, -⟩ | ⟨word, hword, hvalue, -⟩
      · obtain ⟨d, hhead, hd⟩ := head_number htype hform hrest
        refine refuses_iri ?_
        intro c hc
        obtain rfl := Option.some.inj (hc.symm.trans hhead)
        rcases hd with hd | rfl | rfl | rfl
        · refine ⟨?_, ?_, isLetter_of_isDigit hd⟩
          all_goals
            rintro rfl
            exact absurd hd (by decide)
        all_goals decide
      · have hinner : ["true", "false"].all (fun w => w.toList.all NameChars.isInner) = true := by
          decide
        rw [hvalue]
        have hletters := List.all_eq_true.mp (List.all_eq_true.mp hinner word hword)
        exact refuses_iri_of_word hletters hrest

/-- **A slot is read as it is written.**  After a literal no mark of a datatype or a language
follows. -/
theorem reads_varOrTerm (h : KnowsNode t s n) (hrest : Delimited rest)
    (hended : ∀ l, n = .literal l → Ended rest) :
    Reads varOrTerm s (n.chars t ++ rest) n rest := by
  cases n with
  | var name =>
      have hread := reads_variableName (s := s) h.1 h.2 hrest
      exact hread.map.orElse
  | resource r =>
      cases r with
      | blank label => exact h.elim
      | iri text =>
          obtain ⟨c, cs, hform, hopening, hvariable, -⟩ := head_chars (n := .resource (.iri text)) h
          have hread : Reads iri s (Node.chars t (.resource (.iri text)) ++ rest) text rest :=
            reads_iri h hrest
          refine Refuses.orElse_reads (Refuses.map (refuses_variableName ?_)) hread.map.orElse
          rw [hform]
          intro d hd
          obtain rfl := Option.some.inj hd
          refine ⟨?_, ne_of_isOpening hopening (by decide)⟩
          intro habsurd
          obtain ⟨name, habsurd⟩ := hvariable habsurd
          cases habsurd
  | literal l =>
      obtain ⟨c, cs, hform, hopening, hmark, -⟩ := head_literal (t := t) h.1
      have hread : Reads literal s ((l.render t).toList ++ rest) l rest :=
        reads_literal h.1 h.2 (hended l rfl)
      refine Refuses.orElse_reads (Refuses.map (refuses_variableName ?_)) ?_
      · rw [Node.chars, hform]
        intro d hd
        obtain rfl := Option.some.inj hd
        exact ⟨hmark, ne_of_isOpening hopening (by decide)⟩
      · exact (refuses_iri_literal h.1 hrest).map.orElse_reads hread.map.orElse

/-! ### Verbs -/

/-- The word for class membership is read. -/
theorem reads_lead_a (rest : List Char) : Reads (lead "a") s ('a' :: rest) () rest := by
  have hword : "a".toList = ['a'] := by decide
  have hread := reads_lead (s := s) "a" rest
  rwa [hword] at hread

/-- The IRI of a predicate is read from its form or from the word for class membership. -/
theorem reads_pathIri {m : Node} {text : String} (h : KnowsVerb t s σ m)
    (htext : m.settled σ = .iri text) (hrest : Delimited rest) :
    Reads pathIri s (m.verbChars t σ ++ rest) text rest := by
  unfold Node.verbChars
  by_cases htype : m = .iri Vocabulary.rdfType
  · obtain rfl : text = Vocabulary.rdfType := by
      rw [htype] at htext
      cases htext
      rfl
    have hinner : ∀ c ∈ ['a'], NameChars.isInner c = true := by
      intro c hc
      rw [List.mem_singleton.mp hc]
      decide
    rw [if_pos htype]
    refine Refuses.orElse_reads (refuses_iri_of_word hinner hrest) ?_
    exact (reads_lead_a rest).bind (reads_pure _ _ _)
  · have hknown := (h htype).1
    rw [htext] at hknown
    have hread : Reads iri s ((Node.iri text).chars t ++ rest) text rest :=
      reads_iri hknown hrest
    rw [if_neg htype, htext]
    exact hread.orElse

/-- **After an IRI a slot is taken for an operator only if it is a number with a plus sign.** -/
theorem refuses_pathOperator (h : KnowsNode t s n) (hplus : n.isPlusLed = false) :
    Refuses pathOperator s (n.chars t ++ rest) := by
  obtain ⟨c, cs, hform, hopening, hvariable, hled⟩ := head_chars h
  have hstar : c ≠ '*' := ne_of_isOpening hopening (by decide)
  have hsign : c ≠ '+' := by
    intro habsurd
    rw [hled habsurd] at hplus
    cases hplus
  refine Refuses.orElse (.lift (Scan.charIf_of_neg ?_)) ?_
  · rw [hform]
    intro d hd
    obtain rfl := Option.some.inj hd
    simp [hstar, hsign]
  · by_cases hmark : c = '?'
    · obtain ⟨name, rfl⟩ := hvariable hmark
      obtain ⟨d, ds, hname, hword, -⟩ := exists_word h.1 h.2
      have hletter : (NameChars.isLetterU d || d.isDigit) = true := by
        rcases isWordChar_cases hword with hd | hd <;> simp [hd]
      refine Reads.bind_refuses (reads_char '?') ?_
      refine Refuses.bind (Reads.bind_refuses reads_get (refuses_guard ?_))
      simp [hname, hletter]
    · refine Refuses.bind (refuses_char ?_)
      rw [hform]
      intro habsurd
      exact hmark (Option.some.inj habsurd)

/-- An IRI and the slot after it are read as the path of the IRI. -/
theorem reads_path {k : NestedTerms} {m : Node} {text : String} (hverb : KnowsVerb t s σ m)
    (htext : m.settled σ = .iri text) (h : KnowsNode t s n) (hplus : n.isPlusLed = false) :
    Reads (path k) s (m.verbChars t σ ++ ' ' :: (n.chars t ++ rest)) (.iri text)
      (n.chars t ++ rest) := by
  have hstrip : strip (n.chars t ++ rest) = n.chars t ++ rest := strip_chars h
  have hpathIri : Reads pathIri s (m.verbChars t σ ++ ' ' :: (n.chars t ++ rest)) text
      (' ' :: (n.chars t ++ rest)) := reads_pathIri hverb htext (delimited_cons rfl _)
  have hprimary : Reads (pathPrimary k) s
      (m.verbChars t σ ++ ' ' :: (n.chars t ++ rest)) (.iri text)
      (' ' :: (n.chars t ++ rest)) := hpathIri.map.orElse
  have helement : Reads (pathElement k) s
      (m.verbChars t σ ++ ' ' :: (n.chars t ++ rest)) (.iri text)
      (n.chars t ++ rest) := by
    refine (hprimary.spaced_to hstrip).bind ?_
    exact (refuses_pathOperator h hplus).optional.bind (reads_pure _ _ _)
  have hitem : Reads (pathOrInverse k) s
      (m.verbChars t σ ++ ' ' :: (n.chars t ++ rest)) (.iri text)
      (n.chars t ++ rest) := helement.orElse
  have hslash : Refuses (separator '/') s (n.chars t ++ rest) :=
    Refuses.bind (refuses_char (head_chars_ne h (by decide)))
  have hbar : Refuses (separator '|') s (n.chars t ++ rest) :=
    Refuses.bind (refuses_char (head_chars_ne h (by decide)))
  have hsequence : Reads (pathSequence k) s
      (m.verbChars t σ ++ ' ' :: (n.chars t ++ rest)) (.iri text)
      (n.chars t ++ rest) :=
    ((hitem.spaced_to hstrip).sepBy1_single hslash).bind (reads_pure _ _ _)
  exact ((hsequence.spaced_to hstrip).sepBy1_single hbar).bind (reads_pure _ _ _)

/-- No path begins with the mark of a variable. -/
theorem refuses_path {k : NestedTerms} (cs : List Char) : Refuses (path k) s ('?' :: cs) := by
  have hiri : Refuses iri s ('?' :: cs) := by
    refine refuses_iri ?_
    intro c hc
    obtain rfl := Option.some.inj hc
    decide
  have hword : Refuses (lead "a") s ('?' :: cs) := refuses_lead (c := 'a') (by decide) (by simp)
  have hprimary : Refuses (pathPrimary k) s ('?' :: cs) := by
    refine Refuses.orElse (Refuses.map (hiri.orElse hword.bind)) ?_
    refine Refuses.orElse (Refuses.bind (refuses_char (by simp))) ?_
    exact Refuses.bind (refuses_char (by simp))
  have hitem : Refuses (pathOrInverse k) s ('?' :: cs) := by
    refine Refuses.orElse hprimary.spaced.bind ?_
    exact Refuses.bind (refuses_char (by simp))
  have hsequence : Refuses (pathSequence k) s ('?' :: cs) := Refuses.bind hitem.spaced.sepBy1
  exact Refuses.bind hsequence.spaced.sepBy1

/-- The verb that a predicate stands for. -/
def verbOf : Node → Verb
  | .var name => .var name
  | .resource r => .path (.iri r.name)
  | .literal l => .path (.iri l.value)

/-- **A verb is read as it is written**, with the space after it, unless an IRI stands before a
number with a plus sign. -/
theorem reads_verb {k : NestedTerms} (hk : k.paths = true) {m : Node} (hverb : KnowsVerb t s σ m)
    (h : KnowsNode t s n) (hplus : n.isPlusLed = true → (m.settled σ).var?.isSome) :
    Reads (spaced (verb k)) s (m.verbChars t σ ++ ' ' :: (n.chars t ++ rest))
      (verbOf (m.settled σ)) (n.chars t ++ rest) := by
  have hstrip : strip (n.chars t ++ rest) = n.chars t ++ rest := strip_chars h
  have hisVerb := hverb.isVerb
  unfold verb
  rw [if_pos hk]
  cases hform : m.settled σ with
  | literal l =>
      rw [hform] at hisVerb
      exact hisVerb.elim
  | var name =>
      have htype : m ≠ .iri Vocabulary.rdfType := by
        rintro rfl
        cases hform
      have hknown := (hverb htype).1
      have hchars : m.verbChars t σ = '?' :: name.toList := by
        rw [Node.verbChars, if_neg htype, hform]
        rfl
      rw [hform] at hknown
      have hread : Reads variableName s ('?' :: (name.toList ++ ' ' :: (n.chars t ++ rest))) name
          (' ' :: (n.chars t ++ rest)) :=
        reads_variableName hknown.1 hknown.2 (delimited_cons rfl _)
      rw [hchars]
      exact ((refuses_path _).map.orElse_reads hread.map).spaced_to hstrip
  | resource r =>
      rw [hform] at hisVerb hplus
      cases r with
      | blank label => exact hisVerb.elim
      | iri text =>
          have hplain : n.isPlusLed = false := by
            by_contra habsurd
            exact absurd (hplus (by simpa using habsurd)) (by simp [Node.var?])
          have hread : Reads (path k) s (m.verbChars t σ ++ ' ' :: (n.chars t ++ rest))
              (.iri text) (n.chars t ++ rest) := reads_path hverb hform h hplain
          exact hread.map.orElse.spaced_to hstrip

end Parser

end SparqlCompose.Sparql
