import Mathlib
import SparqlCompose.Proofs.LanguageTag
import SparqlCompose.Proofs.Sparql.Name
import SparqlCompose.Proofs.WellFormed

/-!
# Literals are read as they are written

A text between quotes is read character by character, each from its escape.  The mark after it,
`^^` or `@`, tells a datatype or a language; a plain text is read when no such mark follows, with
or without space before it.  A number that is written bare is read with the type that it has: of
the three forms that a reader tries, the exponent decides for a double and the point for a decimal.
-/

namespace SparqlCompose

/-! ### Texts between quotes -/

namespace Scan

variable {α : Type} {stop : Scan Unit} {item : Scan Char} {escape : Char → List Char}
  {cs tail rest : List Char}

/-- Characters are read from their escapes up to the closing mark, which no escape begins with. -/
theorem manyUntil_flatMap (hstop : stop tail = some ((), rest))
    (hitem : ∀ c ∈ cs, ∀ r, stop (escape c ++ r) = none ∧ item (escape c ++ r) = some (c, r))
    {fuel : Nat} (hfuel : cs.length < fuel) :
    manyUntil stop item fuel (cs.flatMap escape ++ tail) = some (cs, rest) := by
  induction cs generalizing fuel with
  | nil =>
      cases fuel with
      | zero => omega
      | succ fuel =>
          rw [List.flatMap_nil, List.nil_append, manyUntil, orElse_of_some]
          rw [bind_of_some hstop]
          rfl
  | cons c cs ih =>
      rw [List.forall_mem_cons] at hitem
      cases fuel with
      | zero => omega
      | succ fuel =>
          have hshort : cs.length < fuel := by simpa using hfuel
          have hrest := ih hitem.2 hshort
          obtain ⟨hno, hyes⟩ := hitem.1 (cs.flatMap escape ++ tail)
          rw [List.flatMap_cons, List.append_assoc, manyUntil, orElse_of_none (bind_of_none hno),
            bind_of_some hyes, bind_of_some hrest]
          rfl

/-- Fuel for every character lasts for all of them, since no escape is empty. -/
theorem itemsUntil_flatMap (hstop : stop tail = some ((), rest))
    (hitem : ∀ c ∈ cs, ∀ r, stop (escape c ++ r) = none ∧ item (escape c ++ r) = some (c, r))
    (hne : ∀ c, escape c ≠ []) :
    itemsUntil stop item (cs.flatMap escape ++ tail) = some (cs, rest) := by
  refine manyUntil_flatMap hstop hitem ?_
  have hlength : cs.length ≤ (cs.flatMap escape).length := by
    clear hitem
    induction cs with
    | nil => simp
    | cons c cs ih =>
        have hpos := List.length_pos_iff.mpr (hne c)
        simp only [List.flatMap_cons, List.length_append, List.length_cons]
        omega
  rw [List.length_append]
  omega

end Scan

namespace Sparql

variable {cs rest : List Char}

/-- A character is read from its escape. -/
theorem charEscape_of_escaped {c d : Char} (h : Lexeme.escaped? d = some c) :
    Lexeme.charEscape ('\\' :: d :: rest) = some (c, rest) := by
  rw [Lexeme.charEscape, Scan.bind_of_some (Scan.char_cons _ _),
    Scan.bind_of_some (Scan.charIf_of_pos (by simp [h])), h]
  rfl

/-- Only a backslash begins an escape. -/
theorem stringEscape_of_ne {c : Char} (h : c ≠ '\\') : Lexeme.stringEscape (c :: rest) = none := by
  have hno : Scan.char '\\' (c :: rest) = none := Scan.char_of_ne (by simpa using h)
  have hescape : Lexeme.charEscape (c :: rest) = none := Scan.bind_of_none hno
  rw [Lexeme.stringEscape, Scan.orElse_of_none hescape, Lexeme.codePointEscape,
    Scan.bind_of_none hno]

/-- A character is read from its escape, whatever other characters stand for themselves. -/
theorem item_escapeLongChar {plain : Char → Bool} {c : Char}
    (h : c ≠ '\\' → c ≠ '"' → plain c = true) :
    (Lexeme.stringEscape <|> Scan.charIf plain) (escapeLongChar c ++ rest) = some (c, rest) := by
  unfold escapeLongChar
  split
  · next hc =>
      subst hc
      exact Scan.orElse_of_some (Scan.orElse_of_some (charEscape_of_escaped rfl))
  · next hbackslash =>
      split
      · next hc =>
          subst hc
          exact Scan.orElse_of_some (Scan.orElse_of_some (charEscape_of_escaped rfl))
      · next hquote =>
          rw [List.singleton_append, Scan.orElse_of_none (stringEscape_of_ne hbackslash)]
          exact Scan.charIf_of_pos (h hbackslash hquote)

/-- A character of a short text is read as it is written, with an escape or without. -/
theorem item_escapeShortChar {plain : Char → Bool} {c : Char}
    (h : c ≠ '\\' → c ≠ '"' → c ≠ '\r' → plain c = true) :
    (Lexeme.stringEscape <|> Scan.charIf plain) (escapeShortChar c ++ rest) = some (c, rest) := by
  unfold escapeShortChar
  split
  · next hc =>
      subst hc
      exact Scan.orElse_of_some (Scan.orElse_of_some (charEscape_of_escaped rfl))
  · next hreturn => exact item_escapeLongChar fun hb hq => h hb hq hreturn

/-- No escape begins with a quote. -/
theorem head_escapeLongChar (c : Char) (rest : List Char) :
    (escapeLongChar c ++ rest).head? ≠ some '"' := by
  unfold escapeLongChar
  split
  · simp
  · split
    · simp
    · next hquote => simpa using hquote

/-- It does not begin with a quotation mark, so it does not end the text. -/
theorem head_escapeShortChar (c : Char) (rest : List Char) :
    (escapeShortChar c ++ rest).head? ≠ some '"' := by
  unfold escapeShortChar
  split
  · simp
  · exact head_escapeLongChar c rest

/-- No character of a long text is written as nothing. -/
theorem escapeLongChar_ne_nil (c : Char) : escapeLongChar c ≠ [] := by
  unfold escapeLongChar
  repeat' split
  all_goals simp

/-- Nor is one of a short text. -/
theorem escapeShortChar_ne_nil (c : Char) : escapeShortChar c ≠ [] := by
  unfold escapeShortChar
  split
  · simp
  · exact escapeLongChar_ne_nil c

/-- A text with a line break is read from between three quotes. -/
theorem longString_append (value : List Char) :
    Lexeme.longString "\"\"\"" ("\"\"\"".toList ++ (value.flatMap escapeLongChar ++
      ("\"\"\"".toList ++ rest))) = some (String.ofList value, rest) := by
  have hitems : Scan.itemsUntil (Scan.lead "\"\"\"")
      (Lexeme.stringEscape <|> Scan.charIf (· != '\\'))
      (value.flatMap escapeLongChar ++ ("\"\"\"".toList ++ rest)) = some (value, rest) := by
    refine Scan.itemsUntil_flatMap (Scan.lead_append _ _) ?_ escapeLongChar_ne_nil
    intro c _ r
    exact ⟨Scan.lead_of_head (c := '"') (by decide) (head_escapeLongChar c r),
      item_escapeLongChar fun hbackslash _ => by simpa using hbackslash⟩
  rw [Lexeme.longString, Scan.bind_of_some (Scan.lead_append _ _), Scan.bind_of_some hitems]
  rfl

/-- A text without line breaks is read from between two quotes. -/
theorem shortString_append {value : List Char} (h : '\n' ∉ value) :
    Lexeme.shortString '"' ('"' :: (value.flatMap escapeShortChar ++ '"' :: rest)) =
      some (String.ofList value, rest) := by
  have hitems : Scan.itemsUntil (Scan.char '"')
      (Lexeme.stringEscape <|> Scan.charIf fun c => c != '\\' && c != '\n' && c != '\r')
      (value.flatMap escapeShortChar ++ '"' :: rest) = some (value, rest) := by
    refine Scan.itemsUntil_flatMap (Scan.char_cons _ _) ?_ escapeShortChar_ne_nil
    intro c hc r
    refine ⟨Scan.char_of_ne (head_escapeShortChar c r), item_escapeShortChar ?_⟩
    intro hbackslash _ hreturn
    have hline : c ≠ '\n' := by
      rintro rfl
      exact h hc
    simp [hbackslash, hreturn, hline]
  rw [Lexeme.shortString, Scan.bind_of_some (Scan.char_cons _ _), Scan.bind_of_some hitems]
  rfl

/-- Three quotes do not begin a text between two quotes: an empty one has something else after
it, another one begins with no quote. -/
theorem longString_of_short (value : List Char) (hrest : rest.head? ≠ some '"') :
    Lexeme.longString "\"\"\"" ('"' :: (value.flatMap escapeShortChar ++ '"' :: rest)) = none := by
  have hmarks : "\"\"\"".toList = ['"', '"', '"'] := by decide
  have hdrop : dropLead? "\"\"\"".toList
      ('"' :: (value.flatMap escapeShortChar ++ '"' :: rest)) = none := by
    rw [Option.eq_none_iff_forall_not_mem]
    intro r hr
    have happend := dropLead?_eq_some_iff.mp hr
    rw [hmarks] at happend
    cases value with
    | nil =>
        simp only [List.flatMap_nil, List.nil_append, List.cons_append, List.cons.injEq,
          true_and] at happend
        exact hrest (by rw [happend]; rfl)
    | cons c value =>
        simp only [List.flatMap_cons, List.cons_append, List.nil_append, List.cons.injEq,
          true_and, List.append_assoc] at happend
        exact head_escapeShortChar c (value.flatMap escapeShortChar ++ '"' :: rest)
          (by rw [happend]; rfl)
  rw [Lexeme.longString, Scan.bind_of_none]
  rw [Scan.lead, hdrop]
  rfl

/-- **A text between quotes is read**, unless another quote follows. -/
theorem string_quoteText (value : String) (hrest : rest.head? ≠ some '"') :
    Parser.string ((quoteText value).toList ++ rest) = some (value, rest) := by
  have hsingle : ∀ cs : List Char, cs.head? = some '"' → Lexeme.longString "'''" cs = none := by
    intro cs hcs
    refine Scan.bind_of_none (Scan.lead_of_head (c := '\'') (by decide) ?_)
    rw [hcs]
    decide
  have hapostrophe : ∀ cs : List Char, cs.head? = some '"' →
      Lexeme.shortString '\'' cs = none := by
    intro cs hcs
    refine Scan.bind_of_none (Scan.char_of_ne ?_)
    rw [hcs]
    decide
  unfold quoteText Parser.string
  simp only
  split
  · have htext : ("\"\"\"" ++ String.ofList (value.toList.flatMap escapeLongChar) ++
        "\"\"\"").toList ++ rest = "\"\"\"".toList ++ (value.toList.flatMap escapeLongChar ++
          ("\"\"\"".toList ++ rest)) := by simp
    have hhead : ("\"\"\"".toList ++ (value.toList.flatMap escapeLongChar ++
        ("\"\"\"".toList ++ rest))).head? = some '"' := by
      have hmarks : "\"\"\"".toList = ['"', '"', '"'] := by decide
      rw [hmarks]
      rfl
    rw [htext, Scan.orElse_of_none (hsingle _ hhead),
      Scan.orElse_of_some (longString_append value.toList), String.ofList_toList]
  · next hline =>
      have hquote : "\"".toList = ['"'] := by decide
      have htext : ("\"" ++ String.ofList (value.toList.flatMap escapeShortChar) ++ "\"").toList ++
          rest = '"' :: (value.toList.flatMap escapeShortChar ++ '"' :: rest) := by
        simp [hquote]
      rw [htext, Scan.orElse_of_none (hsingle _ rfl),
        Scan.orElse_of_none (longString_of_short value.toList hrest),
        Scan.orElse_of_none (hapostrophe _ rfl),
        shortString_append (by simpa using hline), String.ofList_toList]

/-! ### Numbers -/

section Numbers

variable {digits whole fraction : List Char}

/-- Digits are one at least, and nothing else. -/
theorem isDigits_iff : isDigits digits = true ↔ digits ≠ [] ∧ ∀ c ∈ digits, c.isDigit = true := by
  simp [isDigits]

/-- Digits are read up to the first character that is none. -/
theorem run1_digits (h : isDigits digits = true)
    (hrest : ∀ c, rest.head? = some c → c.isDigit = false) :
    Scan.run1 Char.isDigit (digits ++ rest) = some (digits, rest) := by
  obtain ⟨hne, hall⟩ := isDigits_iff.mp h
  cases digits with
  | nil => exact absurd rfl hne
  | cons d ds =>
      rw [List.forall_mem_cons] at hall
      exact Scan.run1_append hall.1 hall.2 hrest

/-- A text that begins with digits begins with a digit. -/
theorem head_digits (h : isDigits digits = true) (rest : List Char) :
    ∃ d, (digits ++ rest).head? = some d ∧ d.isDigit = true := by
  obtain ⟨hne, hall⟩ := isDigits_iff.mp h
  cases digits with
  | nil => exact absurd rfl hne
  | cons d ds => exact ⟨d, rfl, hall d List.mem_cons_self⟩

/-- So it begins with no other character. -/
theorem head_digits_ne (h : isDigits digits = true) {c : Char} (hc : c.isDigit = false) :
    (digits ++ rest).head? ≠ some c := by
  obtain ⟨d, hhead, hd⟩ := head_digits h rest
  rw [hhead]
  rintro heq
  rw [Option.some.inj heq, hc] at hd
  cases hd

/-- Digits with a point behind them are read with the digits after the point, if there are any. -/
theorem pointed_whole (hwhole : isDigits whole = true)
    (hfraction : ∀ c ∈ fraction, c.isDigit = true)
    (hrest : ∀ c, rest.head? = some c → c.isDigit = false) :
    Parser.pointed (whole ++ '.' :: (fraction ++ rest)) =
      some (whole ++ '.' :: fraction, rest) := by
  rw [Parser.pointed, Scan.orElse_of_some]
  rw [Scan.bind_of_some (run1_digits hwhole (by simp)), Scan.bind_of_some (Scan.char_cons _ _),
    Scan.bind_of_some (Scan.run_append hfraction hrest)]
  rfl

/-- A point with digits behind it is read. -/
theorem pointed_fraction (hfraction : isDigits fraction = true)
    (hrest : ∀ c, rest.head? = some c → c.isDigit = false) :
    Parser.pointed ('.' :: (fraction ++ rest)) = some ('.' :: fraction, rest) := by
  rw [Parser.pointed, Scan.orElse_of_none (Scan.bind_of_none (Scan.run1_of_neg (by simp))),
    Scan.bind_of_some (Scan.char_cons _ _), Scan.bind_of_some (run1_digits hfraction hrest)]
  rfl

/-- Digits without a point are no number of this form. -/
theorem pointed_digits (h : isDigits digits = true)
    (hrest : ∀ c, rest.head? = some c → c.isDigit = false) (hpoint : rest.head? ≠ some '.') :
    Parser.pointed (digits ++ rest) = none := by
  have hhead : (digits ++ rest).head? ≠ some '.' := head_digits_ne h (by decide)
  rw [Parser.pointed, Scan.orElse_of_none]
  · rw [Scan.bind_of_none (Scan.char_of_ne hhead)]
  · rw [Scan.bind_of_some (run1_digits h hrest), Scan.bind_of_none (Scan.char_of_ne hpoint)]

/-- Where no letter of an exponent stands, none is read. -/
theorem exponent_of_head (h : ∀ c, rest.head? = some c → (c == 'e' || c == 'E') = false) :
    Lexeme.exponent rest = none := Scan.bind_of_none (Scan.charIf_of_neg h)

/-- Digits alone are an integer. -/
theorem unsignedNumber_integer (h : isDigits digits = true) (hrest : Delimited rest) :
    Parser.unsignedNumber (digits ++ rest) = some ((digits, "integer"), rest) := by
  have hdigit : ∀ c, rest.head? = some c → c.isDigit = false := hrest.head rfl
  have hpoint : rest.head? ≠ some '.' := hrest.head_ne rfl
  have hall := (isDigits_iff.mp h).2
  rw [Parser.unsignedNumber, Scan.orElse_of_none, Scan.orElse_of_none]
  · rw [Scan.bind_of_some (run1_digits h hdigit)]
    rfl
  · rw [Scan.bind_of_some (Scan.run_append hall hdigit),
      Scan.bind_of_none (Scan.char_of_ne hpoint)]
  · rw [Scan.bind_of_some ((Scan.orElse_of_none (pointed_digits h hdigit hpoint)).trans
      (run1_digits h hdigit)), Scan.bind_of_none (exponent_of_head (hrest.head rfl))]

/-- A decimal: the first form that is tried finds no exponent. -/
theorem unsignedNumber_decimal (hwhole : whole = [] ∨ isDigits whole = true)
    (hfraction : isDigits fraction = true) (hrest : Delimited rest) :
    Parser.unsignedNumber (whole ++ '.' :: (fraction ++ rest)) =
      some ((whole ++ '.' :: fraction, "decimal"), rest) := by
  have hdigit : ∀ c, rest.head? = some c → c.isDigit = false := hrest.head rfl
  have hpointed : Parser.pointed (whole ++ '.' :: (fraction ++ rest)) =
      some (whole ++ '.' :: fraction, rest) := by
    rcases hwhole with rfl | hwhole
    · exact pointed_fraction hfraction hdigit
    · exact pointed_whole hwhole (isDigits_iff.mp hfraction).2 hdigit
  have hrun : Scan.run Char.isDigit (whole ++ '.' :: (fraction ++ rest)) =
      some (whole, '.' :: (fraction ++ rest)) := by
    refine Scan.run_append ?_ (by simp)
    rcases hwhole with rfl | hwhole
    · simp
    · exact (isDigits_iff.mp hwhole).2
  rw [Parser.unsignedNumber, Scan.orElse_of_none, Scan.orElse_of_some]
  · rw [Scan.bind_of_some hrun, Scan.bind_of_some (Scan.char_cons _ _),
      Scan.bind_of_some (run1_digits hfraction hdigit)]
    rfl
  · rw [Scan.bind_of_some (Scan.orElse_of_some hpointed),
      Scan.bind_of_none (exponent_of_head (hrest.head rfl))]

/-- What may stand before the digits of a number. -/
def IsSign (sign : List Char) : Prop := sign = [] ∨ sign = ['+'] ∨ sign = ['-']

/-- A number is its sign, which may be missing, and the rest. -/
theorem exists_sign (cs : List Char) : ∃ sign, IsSign sign ∧ cs = sign ++ withoutSign cs := by
  unfold withoutSign
  split
  · exact ⟨['+'], Or.inr (Or.inl rfl), rfl⟩
  · exact ⟨['-'], Or.inr (Or.inr rfl), rfl⟩
  · exact ⟨[], Or.inl rfl, rfl⟩

/-- A sign is read. -/
theorem sign_append {sign : List Char} (h : IsSign sign)
    (hrest : ∀ c, rest.head? = some c → (c == '+' || c == '-') = false) :
    Lexeme.sign (sign ++ rest) = some (sign, rest) := by
  rcases h with rfl | rfl | rfl
  · rw [Lexeme.sign, List.nil_append,
      Scan.bind_of_some (Scan.optional_of_none (Scan.charIf_of_neg hrest))]
    rfl
  · rfl
  · rfl

/-- Digits begin with no sign. -/
theorem not_sign_of_digits (h : isDigits digits = true) :
    ∀ c, (digits ++ rest).head? = some c → (c == '+' || c == '-') = false := by
  intro c hc
  have hplus : (digits ++ rest).head? ≠ some '+' := head_digits_ne h (by decide)
  have hminus : (digits ++ rest).head? ≠ some '-' := head_digits_ne h (by decide)
  rw [hc] at hplus hminus
  simp only [ne_eq, Option.some.injEq] at hplus hminus
  simp [hplus, hminus]

/-- An exponent is read with its sign and its digits. -/
theorem exponent_append {e : Char} (he : (e == 'e' || e == 'E') = true) {sign : List Char}
    (hsign : IsSign sign) (hdigits : isDigits digits = true) (hrest : Delimited rest) :
    Lexeme.exponent (e :: (sign ++ (digits ++ rest))) = some (e :: sign ++ digits, rest) := by
  rw [Lexeme.exponent, Scan.bind_of_some (Scan.charIf_of_pos he),
    Scan.bind_of_some (sign_append hsign (not_sign_of_digits hdigits)),
    Scan.bind_of_some (run1_digits hdigits (hrest.head rfl))]
  rfl

/-- The three forms of the part of a double before its exponent. -/
theorem isMantissa_cases {mantissa : List Char} (h : isMantissa mantissa = true) :
    isDigits mantissa = true ∨
      (∃ whole fraction, mantissa = whole ++ '.' :: fraction ∧ isDigits whole = true ∧
        ∀ c ∈ fraction, c.isDigit = true) ∨
      ∃ fraction, mantissa = '.' :: fraction ∧ isDigits fraction = true := by
  unfold isMantissa at h
  split at h
  · next whole fraction hcut =>
      obtain ⟨c, hc, rfl⟩ := cutFirst_append hcut
      obtain rfl := beq_iff_eq.mp hc
      rcases Bool.or_eq_true_iff.mp h with h | h
      · obtain ⟨hwhole, hfraction⟩ := Bool.and_eq_true_iff.mp h
        refine Or.inr (Or.inl ⟨whole, fraction, rfl, hwhole, ?_⟩)
        rcases Bool.or_eq_true_iff.mp hfraction with hempty | hdigits
        · simp [List.isEmpty_iff.mp hempty]
        · exact (isDigits_iff.mp hdigits).2
      · obtain ⟨hwhole, hfraction⟩ := Bool.and_eq_true_iff.mp h
        obtain rfl := List.isEmpty_iff.mp hwhole
        exact Or.inr (Or.inr ⟨fraction, rfl, hfraction⟩)
  · exact Or.inl h

/-- The part of a double before its exponent is read with a point in it or without one. -/
theorem mantissa_append {mantissa : List Char} (h : isMantissa mantissa = true) {e : Char}
    (he : (e == 'e' || e == 'E') = true) :
    (Parser.pointed <|> Scan.run1 Char.isDigit) (mantissa ++ e :: rest) =
      some (mantissa, e :: rest) := by
  have hletter : e = 'e' ∨ e = 'E' := by simpa using he
  have hdigit : ∀ c, (e :: rest).head? = some c → c.isDigit = false := by
    intro c hc
    rw [← Option.some.inj hc]
    rcases hletter with rfl | rfl <;> decide
  have hpoint : (e :: rest).head? ≠ some '.' := by
    rcases hletter with rfl | rfl <;> simp
  rcases isMantissa_cases h with hdigits | ⟨whole, fraction, rfl, hwhole, hfraction⟩ |
    ⟨fraction, rfl, hfraction⟩
  · rw [Scan.orElse_of_none (pointed_digits hdigits hdigit hpoint)]
    exact run1_digits hdigits hdigit
  · rw [List.append_assoc, List.cons_append]
    exact Scan.orElse_of_some (pointed_whole hwhole hfraction hdigit)
  · exact Scan.orElse_of_some (pointed_fraction hfraction hdigit)

/-- What has an exponent is a double. -/
theorem unsignedNumber_double {mantissa sign : List Char} {e : Char}
    (hmantissa : isMantissa mantissa = true) (he : (e == 'e' || e == 'E') = true)
    (hsign : IsSign sign) (hdigits : isDigits digits = true) (hrest : Delimited rest) :
    Parser.unsignedNumber (mantissa ++ e :: (sign ++ (digits ++ rest))) =
      some ((mantissa ++ (e :: sign ++ digits), "double"), rest) := by
  rw [Parser.unsignedNumber, Scan.orElse_of_some]
  rw [Scan.bind_of_some (mantissa_append hmantissa he),
    Scan.bind_of_some (exponent_append he hsign hdigits hrest)]
  rfl

/-- A mantissa begins with a digit or a point. -/
theorem head_mantissa {mantissa : List Char} (h : isMantissa mantissa = true) :
    ∃ d, (mantissa ++ rest).head? = some d ∧ (d.isDigit = true ∨ d = '.') := by
  rcases isMantissa_cases h with hdigits | ⟨whole, fraction, rfl, hwhole, -⟩ | ⟨fraction, rfl, -⟩
  · obtain ⟨d, hhead, hd⟩ := head_digits hdigits rest
    exact ⟨d, hhead, Or.inl hd⟩
  · obtain ⟨d, hhead, hd⟩ := head_digits hwhole ('.' :: (fraction ++ rest))
    exact ⟨d, by rw [List.append_assoc, List.cons_append, hhead], Or.inl hd⟩
  · exact ⟨'.', rfl, Or.inr rfl⟩

/-- The types of which a literal can be written without quotes, apart from truth values. -/
def numberTypes : List String := ["integer", "decimal", "double"]

/-- **A number in bare form is read with its type.** -/
theorem unsignedNumber_of_isBareForm {type : String} (htype : type ∈ numberTypes)
    {cs : List Char} (h : isBareForm (Vocabulary.xsd type) cs = true) (hrest : Delimited rest) :
    Parser.unsignedNumber (withoutSign cs ++ rest) = some ((withoutSign cs, type), rest) ∧
      ∃ d, (withoutSign cs ++ rest).head? = some d ∧ (d.isDigit = true ∨ d = '.') := by
  simp only [numberTypes, List.mem_cons, List.not_mem_nil, or_false] at htype
  rcases htype with rfl | rfl | rfl
  · rw [isBareForm, if_pos rfl, isInteger] at h
    obtain ⟨d, hhead, hd⟩ := head_digits h rest
    exact ⟨unsignedNumber_integer h hrest, d, hhead, Or.inl hd⟩
  · rw [isBareForm, if_neg (by decide), if_pos rfl, isDecimal] at h
    split at h
    · next whole fraction hcut =>
        obtain ⟨c, hc, hsplit⟩ := cutFirst_append hcut
        rw [beq_iff_eq] at hc
        subst hc
        obtain ⟨hwhole, hfraction⟩ := Bool.and_eq_true_iff.mp h
        have hcase : whole = [] ∨ isDigits whole = true := by
          rcases Bool.or_eq_true_iff.mp hwhole with hempty | hdigits
          · exact Or.inl (List.isEmpty_iff.mp hempty)
          · exact Or.inr hdigits
        rw [hsplit, List.append_assoc, List.cons_append]
        refine ⟨unsignedNumber_decimal hcase hfraction hrest, ?_⟩
        rcases hcase with rfl | hdigits
        · exact ⟨'.', rfl, Or.inr rfl⟩
        · obtain ⟨d, hhead, hd⟩ := head_digits hdigits ('.' :: (fraction ++ rest))
          exact ⟨d, hhead, Or.inl hd⟩
    · cases h
  · rw [isBareForm, if_neg (by decide), if_neg (by decide), if_pos rfl,
      isDouble] at h
    split at h
    · next mantissa exponent hcut =>
        obtain ⟨e, he, hsplit⟩ := cutFirst_append hcut
        obtain ⟨hmantissa, hdigits⟩ := Bool.and_eq_true_iff.mp h
        obtain ⟨sign, hsign, hexponent⟩ := exists_sign exponent
        have htext : withoutSign cs ++ rest =
            mantissa ++ e :: (sign ++ (withoutSign exponent ++ rest)) := by
          rw [hsplit]
          nth_rewrite 1 [hexponent]
          simp
        refine ⟨?_, ?_⟩
        · rw [htext, unsignedNumber_double hmantissa he hsign hdigits hrest, hsplit,
            List.cons_append, ← hexponent]
        · rw [htext]
          exact head_mantissa hmantissa
    · cases h

end Numbers

namespace Parser

variable {s : Scope} {t : PrefixTable}

/-- A number begins with no white space and, without its sign, with none. -/
theorem isSpace_of_number {d : Char} (hd : d.isDigit = true ∨ d = '.') :
    Lexeme.isSpace d = false ∧ d ≠ '#' ∧ (d == '+' || d == '-') = false := by
  have hother : ∀ e : Char, e.isDigit = false → e ≠ '.' → d ≠ e := by
    rintro e hdigit hpoint rfl
    rcases hd with hd | hd
    · rw [hdigit] at hd
      cases hd
    · exact hpoint hd
  have hspace := hother ' ' (by decide) (by decide)
  have htab := hother '\t' (by decide) (by decide)
  have hline := hother '\n' (by decide) (by decide)
  have hreturn := hother '\r' (by decide) (by decide)
  have hmark := hother '#' (by decide) (by decide)
  have hplus := hother '+' (by decide) (by decide)
  have hminus := hother '-' (by decide) (by decide)
  simp [Lexeme.isSpace, hspace, htab, hline, hreturn, hmark, hplus, hminus]

/-- A number is read with its sign. -/
theorem reads_number {type : String} (htype : type ∈ numberTypes) {value : List Char}
    (h : isBareForm (Vocabulary.xsd type) value = true) (hrest : Delimited rest) :
    Reads number s (value ++ rest) (Lexeme.numeric value type) rest := by
  obtain ⟨hread, d, hhead, hd⟩ := unsignedNumber_of_isBareForm htype h hrest
  obtain ⟨sign, hsign, hvalue⟩ := exists_sign value
  obtain ⟨hspace, hmark, hnosign⟩ := isSpace_of_number hd
  generalize withoutSign value = body at hread hhead hvalue
  subst hvalue
  have hstrip : strip (body ++ rest) = body ++ rest := by
    cases htext : body ++ rest with
    | nil => rfl
    | cons c cs =>
        rw [htext] at hhead
        obtain rfl := Option.some.inj hhead
        exact strip_cons hspace hmark
  have htake : (sign ++ body ++ rest).take
      ((sign ++ body ++ rest).length - (body ++ rest).length) = sign := by
    rw [List.append_assoc, List.length_append, Nat.add_sub_cancel_right, List.take_left']
    rfl
  have hnumber : Reads (do
      let n ← remaining
      let read ← unsignedNumber
      return Lexeme.numeric
        ((sign ++ body ++ rest).take ((sign ++ body ++ rest).length - n) ++ read.1) read.2)
      s (body ++ rest) (Lexeme.numeric (sign ++ body) type) rest := by
    refine Reads.bind reads_remaining ?_
    refine Reads.bind (.lift hread) ?_
    rw [htake]
    exact reads_pure _ _ _
  have hsigned : Lexeme.sign (sign ++ body ++ rest) = some (sign, body ++ rest) := by
    rw [List.append_assoc]
    refine sign_append hsign ?_
    intro c hc
    rw [hhead] at hc
    rwa [← Option.some.inj hc]
  unfold number
  refine Reads.bind reads_get ?_
  refine Reads.bind (.lift hsigned) ?_
  split
  · refine Reads.bind reads_space ?_
    rw [hstrip]
    exact hnumber
  · exact hnumber

/-- Both truth values are read. -/
theorem reads_boolean (rest : List Char) :
    Reads boolean s ("true".toList ++ rest) (Lexeme.numeric "true".toList "boolean") rest ∧
      Reads boolean s ("false".toList ++ rest) (Lexeme.numeric "false".toList "boolean") rest := by
  have hfalse : "false".toList = ['f', 'a', 'l', 's', 'e'] := by decide
  refine ⟨?_, ?_⟩
  · refine Reads.orElse ?_
    refine (reads_lead "true" rest).bind ?_
    exact reads_pure _ _ _
  · refine Refuses.orElse_reads (Refuses.bind (refuses_lead (c := 't') (by decide) ?_)) ?_
    · rw [hfalse]
      simp
    · refine (reads_lead "false" rest).bind ?_
      exact reads_pure _ _ _

/-! ### Literals -/

/-- A text begins with a quotation mark of either kind. -/
theorem refuses_string (h : ∀ c, cs.head? = some c → c ≠ '"' ∧ c ≠ '\'') :
    Refuses (liftM string : Parser String) s cs := by
  have hquote : cs.head? ≠ some '"' := fun habsurd => (h '"' habsurd).1 rfl
  have hapostrophe : cs.head? ≠ some '\'' := fun habsurd => (h '\'' habsurd).2 rfl
  have hsingle : Lexeme.longString "'''" cs = none :=
    Scan.bind_of_none (Scan.lead_of_head (by decide) hapostrophe)
  have hdouble : Lexeme.longString "\"\"\"" cs = none :=
    Scan.bind_of_none (Scan.lead_of_head (by decide) hquote)
  have hshort : Lexeme.shortString '\'' cs = none := Scan.bind_of_none (Scan.char_of_ne hapostrophe)
  refine .lift ?_
  unfold string
  rw [Scan.orElse_of_none hsingle, Scan.orElse_of_none hdouble, Scan.orElse_of_none hshort]
  exact Scan.bind_of_none (Scan.char_of_ne hquote)

/-- The text goes on as it does after a literal, without the mark of a datatype or a language. -/
structure Ended (rest : List Char) : Prop where
  delimited : Delimited rest
  datatype : (strip rest).head? ≠ some '^'
  language : (strip rest).head? ≠ some '@'

/-- A text goes on as after a literal if it goes on with a character that is no mark. -/
theorem Ended.of_head (h : Delimited rest) {c : Char} (hc : (strip rest).head? = some c)
    (hmark : c ≠ '^' ∧ c ≠ '@') : Ended rest where
  delimited := h
  datatype := by simpa [hc] using hmark.1
  language := by simpa [hc] using hmark.2

/-- What the reader has to know for a literal: its datatype, if it is written, is known, and its
language tag is well formed. -/
def KnowsLiteral (t : PrefixTable) (s : Scope) (l : Literal) : Prop :=
  match l.kind with
  | .simple => True
  | .typed d => l.isBare = false → Knows t s d
  | .tagged tag => LanguageTag.isWellFormed tag = true

/-- The form of a known IRI begins with no white space. -/
theorem strip_render {text : String} (h : Knows t s text) :
    strip (((Resource.iri text).render t).toList ++ rest) =
      ((Resource.iri text).render t).toList ++ rest := by
  obtain ⟨c, cs, hform, hc⟩ := head_render h
  have hletter : ∀ c : Char, Lexeme.isSpace c = true ∨ c = '#' → NameChars.isLetter c = false := by
    intro c hc
    simp only [Lexeme.isSpace, Bool.or_eq_true, beq_iff_eq] at hc
    rcases hc with (((rfl | rfl) | rfl) | rfl) | rfl
    all_goals decide
  rw [hform, List.cons_append]
  rcases hc with rfl | rfl | hc
  · exact strip_cons (by decide) (by decide)
  · exact strip_cons (by decide) (by decide)
  · refine strip_cons ?_ ?_
    · by_contra habsurd
      rw [hletter c (Or.inl (by simpa using habsurd))] at hc
      cases hc
    · rintro rfl
      rw [hletter '#' (Or.inr rfl)] at hc
      cases hc

/-- After the mark of a datatype an IRI is read. -/
theorem exec_typed (text : String) (hcs : strip cs = cs) :
    (stringLiteral.typed text).exec ('^' :: '^' :: cs) s =
      (iri >>= fun d => pure (.ofType text d) : Parser Literal).exec cs s := by
  have hmarks : "^^".toList = ['^', '^'] := by decide
  have hlead : Reads (lead "^^") s ('^' :: '^' :: cs) () cs := by
    have hread := reads_lead (s := s) "^^" cs
    rwa [hmarks] at hread
  have hstrip : strip ('^' :: '^' :: cs) = '^' :: '^' :: cs := strip_cons (by decide) (by decide)
  unfold stringLiteral.typed
  rw [exec_bind_of_some (reads_space_to hstrip), exec_bind_of_some hlead,
    exec_bind_of_some (reads_space_to hcs)]

/-- A datatype that is known is read behind its mark. -/
theorem reads_typed {d : String} (h : Knows t s d) (hrest : Delimited rest) (text : String) :
    Reads (stringLiteral.typed text) s
      ('^' :: '^' :: (((Resource.iri d).render t).toList ++ rest)) (.ofType text d) rest :=
  (exec_typed text (strip_render h)).trans ((reads_iri h hrest).bind (reads_pure _ _ _))

/-- Where its mark does not stand, no datatype is read. -/
theorem refuses_typed {text : String} (h : (strip rest).head? ≠ some '^') :
    Refuses (stringLiteral.typed text) s rest := by
  unfold stringLiteral.typed
  refine Reads.bind_refuses reads_space ?_
  exact Refuses.bind (refuses_lead (by decide) h)

/-- Where its mark does not stand, no language is read. -/
theorem refuses_tagged {text : String} (h : (strip rest).head? ≠ some '@') :
    Refuses (stringLiteral.tagged text) s rest := by
  unfold stringLiteral.tagged
  refine Reads.bind_refuses reads_space ?_
  exact Refuses.bind (.lift (Scan.bind_of_none (Scan.char_of_ne h)))

/-- The subtags after the first are read one by one. -/
theorem readsAll_subtags {subs : List (List Char)}
    (h : ∀ sub ∈ subs, sub ≠ [] ∧ ∀ c ∈ sub, c.isAlphanum = true) (hrest : Delimited rest) :
    Scan.ReadsAll (do Scan.char '-'; return '-' :: (← Scan.run1 Char.isAlphanum))
      (subs.flatMap ('-' :: ·) ++ rest) (subs.map ('-' :: ·)) rest := by
  induction subs with
  | nil => exact .nil (Scan.bind_of_none (Scan.char_of_ne (hrest.head_ne rfl)))
  | cons sub subs ih =>
      rw [List.forall_mem_cons] at h
      obtain ⟨⟨hne, hsub⟩, hsubs⟩ := h
      have hstop : ∀ c, (subs.flatMap ('-' :: ·) ++ rest).head? = some c →
          c.isAlphanum = false := by
        cases subs with
        | nil => exact hrest.head rfl
        | cons sub' subs => simp
      cases sub with
      | nil => exact absurd rfl hne
      | cons c cs =>
          rw [List.forall_mem_cons] at hsub
          have htext : (((c :: cs) :: subs).flatMap ('-' :: ·)) ++ rest =
              '-' :: (c :: cs ++ (subs.flatMap ('-' :: ·) ++ rest)) := by simp
          have hitem : (do Scan.char '-'; return '-' :: (← Scan.run1 Char.isAlphanum))
              ('-' :: (c :: cs ++ (subs.flatMap ('-' :: ·) ++ rest))) =
                some ('-' :: c :: cs, subs.flatMap ('-' :: ·) ++ rest) := by
            rw [Scan.bind_of_some (Scan.char_cons _ _),
              Scan.bind_of_some (Scan.run1_append hsub.1 hsub.2 hstop)]
            rfl
          rw [htext]
          exact .cons hitem (by simp; omega) (ih hsubs)

/-- A well-formed language tag in lower case is read. -/
theorem languageTag_append {tag : String} (h : LanguageTag.isWellFormed tag = true)
    (hlower : tag.map Char.toLower = tag) (hrest : Delimited rest) :
    Lexeme.languageTag ('@' :: (tag.toList ++ rest)) = some (tag, rest) := by
  have hsubtags := LanguageTag.areSubtags_of_isWellFormed h hlower
  cases hsplit : splitAll (· == '-') tag.toList with
  | nil => exact absurd hsplit (splitAll_ne_nil _ _)
  | cons first more =>
      have htag := splitAll_append hsplit
      rw [hsplit] at hsubtags
      simp only [LanguageTag.areSubtags, Bool.and_eq_true, List.all_eq_true,
        Bool.not_eq_true', List.isEmpty_eq_false_iff] at hsubtags
      obtain ⟨⟨hne, hfirst⟩, hmore⟩ := hsubtags
      have hstop : ∀ c, (more.flatMap ('-' :: ·) ++ rest).head? = some c → c.isAlpha = false := by
        cases more with
        | nil => exact hrest.head rfl
        | cons sub more => simp
      have hitems := (readsAll_subtags hmore hrest).items
      have hflat : (more.map ('-' :: ·)).flatten = more.flatMap ('-' :: ·) := by
        rw [List.flatMap_def]
      cases first with
      | nil => exact absurd rfl hne
      | cons c cs =>
          rw [List.forall_mem_cons] at hfirst
          rw [Lexeme.languageTag, Scan.bind_of_some (Scan.char_cons _ _), htag, List.append_assoc,
            Scan.bind_of_some (Scan.run1_append hfirst.1 hfirst.2 hstop),
            Scan.bind_of_some hitems, Scan.pure_apply, hflat, ← htag, String.ofList_toList]

/-- A typed literal that is not bare: its text between quotes, the mark and its datatype. -/
theorem toList_render_typed {value d : String} (h : isBareForm d value.toList = false) :
    (Literal.render t ⟨value, .typed d⟩).toList =
      (quoteText value).toList ++ '^' :: '^' :: ((Resource.iri d).render t).toList := by
  have hmarks : "^^".toList = ['^', '^'] := by decide
  simp [Literal.render, h, hmarks]

/-- **A literal between quotes is read** with its datatype or its language. -/
theorem reads_stringLiteral {l : Literal} (hnormal : l.normal = l) (hbare : l.isBare = false)
    (h : KnowsLiteral t s l) (hrest : Ended rest) :
    Reads stringLiteral s ((l.render t).toList ++ rest) l rest := by
  obtain ⟨value, kind⟩ := l
  cases kind with
  | simple =>
      have hstring := string_quoteText value (hrest.delimited.head_ne (d := '"') rfl)
      refine (Reads.lift hstring).bind ?_
      refine Refuses.orElse_reads (refuses_typed hrest.datatype) ?_
      exact Refuses.orElse_reads (refuses_tagged hrest.language) (reads_pure _ _ _)
  | typed d =>
      have htype : Literal.ofType value d = ⟨value, .typed d⟩ := hnormal
      rw [toList_render_typed hbare, List.append_assoc, List.cons_append, List.cons_append]
      refine (Reads.lift (string_quoteText value (by simp))).bind ?_
      have hread := reads_typed (h hbare) hrest.delimited value
      rw [htype] at hread
      exact hread.orElse
  | tagged tag =>
      have hform : (Literal.render t ⟨value, .tagged tag⟩).toList ++ rest =
          (quoteText value).toList ++ '@' :: (tag.toList ++ rest) := by
        have hmark : "@".toList = ['@'] := by decide
        simp [Literal.render, hmark]
      -- reading makes a tag lower case, which that of a normal literal is
      have hlower : tag.map Char.toLower = tag := by
        have hkind := congrArg Literal.kind hnormal
        simpa [Literal.normal, Literal.inLanguage] using hkind
      have hlanguage : Literal.inLanguage value tag = ⟨value, .tagged tag⟩ := hnormal
      have hmark : strip ('@' :: (tag.toList ++ rest)) = '@' :: (tag.toList ++ rest) :=
        strip_cons (by decide) (by decide)
      have hread : Reads (stringLiteral.tagged value) s ('@' :: (tag.toList ++ rest))
          (.inLanguage value tag) rest := by
        unfold stringLiteral.tagged
        refine Reads.bind reads_space ?_
        rw [hmark]
        refine (Reads.lift (languageTag_append h hlower hrest.delimited)).bind ?_
        refine (reads_guard ?_).bind (reads_pure _ _ _)
        rw [hlower]
        exact h
      rw [hlanguage] at hread
      rw [hform]
      refine (Reads.lift (string_quoteText value (by simp))).bind ?_
      refine Refuses.orElse_reads (refuses_typed ?_) hread.orElse
      rw [hmark]
      simp

/-- A bare literal is a number or a truth value. -/
theorem isBare_cases {l : Literal} (h : l.isBare = true) (hnormal : l.normal = l) :
    (∃ type ∈ numberTypes, isBareForm (Vocabulary.xsd type) l.value.toList = true ∧
        Lexeme.numeric l.value.toList type = l) ∨
      ∃ word ∈ ["true", "false"], l.value = word ∧ Lexeme.numeric word.toList "boolean" = l := by
  obtain ⟨value, kind⟩ := l
  cases kind with
  | simple => cases h
  | tagged tag => cases h
  | typed d =>
      have hform : isBareForm d value.toList = true := h
      have htype : Literal.ofType value d = ⟨value, .typed d⟩ := hnormal
      have hnumber : ∀ type ∈ numberTypes, d = Vocabulary.xsd type →
          isBareForm (Vocabulary.xsd type) value.toList = true ∧
            Lexeme.numeric value.toList type = ⟨value, .typed d⟩ := by
        rintro type - rfl
        exact ⟨hform, by rw [Lexeme.numeric, String.ofList_toList, htype]⟩
      unfold isBareForm at hform
      split at hform
      · next heq => exact Or.inl ⟨"integer", by decide, hnumber _ (by decide) heq⟩
      · split at hform
        · next heq => exact Or.inl ⟨"decimal", by decide, hnumber _ (by decide) heq⟩
        · split at hform
          · next heq => exact Or.inl ⟨"double", by decide, hnumber _ (by decide) heq⟩
          · split at hform
            · next heq =>
                right
                subst heq
                simp only [Bool.or_eq_true, beq_iff_eq, String.toList_inj] at hform
                rcases hform with rfl | rfl
                · exact ⟨"true", by simp, rfl, by rw [Lexeme.numeric, String.ofList_toList, htype]⟩
                · exact ⟨"false", by simp, rfl, by rw [Lexeme.numeric, String.ofList_toList, htype]⟩
            · cases hform

/-- A literal that can be written bare is written as its value. -/
theorem render_of_isBare {l : Literal} (h : l.isBare = true) : l.render t = l.value := by
  obtain ⟨value, kind⟩ := l
  cases kind with
  | simple => cases h
  | tagged tag => cases h
  | typed d => exact if_pos h

/-- A number begins with a digit, a point or a sign. -/
theorem head_number {type : String} (htype : type ∈ numberTypes) {value : List Char}
    (h : isBareForm (Vocabulary.xsd type) value = true) (hrest : Delimited rest) :
    ∃ d, (value ++ rest).head? = some d ∧ (d.isDigit = true ∨ d = '.' ∨ d = '+' ∨ d = '-') := by
  obtain ⟨-, d, hhead, hd⟩ := unsignedNumber_of_isBareForm htype h hrest
  obtain ⟨sign, hsign, hvalue⟩ := exists_sign value
  rcases hsign with rfl | rfl | rfl
  · rw [List.nil_append] at hvalue
    rw [← hvalue] at hhead
    exact ⟨d, hhead, hd.imp id Or.inl⟩
  · rw [hvalue]
    exact ⟨'+', rfl, by simp⟩
  · rw [hvalue]
    exact ⟨'-', rfl, by simp⟩

/-- A number begins with a digit or a point. -/
theorem unsignedNumber_of_head (h : ∀ c, cs.head? = some c → c.isDigit = false)
    (hpoint : cs.head? ≠ some '.') : unsignedNumber cs = none := by
  have hrun1 : Scan.run1 Char.isDigit cs = none := Scan.run1_of_neg h
  have hpointed : pointed cs = none := by
    rw [pointed, Scan.orElse_of_none (Scan.bind_of_none hrun1),
      Scan.bind_of_none (Scan.char_of_ne hpoint)]
  have hrun : Scan.run Char.isDigit cs = some ([], cs) :=
    Scan.run_append (List.forall_mem_nil _) h
  rw [unsignedNumber, Scan.orElse_of_none, Scan.orElse_of_none]
  · rw [Scan.bind_of_none hrun1]
  · rw [Scan.bind_of_some hrun, Scan.bind_of_none (Scan.char_of_ne hpoint)]
  · exact Scan.bind_of_none ((Scan.orElse_of_none hpointed).trans hrun1)

/-- With its sign it may begin with that. -/
theorem refuses_number (h : ∀ c, cs.head? = some c →
    c.isDigit = false ∧ c ≠ '.' ∧ c ≠ '+' ∧ c ≠ '-') : Refuses number s cs := by
  have hnone : IsSign [] := Or.inl rfl
  have hsign : Lexeme.sign cs = some ([], cs) := by
    refine sign_append hnone ?_
    intro c hc
    simp [(h c hc).2.2]
  have hunsigned := unsignedNumber_of_head (fun c hc => (h c hc).1)
    fun habsurd => (h '.' habsurd).2.1 rfl
  unfold number
  refine Reads.bind_refuses reads_get ?_
  refine Reads.bind_refuses (.lift hsign) ?_
  refine Reads.bind_refuses reads_remaining ?_
  exact Refuses.bind (.lift hunsigned)

/-- **A literal is read as it is written.** -/
theorem reads_literal {l : Literal} (hnormal : l.normal = l) (h : KnowsLiteral t s l)
    (hrest : Ended rest) : Reads literal s ((l.render t).toList ++ rest) l rest := by
  cases hbare : l.isBare with
  | false => exact (reads_stringLiteral hnormal hbare h hrest).orElse
  | true =>
      have hlead : ∀ cs : List Char, (∀ c, cs.head? = some c → c ≠ '"' ∧ c ≠ '\'') →
          Refuses stringLiteral s cs := fun cs hcs => (refuses_string hcs).bind
      rw [render_of_isBare hbare]
      rcases isBare_cases hbare hnormal with ⟨type, htype, hform, hnumeric⟩ |
        ⟨word, hword, hvalue, hnumeric⟩
      · obtain ⟨d, hhead, hd⟩ := head_number htype hform hrest.delimited
        refine Refuses.orElse_reads (hlead _ ?_) ?_
        · intro c hc
          rw [hhead] at hc
          obtain rfl := Option.some.inj hc
          constructor
          all_goals
            rintro rfl
            revert hd
            decide
        · have hread := reads_number (s := s) htype hform hrest.delimited
          rw [hnumeric] at hread
          exact hread.orElse
      · have htrue : "true".toList = ['t', 'r', 'u', 'e'] := by decide
        have hfalse : "false".toList = ['f', 'a', 'l', 's', 'e'] := by decide
        obtain ⟨hreadTrue, hreadFalse⟩ := reads_boolean (s := s) rest
        rw [hvalue, ← hnumeric]
        simp only [List.mem_cons, List.not_mem_nil, or_false] at hword
        refine Refuses.orElse_reads (hlead _ ?_) (Refuses.orElse_reads (refuses_number ?_) ?_)
        · rcases hword with rfl | rfl
          · simp [htrue]
          · simp [hfalse]
        · rcases hword with rfl | rfl
          · simp [htrue]
          · simp [hfalse]
        · rcases hword with rfl | rfl
          · exact hreadTrue
          · exact hreadFalse

end Parser

end Sparql

end SparqlCompose
