import Mathlib
import SparqlCompose.Proofs.Cut
import SparqlCompose.Proofs.Iri
import SparqlCompose.Proofs.FreshName
import SparqlCompose.Proofs.Sparql.Reads
import SparqlCompose.Query.Text

/-!
# Names are read as they are written

A variable, an IRI between angle brackets and a prefixed name are read back when a delimiter
follows them (`Sparql.Delimited`).  An IRI is known to a reader when it is absolute and the prefix
that the table writes for it, if any, stands for its namespace in the scope of the reader
(`Sparql.Knows`); such an IRI is read back from whatever form the table gives it
(`Sparql.Parser.reads_iri`).
-/

namespace SparqlCompose

/-- The text has no characters beyond ASCII. -/
def IsAscii (text : String) : Prop := ∀ c ∈ text.toList, c.toNat < 128

instance (text : String) : Decidable (IsAscii text) :=
  decidable_of_iff (text.toList.all fun c => decide (c.toNat < 128)) (by simp [IsAscii])

/-- Among the characters of ASCII only its own letters and digits are alphanumeric: all ranges but
the first three begin beyond it. -/
theorem isAlphanum_of_isAlphanumeric {c : Char} (hc : c.toNat < 128)
    (h : isAlphanumeric c = true) : c.isAlphanum = true := by
  have hbeyond : ∀ r ∈ alphanumericRanges.drop 3, 128 ≤ r.first := by decide +kernel
  have hascii : ∀ n < 128, (alphanumericRanges.take 3).any (·.has n) = true →
      (Char.ofNat n).isAlphanum = true := by decide +kernel
  rw [isAlphanumeric, ← List.take_append_drop 3 alphanumericRanges, List.any_append,
    Bool.or_eq_true, Bool.or_eq_true] at h
  rcases h with h | h | h
  · exact h
  · have hchar := hascii c.toNat hc h
    rw [Char.ofNat_toNat] at hchar
    exact hchar
  · obtain ⟨r, hr, hhas⟩ := List.any_eq_true.mp h
    simp only [CodeRange.has, Bool.and_eq_true, decide_eq_true_eq] at hhas
    exact absurd (hbeyond r hr) (by omega)

namespace Sparql

/-! ### Characters -/

/-- Letters, digits and underscores of ASCII. -/
def isWordChar (c : Char) : Bool := c.isAlphanum || c == '_'

/-- A character of a word is a letter or an underscore, or a digit. -/
theorem isWordChar_cases {c : Char} (h : isWordChar c = true) :
    NameChars.isLetterU c = true ∨ c.isDigit = true := by
  simp only [isWordChar, Char.isAlphanum, Bool.or_eq_true] at h
  simp only [NameChars.isLetterU, NameChars.isLetter, Bool.or_eq_true]
  tauto

/-- It may stand inside the name of a variable. -/
theorem isVarInner_of_isWordChar {c : Char} (h : isWordChar c = true) :
    NameChars.isVarInner c = true := by
  rcases isWordChar_cases h with h | h <;> simp [NameChars.isVarInner, h]

/-- It may stand inside a local name. -/
theorem isInner_of_isWordChar {c : Char} (h : isWordChar c = true) :
    NameChars.isInner c = true := by
  rcases isWordChar_cases h with h | h <;> simp [NameChars.isInner, h]

/-- In ASCII a character of names is one of words. -/
theorem isWordChar_of_isNameChar {c : Char} (hc : c.toNat < 128) (h : isNameChar c = true) :
    isWordChar c = true := by
  simp only [isNameChar, Bool.or_eq_true] at h
  rcases h with h | h
  · simp [isWordChar, isAlphanum_of_isAlphanumeric hc h]
  · simp [isWordChar, h]

/-- A variable name of ASCII is a word. -/
theorem exists_word {name : String} (h : isVarName name = true) (hascii : IsAscii name) :
    ∃ c cs, name.toList = c :: cs ∧ isWordChar c = true ∧ ∀ d ∈ cs, isWordChar d = true := by
  obtain ⟨hne, hall⟩ := isVarName_iff.mp h
  cases hname : name.toList with
  | nil => exact absurd hname hne
  | cons c cs =>
      have hword : ∀ d ∈ c :: cs, isWordChar d = true := by
        intro d hd
        rw [← hname] at hd
        exact isWordChar_of_isNameChar (hascii d hd) (hall d hd)
      exact ⟨c, cs, rfl, hword c List.mem_cons_self,
        fun d hd => hword d (List.mem_cons_of_mem _ hd)⟩

/-- The characters that stand after a name in the text of a query. -/
def isDelimiter (c : Char) : Bool := c == ' ' || c == ',' || c == '\n' || c == ')'

/-- The text ends, or goes on with a character that ends a name. -/
def Delimited (rest : List Char) : Prop := ∀ c, rest.head? = some c → isDelimiter c = true

/-- The end of a text delimits a name. -/
theorem delimited_nil : Delimited [] := by
  intro c hc
  cases hc

/-- So does a delimiter. -/
theorem delimited_cons {c : Char} (hc : isDelimiter c = true) (cs : List Char) :
    Delimited (c :: cs) := by
  intro d hd
  exact Option.some.inj hd ▸ hc

/-- A class that has no delimiter does not go on where a name ends. -/
theorem Delimited.head {rest : List Char} (h : Delimited rest) {class? : Char → Bool}
    (hclass : ([' ', ',', '\n', ')'].all fun c => !class? c) = true) :
    ∀ c, rest.head? = some c → class? c = false := by
  intro c hc
  have hmem : c ∈ [' ', ',', '\n', ')'] := by simpa [isDelimiter, or_assoc] using h c hc
  simpa using List.all_eq_true.mp hclass c hmem

/-- A delimited name is followed by no other character. -/
theorem Delimited.head_ne {rest : List Char} (h : Delimited rest) {d : Char}
    (hd : ([' ', ',', '\n', ')'].all fun c => !(c == d)) = true) : rest.head? ≠ some d := by
  intro habsurd
  simpa using h.head hd d habsurd

/-- A prefix: a letter, then characters inside of names and dots, the last of which is no dot;
or nothing. -/
def isPrefixName : List Char → Bool
  | [] => true
  | c :: cs =>
    NameChars.isLetter c && cs.all (fun c => NameChars.isInner c || c == '.') &&
      cs.getLast? != some '.'

/-! ### Prefixes -/

section Prefixes

variable {cs rest : List Char}

/-- A text begins with its longest run of a class. -/
theorem exists_run (class? : Char → Bool) (cs : List Char) :
    ∃ inside rest, cs = inside ++ rest ∧ (∀ c ∈ inside, class? c = true) ∧
      ∀ c, rest.head? = some c → class? c = false := by
  refine ⟨cs.takeWhile class?, cs.dropWhile class?, List.takeWhile_append_dropWhile.symm,
    fun c hc => List.mem_takeWhile_imp hc, ?_⟩
  intro c hc
  have hhead := List.head?_dropWhile_not class? cs
  rw [hc] at hhead
  simpa using hhead

/-- A run of inner characters ends at a dot and at the colon of a prefix. -/
theorem inner_stops (hdot : ∀ c, cs.head? = some c → c = '.') :
    ∀ c, (cs ++ ':' :: rest).head? = some c → NameChars.isInner c = false := by
  intro c hc
  have hcase : c = '.' ∨ c = ':' := by
    cases cs with
    | nil => right; simpa [eq_comm] using hc
    | cons d cs => left; exact hdot c (by simpa using hc)
  rcases hcase with rfl | rfl <;> decide

/-- What follows a run of inner characters begins with a dot. -/
theorem head_dot (hall : ∀ c ∈ cs, NameChars.isInner c = true ∨ c = '.')
    (hhead : ∀ c, cs.head? = some c → NameChars.isInner c = false) :
    ∀ c, cs.head? = some c → c = '.' :=
  fun c hc => (hall c (List.mem_of_mem_head? hc)).resolve_left (by simp [hhead c hc])

/-- The last character of a text is the last of its later part. -/
theorem getLast?_ne_of_append {before : List Char} {c : Char}
    (h : (before ++ cs).getLast? ≠ some c) : cs.getLast? ≠ some c := by
  intro habsurd
  exact h (by rw [List.getLast?_append, habsurd]; rfl)

/-- The characters of a prefix after its first run are groups of dots and inner characters.  The
induction is on the length of what is left; a group always ends with an inner character, because
the last character of a prefix is no dot. -/
theorem exists_groups (rest : List Char) (n : Nat) (hlength : cs.length ≤ n)
    (hall : ∀ c ∈ cs, NameChars.isInner c = true ∨ c = '.') (hlast : cs.getLast? ≠ some '.')
    (hhead : ∀ c, cs.head? = some c → c = '.') :
    ∃ groups, Scan.ReadsAll (dotted (Scan.run1 NameChars.isInner)) (cs ++ ':' :: rest) groups
      (':' :: rest) ∧ groups.flatten = cs := by
  induction n generalizing cs with
  | zero =>
      obtain rfl := List.length_eq_zero_iff.mp (Nat.le_zero.mp hlength)
      exact ⟨[], .nil rfl, rfl⟩
  | succ n ih =>
      cases cs with
      | nil => exact ⟨[], .nil rfl, rfl⟩
      | cons c tail =>
          obtain rfl := (hhead c rfl).symm
          obtain ⟨dots, mid, rfl, hdots, hmid⟩ := exists_run (· == '.') tail
          cases mid with
          | nil =>
              -- a text of dots only would end with one
              have hall : ∀ c ∈ '.' :: dots, c = '.' := by
                simpa using hdots
              have hlastDot := hall _ (List.getLast_mem (List.cons_ne_nil '.' dots))
              rw [List.append_nil, List.getLast?_eq_some_getLast (List.cons_ne_nil _ _),
                hlastDot] at hlast
              exact absurd rfl hlast
          | cons d mid =>
              have hdne : d ≠ '.' := by simpa using hmid d rfl
              have hd : NameChars.isInner d = true := by simpa [hdne] using hall d (by simp)
              obtain ⟨inner, more, rfl, hinner, hmore⟩ := exists_run NameChars.isInner mid
              have hmoreAll : ∀ c ∈ more, NameChars.isInner c = true ∨ c = '.' :=
                fun c hc => hall c (by simp [hc])
              have hdot := head_dot hmoreAll hmore
              have hmoreLast : more.getLast? ≠ some '.' := by
                rw [← List.cons_append, ← List.cons_append, ← List.append_assoc] at hlast
                exact getLast?_ne_of_append hlast
              have hshort : more.length ≤ n := by
                simp at hlength
                omega
              obtain ⟨groups, hreads, rfl⟩ := ih hshort hmoreAll hmoreLast hdot
              refine ⟨('.' :: dots ++ d :: inner) :: groups, .cons ?_ ?_ hreads, by simp⟩
              · have htext : '.' :: (dots ++ d :: (inner ++ groups.flatten)) ++ ':' :: rest =
                    '.' :: dots ++ (d :: inner ++ (groups.flatten ++ ':' :: rest)) := by simp
                rw [htext, dotted, Scan.bind_of_some (Scan.run1_append (by simp) hdots
                  (by simpa using hdne)),
                Scan.bind_of_some (Scan.run1_append hd hinner (inner_stops hdot))]
                rfl
              · simp
                omega

/-- The characters of a prefix are read up to its colon. -/
theorem laterChars_append (hall : ∀ c ∈ cs, NameChars.isInner c = true ∨ c = '.')
    (hlast : cs.getLast? ≠ some '.') : laterChars (cs ++ ':' :: rest) = some (cs, ':' :: rest) := by
  obtain ⟨inner, more, rfl, hinner, hmore⟩ := exists_run NameChars.isInner cs
  have hmoreAll : ∀ c ∈ more, NameChars.isInner c = true ∨ c = '.' :=
    fun c hc => hall c (by simp [hc])
  have hdot := head_dot hmoreAll hmore
  obtain ⟨groups, hreads, rfl⟩ := exists_groups rest more.length le_rfl hmoreAll
    (getLast?_ne_of_append hlast) hdot
  rw [laterChars, List.append_assoc, Scan.bind_of_some (Scan.run_append hinner (inner_stops hdot)),
    Scan.bind_of_some hreads.items]
  rfl

/-- A prefix with its colon is read. -/
theorem prefixName_append {name : String} (h : isPrefixName name.toList = true) :
    prefixName (name.toList ++ ':' :: rest) = some (name, rest) := by
  cases hname : name.toList with
  | nil =>
      have hempty : name = "" := by rw [← String.ofList_toList (s := name), hname]
      rw [prefixName, Scan.orElse_of_some (Scan.bind_of_some (Scan.char_cons ':' rest)), hempty]
  | cons c cs =>
      rw [hname] at h
      simp only [isPrefixName, Bool.and_eq_true, List.all_eq_true, Bool.or_eq_true,
        beq_iff_eq, bne_iff_ne] at h
      obtain ⟨⟨hc, hall⟩, hlast⟩ := h
      have hne : c ≠ ':' := by
        rintro rfl
        revert hc
        decide
      have hofList : String.ofList (c :: cs) = name := by rw [← hname, String.ofList_toList]
      rw [prefixName,
        Scan.orElse_of_none (Scan.bind_of_none (Scan.char_of_ne (by simpa using hne))),
        List.cons_append, Scan.bind_of_some (Scan.charIf_of_pos hc),
        Scan.bind_of_some (laterChars_append hall hlast), Scan.bind_of_some (Scan.char_cons _ _)]
      rw [hofList]
      rfl

/-- A text that begins with neither a colon nor a letter has no prefix at its front. -/
theorem prefixName_of_head
    (h : ∀ c, cs.head? = some c → c ≠ ':' ∧ NameChars.isLetter c = false) :
    prefixName cs = none := by
  have hcolon : cs.head? ≠ some ':' := fun habsurd => (h ':' habsurd).1 rfl
  rw [prefixName, Scan.orElse_of_none (Scan.bind_of_none (Scan.char_of_ne hcolon)),
    Scan.bind_of_none (Scan.charIf_of_neg fun c hc => (h c hc).2)]

/-- A word with a delimiter after it is no prefix. -/
theorem prefixName_of_word {word : List Char} (hword : ∀ c ∈ word, NameChars.isInner c = true)
    (hrest : Delimited rest) : prefixName (word ++ rest) = none := by
  have hinner : ∀ c, rest.head? = some c → NameChars.isInner c = false := hrest.head rfl
  have hcolon : rest.head? ≠ some ':' := hrest.head_ne rfl
  have hdot : ∀ c, rest.head? = some c → (c == '.') = false := hrest.head rfl
  cases word with
  | nil =>
      refine prefixName_of_head fun c hc => ⟨?_, ?_⟩
      · rintro rfl
        exact hcolon hc
      · have hc := hinner c hc
        simp only [NameChars.isInner, NameChars.isLetterU, Bool.or_eq_false_iff] at hc
        exact hc.1.1.1.1
  | cons c cs =>
      have hne : c ≠ ':' := by
        rintro rfl
        have habsurd := hword ':' List.mem_cons_self
        revert habsurd
        decide
      have hchars : laterChars (cs ++ rest) = some (cs, rest) := by
        have hstop : dotted (Scan.run1 NameChars.isInner) rest = none :=
          Scan.bind_of_none (Scan.run1_of_neg hdot)
        rw [laterChars, Scan.bind_of_some (Scan.run_append
          (fun c hc => hword c (List.mem_cons_of_mem _ hc)) hinner),
          Scan.bind_of_some (Scan.ReadsAll.nil hstop).items]
        simp [Scan.pure_apply]
      rw [prefixName,
        Scan.orElse_of_none (Scan.bind_of_none (Scan.char_of_ne (by simpa using hne))),
        List.cons_append]
      by_cases hletter : NameChars.isLetter c = true
      · rw [Scan.bind_of_some (Scan.charIf_of_pos hletter), Scan.bind_of_some hchars,
          Scan.bind_of_none (Scan.char_of_ne hcolon)]
      · exact Scan.bind_of_none (Scan.charIf_of_neg (by simpa using hletter))

end Prefixes

/-! ### Local names -/

section Local

variable {cs rest : List Char}

/-- A local name without colons, dots and escapes. -/
def isPlainLocal : List Char → Bool
  | [] => false
  | c :: cs => (NameChars.isLetterU c || c.isDigit) && cs.all NameChars.isInner

/-- The text ends, or goes on with a character that ends a local name. -/
def EndsLocal (rest : List Char) : Prop :=
  ∀ c, rest.head? = some c →
    (NameChars.isInner c || c == ':') = false ∧ c ≠ '%' ∧ c ≠ '\\' ∧ c ≠ '.'

/-- A delimiter ends a local name. -/
theorem Delimited.endsLocal (h : Delimited rest) : EndsLocal rest := by
  have hinner : ∀ c, rest.head? = some c → (NameChars.isInner c || c == ':') = false :=
    h.head rfl
  intro c hc
  refine ⟨hinner c hc, ?_, ?_, ?_⟩
  · rintro rfl
    exact h.head_ne rfl hc
  · rintro rfl
    exact h.head_ne rfl hc
  · rintro rfl
    exact h.head_ne rfl hc

/-- A character that is neither of the class nor begins an escape is no item. -/
theorem localItem_of_head {inner : Char → Bool}
    (h : ∀ c, cs.head? = some c → inner c = false ∧ c ≠ '%' ∧ c ≠ '\\') :
    Lexeme.localItem inner cs = none := by
  have hpercent : cs.head? ≠ some '%' := fun habsurd => (h '%' habsurd).2.1 rfl
  have hbackslash : cs.head? ≠ some '\\' := fun habsurd => (h '\\' habsurd).2.2 rfl
  rw [Lexeme.localItem,
    Scan.orElse_of_none (Scan.bind_of_none (Scan.charIf_of_neg fun c hc => (h c hc).1)),
    Lexeme.localEscape, Scan.orElse_of_none (Scan.bind_of_none (Scan.char_of_ne hpercent)),
    Scan.bind_of_none (Scan.char_of_ne hbackslash)]

/-- Characters that need no escape are read one by one. -/
theorem readsAll_localItem {inner : Char → Bool} (hall : ∀ c ∈ cs, inner c = true)
    (hrest : ∀ c, rest.head? = some c → inner c = false ∧ c ≠ '%' ∧ c ≠ '\\') :
    Scan.ReadsAll (Lexeme.localItem inner) (cs ++ rest) (cs.map ([·])) rest := by
  induction cs with
  | nil => exact .nil (localItem_of_head hrest)
  | cons c cs ih =>
      rw [List.forall_mem_cons] at hall
      have hitem : Lexeme.localItem inner (c :: (cs ++ rest)) = some ([c], cs ++ rest) := by
        rw [Lexeme.localItem, Scan.orElse_of_some]
        rw [Scan.bind_of_some (Scan.charIf_of_pos hall.1)]
        rfl
      exact .cons hitem (by simp) (ih hall.2)

/-- A local name is read up to a character that ends it. -/
theorem localName_append {name : List Char} (h : isPlainLocal name = true)
    (hrest : EndsLocal rest) : localName (name ++ rest) = some (String.ofList name, rest) := by
  cases name with
  | nil => cases h
  | cons c cs =>
      simp only [isPlainLocal, Bool.and_eq_true, List.all_eq_true] at h
      have hfirst : (NameChars.isLetterU c || c == ':' || c.isDigit) = true := by
        rcases Bool.or_eq_true_iff.mp h.1 with hc | hc <;> simp [hc]
      have hinner : ∀ d ∈ cs, (NameChars.isInner d || d == ':') = true := by
        intro d hd
        simp [h.2 d hd]
      have hitem : Lexeme.localItem (fun c => NameChars.isLetterU c || c == ':' || c.isDigit)
          (c :: (cs ++ rest)) = some ([c], cs ++ rest) := by
        rw [Lexeme.localItem, Scan.orElse_of_some]
        rw [Scan.bind_of_some (Scan.charIf_of_pos hfirst)]
        rfl
      have hitems : Scan.items localName.item (cs ++ rest) = some (cs.map ([·]), rest) := by
        refine (readsAll_localItem hinner fun c hc => ?_).items
        obtain ⟨hstop, hpercent, hbackslash, -⟩ := hrest c hc
        exact ⟨hstop, hpercent, hbackslash⟩
      have hdot : ∀ c, rest.head? = some c → (c == '.') = false := by
        intro c hc
        simpa using (hrest c hc).2.2.2
      have hgroup : Scan.optional (dotted localName.items1) rest = some (none, rest) :=
        Scan.optional_of_none (Scan.bind_of_none (Scan.run1_of_neg hdot))
      rw [localName, List.cons_append, Scan.bind_of_some hitem, Scan.bind_of_some hitems,
        Scan.bind_of_some hgroup, Scan.pure_apply]
      have hsingles : (cs.map ([·])).flatten = cs := by
        rw [← List.flatMap_def, List.flatMap_singleton']
      simp [hsingles]

/-- What passes the table's check for local names. -/
theorem exists_cons_of_isLocalName {name : String} (h : PrefixTable.isLocalName name = true) :
    ∃ c cs, name.toList = c :: cs ∧ isNameChar c = true ∧
      ∀ d ∈ c :: cs, PrefixTable.isLocalChar d = true := by
  unfold PrefixTable.isLocalName at h
  split at h
  · cases h
  · next c cs hname =>
      rw [Bool.and_eq_true, List.all_eq_true] at h
      have hfirst : PrefixTable.isLocalChar c = true := by
        rw [PrefixTable.isLocalChar, h.1, Bool.true_or]
      exact ⟨c, cs, hname, h.1, List.forall_mem_cons.mpr ⟨hfirst, h.2⟩⟩

/-- A local name of ASCII is plain. -/
theorem isPlainLocal_of_isAscii {name : String} (h : PrefixTable.isLocalName name = true)
    (hascii : IsAscii name) : isPlainLocal name.toList = true := by
  obtain ⟨c, cs, hname, hfirst, hall⟩ := exists_cons_of_isLocalName h
  unfold IsAscii at hascii
  rw [hname, List.forall_mem_cons] at hascii
  have hc : isWordChar c = true := isWordChar_of_isNameChar hascii.1 hfirst
  have hinner : ∀ d ∈ cs, NameChars.isInner d = true := by
    intro d hd
    have hlocal := hall d (List.mem_cons_of_mem c hd)
    simp only [PrefixTable.isLocalChar, Bool.or_eq_true, beq_iff_eq] at hlocal
    rcases hlocal with hname | rfl
    · refine isInner_of_isWordChar (isWordChar_of_isNameChar (hascii.2 d hd) ?_)
      simpa [isNameChar] using hname
    · decide
  simp only [hname, isPlainLocal, Bool.and_eq_true, Bool.or_eq_true, List.all_eq_true]
  exact ⟨isWordChar_cases hc, hinner⟩

end Local

/-! ### Variables -/

namespace Parser

variable {s : Scope} {cs rest : List Char}

/-- A variable is read up to a delimiter. -/
theorem reads_variableName {name : String} (h : isVarName name = true) (hascii : IsAscii name)
    (hrest : Delimited rest) :
    Reads variableName s ('?' :: (name.toList ++ rest)) name rest := by
  obtain ⟨c, cs, hname, hc, hcs⟩ := exists_word h hascii
  have hfirst : (NameChars.isLetterU c || c.isDigit) = true := by
    rcases isWordChar_cases hc with hc | hc <;> simp [hc]
  have hinner : ∀ d ∈ cs, NameChars.isVarInner d = true :=
    fun d hd => isVarInner_of_isWordChar (hcs d hd)
  have hofList : String.ofList (c :: cs) = name := by rw [← hname, String.ofList_toList]
  unfold variableName
  rw [hname, ← hofList]
  refine Reads.bind (.lift (Scan.charIf_of_pos (by decide))) ?_
  refine Reads.bind (.lift (Scan.charIf_of_pos hfirst)) ?_
  exact Reads.bind (.lift (Scan.run_append hinner (hrest.head rfl))) (reads_pure _ _ _)

/-- A variable begins with one of two marks. -/
theorem refuses_variableName (h : ∀ c, cs.head? = some c → c ≠ '?' ∧ c ≠ '$') :
    Refuses variableName s cs := by
  refine Refuses.bind (.lift (Scan.charIf_of_neg ?_))
  intro c hc
  simpa using h c hc

end Parser

/-! ### IRIs -/

/-- A text without backslashes has nothing to replace. -/
theorem unescaped?_eq_self {cs : List Char} (h : '\\' ∉ cs) : unescaped? cs = some cs := by
  induction cs with
  | nil => rfl
  | cons c cs ih =>
      rw [List.mem_cons, not_or] at h
      have hne : c ≠ '\\' := Ne.symm h.1
      rw [unescaped?.eq_def]
      split
      · next heq => cases heq
      · next heq => exact absurd (List.cons.inj heq).1 hne
      · next heq => exact absurd (List.cons.inj heq).1 hne
      · next heq =>
          obtain ⟨rfl, rfl⟩ := List.cons.inj heq
          simp [hne, ih h.2]

/-- The IRI is absolute, and the reader has no base and knows the prefix that the table writes for
it, if any; its local name is then a plain one. -/
structure Knows (t : PrefixTable) (s : Scope) (text : String) : Prop where
  base : s.base = none
  absolute : Iri.isAbsolute text = true
  written : ∀ p ns l, t.compactingPrefix? text = some p → PrefixTable.splitIri text = some (ns, l) →
    isPrefixName p.toList = true ∧ s.prefixes.lookup p = some ns ∧ isPlainLocal l.toList = true

/-- An IRI is split into a namespace and a local name that make it up. -/
theorem ofList_append_eq {text ns l : String} (h : PrefixTable.splitIri text = some (ns, l)) :
    ns ++ l = text := by
  obtain ⟨⟨a, b⟩, hcut, heq⟩ := Option.map_eq_some_iff.mp h
  cases heq
  rw [← String.ofList_append, ← cutLast_append hcut, String.ofList_toList]

/-- An IRI is compacted only if its local name passes the table's check. -/
theorem isLocalName_of_compactingPrefix? {t : PrefixTable} {text p ns l : String}
    (hp : t.compactingPrefix? text = some p) (hsplit : PrefixTable.splitIri text = some (ns, l)) :
    PrefixTable.isLocalName l = true := by
  unfold PrefixTable.compactingPrefix? at hp
  rw [hsplit] at hp
  by_contra hno
  simp [hno] at hp

/-- The local names that are written for IRIs of ASCII are plain. -/
theorem isPlainLocal_of_compactingPrefix? {t : PrefixTable} {text p ns l : String}
    (hascii : IsAscii text) (hp : t.compactingPrefix? text = some p)
    (hsplit : PrefixTable.splitIri text = some (ns, l)) : isPlainLocal l.toList = true := by
  refine isPlainLocal_of_isAscii (isLocalName_of_compactingPrefix? hp hsplit) ?_
  intro c hc
  refine hascii c ?_
  rw [← ofList_append_eq hsplit, String.toList_append]
  exact List.mem_append_right _ hc

/-- The form that the table gives to an IRI: a prefixed name, or the IRI between brackets. -/
theorem render_iri_cases (t : PrefixTable) (text : String) :
    (∃ p ns l, t.compactingPrefix? text = some p ∧ PrefixTable.splitIri text = some (ns, l) ∧
        PrefixTable.isLocalName l = true ∧
        ((Resource.iri text).render t).toList = p.toList ++ ':' :: l.toList) ∨
      ((Resource.iri text).render t).toList = '<' :: (text.toList ++ ['>']) := by
  unfold Resource.render PrefixTable.compact?
  cases hp : t.compactingPrefix? text with
  | none =>
      right
      simp [hp]
  | some p =>
      left
      have hsplit := hp
      unfold PrefixTable.compactingPrefix? at hsplit
      split at hsplit
      · next ns l hparts =>
          split at hsplit
          · next hlocal => exact ⟨p, ns, l, rfl, hparts, hlocal, by simp [hp, hparts]⟩
          · cases hsplit
      · cases hsplit

namespace Parser

variable {s : Scope} {cs rest : List Char} {t : PrefixTable} {text : String}

/-- An absolute IRI between angle brackets is read. -/
theorem reads_iriRef (hbase : s.base = none) (h : Iri.isAbsolute text = true) :
    Reads iriRef s ('<' :: (text.toList ++ '>' :: rest)) text rest := by
  have hchars := Iri.isIriChar_of_isAbsolute h
  have hclose : ∀ c ∈ text.toList, (c != '>') = true := by
    have hbarred : Iri.isIriChar '>' = false := by decide
    intro c hc
    rw [bne_iff_ne]
    rintro rfl
    rw [hchars _ hc] at hbarred
    cases hbarred
  have hescape : '\\' ∉ text.toList := by
    have hbarred : Iri.isIriChar '\\' = false := by decide
    intro habsurd
    rw [hchars _ habsurd] at hbarred
    cases hbarred
  unfold iriRef
  refine Reads.bind (reads_char '<') ?_
  refine Reads.bind (.lift (Scan.run_append hclose (by simp))) ?_
  refine Reads.bind (reads_char '>') ?_
  refine Reads.bind (reads_option (unescaped?_eq_self hescape)) ?_
  refine Reads.bind reads_scope ?_
  refine reads_option ?_
  simp [Iri.resolveAgainst, hbase, h]

/-- A prefixed name begins with a prefix and its colon. -/
theorem refuses_prefixedName (h : prefixName cs = none) : Refuses prefixedName s cs :=
  Refuses.bind (.lift h)

/-- An IRI that is written out begins with an angle bracket. -/
theorem refuses_iriRef (h : cs.head? ≠ some '<') : Refuses iriRef s cs :=
  Refuses.bind (refuses_char h)

/-- A text that begins with no bracket, colon or letter has no IRI at its front. -/
theorem refuses_iri (h : ∀ c, cs.head? = some c → c ≠ '<' ∧ c ≠ ':' ∧
    NameChars.isLetter c = false) : Refuses iri s cs := by
  refine Refuses.orElse (refuses_iriRef fun habsurd => (h '<' habsurd).1 rfl) ?_
  exact refuses_prefixedName (prefixName_of_head fun c hc => (h c hc).2)

/-- A word with a delimiter after it is no IRI. -/
theorem refuses_iri_of_word {word : List Char} (hword : ∀ c ∈ word, NameChars.isInner c = true)
    (hrest : Delimited rest) : Refuses iri s (word ++ rest) := by
  refine Refuses.orElse (refuses_iriRef ?_) (refuses_prefixedName (prefixName_of_word hword hrest))
  cases word with
  | nil => exact hrest.head_ne rfl
  | cons c cs =>
      rw [List.cons_append, List.head?_cons]
      intro habsurd
      have hinner := hword c List.mem_cons_self
      rw [Option.some.inj habsurd] at hinner
      revert hinner
      decide

/-- A prefix begins with a letter or is followed by its colon at once. -/
theorem head_prefixName {name : String} (h : isPrefixName name.toList = true) (rest : List Char) :
    ∀ c, (name.toList ++ ':' :: rest).head? = some c → c = ':' ∨ NameChars.isLetter c = true := by
  intro c hc
  cases hname : name.toList with
  | nil => left; simpa [hname, eq_comm] using hc
  | cons d ds =>
      right
      rw [hname] at h hc
      simp only [isPrefixName, Bool.and_eq_true] at h
      obtain rfl := Option.some.inj hc
      exact h.1.1

/-- A prefixed name is read as the IRI that its prefix and its local name make up. -/
theorem reads_prefixedName {p l ns : String} (hp : isPrefixName p.toList = true)
    (hl : isPlainLocal l.toList = true) (hlookup : s.prefixes.lookup p = some ns)
    (habsolute : Iri.isAbsolute (ns ++ l) = true)
    (hrest : Delimited rest) :
    Reads prefixedName s (p.toList ++ ':' :: (l.toList ++ rest)) (ns ++ l) rest := by
  have hlocal := localName_append hl hrest.endsLocal
  rw [String.ofList_toList] at hlocal
  unfold prefixedName
  refine Reads.bind (.lift (prefixName_append hp)) ?_
  refine Reads.bind reads_scope ?_
  refine Reads.bind (reads_option hlookup) ?_
  refine Reads.orElse (Reads.bind (.lift hlocal) ?_)
  exact Reads.bind (reads_guard habsolute) (reads_pure _ _ _)

/-- **A known IRI is read** from the form that the table gives to it. -/
theorem reads_iri (h : Knows t s text) (hrest : Delimited rest) :
    Reads iri s (((Resource.iri text).render t).toList ++ rest) text rest := by
  rcases render_iri_cases t text with ⟨p, ns, l, hp, hsplit, -, hform⟩ | hform
  · obtain ⟨hlegal, hlookup, hplain⟩ := h.written p ns l hp hsplit
    have happend := ofList_append_eq hsplit
    have habsolute : Iri.isAbsolute (ns ++ l) = true := happend.symm ▸ h.absolute
    rw [hform, List.append_assoc, List.cons_append]
    refine Refuses.orElse_reads (refuses_iriRef ?_) ?_
    · intro habsurd
      rcases head_prefixName hlegal _ '<' habsurd with heq | hletter
      · cases heq
      · revert hletter
        decide
    · have hread := reads_prefixedName hlegal hplain hlookup habsolute hrest
      rwa [happend] at hread
  · rw [hform, List.cons_append, List.append_assoc]
    exact (reads_iriRef h.base h.absolute).orElse

/-- The form of a known IRI begins with a bracket, a colon or a letter. -/
theorem head_render (h : Knows t s text) :
    ∃ c cs, ((Resource.iri text).render t).toList = c :: cs ∧
      (c = '<' ∨ c = ':' ∨ NameChars.isLetter c = true) := by
  rcases render_iri_cases t text with ⟨p, ns, l, hp, hsplit, -, hform⟩ | hform
  · have hlegal := (h.written p ns l hp hsplit).1
    cases hhead : p.toList ++ ':' :: l.toList with
    | nil => simp at hhead
    | cons c cs =>
        have hc := head_prefixName hlegal l.toList c (by rw [hhead]; rfl)
        exact ⟨c, cs, hform.trans hhead, Or.inr hc⟩
  · exact ⟨'<', _, hform, Or.inl rfl⟩

end Parser

end Sparql

end SparqlCompose
