import Mathlib
import SparqlCompose.Proofs.Mention
import SparqlCompose.Proofs.Sparql.Decoding

/-!
# Accepted names against the grammar

The grammar gives the names of variables, local names and prefixed names as languages over
characters (`Grammar.varName`, `Grammar.localName`, `Grammar.prefixedName`).  The checks for names
do not use its classes: they take the alphanumeric characters of all scripts.

The two differ in few places.  Some letters and numbers are in no class of the grammar, the stray
ones (`isStray`): ordinal indicators, superscripts, fractions, and what stands in circles and
parentheses.  Some alphabetic marks (`isMark`) may stand inside a name and not at its start.  An
accepted name is of the grammar exactly if it is spelled without either (`Grammar.mem_iff_spelled`).
-/

namespace SparqlCompose

/-! ### Ranges of code points -/

namespace CodeRange

variable {rs ss : List CodeRange} {n lo hi : Nat}

/-- Whether the code points from `lo` to `hi` lie in the ranges; those of the ranges that are
needed ascend. -/
def covers : List CodeRange → Nat → Nat → Bool
  | [], lo, hi => hi < lo
  | r :: rs, lo, hi =>
    if r.first ≤ lo then covers rs (max lo (r.last + 1)) hi else covers rs lo hi

/-- What is covered lies in one of the ranges.  The induction drops the first range, and with it
the code points up to its last. -/
theorem any_has_of_covers (h : covers rs lo hi = true) (hlo : lo ≤ n) (hhi : n ≤ hi) :
    rs.any (·.has n) = true := by
  induction rs generalizing lo with
  | nil =>
      rw [covers, decide_eq_true_eq] at h
      omega
  | cons r rs ih =>
      rw [covers] at h
      rw [List.any_cons, Bool.or_eq_true]
      split at h
      · next hfirst =>
          by_cases hlast : n ≤ r.last
          · left
            simp [has, hfirst.trans hlo, hlast]
          · exact Or.inr (ih h (by omega))
      · exact Or.inr (ih h hlo)

/-- Whether all code points of some ranges lie in the others. -/
def within (rs ss : List CodeRange) : Bool := rs.all fun r => covers ss r.first r.last

/-- What lies in some ranges lies in those that contain them. -/
theorem any_has_of_within (h : within rs ss = true) (hn : rs.any (·.has n) = true) :
    ss.any (·.has n) = true := by
  obtain ⟨r, hr, hrn⟩ := List.any_eq_true.mp hn
  simp only [has, Bool.and_eq_true, decide_eq_true_eq] at hrn
  exact any_has_of_covers (List.all_eq_true.mp h r hr) hrn.1 hrn.2

/-- Whether some ranges have no code point in common with the others. -/
def apart (rs ss : List CodeRange) : Bool :=
  rs.all fun r => ss.all fun s => r.last < s.first || s.last < r.first

/-- What lies in some ranges lies in none that are apart from them. -/
theorem not_any_has_of_apart (h : apart rs ss = true) (hn : rs.any (·.has n) = true) :
    ss.any (·.has n) = false := by
  obtain ⟨r, hr, hrn⟩ := List.any_eq_true.mp hn
  rw [List.any_eq_false]
  intro s hs
  have hapart := List.all_eq_true.mp (List.all_eq_true.mp h r hr) s hs
  simp only [Bool.or_eq_true, decide_eq_true_eq] at hapart
  simp only [has, Bool.and_eq_true, decide_eq_true_eq] at hrn ⊢
  omega

end CodeRange

namespace Sparql

/-! ### Characters -/

section Characters

variable {c : Char}

/-- Letters and numbers that are in no class of the grammar. -/
def strayRanges : List CodeRange := [
  ⟨0xAA, 0xAA⟩, ⟨0xB2, 0xB3⟩, ⟨0xB5, 0xB5⟩, ⟨0xB9, 0xBA⟩, ⟨0xBC, 0xBE⟩, ⟨0x2460, 0x249B⟩,
  ⟨0x24B6, 0x24FF⟩, ⟨0x2776, 0x2793⟩]

/-- Alphabetic marks that the grammar takes for joining characters. -/
def markRanges : List CodeRange := [⟨0x345, 0x345⟩, ⟨0x363, 0x36F⟩]

/-- Whether a character is a letter or number that is in no class of the grammar. -/
def isStray (c : Char) : Bool := strayRanges.any (·.has c.toNat)

/-- Whether a character is an alphabetic mark that the grammar takes for a joining character. -/
def isMark (c : Char) : Bool := markRanges.any (·.has c.toNat)

/-- The code points of ASCII. -/
def asciiRange : CodeRange := ⟨0, 127⟩

/-- The range of ASCII has the code points below 128. -/
theorem has_asciiRange : asciiRange.has c.toNat = true ↔ c.toNat < 128 := by
  simp only [CodeRange.has, Bool.and_eq_true, decide_eq_true_eq]
  simp only [asciiRange]
  omega

/-- Letters and digits of ASCII are in ASCII. -/
theorem lt_of_isAlphanum (h : c.isAlphanum = true) : c.toNat < 128 := by
  have htoNat : c.toNat = c.val.toNat := rfl
  have hupper : 'Z'.val.toNat = 90 := rfl
  have hlower : 'z'.val.toNat = 122 := rfl
  have hdigit : '9'.val.toNat = 57 := rfl
  simp only [Char.isAlphanum, Char.isAlpha, Char.isUpper, Char.isLower, Char.isDigit,
    Bool.or_eq_true, Bool.and_eq_true, decide_eq_true_eq, UInt32.le_iff_toNat_le] at h
  omega

/-- Beyond ASCII the characters that may begin a name are those of the ranges of letters. -/
theorem isLetterU_or_isDigit_of_beyond (hc : asciiRange.has c.toNat = false) :
    (NameChars.isLetterU c || c.isDigit) = NameChars.letterRanges.any (·.has c.toNat) := by
  have hbeyond : ¬ c.toNat < 128 := by simp [← has_asciiRange, hc]
  have hword : c.isAlphanum = false := by
    by_contra habsurd
    exact hbeyond (lt_of_isAlphanum (by simpa using habsurd))
  have hline : (c == '_') = false := by
    rw [beq_eq_false_iff_ne]
    intro heq
    subst heq
    exact hbeyond (by decide)
  rw [Char.isAlphanum, Bool.or_eq_false_iff] at hword
  rw [NameChars.isLetterU, NameChars.isLetter, hword.1, hword.2, hline, Bool.false_or,
    Bool.or_false, Bool.or_false]

/-- Among the alphanumeric characters beyond ASCII only the stray ones and the marks are no letters
of the grammar. -/
theorem isAlphanumeric_cases (h : isAlphanumeric c = true) :
    c.isAlphanum = true ∨ NameChars.letterRanges.any (·.has c.toNat) = true ∨
      isMark c = true ∨ isStray c = true := by
  have hwithin : CodeRange.within alphanumericRanges
      (asciiRange :: (markRanges ++ (NameChars.letterRanges ++ strayRanges))) = true := by
    decide +kernel
  by_cases hc : c.toNat < 128
  · exact Or.inl (isAlphanum_of_isAlphanumeric hc h)
  · rw [isAlphanumeric, Bool.or_eq_true] at h
    rcases h with h | h
    · exact Or.inl h
    · have hany := CodeRange.any_has_of_within hwithin h
      rw [List.any_cons, List.any_append, List.any_append, Bool.or_eq_true, Bool.or_eq_true,
        Bool.or_eq_true, has_asciiRange] at hany
      rcases hany with hascii | hmark | hletter | hstray
      · exact absurd hascii hc
      · exact Or.inr (Or.inr (Or.inl hmark))
      · exact Or.inr (Or.inl hletter)
      · exact Or.inr (Or.inr (Or.inr hstray))

/-- What may begin a name of a variable may go on with one. -/
theorem isVarInner_of_isFirst (h : (NameChars.isLetterU c || c.isDigit) = true) :
    NameChars.isVarInner c = true := by
  rw [NameChars.isVarInner, h, Bool.true_or]

/-- A character of variable names may stand inside one exactly if it is not stray. -/
theorem isVarInner_iff (h : isNameChar c = true) :
    NameChars.isVarInner c = true ↔ isStray c = false := by
  constructor
  · intro hinner
    by_contra hstray
    rw [Bool.not_eq_false] at hstray
    have hapart : CodeRange.apart strayRanges
        (asciiRange :: (NameChars.letterRanges ++ NameChars.joinerRanges)) = true := by decide
    have hnone := CodeRange.not_any_has_of_apart hapart hstray
    rw [List.any_cons, List.any_append, Bool.or_eq_false_iff, Bool.or_eq_false_iff] at hnone
    rw [NameChars.isVarInner, isLetterU_or_isDigit_of_beyond hnone.1, hnone.2.1, hnone.2.2]
      at hinner
    cases hinner
  · intro hstray
    rw [isNameChar, Bool.or_eq_true, beq_iff_eq] at h
    rcases h with h | rfl
    · rcases isAlphanumeric_cases h with hword | hletter | hmark | habsurd
      · exact isVarInner_of_isWordChar (by simp [isWordChar, hword])
      · simp [NameChars.isVarInner, NameChars.isLetterU, NameChars.isLetter, hletter]
      · have hwithin : CodeRange.within markRanges NameChars.joinerRanges = true := by decide
        have hjoiner := CodeRange.any_has_of_within hwithin hmark
        simp [NameChars.isVarInner, hjoiner]
      · rw [hstray] at habsurd
        cases habsurd
    · decide

/-- A character of variable names may begin one exactly if it is neither stray nor a mark. -/
theorem isFirst_iff (h : isNameChar c = true) :
    (NameChars.isLetterU c || c.isDigit) = true ↔ isStray c = false ∧ isMark c = false := by
  constructor
  · intro hfirst
    refine ⟨(isVarInner_iff h).mp (isVarInner_of_isFirst hfirst), ?_⟩
    by_contra hmark
    rw [Bool.not_eq_false] at hmark
    have hapart : CodeRange.apart markRanges (asciiRange :: NameChars.letterRanges) = true := by
      decide
    have hnone := CodeRange.not_any_has_of_apart hapart hmark
    rw [List.any_cons, Bool.or_eq_false_iff] at hnone
    rw [isLetterU_or_isDigit_of_beyond hnone.1, hnone.2] at hfirst
    cases hfirst
  · intro hclear
    obtain ⟨hstray, hmark⟩ := hclear
    rw [isNameChar, Bool.or_eq_true, beq_iff_eq] at h
    rcases h with h | rfl
    · rcases isAlphanumeric_cases h with hword | hletter | habsurd | habsurd
      · exact Bool.or_eq_true_iff.mpr (isWordChar_cases (by simp [isWordChar, hword]))
      · simp [NameChars.isLetterU, NameChars.isLetter, hletter]
      · rw [hmark] at habsurd
        cases habsurd
      · rw [hstray] at habsurd
        cases habsurd
    · decide

/-- A character of local names may stand inside one exactly if it is not stray. -/
theorem isInner_iff (h : PrefixTable.isLocalChar c = true) :
    NameChars.isInner c = true ↔ isStray c = false := by
  rw [PrefixTable.isLocalChar, Bool.or_eq_true, beq_iff_eq] at h
  rcases h with h | rfl
  · rw [← isVarInner_iff h]
    by_cases hhyphen : c = '-'
    · subst hhyphen
      revert h
      decide +kernel
    · simp [NameChars.isInner, NameChars.isVarInner, hhyphen]
  · decide

end Characters

/-! ### Names that are spelled in the grammar -/

/-- The text has no stray character and begins with no mark. -/
structure Spelled (cs : List Char) : Prop where
  known : ∀ c ∈ cs, isStray c = false
  start : ∀ c, cs.head? = some c → isMark c = false

/-- Whether a text is spelled in the grammar can be checked character by character. -/
theorem spelled_iff {cs : List Char} :
    Spelled cs ↔
      (cs.all fun c => !isStray c) = true ∧ (cs.head?.all fun c => !isMark c) = true := by
  simp only [List.all_eq_true, Option.all_eq_true, Bool.not_eq_true']
  exact ⟨fun h => ⟨h.known, h.start⟩, fun h => ⟨h.1, h.2⟩⟩

instance (cs : List Char) : Decidable (Spelled cs) := decidable_of_iff' _ spelled_iff

/-- The first character is neither stray nor a mark, and no other one is stray. -/
theorem spelled_cons_iff {c : Char} {cs : List Char} :
    Spelled (c :: cs) ↔
      (isStray c = false ∧ isMark c = false) ∧ ∀ d ∈ cs, isStray d = false := by
  constructor
  · intro h
    have hknown := List.forall_mem_cons.mp h.known
    exact ⟨⟨hknown.1, h.start c rfl⟩, hknown.2⟩
  · intro h
    obtain ⟨⟨hstray, hmark⟩, hrest⟩ := h
    refine ⟨List.forall_mem_cons.mpr ⟨hstray, hrest⟩, ?_⟩
    intro d hd
    exact Option.some.inj hd ▸ hmark

/-- An accepted name of a variable is of the grammar exactly if it is spelled so. -/
theorem isVarName_iff_spelled {name : String} (h : isVarName name = true) :
    NameChars.isVarName name.toList = true ↔ Spelled name.toList := by
  obtain ⟨hne, hall⟩ := isVarName_iff.mp h
  cases hname : name.toList with
  | nil => exact absurd hname hne
  | cons c cs =>
      rw [hname, List.forall_mem_cons] at hall
      rw [NameChars.isVarName, Bool.and_eq_true, List.all_eq_true, isFirst_iff hall.1,
        spelled_cons_iff]
      exact and_congr_right fun _ => forall₂_congr fun d hd => isVarInner_iff (hall.2 d hd)

/-- An accepted local name can be read exactly if it is spelled so. -/
theorem isPlainLocal_iff_spelled {name : String} (h : PrefixTable.isLocalName name = true) :
    isPlainLocal name.toList = true ↔ Spelled name.toList := by
  obtain ⟨c, cs, hname, hfirst, hall⟩ := exists_cons_of_isLocalName h
  rw [List.forall_mem_cons] at hall
  rw [hname, isPlainLocal, Bool.and_eq_true, List.all_eq_true, isFirst_iff hfirst,
    spelled_cons_iff]
  exact and_congr_right fun _ => forall₂_congr fun d hd => isInner_iff (hall.2 d hd)

/-! ### The productions -/

namespace Grammar

open Computability

/-- The words of one character that is in the class. -/
def one (p : Char → Bool) : Language Char := {w | ∃ c, p c = true ∧ w = [c]}

/-- The names of variables (`VARNAME`). -/
def varName : Language Char :=
  one (fun c => NameChars.isLetterU c || c.isDigit) * (one NameChars.isVarInner)∗

/-- Variables as they are written (`VAR1`). -/
def varToken : Language Char := one (· == '?') * varName

/-- The escapes in a local name (`PLX`): a percent sign with two hexadecimal digits, or a
backslash with the character that it escapes. -/
def escape : Language Char :=
  one (· == '%') * (one (fun c => (hexDigit? c).isSome) * one (fun c => (hexDigit? c).isSome)) +
    one (· == '\\') * one Lexeme.isLocalEscape

/-- A character of the class or an escape. -/
def item (p : Char → Bool) : Language Char := one p + escape

/-- The local names that are not empty (`PN_LOCAL`). -/
def localName : Language Char :=
  item (fun c => NameChars.isLetterU c || c == ':' || c.isDigit) *
    (1 + (item fun c => NameChars.isInner c || c == '.' || c == ':')∗ *
      item fun c => NameChars.isInner c || c == ':')

/-- The prefixes, of which one is empty (`PN_PREFIX`). -/
def prefixWord : Language Char :=
  1 + one NameChars.isLetter *
    (1 + (one fun c => NameChars.isInner c || c == '.')∗ * one NameChars.isInner)

/-- The prefixed names that have a local name (`PNAME_LN`). -/
def prefixedName : Language Char := prefixWord * (one (· == ':') * localName)

/-! ### Membership -/

section Membership

variable {p q : Char → Bool} {L : Language Char} {c : Char} {cs : List Char}

/-- A word that begins with one character of a class begins with a character that is in it. -/
theorem cons_mem_one_mul_iff : c :: cs ∈ one p * L ↔ p c = true ∧ cs ∈ L := by
  rw [Language.mem_mul]
  constructor
  · intro hmem
    obtain ⟨_, ⟨d, hd, rfl⟩, rest, hrest, heq⟩ := hmem
    obtain ⟨rfl, rfl⟩ := List.cons.inj heq
    exact ⟨hd, hrest⟩
  · intro h
    exact ⟨[c], ⟨c, h.1, rfl⟩, cs, h.2, rfl⟩

/-- Such a word is not empty. -/
theorem nil_not_mem_one_mul : [] ∉ one p * L := by
  intro hmem
  obtain ⟨_, ⟨c, -, rfl⟩, rest, -, heq⟩ := Language.mem_mul.mp hmem
  cases heq

/-- Words of single characters are those whose characters are all in the class. -/
theorem mem_kstar_one_iff : cs ∈ (one p)∗ ↔ ∀ c ∈ cs, p c = true := by
  rw [Language.mem_kstar]
  constructor
  · intro hstar c hc
    obtain ⟨words, rfl, hwords⟩ := hstar
    obtain ⟨w, hw, hcw⟩ := List.mem_flatten.mp hc
    obtain ⟨d, hd, rfl⟩ := hwords w hw
    exact List.mem_singleton.mp hcw ▸ hd
  · intro hall
    refine ⟨cs.map ([·]), ?_, ?_⟩
    · rw [← List.flatMap_def, List.flatMap_singleton']
    · intro w hw
      obtain ⟨c, hc, rfl⟩ := List.mem_map.mp hw
      exact ⟨c, hall c hc, rfl⟩

/-- A text of one class with its last character in another is one that a name may end with. -/
theorem mem_ending (hall : ∀ c ∈ cs, p c = true) (hlast : ∀ c, cs.getLast? = some c → q c = true) :
    cs ∈ 1 + (one p)∗ * one q := by
  rcases List.eq_nil_or_concat cs with rfl | ⟨before, c, rfl⟩
  · exact Or.inl rfl
  · refine Or.inr (Language.mem_mul.mpr ⟨before, mem_kstar_one_iff.mpr ?_, [c], ⟨c, ?_, rfl⟩, ?_⟩)
    · exact fun d hd => hall d (by simp [hd])
    · exact hlast c (by simp)
    · simp

/-- A text has no character that an escape begins with. -/
def Unescaped (cs : List Char) : Prop := '%' ∉ cs ∧ '\\' ∉ cs

/-- A part of a text without escapes has none. -/
theorem Unescaped.of_subset {ds : List Char} (h : Unescaped ds) (hsub : cs ⊆ ds) : Unescaped cs :=
  ⟨fun hmem => h.1 (hsub hmem), fun hmem => h.2 (hsub hmem)⟩

/-- In a text without escapes an item is a character. -/
theorem Unescaped.mem_one (h : Unescaped cs) (hcs : cs ∈ item p) : cs ∈ one p := by
  cases cs with
  | nil =>
      rcases hcs with hone | hpercent | hbackslash
      · exact hone
      · exact absurd hpercent nil_not_mem_one_mul
      · exact absurd hbackslash nil_not_mem_one_mul
  | cons c cs =>
      rcases hcs with hone | hpercent | hbackslash
      · exact hone
      · have hc := beq_iff_eq.mp (cons_mem_one_mul_iff.mp hpercent).1
        exact absurd (hc ▸ List.mem_cons_self) h.1
      · have hc := beq_iff_eq.mp (cons_mem_one_mul_iff.mp hbackslash).1
        exact absurd (hc ▸ List.mem_cons_self) h.2

/-- There items are characters, however many they are. -/
theorem Unescaped.mem_kstar_one (h : Unescaped cs) (hcs : cs ∈ (item p)∗) : cs ∈ (one p)∗ := by
  obtain ⟨words, rfl, hwords⟩ := Language.mem_kstar.mp hcs
  refine Language.mem_kstar.mpr ⟨words, rfl, fun w hw => ?_⟩
  exact (h.of_subset fun c hc => List.mem_flatten.mpr ⟨w, hw, hc⟩).mem_one (hwords w hw)

/-- A character is an item. -/
theorem one_le_item (p : Char → Bool) : one p ≤ item p := fun _ h => Or.inl h

/-- What ends in a character of a class ends in an item of it. -/
theorem ending_le (p q : Char → Bool) : 1 + (one p)∗ * one q ≤ 1 + (item p)∗ * item q :=
  add_le_add_right (mul_le_mul' (kstar_mono (one_le_item p)) (one_le_item q)) 1

/-- The items of a text without escapes, the last one included, are characters of the class. -/
theorem Unescaped.forall_of_mem_ending (h : Unescaped cs) (hqp : ∀ c, q c = true → p c = true)
    (hcs : cs ∈ 1 + (item p)∗ * item q) : ∀ c ∈ cs, p c = true := by
  rcases hcs with hnil | hmore
  · rw [hnil]
    simp
  · obtain ⟨before, hbefore, last, hlast, rfl⟩ := Language.mem_mul.mp hmore
    have hstar := (h.of_subset (List.subset_append_left _ _)).mem_kstar_one hbefore
    obtain ⟨c, hc, rfl⟩ := (h.of_subset (List.subset_append_right _ _)).mem_one hlast
    rw [List.forall_mem_append, List.forall_mem_singleton]
    exact ⟨mem_kstar_one_iff.mp hstar, hqp c hc⟩

end Membership

/-- The names of variables in the grammar are those that the reader of names takes. -/
theorem mem_varName_iff {cs : List Char} : cs ∈ varName ↔ NameChars.isVarName cs = true := by
  cases cs with
  | nil => simp [varName, nil_not_mem_one_mul, NameChars.isVarName]
  | cons c cs =>
      rw [varName, cons_mem_one_mul_iff, mem_kstar_one_iff, NameChars.isVarName, Bool.and_eq_true,
        List.all_eq_true]

/-- A prefix that can be read is a prefix of the grammar. -/
theorem mem_prefixWord {cs : List Char} (h : isPrefixName cs = true) : cs ∈ prefixWord := by
  cases cs with
  | nil => exact Or.inl rfl
  | cons c cs =>
      simp only [isPrefixName, Bool.and_eq_true, List.all_eq_true, bne_iff_ne] at h
      obtain ⟨⟨hletter, hall⟩, hdot⟩ := h
      refine Or.inr (cons_mem_one_mul_iff.mpr ⟨hletter, mem_ending hall ?_⟩)
      intro d hd
      have hinner := hall d (List.mem_of_getLast? hd)
      rw [Bool.or_eq_true, beq_iff_eq] at hinner
      exact hinner.resolve_right fun heq => hdot (heq ▸ hd)

/-- It has no colon. -/
theorem not_mem_of_isPrefixName {cs : List Char} (h : isPrefixName cs = true) : ':' ∉ cs := by
  cases cs with
  | nil => exact List.not_mem_nil
  | cons c cs =>
      simp only [isPrefixName, Bool.and_eq_true, List.all_eq_true] at h
      obtain ⟨⟨hletter, hall⟩, -⟩ := h
      intro hmem
      rcases List.mem_cons.mp hmem with rfl | hmem
      · revert hletter
        decide
      · have hinner := hall ':' hmem
        revert hinner
        decide

/-- A text without colons, dots and escapes is a local name if its characters are of the classes of
the grammar. -/
theorem mem_localName_iff {cs : List Char} (hlocal : ∀ c ∈ cs, PrefixTable.isLocalChar c = true) :
    cs ∈ localName ↔ isPlainLocal cs = true := by
  constructor
  · intro hcs
    have hplain : Unescaped cs :=
      ⟨fun hmem => (ne_of_isLocalChar (hlocal _ hmem)).2.1 rfl,
        fun hmem => (ne_of_isLocalChar (hlocal _ hmem)).2.2.1 rfl⟩
    obtain ⟨front, hfront, rest, hrest, rfl⟩ := Language.mem_mul.mp hcs
    obtain ⟨c, hc, rfl⟩ := (hplain.of_subset (List.subset_append_left _ _)).mem_one hfront
    have hinner := (hplain.of_subset (List.subset_append_right _ _)).forall_of_mem_ending
      (fun d hd => by rcases Bool.or_eq_true_iff.mp hd with hd | hd <;> simp [hd]) hrest
    rw [List.singleton_append, List.forall_mem_cons] at hlocal
    rw [List.singleton_append, isPlainLocal, Bool.and_eq_true, List.all_eq_true]
    constructor
    · simpa [(ne_of_isLocalChar hlocal.1).1] using hc
    · intro d hd
      obtain ⟨hcolon, -, -, hdot⟩ := ne_of_isLocalChar (hlocal.2 d hd)
      simpa [hcolon, hdot] using hinner d hd
  · intro hplain
    cases cs with
    | nil => cases hplain
    | cons c cs =>
        rw [isPlainLocal, Bool.and_eq_true, List.all_eq_true] at hplain
        have hfirst : [c] ∈ one fun c => NameChars.isLetterU c || c == ':' || c.isDigit := by
          refine ⟨c, ?_, rfl⟩
          rcases Bool.or_eq_true_iff.mp hplain.1 with hc | hc <;> simp [hc]
        have hrest : cs ∈ 1 + (one fun c => NameChars.isInner c || c == '.' || c == ':')∗ *
            one fun c => NameChars.isInner c || c == ':' := by
          refine mem_ending (fun d hd => ?_) (fun d hd => ?_)
          · simp [hplain.2 d hd]
          · simp [hplain.2 d (List.mem_of_getLast? hd)]
        exact Language.mem_mul.mpr ⟨[c], one_le_item _ hfirst, cs, ending_le _ _ hrest, rfl⟩

/-- Behind a legal prefix and its colon stands a local name: neither of the two has a colon of its
own, so there is one way to part them. -/
theorem mem_prefixedName_iff {p l : List Char} (hp : isPrefixName p = true)
    (hlocal : ∀ c ∈ l, PrefixTable.isLocalChar c = true) :
    p ++ ':' :: l ∈ prefixedName ↔ l ∈ localName := by
  constructor
  · intro hname
    obtain ⟨p', -, more, hmore, heq⟩ := Language.mem_mul.mp hname
    obtain ⟨_, ⟨c, hc, rfl⟩, l', hl', rfl⟩ := Language.mem_mul.mp hmore
    obtain rfl := beq_iff_eq.mp hc
    have hcolon : ':' ∉ l := fun hmem => (ne_of_isLocalChar (hlocal _ hmem)).1 rfl
    have hparts := (List.append_cons_inj_of_notMem (not_mem_of_isPrefixName hp) hcolon).mp heq.symm
    exact hparts.2.2 ▸ hl'
  · intro hl
    exact Language.mem_mul.mpr ⟨p, mem_prefixWord hp, ':' :: l,
      cons_mem_one_mul_iff.mpr ⟨rfl, hl⟩, rfl⟩

/-! ### The law -/

/-- The characters of an accepted local name are those that a local name may have. -/
theorem isLocalChar_of_isLocalName {name : String} (h : PrefixTable.isLocalName name = true) :
    ∀ c ∈ name.toList, PrefixTable.isLocalChar c = true := by
  obtain ⟨c, cs, hname, -, hall⟩ := exists_cons_of_isLocalName h
  rwa [hname]

/-- An accepted local name is of the grammar exactly if it is spelled so. -/
theorem mem_localName_iff_spelled {name : String} (h : PrefixTable.isLocalName name = true) :
    name.toList ∈ localName ↔ Spelled name.toList :=
  (mem_localName_iff (isLocalChar_of_isLocalName h)).trans (isPlainLocal_iff_spelled h)

/-- **An accepted name is of the grammar exactly if it is spelled in it**: a name of a variable and
the variable as it is written, a local name, and the prefixed name that a table with legal prefixes
writes for an IRI. -/
theorem mem_iff_spelled (name : String) :
    (isVarName name = true →
        (name.toList ∈ varName ↔ Spelled name.toList) ∧
          (("?" ++ name).toList ∈ varToken ↔ Spelled name.toList)) ∧
      (PrefixTable.isLocalName name = true →
        (name.toList ∈ localName ↔ Spelled name.toList)) ∧
      ∀ (t : PrefixTable) (iri : String), t.Legal → t.compact? iri = some name →
        ∃ ns l, PrefixTable.splitIri iri = some (ns, l) ∧
          (name.toList ∈ prefixedName ↔ Spelled l.toList) := by
  refine ⟨fun h => ?_, mem_localName_iff_spelled, ?_⟩
  · have hvar := mem_varName_iff.trans (isVarName_iff_spelled h)
    have hform : ("?" ++ name).toList = '?' :: name.toList := by simp
    rw [hform, varToken, cons_mem_one_mul_iff, ← hvar]
    exact ⟨Iff.rfl, and_iff_right rfl⟩
  · intro t iri ht hcompact
    rw [PrefixTable.compact?_eq] at hcompact
    obtain ⟨⟨p, l⟩, hnamed, rfl⟩ := Option.map_eq_some_iff.mp hcompact
    obtain ⟨hp, ns, hsplit⟩ := PrefixTable.named?_eq_some.mp hnamed
    have hl := isLocalName_of_compactingPrefix? hp hsplit
    have hprefix := ht.isPrefixName (OrderedMap.get?_eq_some_iff.mp
      (ht.sound.get?_of_compactingPrefix? hp hsplit))
    have hform : (p ++ ":" ++ l).toList = p.toList ++ ':' :: l.toList := by simp
    refine ⟨ns, l, hsplit, ?_⟩
    rw [hform, mem_prefixedName_iff hprefix (isLocalChar_of_isLocalName hl),
      mem_localName_iff_spelled hl]

/-- A name may hold an alphabetic mark behind its first letter. -/
theorem mem_iff_spelled_mark :
    "größeͣ1".toList ∈ varName ∧ "?größeͣ1".toList ∈ varToken ∧ "größeͣ-1".toList ∈ localName ∧
      exTable.compact? "http://ex/größeͣ-1" = some "ex:größeͣ-1" ∧
      "ex:größeͣ-1".toList ∈ prefixedName := by
  have hvar := (mem_iff_spelled "größeͣ1").1 (by decide +kernel)
  have hlocal := (mem_iff_spelled "größeͣ-1").2.1 (by decide +kernel)
  have hcompact : exTable.compact? "http://ex/größeͣ-1" = some "ex:größeͣ-1" := by decide +kernel
  obtain ⟨ns, l, hsplit, hname⟩ := (mem_iff_spelled _).2.2 _ _ legal_exTable hcompact
  obtain rfl : "größeͣ-1" = l := congrArg Prod.snd (Option.some.inj hsplit)
  exact ⟨hvar.1.mpr (by decide +kernel), hvar.2.mpr (by decide +kernel),
    hlocal.mpr (by decide +kernel), hcompact, hname.mpr (by decide +kernel)⟩

/-- The feminine ordinal indicator is accepted for a name and written, and no name of the grammar
has it. -/
theorem ordinal_not_mem :
    isVarName "ª" = true ∧ "ª".toList ∉ varName ∧ "?ª".toList ∉ varToken ∧
      PrefixTable.isLocalName "ª" = true ∧ "ª".toList ∉ localName ∧
      exTable.compact? "http://ex/ª" = some "ex:ª" ∧ "ex:ª".toList ∉ prefixedName := by
  have hvar : "ª".toList ∉ varName := by
    rw [mem_varName_iff]
    decide
  have haccepted : PrefixTable.isLocalName "ª" = true := by decide +kernel
  have hlocal := isLocalChar_of_isLocalName haccepted
  have hname : "ª".toList ∉ localName := by
    rw [mem_localName_iff hlocal]
    decide
  refine ⟨by decide +kernel, hvar, ?_, haccepted, hname, by decide +kernel, ?_⟩
  · intro htoken
    exact hvar (cons_mem_one_mul_iff.mp htoken).2
  · intro hprefixed
    exact hname ((mem_prefixedName_iff (p := "ex".toList) (by decide +kernel) hlocal).mp hprefixed)

end Grammar

end Sparql

end SparqlCompose
