import Mathlib
import SparqlCompose.Proofs.Sparql.Prologue

/-!
# What is written for a literal decodes to it

A reader that knows the prefixes of a table reads the text of a literal from its first character to
its last and answers the literal.  No value ends its quotes early, whatever stands in it.

There is one way to fail.  The table writes a prefixed name for a datatype when the local name
consists of letters and numbers of all scripts, and the grammar of names leaves out some of these,
such as the ordinal indicators.  Where the local name of the datatype is such a one, the literal is
not legible (`Literal.Legible`): the reader still finds the value, but it takes a part of the text
for the whole (`Sparql.literal_decodes`).
-/

namespace SparqlCompose

variable {t : PrefixTable}

/-! ### Tables with legal prefixes -/

namespace PrefixTable

/-- A table that comes about by binding prefixes that can be read. -/
inductive Legal : PrefixTable → Prop
  | empty : Legal ∅
  | bind {t : PrefixTable} (h : Legal t) {name : String}
      (hname : Sparql.isPrefixName name.toList = true) (iri : String) : Legal (t.bind name iri)

/-- A table with legal prefixes is sound. -/
theorem Legal.sound (h : t.Legal) : t.Sound := by
  induction h with
  | empty => exact sound_empty
  | bind _ _ iri ih => exact ih.bind _ iri

/-- The prefixes that it lists can be read. -/
theorem Legal.isPrefixName (h : t.Legal) {p ns : String} (hp : (p, ns) ∈ t.toList) :
    Sparql.isPrefixName p.toList = true := by
  induction h with
  | empty => cases hp
  | bind _ hname iri ih =>
      rcases mem_toList_bind hp with hp | heq
      · exact ih hp
      · obtain ⟨rfl, rfl⟩ := Prod.mk.inj heq
        exact hname

end PrefixTable

/-! ### Valid literals -/

namespace Literal

/-- A literal that a program can make: a plain text, a text with an absolute IRI as its datatype, or
a text with a well-formed language tag. -/
inductive Valid : Literal → Prop
  | plain (value : String) : Valid (.plain value)
  | ofType (value : String) {datatype : String} (h : Iri.isAbsolute datatype = true) :
      Valid (.ofType value datatype)
  | inLanguage (value : String) {tag : String} (h : LanguageTag.isWellFormed tag = true) :
      Valid (.inLanguage value tag)

/-- A valid literal is as its constructors make it. -/
theorem Valid.isNormal {l : Literal} (h : l.Valid) : l.IsNormal := by
  cases h with
  | plain value => exact isNormal_plain value
  | ofType value _ => exact isNormal_ofType value _
  | inLanguage value _ => exact isNormal_inLanguage value _

/-- The datatype of a valid literal is an absolute IRI. -/
theorem Valid.isAbsolute {l : Literal} (h : l.Valid) {d : String} (hd : l.datatype? = some d) :
    Iri.isAbsolute d = true := by
  cases h with
  | plain value => cases hd
  | inLanguage value _ => cases hd
  | ofType value habsolute =>
      rw [Literal.ofType] at hd
      split at hd
      · cases hd
      · exact Option.some.inj hd ▸ habsolute

/-- The language tag of a valid literal is well formed. -/
theorem Valid.isWellFormed {l : Literal} (h : l.Valid) {tag : String}
    (htag : l.language? = some tag) : LanguageTag.isWellFormed tag = true := by
  cases h with
  | plain value => cases htag
  | ofType value _ =>
      rw [Literal.ofType] at htag
      split at htag <;> cases htag
  | inLanguage value hform =>
      rw [← Option.some.inj htag, LanguageTag.isWellFormed_toLower]
      exact hform

/-- The local name that the table writes for the datatype, if it writes one, is a name of the
grammar. -/
def Legible (t : PrefixTable) (l : Literal) : Prop :=
  ∀ d, l.datatype? = some d → l.isBare = false → ∀ p, t.compactingPrefix? d = some p →
    ∀ ns name, PrefixTable.splitIri d = some (ns, name) → Sparql.isPlainLocal name.toList = true

end Literal

namespace Sparql

/-! ### The prefixes of a table -/

/-- What a reader knows when the prefixes of a table are declared. -/
def Scope.ofTable (t : PrefixTable) : Scope := { prefixes := t.toList }

/-- A reader finds the namespace that a prefix of the table has. -/
theorem lookup_ofTable {p ns : String} (h : t.namespaces.get? p = some ns) :
    (Scope.ofTable t).prefixes.lookup p = some ns := by
  refine lookup_of_mem ⟨(p, ns), OrderedMap.get?_eq_some_iff.mp h, rfl⟩ ?_
  intro e he hp
  have hget : t.namespaces.get? e.1 = some e.2 := OrderedMap.get?_eq_some_iff.mpr he
  rw [hp, h] at hget
  exact (Option.some.inj hget).symm

/-- A reader with the prefixes of the table knows a valid literal that is legible. -/
theorem knowsLiteral_ofTable (ht : t.Legal) {l : Literal} (hvalid : l.Valid)
    (hlegible : l.Legible t) : Parser.KnowsLiteral t (Scope.ofTable t) l := by
  obtain ⟨value, kind⟩ := l
  cases kind with
  | simple => trivial
  | tagged tag => exact hvalid.isWellFormed rfl
  | typed d =>
      intro hbare
      refine ⟨rfl, hvalid.isAbsolute rfl, ?_⟩
      intro p ns name hp hsplit
      have hns := ht.sound.get?_of_compactingPrefix? hp hsplit
      exact ⟨ht.isPrefixName (OrderedMap.get?_eq_some_iff.mp hns), lookup_ofTable hns,
        hlegible d rfl hbare p hp ns name hsplit⟩

/-! ### Names that are read in part -/

/-- The characters of a local name that is written are none of those with a meaning of their own. -/
theorem ne_of_isLocalChar {c : Char} (h : PrefixTable.isLocalChar c = true) :
    c ≠ ':' ∧ c ≠ '%' ∧ c ≠ '\\' ∧ c ≠ '.' := by
  have hbarred : [':', '%', '\\', '.'].all (fun c => !PrefixTable.isLocalChar c) = true := by
    decide +kernel
  have hne : ∀ d ∈ [':', '%', '\\', '.'], c ≠ d := by
    rintro d hd rfl
    simpa [h] using List.all_eq_true.mp hbarred c hd
  exact ⟨hne _ (by simp), hne _ (by simp), hne _ (by simp), hne _ (by simp)⟩

/-- A local name that is not of the grammar is not read, or read up to its first character that is
not. -/
theorem localName_of_not_plain {name : String} (h : PrefixTable.isLocalName name = true)
    (hplain : isPlainLocal name.toList = false) :
    localName name.toList = none ∨
      ∃ front more, more ≠ [] ∧ localName name.toList = some (front, more) := by
  obtain ⟨c, cs, hname, -, hall⟩ := exists_cons_of_isLocalName h
  rw [List.forall_mem_cons] at hall
  obtain ⟨hc, hcs⟩ := hall
  rw [hname] at hplain ⊢
  by_cases hfirst : (NameChars.isLetterU c || c.isDigit) = true
  · right
    obtain ⟨inner, more, rfl, hinner, hmore⟩ := exists_run NameChars.isInner cs
    have hfront : isPlainLocal (c :: inner) = true := by
      rw [isPlainLocal, hfirst, Bool.true_and, List.all_eq_true]
      exact hinner
    have hne : more ≠ [] := by
      rintro rfl
      rw [List.append_nil, hfront] at hplain
      cases hplain
    have hends : EndsLocal more := by
      intro d hd
      have hmem : d ∈ inner ++ more := List.mem_append_right _ (List.mem_of_mem_head? hd)
      obtain ⟨hcolon, hpercent, hbackslash, hdot⟩ := ne_of_isLocalChar (hcs d hmem)
      exact ⟨by simp [hmore d hd, hcolon], hpercent, hbackslash, hdot⟩
    exact ⟨_, more, hne, localName_append hfront hends⟩
  · left
    obtain ⟨hcolon, hpercent, hbackslash, -⟩ := ne_of_isLocalChar hc
    rw [Bool.not_eq_true, Bool.or_eq_false_iff] at hfirst
    refine Scan.bind_of_none (localItem_of_head ?_)
    intro d hd
    obtain rfl := Option.some.inj hd
    exact ⟨by simp [hfirst, hcolon], hpercent, hbackslash⟩

/-! ### Readers that stop short -/

namespace Parser

section StopsShort

variable {α β : Type} {p q : Parser α} {f : α → Parser β} {s : Scope} {cs mid : List Char}
  {a : α}

/-- The reader refuses the text or leaves some of it. -/
def StopsShort (p : Parser α) (s : Scope) (cs : List Char) : Prop :=
  Refuses p s cs ∨ ∃ a rest, rest ≠ [] ∧ Reads p s cs a rest

/-- An answer alone leaves the text. -/
theorem stopsShort_pure (a : α) (s : Scope) (hcs : cs ≠ []) : StopsShort (pure a) s cs :=
  Or.inr ⟨a, cs, hcs, reads_pure _ _ _⟩

/-- A sequence stops short where its second link does. -/
theorem Reads.bind_stopsShort (h : Reads p s cs a mid) (h' : StopsShort (f a) s mid) :
    StopsShort (p >>= f) s cs := by
  rcases h' with h' | ⟨b, rest, hrest, h'⟩
  · exact Or.inl (h.bind_refuses h')
  · exact Or.inr ⟨b, rest, hrest, h.bind h'⟩

/-- A sequence stops short if its first link does and its second one never reads to the end of what
is left. -/
theorem StopsShort.bind (h : StopsShort p s cs)
    (h' : ∀ a rest, rest ≠ [] → StopsShort (f a) s rest) : StopsShort (p >>= f) s cs := by
  rcases h with h | ⟨a, rest, hrest, h⟩
  · exact Or.inl h.bind
  · exact h.bind_stopsShort (h' a rest hrest)

/-- An alternative stops short where its second side does, if the first one refuses. -/
theorem Refuses.orElse_stopsShort (h : Refuses p s cs) (h' : StopsShort q s cs) :
    StopsShort (p <|> q) s cs := by
  rcases h' with h' | ⟨b, rest, hrest, h'⟩
  · exact Or.inl (h.orElse h')
  · exact Or.inr ⟨b, rest, hrest, h.orElse_reads h'⟩

/-- It stops short where both sides do. -/
theorem StopsShort.orElse (h : StopsShort p s cs) (h' : StopsShort q s cs) :
    StopsShort (p <|> q) s cs := by
  rcases h with h | ⟨a, rest, hrest, h⟩
  · exact h.orElse_stopsShort h'
  · exact Or.inr ⟨a, rest, hrest, h.orElse⟩

/-- Making an IRI absolute leaves the text. -/
theorem stopsShort_absolute (text : String) (s : Scope) (hcs : cs ≠ []) :
    StopsShort (absolute text) s cs := by
  unfold absolute
  by_cases h : Iri.isAbsolute text = true
  · exact (reads_guard h).bind_stopsShort (stopsShort_pure text s hcs)
  · exact Or.inl (refuses_guard h).bind

end StopsShort

variable {s : Scope} {p ns l : String}

/-- A prefixed name whose local name is not of the grammar is not read to its end. -/
theorem stopsShort_iri (hp : isPrefixName p.toList = true) (hlookup : s.prefixes.lookup p = some ns)
    (hl : PrefixTable.isLocalName l = true) (hplain : isPlainLocal l.toList = false) :
    StopsShort iri s (p.toList ++ ':' :: l.toList) := by
  have hne : l.toList ≠ [] := by
    intro hnil
    simp [PrefixTable.isLocalName, hnil] at hl
  have hbracket : (p.toList ++ ':' :: l.toList).head? ≠ some '<' := by
    intro habsurd
    rcases head_prefixName hp _ '<' habsurd with heq | hletter
    · cases heq
    · revert hletter
      decide
  have hname : StopsShort (liftM localName : Parser String) s l.toList := by
    rcases localName_of_not_plain hl hplain with hnone | ⟨front, more, hmore, hsome⟩
    · exact Or.inl (.lift hnone)
    · exact Or.inr ⟨front, more, hmore, .lift hsome⟩
  refine (refuses_iriRef hbracket).orElse_stopsShort ?_
  unfold prefixedName
  refine Reads.bind_stopsShort (.lift (prefixName_append hp)) ?_
  refine Reads.bind_stopsShort reads_scope ?_
  refine Reads.bind_stopsShort (reads_option hlookup) ?_
  refine StopsShort.orElse (hname.bind ?_) (stopsShort_absolute ns s hne)
  exact fun front more hmore => stopsShort_absolute (ns ++ front) s hmore

/-- A literal whose datatype has such a name is read in part: its value is found, but not all of
its text is read. -/
theorem reads_part_of_not_legible (ht : t.Legal) {l : Literal} (h : ¬ l.Legible t) :
    ∃ a rest, a.value = l.value ∧ rest ≠ [] ∧
      Reads literal (Scope.ofTable t) (l.render t).toList a rest := by
  obtain ⟨value, kind⟩ := l
  unfold Literal.Legible at h
  push Not at h
  obtain ⟨d, hd, hbare, p, hp, ns, name, hsplit, hplain⟩ := h
  cases kind with
  | simple => cases hd
  | tagged tag => cases hd
  | typed d' =>
      obtain rfl := Option.some.inj hd
      have hns := ht.sound.get?_of_compactingPrefix? hp hsplit
      have hprefix := ht.isPrefixName (OrderedMap.get?_eq_some_iff.mp hns)
      have hform : ((Resource.iri d').render t).toList = p.toList ++ ':' :: name.toList := by
        simp [Resource.render, PrefixTable.compact?, hp, hsplit]
      have htyped := exec_typed (s := Scope.ofTable t) value (strip_prefixName hprefix name.toList)
      rw [toList_render_typed hbare, hform]
      have hquoted : Reads (liftM string : Parser String) (Scope.ofTable t)
          ((quoteText value).toList ++ '^' :: '^' :: (p.toList ++ ':' :: name.toList)) value
          ('^' :: '^' :: (p.toList ++ ':' :: name.toList)) :=
        .lift (string_quoteText value (by simp))
      rcases stopsShort_iri hprefix (lookup_ofTable hns)
        (isLocalName_of_compactingPrefix? hp hsplit) (by simpa using hplain) with
          hnone | ⟨front, rest, hrest, hread⟩
      · -- without a datatype the text between the quotes is read alone
        have htagged : Refuses (stringLiteral.tagged value) (Scope.ofTable t)
            ('^' :: '^' :: (p.toList ++ ':' :: name.toList)) := by
          refine refuses_tagged ?_
          rw [strip_cons (by decide) (by decide)]
          simp
        refine ⟨.plain value, '^' :: '^' :: (p.toList ++ ':' :: name.toList), rfl, by simp, ?_⟩
        refine Reads.orElse (hquoted.bind ?_)
        exact Refuses.orElse_reads (htyped.trans hnone.bind)
          (htagged.orElse_reads (reads_pure _ _ _))
      · refine ⟨.ofType value front, rest, ?_, hrest, ?_⟩
        · rw [Literal.ofType]
          split <;> rfl
        · exact Reads.orElse (hquoted.bind
            (Reads.orElse (htyped.trans (hread.bind (reads_pure _ _ _)))))

end Parser

/-! ### The law -/

/-- **What is written for a literal decodes to it exactly if it is legible.**  A reader with the
prefixes of the table then reads the whole text and answers the literal.  Whatever the literal, the
reader answers its value, and no value ends its quotes early: the quoted text is read up to its
closing quotes, whatever follows, unless another quote does. -/
theorem literal_decodes {l : Literal} (hvalid : l.Valid) (ht : t.Legal) :
    (Parser.Reads Parser.literal (Scope.ofTable t) (l.render t).toList l [] ↔ l.Legible t) ∧
      (∃ a rest, a.value = l.value ∧
        Parser.Reads Parser.literal (Scope.ofTable t) (l.render t).toList a rest) ∧
      ∀ rest : List Char, rest.head? ≠ some '"' →
        Parser.string ((quoteText l.value).toList ++ rest) = some (l.value, rest) := by
  have hwhole : l.Legible t →
      Parser.Reads Parser.literal (Scope.ofTable t) (l.render t).toList l [] := by
    intro hlegible
    have hended : Parser.Ended [] := ⟨delimited_nil, by simp, by simp⟩
    have hread := Parser.reads_literal hvalid.isNormal
      (knowsLiteral_ofTable ht hvalid hlegible) hended
    rwa [List.append_nil] at hread
  refine ⟨⟨?_, hwhole⟩, ?_, fun rest hrest => string_quoteText l.value hrest⟩
  · intro hread
    by_contra hno
    obtain ⟨a, rest, -, hrest, hpart⟩ := Parser.reads_part_of_not_legible ht hno
    exact hrest (hpart.unique hread).2
  · by_cases hlegible : l.Legible t
    · exact ⟨l, [], rfl, hwhole hlegible⟩
    · obtain ⟨a, rest, hvalue, -, hpart⟩ := Parser.reads_part_of_not_legible ht hlegible
      exact ⟨a, rest, hvalue, hpart⟩

/-- A table with one prefix. -/
def exTable : PrefixTable := (∅ : PrefixTable).bind "ex" "http://ex/"

/-- The table of the example has a legal prefix. -/
theorem legal_exTable : exTable.Legal := .bind .empty (by decide) _

/-- The example spans two lines, with quotation marks and a comma, and its datatype has letters
beyond ASCII. -/
theorem literal_decodes_lines :
    Parser.Reads Parser.literal (Scope.ofTable exTable)
      "\"\"\"\\\"1,5\\\"\nm\"\"\"^^ex:größe".toList
      (.ofType "\"1,5\"\nm" "http://ex/größe") [] := by
  have hvalid : (Literal.ofType "\"1,5\"\nm" "http://ex/größe").Valid :=
    .ofType _ (by decide +kernel)
  have hlegible : (Literal.ofType "\"1,5\"\nm" "http://ex/größe").Legible exTable := by
    intro d hd _ p _ ns name hsplit
    obtain rfl := Option.some.inj hd
    obtain rfl : "größe" = name := congrArg Prod.snd (Option.some.inj hsplit)
    decide
  exact (literal_decodes hvalid legal_exTable).1.mpr hlegible

/-- The feminine ordinal indicator is a letter that the grammar of names leaves out: a reader does
not get to the end of a text that has it in the name of a datatype. -/
theorem not_reads_ordinal :
    (Literal.ofType "x" "http://ex/ª").Valid ∧ exTable.Legal ∧
      (Literal.ofType "x" "http://ex/ª").render exTable = "\"x\"^^ex:ª" ∧
      ¬ Parser.Reads Parser.literal (Scope.ofTable exTable) "\"x\"^^ex:ª".toList
        (.ofType "x" "http://ex/ª") [] := by
  have hform : (Literal.ofType "x" "http://ex/ª").render exTable = "\"x\"^^ex:ª" := by
    decide +kernel
  have hillegible : ¬ (Literal.ofType "x" "http://ex/ª").Legible exTable := by
    intro hlegible
    have hplain := hlegible "http://ex/ª" rfl rfl "ex" (by decide +kernel) "http://ex/" "ª" rfl
    revert hplain
    decide
  refine ⟨.ofType _ (by decide +kernel), legal_exTable, hform, ?_⟩
  intro hread
  obtain ⟨a, rest, -, hrest, hpart⟩ := Parser.reads_part_of_not_legible legal_exTable hillegible
  rw [hform] at hpart
  exact hrest (hpart.unique hread).2

end Sparql

end SparqlCompose
