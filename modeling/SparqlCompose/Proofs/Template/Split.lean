import Mathlib.Data.List.TakeWhile
import SparqlCompose.Proofs.Cut
import SparqlCompose.Query.Template

/-!
# How a text is cut into a template

A placeholder as it is written is a `Mark`.  The mark that a text begins with is found
(`placeholder?_append`), and what is found is a mark (`exists_mark_of_placeholder?`).  A `Split` of
a text is a list of marks with texts between them in which no mark occurs.

Every text has a split (`exists_split`), and whatever split of it is taken, its marks and the texts
between them are the segments that the text is cut into (`Split.cut_chars`).  So cutting loses no
text, adds none, and leaves no placeholder behind.
-/

namespace SparqlCompose.Template

/-! ### Placeholders as they are written -/

/-- Whether a text is a name that a placeholder can have. -/
def isName : List Char → Bool
  | [] => false
  | c :: cs => isNameStart c && cs.all isNameInner

/-- A placeholder as it is written: between double braces a name, with a question mark before it
if it stands for a variable of the template's own, and white space around. -/
structure Mark where
  before : List Char
  own : Bool
  name : List Char
  after : List Char
  before_blank : ∀ c ∈ before, isBlank c = true
  isName_name : isName name = true
  after_blank : ∀ c ∈ after, isBlank c = true

namespace Mark

/-- The question mark, if there is one. -/
def sign (m : Mark) : List Char := if m.own then ['?'] else []

/-- What stands between the braces. -/
def inside (m : Mark) : List Char := m.before ++ (m.sign ++ (m.name ++ m.after))

/-- The whole placeholder. -/
def chars (m : Mark) : List Char := '\x7b' :: '\x7b' :: (m.inside ++ ['\x7d', '\x7d'])

/-- The segment that it makes. -/
def segment (m : Mark) : Segment :=
  if m.own then .fresh (String.ofList m.name) else .placeholder (String.ofList m.name)

end Mark

/-- The base of a variable of the template's own is a name. -/
theorem Mark.isName_of_fresh (m : Mark) {base : String} (h : m.segment = .fresh base) :
    isName base.toList = true := by
  unfold segment at h
  split at h
  · obtain rfl := Segment.fresh.inj h
    rw [String.toList_ofList]
    exact m.isName_name
  · cases h

/-! ### Classes of characters -/

/-- White space stands in no name. -/
theorem isNameInner_of_isBlank {c : Char} (h : isBlank c = true) : isNameInner c = false := by
  have hall : ∀ n ∈ blankCodePoints, isNameInner (Char.ofNat n) = false := by decide
  rw [isBlank, List.contains_iff_mem] at h
  have hc := hall c.toNat h
  rwa [Char.ofNat_toNat] at hc

/-- What may stand first in a name may stand later in it. -/
theorem isNameInner_of_isNameStart {c : Char} (h : isNameStart c = true) :
    isNameInner c = true := by
  simp [isNameInner, h]

/-- Nothing that may stand first in a name is white space. -/
theorem isBlank_of_isNameStart {c : Char} (h : isNameStart c = true) : isBlank c = false := by
  by_contra hblank
  have hno := isNameInner_of_isBlank (by simpa using hblank)
  rw [isNameInner_of_isNameStart h] at hno
  cases hno

/-- Every character of a name may stand in a name. -/
theorem isNameInner_of_mem {name : List Char} (h : isName name = true) :
    ∀ c ∈ name, isNameInner c = true := by
  cases name with
  | nil => cases h
  | cons c cs =>
      simp only [isName, Bool.and_eq_true, List.all_eq_true] at h
      exact List.forall_mem_cons.mpr ⟨isNameInner_of_isNameStart h.1, h.2⟩

/-- A text that begins with a name begins with a letter or an underscore. -/
theorem exists_isNameStart {name : List Char} (h : isName name = true) (rest : List Char) :
    ∃ c, isNameStart c = true ∧ (name ++ rest).head? = some c := by
  cases name with
  | nil => cases h
  | cons c cs =>
      simp only [isName, Bool.and_eq_true] at h
      exact ⟨c, h.1, rfl⟩

/-- Braces stand at the two ends of a placeholder only. -/
theorem Mark.ne_of_mem_inside {m : Mark} {c : Char} (h : c ∈ m.inside) :
    c ≠ '\x7b' ∧ c ≠ '\x7d' := by
  have hclass : isBlank c = true ∨ c = '?' ∨ isNameInner c = true := by
    simp only [inside, sign, List.mem_append] at h
    rcases h with h | h | h | h
    · exact Or.inl (m.before_blank c h)
    · split at h
      · exact Or.inr (Or.inl (List.mem_singleton.mp h))
      · cases h
    · exact Or.inr (Or.inr (isNameInner_of_mem m.isName_name c h))
    · exact Or.inl (m.after_blank c h)
  constructor
  · rintro rfl
    revert hclass
    decide
  · rintro rfl
    revert hclass
    decide

/-- After its second character a placeholder has no opening brace. -/
theorem Mark.not_mem_close (m : Mark) : '\x7b' ∉ m.inside ++ ['\x7d', '\x7d'] := by
  intro h
  rcases List.mem_append.mp h with h | h
  · exact (Mark.ne_of_mem_inside h).1 rfl
  · revert h
    decide

/-- Something stands between the braces. -/
theorem Mark.inside_ne_nil (m : Mark) : m.inside ≠ [] := by
  have hname : m.name ≠ [] := by
    intro hnil
    have h := m.isName_name
    rw [hnil] at h
    cases h
  simp [inside, hname]

/-! ### A placeholder at the front of a text -/

/-- A name is taken up to the first character that may not stand in it. -/
theorem takeName_append {name rest : List Char} (h : isName name = true)
    (hrest : ∀ c, rest.head? = some c → isNameInner c = false) :
    takeName (name ++ rest) = some (name, rest) := by
  cases name with
  | nil => cases h
  | cons c cs =>
      simp only [isName, Bool.and_eq_true, List.all_eq_true] at h
      obtain ⟨htaken, hleft⟩ := run_of_stop h.2 hrest
      rw [List.cons_append, takeName, if_pos h.1, htaken, hleft]

/-- What is taken is a name, and the rest is left. -/
theorem takeName_eq_some {cs name rest : List Char} (h : takeName cs = some (name, rest)) :
    isName name = true ∧ cs = name ++ rest := by
  cases cs with
  | nil => cases h
  | cons c cs =>
      rw [takeName] at h
      split at h
      · next hc =>
          obtain ⟨rfl, rfl⟩ := Prod.mk.inj (Option.some.inj h)
          refine ⟨?_, by rw [List.cons_append, List.takeWhile_append_dropWhile]⟩
          simp only [isName, hc, Bool.true_and, List.all_eq_true]
          exact fun d hd => List.mem_takeWhile_imp hd
      · cases h

/-- The steps by which a placeholder is found. -/
theorem placeholder?_eq_some {cs rest : List Char} {s : Segment} :
    placeholder? cs = some (s, rest) ↔ ∃ a own name b,
      cs = '\x7b' :: '\x7b' :: a ∧ ((a.dropWhile isBlank).head? == some '?') = own ∧
      takeName (if own then (a.dropWhile isBlank).drop 1 else a.dropWhile isBlank) =
        some (name, b) ∧
      b.dropWhile isBlank = '\x7d' :: '\x7d' :: rest ∧
      s = if own then .fresh (String.ofList name) else .placeholder (String.ofList name) := by
  simp only [placeholder?, Option.bind_eq_bind, Option.bind_eq_some_iff, Option.pure_def,
    Option.some.injEq, Prod.mk.injEq, Prod.exists, dropLead?_eq_some_iff, List.cons_append,
    List.nil_append]
  constructor
  · intro hparts
    obtain ⟨a, ha, name, b, htaken, c, hclose, rfl, rfl⟩ := hparts
    exact ⟨a, _, name, b, ha, rfl, htaken, hclose, rfl⟩
  · intro hparts
    obtain ⟨a, own, name, b, ha, rfl, htaken, hclose, rfl⟩ := hparts
    exact ⟨a, ha, name, b, htaken, rest, hclose, rfl, rfl⟩

/-- A placeholder is found at the front of a text, whatever follows it. -/
theorem placeholder?_append (m : Mark) (rest : List Char) :
    placeholder? (m.chars ++ rest) = some (m.segment, rest) := by
  have hname : ∀ d, (m.after ++ '\x7d' :: '\x7d' :: rest).head? = some d →
      isNameInner d = false := by
    intro d hd
    cases hafter : m.after with
    | nil =>
        rw [hafter] at hd
        cases hd
        decide
    | cons b bs =>
        rw [hafter] at hd
        cases hd
        exact isNameInner_of_isBlank (m.after_blank d (by simp [hafter]))
  have htaken := takeName_append m.isName_name hname
  have hclose : (m.after ++ '\x7d' :: '\x7d' :: rest).dropWhile isBlank =
      '\x7d' :: '\x7d' :: rest := by
    refine (run_of_stop m.after_blank ?_).2
    rintro d ⟨⟩
    decide
  -- the first character after the white space tells whether there is a question mark
  obtain ⟨c, hc, hhead⟩ :=
    exists_isNameStart m.isName_name (m.after ++ '\x7d' :: '\x7d' :: rest)
  generalize hrest : m.name ++ (m.after ++ '\x7d' :: '\x7d' :: rest) = tail at htaken hhead
  have hopen : (m.before ++ (m.sign ++ tail)).dropWhile isBlank = m.sign ++ tail := by
    refine (run_of_stop m.before_blank ?_).2
    intro d hd
    rw [Mark.sign] at hd
    split at hd
    · cases hd
      decide
    · rw [List.nil_append, hhead] at hd
      cases hd
      exact isBlank_of_isNameStart hc
  refine placeholder?_eq_some.mpr
    ⟨m.before ++ (m.sign ++ tail), m.own, m.name, _, ?_, ?_, ?_, hclose, rfl⟩
  · simp [Mark.chars, Mark.inside, ← hrest]
  · have hquestion : c ≠ '?' := by
      rintro rfl
      revert hc
      decide
    rw [hopen, Mark.sign]
    cases m.own <;> simp [hhead, hquestion]
  · rw [hopen, Mark.sign]
    cases m.own <;> exact htaken

/-- What is found at the front of a text is a placeholder. -/
theorem exists_mark_of_placeholder? {cs rest : List Char} {s : Segment}
    (h : placeholder? cs = some (s, rest)) : ∃ m : Mark, cs = m.chars ++ rest ∧ s = m.segment := by
  obtain ⟨a, own, name, b, rfl, hown, htaken, hclose, rfl⟩ := placeholder?_eq_some.mp h
  obtain ⟨hname, hb⟩ := takeName_eq_some htaken
  have hafter : b = b.takeWhile isBlank ++ '\x7d' :: '\x7d' :: rest := by
    rw [← hclose, List.takeWhile_append_dropWhile]
  have hsign : a.dropWhile isBlank = (if own then ['?'] else []) ++ (name ++ b) := by
    rw [← hb]
    cases own with
    | true =>
        rw [beq_iff_eq, List.head?_eq_some_iff] at hown
        obtain ⟨front, hfront⟩ := hown
        simp [hfront]
    | false => rfl
  have hbefore : a = a.takeWhile isBlank ++ ((if own then ['?'] else []) ++ (name ++ b)) := by
    rw [← hsign, List.takeWhile_append_dropWhile]
  refine ⟨⟨a.takeWhile isBlank, own, name, b.takeWhile isBlank,
    fun c hc => List.mem_takeWhile_imp hc, hname, fun c hc => List.mem_takeWhile_imp hc⟩, ?_, rfl⟩
  rw [hafter] at hbefore
  simpa [Mark.chars, Mark.inside, Mark.sign] using hbefore

/-! ### Splits -/

/-- No placeholder occurs in the text. -/
def Clear (t : List Char) : Prop := ∀ m : Mark, ¬ m.chars <:+: t

/-- A text taken apart: a text, and placeholders with the texts after them, where no placeholder
occurs in any of the texts. -/
structure Split where
  lead : List Char
  parts : List (Mark × List Char)
  lead_clear : Clear lead
  parts_clear : ∀ p ∈ parts, Clear p.2

/-- The segments that a text without placeholders makes: one, or none if it is empty. -/
def plainSegments : List Char → List Segment
  | [] => []
  | cs => [.text (String.ofList cs)]

/-- Placeholders with the texts after them, as they are written. -/
def partsChars (parts : List (Mark × List Char)) : List Char :=
  parts.flatMap fun p => p.1.chars ++ p.2

/-- The segments that placeholders and the texts after them make. -/
def partsSegments (parts : List (Mark × List Char)) : List Segment :=
  parts.flatMap fun p => p.1.segment :: plainSegments p.2

namespace Split

/-- The text that was taken apart. -/
def chars (s : Split) : List Char := s.lead ++ partsChars s.parts

/-- The segments that the split makes: its texts that are not empty and its placeholders, in
order. -/
def segments (s : Split) : List Segment := plainSegments s.lead ++ partsSegments s.parts

end Split

/-- No placeholder occurs in the empty text. -/
theorem clear_nil : Clear [] := by
  intro m hmark
  cases List.eq_nil_of_infix_nil hmark

/-- Without its first character a text has no more placeholders. -/
theorem Clear.of_cons {c : Char} {t : List Char} (h : Clear (c :: t)) : Clear t :=
  fun m hmark => h m (hmark.trans (List.suffix_cons c t).isInfix)

/-- A text stays clear with one more character, if no placeholder begins there. -/
theorem Clear.cons {c : Char} {t : List Char} (h : Clear t) (rest : List Char)
    (hnone : placeholder? (c :: (t ++ rest)) = none) : Clear (c :: t) := by
  intro m hmark
  rcases List.infix_cons_iff.mp hmark with hprefix | hmark
  · obtain ⟨more, hmore⟩ := hprefix
    have hfound := placeholder?_append m (more ++ rest)
    rw [← List.append_assoc, hmore, List.cons_append, hnone] at hfound
    cases hfound
  · exact h m hmark

/-- What begins in a text and is no placeholder of it does not become one by the placeholders
that follow: it would have an opening brace of the next one behind its second character. -/
theorem Mark.chars_ne_append {m : Mark} {c d : Char} {t more rest : List Char}
    {parts : List (Mark × List Char)} (hparts : partsChars parts = d :: more ++ rest) :
    m.chars ≠ c :: t ++ d :: more := by
  intro hchars
  cases parts with
  | nil => cases hparts
  | cons p parts =>
      have hd : d = '\x7b' := by
        simp only [partsChars, List.flatMap_cons, chars, List.cons_append] at hparts
        exact (List.cons.inj hparts).1.symm
      subst hd
      obtain ⟨-, htail⟩ := List.cons.inj hchars
      cases t with
      | nil =>
          obtain ⟨-, hmore⟩ := List.cons.inj htail
          cases hinside : m.inside with
          | nil => exact m.inside_ne_nil hinside
          | cons e inside =>
              rw [hinside] at hmore
              rw [← hmore] at hparts
              simp only [partsChars, List.flatMap_cons, chars, List.cons_append] at hparts
              have he : '\x7b' = e := (List.cons.inj (List.cons.inj hparts).2).1
              exact m.not_mem_close (by rw [hinside, he]; exact List.mem_cons_self)
      | cons e t =>
          obtain ⟨-, hinside⟩ := List.cons.inj htail
          exact m.not_mem_close (hinside ▸ by simp)

/-- No placeholder begins in a clear text, also if placeholders follow. -/
theorem placeholder?_of_clear {c : Char} {t : List Char} (h : Clear (c :: t))
    (parts : List (Mark × List Char)) : placeholder? (c :: (t ++ partsChars parts)) = none := by
  cases hfound : placeholder? (c :: (t ++ partsChars parts)) with
  | none => rfl
  | some found =>
      obtain ⟨segment, rest⟩ := found
      obtain ⟨m, hchars, -⟩ := exists_mark_of_placeholder? hfound
      exfalso
      rw [← List.cons_append, List.append_eq_append_iff] at hchars
      rcases hchars with ⟨more, hmore, htail⟩ | ⟨more, hmore, -⟩
      · cases more with
        | nil =>
            rw [List.append_nil] at hmore
            exact h m (hmore ▸ List.infix_rfl)
        | cons d more => exact Mark.chars_ne_append htail hmore
      · exact h m (hmore ▸ (List.prefix_append _ _).isInfix)

/-! ### Cutting -/

/-- A placeholder at the front is cut off as its segment. -/
theorem cut_append (m : Mark) (rest : List Char) :
    cut (m.chars ++ rest) = m.segment :: cut rest := by
  have hfound := placeholder?_append m rest
  rw [Mark.chars, List.cons_append] at hfound ⊢
  rw [cut]
  split
  · next s more hsome =>
      obtain ⟨rfl, rfl⟩ := Prod.mk.inj (Option.some.inj (hsome.symm.trans hfound))
      rfl
  · next hnone =>
      rw [hnone] at hfound
      cases hfound

/-- Where there is none the first character is part of a text. -/
theorem cut_cons {c : Char} {cs : List Char} (h : placeholder? (c :: cs) = none) :
    cut (c :: cs) = consChar c (cut cs) := by
  rw [cut]
  split
  · next hsome =>
      rw [h] at hsome
      cases hsome
  · rfl

/-- A placeholder does not make a text. -/
theorem Mark.segment_ne_text (m : Mark) (s : String) : m.segment ≠ .text s := by
  unfold segment
  split <;> simp

/-- A character goes to the text before the placeholders. -/
theorem consChar_plainSegments (c : Char) (t : List Char) (parts : List (Mark × List Char)) :
    consChar c (plainSegments t ++ partsSegments parts) =
      plainSegments (c :: t) ++ partsSegments parts := by
  cases t with
  | nil =>
      cases parts with
      | nil => rfl
      | cons p parts =>
          have hne := p.1.segment_ne_text
          simp only [partsSegments, List.flatMap_cons, plainSegments, List.nil_append,
            List.cons_append]
          rw [consChar]
          intro s more heq
          exact hne s (List.cons.inj heq).1
  | cons d ds => simp [plainSegments, consChar]

/-- A clear text before placeholders is cut off in one piece. -/
theorem cut_clear {t : List Char} (h : Clear t) {parts : List (Mark × List Char)}
    (hparts : cut (partsChars parts) = partsSegments parts) :
    cut (t ++ partsChars parts) = plainSegments t ++ partsSegments parts := by
  induction t with
  | nil => exact hparts
  | cons c t ih =>
      rw [List.cons_append, cut_cons (placeholder?_of_clear h parts), ih h.of_cons,
        consChar_plainSegments]

/-- Placeholders with clear texts between them are cut into just these. -/
theorem cut_partsChars {parts : List (Mark × List Char)} (h : ∀ p ∈ parts, Clear p.2) :
    cut (partsChars parts) = partsSegments parts := by
  induction parts with
  | nil => rw [partsChars, List.flatMap_nil, cut]; rfl
  | cons p parts ih =>
      rw [List.forall_mem_cons] at h
      have hrest := cut_clear h.1 (ih h.2)
      calc cut (partsChars (p :: parts))
          = cut (p.1.chars ++ (p.2 ++ partsChars parts)) := by simp [partsChars]
        _ = p.1.segment :: (plainSegments p.2 ++ partsSegments parts) := by
            rw [cut_append, hrest]
        _ = partsSegments (p :: parts) := by simp [partsSegments]

/-- A text is cut as any split of it says. -/
theorem Split.cut_chars (s : Split) : cut s.chars = s.segments :=
  cut_clear s.lead_clear (cut_partsChars s.parts_clear)

/-- Every text has a split.  The induction is on the cutting: where a placeholder is found, it
begins the parts, and any other character goes to the text before them. -/
theorem exists_split (cs : List Char) : ∃ s : Split, s.chars = cs := by
  fun_induction cut cs with
  | case1 => exact ⟨⟨[], [], clear_nil, by simp⟩, rfl⟩
  | case2 c cs segment rest hfound ih =>
      obtain ⟨m, hchars, -⟩ := exists_mark_of_placeholder? hfound
      obtain ⟨s, rfl⟩ := ih
      refine ⟨⟨[], (m, s.lead) :: s.parts, clear_nil,
        List.forall_mem_cons.mpr ⟨s.lead_clear, s.parts_clear⟩⟩, ?_⟩
      rw [hchars]
      simp [Split.chars, partsChars]
  | case3 c cs hnone ih =>
      obtain ⟨s, rfl⟩ := ih
      exact ⟨⟨c :: s.lead, s.parts, s.lead_clear.cons (partsChars s.parts) hnone, s.parts_clear⟩,
        rfl⟩

end SparqlCompose.Template
