import Mathlib
import SparqlCompose.Iri.Resolve

/-!
# The characters of an IRI

The parts into which an IRI is cut make up its whole text, so what each part may hold is what the
text may hold.  An absolute IRI consists of the characters of a query and of percent signs, number
signs and brackets (`Iri.isIriChar_of_isAbsolute`).  In particular no angle bracket closes inside
it and nothing in it is escaped.
-/

namespace SparqlCompose

/-- What is split keeps its characters, apart from the separators. -/
theorem mem_splitAll {p : Char → Bool} {c : Char} {cs : List Char} (hc : c ∈ cs) :
    p c = true ∨ ∃ part ∈ splitAll p cs, c ∈ part := by
  induction cs with
  | nil => cases hc
  | cons d cs ih =>
      rw [splitAll]
      rcases List.mem_cons.mp hc with rfl | hc
      · by_cases hp : p c = true
        · exact Or.inl hp
        · right
          rw [if_neg hp]
          cases splitAll p cs with
          | nil => exact ⟨[c], by simp⟩
          | cons part parts => exact ⟨c :: part, by simp⟩
      · rcases ih hc with hp | ⟨part, hpart, hmem⟩
        · exact Or.inl hp
        · right
          split
          · exact ⟨part, List.mem_cons_of_mem _ hpart, hmem⟩
          · cases hparts : splitAll p cs with
            | nil => simp [hparts] at hpart
            | cons first more =>
                rw [hparts] at hpart
                rcases List.mem_cons.mp hpart with rfl | hpart
                · exact ⟨d :: part, List.mem_cons_self, List.mem_cons_of_mem _ hmem⟩
                · exact ⟨part, List.mem_cons_of_mem _ hpart, hmem⟩

namespace Iri

/-- The characters that may stand somewhere in an IRI. -/
def isIriChar (c : Char) : Bool := isQueryChar c || "%#[]".toList.contains c

section Classes

variable {c : Char}

/-- The characters of a path are characters of IRIs. -/
theorem isIriChar_of_isPathChar (h : isPathChar c = true) : isIriChar c = true := by
  simp [isIriChar, isQueryChar, isFragmentChar, h]

/-- So are the characters of user information. -/
theorem isIriChar_of_isUserChar (h : isUserChar c = true) : isIriChar c = true :=
  isIriChar_of_isPathChar (by simp [isPathChar, h])

/-- So are the characters of a host. -/
theorem isIriChar_of_isHostChar (h : isHostChar c = true) : isIriChar c = true :=
  isIriChar_of_isUserChar (by simp [isUserChar, h])

/-- So are letters and digits of ASCII. -/
theorem isIriChar_of_isAlphanum (h : c.isAlphanum = true) : isIriChar c = true :=
  isIriChar_of_isHostChar (by simp [isHostChar, isUnreserved, h])

/-- A digit is a character of IRIs. -/
theorem isIriChar_of_isDigit (h : c.isDigit = true) : isIriChar c = true :=
  isIriChar_of_isAlphanum (by simp [Char.isAlphanum, h])

/-- So is a digit to the base sixteen. -/
theorem isIriChar_of_isHexDigit (h : isHexDigit c = true) : isIriChar c = true := by
  refine isIriChar_of_isAlphanum ?_
  simp only [isHexDigit, Bool.or_eq_true, Bool.and_eq_true, decide_eq_true_eq] at h
  simp only [Char.isAlphanum, Char.isAlpha, Char.isUpper, Char.isLower, Bool.or_eq_true,
    Bool.and_eq_true, decide_eq_true_eq]
  rcases h with (h | h) | h
  · exact Or.inr h
  · left; right
    exact ⟨h.1, le_trans h.2 (by decide)⟩
  · left; left
    exact ⟨h.1, le_trans h.2 (by decide)⟩

/-- So are the characters of a scheme. -/
theorem isIriChar_of_isSchemeChar (h : isSchemeChar c = true) : isIriChar c = true := by
  simp only [isSchemeChar, Bool.or_eq_true, beq_iff_eq] at h
  rcases h with ((h | rfl) | rfl) | rfl
  · exact isIriChar_of_isAlphanum h
  all_goals decide

end Classes

/-! ### Parts -/

/-- A part that may hold a class of characters and coded octets holds characters of an IRI. -/
theorem isIriChar_of_isCoded {p : Char → Bool} (hp : ∀ c, p c = true → isIriChar c = true)
    {cs : List Char} (h : isCoded p cs = true) : ∀ c ∈ cs, isIriChar c = true := by
  fun_induction isCoded p cs with
  | case1 => simp
  | case2 a b cs ih =>
      simp only [Bool.and_eq_true] at h
      have hpercent : isIriChar '%' = true := by decide
      simp only [List.mem_cons, forall_eq_or_imp]
      exact ⟨hpercent, isIriChar_of_isHexDigit h.1.1, isIriChar_of_isHexDigit h.1.2, ih h.2⟩
  | case3 c cs hne ih =>
      simp only [Bool.and_eq_true] at h
      simp only [List.mem_cons, forall_eq_or_imp]
      exact ⟨hp c h.1.2, ih h.2⟩

/-- An address of the fourth version is written in characters of IRIs. -/
theorem isIriChar_of_isIpv4 {cs : List Char} (h : isIpv4 cs = true) :
    ∀ c ∈ cs, isIriChar c = true := by
  intro c hc
  simp only [isIpv4, Bool.and_eq_true, List.all_eq_true] at h
  rcases mem_splitAll (p := (· == '.')) hc with hdot | ⟨octet, hoctet, hmem⟩
  · rw [beq_iff_eq] at hdot
    subst hdot
    decide
  · have hall := h.2 octet hoctet
    simp only [isOctet, Bool.and_eq_true, List.all_eq_true] at hall
    exact isIriChar_of_isDigit (hall.1.1.2 c hmem)

/-- Groups of an address that can be counted hold characters of an IRI. -/
theorem isIriChar_of_count {tail : Bool} {gs : List (List Char)} {n : Nat}
    (h : ipv6Groups?.count tail gs = some n) : ∀ g ∈ gs, ∀ c ∈ g, isIriChar c = true := by
  induction gs generalizing n with
  | nil => simp
  | cons g gs ih =>
      rw [ipv6Groups?.count] at h
      rw [List.forall_mem_cons]
      split at h
      · next hg =>
          simp only [Bool.and_eq_true, List.all_eq_true] at hg
          obtain ⟨m, hm, -⟩ := Option.map_eq_some_iff.mp h
          exact ⟨fun c hc => isIriChar_of_isHexDigit (hg.2 c hc), ih hm⟩
      · split at h
        · next htail =>
            simp only [Bool.and_eq_true, List.isEmpty_iff] at htail
            obtain ⟨⟨-, rfl⟩, hv4⟩ := htail
            exact ⟨isIriChar_of_isIpv4 hv4, by simp⟩
        · cases h

/-- So are the groups of an address of the sixth version. -/
theorem isIriChar_of_ipv6Groups {tail : Bool} {cs : List Char} {n : Nat}
    (h : ipv6Groups? tail cs = some n) : ∀ c ∈ cs, isIriChar c = true := by
  intro c hc
  unfold ipv6Groups? at h
  split at h
  · next hempty => simp [List.isEmpty_iff.mp hempty] at hc
  · rcases mem_splitAll (p := (· == ':')) hc with hcolon | ⟨g, hg, hmem⟩
    · rw [beq_iff_eq] at hcolon
      subst hcolon
      decide
    · exact isIriChar_of_count h g hg c hmem

/-- A text is cut at a double colon. -/
theorem cutDoubleColon_append {cs a b : List Char} (h : cutDoubleColon cs = some (a, b)) :
    cs = a ++ ':' :: ':' :: b := by
  fun_induction cutDoubleColon cs generalizing a b with
  | case1 cs =>
      cases h
      rfl
  | case2 c cs hne ih =>
      obtain ⟨⟨a', b'⟩, hcut, heq⟩ := Option.map_eq_some_iff.mp h
      cases heq
      rw [ih hcut]
      rfl
  | case3 => cases h

/-- An address of the sixth version is written in characters of IRIs. -/
theorem isIriChar_of_isIpv6 {cs : List Char} (h : isIpv6 cs = true) :
    ∀ c ∈ cs, isIriChar c = true := by
  unfold isIpv6 at h
  split at h
  · exact isIriChar_of_ipv6Groups (beq_iff_eq.mp h)
  · next a b hcut =>
      split at h
      · next m n ha hb =>
          have hcolon : isIriChar ':' = true := by decide
          rw [cutDoubleColon_append hcut]
          simp only [List.forall_mem_append, List.forall_mem_cons]
          exact ⟨isIriChar_of_ipv6Groups ha, hcolon, hcolon, isIriChar_of_ipv6Groups hb⟩
      · cases h

/-- The two parts make up the text, and the first lies in the class. -/
theorem span_append (p : Char → Bool) {cs a b : List Char} (h : cs.span p = (a, b)) :
    cs = a ++ b ∧ ∀ c ∈ a, p c = true := by
  rw [List.span_eq_takeWhile_dropWhile] at h
  cases h
  exact ⟨List.takeWhile_append_dropWhile.symm, fun c hc => List.mem_takeWhile_imp hc⟩

/-- The second part does not go on in the class. -/
theorem span_stop (p : Char → Bool) {cs a b : List Char} (h : cs.span p = (a, b)) :
    ∀ c, b.head? = some c → p c = false := by
  rw [List.span_eq_takeWhile_dropWhile] at h
  cases h
  intro c hc
  have hhead := List.head?_dropWhile_not p cs
  rw [hc] at hhead
  simpa using hhead

/-- An address of a later version is written in characters of IRIs. -/
theorem isIriChar_of_isIpFuture {cs : List Char} (h : isIpFuture cs = true) :
    ∀ c ∈ cs, isIriChar c = true := by
  unfold isIpFuture at h
  split at h
  · next c cs =>
      simp only [Bool.and_eq_true, Bool.or_eq_true, beq_iff_eq] at h
      obtain ⟨hc, h⟩ := h
      split at h
      · next d ds rest hspan =>
          obtain ⟨hall, hhex⟩ := span_append _ hspan
          simp only [Bool.and_eq_true, List.all_eq_true] at h
          have hfirst : isIriChar c = true := by rcases hc with rfl | rfl <;> decide
          have hdot : isIriChar '.' = true := by decide
          rw [hall]
          simp only [List.forall_mem_cons, List.forall_mem_append]
          refine ⟨hfirst, ⟨?_, ?_⟩, hdot, ?_⟩
          · exact isIriChar_of_isHexDigit (hhex d List.mem_cons_self)
          · exact fun c hc => isIriChar_of_isHexDigit (hhex c (List.mem_cons_of_mem _ hc))
          · exact fun c hc => isIriChar_of_isUserChar (h.2 c hc).2
      · cases h
  · cases h

/-- So is a port. -/
theorem isIriChar_of_isPort {cs : List Char} (h : isHostPort.isPort cs = true) :
    ∀ c ∈ cs, isIriChar c = true := by
  cases cs with
  | nil => simp
  | cons c cs =>
      simp only [isHostPort.isPort, Bool.and_eq_true, beq_iff_eq, List.all_eq_true] at h
      obtain ⟨rfl, hdigits⟩ := h
      rw [List.forall_mem_cons]
      exact ⟨by decide, fun c hc => isIriChar_of_isDigit (hdigits c hc)⟩

/-- So is a host with its port. -/
theorem isIriChar_of_isHostPort {cs : List Char} (h : isHostPort cs = true) :
    ∀ c ∈ cs, isIriChar c = true := by
  unfold isHostPort at h
  split at h
  · next cs =>
      split at h
      · next ip rest hspan =>
          obtain ⟨rfl, -⟩ := span_append _ hspan
          simp only [Bool.and_eq_true, Bool.or_eq_true] at h
          have hopen : isIriChar '[' = true := by decide
          have hclose : isIriChar ']' = true := by decide
          have hip : ∀ c ∈ ip, isIriChar c = true :=
            h.1.elim isIriChar_of_isIpv6 isIriChar_of_isIpFuture
          simp only [List.forall_mem_append, List.forall_mem_cons]
          exact ⟨hopen, hip, hclose, isIriChar_of_isPort h.2⟩
      · cases h
  · rcases hspan : cs.span (· != ':') with ⟨host, rest⟩
    obtain ⟨rfl, -⟩ := span_append _ hspan
    rw [hspan] at h
    simp only [Bool.and_eq_true] at h
    rw [List.forall_mem_append]
    exact ⟨isIriChar_of_isCoded (fun _ => isIriChar_of_isHostChar) h.1, isIriChar_of_isPort h.2⟩

/-- So is an authority. -/
theorem isIriChar_of_isAuthority {cs : List Char} (h : isAuthority cs = true) :
    ∀ c ∈ cs, isIriChar c = true := by
  unfold isAuthority at h
  split at h
  · next user host hcut =>
      obtain ⟨c, hc, rfl⟩ := cutFirst_append hcut
      rw [beq_iff_eq] at hc
      subst hc
      simp only [Bool.and_eq_true] at h
      simp only [List.forall_mem_append, List.forall_mem_cons]
      exact ⟨isIriChar_of_isCoded (fun _ => isIriChar_of_isUserChar) h.1, by decide,
        isIriChar_of_isHostPort h.2⟩
  · exact isIriChar_of_isHostPort h

/-! ### The whole -/

/-- The scheme, if there is one, and its colon are cut off the front of the text. -/
theorem takeScheme_append {cs rest : List Char} {scheme : Option (List Char)}
    (h : takeScheme cs = (scheme, rest)) :
    (scheme = none ∧ cs = rest) ∨
      ∃ s, scheme = some s ∧ cs = s ++ ':' :: rest ∧ ∀ c ∈ s, isSchemeChar c = true := by
  unfold takeScheme at h
  split at h
  · next c tail =>
      split at h
      · split at h
        · next more hdrop =>
            cases h
            refine Or.inr ⟨_, rfl, ?_, fun c hc => List.mem_takeWhile_imp hc⟩
            rw [← hdrop, List.takeWhile_append_dropWhile]
        · cases h
          exact Or.inl ⟨rfl, rfl⟩
      · cases h
        exact Or.inl ⟨rfl, rfl⟩
  · cases h
    exact Or.inl ⟨rfl, rfl⟩

/-- The authority, if there is one, and its two slashes are cut off the front of the text. -/
theorem takeAuthority_append {cs rest : List Char} {authority : Option (List Char)}
    (h : takeAuthority cs = (authority, rest)) :
    (authority = none ∧ cs = rest) ∨
      ∃ a, authority = some a ∧ cs = '/' :: '/' :: (a ++ rest) := by
  unfold takeAuthority at h
  split at h
  · next cs =>
      rcases hspan : cs.span fun c => c != '/' && c != '?' && c != '#' with ⟨a, more⟩
      rw [hspan] at h
      cases h
      exact Or.inr ⟨a, rfl, by rw [(span_append _ hspan).1]⟩
  · cases h
    exact Or.inl ⟨rfl, rfl⟩

/-- What a part before a fragment leaves is nothing or a fragment. -/
theorem isIriChar_of_fragment {cs : List Char}
    (h : (match (match cs with | '#' :: f => some f | _ => none : Option (List Char)) with
      | some f => isCoded isFragmentChar f
      | none => true) = true)
    (hstart : ∀ c, cs.head? = some c → c = '#') : ∀ c ∈ cs, isIriChar c = true := by
  cases cs with
  | nil => simp
  | cons c cs =>
      obtain rfl := hstart c rfl
      have hmark : isIriChar '#' = true := by decide
      have hclass : ∀ c, isFragmentChar c = true → isIriChar c = true := by
        intro c hc
        simp [isIriChar, isQueryChar, hc]
      rw [List.forall_mem_cons]
      exact ⟨hmark, isIriChar_of_isCoded hclass h⟩

/-- An absolute IRI holds no other characters. -/
theorem isIriChar_of_isAbsolute {text : String} (h : isAbsolute text = true) :
    ∀ c ∈ text.toList, isIriChar c = true := by
  have hparts := (Bool.and_eq_true_iff.mp h).2
  unfold Parts.ofChars at hparts
  rcases hscheme : takeScheme text.toList with ⟨scheme, rest⟩
  rcases hauthority : takeAuthority rest with ⟨authority, rest₁⟩
  rcases hpath : rest₁.span fun c => c != '?' && c != '#' with ⟨path, rest₂⟩
  simp only [hscheme, hauthority, hpath, Parts.wellFormed, Bool.and_eq_true] at hparts
  obtain ⟨⟨⟨ha, hp⟩, hq⟩, hf⟩ := hparts
  have hcolon : isIriChar ':' = true := by decide
  have hslash : isIriChar '/' = true := by decide
  have hquestion : isIriChar '?' = true := by decide
  -- behind the path there is a query with or without a fragment, a fragment, or nothing
  have hend : ∀ c ∈ rest₂, isIriChar c = true := by
    have hstop := span_stop _ hpath
    cases rest₂ with
    | nil => simp
    | cons c rest₂ =>
        by_cases hc : c = '?'
        · subst hc
          rcases hquery : rest₂.span (· != '#') with ⟨query, rest₃⟩
          simp only [hquery] at hq hf
          have hstart : ∀ c, rest₃.head? = some c → c = '#' := by
            intro c hc
            simpa using span_stop _ hquery c hc
          have hclass : ∀ c, isQueryChar c = true → isIriChar c = true := by
            intro c hc
            simp [isIriChar, hc]
          rw [(span_append _ hquery).1]
          simp only [List.forall_mem_cons, List.forall_mem_append]
          exact ⟨hquestion, isIriChar_of_isCoded hclass hq, isIriChar_of_fragment hf hstart⟩
        · have hmark : c = '#' := by simpa [hc] using hstop c rfl
          subst hmark
          exact isIriChar_of_fragment hf (by simp)
  have hpathEnd : ∀ c ∈ rest₁, isIriChar c = true := by
    rw [(span_append _ hpath).1, List.forall_mem_append]
    exact ⟨isIriChar_of_isCoded (fun _ => isIriChar_of_isPathChar) hp, hend⟩
  have hrest : ∀ c ∈ rest, isIriChar c = true := by
    rcases takeAuthority_append hauthority with ⟨-, rfl⟩ | ⟨a, rfl, rfl⟩
    · exact hpathEnd
    · simp only [List.forall_mem_cons, List.forall_mem_append]
      exact ⟨hslash, hslash, isIriChar_of_isAuthority ha, hpathEnd⟩
  rcases takeScheme_append hscheme with ⟨-, heq⟩ | ⟨s, -, heq, hs⟩
  · rw [heq]
    exact hrest
  · rw [heq]
    simp only [List.forall_mem_append, List.forall_mem_cons]
    exact ⟨fun c hc => isIriChar_of_isSchemeChar (hs c hc), hcolon, hrest⟩

end Iri

end SparqlCompose
