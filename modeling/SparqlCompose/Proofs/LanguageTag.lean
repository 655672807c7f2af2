import Mathlib
import SparqlCompose.LanguageTag

/-!
# The subtags of a language tag

The grammar of language tags tells where a subtag may stand.  Whatever it says, the first subtag
consists of letters and each later one of letters and digits
(`LanguageTag.areSubtags_of_isWellFormed`), and the tag is its subtags with hyphens between them.
-/

namespace SparqlCompose

/-- Splitting a text leaves one part at least. -/
theorem splitAll_ne_nil (p : Char → Bool) (cs : List Char) : splitAll p cs ≠ [] := by
  cases cs with
  | nil => simp [splitAll]
  | cons c cs =>
      rw [splitAll]
      repeat' split
      all_goals simp

/-- Parts with their separator between them make up the text that was split. -/
theorem splitAll_append {d : Char} {cs first : List Char} {more : List (List Char)}
    (h : splitAll (· == d) cs = first :: more) : cs = first ++ more.flatMap (d :: ·) := by
  induction cs generalizing first more with
  | nil =>
      cases h
      rfl
  | cons c cs ih =>
      rw [splitAll] at h
      split at h
      · next hc =>
          rw [beq_iff_eq] at hc
          subst hc
          obtain ⟨rfl, rfl⟩ := List.cons.inj h
          cases hparts : splitAll (· == c) cs with
          | nil => exact absurd hparts (splitAll_ne_nil _ _)
          | cons part parts => simp [ih hparts]
      · cases hparts : splitAll (· == d) cs with
        | nil => exact absurd hparts (splitAll_ne_nil _ _)
        | cons part parts =>
            rw [hparts] at h
            obtain ⟨rfl, rfl⟩ := List.cons.inj h
            simp [ih hparts]

/-- A change of the characters that keeps the separators changes the parts. -/
theorem splitAll_map {p : Char → Bool} {f : Char → Char} (hf : ∀ c, p (f c) = p c)
    (cs : List Char) : splitAll p (cs.map f) = (splitAll p cs).map (List.map f) := by
  induction cs with
  | nil => rfl
  | cons c cs ih =>
      rw [List.map_cons, splitAll, splitAll, hf, ih]
      split
      · rfl
      · cases splitAll p cs with
        | nil => rfl
        | cons part parts => rfl

namespace LanguageTag

/-- A letter is a letter or a digit. -/
theorem isAlphanum_of_isAlpha {c : Char} (h : c.isAlpha = true) : c.isAlphanum = true := by
  simp [Char.isAlphanum, h]

/-- Wherever a subtag may stand, it consists of letters and digits. -/
theorem Stage.step_alphanum {s s' : Stage} {sub : List Char} (h : s.step sub = some s') :
    sub ≠ [] ∧ sub.all Char.isAlphanum = true := by
  have halpha : sub.all Char.isAlpha = true → sub.all Char.isAlphanum = true := by
    simp only [List.all_eq_true]
    exact fun hall c hc => isAlphanum_of_isAlpha (hall c hc)
  have hdigit : sub.all Char.isDigit = true → sub.all Char.isAlphanum = true := by
    simp only [List.all_eq_true]
    exact fun hall c hc => by simp [Char.isAlphanum, hall c hc]
  have hvariant : isVariant sub = true → sub.all Char.isAlphanum = true := by
    unfold isVariant
    split
    · exact fun hall => (Bool.and_eq_true_iff.mp hall).1
    · exact fun habsurd => nomatch habsurd
  unfold step at h
  simp only at h
  split at h
  · cases h
  · next hlength =>
      refine ⟨by rintro rfl; simp at hlength, ?_⟩
      -- the forms of a subtag are tried in the order of the grammar
      split at h
      · split at h
        · cases h
        · next hshort => exact halpha (by simpa using (not_or.mp hshort).2)
      · split at h
        · assumption
        · cases h
      · split at h
        · next hx => rcases hx with rfl | rfl <;> decide
        · split at h
          · next hsingle => exact hsingle.2
          · split at h
            · split at h
              · assumption
              · cases h
            · split at h
              · next hextended _ _ _ => exact halpha (Bool.and_eq_true_iff.mp hextended).2
              · split at h
                · next hscript => exact halpha (Bool.and_eq_true_iff.mp hscript).2
                · split at h
                  · next hregion =>
                      have hform := (Bool.and_eq_true_iff.mp hregion).2
                      rcases Bool.or_eq_true_iff.mp hform with hform | hform
                      · exact halpha (Bool.and_eq_true_iff.mp hform).2
                      · exact hdigit (Bool.and_eq_true_iff.mp hform).2
                  · split at h
                    · next hform => exact hvariant (Bool.and_eq_true_iff.mp hform).2
                    · cases h

/-- The first subtag of the grammar is a language. -/
theorem Stage.step_start {s' : Stage} {sub : List Char} (h : Stage.start.step sub = some s') :
    sub.all Char.isAlpha = true := by
  unfold step at h
  simp only at h
  split at h
  · cases h
  · split at h
    · cases h
    · next hshort => simpa using (not_or.mp hshort).2

/-- The first subtag consists of letters, each later one of letters and digits; none is
empty. -/
def areSubtags : List (List Char) → Bool
  | [] => false
  | first :: more =>
    !first.isEmpty && first.all Char.isAlpha &&
      more.all fun sub => !sub.isEmpty && sub.all Char.isAlphanum

/-- Of the parts of a tag that is read through, the first consists of letters, the others of letters
and digits. -/
theorem areSubtags_of_foldlM {parts : List (List Char)} {s : Stage}
    (h : parts.foldlM Stage.step .start = some s) (hne : parts ≠ []) : areSubtags parts = true := by
  have hlater : ∀ {more : List (List Char)} {s s' : Stage}, more.foldlM Stage.step s = some s' →
      more.all (fun sub => !sub.isEmpty && sub.all Char.isAlphanum) = true := by
    intro more
    induction more with
    | nil => simp
    | cons sub more ih =>
        intro s s' hfold
        obtain ⟨mid, hstep, hrest⟩ := Option.bind_eq_some_iff.mp hfold
        obtain ⟨hsub, hall⟩ := Stage.step_alphanum hstep
        simp only [List.all_cons, ih hrest, Bool.and_true, hall]
        simpa using hsub
  cases parts with
  | nil => exact absurd rfl hne
  | cons first more =>
      obtain ⟨mid, hstep, hrest⟩ := Option.bind_eq_some_iff.mp h
      have hfirst := (Stage.step_alphanum hstep).1
      simp only [areSubtags, Stage.step_start hstep, hlater hrest, Bool.and_true]
      simpa using hfirst

/-- **The subtags of a well-formed tag** that is written in lower case consist of letters and
digits. -/
theorem areSubtags_of_isWellFormed {tag : String} (h : isWellFormed tag = true)
    (hlower : tag.map Char.toLower = tag) :
    areSubtags (splitAll (· == '-') tag.toList) = true := by
  have hchars : tag.toList.map Char.toLower = tag.toList := by
    rw [← String.toList_map, hlower]
  unfold isWellFormed at h
  simp only [hchars] at h
  rcases Bool.or_eq_true_iff.mp h with h | h
  · obtain ⟨t, ht, heq⟩ := List.any_eq_true.mp h
    rw [← beq_iff_eq.mp heq]
    have hall : grandfathered.all (fun t => areSubtags (splitAll (· == '-') t.toList)) = true := by
      decide
    exact List.all_eq_true.mp hall t ht
  · split at h
    · next rest hrest =>
        rw [hrest]
        have hsplit : splitAll (· == '-') ('x' :: '-' :: rest) =
            ['x'] :: splitAll (· == '-') rest := by simp [splitAll]
        rw [hsplit]
        simp only [areSubtags, isPrivate, List.all_eq_true, Bool.and_eq_true,
          decide_eq_true_eq] at h ⊢
        refine ⟨⟨rfl, by simp⟩, ?_⟩
        intro sub hsub
        obtain ⟨⟨hlength, -⟩, hall⟩ := h sub hsub
        refine ⟨?_, hall⟩
        cases sub with
        | nil => simp at hlength
        | cons c sub => rfl
    · split at h
      · next s hfold => exact areSubtags_of_foldlM hfold (splitAll_ne_nil _ _)
      · cases h

/-! ### Tags in lower case -/

/-- A capital letter and its small one are 32 apart. -/
theorem toNat_toLower (c : Char) :
    c.toLower.toNat = if c.isUpper = true then c.toNat + 32 else c.toNat := by
  split
  · next h =>
      rw [Char.toLower_eq_of_isUpper h, Char.toNat_ofNat, if_pos]
      have hle : c.toNat ≤ 90 := by
        simp only [Char.isUpper, decide_eq_true_eq, UInt32.le_iff_toNat_le] at h
        exact h.2
      exact Or.inl (by omega)
  · next h => rw [Char.toLower_eq_of_not_isUpper h]

/-- A small letter is no digit, and neither is its capital. -/
theorem isDigit_toLower (c : Char) : c.toLower.isDigit = c.isDigit := by
  have hdigit : ∀ d : Char, d.isDigit = decide (48 ≤ d.toNat ∧ d.toNat ≤ 57) := by
    intro d
    simp only [Char.isDigit, UInt32.le_iff_toNat_le, Bool.decide_and]
    rfl
  rw [hdigit, hdigit, toNat_toLower, decide_eq_decide]
  split
  · next h =>
      have hle : 65 ≤ c.toNat := by
        simp only [Char.isUpper, decide_eq_true_eq, UInt32.le_iff_toNat_le] at h
        exact h.1
      omega
  · rfl

/-- A character stays a letter or a digit in small letters. -/
theorem isAlphanum_toLower (c : Char) : c.toLower.isAlphanum = c.isAlphanum := by
  rw [Char.isAlphanum, Char.isAlphanum, Char.isAlpha_toLower_eq_isAlpha, isDigit_toLower]

/-- Only the letter itself, in either case, becomes a small letter. -/
theorem toLower_eq_x {c : Char} : c.toLower = 'x' ↔ c = 'x' ∨ c = 'X' := by
  constructor
  · intro h
    have hcode := toNat_toLower c
    rw [h] at hcode
    split at hcode
    · have hbig : c.toNat = 88 := by
        simp at hcode
        omega
      exact Or.inr (Char.ext (UInt32.toNat.inj hbig))
    · exact Or.inl (Char.ext (UInt32.toNat.inj hcode.symm))
  · rintro (rfl | rfl) <;> decide

/-- Only the hyphen becomes a hyphen in small letters. -/
theorem hyphen_toLower (c : Char) : (c.toLower == '-') = (c == '-') := by
  by_cases h : c.isUpper = true
  · have hlower : c.toLower.isAlpha = true := by simp [Char.isAlpha, h]
    have hne : ∀ d : Char, d.isAlpha = true → (d == '-') = false := by
      intro d hd
      simp only [beq_eq_false_iff_ne, ne_eq]
      rintro rfl
      revert hd
      decide
    rw [hne _ hlower, hne c (by simp [Char.isAlpha, h])]
  · rw [Char.toLower_eq_of_not_isUpper h]

/-- A test that does not tell capitals from small letters holds of both texts or of neither. -/
theorem all_toLower {p : Char → Bool} (hp : ∀ c : Char, p c.toLower = p c) (cs : List Char) :
    (cs.map Char.toLower).all p = cs.all p := by
  rw [List.all_map]
  congr 1
  funext c
  exact hp c

/-- The grammar does not tell letters of the two cases apart. -/
theorem Stage.step_toLower (s : Stage) (sub : List Char) :
    s.step (sub.map Char.toLower) = s.step sub := by
  have hx : (sub.map Char.toLower = ['x'] ∨ sub.map Char.toLower = ['X']) ↔
      (sub = ['x'] ∨ sub = ['X']) := by
    simp only [List.map_eq_singleton_iff]
    constructor
    · rintro (⟨c, rfl, hc⟩ | ⟨c, rfl, hc⟩)
      · rcases toLower_eq_x.mp hc with rfl | rfl
        · exact Or.inl rfl
        · exact Or.inr rfl
      · have hupper := Char.isUpper_toLower_eq_false c
        rw [hc] at hupper
        cases hupper
    · rintro (rfl | rfl)
      · exact Or.inl ⟨'x', rfl, rfl⟩
      · exact Or.inl ⟨'X', rfl, rfl⟩
  have hvariant : isVariant (sub.map Char.toLower) = isVariant sub := by
    cases sub with
    | nil => rfl
    | cons c cs =>
        rw [isVariant.eq_def, isVariant.eq_def, all_toLower isAlphanum_toLower]
        simp [isDigit_toLower]
  simp only [step, List.length_map, hx, hvariant, all_toLower Char.isAlpha_toLower_eq_isAlpha,
    all_toLower isAlphanum_toLower, all_toLower isDigit_toLower]

/-- **Lower case keeps a tag well formed.** -/
theorem isWellFormed_toLower (tag : String) :
    isWellFormed (tag.map Char.toLower) = isWellFormed tag := by
  have hlower : (tag.toList.map Char.toLower).map Char.toLower = tag.toList.map Char.toLower := by
    simp
  have hfold : ∀ (parts : List (List Char)) (s : Stage),
      (parts.map (List.map Char.toLower)).foldlM Stage.step s = parts.foldlM Stage.step s := by
    intro parts
    induction parts with
    | nil => exact fun _ => rfl
    | cons sub parts ih =>
        intro s
        simp only [List.map_cons, List.foldlM_cons, Stage.step_toLower, ih]
  have hsplit : splitAll (· == '-') (tag.toList.map Char.toLower) =
      (splitAll (· == '-') tag.toList).map (List.map Char.toLower) :=
    splitAll_map hyphen_toLower tag.toList
  unfold isWellFormed
  simp only [String.toList_map, hlower, hsplit, hfold]

end LanguageTag

end SparqlCompose
