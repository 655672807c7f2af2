import Mathlib.Data.Finset.Card
import Mathlib.Data.List.Dedup
import Mathlib.Order.Nat
import SparqlCompose.Proofs.Cut
import SparqlCompose.Query.Name

/-!
# Free names

`uniqueName` counts from `startNumber` on until the stem with the number is free.  The numbered
names of a stem differ from one another (`numbered_injective`), so of more numbers than names
are taken one makes a free name: the search ends at the least number whose name is free
(`firstFree_of_isLeast`).  What `uniqueName` answers is said once for a candidate that is free
(`uniqueName_of_not_mem`) and once for one that is taken (`exists_uniqueName_of_mem`).  The answer
is never taken (`uniqueName_not_mem`), and a name that is found for a legal candidate is legal
(`isVarName_uniqueName`), since only decimal digits are exchanged.
-/

namespace SparqlCompose

/-- The decimal digits of a number determine it. -/
theorem toString_injective : Function.Injective (toString : Nat → String) := by
  intro m n h
  have hdigits : Nat.toDigits 10 m = Nat.toDigits 10 n := by
    simpa [Nat.toString_eq_repr, Nat.toList_repr] using congrArg String.toList h
  simpa using congrArg (fun ds => Nat.ofDigitChars 10 ds 0) hdigits

/-- Two numbers of one stem make two names. -/
theorem numbered_injective (stem : List Char) : Function.Injective (numbered stem) := by
  intro m n h
  have hchars : stem ++ (toString m).toList = stem ++ (toString n).toList := by
    simpa [numbered] using congrArg String.toList h
  exact toString_injective (String.toList_inj.mp (List.append_cancel_left hchars))

/-! ### The least free number -/

/-- The numbers from `n` on that make a free name of a stem. -/
def freeNumbers (taken : List String) (stem : List Char) (n : Nat) : Set Nat :=
  {k | n ≤ k ∧ numbered stem k ∉ taken}

/-- Among more numbers than different names are taken, one makes a free name. -/
theorem exists_free_number (taken : List String) (stem : List Char) (n : Nat) :
    ∃ k ∈ freeNumbers taken stem n, k ≤ n + taken.toFinset.card := by
  by_contra hnone
  have hall : ∀ i ∈ Finset.range (taken.toFinset.card + 1), numbered stem (n + i) ∈ taken := by
    intro i hi
    by_contra hfree
    exact hnone ⟨n + i, ⟨by omega, hfree⟩, by simp at hi; omega⟩
  have hsub : (Finset.range (taken.toFinset.card + 1)).image (fun i => numbered stem (n + i)) ⊆
      taken.toFinset := by
    intro name hname
    obtain ⟨i, hi, rfl⟩ := Finset.mem_image.mp hname
    exact List.mem_toFinset.mpr (hall i hi)
  have hinj : Function.Injective fun i => numbered stem (n + i) := by
    intro i j hij
    have := numbered_injective stem hij
    omega
  have hcard := Finset.card_le_card hsub
  rw [Finset.card_image_of_injective _ hinj, Finset.card_range] at hcard
  omega

/-- There is a least number that makes a free name, and to come to it no more numbers are passed
over than names are taken. -/
theorem exists_least_free (taken : List String) (stem : List Char) (n : Nat) :
    ∃ k, IsLeast (freeNumbers taken stem n) k ∧ k ≤ n + taken.toFinset.card := by
  classical
  obtain ⟨k, hk, hle⟩ := exists_free_number taken stem n
  have hex : ∃ k, k ∈ freeNumbers taken stem n := ⟨k, hk⟩
  exact ⟨Nat.find hex, Nat.isLeast_find hex, Nat.le_trans (Nat.find_min' hex hk) hle⟩

variable {taken : List String} {stem : List Char} {n k : Nat}

/-- A number with a free name is itself the least one from it on. -/
theorem eq_of_least_free (hk : IsLeast (freeNumbers taken stem n) k)
    (hfree : numbered stem n ∉ taken) : k = n :=
  Nat.le_antisymm (hk.2 ⟨Nat.le_refl n, hfree⟩) hk.1.1

/-- A number whose name is taken is passed over. -/
theorem least_free_succ (hk : IsLeast (freeNumbers taken stem n) k)
    (htaken : numbered stem n ∈ taken) :
    n < k ∧ IsLeast (freeNumbers taken stem (n + 1)) k := by
  obtain ⟨⟨hle, hfree⟩, hleast⟩ := hk
  have hlt : n < k := by
    refine Nat.lt_of_le_of_ne hle ?_
    rintro rfl
    exact hfree htaken
  refine ⟨hlt, ⟨hlt, hfree⟩, ?_⟩
  intro m hm
  exact hleast ⟨Nat.le_of_succ_le hm.1, hm.2⟩

/-- The search ends at the least number from `n` on that makes a free name, provided that it is
within the search's reach. -/
theorem firstFree_of_isLeast {fuel : Nat} (hk : IsLeast (freeNumbers taken stem n) k)
    (hreach : k ≤ n + fuel) : firstFree taken stem fuel n = numbered stem k := by
  induction fuel generalizing n with
  | zero =>
      have : n = k := Nat.le_antisymm hk.1.1 hreach
      subst this
      rfl
  | succ fuel ih =>
      by_cases htaken : numbered stem n ∈ taken
      · rw [firstFree, if_pos htaken]
        exact ih (least_free_succ hk htaken).2 (by omega)
      · rw [firstFree, if_neg htaken, eq_of_least_free hk htaken]

/-! ### The name that is found -/

/-- A candidate that is free is kept. -/
theorem uniqueName_of_not_mem {candidate : String} (hfree : candidate ∉ taken) :
    uniqueName candidate taken = candidate := by
  rw [uniqueName, if_neg hfree]

/-- For a candidate that is taken the stem with the least number that makes a free name is found. -/
theorem exists_uniqueName_of_mem {candidate : String} (htaken : candidate ∈ taken) :
    ∃ k, IsLeast (freeNumbers taken (nameStem candidate) (startNumber candidate)) k ∧
      k ≤ startNumber candidate + taken.toFinset.card ∧
      uniqueName candidate taken = numbered (nameStem candidate) k := by
  obtain ⟨k, hk, hle⟩ := exists_least_free taken (nameStem candidate) (startNumber candidate)
  have hreach : k ≤ startNumber candidate + taken.length :=
    Nat.le_trans hle (Nat.add_le_add_left taken.toFinset_card_le _)
  refine ⟨k, hk, hle, ?_⟩
  rw [uniqueName, if_pos htaken, firstFree_of_isLeast hk hreach]

/-- The name that is found is the candidate or a numbered name of its stem. -/
theorem uniqueName_cases (candidate : String) (taken : List String) :
    uniqueName candidate taken = candidate ∨
      ∃ k, uniqueName candidate taken = numbered (nameStem candidate) k := by
  by_cases htaken : candidate ∈ taken
  · obtain ⟨k, -, -, heq⟩ := exists_uniqueName_of_mem htaken
    exact Or.inr ⟨k, heq⟩
  · exact Or.inl (uniqueName_of_not_mem htaken)

/-- **A fresh name is fresh.**  The name that is found is never taken. -/
theorem uniqueName_not_mem (candidate : String) (taken : List String) :
    uniqueName candidate taken ∉ taken := by
  by_cases htaken : candidate ∈ taken
  · obtain ⟨k, hk, -, heq⟩ := exists_uniqueName_of_mem htaken
    rw [heq]
    exact hk.1.2
  · rwa [uniqueName_of_not_mem htaken]

/-! ### The parts of a name -/

/-- A name parts into a stem, which ends in no decimal digit, and the decimal digits at its end. -/
structure NameParts (name : String) (stem digits : List Char) : Prop where
  chars : name.toList = stem ++ digits
  isDigit : ∀ c ∈ digits, c.isDigit = true
  stop : ∀ c, stem.getLast? = some c → c.isDigit = false

/-- The stem and the digits of a name are its parts. -/
theorem nameParts (name : String) : NameParts name (nameStem name) (nameDigits name) where
  chars := by
    rw [nameStem, nameDigits, ← List.reverse_append, List.takeWhile_append_dropWhile,
      List.reverse_reverse]
  isDigit := by
    intro c hc
    exact List.all_eq_true.mp List.all_takeWhile c (List.mem_reverse.mp hc)
  stop := by
    intro c hc
    rw [nameStem, List.getLast?_reverse] at hc
    simpa [hc] using List.head?_dropWhile_not Char.isDigit name.toList.reverse

/-- The stem of a name consists of characters of the name. -/
theorem mem_of_mem_nameStem {name : String} {c : Char} (h : c ∈ nameStem name) :
    c ∈ name.toList := by
  rw [(nameParts name).chars]
  exact List.mem_append_left _ h

/-- Only decimal digits are cut off from a name. -/
theorem mem_nameStem {name : String} {c : Char} (h : c ∈ name.toList) (hdigit : c.isDigit = false) :
    c ∈ nameStem name := by
  rw [(nameParts name).chars] at h
  rcases List.mem_append.mp h with hstem | hdigits
  · exact hstem
  · rw [(nameParts name).isDigit c hdigits] at hdigit
    cases hdigit

/-- What holds of the characters of the candidate and of digits holds of those of the name that is
found. -/
theorem forall_mem_uniqueName {P : Char → Prop} (hdigit : ∀ c, c.isDigit = true → P c)
    {candidate : String} (h : ∀ c ∈ candidate.toList, P c) (taken : List String) :
    ∀ c ∈ (uniqueName candidate taken).toList, P c := by
  rcases uniqueName_cases candidate taken with heq | ⟨k, heq⟩
  · rwa [heq]
  · rw [heq, numbered, String.toList_ofList]
    intro c hc
    rcases List.mem_append.mp hc with hc | hc
    · exact h c (mem_of_mem_nameStem hc)
    · exact hdigit c (isDigit_of_mem_toString hc)

/-- A character that is no digit stays in the name that is found. -/
theorem mem_uniqueName {candidate : String} {c : Char} (h : c ∈ candidate.toList)
    (hdigit : c.isDigit = false) (taken : List String) :
    c ∈ (uniqueName candidate taken).toList := by
  rcases uniqueName_cases candidate taken with heq | ⟨k, heq⟩
  · rwa [heq]
  · rw [heq, numbered, String.toList_ofList]
    exact List.mem_append_left _ (mem_nameStem h hdigit)

/-! ### Legal names -/

/-- Every character of a legal name is a name character. -/
theorem isVarName_iff {name : String} :
    isVarName name = true ↔ name.toList ≠ [] ∧ ∀ c ∈ name.toList, isNameChar c = true := by
  unfold isVarName
  split
  · simp_all
  · next h => simp_all

/-- A decimal digit can stand in a name. -/
theorem isNameChar_of_isDigit {c : Char} (h : c.isDigit = true) : isNameChar c = true := by
  simp [isNameChar, isAlphanumeric, Char.isAlphanum, h]

/-- A name that is found for a legal candidate is legal. -/
theorem isVarName_uniqueName {candidate : String} (h : isVarName candidate = true)
    (taken : List String) : isVarName (uniqueName candidate taken) = true := by
  obtain ⟨hne, hchars⟩ := isVarName_iff.mp h
  refine isVarName_iff.mpr
    ⟨?_, forall_mem_uniqueName (fun c => isNameChar_of_isDigit) hchars taken⟩
  rcases uniqueName_cases candidate taken with heq | ⟨k, heq⟩
  · rwa [heq]
  · simp [heq, numbered]

end SparqlCompose
