import Mathlib
import SparqlCompose.Proofs.FreshName

/-!
# The search for a free name

A search for a free name looks at one name after the other for as long as the names are taken.  It
knows no more of the names than what a test tells, so it has no bound on the numbers that it tries,
and it keeps the number in a word of 64 bits, which goes from its last value back to zero.  Whether
such a search ends is therefore a question about the names that are taken.

One turn either ends the search or moves it to the next number (`NameSearch.turn_of_free`,
`NameSearch.turn_of_taken`).  So the search comes to the least number that makes a free name, if a
word holds it, and stays there (`NameSearch.run_of_isLeast`).  With finitely many names taken there
is such a number, no further from the start than names are taken: the search ends, and it finds the
name that `uniqueName` answers (`NameSearch.finds_least`).
-/

namespace SparqlCompose

/-- A search for a free name, between two turns. -/
inductive NameSearch where
  /-- The name with a number is looked at next. -/
  | counting (n : UInt64)
  /-- A free name is found. -/
  | ended (name : String)
deriving DecidableEq

namespace NameSearch

/-- The search before its first turn.  A candidate that is free is found at once. -/
def start (isTaken : String → Bool) (candidate : String) : NameSearch :=
  if isTaken candidate then counting (UInt64.ofNat (startNumber candidate)) else ended candidate

/-- One turn of the search.  Nothing but a free name ends it. -/
def turn (isTaken : String → Bool) (stem : List Char) : NameSearch → NameSearch
  | counting n =>
    if isTaken (numbered stem n.toNat) then counting (n + 1) else ended (numbered stem n.toNat)
  | ended name => ended name

/-- The search after a number of turns. -/
def after (isTaken : String → Bool) (candidate : String) (turns : Nat) : NameSearch :=
  (turn isTaken (nameStem candidate))^[turns] (start isTaken candidate)

/-! ### One turn -/

section Turn

variable {isTaken : String → Bool} {stem : List Char} {n : Nat}

/-- A turn that looks at a free name ends the search. -/
theorem turn_of_free (hword : n < 2 ^ 64) (hfree : isTaken (numbered stem n) = false) :
    turn isTaken stem (counting (UInt64.ofNat n)) = ended (numbered stem n) := by
  rw [turn, UInt64.toNat_ofNat_of_lt' hword, hfree]
  rfl

/-- A turn that looks at a taken name leads to the next number. -/
theorem turn_of_taken (hword : n < 2 ^ 64) (htaken : isTaken (numbered stem n) = true) :
    turn isTaken stem (counting (UInt64.ofNat n)) = counting (UInt64.ofNat (n + 1)) := by
  rw [turn, UInt64.toNat_ofNat_of_lt' hword, if_pos htaken, UInt64.ofNat_add]
  rfl

/-- A search that has ended stays as it is. -/
theorem iterate_turn_ended (isTaken : String → Bool) (stem : List Char) (name : String)
    (turns : Nat) : (turn isTaken stem)^[turns] (ended name) = ended name :=
  Function.iterate_fixed rfl turns

end Turn

/-! ### The whole search -/

section Run

variable {candidate : String} {taken : List String} {stem : List Char} {n k : Nat}

/-- The search ends at the least number that makes a free name, provided that a word holds it. -/
theorem run_of_isLeast (hk : IsLeast (freeNumbers taken stem n) k) (hword : k < 2 ^ 64)
    {turns : Nat} (hturns : k < n + turns) :
    (turn (fun name => decide (name ∈ taken)) stem)^[turns] (counting (UInt64.ofNat n)) =
      ended (numbered stem k) := by
  induction turns generalizing n with
  | zero =>
      have := hk.1.1
      omega
  | succ turns ih =>
      rw [Function.iterate_succ_apply]
      by_cases htaken : numbered stem n ∈ taken
      · obtain ⟨hlt, hnext⟩ := least_free_succ hk htaken
        rw [turn_of_taken (by omega) (decide_eq_true htaken)]
        exact ih hnext (by omega)
      · have heq : k = n := eq_of_least_free hk htaken
        subst heq
        rw [turn_of_free hword (decide_eq_false htaken)]
        exact iterate_turn_ended _ _ _ _

/-- The search finds the name that `uniqueName` answers, provided that a word holds the number of
taken names counted on from the start. -/
theorem after_eq_uniqueName (hsize : startNumber candidate + taken.toFinset.card < 2 ^ 64)
    {turns : Nat} (hturns : taken.toFinset.card < turns) :
    after (fun name => decide (name ∈ taken)) candidate turns =
      ended (uniqueName candidate taken) := by
  unfold after start
  by_cases htaken : candidate ∈ taken
  · obtain ⟨k, hk, hle, heq⟩ := exists_uniqueName_of_mem htaken
    rw [if_pos (decide_eq_true htaken), heq]
    exact run_of_isLeast hk (by omega) (by omega)
  · rw [if_neg (by simpa using htaken), uniqueName_of_not_mem htaken]
    exact iterate_turn_ended _ _ _ _

end Run

/-- The count starts behind the number at the end of a name, or at one where no digits stand there
or where they write a number that a word does not hold. -/
theorem startNumber_eq (name : String) :
    startNumber name =
      if nameDigits name = [] ∨ 2 ^ 64 ≤ Nat.ofDigitChars 10 (nameDigits name) 0 then 1
      else Nat.ofDigitChars 10 (nameDigits name) 0 + 1 := by
  have hstart : startNumber name =
      if nameDigits name = [] then 1
      else if Nat.ofDigitChars 10 (nameDigits name) 0 < 2 ^ 64 then
        Nat.ofDigitChars 10 (nameDigits name) 0 + 1
      else 1 := by
    simp only [startNumber, List.isEmpty_iff]
    rfl
  rw [hstart]
  by_cases hnil : nameDigits name = []
  · rw [if_pos hnil, if_pos (Or.inl hnil)]
  · rw [if_neg hnil]
    by_cases hfits : Nat.ofDigitChars 10 (nameDigits name) 0 < 2 ^ 64
    · rw [if_pos hfits, if_neg (not_or.mpr ⟨hnil, Nat.not_le.mpr hfits⟩)]
    · rw [if_neg hfits, if_pos (Or.inr (Nat.not_lt.mp hfits))]

/-- **The search ends, at the least free number.**  Let finitely many names be taken, so few that a
word holds the number of them counted on from the start.  Then a search that nothing bounds has
ended after one turn more than different names are taken, with the name that `uniqueName` answers.
This is the candidate if it is free; else it is the stem, which is the candidate without the digits
at its end, with the least number from the start on that makes a free name.  The name is not taken,
and it is legal if the candidate is. -/
theorem finds_least (candidate : String) (taken : List String)
    (hsize : startNumber candidate + taken.toFinset.card < 2 ^ 64) :
    NameParts candidate (nameStem candidate) (nameDigits candidate) ∧
      (startNumber candidate =
        if nameDigits candidate = [] ∨ 2 ^ 64 ≤ Nat.ofDigitChars 10 (nameDigits candidate) 0 then 1
        else Nat.ofDigitChars 10 (nameDigits candidate) 0 + 1) ∧
      (∀ turns, taken.toFinset.card < turns →
        after (fun name => decide (name ∈ taken)) candidate turns =
          ended (uniqueName candidate taken)) ∧
      (candidate ∉ taken → uniqueName candidate taken = candidate) ∧
      (candidate ∈ taken → ∃ n,
        IsLeast {m | startNumber candidate ≤ m ∧ numbered (nameStem candidate) m ∉ taken} n ∧
        n ≤ startNumber candidate + taken.toFinset.card ∧
        uniqueName candidate taken = numbered (nameStem candidate) n) ∧
      uniqueName candidate taken ∉ taken ∧
      (isVarName candidate = true → isVarName (uniqueName candidate taken) = true) := by
  refine ⟨nameParts candidate, startNumber_eq candidate, ?ends, uniqueName_of_not_mem, ?counted,
    uniqueName_not_mem candidate taken, ?legal⟩
  case ends =>
    intro turns hturns
    exact after_eq_uniqueName hsize hturns
  case counted =>
    intro htaken
    exact exists_uniqueName_of_mem htaken
  case legal =>
    intro hlegal
    exact isVarName_uniqueName hlegal taken

/-- A candidate whose number has leading zeros, and a set of two names that is written with a
repetition. -/
theorem finds_least_id007 :
    let taken := ["id007", "id8", "id007"]
    startNumber "id007" + taken.toFinset.card < 2 ^ 64 ∧
      NameParts "id007" ['i', 'd'] ['0', '0', '7'] ∧ startNumber "id007" = 8 ∧
      after (fun name => decide (name ∈ taken)) "id007" 3 = ended "id9" ∧
      IsLeast {m | 8 ≤ m ∧ numbered ['i', 'd'] m ∉ taken} 9 ∧ "id9" ∉ taken ∧
      isVarName "id9" = true := by
  intro taken
  have hsize : startNumber "id007" + taken.toFinset.card < 2 ^ 64 := by decide
  obtain ⟨hparts, -, hends, -, hleast, hfresh, hlegal⟩ := finds_least "id007" taken hsize
  obtain ⟨n, hn, -, hname⟩ := hleast (by decide)
  have hnine : n = 9 := numbered_injective ['i', 'd'] (hname.symm.trans (by decide))
  subst hnine
  exact ⟨hsize, hparts, by decide, hends 3 (by decide), hn, hfresh, hlegal (by decide)⟩

end NameSearch

end SparqlCompose
