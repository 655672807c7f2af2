import Mathlib.Data.List.Basic
import SparqlCompose.Text.Cut
import SparqlCompose.Text.Digits

/-!
# Laws of cutting texts

A cut finds the place that it looks for: a text that was put together around a character is cut
there again, provided that the character does not occur where the cut would find it first
(`cutFirst_of_not_mem`, `cutLast_of_not_mem`).  A text begins with another exactly when that one
can be dropped from its front (`dropLead?_eq_some_iff`).  Decimal digits of a number are read back
as the number (`decimal_toString`).
-/

namespace SparqlCompose

/-- A text without a character of the class is not cut. -/
theorem cutLast_eq_none {p : Char → Bool} {cs : List Char} (h : ∀ c ∈ cs, p c = false) :
    cutLast p cs = none := by
  induction cs with
  | nil => rfl
  | cons c cs ih =>
      have hrest := ih fun d hd => h d (List.mem_cons_of_mem c hd)
      rw [cutLast, hrest]
      simp [h c List.mem_cons_self]

/-- The cut is at a character behind which none of the class stands. -/
theorem cutLast_of_not_mem {p : Char → Bool} {c : Char} (hc : p c = true) (a : List Char)
    {b : List Char} (hb : ∀ d ∈ b, p d = false) :
    cutLast p (a ++ c :: b) = some (a ++ [c], b) := by
  induction a with
  | nil => simp [cutLast, cutLast_eq_none hb, hc]
  | cons d a ih => simp [cutLast, ih]

/-- The cut is at a character before which none of the class stands. -/
theorem cutFirst_of_not_mem {p : Char → Bool} {c : Char} (hc : p c = true) {a : List Char}
    (ha : ∀ d ∈ a, p d = false) (b : List Char) : cutFirst p (a ++ c :: b) = some (a, b) := by
  induction a with
  | nil => simp [cutFirst, hc]
  | cons d a ih =>
      obtain ⟨hd, ha⟩ := List.forall_mem_cons.mp ha
      simp [cutFirst, hd, ih ha]

/-- What is left after a front part is found exactly when the text begins with that part. -/
theorem dropLead?_eq_some_iff {lead cs rest : List Char} :
    dropLead? lead cs = some rest ↔ cs = lead ++ rest := by
  induction lead generalizing cs with
  | nil => simp [dropLead?, eq_comm]
  | cons d ds ih =>
      cases cs with
      | nil => simp [dropLead?]
      | cons c cs =>
          rw [dropLead?, List.cons_append, List.cons.injEq, ← ih]
          by_cases h : d = c
          · simp [h]
          · simp [h, Ne.symm h]

/-- The longest run of a class at the front of a text ends where a character stands that is not of
the class. -/
theorem run_of_stop {p : Char → Bool} {inside rest : List Char} (hin : ∀ c ∈ inside, p c = true)
    (hout : ∀ c, rest.head? = some c → p c = false) :
    (inside ++ rest).takeWhile p = inside ∧ (inside ++ rest).dropWhile p = rest := by
  have hstop : rest.takeWhile p = [] ∧ rest.dropWhile p = rest := by
    cases rest with
    | nil => exact ⟨rfl, rfl⟩
    | cons c rest => simp [hout c rfl]
  rw [List.takeWhile_append_of_pos hin, List.dropWhile_append_of_pos hin, hstop.1, hstop.2,
    List.append_nil]
  exact ⟨rfl, rfl⟩

/-- Digits that write a number are read back as the number. -/
theorem decimal_toString (n : Nat) : decimal (toString n).toList = n := by
  have hdigits : (toString n).toList = Nat.toDigits 10 n := Nat.toList_repr
  have hread : decimal (Nat.toDigits 10 n) = Nat.ofDigitChars 10 (Nat.toDigits 10 n) 0 := rfl
  rw [hdigits, hread]
  simp

/-- A number is written in digits. -/
theorem isDigit_of_mem_toString {n : Nat} {c : Char} (h : c ∈ (toString n).toList) :
    c.isDigit = true := by
  have hdigits : (toString n).toList = Nat.toDigits 10 n := Nat.toList_repr
  rw [hdigits] at h
  exact Nat.isDigit_of_mem_toDigits (by decide) (by decide) h

/-- A number is written with one digit at least. -/
theorem toString_toList_ne_nil (n : Nat) : (toString n).toList ≠ [] := by
  have hdigits : (toString n).toList = Nat.toDigits 10 n := Nat.toList_repr
  rw [hdigits]
  exact Nat.toDigits_ne_nil

end SparqlCompose
