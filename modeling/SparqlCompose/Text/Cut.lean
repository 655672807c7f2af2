/-!
# Cutting a text at a character

Prefixed names are cut at their first colon, IRIs at their last `#` or `/`, instance ids at
their last underscore.  Both cuts are defined on lists of characters; the two parts always
join back to the text (`cutFirst_append`, `cutLast_append`).
-/

namespace SparqlCompose

/-- The parts before and after the first character in the class, which is dropped. -/
def cutFirst (p : Char → Bool) : List Char → Option (List Char × List Char)
  | [] => none
  | c :: cs =>
    if p c then some ([], cs) else (cutFirst p cs).map fun (a, b) => (c :: a, b)

/-- The part up to the last character in the class, that character included, and the part
after it. -/
def cutLast (p : Char → Bool) : List Char → Option (List Char × List Char)
  | [] => none
  | c :: cs =>
    match cutLast p cs with
    | some (a, b) => some (c :: a, b)
    | none => if p c then some ([c], cs) else none

/-- The two parts and the character between them, which is in the class, make up the text. -/
theorem cutFirst_append {p : Char → Bool} {cs a b : List Char}
    (h : cutFirst p cs = some (a, b)) : ∃ c, p c ∧ cs = a ++ c :: b := by
  induction cs generalizing a with
  | nil => simp [cutFirst] at h
  | cons c cs ih =>
    rw [cutFirst] at h
    split at h
    · next hc => cases h; exact ⟨c, hc, rfl⟩
    · obtain ⟨⟨a', b'⟩, h', e⟩ := Option.map_eq_some_iff.1 h
      cases e
      obtain ⟨d, hd, e⟩ := ih h'
      exact ⟨d, hd, by rw [e]; rfl⟩

/-- The two parts make up the text. -/
theorem cutLast_append {p : Char → Bool} {cs a b : List Char}
    (h : cutLast p cs = some (a, b)) : cs = a ++ b := by
  induction cs generalizing a with
  | nil => simp [cutLast] at h
  | cons c cs ih =>
    rw [cutLast] at h
    split at h
    · next a' b' h' => cases h; rw [ih h']; rfl
    · split at h
      · cases h; rfl
      · cases h

/-- The rest of a text that starts with `lead`. -/
def dropLead? : List Char → List Char → Option (List Char)
  | [], cs => some cs
  | _ :: _, [] => none
  | d :: ds, c :: cs => if d = c then dropLead? ds cs else none

/-- A text without the given first character, if it has it. -/
def dropFirst (d : Char) (s : String) : String :=
  match s.toList with
  | c :: cs => if c = d then String.ofList cs else s
  | [] => s

/-- Splits a text at every character in the class, which is dropped: `n` such characters give
`n + 1` parts. -/
def splitAll (p : Char → Bool) : List Char → List (List Char)
  | [] => [[]]
  | c :: cs =>
    if p c then [] :: splitAll p cs
    else match splitAll p cs with
      | [] => [[c]]
      | part :: parts => (c :: part) :: parts

/-- The part of a text before the first occurrence of `mark`, or all of it. -/
def beforeMark (mark : List Char) : List Char → List Char
  | [] => []
  | c :: cs =>
    match dropLead? mark (c :: cs) with
    | some _ => []
    | none => c :: beforeMark mark cs

/-- Whether `mark` occurs in the text. -/
def hasMark (mark : List Char) : List Char → Bool
  | [] => mark.isEmpty
  | c :: cs => (dropLead? mark (c :: cs)).isSome || hasMark mark cs

end SparqlCompose
