import Mathlib
import SparqlCompose.Json.Reader
import SparqlCompose.Proofs.Cut

/-!
# JSON text is read back

The compact text of a value is read as the value (`Json.read?_text`), where the text tells all that
the value holds (`Json.Exact`).  A reader that stands at the front of the text of a value stops
right behind it, whatever follows, provided that what follows cannot go on a number (`Json.Ends`).

The fuel of the reader counts the values around a place and the items before it.  Twice the length
of a text is enough, since every value has a character of its own and so has every comma.
-/

namespace SparqlCompose.Json

variable {rest : List Char}

/-! ### Strings -/

/-- The four digits of a control character are read back. -/
theorem hexNumber?_hex4 : ∀ n < 0x20, hexNumber? (hex4 n) = some n := by decide

/-- A character inside a string is written in one of three ways: by a letter behind a backslash,
by four digits, or as itself. -/
theorem escapeChar_cases (c : Char) :
    (∃ e, e ≠ 'u' ∧ simpleEscape? e = some c ∧ escapeChar c = ['\\', e]) ∨
      (c.toNat < 0x20 ∧ escapeChar c = '\\' :: 'u' :: hex4 c.toNat) ∨
      (c ≠ '"' ∧ c ≠ '\\' ∧ 0x20 ≤ c.toNat ∧ escapeChar c = [c]) := by
  unfold escapeChar
  by_cases hquote : c = '"'
  · exact Or.inl ⟨'"', by decide, by rw [hquote]; rfl, if_pos hquote⟩
  rw [if_neg hquote]
  by_cases hslash : c = '\\'
  · exact Or.inl ⟨'\\', by decide, by rw [hslash]; rfl, if_pos hslash⟩
  rw [if_neg hslash]
  by_cases hline : c = '\n'
  · exact Or.inl ⟨'n', by decide, by rw [hline]; rfl, if_pos hline⟩
  rw [if_neg hline]
  by_cases hreturn : c = '\r'
  · exact Or.inl ⟨'r', by decide, by rw [hreturn]; rfl, if_pos hreturn⟩
  rw [if_neg hreturn]
  by_cases htab : c = '\t'
  · exact Or.inl ⟨'t', by decide, by rw [htab]; rfl, if_pos htab⟩
  rw [if_neg htab]
  by_cases hback : c = '\x08'
  · exact Or.inl ⟨'b', by decide, by rw [hback]; rfl, if_pos hback⟩
  rw [if_neg hback]
  by_cases hfeed : c = '\x0c'
  · exact Or.inl ⟨'f', by decide, by rw [hfeed]; rfl, if_pos hfeed⟩
  rw [if_neg hfeed]
  by_cases hcontrol : c.toNat < 0x20
  · exact Or.inr (Or.inl ⟨hcontrol, if_pos hcontrol⟩)
  · exact Or.inr (Or.inr ⟨hquote, hslash, Nat.le_of_not_lt hcontrol, if_neg hcontrol⟩)

/-- A character inside a string is read back, escaped or not. -/
theorem stringTail_escapeChar (c : Char) (acc cs : List Char) :
    stringTail (some acc) (escapeChar c ++ cs) = stringTail (some (c :: acc)) cs := by
  rcases escapeChar_cases c with ⟨e, hletter, hsimple, heq⟩ | ⟨hcontrol, heq⟩ |
    ⟨hquote, hslash, hprinted, heq⟩
  · rw [heq, List.cons_append, List.cons_append, List.nil_append, stringTail, hsimple]
    · rfl
    · intro a b d f cs' he
      exact absurd he hletter
  · have hunit := hexNumber?_hex4 c.toNat hcontrol
    rw [heq]
    simp only [hex4, List.map_cons, List.map_nil] at hunit
    simp only [hex4, List.map_cons, List.map_nil, List.cons_append, List.nil_append]
    rw [stringTail]
    simp only [hexUnit?, hunit]
    rw [if_pos (by omega), Char.ofNat_toNat]
    rfl
  · rw [heq, List.singleton_append, stringTail]
    · rw [if_neg (by rintro (h | h); omega; exact hslash h)]
      rfl
    · exact hquote
    · intro a b d f cs' h
      exact absurd h hslash
    · intro d cs' h
      exact absurd h hslash

/-- A string is read back from behind its opening quote. -/
theorem stringTail_escaped (s : List Char) (acc rest : List Char) :
    stringTail (some acc) (s.flatMap escapeChar ++ '"' :: rest) =
      some (some (String.ofList (acc.reverse ++ s)), rest) := by
  induction s generalizing acc with
  | nil => simp [stringTail]
  | cons c s ih =>
      rw [List.flatMap_cons, List.append_assoc, stringTail_escapeChar, ih]
      simp

/-- A quoted text is its escaped characters between quotation marks. -/
theorem quoted_append (s : String) (rest : List Char) :
    quoted s ++ rest = '"' :: (s.toList.flatMap escapeChar ++ '"' :: rest) := by
  simp [quoted]

/-- A string is read back from behind its opening quote, up to its closing one. -/
theorem stringTail_quoted (s : String) (rest : List Char) :
    stringTail (some []) (s.toList.flatMap escapeChar ++ '"' :: rest) =
      some (some s, rest) := by
  rw [stringTail_escaped, List.reverse_nil, List.nil_append, String.ofList_toList]

/-! ### Numbers -/

/-- What follows a value: nothing, a comma or a closing bracket. -/
def Ends (rest : List Char) : Prop :=
  ∀ c ∈ rest.head?, c = ',' ∨ c = ']' ∨ c = '\x7d'

theorem ends_nil : Ends [] := by simp [Ends]

theorem ends_comma (rest : List Char) : Ends (',' :: rest) := by simp [Ends]

theorem ends_bracket (rest : List Char) : Ends (']' :: rest) := by simp [Ends]

theorem ends_brace (rest : List Char) : Ends ('\x7d' :: rest) := by simp [Ends]

/-- The digits at the front are all digits before the end of a value. -/
theorem digits?_append {ds : List Char} (hne : ds ≠ []) (hds : ∀ c ∈ ds, c.isDigit = true)
    (hrest : Ends rest) : digits? (ds ++ rest) = some (ds, rest) := by
  have hhead : ∀ c ∈ rest.head?, c.isDigit = false := by
    intro c hc
    rcases hrest c hc with rfl | rfl | rfl <;> rfl
  have hnone : rest.takeWhile Char.isDigit = [] ∧ rest.dropWhile Char.isDigit = rest := by
    cases rest with
    | nil => simp
    | cons c cs => simp [hhead c rfl]
  have hspan : (ds ++ rest).span Char.isDigit = (ds, rest) := by
    rw [List.span_eq_takeWhile_dropWhile, List.takeWhile_append_of_pos hds,
      List.dropWhile_append_of_pos hds, hnone.1, hnone.2, List.append_nil]
  rw [digits?, hspan]
  cases ds with
  | nil => exact absurd rfl hne
  | cons d ds => rfl

/-- A number that ends has no fraction. -/
theorem fraction?_ends (hrest : Ends rest) : fraction? rest = some (none, rest) := by
  cases rest with
  | nil => rfl
  | cons c cs => rcases hrest c rfl with rfl | rfl | rfl <;> rfl

/-- Nor has it an exponent. -/
theorem exponent?_ends (hrest : Ends rest) : exponent? rest = some (none, rest) := by
  cases rest with
  | nil => rfl
  | cons c cs => rcases hrest c rfl with rfl | rfl | rfl <;> rfl

/-- Only the number zero begins with a zero. -/
theorem eq_zero_of_head?_toDigits {n : Nat} (h : (Nat.toDigits 10 n).head? = some '0') :
    n = 0 := by
  induction n using Nat.strongRecOn with
  | ind n ih =>
      by_cases hdigit : n < 10
      · have honly : ∀ m < 10, Nat.digitChar m = '0' → m = 0 := by decide
        rw [Nat.toDigits_of_lt_base hdigit] at h
        exact honly n hdigit (Option.some.inj h)
      · rw [Nat.toDigits_of_base_le (by decide) (by omega),
          List.head?_append_of_ne_nil _ Nat.toDigits_ne_nil] at h
        have hlead := ih (n / 10) (by omega) h
        omega

/-- Digits without a leading zero are read as the number that they write. -/
theorem unsigned?_digits {ds : List Char} (hne : ds ≠ []) (hds : ∀ c ∈ ds, c.isDigit = true)
    (hlead : ¬(ds.length > 1 ∧ ds.head? = some '0')) (hsmall : decimal ds < wordSize)
    (hrest : Ends rest) : unsigned? (ds ++ rest) = some (.num (decimal ds), rest) := by
  simp [unsigned?, digits?_append hne hds hrest, hlead, fraction?_ends hrest,
    exponent?_ends hrest, hsmall]

/-- A digit is none of the other characters. -/
theorem ne_of_isDigit {c d : Char} (hc : c.isDigit = true) (hd : d.isDigit = false) : c ≠ d := by
  rintro rfl
  rw [hc] at hd
  cases hd

/-- The first character of a whole number is a digit. -/
theorem exists_toString_eq_cons (n : Nat) :
    ∃ c cs, (toString n).toList = c :: cs ∧ c.isDigit = true := by
  obtain ⟨c, cs, hcons⟩ := List.exists_cons_of_ne_nil (toString_toList_ne_nil n)
  exact ⟨c, cs, hcons, isDigit_of_mem_toString (hcons ▸ List.mem_cons_self)⟩

/-- A whole number is read back. -/
theorem number?_toString {n : Nat} (hn : n < wordSize) (hrest : Ends rest) :
    number? ((toString n).toList ++ rest) = some (.num n, rest) := by
  have hlead : ¬((toString n).toList.length > 1 ∧ (toString n).toList.head? = some '0') := by
    intro hparts
    have hrepr : (toString n).toList = Nat.toDigits 10 n := Nat.toList_repr
    obtain ⟨hlong, hzero⟩ := hparts
    rw [hrepr] at hlong hzero
    rw [eq_zero_of_head?_toDigits hzero] at hlong
    exact absurd hlong (by decide)
  have hread := unsigned?_digits (toString_toList_ne_nil n)
    (fun c hc => isDigit_of_mem_toString hc) hlead
    (by rwa [decimal_toString]) hrest
  obtain ⟨c, cs, hcons, hdigit⟩ := exists_toString_eq_cons n
  rw [decimal_toString, hcons] at hread
  rw [hcons, List.cons_append, number?]
  · exact hread
  · intro cs' hminus
    exact ne_of_isDigit hdigit (by decide) (List.cons.inj hminus).1

/-! ### Values -/

mutual

/-- The text of the value tells all that it holds: it has no number and no string that is only
marked. -/
def Exact : Json → Prop
  | .num n => n < wordSize
  | .otherNum => False
  | .unusable => False
  | .arr items => ExactItems items
  | .obj fields => ExactFields fields
  | _ => True

/-- The texts of all items tell all that they hold. -/
def ExactItems : List Json → Prop
  | [] => True
  | v :: vs => Exact v ∧ ExactItems vs

/-- The texts of the values of all fields tell all that they hold. -/
def ExactFields : List (String × Json) → Prop
  | [] => True
  | (_, v) :: fs => Exact v ∧ ExactFields fs

end

/-- Items that are exact make an exact list. -/
theorem exactItems_map {α : Type} {g : α → Json} {l : List α}
    (h : ∀ a ∈ l, (g a).Exact) : ExactItems (l.map g) := by
  induction l with
  | nil => trivial
  | cons a l ih =>
      exact ⟨h a List.mem_cons_self, ih fun b hb => h b (List.mem_cons_of_mem a hb)⟩

/-- Fields that are exact make an exact object. -/
theorem exactFields_map {α : Type} {g : α → Json} {l : List (String × α)}
    (h : ∀ e ∈ l, (g e.2).Exact) : ExactFields (l.map fun e => (e.1, g e.2)) := by
  induction l with
  | nil => trivial
  | cons e l ih =>
      exact ⟨h e List.mem_cons_self, ih fun b hb => h b (List.mem_cons_of_mem e hb)⟩

/-- A digit is no space. -/
theorem isSpace_of_isDigit {c : Char} (h : c.isDigit = true) : isSpace c = false := by
  simp [isSpace, ne_of_isDigit h]

/-- The first character of a value is neither white space nor a closing bracket. -/
theorem exists_chars_eq_cons (v : Json) :
    ∃ c cs, v.chars = c :: cs ∧ isSpace c = false ∧ c ≠ ']' := by
  cases v with
  | null => exact ⟨'n', _, rfl, rfl, by decide⟩
  | bool b => cases b <;> exact ⟨_, _, rfl, rfl, by decide⟩
  | num n =>
      obtain ⟨c, cs, hcons, hdigit⟩ := exists_toString_eq_cons n
      exact ⟨c, cs, hcons, isSpace_of_isDigit hdigit, ne_of_isDigit hdigit (by decide)⟩
  | otherNum => exact ⟨'0', _, rfl, rfl, by decide⟩
  | unusable => exact ⟨'"', _, rfl, rfl, by decide⟩
  | str s => exact ⟨'"', _, rfl, rfl, by decide⟩
  | arr items => exact ⟨'[', _, rfl, rfl, by decide⟩
  | obj fields => exact ⟨'\x7b', _, rfl, rfl, by decide⟩

/-- Where no space stands, none is skipped. -/
theorem skipSpace_cons {c : Char} (h : isSpace c = false) (cs : List Char) :
    skipSpace (c :: cs) = c :: cs := by
  simp [skipSpace, h]

/-- A string takes the reader to behind its closing quote. -/
theorem value?_string (fuel : Nat) (s : String) (rest : List Char) :
    value? (fuel + 1) (quoted s ++ rest) = some (.str s, rest) := by
  rw [quoted_append, value?, skipSpace_cons (by decide)]
  simp [stringTail_quoted, ofString?]

/-- A number takes the reader to behind its digits. -/
theorem value?_number (fuel : Nat) {n : Nat} (hn : n < wordSize) (hrest : Ends rest) :
    value? (fuel + 1) ((toString n).toList ++ rest) = some (.num n, rest) := by
  have hread := number?_toString hn hrest
  obtain ⟨c, cs, hcons, hdigit⟩ := exists_toString_eq_cons n
  rw [hcons, List.cons_append] at hread ⊢
  rw [value?, skipSpace_cons (isSpace_of_isDigit hdigit)]
  simp [ne_of_isDigit hdigit, hread]

/-- Behind an opening bracket the items follow, unless the closing one does. -/
theorem value?_array (fuel : Nat) {c : Char} (cs : List Char) (hspace : isSpace c = false)
    (hbracket : c ≠ ']') :
    value? (fuel + 1) ('[' :: c :: cs) =
      (items? fuel (c :: cs)).map fun (vs, rest) => (.arr vs, rest) := by
  rw [value?, skipSpace_cons (by decide)]
  simp only [skipSpace_cons hspace, if_true]
  rw [if_neg (by decide)]
  split
  · next h => exact absurd (List.cons.inj h).1 hbracket
  · rfl

/-- Behind an opening brace the fields follow, unless the closing one does. -/
theorem value?_object (fuel : Nat) (cs : List Char) :
    value? (fuel + 1) ('\x7b' :: '"' :: cs) =
      (fields? fuel ('"' :: cs)).map fun (fs, rest) => (ofFields? fs, rest) := by
  rw [value?, skipSpace_cons (by decide)]
  simp [skipSpace_cons (c := '"') (by decide)]

/-- Fields whose names can be used make an object. -/
theorem ofFields?_map_some (fields : List (String × Json)) :
    ofFields? (fields.map fun e => (some e.1, e.2)) = .obj fields := by
  have hnames : (fields.map fun e => ((some e.1 : Option String), e.2)).mapM
      (fun e => e.1.map (·, e.2)) = some fields := by
    induction fields with
    | nil => rfl
    | cons e fs ih => simp [List.map_cons, List.mapM_cons, ih]
  rw [ofFields?]
  simp only [hnames]
  rfl

/-- Behind an item comes a comma, and the other items behind that. -/
theorem items?_comma {fuel : Nat} {cs rest : List Char} {v : Json}
    (hread : value? fuel cs = some (v, ',' :: rest)) :
    items? (fuel + 1) cs = (items? fuel rest).map fun (vs, rest) => (v :: vs, rest) := by
  rw [items?, hread]
  simp [skipSpace_cons (c := ',') (by decide)]

/-- Behind the last item comes the closing bracket. -/
theorem items?_bracket {fuel : Nat} {cs rest : List Char} {v : Json}
    (hread : value? fuel cs = some (v, ']' :: rest)) :
    items? (fuel + 1) cs = some ([v], rest) := by
  rw [items?, hread]
  simp [skipSpace_cons (c := ']') (by decide)]

/-- Behind a field comes a comma, and the other fields behind that. -/
theorem fields?_comma {fuel : Nat} {cs rest : List Char} {v : Json} (k : String)
    (hread : value? fuel cs = some (v, ',' :: rest)) :
    fields? (fuel + 1) (quoted k ++ ':' :: cs) =
      (fields? fuel rest).map fun (fs, rest) => ((some k, v) :: fs, rest) := by
  rw [quoted_append, fields?, skipSpace_cons (by decide)]
  simp [stringTail_quoted, skipSpace_cons (c := ':') (by decide), hread,
    skipSpace_cons (c := ',') (by decide)]

/-- Behind the last field comes the closing brace. -/
theorem fields?_brace {fuel : Nat} {cs rest : List Char} {v : Json} (k : String)
    (hread : value? fuel cs = some (v, '\x7d' :: rest)) :
    fields? (fuel + 1) (quoted k ++ ':' :: cs) = some ([(some k, v)], rest) := by
  rw [quoted_append, fields?, skipSpace_cons (by decide)]
  simp [stringTail_quoted, skipSpace_cons (c := ':') (by decide), hread,
    skipSpace_cons (c := '\x7d') (by decide)]

/-- The items of a list begin neither with a space nor with its end. -/
theorem exists_itemChars_eq_cons (v : Json) (vs : List Json) :
    ∃ c cs, itemChars (v :: vs) = c :: cs ∧ isSpace c = false ∧ c ≠ ']' := by
  obtain ⟨c, cs, hcons, hc⟩ := exists_chars_eq_cons v
  cases vs with
  | nil => exact ⟨c, cs, by rw [itemChars, hcons], hc⟩
  | cons w ws => exact ⟨c, cs ++ ',' :: itemChars (w :: ws), by simp [itemChars, hcons], hc⟩

/-- The fields of an object begin with a quotation mark. -/
theorem exists_fieldChars_eq_cons (e : String × Json) (fs : List (String × Json)) :
    ∃ cs, fieldChars (e :: fs) = '"' :: cs := by
  cases fs with
  | nil => exact ⟨_, rfl⟩
  | cons f fs => exact ⟨_, rfl⟩

mutual

/-- A value is read back from the front of a text. -/
theorem value?_chars (fuel : Nat) {rest : List Char} (hrest : Ends rest) :
    ∀ v : Json, v.Exact → 2 * v.chars.length ≤ fuel + 1 →
      value? (fuel + 1) (v.chars ++ rest) = some (v, rest)
  | .null, _, _ => by simp [chars, value?, skipSpace, isSpace, word?]
  | .bool true, _, _ => by simp [chars, value?, skipSpace, isSpace, word?]
  | .bool false, _, _ => by simp [chars, value?, skipSpace, isSpace, word?]
  | .num n, hexact, _ => value?_number fuel hexact hrest
  | .otherNum, hexact, _ => hexact.elim
  | .unusable, hexact, _ => hexact.elim
  | .str s, _, _ => value?_string fuel s rest
  | .arr [], _, _ => by simp [chars, itemChars, value?, skipSpace, isSpace]
  | .arr (v :: vs), hexact, hfuel => by
      simp only [chars, List.length_cons, List.length_append, List.length_nil] at hfuel
      obtain ⟨n, rfl⟩ : ∃ n, fuel = n + 2 := ⟨fuel - 2, by omega⟩
      have hread := items?_itemChars n rest (v :: vs) (by simp) hexact
        (by omega)
      obtain ⟨c, cs, hcons, hspace, hbracket⟩ := exists_itemChars_eq_cons v vs
      rw [hcons, List.cons_append] at hread
      rw [chars, hcons, List.cons_append, List.append_assoc, List.cons_append,
        List.singleton_append, value?_array _ _ hspace hbracket, hread]
      rfl
  | .obj [], _, _ => by simp [chars, fieldChars, value?, skipSpace, isSpace]
  | .obj (e :: fs), hexact, hfuel => by
      simp only [chars, List.length_cons, List.length_append, List.length_nil] at hfuel
      obtain ⟨n, rfl⟩ : ∃ n, fuel = n + 2 := ⟨fuel - 2, by omega⟩
      have hread := fields?_fieldChars n rest (e :: fs) (by simp) hexact
        (by omega)
      obtain ⟨cs, hcons⟩ := exists_fieldChars_eq_cons e fs
      rw [hcons, List.cons_append] at hread
      rw [chars, hcons, List.cons_append, List.append_assoc, List.cons_append,
        List.singleton_append, value?_object, hread]
      simp only [Option.map_some, ofFields?_map_some]

/-- The items of an array are read back up to the closing bracket. -/
theorem items?_itemChars (fuel : Nat) (rest : List Char) :
    ∀ vs : List Json, vs ≠ [] → ExactItems vs → 2 * (itemChars vs).length ≤ fuel + 1 →
      items? (fuel + 2) (itemChars vs ++ ']' :: rest) = some (vs, rest)
  | [], hne, _, _ => absurd rfl hne
  | [v], _, hexact, hfuel => items?_bracket (value?_chars _ (ends_bracket _) v hexact.1 hfuel)
  | v :: w :: vs, _, hexact, hfuel => by
      simp only [itemChars, List.length_cons, List.length_append] at hfuel
      obtain ⟨n, rfl⟩ : ∃ n, fuel = n + 1 := ⟨fuel - 1, by omega⟩
      have hread := items?_itemChars n rest (w :: vs) (by simp) hexact.2
        (by omega)
      have hitem := value?_chars (n + 1) (ends_comma (itemChars (w :: vs) ++ ']' :: rest)) v
        hexact.1 (by omega)
      rw [itemChars, List.append_assoc, List.cons_append, items?_comma hitem, hread]
      · rfl
      · simp

/-- The fields of an object are read back up to the closing brace. -/
theorem fields?_fieldChars (fuel : Nat) (rest : List Char) :
    ∀ fs : List (String × Json), fs ≠ [] → ExactFields fs →
      2 * (fieldChars fs).length ≤ fuel + 1 →
      fields? (fuel + 2) (fieldChars fs ++ '\x7d' :: rest) =
        some (fs.map fun e => (some e.1, e.2), rest)
  | [], hne, _, _ => absurd rfl hne
  | [(k, v)], _, hexact, hfuel => by
      simp only [fieldChars, List.length_cons, List.length_append] at hfuel
      rw [fieldChars, List.append_assoc, List.cons_append,
        fields?_brace k (value?_chars _ (ends_brace _) v hexact.1 (by omega))]
      rfl
  | (k, v) :: f :: fs, _, hexact, hfuel => by
      simp only [fieldChars, List.length_cons, List.length_append] at hfuel
      obtain ⟨n, rfl⟩ : ∃ n, fuel = n + 1 := ⟨fuel - 1, by omega⟩
      have hread := fields?_fieldChars n rest (f :: fs) (by simp) hexact.2
        (by omega)
      have hvalue := value?_chars (n + 1) (ends_comma (fieldChars (f :: fs) ++ '\x7d' :: rest)) v
        hexact.1 (by omega)
      rw [fieldChars, List.append_assoc, List.cons_append, List.append_assoc, List.cons_append,
        fields?_comma k hvalue, hread]
      · rfl
      · simp

end

/-- **A text is read back**: the compact text of a value is read as the value, if it tells all
that the value holds. -/
theorem read?_text {v : Json} (h : v.Exact) : read? v.text = some v := by
  have hread := value?_chars (2 * v.chars.length + 1) ends_nil v h (by omega)
  rw [List.append_nil] at hread
  rw [read?, text, String.toList_ofList]
  simp [hread, skipSpace]

end SparqlCompose.Json
