import Mathlib
import SparqlCompose.Proofs.Cut
import SparqlCompose.Sparql.Parser

/-!
# Laws of readers

A reader *reads* a value from a text when it answers the value with the rest of the text and
declares nothing (`Parser.Reads`); it *refuses* a text when it answers nothing and declares
nothing (`Parser.Refuses`).  The laws here follow the combinators: a sequence reads when its
links read one after the other, an alternative reads as its first side that does not refuse.

A list is read item by item (`Parser.ReadsAll`).  The fuel of `Parser.many` is the length of the
text; it lasts because every item passes a character (`Parser.ReadsAll.many`).
-/

namespace SparqlCompose

/-! ### Scanners -/

namespace Scan

variable {α β : Type} {p q : Scan α} {f : α → Scan β} {cs mid : List Char} {a : α}

/-- A sequence goes on where its first link ended. -/
theorem bind_of_some (h : p cs = some (a, mid)) : (p >>= f) cs = f a mid := by
  change (p cs).bind (fun x => f x.1 x.2) = _
  rw [h]
  rfl

/-- A sequence fails with its first link. -/
theorem bind_of_none (h : p cs = none) : (p >>= f) cs = none := by
  change (p cs).bind (fun x => f x.1 x.2) = _
  rw [h]
  rfl

/-- An alternative takes its first side if that reads. -/
theorem orElse_of_some {x : α × List Char} (h : p cs = some x) : (p <|> q) cs = some x := by
  change (p cs <|> q cs) = _
  rw [h]
  rfl

/-- It takes its second side if the first one fails. -/
theorem orElse_of_none (h : p cs = none) : (p <|> q) cs = q cs := by
  change (p cs <|> q cs) = _
  rw [h]
  rfl

/-- An answer alone reads nothing. -/
theorem pure_apply (a : α) (cs : List Char) : (pure a : Scan α) cs = some (a, cs) := rfl

/-- A character of the class is read. -/
theorem charIf_of_pos {class? : Char → Bool} {c : Char} (h : class? c = true) :
    charIf class? (c :: cs) = some (c, cs) := if_pos h

/-- Any other is refused, and so is the end of the text. -/
theorem charIf_of_neg {class? : Char → Bool} (h : ∀ c, cs.head? = some c → class? c = false) :
    charIf class? cs = none := by
  cases cs with
  | nil => rfl
  | cons c cs => exact if_neg (by simp [h c rfl])

/-- A character is read as itself. -/
theorem char_cons (c : Char) (cs : List Char) : char c (c :: cs) = some ((), cs) := by
  rw [char, bind_of_some (charIf_of_pos (by simp))]
  rfl

/-- A text that begins otherwise is refused. -/
theorem char_of_ne {d : Char} (h : cs.head? ≠ some d) : char d cs = none := by
  rw [char, bind_of_none (charIf_of_neg _)]
  intro c hc
  simp only [beq_eq_false_iff_ne, ne_eq]
  rintro rfl
  exact h hc

/-- A run takes what is in its class, up to a character that is not. -/
theorem run_append {class? : Char → Bool} {inside rest : List Char}
    (hin : ∀ c ∈ inside, class? c = true) (hout : ∀ c, rest.head? = some c → class? c = false) :
    run class? (inside ++ rest) = some (inside, rest) := by
  obtain ⟨htaken, hleft⟩ := run_of_stop hin hout
  rw [run, htaken, hleft]

/-- A run of characters is read up to the first one outside the class. -/
theorem run1_append {class? : Char → Bool} {c : Char} {inside rest : List Char}
    (hc : class? c = true) (hin : ∀ c ∈ inside, class? c = true)
    (hout : ∀ c, rest.head? = some c → class? c = false) :
    run1 class? (c :: inside ++ rest) = some (c :: inside, rest) := by
  rw [run1, List.cons_append, bind_of_some (charIf_of_pos hc), bind_of_some (run_append hin hout)]
  rfl

/-- An empty run is refused. -/
theorem run1_of_neg {class? : Char → Bool} (h : ∀ c, cs.head? = some c → class? c = false) :
    run1 class? cs = none := by
  rw [run1, bind_of_none (charIf_of_neg h)]

/-- A text is read at the front of another. -/
theorem lead_append (text : String) (rest : List Char) :
    lead text (text.toList ++ rest) = some ((), rest) := by
  have hdrop := dropLead?_eq_some_iff.mpr (rfl : text.toList ++ rest = text.toList ++ rest)
  rw [lead, hdrop]
  rfl

/-- A text is refused where its first character does not stand. -/
theorem lead_of_head {text : String} {c : Char} (hc : text.toList.head? = some c)
    (h : cs.head? ≠ some c) : lead text cs = none := by
  have hdrop : dropLead? text.toList cs = none := by
    cases htext : text.toList with
    | nil => simp [htext] at hc
    | cons d ds =>
        rw [htext] at hc
        obtain rfl := Option.some.inj hc
        cases cs with
        | nil => rfl
        | cons e es =>
            rw [dropLead?, if_neg]
            rintro rfl
            exact h rfl
  rw [lead, hdrop]
  rfl

/-- What may be missing is missing where it is refused. -/
theorem optional_of_none (h : p cs = none) : optional p cs = some (none, cs) := by
  rw [optional, orElse_of_none]
  · rfl
  · rw [map_eq_pure_bind, bind_of_none h]

/-- Items are read one by one, each from where the one before it ended. -/
inductive ReadsAll (item : Scan α) : List Char → List α → List Char → Prop
  | nil {cs : List Char} (h : item cs = none) : ReadsAll item cs [] cs
  | cons {cs mid rest : List Char} {a : α} {as : List α} (h : item cs = some (a, mid))
      (hlt : mid.length < cs.length) (hrest : ReadsAll item mid as rest) :
      ReadsAll item cs (a :: as) rest

/-- Fuel for every character lasts for all items. -/
theorem ReadsAll.manyUpTo {item : Scan α} {as : List α} {rest : List Char}
    (h : ReadsAll item cs as rest) {fuel : Nat} (hfuel : cs.length ≤ fuel) :
    manyUpTo item fuel cs = some (as, rest) := by
  induction h generalizing fuel with
  | @nil cs h =>
      cases fuel with
      | zero => rfl
      | succ fuel => rw [Scan.manyUpTo, orElse_of_none (bind_of_none h)]; rfl
  | @cons cs mid rest a as h hlt _ ih =>
      cases fuel with
      | zero => omega
      | succ fuel =>
          rw [Scan.manyUpTo, orElse_of_some]
          rw [bind_of_some h, bind_of_some (ih (by omega))]
          rfl

/-- Items are read one by one, since each takes a character. -/
theorem ReadsAll.items {item : Scan α} {as : List α} {rest : List Char}
    (h : ReadsAll item cs as rest) : items item cs = some (as, rest) :=
  h.manyUpTo le_rfl

end Scan

/-! ### Readers -/

namespace Sparql.Parser

section Laws

variable {α β : Type}

/-- The outcome of a reader: the value with the rest of the text, if there is one, and what has
been declared. -/
def exec (p : Parser α) (cs : List Char) (s : Scope) : Option (α × List Char) × Scope :=
  (p.run cs).run s

/-- The reader answers the value, leaves the rest and declares nothing. -/
def Reads (p : Parser α) (s : Scope) (cs : List Char) (a : α) (rest : List Char) : Prop :=
  p.exec cs s = (some (a, rest), s)

/-- The reader answers nothing and declares nothing. -/
def Refuses (p : Parser α) (s : Scope) (cs : List Char) : Prop := p.exec cs s = (none, s)

variable {p q : Parser α} {f : α → Parser β} {s s' : Scope} {cs mid rest : List Char} {a : α}
  {b : β}

/-- A sequence goes on where its first link ended, with what that declared. -/
theorem exec_bind_of_some (h : p.exec cs s = (some (a, mid), s')) :
    (p >>= f).exec cs s = (f a).exec mid s' := by
  change (OptionT.bind (p.run cs) fun x => (f x.1).run x.2).run s = _
  simp only [exec, OptionT.bind, OptionT.mk, OptionT.run, bind, StateT.bind] at h ⊢
  rw [h]

/-- A sequence answers nothing when its first link does. -/
theorem exec_bind_of_none (h : p.exec cs s = (none, s')) : (p >>= f).exec cs s = (none, s') := by
  change (OptionT.bind (p.run cs) fun x => (f x.1).run x.2).run s = _
  simp only [exec, OptionT.bind, OptionT.mk, OptionT.run, bind, StateT.bind] at h ⊢
  rw [h]
  rfl

/-- An alternative takes its first side if that answers. -/
theorem exec_orElse_of_some {x : α × List Char} (h : p.exec cs s = (some x, s')) :
    (p <|> q).exec cs s = (some x, s') := by
  change (OptionT.orElse (p.run cs) fun _ => q.run cs).run s = _
  simp only [exec, OptionT.orElse, OptionT.mk, OptionT.run, bind, StateT.bind] at h ⊢
  rw [h]
  rfl

/-- It takes its second side if the first one answers nothing; what the first one declared stays. -/
theorem exec_orElse_of_none (h : p.exec cs s = (none, s')) :
    (p <|> q).exec cs s = q.exec cs s' := by
  change (OptionT.orElse (p.run cs) fun _ => q.run cs).run s = _
  simp only [exec, OptionT.orElse, OptionT.mk, OptionT.run, bind, StateT.bind] at h ⊢
  rw [h]

/-- A reader reads one value from a text. -/
theorem Reads.unique {a' : α} (h : Reads p s cs a rest) (h' : Reads p s cs a' mid) :
    a = a' ∧ rest = mid := by
  have heq := h.symm.trans h'
  simpa using heq

/-- A sequence reads when its links read one after the other. -/
theorem Reads.bind (h : Reads p s cs a mid) (h' : Reads (f a) s mid b rest) :
    Reads (p >>= f) s cs b rest := (exec_bind_of_some h).trans h'

/-- It refuses where its second link does. -/
theorem Reads.bind_refuses (h : Reads p s cs a mid) (h' : Refuses (f a) s mid) :
    Refuses (p >>= f) s cs := (exec_bind_of_some h).trans h'

/-- It refuses where its first link does. -/
theorem Refuses.bind (h : Refuses p s cs) : Refuses (p >>= f) s cs := exec_bind_of_none h

/-- An alternative reads as its first side. -/
theorem Reads.orElse (h : Reads p s cs a rest) : Reads (p <|> q) s cs a rest :=
  exec_orElse_of_some h

/-- It reads as its second side where the first one refuses. -/
theorem Refuses.orElse_reads (h : Refuses p s cs) (h' : Reads q s cs a rest) :
    Reads (p <|> q) s cs a rest := (exec_orElse_of_none h).trans h'

/-- It refuses where both sides do. -/
theorem Refuses.orElse (h : Refuses p s cs) (h' : Refuses q s cs) : Refuses (p <|> q) s cs :=
  (exec_orElse_of_none h).trans h'

/-- An answer alone reads nothing. -/
theorem reads_pure (a : α) (s : Scope) (cs : List Char) : Reads (pure a) s cs a cs := rfl

/-- A reader that fails refuses every text. -/
theorem refuses_failure (s : Scope) (cs : List Char) : Refuses (failure : Parser α) s cs := rfl

/-- What is made of the value of a reader is read where that is. -/
theorem Reads.map {g : α → β} (h : Reads p s cs a rest) : Reads (g <$> p) s cs (g a) rest := by
  rw [map_eq_pure_bind]
  exact h.bind (reads_pure _ _ _)

/-- It is refused where that is. -/
theorem Refuses.map {g : α → β} (h : Refuses p s cs) : Refuses (g <$> p) s cs := by
  rw [map_eq_pure_bind]
  exact h.bind

/-- A scanner reads as a reader. -/
theorem Reads.lift {p : Scan α} (h : p cs = some (a, rest)) : Reads (liftM p) s cs a rest := by
  change (p cs, s) = _
  rw [h]

/-- It refuses as one. -/
theorem Refuses.lift {p : Scan α} (h : p cs = none) : Refuses (liftM p : Parser α) s cs := by
  change (p cs, s) = _
  rw [h]

/-- A value that is there is read from no text. -/
theorem reads_option {o : Option α} (h : o = some a) : Reads (liftM o) s cs a cs := by
  subst h
  rfl

/-- What has been declared can be asked for. -/
theorem reads_scope : Reads scope s cs s cs := rfl

/-- So can the number of characters that are left. -/
theorem reads_remaining : Reads remaining s cs cs.length cs := rfl

/-- So can the characters themselves. -/
theorem reads_get : Reads get s cs cs cs := rfl

/-- A condition that holds reads nothing. -/
theorem reads_guard {c : Prop} [Decidable c] (h : c) : Reads (guard c) s cs () cs := by
  rw [guard, if_pos h]
  exact reads_pure _ _ _

/-- A condition that does not hold refuses every text. -/
theorem refuses_guard {c : Prop} [Decidable c] (h : ¬ c) : Refuses (guard c) s cs := by
  rw [guard, if_neg h]
  exact refuses_failure _ _

/-- What may be missing is read where it stands. -/
theorem Reads.optional (h : Reads p s cs a rest) : Reads (optional p) s cs (some a) rest :=
  h.map.orElse

/-- It is missing where it is refused. -/
theorem Refuses.optional (h : Refuses p s cs) : Reads (optional p) s cs none cs :=
  h.map.orElse_reads (reads_pure _ _ _)

end Laws

/-! ### Characters and words -/

section Tokens

variable {α : Type} {p : Parser α} {s : Scope} {cs mid rest : List Char} {a : α}

/-- A character is read as itself. -/
theorem reads_char (c : Char) : Reads (char c) s (c :: cs) () cs := .lift (Scan.char_cons c cs)

/-- A text that begins otherwise is refused. -/
theorem refuses_char {c : Char} (h : cs.head? ≠ some c) : Refuses (char c) s cs :=
  .lift (Scan.char_of_ne h)

/-- A text is read at the front of another. -/
theorem reads_lead (text : String) (rest : List Char) :
    Reads (lead text) s (text.toList ++ rest) () rest :=
  .lift (Scan.lead_append text rest)

/-- A text is refused where its first character does not stand. -/
theorem refuses_lead {text : String} {c : Char} (hc : text.toList.head? = some c)
    (h : cs.head? ≠ some c) : Refuses (lead text) s cs := .lift (Scan.lead_of_head hc h)

/-- A text without the white space and comments at its front. -/
def strip (cs : List Char) : List Char := Lexeme.afterSpace false cs

/-- White space and comments are skipped. -/
theorem reads_space : Reads space s cs () (strip cs) := rfl

/-- They are skipped up to a text that is known. -/
theorem reads_space_to (h : strip cs = rest) : Reads space s cs () rest := h ▸ reads_space

@[simp]
theorem strip_nil : strip [] = [] := rfl

@[simp]
theorem strip_space : strip (' ' :: cs) = strip cs := rfl

@[simp]
theorem strip_newline : strip ('\n' :: cs) = strip cs := rfl

theorem strip_cons {c : Char} (hspace : Lexeme.isSpace c = false) (hmark : c ≠ '#') :
    strip (c :: cs) = c :: cs := by
  simp [strip, Lexeme.afterSpace, hspace, hmark]

/-- What is left when white space was skipped begins with none. -/
theorem afterSpace_afterSpace (inComment : Bool) (cs : List Char) :
    Lexeme.afterSpace false (Lexeme.afterSpace inComment cs) = Lexeme.afterSpace inComment cs := by
  induction cs generalizing inComment with
  | nil => rfl
  | cons c cs ih =>
      rw [Lexeme.afterSpace]
      split
      · exact ih _
      · split
        · exact ih _
        · split
          · exact ih _
          · next hspace hmark => simp [Lexeme.afterSpace, hspace, hmark]

/-- Skipping white space twice skips no more than skipping it once. -/
@[simp]
theorem strip_strip : strip (strip cs) = strip cs := afterSpace_afterSpace false cs

/-- Skipping white space makes no text longer. -/
theorem length_afterSpace (inComment : Bool) (cs : List Char) :
    (Lexeme.afterSpace inComment cs).length ≤ cs.length := by
  induction cs generalizing inComment with
  | nil => exact le_rfl
  | cons c cs ih =>
      rw [Lexeme.afterSpace]
      repeat' split
      · exact Nat.le_succ_of_le (ih _)
      · exact Nat.le_succ_of_le (ih _)
      · exact Nat.le_succ_of_le (ih _)
      · exact le_rfl

/-- What is left of a text without the white space at its front is no longer than the text. -/
theorem length_strip (cs : List Char) : (strip cs).length ≤ cs.length := length_afterSpace false cs

/-- After a value the white space behind it is skipped. -/
theorem Reads.spaced (h : Reads p s cs a rest) : Reads (spaced p) s cs a (strip rest) :=
  h.bind (reads_space.bind (reads_pure _ _ _))

/-- An item is read up to what follows the space after it. -/
theorem Reads.spaced_to (h : Reads p s cs a mid) (hmid : strip mid = rest) :
    Reads (Parser.spaced p) s cs a rest := hmid ▸ h.spaced

/-- With white space behind it a value is refused where it is without. -/
theorem Refuses.spaced (h : Refuses p s cs) : Refuses (spaced p) s cs := h.bind

/-- A word that stands at the front in capital letters is read. -/
theorem reads_keyword (w : String) (hw : w.toList.map Char.toUpper = w.toList) :
    Reads (keyword w) s (w.toList ++ rest) () rest := by
  have htake : Scan.take w.length (w.toList ++ rest) = some (w.toList, rest) := by
    have hlength : w.length = w.toList.length := (String.length_toList).symm
    simp [Scan.take, hlength]
  exact (Reads.lift htake).bind (reads_guard (by simpa using hw))

/-- A text that does not begin with a word in letters of any case is refused. -/
theorem refuses_keyword {w : String} (h : (cs.take w.length).map Char.toUpper ≠ w.toList) :
    Refuses (keyword w) s cs := by
  unfold keyword
  by_cases hlength : w.length ≤ cs.length
  · have htake : Scan.take w.length cs = some (cs.take w.length, cs.drop w.length) := by
      simp [Scan.take, hlength]
    exact (Reads.lift htake).bind_refuses (refuses_guard (by simpa using h))
  · exact Refuses.bind (.lift (by simp [Scan.take, hlength]))

/-- A word is refused where its first letter does not stand. -/
theorem refuses_keyword_of_head {w : String} {c : Char} (hw : w.toList.head? = some c)
    (h : ∀ d, cs.head? = some d → d.toUpper ≠ c) : Refuses (keyword w) s cs := by
  refine refuses_keyword ?_
  intro heq
  have hhead : ((cs.take w.length).map Char.toUpper).head? = some c := by rw [heq, hw]
  cases cs with
  | nil => simp at hhead
  | cons d cs =>
      cases hlength : w.length with
      | zero => simp [hlength] at hhead
      | succ n => exact h d rfl (by simpa [hlength] using hhead)

end Tokens

/-! ### Lists -/

section Lists

variable {α : Type} {p item : Parser α} {s : Scope} {cs mid rest : List Char} {a : α}
  {as : List α}

/-- Items are read one by one, each from where the one before it ended, until one is refused. -/
inductive ReadsAll (item : Parser α) (s : Scope) : List Char → List α → List Char → Prop
  | nil {cs : List Char} (h : Refuses item s cs) : ReadsAll item s cs [] cs
  | cons {cs mid rest : List Char} {a : α} {as : List α} (h : Reads item s cs a mid)
      (hlt : mid.length < cs.length) (hrest : ReadsAll item s mid as rest) :
      ReadsAll item s cs (a :: as) rest

/-- Items that are read leave no more than there was. -/
theorem ReadsAll.length_le (h : ReadsAll item s cs as rest) : rest.length ≤ cs.length := by
  induction h with
  | nil _ => exact le_rfl
  | cons _ hlt _ ih => exact ih.trans hlt.le

/-- Fuel for every character lasts for all items. -/
theorem ReadsAll.manyUpTo (h : ReadsAll item s cs as rest) {fuel : Nat}
    (hfuel : cs.length ≤ fuel) : Reads (manyUpTo item fuel) s cs as rest := by
  induction h generalizing fuel with
  | @nil cs h =>
      cases fuel with
      | zero => exact reads_pure _ _ _
      | succ fuel => exact h.bind.orElse_reads (reads_pure _ _ _)
  | @cons cs mid rest a as h hlt _ ih =>
      cases fuel with
      | zero => omega
      | succ fuel =>
          have hmore : Reads (Parser.manyUpTo item fuel) s mid as rest := ih (by omega)
          refine Reads.orElse ?_
          refine h.bind ?_
          exact hmore.bind (reads_pure _ _ _)

/-- Items are read one by one until one is refused. -/
theorem ReadsAll.many (h : ReadsAll item s cs as rest) : Reads (many item) s cs as rest :=
  reads_remaining.bind (h.manyUpTo le_rfl)

/-- One item at least is read where the first one is. -/
theorem ReadsAll.many1 (h : ReadsAll item s mid as rest) (hfirst : Reads item s cs a mid) :
    Reads (many1 item) s cs (a :: as) rest :=
  hfirst.bind (h.many.bind (reads_pure _ _ _))

/-- Items are read with separators between them. -/
theorem ReadsAll.sepBy1 {separator : Parser Unit}
    (h : ReadsAll (do separator; item) s mid as rest) (hfirst : Reads item s cs a mid) :
    Reads (sepBy1 item separator) s cs (a :: as) rest :=
  hfirst.bind (h.many.bind (reads_pure _ _ _))

/-- A single item, after which no separator stands. -/
theorem Reads.sepBy1_single {separator : Parser Unit} (h : Reads item s cs a rest)
    (hstop : Refuses separator s rest) : Reads (sepBy1 item separator) s cs [a] rest :=
  ReadsAll.sepBy1 (.nil hstop.bind) h

/-- They are refused where the first one is. -/
theorem Refuses.sepBy1 {separator : Parser Unit} (h : Refuses item s cs) :
    Refuses (sepBy1 item separator) s cs := h.bind

end Lists

end Sparql.Parser

end SparqlCompose
