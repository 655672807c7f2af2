import SparqlCompose.Proofs.Sparql.Slot

/-!
# Blocks of triples are read back

A run of patterns is written with abbreviations: a pattern repeats only what differs from the one
before it.  The reader takes the run apart on three levels: objects after commas, verbs after
semicolons, subjects after dots.  One induction on the patterns that are left shows all three
levels at once (`Parser.reads_run`): each pattern is read on the level on which it departs from the
pattern before it.  So a block of triples is read as the statements of its patterns
(`Parser.reads_triplesBlock`).
-/

namespace SparqlCompose.Sparql

/-- The pattern is written in full or after a semicolon, with an IRI for its verb and a number with
a plus sign for its object: the reader takes the sign for an operator of the path. -/
def TriplePattern.Misread (previous : Option TriplePattern) (p : TriplePattern) : Prop :=
  p.object.isPlusLed = true ∧ p.predicate.var? = none ∧
    ∀ prev ∈ previous, ¬ (prev.subject = p.subject ∧ prev.predicate = p.predicate)

/-- The pattern is misread when it is written with values in place.  What is abbreviated depends on
the variables and not on their values. -/
def TriplePattern.MisreadWith (σ : String → Option Constant) (previous : Option TriplePattern)
    (p : TriplePattern) : Prop :=
  (p.object.settled σ).isPlusLed = true ∧ (p.predicate.settled σ).var? = none ∧
    ∀ prev ∈ previous, ¬ (prev.subject = p.subject ∧ prev.predicate = p.predicate)

instance (σ : String → Option Constant) (previous : Option TriplePattern) (p : TriplePattern) :
    Decidable (p.MisreadWith σ previous) := by
  unfold TriplePattern.MisreadWith
  infer_instance

/-- Without values, a pattern that is misread with them is one that is misread. -/
@[simp]
theorem TriplePattern.misreadWith_none {previous : Option TriplePattern} {p : TriplePattern} :
    p.MisreadWith (fun _ => none) previous ↔ p.Misread previous := by
  simp [MisreadWith, Misread]

/-- What the reader has to know for a pattern that is written with values in place. -/
structure KnowsTriple (t : PrefixTable) (s : Scope) (σ : String → Option Constant)
    (p : TriplePattern) : Prop where
  subject : KnowsNode t s (p.subject.settled σ)
  noLiteral : ∀ l, p.subject.settled σ ≠ .literal l
  predicate : KnowsVerb t s σ p.predicate
  object : KnowsNode t s (p.object.settled σ)

/-- The reader can read patterns after the pattern before them. -/
def LegibleRun (t : PrefixTable) (s : Scope) (σ : String → Option Constant) :
    Option TriplePattern → List TriplePattern → Prop
  | _, [] => True
  | previous, p :: ps =>
    KnowsTriple t s σ p ∧ ¬ p.MisreadWith σ previous ∧ LegibleRun t s σ (some p) ps

/-- Patterns after the pattern before them. -/
def runChars (t : PrefixTable) (σ : String → Option Constant) (depth : Nat)
    (previous : TriplePattern) : List TriplePattern → List Char
  | [] => []
  | p :: ps => p.charsAfter t σ depth (some previous) ++ runChars t σ depth p ps

namespace Parser

variable {t : PrefixTable} {s : Scope} {σ : String → Option Constant} {k : NestedTerms}
  {p prev : TriplePattern} {n : Node} {cs rest after : List Char}

/-! ### White space -/

/-- The space before a statement is skipped. -/
@[simp]
theorem strip_indent (depth : Nat) (cs : List Char) :
    strip (indentChars depth ++ cs) = strip cs := by
  have hall : ∀ n : Nat, strip (List.replicate n ' ' ++ cs) = strip cs := by
    intro n
    induction n with
    | zero => rfl
    | succ n ih => rw [List.replicate_succ, List.cons_append, strip_space, ih]
  exact hall (2 * depth)

/-- No white space stands before a predicate. -/
theorem strip_verbChars {m : Node} (h : KnowsVerb t s σ m) (rest : List Char) :
    strip (m.verbChars t σ ++ rest) = m.verbChars t σ ++ rest := by
  unfold Node.verbChars
  split
  · exact strip_cons rfl (by decide)
  · next hne => exact strip_chars (h hne).1

/-- No white space stands before a pattern. -/
theorem strip_pattern (h : KnowsTriple t s σ p) (rest : List Char) :
    strip (p.chars t σ ++ rest) = p.chars t σ ++ rest := by
  rw [TriplePattern.chars, List.append_assoc]
  exact strip_chars h.subject

/-! ### Statements -/

/-- The object that is a slot without nested statements. -/
def plainObject (n : Node) : Described := ⟨n, []⟩

/-- A verb makes one triple of a subject and an object. -/
theorem reads_ofVerb {m : Node} (h : m.IsVerb) (subject object : Node) :
    Reads (ofVerb subject (verbOf m) object) s cs [.triple ⟨subject, m, object⟩] cs := by
  cases m with
  | literal l => exact h.elim
  | var name => exact reads_pure _ _ _
  | resource r =>
      cases r with
      | blank label => exact h.elim
      | iri text => exact reads_pure _ _ _

/-- A loop reads what its steps read. -/
theorem reads_mapM {α β : Type} {f : α → Parser β} {g : α → β} {as : List α}
    (h : ∀ a ∈ as, Reads (f a) s cs (g a) cs) : Reads (as.mapM f) s cs (as.map g) cs := by
  induction as with
  | nil => exact reads_pure _ _ _
  | cons a as ih =>
      rw [List.forall_mem_cons] at h
      rw [List.mapM_cons]
      exact h.1.bind ((ih h.2).bind (reads_pure _ _ _))

/-- The patterns of a subject with its verbs and their objects. -/
def patternsOf (subject : Node) (vs : List (Node × List Node)) : List TriplePattern :=
  vs.flatMap fun v => v.2.map fun object => ⟨subject, v.1, object⟩

@[simp]
theorem patternsOf_nil (subject : Node) : patternsOf subject [] = [] := rfl

/-- The patterns of a verb come before those of the verbs after it. -/
@[simp]
theorem patternsOf_cons (subject : Node) (v : Node × List Node) (vs : List (Node × List Node)) :
    patternsOf subject (v :: vs) =
      (v.2.map fun object => ⟨subject, v.1, object⟩) ++ patternsOf subject vs := rfl

/-- A verb with its objects as the reader answers them. -/
def verbAndObjects (v : Node × List Node) : Verb × List Described :=
  (verbOf v.1, v.2.map plainObject)

/-- The triples of the verbs, one list for each object, make up the patterns. -/
theorem flatten_patternsOf (subject : Node) (vs : List (Node × List Node)) :
    (vs.map fun v => v.2.map fun object =>
      [Statement.triple ⟨subject, v.1, object⟩]).flatten.flatten =
      (patternsOf subject vs).map .triple := by
  induction vs with
  | nil => rfl
  | cons v vs ih =>
      have hfirst : (v.2.map fun object => [Statement.triple ⟨subject, v.1, object⟩]).flatten =
          v.2.map fun object => .triple ⟨subject, v.1, object⟩ := by
        rw [← List.flatMap_def, ← List.map_eq_flatMap]
      rw [List.map_cons, List.flatten_cons, List.flatten_append, ih, hfirst,
        patternsOf_cons, List.map_append, List.map_map]
      rfl

/-- What the reader makes of a subject and its verbs are their patterns. -/
theorem reads_statementsOf {vs : List (Node × List Node)} (h : ∀ v ∈ vs, v.1.IsVerb)
    (subject : Node) :
    Reads (statementsOf subject (vs.map verbAndObjects)) s cs
      ((patternsOf subject vs).map .triple) cs := by
  have hown : Reads ((vs.map verbAndObjects).mapM fun v => v.2.mapM fun o =>
        ofVerb subject v.1 o.node) s cs
      (vs.map fun v => v.2.map fun object => [.triple ⟨subject, v.1, object⟩]) cs := by
    rw [List.mapM_map]
    refine reads_mapM ?_
    intro v hv
    change Reads ((v.2.map plainObject).mapM _) s cs _ cs
    rw [List.mapM_map]
    exact reads_mapM fun object _ => reads_ofVerb (h v hv) subject object
  have hinner :
      (vs.map verbAndObjects).flatMap (fun v => v.2.flatMap Described.statements) = [] := by
    simp only [List.flatMap_map, List.flatMap_eq_nil_iff, verbAndObjects]
    intro v _ object _
    rfl
  unfold statementsOf
  refine hown.bind ?_
  rw [hinner, flatten_patternsOf]
  exact reads_pure _ _ _

/-! ### Runs of patterns -/

/-- After a pattern with the same subject and predicate only the object is written. -/
theorem charsAfter_object {depth : Nat} (hs : prev.subject = p.subject)
    (hm : prev.predicate = p.predicate) :
    p.charsAfter t σ depth (some prev) = ',' :: ' ' :: (p.object.settled σ).chars t := by
  have hmark : ", ".toList = [',', ' '] := by decide
  simp [TriplePattern.charsAfter, hs, hm, hmark]

/-- After one with the same subject the predicate and the object are. -/
theorem charsAfter_verb {depth : Nat} (hs : prev.subject = p.subject)
    (hm : prev.predicate ≠ p.predicate) :
    p.charsAfter t σ depth (some prev) = ' ' :: ';' :: '\n' :: (indentChars (depth + 1) ++
      (p.predicate.verbChars t σ ++ ' ' :: (p.object.settled σ).chars t)) := by
  have hmark : " ;\n".toList = [' ', ';', '\n'] := by decide
  simp [TriplePattern.charsAfter, hs, hm, hmark]

/-- After one with another subject the pattern is written in full. -/
theorem charsAfter_subject {depth : Nat} (hs : prev.subject ≠ p.subject) :
    p.charsAfter t σ depth (some prev) =
      ' ' :: '.' :: '\n' :: (indentChars depth ++ p.chars t σ) := by
  have hmark : " .\n".toList = [' ', '.', '\n'] := by decide
  simp [TriplePattern.charsAfter, hs, hmark]

/-- What follows a pattern in a block. -/
def tailChars (t : PrefixTable) (σ : String → Option Constant) (depth : Nat) (p : TriplePattern)
    (ps : List TriplePattern) (after : List Char) : List Char :=
  runChars t σ depth p ps ++ ' ' :: '.' :: '\n' :: after

/-- No white space stands before a mark of punctuation. -/
theorem strip_mark {c : Char} (hc : c = ';' ∨ c = '.' ∨ c = ',') (cs : List Char) :
    strip (c :: cs) = c :: cs := by
  rcases hc with rfl | rfl | rfl
  all_goals exact strip_cons rfl (by decide)

/-- A space and such a mark end what stands before them. -/
theorem ended_mark {c : Char} (hc : c = ';' ∨ c = '.' ∨ c = ',') (cs : List Char) :
    Ended (' ' :: c :: cs) := by
  refine .of_head (delimited_cons rfl _) (c := c) ?_ ?_
  · rw [strip_space, strip_mark hc, List.head?_cons]
  · rcases hc with rfl | rfl | rfl
    all_goals decide

/-- What follows a pattern ends its object. -/
theorem ended_tailChars (depth : Nat) (prev : TriplePattern) (ps : List TriplePattern)
    (after : List Char) : Ended (tailChars t σ depth prev ps after) := by
  cases ps with
  | nil => exact ended_mark (by simp) _
  | cons p ps =>
      rw [tailChars, runChars]
      by_cases hs : prev.subject = p.subject
      · by_cases hm : prev.predicate = p.predicate
        · rw [charsAfter_object hs hm, List.cons_append, List.cons_append]
          refine .of_head (delimited_cons rfl _) (c := ',') ?_ (by decide)
          rw [strip_mark (by simp), List.head?_cons]
        · rw [charsAfter_verb hs hm]
          exact ended_mark (by simp) _
      · rw [charsAfter_subject hs]
        exact ended_mark (by simp) _

/-- A comma is read up to the next object. -/
theorem reads_comma (h : KnowsNode t s n) :
    Reads comma s (',' :: ' ' :: (n.chars t ++ rest)) () (n.chars t ++ rest) := by
  refine (reads_char ',').bind ?_
  exact reads_space_to (strip_chars h)

/-- An object is read as the node that it is, with the white space behind it. -/
theorem reads_graphNode (h : KnowsNode t s n) (hrest : Ended rest) :
    Reads (spaced (graphNode k)) s (n.chars t ++ rest) (plainObject n) (strip rest) := by
  have hread := reads_varOrTerm h hrest.delimited fun _ _ => hrest
  refine Reads.spaced ?_
  exact Reads.orElse (hread.bind (reads_pure (plainObject n) _ _))

/-- A verb with its objects is read when the objects after the first are. -/
theorem reads_verbObjects (hk : k.paths = true) (hp : KnowsTriple t s σ p)
    (hplus : (p.settled σ).object.isPlusLed = true → (p.settled σ).predicate.var?.isSome)
    {os : List Node} {mid : List Char} (hrest : Ended rest)
    (hos : ReadsAll (do comma; spaced (graphNode k)) s (strip rest) (os.map plainObject) mid) :
    Reads (verbObjects k) s
      (p.predicate.verbChars t σ ++ ' ' :: ((p.settled σ).object.chars t ++ rest))
      (verbAndObjects ((p.settled σ).predicate, (p.settled σ).object :: os)) mid := by
  unfold verbObjects
  refine (reads_verb hk hp.predicate hp.object hplus).bind ?_
  exact (hos.sepBy1 (reads_graphNode hp.object hrest)).bind (reads_pure _ _ _)

/-- How the text after a pattern is taken apart: objects of its verb, more verbs of its subject, and
more subjects. -/
structure TakenApart (k : NestedTerms) (s : Scope) (cs after : List Char)
    (prev : TriplePattern) (ps : List TriplePattern) (os : List Node)
    (vs : List (Node × List Node)) (blocks : List (List TriplePattern))
    (mid₁ mid₂ : List Char) : Prop where
  objects : ReadsAll (do comma; spaced (graphNode k)) s cs (os.map plainObject) mid₁
  verbs : ReadsAll (nextVerb k) s mid₁ (vs.map fun v => some (verbAndObjects v)) mid₂
  subjects : ReadsAll (do separator '.'; spaced (sameSubject k)) s mid₂
    (blocks.map (·.map Statement.triple)) ('.' :: '\n' :: after)
  strip_verbs : strip mid₁ = mid₁
  strip_subjects : strip mid₂ = mid₂
  known : ∀ v ∈ vs, v.1.IsVerb
  patterns : ps = patternsOf prev.subject ((prev.predicate, os) :: vs) ++ blocks.flatten

/-- Where no semicolon stands there is no further verb. -/
theorem refuses_nextVerb (h : cs.head? ≠ some ';') : Refuses (nextVerb k) s cs :=
  Refuses.bind (refuses_char h)

/-- Where no comma stands there is no further object. -/
theorem refuses_commaNode (h : cs.head? ≠ some ',') :
    Refuses (do comma; spaced (graphNode k)) s cs := Refuses.bind (Refuses.bind (refuses_char h))

/-- A separator is read with the white space behind it. -/
theorem reads_separator (c : Char) (cs : List Char) :
    Reads (separator c) s (c :: cs) () (strip cs) := (reads_char c).bind reads_space

/-- The end of a block. -/
theorem takenApart_nil (hafter : Refuses (sameSubject k) s (strip after)) (prev : TriplePattern) :
    TakenApart k s ('.' :: '\n' :: after) after prev [] [] [] [] ('.' :: '\n' :: after)
      ('.' :: '\n' :: after) where
  objects := .nil (refuses_commaNode (by simp))
  verbs := .nil (refuses_nextVerb (by simp))
  subjects := .nil ((reads_separator '.' _).bind_refuses hafter.spaced)
  strip_verbs := strip_mark (by simp) _
  strip_subjects := strip_mark (by simp) _
  known := by simp
  patterns := rfl

section Steps

variable {ps : List TriplePattern} {os : List Node} {vs : List (Node × List Node)}
  {blocks : List (List TriplePattern)} {mid₁ mid₂ : List Char}

/-- A pattern that only adds an object. -/
theorem TakenApart.addObject
    (h : TakenApart k s (strip rest) after (p.settled σ) ps os vs blocks mid₁ mid₂)
    (hp : KnowsTriple t s σ p) (hrest : Ended rest) (hs : prev.subject = p.subject)
    (hm : prev.predicate = p.predicate) :
    TakenApart k s (',' :: ' ' :: ((p.settled σ).object.chars t ++ rest)) after (prev.settled σ)
      (p.settled σ :: ps) ((p.settled σ).object :: os) vs blocks mid₁ mid₂ where
  objects := by
    have hobject : Reads (do comma; spaced (graphNode k)) s
        (',' :: ' ' :: ((p.settled σ).object.chars t ++ rest)) (plainObject (p.settled σ).object)
        (strip rest) := by
      refine (reads_comma hp.object).bind ?_
      exact reads_graphNode hp.object hrest
    refine .cons hobject ?_ h.objects
    have hlength := length_strip rest
    simp
    omega
  verbs := h.verbs
  subjects := h.subjects
  strip_verbs := h.strip_verbs
  strip_subjects := h.strip_subjects
  known := h.known
  patterns := by
    rw [h.patterns]
    simp [TriplePattern.settled, hs, hm]

/-- A pattern that adds a verb. -/
theorem TakenApart.addVerb
    (h : TakenApart k s (strip rest) after (p.settled σ) ps os vs blocks mid₁ mid₂)
    (hk : k.paths = true) (hp : KnowsTriple t s σ p)
    (hplus : (p.settled σ).object.isPlusLed = true → (p.settled σ).predicate.var?.isSome)
    (hrest : Ended rest) (hs : prev.subject = p.subject) {depth : Nat} {cs : List Char}
    (hcs : cs = ';' :: '\n' :: (indentChars depth ++
      (p.predicate.verbChars t σ ++ ' ' :: ((p.settled σ).object.chars t ++ rest)))) :
    TakenApart k s cs after (prev.settled σ) (p.settled σ :: ps) []
      (((p.settled σ).predicate, (p.settled σ).object :: os) :: vs) blocks cs mid₂ := by
  subst hcs
  have hlength := h.objects.length_le.trans (length_strip rest)
  have hverb := reads_verbObjects hk hp hplus hrest h.objects
  have hnext : Reads (nextVerb k) s (';' :: '\n' :: (indentChars depth ++
      (p.predicate.verbChars t σ ++ ' ' :: ((p.settled σ).object.chars t ++ rest))))
      (some (verbAndObjects ((p.settled σ).predicate, (p.settled σ).object :: os))) mid₁ := by
    refine (reads_char ';').bind ?_
    refine reads_space.bind ?_
    rw [strip_newline, strip_indent, strip_verbChars hp.predicate]
    exact (hverb.spaced_to h.strip_verbs).optional
  exact {
    objects := .nil (refuses_commaNode (by simp))
    verbs := .cons hnext (by simp; omega) h.verbs
    subjects := h.subjects
    strip_verbs := strip_mark (by simp) _
    strip_subjects := h.strip_subjects
    known := List.forall_mem_cons.mpr ⟨hp.predicate.isVerb, h.known⟩
    patterns := by
      rw [h.patterns]
      simp [TriplePattern.settled, hs] }

/-- A subject with its verbs and objects is read. -/
theorem TakenApart.reads_sameSubject
    (h : TakenApart k s (strip rest) after (p.settled σ) ps os vs blocks mid₁ mid₂)
    (hk : k.paths = true) (hp : KnowsTriple t s σ p)
    (hplus : (p.settled σ).object.isPlusLed = true → (p.settled σ).predicate.var?.isSome)
    (hrest : Ended rest) :
    Reads (sameSubject k) s (p.chars t σ ++ rest)
      ((patternsOf (p.settled σ).subject
        (((p.settled σ).predicate, (p.settled σ).object :: os) :: vs)).map .triple) mid₂ := by
  have hform : p.chars t σ ++ rest = (p.settled σ).subject.chars t ++ ' ' ::
      (p.predicate.verbChars t σ ++ ' ' :: ((p.settled σ).object.chars t ++ rest)) := by
    simp [TriplePattern.chars, TriplePattern.settled]
  have hsubject : Reads varOrTerm s ((p.settled σ).subject.chars t ++ ' ' ::
      (p.predicate.verbChars t σ ++ ' ' :: ((p.settled σ).object.chars t ++ rest)))
      (p.settled σ).subject
      (' ' :: (p.predicate.verbChars t σ ++ ' ' :: ((p.settled σ).object.chars t ++ rest))) :=
    reads_varOrTerm hp.subject (delimited_cons rfl _)
      fun l habsurd => absurd habsurd (hp.noLiteral l)
  have hverb := reads_verbObjects hk hp hplus hrest h.objects
  have hproperties : Reads (properties k) s
      (p.predicate.verbChars t σ ++ ' ' :: ((p.settled σ).object.chars t ++ rest))
      ((((p.settled σ).predicate, (p.settled σ).object :: os) :: vs).map verbAndObjects) mid₂ := by
    refine hverb.bind (h.verbs.many.bind ?_)
    have hall : (vs.map fun v => some (verbAndObjects v)).filterMap id = vs.map verbAndObjects := by
      simp [List.filterMap_map]
    rw [hall]
    exact reads_pure _ _ _
  have hknown : ∀ v ∈ ((p.settled σ).predicate, (p.settled σ).object :: os) :: vs, v.1.IsVerb :=
    List.forall_mem_cons.mpr ⟨hp.predicate.isVerb, h.known⟩
  have hstatements : Reads (statementsOf (p.settled σ).subject _) s mid₂ _ mid₂ :=
    reads_statementsOf hknown (p.settled σ).subject
  rw [hform]
  refine Reads.orElse ?_
  refine (hsubject.spaced_to ?_).bind (hproperties.bind hstatements)
  rw [strip_space, strip_verbChars hp.predicate]

/-- A pattern that adds a subject. -/
theorem TakenApart.addSubject
    (h : TakenApart k s (strip rest) after (p.settled σ) ps os vs blocks mid₁ mid₂)
    (hk : k.paths = true) (hp : KnowsTriple t s σ p)
    (hplus : (p.settled σ).object.isPlusLed = true → (p.settled σ).predicate.var?.isSome)
    (hrest : Ended rest) {depth : Nat} {cs : List Char}
    (hcs : cs = '.' :: '\n' :: (indentChars depth ++ (p.chars t σ ++ rest))) :
    TakenApart k s cs after (prev.settled σ) (p.settled σ :: ps) [] []
      (patternsOf (p.settled σ).subject
        (((p.settled σ).predicate, (p.settled σ).object :: os) :: vs) :: blocks) cs cs := by
  subst hcs
  have hlength := (h.verbs.length_le.trans h.objects.length_le).trans (length_strip rest)
  have hblock : Reads (do separator '.'; spaced (sameSubject k)) s
      ('.' :: '\n' :: (indentChars depth ++ (p.chars t σ ++ rest)))
      ((patternsOf (p.settled σ).subject
        (((p.settled σ).predicate, (p.settled σ).object :: os) :: vs)).map .triple) mid₂ := by
    refine (reads_separator '.' _).bind ?_
    rw [strip_newline, strip_indent, strip_pattern hp]
    exact (h.reads_sameSubject hk hp hplus hrest).spaced_to h.strip_subjects
  exact {
    objects := .nil (refuses_commaNode (by simp))
    verbs := .nil (refuses_nextVerb (by simp))
    subjects := .cons hblock (by simp; omega) h.subjects
    strip_verbs := strip_mark (by simp) _
    strip_subjects := strip_mark (by simp) _
    known := by simp
    patterns := by
      rw [h.patterns]
      simp [TriplePattern.settled] }

end Steps

/-- A pattern that departs from the one before it in its subject or verb is not misread only if its
object can stand after its verb. -/
theorem plusLed_of_not_misread {previous : Option TriplePattern} (h : ¬ p.MisreadWith σ previous)
    (hprevious : ∀ prev ∈ previous, ¬ (prev.subject = p.subject ∧ prev.predicate = p.predicate)) :
    (p.settled σ).object.isPlusLed = true → (p.settled σ).predicate.var?.isSome := by
  intro hled
  by_contra hnone
  exact h ⟨hled, by simpa [TriplePattern.settled] using hnone, hprevious⟩

/-- **A run of patterns is taken apart on three levels.**  The induction is on the patterns that are
left; each is read on the level on which it departs from the one before it. -/
theorem reads_run (hk : k.paths = true) (hafter : Refuses (sameSubject k) s (strip after))
    (depth : Nat) (ps : List TriplePattern) (prev : TriplePattern)
    (h : LegibleRun t s σ (some prev) ps) :
    ∃ os vs blocks mid₁ mid₂, TakenApart k s (strip (tailChars t σ depth prev ps after)) after
      (prev.settled σ) (ps.map (TriplePattern.settled σ)) os vs blocks mid₁ mid₂ := by
  induction ps generalizing prev with
  | nil =>
      have hstrip : strip (tailChars t σ depth prev [] after) = '.' :: '\n' :: after := by
        rw [tailChars, runChars, List.nil_append, strip_space]
        exact strip_mark (by simp) _
      rw [hstrip]
      exact ⟨_, _, _, _, _, takenApart_nil hafter _⟩
  | cons p ps ih =>
      obtain ⟨hp, hnot, hmore⟩ := h
      obtain ⟨os, vs, blocks, mid₁, mid₂, hrest⟩ := ih p hmore
      have hended := ended_tailChars (t := t) (σ := σ) depth p ps after
      rw [List.map_cons]
      -- another object, another verb with its object, or another subject with both
      by_cases hs : prev.subject = p.subject
      · by_cases hm : prev.predicate = p.predicate
        · have htail : strip (tailChars t σ depth prev (p :: ps) after) =
              ',' :: ' ' :: ((p.settled σ).object.chars t ++ tailChars t σ depth p ps after) := by
            rw [tailChars, runChars, charsAfter_object hs hm, List.append_assoc]
            exact strip_mark (by simp) _
          rw [htail]
          exact ⟨_, _, _, _, _, hrest.addObject hp hended hs hm⟩
        · have htail : strip (tailChars t σ depth prev (p :: ps) after) =
              ';' :: '\n' :: (indentChars (depth + 1) ++ (p.predicate.verbChars t σ ++ ' ' ::
                ((p.settled σ).object.chars t ++ tailChars t σ depth p ps after))) := by
            rw [tailChars, runChars, charsAfter_verb hs hm]
            simp [strip_mark, tailChars, TriplePattern.settled]
          have hplus := plusLed_of_not_misread hnot (by simp [hm])
          exact ⟨_, _, _, _, _, hrest.addVerb hk hp hplus hended hs htail⟩
      · have htail : strip (tailChars t σ depth prev (p :: ps) after) =
            '.' :: '\n' :: (indentChars depth ++
              (p.chars t σ ++ tailChars t σ depth p ps after)) := by
          rw [tailChars, runChars, charsAfter_subject hs]
          simp [strip_mark, tailChars]
        have hplus := plusLed_of_not_misread hnot (by simp [hs])
        exact ⟨_, _, _, _, _, hrest.addSubject hk hp hplus hended htail⟩

/-- **A block of triples is read as the statements of its patterns**, with the values of variables
in place. -/
theorem reads_triplesBlock (hk : k.paths = true) (hafter : Refuses (sameSubject k) s (strip after))
    (depth : Nat) {ps : List TriplePattern} (h : LegibleRun t s σ none (p :: ps)) :
    Reads (triplesBlock k) s (p.chars t σ ++ tailChars t σ depth p ps after)
      (((p :: ps).map (TriplePattern.settled σ)).map .triple) (strip after) := by
  obtain ⟨hp, hnot, hmore⟩ := h
  obtain ⟨os, vs, blocks, mid₁, mid₂, hrest⟩ := reads_run hk hafter depth ps p hmore
  have hplus := plusLed_of_not_misread hnot (by simp)
  have hfirst := hrest.reads_sameSubject hk hp hplus (ended_tailChars depth p ps after)
  have hall := hrest.subjects.sepBy1 (hfirst.spaced_to hrest.strip_subjects)
  have hdot := (reads_separator (s := s) '.' ('\n' :: after)).optional
  have hvalue : (((patternsOf (p.settled σ).subject
      (((p.settled σ).predicate, (p.settled σ).object :: os) :: vs)).map
      Statement.triple) :: blocks.map (·.map Statement.triple)).flatten =
      ((p :: ps).map (TriplePattern.settled σ)).map .triple := by
    rw [List.map_cons, hrest.patterns]
    simp [List.map_flatten, Function.comp_def]
  refine hall.bind (hdot.bind ?_)
  rw [hvalue, strip_newline]
  exact reads_pure _ _ _

end Parser

end SparqlCompose.Sparql
