import Mathlib
import SparqlCompose.Proofs.Body
import SparqlCompose.Proofs.Cut
import SparqlCompose.Proofs.PrefixTable
import SparqlCompose.Proofs.View
import SparqlCompose.Query.Template

/-!
# The prefixed names in a text

In the characters of a query text a prefixed name looks like anything else.  Here the writer
says what it writes: a text comes in pieces, and a piece is either plain or a prefixed name, which
still knows the IRI that it stands for (`Piece`).  The pieces are those of a constant first, then
those of a slot, of a pattern, of the clauses, of the columns and of the order keys, and each time
they join to the text (`Query.bodyText_eq_ok`, `Query.columnsText_eq_ok`,
`Query.orderText_eq_textOf`).
-/

namespace SparqlCompose

/-- A piece of query text. -/
inductive Piece where
  | plain (text : String)
  /-- An IRI that is written as a prefix and a local name. -/
  | named (iri name rest : String)
deriving DecidableEq, Repr

namespace Piece

/-- The characters of a piece. -/
def text : Piece → String
  | .plain s => s
  | .named _ name rest => name ++ ":" ++ rest

/-- The characters of a sequence of pieces. -/
def textOf (pieces : List Piece) : String := String.join (pieces.map text)

@[simp]
theorem textOf_nil : textOf [] = "" := rfl

/-- The text of pieces begins with that of the first. -/
@[simp]
theorem textOf_cons (x : Piece) (pieces : List Piece) :
    textOf (x :: pieces) = x.text ++ textOf pieces := by
  rw [textOf, List.map_cons, String.join_cons]
  rfl

/-- The texts of pieces that follow one another are joined. -/
@[simp]
theorem textOf_append (pieces more : List Piece) :
    textOf (pieces ++ more) = textOf pieces ++ textOf more := by
  induction pieces with
  | nil => simp
  | cons x pieces ih => rw [List.cons_append, textOf_cons, ih, textOf_cons, String.append_assoc]

@[simp]
theorem text_plain (s : String) : (plain s).text = s := rfl

/-- Groups of pieces with a space between them. -/
def spaced (groups : List (List Piece)) : List Piece := [plain " "].intercalate groups

@[simp]
theorem spaced_singleton (g : List Piece) : spaced [g] = g := by simp [spaced, List.intercalate]

/-- A group is followed by a space and the other groups. -/
theorem spaced_cons_cons (g h : List Piece) (groups : List (List Piece)) :
    spaced (g :: h :: groups) = g ++ plain " " :: spaced (h :: groups) := by
  simp [spaced, List.intercalate]

/-- Groups of pieces are written with a space between them. -/
theorem textOf_spaced (groups : List (List Piece)) :
    textOf (spaced groups) = " ".intercalate (groups.map textOf) := by
  induction groups with
  | nil => rfl
  | cons g groups ih =>
      cases groups with
      | nil => simp
      | cons h groups =>
          rw [spaced_cons_cons, textOf_append, textOf_cons, ih, text_plain, List.map_cons,
            List.map_cons, List.map_cons, String.intercalate_cons_cons, String.append_assoc]

end Piece

open Piece

/-! ### Constants -/

namespace PrefixTable

/-- The prefix and the local name that an IRI is written with. -/
def named? (t : PrefixTable) (iri : String) : Option (String × String) := do
  let name ← t.compactingPrefix? iri
  let (_, l) ← splitIri iri
  return (name, l)

/-- A compact IRI is its prefix and its local name with a colon between. -/
theorem compact?_eq (t : PrefixTable) (iri : String) :
    t.compact? iri = (t.named? iri).map fun e => e.1 ++ ":" ++ e.2 := by
  unfold compact? named?
  cases t.compactingPrefix? iri with
  | none => rfl
  | some name => cases splitIri iri <;> rfl

end PrefixTable

/-- The pieces of a resource. -/
def Resource.pieces (t : PrefixTable) : Resource → List Piece
  | .blank label => [.plain ("_:" ++ label)]
  | .iri text =>
    match t.named? text with
    | some (name, rest) => [.named text name rest]
    | none => [.plain ("<" ++ text ++ ">")]

/-- The pieces of a literal. -/
def Literal.pieces (t : PrefixTable) (l : Literal) : List Piece :=
  match l.kind with
  | .simple => [.plain (quoteText l.value)]
  | .tagged tag => [.plain (quoteText l.value ++ "@" ++ tag)]
  | .typed d =>
    if isBareForm d l.value.toList then [.plain l.value]
    else .plain (quoteText l.value ++ "^^") :: (Resource.iri d).pieces t

/-- The pieces of a constant. -/
def Constant.pieces (t : PrefixTable) : Constant → List Piece
  | .resource r => r.pieces t
  | .literal l => l.pieces t

/-- The pieces of a resource join to its text. -/
theorem Resource.textOf_pieces (t : PrefixTable) (r : Resource) :
    textOf (r.pieces t) = r.render t := by
  cases r with
  | blank label => simp [pieces, render]
  | iri text =>
      rw [pieces, render, PrefixTable.compact?_eq]
      cases t.named? text <;> simp [Piece.text]

/-- The pieces of a literal join to its text. -/
theorem Literal.textOf_pieces (t : PrefixTable) (l : Literal) :
    textOf (l.pieces t) = l.render t := by
  rw [pieces, render]
  cases l.kind with
  | simple => simp
  | tagged tag => simp
  | typed d =>
      simp only
      split
      · simp
      · simp [Resource.textOf_pieces]

/-- The pieces of a constant join to its text. -/
theorem Constant.textOf_pieces (t : PrefixTable) (c : Constant) :
    textOf (c.pieces t) = c.render t := by
  cases c with
  | resource r => exact r.textOf_pieces t
  | literal l => exact l.textOf_pieces t

/-! ### Variables -/

namespace Variable

/-- The pieces of a variable in a pattern or an order key. -/
def inlinePieces (t : PrefixTable) (v : Variable) : List Piece :=
  v.bound.elim [.plain v.token] (·.pieces t)

/-- The pieces of a variable in the list of results. -/
def projectedPieces (t : PrefixTable) (v : Variable) : List Piece :=
  v.bound.elim [.plain v.token] fun c =>
    .plain "(" :: c.pieces t ++ [.plain (" AS " ++ v.token ++ ")")]

/-- The pieces of a variable in a pattern join to its name, or to the value that it has. -/
theorem textOf_inlinePieces (t : PrefixTable) (v : Variable) :
    textOf (v.inlinePieces t) = v.inline t := by
  rw [inlinePieces, inline]
  cases v.bound <;> simp [Constant.textOf_pieces]

/-- The pieces of a result column join to its text. -/
theorem textOf_projectedPieces (t : PrefixTable) (v : Variable) :
    textOf (v.projectedPieces t) = v.projected t := by
  rw [projectedPieces, projected]
  cases v.bound <;> simp [Constant.textOf_pieces, String.append_assoc]

end Variable

namespace Query

variable {q : Query} {t : PrefixTable}

/-! ### The body -/

/-- The pieces of a slot. -/
def slotPieces (q : Query) (t : PrefixTable) : Term → List Piece
  | .var id => (q.table.at? id).elim [] (·.inlinePieces t)
  | .resource r => r.pieces t
  | .literal l => l.pieces t

/-- The pieces of a predicate: class membership is written `a`. -/
def verbPieces (q : Query) (t : PrefixTable) (p : Term) : List Piece :=
  if p = .resource (.iri Vocabulary.rdfType) then [.plain "a"] else q.slotPieces t p

/-- The pieces of a pattern that is written in full. -/
def fullPieces (q : Query) (t : PrefixTable) (depth : Nat) (previous : Option Pattern)
    (p : Pattern) : List Piece :=
  .plain (stop previous ++ indent depth) :: q.slotPieces t p.subject ++
    .plain " " :: q.verbPieces t p.predicate ++ .plain " " :: q.slotPieces t p.object

/-- The pieces of a pattern after the pattern before it. -/
def patternPieces (q : Query) (t : PrefixTable) (depth : Nat) (previous : Option Pattern)
    (p : Pattern) : List Piece :=
  match previous with
  | none => q.fullPieces t depth none p
  | some prev =>
    if prev.subject = p.subject then
      if prev.predicate = p.predicate then .plain ", " :: q.slotPieces t p.object
      else
        .plain (" ;\n" ++ indent (depth + 1)) :: q.verbPieces t p.predicate ++
          .plain " " :: q.slotPieces t p.object
    else q.fullPieces t depth (some prev) p

mutual

/-- The pieces of a clause after the pattern before it. -/
def clausePieces (q : Query) (t : PrefixTable) (depth : Nat) (previous : Option Pattern) :
    Clause → List Piece
  | .pattern p => q.patternPieces t depth previous p
  | .service e cs _ =>
    .plain (stop previous ++ indent depth ++ "SERVICE <" ++ e ++ "> \x7b\n") ::
      clausesPieces q t (depth + 1) none cs ++ [.plain (indent depth ++ "\x7d\n")]

/-- The pieces of a list of clauses after the pattern before it. -/
def clausesPieces (q : Query) (t : PrefixTable) (depth : Nat) (previous : Option Pattern) :
    List Clause → List Piece
  | [] => [.plain (stop previous)]
  | c :: cs => clausePieces q t depth previous c ++ clausesPieces q t depth (lastPattern c) cs

end

/-- The pieces of the body. -/
def bodyPieces (q : Query) (t : PrefixTable) : List Piece := q.clausesPieces t 1 none q.clauses

/-- The pieces of a slot join to its text, if its variable is in the table. -/
theorem termText_eq_textOf {x : Term} (hx : q.Has x) :
    q.termText t x = .ok (textOf (q.slotPieces t x)) := by
  cases x with
  | resource r => rw [termText, slotPieces, r.textOf_pieces]
  | literal l => rw [termText, slotPieces, l.textOf_pieces]
  | var id =>
      obtain ⟨v, hv⟩ := OrderedMap.exists_at? (hx id rfl)
      rw [termText, var_eq_ok.mpr hv, slotPieces, hv, Option.elim_some, v.textOf_inlinePieces]
      rfl

/-- So do the pieces of a predicate. -/
theorem predicateText_eq_textOf {x : Term} (hx : q.Has x) :
    q.predicateText t x = .ok (textOf (q.verbPieces t x)) := by
  unfold predicateText verbPieces
  split
  · rfl
  · exact termText_eq_textOf hx

/-- A pattern is written without fail, in full or as a continuation of the one before it. -/
theorem patternText_eq_ok {depth : Nat} {previous : Option Pattern} {p : Pattern}
    (hp : q.Holds p) :
    q.patternText t depth previous p = .ok (textOf (q.patternPieces t depth previous p)) := by
  have hs := termText_eq_textOf (t := t) hp.1
  have hv := predicateText_eq_textOf (t := t) hp.2.1
  have ho := termText_eq_textOf (t := t) hp.2.2
  unfold patternText patternPieces
  simp only [hs, hv, ho, Outcome.ok_bind]
  cases previous with
  | none => simp [fullPieces, String.append_assoc, pure, Except.pure]
  | some prev =>
      simp only
      split
      · split
        · simp [pure, Except.pure]
        · simp [String.append_assoc, pure, Except.pure]
      · simp [fullPieces, String.append_assoc, pure, Except.pure]

mutual

/-- The pieces of a clause join to its text. -/
theorem clauseText_eq_ok (depth : Nat) (previous : Option Pattern) (c : Clause)
    (hc : ∀ p ∈ c.patterns, q.Holds p) :
    q.clauseText t depth previous c = .ok (textOf (q.clausePieces t depth previous c)) := by
  cases c with
  | pattern p =>
      rw [clauseText, clausePieces]
      exact patternText_eq_ok (hc p (by simp [Clause.patterns]))
  | service e cs vs =>
      rw [clauseText, clausePieces, clausesText_eq_ok (depth + 1) none cs
        (by simpa [Clause.patterns] using hc)]
      simp [String.append_assoc, pure, Except.pure]

/-- The pieces of clauses join to their text. -/
theorem clausesText_eq_ok (depth : Nat) (previous : Option Pattern) (cs : List Clause)
    (hcs : ∀ p ∈ Clause.patternsAll cs, q.Holds p) :
    q.clausesText t depth previous cs = .ok (textOf (q.clausesPieces t depth previous cs)) := by
  cases cs with
  | nil => simp [clausesText, clausesPieces]
  | cons c cs =>
      rw [Clause.patternsAll, List.forall_mem_append] at hcs
      rw [clausesText, clausesPieces, clauseText_eq_ok depth previous c hcs.1, Outcome.ok_bind,
        clausesText_eq_ok depth (lastPattern c) cs hcs.2, textOf_append]
      rfl

end

/-- The body of a valid query is written, and its pieces join to it. -/
theorem bodyText_eq_ok (h : q.validate = .ok ()) (t : PrefixTable) :
    q.bodyText t = .ok (textOf (q.bodyPieces t)) :=
  clausesText_eq_ok 1 none q.clauses fun _ hp => holds_of_validate h hp

/-! ### Columns, order keys and the whole text -/

/-- The pieces of a result column. -/
def columnPieces (q : Query) (t : PrefixTable) (id : VarId) : List Piece :=
  (q.table.at? id).elim [] (·.projectedPieces t)

/-- The pieces of the list of results. -/
def columnsPieces (q : Query) (t : PrefixTable) : List Piece :=
  if q.projections.isEmpty then [.plain "*"] else spaced (q.projections.map (q.columnPieces t))

/-- The pieces of an order key. -/
def orderKeyPieces (q : Query) (t : PrefixTable) (k : OrderKey) : List Piece :=
  .plain (k.direction.word ++ "(") :: q.slotPieces t (.var k.variableId) ++ [.plain ")"]

/-- The pieces of the line of the order keys. -/
def orderPieces (q : Query) (t : PrefixTable) : List Piece :=
  if q.order.isEmpty then []
  else .plain "ORDER BY " :: spaced (q.order.map (q.orderKeyPieces t)) ++ [.plain "\n"]

/-- The pieces of a text after its `PREFIX` lines. -/
def pieces (q : Query) (t : PrefixTable) (slice : Slice) : List Piece :=
  .plain "SELECT " :: q.columnsPieces t ++ .plain "\nWHERE \x7b\n" :: q.bodyPieces t ++
    .plain "\x7d\n" :: q.orderPieces t ++
    [.plain (sliceLine "OFFSET" slice.offset ++ sliceLine "LIMIT" slice.limit)]

/-- The columns of a valid query are places of its table. -/
theorem columns_lt_of_validate (h : q.validate = .ok ()) {id : VarId} (hid : id ∈ q.projections) :
    id < q.table.size :=
  (validate_eq_ok.mp h).columns_lt id hid

/-- The order keys of a valid query are places of its table. -/
theorem order_lt_of_validate (h : q.validate = .ok ()) {k : OrderKey} (hk : k ∈ q.order) :
    k.variableId < q.table.size :=
  (validate_eq_ok.mp h).order_lt k hk

/-- The list of results of a valid query is written, and its pieces join to it. -/
theorem columnsText_eq_ok (h : q.validate = .ok ()) (t : PrefixTable) :
    q.columnsText t = .ok (textOf (q.columnsPieces t)) := by
  obtain ⟨vs, hvs, hwords⟩ : ∃ vs, q.projectedVariables = .ok vs ∧
      vs.map (·.projected t) = q.projections.map fun id => textOf (q.columnPieces t id) := by
    have hlt : ∀ id ∈ q.projections, id < q.table.size := fun _ => columns_lt_of_validate h
    rw [projectedVariables]
    generalize q.projections = ids at hlt ⊢
    induction ids with
    | nil => exact ⟨[], rfl, rfl⟩
    | cons id ids ih =>
        rw [List.forall_mem_cons] at hlt
        obtain ⟨v, hv⟩ := OrderedMap.exists_at? hlt.1
        obtain ⟨vs, hvs, hwords⟩ := ih hlt.2
        refine ⟨v :: vs, ?_, ?_⟩
        · rw [List.mapM_cons, var_eq_ok.mpr hv, Outcome.ok_bind, hvs]
          rfl
        · rw [List.map_cons, List.map_cons, hwords, columnPieces, hv, Option.elim_some,
            v.textOf_projectedPieces]
  unfold columnsText columnsPieces
  split
  · rfl
  · rw [hvs, Outcome.ok_bind, hwords, textOf_spaced, List.map_map]
    rfl

/-- The pieces of an order key join to its text. -/
theorem orderKeyText_eq_textOf {k : OrderKey} (hk : k.variableId < q.table.size) :
    q.orderKeyText t k = .ok (textOf (q.orderKeyPieces t k)) := by
  obtain ⟨v, hv⟩ := OrderedMap.exists_at? hk
  rw [orderKeyText, var_eq_ok.mpr hv, Outcome.ok_bind, orderKeyPieces, slotPieces, hv]
  simp [Variable.textOf_inlinePieces, String.append_assoc, pure, Except.pure]

/-- The order keys of a valid query are written, and their pieces join to the line. -/
theorem orderText_eq_textOf (h : q.validate = .ok ()) (t : PrefixTable) :
    q.orderText t = .ok (textOf (q.orderPieces t)) := by
  have hkeys := Outcome.mapM_map (l := q.order) fun k hk =>
    orderKeyText_eq_textOf (t := t) (order_lt_of_validate h hk)
  unfold orderText orderPieces
  rw [hkeys]
  split
  · rfl
  · simp [textOf_spaced, Function.comp_def, String.append_assoc, pure, Except.pure]

/-- **The text of a valid query is its `PREFIX` lines and its pieces.** -/
theorem text_eq_textOf (h : q.validate = .ok ()) {lines : String}
    (hlines : q.prefixText t [] = .ok lines) (slice : Slice) :
    q.text t slice = .ok (lines ++ textOf (q.pieces t slice)) := by
  rw [text, hlines, Outcome.ok_bind, columnsText_eq_ok h, Outcome.ok_bind, bodyText_eq_ok h,
    Outcome.ok_bind, orderText_eq_textOf h, Outcome.ok_bind]
  simp [pieces, String.append_assoc, pure, Except.pure]

end Query

/-! ### What replaces a placeholder -/

/-- The pieces of a value. -/
def TemplateValue.pieces (q : Query) (t : PrefixTable) : TemplateValue → List Piece
  | .resource r => r.pieces t
  | .literal l => l.pieces t
  | .raw s => [.plain s]
  | .var name => (q.resolve name).toOption.elim [] fun id => q.slotPieces t (.var id)

/-- What is written for a value are its pieces. -/
theorem Template.eq_textOf_of_valueText {q : Query} {t : PrefixTable} {v : TemplateValue}
    {text : String} (h : valueText q t v = .ok text) : text = textOf (v.pieces q t) := by
  cases v with
  | resource r => exact (Except.ok.inj h).symm.trans (r.textOf_pieces t).symm
  | literal l => exact (Except.ok.inj h).symm.trans (l.textOf_pieces t).symm
  | raw s =>
      obtain rfl := Except.ok.inj h
      simp [TemplateValue.pieces]
  | var name =>
      obtain ⟨id, hid, hrest⟩ := Outcome.bind_eq_ok.mp h
      obtain ⟨v, hv, htext⟩ := Outcome.bind_eq_ok.mp hrest
      obtain rfl := Except.ok.inj htext
      simp [TemplateValue.pieces, hid, Except.toOption, Query.slotPieces, Query.var_eq_ok.mp hv,
        Variable.textOf_inlinePieces]

end SparqlCompose
