import Mathlib
import SparqlCompose.Proofs.Built
import SparqlCompose.Proofs.Mention
import SparqlCompose.Proofs.Template.Rendering

/-!
# The prefixes that a text declares

The `PREFIX` lines declare the prefixes of the prefixed names in the text and no others, each once
and in ascending order, and the namespace of a line with the local name behind it is the IRI that
was to be written (`Declares`).  So it is for the text of a query and for the block that a
template puts in place of `prefixes` (`Query.declares_text_and_render`).
-/

namespace SparqlCompose

open Piece

/-- The lines declare the prefixes of the prefixed names, and nothing else. -/
structure Declares (lines : List (String × String)) (pieces : List Piece) : Prop where
  /-- The prefixes ascend, so none is declared twice. -/
  ascending : lines.Pairwise fun a b => a.1 < b.1
  /-- A prefix is declared exactly if a prefixed name has it. -/
  used_iff : ∀ name, (∃ ns, (name, ns) ∈ lines) ↔ ∃ iri rest, .named iri name rest ∈ pieces
  /-- The namespace of a prefix gives the IRI back with the local name behind it. -/
  gives_back : ∀ iri name rest, .named iri name rest ∈ pieces →
    ∃ ns, (name, ns) ∈ lines ∧ ns ++ rest = iri

/-- Only the prefixed names matter for what is to be declared. -/
theorem Declares.congr {lines : List (String × String)} {pieces more : List Piece}
    (h : Declares lines pieces)
    (hsame : ∀ iri name rest, .named iri name rest ∈ pieces ↔ .named iri name rest ∈ more) :
    Declares lines more where
  ascending := h.ascending
  used_iff := by
    intro name
    simp only [h.used_iff, hsame]
  gives_back := by
    intro iri name rest hmem
    exact h.gives_back iri name rest ((hsame iri name rest).mpr hmem)

/-- The lines for some IRIs declare the prefixes of their prefixed names. -/
theorem Piece.Mentions.declares {t : PrefixTable} {pieces : List Piece} {iris : List String}
    (ht : t.Sound) (h : Mentions t pieces iris) :
    Declares (Query.usedPrefixes t iris) pieces where
  ascending := Query.pairwise_usedPrefixes t iris
  used_iff := by
    intro name
    have hnames : (∃ ns, (name, ns) ∈ Query.usedPrefixes t iris) ↔
        ∃ d ∈ Query.usedPrefixes t iris, d.1 = name := by
      simp [Prod.exists]
    rw [hnames, Query.fst_mem_usedPrefixes]
    constructor
    · intro hparts
      obtain ⟨iri, hiri, ns, hused⟩ := hparts
      obtain ⟨rest, hnamed, -⟩ := ht.usedPrefix?_eq_some.mp hused
      exact ⟨iri, rest, (h iri name rest).mpr ⟨hiri, hnamed⟩⟩
    · intro hparts
      obtain ⟨iri, rest, hmem⟩ := hparts
      obtain ⟨hiri, hnamed⟩ := (h iri name rest).mp hmem
      obtain ⟨ns, hsplit⟩ := (PrefixTable.named?_eq_some.mp hnamed).2
      exact ⟨iri, hiri, ns, ht.usedPrefix?_eq_some.mpr
        ⟨rest, hnamed, PrefixTable.append_of_splitIri hsplit⟩⟩
  gives_back := by
    intro iri name rest hmem
    obtain ⟨hiri, hnamed⟩ := (h iri name rest).mp hmem
    obtain ⟨hname, ns, hsplit⟩ := PrefixTable.named?_eq_some.mp hnamed
    have hns := ht.get?_of_compactingPrefix? hname hsplit
    obtain ⟨d, hd, rfl⟩ := Query.exists_mem_usedPrefixes hiri hname hns
    have hvalue : d.2 = ns := Option.some.inj ((Query.mem_usedPrefixes hd).symm.trans hns)
    exact ⟨ns, hvalue ▸ hd, PrefixTable.append_of_splitIri hsplit⟩

/-- The `PREFIX` lines for a valid query and further constants declare the prefixes of its body,
its columns, its order keys and these constants. -/
theorem Query.exists_prefixText {q : Query} {t : PrefixTable} (h : q.validate = .ok ())
    (ht : t.Sound) (extra : List Constant) {more : List Piece}
    (hmore : Mentions t more (extra.flatMap constantIris)) :
    ∃ lines, q.prefixText t extra = .ok (String.join (lines.map prefixLine)) ∧
      Declares lines (q.bodyPieces t ++ q.columnsPieces t ++ q.orderPieces t ++ more) := by
  have hmentions := (((mentions_bodyPieces (t := t) h).append (mentions_columnsPieces h)).append
    (mentions_orderPieces h)).append hmore
  refine ⟨_, ?_, hmentions.declares ht⟩
  rw [prefixText, iris_eq_ok h]
  rfl

/-! ### Templates -/

namespace Template

variable {q : Query} {t : PrefixTable} {values : Values}

/-- The pieces of the values of the placeholders. -/
def valuePieces (m : Template) (q : Query) (t : PrefixTable) (values : Values) : List Piece :=
  (m.placeholders.filterMap fun name => values.lookup name).flatMap (·.pieces q t)

/-- What stands in the text for a segment, when the `PREFIX` lines are the given ones. -/
inductive Fills (q : Query) (t : PrefixTable) (values : Values) (lines : List (String × String)) :
    Segment → String → Prop
  | text (s : String) : Fills q t values lines (.text s) s
  | fresh (base name : String) : Fills q t values lines (.fresh base) ("?" ++ name)
  | value {name : String} {v : TemplateValue} (h : values.lookup name = some v) :
      Fills q t values lines (.placeholder name) (textOf (v.pieces q t))
  | lines (h : values.lookup "prefixes" = none) :
      Fills q t values lines (.placeholder "prefixes") (String.join (lines.map Query.prefixLine))
  | body (h : values.lookup "where" = none) :
      Fills q t values lines (.placeholder "where") (textOf (q.bodyPieces t))

/-- The search looks at the constant that the value of a placeholder brings into the text. -/
theorem mentions_pieces {v : TemplateValue} {cs : List Constant}
    (h : valueConstant q v = .ok cs) :
    Mentions t (v.pieces q t) (cs.flatMap Query.constantIris) := by
  cases v with
  | resource r =>
      obtain rfl := Except.ok.inj h
      rw [List.flatMap_singleton]
      exact r.mentions_pieces t
  | literal l =>
      obtain rfl := Except.ok.inj h
      rw [List.flatMap_singleton]
      exact l.mentions_pieces t
  | raw s =>
      obtain rfl := Except.ok.inj h
      exact mentions_plain s
  | var name =>
      obtain ⟨id, hid, hrest⟩ := Outcome.bind_eq_ok.mp h
      obtain ⟨v, hv, hcs⟩ := Outcome.bind_eq_ok.mp hrest
      obtain rfl := Except.ok.inj hcs
      have hhas : q.Has (.var id) := by
        rintro _ ⟨⟩
        exact OrderedMap.lt_size_of_at? (Query.var_eq_ok.mp hv)
      have hslot := Query.mentions_slotPieces (t := t) hhas
      rw [TemplateValue.pieces, hid]
      refine hslot.congr fun iri => ?_
      rw [Query.slotIris, Query.boundAt, Query.var_eq_ok.mp hv, Option.bind_some]
      cases v.bound <;> simp

/-- The search looks at the values of all placeholders. -/
theorem mentions_valuePieces {m : Template} {extra : List Constant}
    (h : m.extraConstants q values = .ok extra) :
    Mentions t (m.valuePieces q t values) (extra.flatMap Query.constantIris) := by
  unfold extraConstants at h
  obtain ⟨groups, hgroups, hextra⟩ := Outcome.bind_eq_ok.mp h
  obtain rfl := Except.ok.inj hextra
  rw [valuePieces]
  have hall := Outcome.mapM_eq_ok.mp hgroups
  clear hgroups hextra h
  generalize m.placeholders.filterMap (fun name => values.lookup name) = given at hall ⊢
  induction hall with
  | nil => exact mentions_nil
  | cons hv _ ih =>
      rw [List.flatMap_cons, List.flatten_cons, List.flatMap_append]
      exact (mentions_pieces hv).append ih

/-- What a segment has in the text. -/
theorem fills_of_segmentText {extra : List Constant} {lines : List (String × String)}
    (hlines : q.prefixText t extra = .ok (String.join (lines.map Query.prefixLine)))
    (hbody : q.bodyText t = .ok (textOf (q.bodyPieces t))) {segment : Segment}
    {names : FreshNames} {part : String}
    (h : segmentText q t values extra names segment = .ok part) :
    Fills q t values lines segment part := by
  cases segment with
  | text s =>
      obtain rfl := Except.ok.inj h
      exact .text s
  | fresh base =>
      obtain rfl := Except.ok.inj h
      exact .fresh base _
  | placeholder name =>
      rw [segmentText, placeholderText] at h
      split at h
      · next v hv =>
          rw [eq_textOf_of_valueText h]
          exact .value hv
      · next hnone =>
          split at h
          · next hname =>
              subst hname
              obtain rfl := Except.ok.inj (hlines.symm.trans h)
              exact .lines hnone
          · split at h
            · next hname =>
                subst hname
                obtain rfl := Except.ok.inj (hbody.symm.trans h)
                exact .body hnone
            · cases h

/-- A template is written segment by segment. -/
theorem exists_fills_of_renderSegments {extra : List Constant} {lines : List (String × String)}
    (hlines : q.prefixText t extra = .ok (String.join (lines.map Query.prefixLine)))
    (hbody : q.bodyText t = .ok (textOf (q.bodyPieces t))) {segments : List Segment}
    {names : FreshNames} {text : String}
    (h : renderSegments q t values extra names segments = .ok text) :
    ∃ parts, text = String.join parts ∧ List.Forall₂ (Fills q t values lines) segments parts := by
  obtain ⟨parts, hparts, htext⟩ := renderSegments_eq_ok.mp h
  exact ⟨parts, htext, hparts.imp fun _ _ hpart => fills_of_segmentText hlines hbody hpart⟩

end Template

/-- **The declared prefixes are those of the text.**  Take a valid query and a table that comes
about by binding prefixes.  The text of the query is `PREFIX` lines and pieces, and the lines
declare the prefixes of the prefixed names among the pieces and no others, each once, in ascending
order and with the namespace that gives the IRI back.  And whenever a template is written, its
segments are replaced one by one; the lines in place of `prefixes` declare in the same way the
prefixes of the body that stands in place of `where`, of the columns and order keys, and of all
values of the placeholders. -/
theorem Query.declares_text_and_render (q : Query) (h : q.validate = .ok ())
    (pairs : List (String × String)) (t : PrefixTable)
    (ht : t = (∅ : PrefixTable).bindAll pairs) :
    (∀ slice, ∃ lines,
      q.text t slice =
        .ok (String.join (lines.map prefixLine) ++ textOf (q.pieces t slice)) ∧
      Declares lines (q.pieces t slice)) ∧
    ∀ (m : Template) (values : Template.Values) (text : String),
      m.render q t values = .ok text → ∃ lines parts,
        text = String.join parts ∧
        List.Forall₂ (Template.Fills q t values lines) m.segments parts ∧
        Declares lines (q.bodyPieces t ++ q.columnsPieces t ++ q.orderPieces t ++
          m.valuePieces q t values) := by
  have hsound : t.Sound := ht ▸ PrefixTable.sound_empty.bindAll pairs
  refine ⟨fun slice => ?_, fun m values text htext => ?_⟩
  · obtain ⟨lines, hlines, hdeclares⟩ := exists_prefixText h hsound [] mentions_nil
    refine ⟨lines, text_eq_textOf h hlines slice, hdeclares.congr ?_⟩
    intro iri name rest
    simp only [pieces, List.mem_append, List.mem_cons, List.not_mem_nil, reduceCtorEq,
      false_or, or_false]
    tauto
  · obtain ⟨extra, hextra, hrender⟩ := Outcome.bind_eq_ok.mp htext
    obtain ⟨lines, hlines, hdeclares⟩ := exists_prefixText h hsound extra
      (Template.mentions_valuePieces hextra)
    obtain ⟨parts, htext, hparts⟩ :=
      Template.exists_fills_of_renderSegments hlines (bodyText_eq_ok h t) hrender
    exact ⟨lines, parts, htext, hparts, hdeclares⟩

/-- Cities with a founding date, and what two endpoints know of them. -/
def datedQuery : Query :=
  ({ uri := "urn:dated" } : Query).afterAll
    [.addVariable { uri := "urn:dated;var=id", name := "id" },
      .addVariable { uri := "urn:dated;var=kind", name := "kind" },
      .addVariable { uri := "urn:dated;var=day", name := "day" },
      .project 0, .project 1,
      .bind 1 (.resource (.iri (Vocabulary.rdfs "Class"))),
      .bind 2 (.literal ⟨"1623-01-01", .typed (Vocabulary.xsd "date")⟩),
      .pushClause (.pattern ⟨.var 0, .resource (.iri Vocabulary.rdfType), .var 1⟩),
      .pushClause (.pattern ⟨.var 0, .resource (.iri "http://purl.org/dc/terms/date"), .var 2⟩),
      .pushClause (.block "urn:e" [.block "urn:f" [.pattern
        ⟨.var 0, .resource (.iri "http://xmlns.com/foaf/0.1/age"),
          .literal ⟨"5", .typed (Vocabulary.xsd "integer")⟩⟩]]),
      .pushOrder ⟨.descending, 2⟩]

/-- The text of the example after its `PREFIX` lines. -/
def datedText : String :=
  "SELECT ?id (rdfs:Class AS ?kind)\nWHERE \x7b\n  ?id a rdfs:Class ;\n" ++
    "    dcterms:date \"1623-01-01\"^^xsd:date .\n  SERVICE <urn:e> \x7b\n" ++
    "    SERVICE <urn:f> \x7b\n      ?id foaf:age 5 .\n    \x7d\n  \x7d\n\x7d\n" ++
    "ORDER BY DESC(\"1623-01-01\"^^xsd:date)\nLIMIT 3\n"

/-- A template that asks whether there is something beside the body. -/
def askTemplate : Template :=
  ⟨[.placeholder "prefixes", .text "ASK \x7b ", .placeholder "thing", .text " a ",
    .fresh "class", .text " .\n", .placeholder "where", .text "\x7d"]⟩

/-- A value for the placeholder of the template. -/
def askValues : Template.Values :=
  [("thing", .resource (.iri "http://www.w3.org/2002/07/owl#Thing"))]

/-- The example names a datatype and a class: their prefixes are declared, and those of a
placeholder's value are too. -/
theorem Query.declares_text_and_render_dated :
    datedQuery.validate = .ok () ∧
    (∃ lines,
      datedQuery.text .standard { limit := some 3 } =
        .ok (String.join (lines.map prefixLine) ++ datedText) ∧
      Declares lines (datedQuery.pieces .standard { limit := some 3 })) ∧
    ∃ text lines parts, askTemplate.render datedQuery .standard askValues = .ok text ∧
      text = String.join parts ∧
      List.Forall₂ (Template.Fills datedQuery .standard askValues lines)
        askTemplate.segments parts ∧
      Declares lines (datedQuery.bodyPieces .standard ++ datedQuery.columnsPieces .standard ++
        datedQuery.orderPieces .standard ++
        askTemplate.valuePieces datedQuery .standard askValues) := by
  have hvalid : datedQuery.validate = .ok () := by decide +kernel
  have hpieces : textOf (datedQuery.pieces .standard { limit := some 3 }) = datedText := by
    decide +kernel
  have hrender : (askTemplate.render datedQuery .standard askValues).isOk = true := by
    decide +kernel
  obtain ⟨htexts, hrenders⟩ :=
    declares_text_and_render datedQuery hvalid PrefixTable.wellKnown .standard rfl
  obtain ⟨lines, hlines, hdeclares⟩ := htexts { limit := some 3 }
  cases htext : askTemplate.render datedQuery .standard askValues with
  | error e =>
      rw [htext] at hrender
      cases hrender
  | ok text =>
      obtain ⟨block, parts, hjoin, hfills, hdeclared⟩ := hrenders _ _ _ htext
      exact ⟨hvalid, ⟨lines, hpieces ▸ hlines, hdeclares⟩, text, block, parts, rfl, hjoin, hfills,
        hdeclared⟩

end SparqlCompose
