import Mathlib.Data.List.Forall2
import SparqlCompose.Proofs.Outcome
import SparqlCompose.Proofs.Template.OwnName
import SparqlCompose.Proofs.Template.Split

/-!
# What a template writes

A template is written segment by segment, and a name is chosen when its base first comes up.  With
the names that are chosen in the end each segment has a text of its own (`Template.replacement`),
whatever stands before and after it, and the text of the template is these texts put together
(`Template.render_eq_ok`).

For a text that is cut into a template this means that nothing is lost on the way: the template
writes the text as it is, with every placeholder replaced once (`Template.ofText_lossless`).
-/

namespace SparqlCompose.Template

variable {q : Query} {t : PrefixTable} {values : Values} {extra : List Constant}

/-! ### Texts put together from segments -/

/-- The text is put together from pieces, one for each segment. -/
def Writes (R : Segment → String → Prop) (segments : List Segment) (out : String) : Prop :=
  ∃ pieces, List.Forall₂ R segments pieces ∧ out = String.join pieces

section Writes

variable {R : Segment → String → Prop} {segment : Segment} {rest : List Segment} {out : String}

/-- Without segments the text is empty. -/
theorem writes_nil : Writes R [] out ↔ out = "" := by
  simp [Writes, String.join_nil]

/-- The piece of the first segment comes before those of the rest. -/
theorem writes_cons :
    Writes R (segment :: rest) out ↔
      ∃ piece more, R segment piece ∧ Writes R rest more ∧ out = piece ++ more := by
  simp only [Writes, List.forall₂_cons_left_iff]
  constructor
  · intro hparts
    obtain ⟨-, ⟨piece, pieces, hpiece, hrest, rfl⟩, rfl⟩ := hparts
    exact ⟨piece, _, hpiece, ⟨pieces, hrest, rfl⟩, String.join_cons⟩
  · intro hparts
    obtain ⟨piece, -, hpiece, ⟨pieces, hrest, rfl⟩, rfl⟩ := hparts
    exact ⟨piece :: pieces, ⟨piece, pieces, hpiece, hrest, rfl⟩, String.join_cons.symm⟩

/-- A text between placeholders is written as it is. -/
theorem writes_plainSegments (hR : ∀ x y, R (.text x) y ↔ y = x) (t : List Char) :
    Writes R (plainSegments t ++ rest) out ↔
      ∃ more, Writes R rest more ∧ out.toList = t ++ more.toList := by
  have hout : ∀ more : String, out.toList = t ++ more.toList ↔ out = String.ofList t ++ more := by
    intro more
    rw [← String.toList_inj, String.toList_append, String.toList_ofList]
  simp only [hout]
  cases t with
  | nil => simp [plainSegments]
  | cons c t => simp [plainSegments, writes_cons, hR]

/-- Placeholders with texts after them are written as their replacements with these texts. -/
theorem writes_partsSegments (hR : ∀ x y, R (.text x) y ↔ y = x)
    {parts : List (Mark × List Char)} :
    Writes R (partsSegments parts) out ↔ ∃ fills,
      List.Forall₂ (fun p fill => R p.1.segment fill) parts fills ∧ out.toList =
        (List.zipWith (fun p fill => fill.toList ++ p.2) parts fills).flatten := by
  induction parts generalizing out with
  | nil => simp [partsSegments, writes_nil]
  | cons p parts ih =>
      have hsegments : partsSegments (p :: parts) =
          p.1.segment :: (plainSegments p.2 ++ partsSegments parts) := by simp [partsSegments]
      rw [hsegments, writes_cons]
      constructor
      · intro hwritten
        obtain ⟨fill, more, hfill, hmore, rfl⟩ := hwritten
        obtain ⟨last, hlast, hmore⟩ := (writes_plainSegments hR p.2).mp hmore
        obtain ⟨fills, hfills, hlast⟩ := ih.mp hlast
        exact ⟨fill :: fills, .cons hfill hfills, by simp [hmore, hlast]⟩
      · intro hfilled
        obtain ⟨all, hall, hout⟩ := hfilled
        cases hall with
        | @cons _ fill _ fills hfill hfills =>
            have hlast := ih.mpr ⟨fills, hfills, String.toList_ofList⟩
            have hmore := (writes_plainSegments hR p.2).mpr ⟨_, hlast, String.toList_ofList⟩
            refine ⟨fill, _, hfill, hmore, String.toList_inj.mp ?_⟩
            simp [hout]

end Writes

namespace Split

/-- The text that was taken apart, with other texts in place of its placeholders. -/
def filled (s : Split) (fills : List String) : List Char :=
  s.lead ++ (List.zipWith (fun p fill => fill.toList ++ p.2) s.parts fills).flatten

/-- What is put together from the segments of a split is the split text with its placeholders
replaced. -/
theorem writes_segments {R : Segment → String → Prop} (hR : ∀ x y, R (.text x) y ↔ y = x)
    (s : Split) {out : String} :
    Writes R s.segments out ↔ ∃ fills,
      List.Forall₂ (fun p fill => R p.1.segment fill) s.parts fills ∧
        out.toList = s.filled fills := by
  rw [segments, writes_plainSegments hR]
  constructor
  · intro hsplit
    obtain ⟨more, hmore, hout⟩ := hsplit
    obtain ⟨fills, hfills, htext⟩ := (writes_partsSegments hR).mp hmore
    exact ⟨fills, hfills, by rw [hout, htext, filled]⟩
  · intro hfilled
    obtain ⟨fills, hfills, hout⟩ := hfilled
    exact ⟨_, (writes_partsSegments hR).mpr ⟨fills, hfills, String.toList_ofList⟩,
      by rw [hout, String.toList_ofList, filled]⟩

end Split

/-! ### Segments, one by one -/

/-- The text of a segment, when the names of the template's own variables are chosen. -/
def segmentText (q : Query) (t : PrefixTable) (values : Values) (extra : List Constant)
    (names : FreshNames) : Segment → Except QueryError String
  | .text s => .ok s
  | .placeholder name => placeholderText q t values extra name
  | .fresh base => .ok ("?" ++ (freshName q names base).1)

/-- The table of names when some segments have come up one after the other. -/
def chooseFor (q : Query) (names : FreshNames) (segments : List Segment) : FreshNames :=
  choose q names (segments.filterMap Segment.base?)

/-- The names are chosen segment by segment. -/
theorem chooseFor_cons (q : Query) (names : FreshNames) (segment : Segment)
    (rest : List Segment) :
    chooseFor q names (segment :: rest) = chooseFor q (chooseFor q names [segment]) rest := by
  cases segment <;> rfl

/-- One segment is written as it is with the names that are chosen in the end. -/
theorem renderSegments_cons (names : FreshNames) (segment : Segment) (rest : List Segment) :
    renderSegments q t values extra names (segment :: rest) = do
      let part ← segmentText q t values extra (chooseFor q names (segment :: rest)) segment
      let more ← renderSegments q t values extra (chooseFor q names [segment]) rest
      return part ++ more := by
  cases segment with
  | text s => rfl
  | placeholder name => rfl
  | fresh base =>
      have hname : (freshName q (chooseFor q names (.fresh base :: rest)) base).1 =
          (freshName q names base).1 :=
        freshName_choose_cons q names base (rest.filterMap Segment.base?)
      rw [segmentText, hname]
      rfl

/-- The text of a list of segments is that of its segments, put together. -/
theorem renderSegments_eq_ok {names : FreshNames} {segments : List Segment} {out : String} :
    renderSegments q t values extra names segments = .ok out ↔
      Writes (fun segment piece =>
        segmentText q t values extra (chooseFor q names segments) segment = .ok piece)
        segments out := by
  induction segments generalizing names out with
  | nil =>
      rw [writes_nil, renderSegments, Except.ok.injEq]
      exact eq_comm
  | cons segment rest ih =>
      rw [renderSegments_cons, writes_cons]
      simp only [Outcome.bind_eq_ok, Outcome.pure_eq_ok, ih, chooseFor_cons q names segment rest]
      constructor
      · intro hparts
        obtain ⟨piece, hpiece, more, hmore, rfl⟩ := hparts
        exact ⟨piece, more, hpiece, hmore, rfl⟩
      · intro hparts
        obtain ⟨piece, more, hpiece, hmore, rfl⟩ := hparts
        exact ⟨piece, hpiece, more, hmore, rfl⟩

/-- What stands in the text for a segment of the template. -/
def replacement (m : Template) (q : Query) (t : PrefixTable) (values : Values)
    (extra : List Constant) (segment : Segment) : Except QueryError String :=
  segmentText q t values extra (chooseFor q [] m.segments) segment

/-- A text stands for itself. -/
theorem replacement_text (m : Template) (q : Query) (t : PrefixTable) (values : Values)
    (extra : List Constant) (x : String) :
    m.replacement q t values extra (.text x) = .ok x := rfl

/-- A template is written segment by segment. -/
theorem render_eq_ok {m : Template} {out : String} :
    m.render q t values = .ok out ↔ ∃ extra, m.extraConstants q values = .ok extra ∧
      Writes (fun segment piece => m.replacement q t values extra segment = .ok piece)
        m.segments out := by
  rw [render, Outcome.bind_eq_ok]
  simp only [renderSegments_eq_ok, replacement]

/-- A variable of the template's own stands in the text under its name. -/
theorem replacement_fresh (m : Template) (q : Query) (t : PrefixTable) (values : Values)
    (extra : List Constant) (base : String) :
    m.replacement q t values extra (.fresh base) = .ok ("?" ++ m.ownName q base) := rfl

/-! ### Texts with placeholders -/

/-- What the template makes of a split text: every placeholder is replaced once, by a text of its
own in which nothing is replaced again, and the texts between the placeholders stay. -/
structure Replaces (m : Template) (q : Query) (t : PrefixTable) (values : Values) (s : Split)
    (fills : List String) (out : String) : Prop where
  each : ∃ extra, m.extraConstants q values = .ok extra ∧
    List.Forall₂ (fun p fill => m.replacement q t values extra p.1.segment = .ok fill)
      s.parts fills
  text : out.toList = s.filled fills

/-- A text makes the segments of each of its splits. -/
theorem segments_ofText {text : String} {s : Split} (h : s.chars = text.toList) :
    (ofText text).segments = s.segments := by
  rw [ofText, ← h, s.cut_chars]

/-- A text is rendered exactly as its placeholders are replaced. -/
theorem render_ofText_eq_ok {text : String} {s : Split} (h : s.chars = text.toList)
    {out : String} :
    (ofText text).render q t values = .ok out ↔
      ∃ fills, Replaces (ofText text) q t values s fills out := by
  have hparts : ∀ extra,
      Writes (fun segment piece => (ofText text).replacement q t values extra segment = .ok piece)
        (ofText text).segments out ↔ ∃ fills,
        List.Forall₂ (fun p fill =>
          (ofText text).replacement q t values extra p.1.segment = .ok fill) s.parts fills ∧
          out.toList = s.filled fills := by
    intro extra
    rw [segments_ofText h]
    exact s.writes_segments fun x y => by rw [replacement_text, Except.ok.injEq, eq_comm]
  simp only [render_eq_ok, hparts]
  constructor
  · intro hrender
    obtain ⟨extra, hextra, fills, hfills, hout⟩ := hrender
    exact ⟨fills, ⟨extra, hextra, hfills⟩, hout⟩
  · intro hrender
    obtain ⟨fills, ⟨extra, hextra, hfills⟩, hout⟩ := hrender
    exact ⟨extra, hextra, fills, hfills, hout⟩

/-- **Cutting a text and writing it again lose nothing.**  Every text has a split, a list of
placeholders with texts between them in which no placeholder occurs.  Whatever split is taken, the
segments of the template are its placeholders and its texts that are not empty, in this order; and
the template writes the split text with each placeholder replaced once. -/
theorem ofText_lossless (text : String) :
    (∃ s : Split, s.chars = text.toList) ∧
      ∀ s : Split, s.chars = text.toList →
        (ofText text).segments = s.segments ∧
          ∀ (q : Query) (t : PrefixTable) (values : Values) (out : String),
            (ofText text).render q t values = .ok out ↔
              ∃ fills, Replaces (ofText text) q t values s fills out :=
  ⟨exists_split text.toList, fun _ hs =>
    ⟨segments_ofText hs, fun _ _ _ _ => render_ofText_eq_ok hs⟩⟩

/-- Near-misses stay in the text, and a placeholder that a value brings along is not replaced. -/
theorem ofText_lossless_nested :
    let text := "\x7b \x7b\x7b a \x7d\x7d-\x7b\x7b?b\x7d\x7d\x7b\x7b\x7ba\x7d\x7d"
    let values := [("a", .raw "\x7b\x7b?b\x7d\x7d")]
    let out := "\x7b \x7b\x7b?b\x7d\x7d-?b\x7b\x7b\x7b?b\x7d\x7d"
    ∃ s : Split, s.chars = text.toList ∧
      s.segments = [.text "\x7b ", .placeholder "a", .text "-", .fresh "b", .text "\x7b",
        .placeholder "a"] ∧
      (ofText text).render { uri := "urn:q" } .standard values = .ok out ∧
      ∃ fills, Replaces (ofText text) { uri := "urn:q" } .standard values s fills out := by
  intro text values out
  obtain ⟨⟨s, hs⟩, hsplits⟩ := ofText_lossless text
  obtain ⟨hsegments, hrender⟩ := hsplits s hs
  have hout : (ofText text).render { uri := "urn:q" } .standard values = .ok out := by
    decide +kernel
  have hcut : (ofText text).segments = [.text "\x7b ", .placeholder "a", .text "-", .fresh "b",
      .text "\x7b", .placeholder "a"] := by decide +kernel
  exact ⟨s, hs, hsegments.symm.trans hcut, hout, (hrender _ _ _ _).mp hout⟩

end SparqlCompose.Template
