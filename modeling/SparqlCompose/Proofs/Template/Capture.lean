import Mathlib
import SparqlCompose.Proofs.Call
import SparqlCompose.Proofs.Operation
import SparqlCompose.Proofs.Sparql.Name
import SparqlCompose.Proofs.Template.Rendering

/-!
# The variables that a template brings along

A placeholder with a question mark stands for a variable that the query does not have.  In the
text that is written, placeholders of one base are one variable, those of different bases are
different ones, and none of them is a variable of the query (`Template.render_captureFree`).

The name is a legal one exactly if the base has no hyphen (`Template.render_isVarName_iff`): names
of placeholders may have hyphens and names of variables may not, and a base is taken as it is.
-/

namespace SparqlCompose.Template

variable {q : Query} {t : PrefixTable} {values : Values}

/-! ### Variables of the template's own -/

/-- The bases are those of the segments that stand for the template's own variables. -/
theorem mem_bases {m : Template} {base : String} :
    base ∈ m.bases ↔ .fresh base ∈ m.segments := by
  rw [bases, List.mem_filterMap]
  constructor
  · intro hmem
    obtain ⟨segment, hsegment, hbase⟩ := hmem
    cases segment with
    | text s => cases hbase
    | placeholder name => cases hbase
    | fresh other =>
        obtain rfl := Option.some.inj hbase
        exact hsegment
  · exact fun hmem => ⟨_, hmem, rfl⟩

/-- The base of a placeholder is one of the template's. -/
theorem mem_bases_of_split {text : String} {s : Split} (h : s.chars = text.toList)
    {p : Mark × List Char} (hp : p ∈ s.parts) {base : String} (hbase : p.1.segment = .fresh base) :
    base ∈ (ofText text).bases := by
  rw [mem_bases, segments_ofText h, Split.segments, partsSegments, List.mem_append,
    List.mem_flatMap]
  exact Or.inr ⟨p, hp, by rw [hbase]; exact List.mem_cons_self⟩

/-- A placeholder for a variable of the template's own is replaced by the name of the variable. -/
theorem Replaces.fresh {m : Template} {s : Split} {fills : List String} {out : String}
    (h : Replaces m q t values s fills out) :
    List.Forall₂ (fun p fill => ∀ base, p.1.segment = .fresh base →
      fill = "?" ++ m.ownName q base) s.parts fills := by
  obtain ⟨extra, -, hfills⟩ := h.each
  refine hfills.imp fun p fill hfill base hbase => ?_
  rw [hbase, replacement_fresh] at hfill
  exact (Except.ok.inj hfill).symm

/-- No entry of the table of a valid query is for a variable with a name that the table does not
have. -/
theorem ne_of_not_mem_keys (h : q.validate = .ok ()) {name : String} (hname : name ∉ q.table.keys) :
    ∀ v ∈ q.table.values, v.name ≠ name := by
  intro v hv
  obtain ⟨e, he, rfl⟩ := List.mem_map.mp hv
  rintro rfl
  refine hname ?_
  rw [← (Query.validate_eq_ok.mp h).names e he]
  exact List.mem_map_of_mem he

/-- The placeholders for variables of the template's own, and what stands in their places. -/
structure CaptureFree (m : Template) (q : Query) (s : Split) (fills : List String) : Prop where
  /-- Each is replaced by the name of its base. -/
  named : List.Forall₂ (fun p fill => ∀ base, p.1.segment = .fresh base →
    fill = "?" ++ m.ownName q base) s.parts fills
  /-- Two of them have the same name exactly if they have the same base. -/
  apart : ∀ p ∈ s.parts, ∀ p' ∈ s.parts, ∀ base base',
    p.1.segment = .fresh base → p'.1.segment = .fresh base' →
    (m.ownName q base = m.ownName q base' ↔ base = base')
  /-- The query has no variable under the name. -/
  free : ∀ p ∈ s.parts, ∀ base, p.1.segment = .fresh base → m.ownName q base ∉ q.table.keys
  /-- If its variables stand under their own names, none of them has the name. -/
  uncaptured : q.validate = .ok () → ∀ p ∈ s.parts, ∀ base, p.1.segment = .fresh base →
    ∀ v ∈ q.table.values, v.name ≠ m.ownName q base

/-- **The variables of a template's own are captured nowhere.**  Where the template is written,
each placeholder for such a variable is replaced by the name that its base has.  Two bases have
the same name only if they are the same, and no name is one under which the query has a
variable. -/
theorem render_captureFree (text : String) (q : Query) (t : PrefixTable) (values : Values)
    (out : String) (h : (ofText text).render q t values = .ok out) :
    ∃ (s : Split) (fills : List String), s.chars = text.toList ∧
      Replaces (ofText text) q t values s fills out ∧ CaptureFree (ofText text) q s fills := by
  obtain ⟨s, hs⟩ := exists_split text.toList
  obtain ⟨fills, hfills⟩ := (render_ofText_eq_ok hs).mp h
  refine ⟨s, fills, hs, hfills, hfills.fresh, ?_, ?_, ?_⟩
  · intro p hp p' hp' base base' hbase hbase'
    exact ownName_inj (mem_bases_of_split hs hp hbase) (mem_bases_of_split hs hp' hbase')
  · exact fun p _ base _ => ownName_not_mem (ofText text) q base
  · exact fun hvalid p _ base _ =>
      ne_of_not_mem_keys hvalid (ownName_not_mem (ofText text) q base)

/-- A query for the friends of a person. -/
def knowsQuery : Query :=
  ({ uri := "urn:knows" } : Query).afterAll
    [.addVariable { uri := "urn:s", name := "s" }, .addVariable { uri := "urn:o", name := "o" },
      .pushClause (.pattern ⟨.var 0, .resource (.iri "http://example.org/knows"), .var 1⟩)]

/-- A base whose name is taken, another that is like the next name, and the first again. -/
theorem render_captureFree_knows :
    let text := "\x7b\x7b?o\x7d\x7d \x7b\x7b?o1\x7d\x7d \x7b\x7b ?o \x7d\x7d"
    (ofText text).render knowsQuery .standard [] = .ok "?o1 ?o2 ?o1" ∧
      ∃ (s : Split) (fills : List String), s.chars = text.toList ∧
        Replaces (ofText text) knowsQuery .standard [] s fills "?o1 ?o2 ?o1" ∧
        CaptureFree (ofText text) knowsQuery s fills := by
  intro text
  have hrender : (ofText text).render knowsQuery .standard [] = .ok "?o1 ?o2 ?o1" := by
    decide +kernel
  exact ⟨hrender, render_captureFree text knowsQuery .standard [] _ hrender⟩

/-! ### Legal names -/

/-- What may stand in the name of a placeholder may stand in a word, hyphens apart. -/
theorem isWordChar_of_isNameInner {c : Char} (h : isNameInner c = true) (hhyphen : c ≠ '-') :
    Sparql.isWordChar c = true := by
  simp only [isNameInner, isNameStart, Bool.or_eq_true, beq_iff_eq, hhyphen, or_false] at h
  simp only [Sparql.isWordChar, Char.isAlphanum, Bool.or_eq_true, beq_iff_eq]
  tauto

/-- What may stand in a word may stand in the name of a variable. -/
theorem isNameChar_of_isWordChar {c : Char} (h : Sparql.isWordChar c = true) :
    isNameChar c = true := by
  simp only [Sparql.isWordChar, Bool.or_eq_true] at h
  rcases h with h | h <;> simp [isNameChar, isAlphanumeric, h]

/-- A word of ASCII is a variable name, of this library and of the grammar. -/
theorem isVarName_of_word {name : String} (hne : name.toList ≠ [])
    (h : ∀ c ∈ name.toList, Sparql.isWordChar c = true) :
    isVarName name = true ∧ NameChars.isVarName name.toList = true := by
  refine ⟨isVarName_iff.mpr ⟨hne, fun c hc => isNameChar_of_isWordChar (h c hc)⟩, ?_⟩
  cases hname : name.toList with
  | nil => exact absurd hname hne
  | cons c cs =>
      rw [hname, List.forall_mem_cons] at h
      simp only [NameChars.isVarName, Bool.and_eq_true, Bool.or_eq_true, List.all_eq_true]
      exact ⟨Sparql.isWordChar_cases h.1, fun d hd => Sparql.isVarInner_of_isWordChar (h.2 d hd)⟩

/-- A name with a hyphen is no variable name, of this library or of the grammar. -/
theorem not_isVarName_of_hyphen {name : String} (h : '-' ∈ name.toList) :
    isVarName name = false ∧ NameChars.isVarName name.toList = false := by
  constructor
  · by_contra hname
    have hchar := (isVarName_iff.mp (by simpa using hname)).2 '-' h
    revert hchar
    decide +kernel
  · cases hname : name.toList with
    | nil => rfl
    | cons c cs =>
        rw [hname, List.mem_cons] at h
        rcases h with rfl | h
        · rfl
        · have hall : cs.all NameChars.isVarInner = false := by
            rw [List.all_eq_false]
            exact ⟨'-', h, by decide⟩
          rw [NameChars.isVarName, hall, Bool.and_false]

/-- A name that is found for the name of a placeholder is legal exactly if it has no hyphen. -/
theorem isVarName_uniqueName_iff {base : String} (h : isName base.toList = true)
    (taken : List String) :
    (isVarName (uniqueName base taken) = true ↔ '-' ∉ base.toList) ∧
      (NameChars.isVarName (uniqueName base taken).toList = true ↔ '-' ∉ base.toList) := by
  by_cases hhyphen : '-' ∈ base.toList
  · have hno := not_isVarName_of_hyphen (mem_uniqueName hhyphen (by decide) taken)
    simp [hno, hhyphen]
  · have hbase : ∀ c ∈ base.toList, Sparql.isWordChar c = true := by
      intro c hc
      refine isWordChar_of_isNameInner (isNameInner_of_mem h c hc) ?_
      rintro rfl
      exact hhyphen hc
    have hne : base.toList ≠ [] := by
      intro hnil
      rw [hnil] at h
      cases h
    have hword : ∀ c ∈ (uniqueName base taken).toList, Sparql.isWordChar c = true := by
      refine forall_mem_uniqueName ?_ hbase taken
      intro c hc
      simp [Sparql.isWordChar, Char.isAlphanum, hc]
    have hlegal := isVarName_uniqueName (isVarName_of_word hne hbase).1 taken
    simp [isVarName_of_word (isVarName_iff.mp hlegal).1 hword, hhyphen]

/-- **A template writes a legal variable exactly where a base has no hyphen.**  Each placeholder
for a variable of the template's own is replaced by a question mark and a name, and the name is a
variable name, of this library and of the grammar, if its base has no hyphen and not otherwise. -/
theorem render_isVarName_iff (text : String) (q : Query) (t : PrefixTable) (values : Values)
    (out : String) (h : (ofText text).render q t values = .ok out) :
    ∃ (s : Split) (fills : List String), s.chars = text.toList ∧
      Replaces (ofText text) q t values s fills out ∧
      List.Forall₂ (fun p fill => ∀ base, p.1.segment = .fresh base → ∃ name,
        fill = "?" ++ name ∧ (isVarName name = true ↔ '-' ∉ base.toList) ∧
          (NameChars.isVarName name.toList = true ↔ '-' ∉ base.toList)) s.parts fills := by
  obtain ⟨s, hs⟩ := exists_split text.toList
  obtain ⟨fills, hfills⟩ := (render_ofText_eq_ok hs).mp h
  refine ⟨s, fills, hs, hfills, hfills.fresh.imp fun p fill hfill base hbase => ?_⟩
  obtain ⟨taken, hname⟩ := ownName_eq_uniqueName (ofText text) q base
  have hlegal := isVarName_uniqueName_iff (p.1.isName_of_fresh hbase) (q.table.keys ++ taken)
  rw [← hname] at hlegal
  exact ⟨_, hfill base hbase, hlegal⟩

/-- A base without a hyphen, whose name is taken, and one with a hyphen. -/
theorem render_isVarName_iff_knows :
    let text := "\x7b\x7b?o\x7d\x7d \x7b\x7b?o-x\x7d\x7d"
    (ofText text).render knowsQuery .standard [] = .ok "?o1 ?o-x" ∧
      ∃ (s : Split) (fills : List String), s.chars = text.toList ∧
        Replaces (ofText text) knowsQuery .standard [] s fills "?o1 ?o-x" ∧
        List.Forall₂ (fun p fill => ∀ base, p.1.segment = .fresh base → ∃ name,
          fill = "?" ++ name ∧ (isVarName name = true ↔ '-' ∉ base.toList) ∧
            (NameChars.isVarName name.toList = true ↔ '-' ∉ base.toList)) s.parts fills := by
  intro text
  have hrender : (ofText text).render knowsQuery .standard [] = .ok "?o1 ?o-x" := by
    decide +kernel
  exact ⟨hrender, render_isVarName_iff text knowsQuery .standard [] _ hrender⟩

/-- A base with a hyphen is written as it is, and is no variable name. -/
theorem render_hyphen :
    (ofText "\x7b\x7b?a-b\x7d\x7d").segments = [.fresh "a-b"] ∧
      (ofText "\x7b\x7b?a-b\x7d\x7d").render { uri := "urn:q" } .standard [] = .ok "?a-b" ∧
      isVarName "a-b" = false ∧ NameChars.isVarName "a-b".toList = false := by
  decide +kernel

end SparqlCompose.Template
