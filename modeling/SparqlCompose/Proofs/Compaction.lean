import Mathlib
import SparqlCompose.Proofs.Cut
import SparqlCompose.Proofs.Mention

/-!
# What compaction writes, and what it means

The two directions of a prefix table are read off the run of bindings that it comes from.  A prefix
is bound to the namespace that it was bound to last (`PrefixTable.get?_namespaces_ofPairs`).  The
other direction keeps one prefix for a namespace, the one bound to it last, and drops it when that
prefix is bound elsewhere (`PrefixTable.prefixOf?_ofPairs`).  No other prefix of the namespace takes
its place, so a namespace that still has a prefix may be left without one to be written; the two
directions agree exactly while that has not happened (`PrefixTable.prefixOf?_ofPairs_iff`).

What is written is always right.  If no prefix has a colon, a compacted IRI expands to the IRI
(`PrefixTable.expand_compact?`): the first colon of the prefixed name is the one behind the prefix,
and the prefix is bound to the part of the IRI in front of the local name.
-/

namespace SparqlCompose

namespace PrefixTable

variable {t : PrefixTable} {pairs : List (String × String)}

/-! ### Runs of bindings -/

/-- The table that a run of bindings makes of the empty one. -/
def ofPairs (pairs : List (String × String)) : PrefixTable := bindAll ∅ pairs

/-- The namespace to which a prefix was bound last. -/
def lastNamespace? (pairs : List (String × String)) (name : String) : Option String :=
  (pairs.reverse.find? fun e => e.1 == name).map Prod.snd

/-- The prefix that was bound last to a namespace. -/
def lastPrefix? (pairs : List (String × String)) (ns : String) : Option String :=
  (pairs.reverse.find? fun e => e.2 == ns).map Prod.fst

/-- The latest binding of a prefix counts. -/
theorem lastNamespace?_concat (pairs : List (String × String)) (e : String × String)
    (name : String) :
    lastNamespace? (pairs ++ [e]) name =
      if name = e.1 then some e.2 else lastNamespace? pairs name := by
  by_cases h : name = e.1
  · simp [lastNamespace?, h]
  · simp [lastNamespace?, h, Ne.symm h]

/-- The latest prefix that was bound to a namespace counts. -/
theorem lastPrefix?_concat (pairs : List (String × String)) (e : String × String) (ns : String) :
    lastPrefix? (pairs ++ [e]) ns = if ns = e.2 then some e.1 else lastPrefix? pairs ns := by
  by_cases h : ns = e.2
  · simp [lastPrefix?, h]
  · simp [lastPrefix?, h, Ne.symm h]

/-- Binding pairs after others goes on from the table that those give. -/
theorem ofPairs_append (pairs more : List (String × String)) :
    ofPairs (pairs ++ more) = (ofPairs pairs).bindAll more := by
  rw [ofPairs, bindAll, List.foldl_append]
  rfl

/-- The last pair is bound in the table of the others. -/
theorem ofPairs_concat (pairs : List (String × String)) (e : String × String) :
    ofPairs (pairs ++ [e]) = (ofPairs pairs).bind e.1 e.2 := ofPairs_append pairs [e]

/-- A prefix is bound to the namespace that it was bound to last. -/
theorem get?_namespaces_ofPairs (pairs : List (String × String)) (name : String) :
    (ofPairs pairs).namespaces.get? name = lastNamespace? pairs name := by
  induction pairs using List.reverseRecOn with
  | nil => rfl
  | append_singleton pairs e ih =>
      rw [ofPairs_concat, get?_namespaces_bind, lastNamespace?_concat, ih]

/-- The namespace of a prefix is found exactly when it is in the table. -/
theorem namespaceOf_eq_ok {name ns : String} :
    t.namespaceOf name = .ok ns ↔ t.namespaces.get? name = some ns := by
  unfold namespaceOf
  cases t.namespaces.get? name <;> simp

/-- The prefix that is written for a namespace is the one bound to it last, as long as it is bound
to it. -/
theorem prefixOf?_ofPairs (pairs : List (String × String)) {ns name : String} :
    (ofPairs pairs).prefixOf? ns = some name ↔
      lastPrefix? pairs ns = some name ∧ lastNamespace? pairs name = some ns := by
  induction pairs using List.reverseRecOn generalizing name with
  | nil =>
      constructor
      · intro habsurd
        cases habsurd
      · intro habsurd
        cases habsurd.1
  | append_singleton pairs e ih =>
      rw [ofPairs_concat, prefixOf?_bind, lastPrefix?_concat, lastNamespace?_concat,
        get?_namespaces_ofPairs]
      by_cases hns : ns = e.2
      · simp only [if_pos hns, Option.some.injEq]
        constructor
        · rintro rfl
          exact ⟨rfl, by rw [if_pos rfl, hns]⟩
        · exact And.left
      · simp only [if_neg hns]
        by_cases hname : name = e.1
        · -- The prefix has just been bound elsewhere.
          subst hname
          have hmoved : ¬ e.2 = ns := Ne.symm hns
          simp only [if_true, Option.some.injEq, hmoved, and_false, iff_false]
          split
          · simp
          · next hkept => exact fun hold => hkept ⟨(ih.mp hold).2, hold⟩
        · rw [if_neg hname, ← ih]
          split
          · next hdrop =>
              rw [hdrop.2]
              simp [Ne.symm hname]
          · rfl

/-- A prefix is written for a namespace exactly when the one bound to it last is bound to it. -/
theorem isSome_prefixOf?_ofPairs (pairs : List (String × String)) (ns : String) :
    ((ofPairs pairs).prefixOf? ns).isSome ↔
      ∃ name, lastPrefix? pairs ns = some name ∧ lastNamespace? pairs name = some ns := by
  simp only [Option.isSome_iff_exists, prefixOf?_ofPairs]

/-- An IRI whose local name can be written is compacted if its namespace has a prefix to write. -/
theorem isSome_compact? {iri ns l : String} (hsplit : splitIri iri = some (ns, l))
    (hl : isLocalName l = true) : (t.compact? iri).isSome ↔ (t.prefixOf? ns).isSome := by
  have hwritten : t.compactingPrefix? iri = t.prefixOf? ns := by
    simp [compactingPrefix?, hsplit, hl]
  rw [compact?, hwritten, hsplit]
  cases t.prefixOf? ns <;> rfl

/-- **The two directions of a table agree while the last prefix of a namespace stays.**  After any
run of bindings a prefix is bound to the namespace that it was bound to last, and the prefix that is
written for a namespace is bound to it: it is the one that was bound to the namespace last.  A
namespace to which prefixes are bound has one to be written, and the IRIs in it with a local name
that can be written are compacted, exactly when this last one is still bound to it. -/
theorem prefixOf?_ofPairs_iff (pairs : List (String × String)) :
    (∀ name ns, (ofPairs pairs).namespaceOf name = .ok ns ↔ lastNamespace? pairs name = some ns) ∧
      (∀ ns name, (ofPairs pairs).prefixOf? ns = some name ↔
        lastPrefix? pairs ns = some name ∧ (ofPairs pairs).namespaceOf name = .ok ns) ∧
      (∀ ns,
        (((ofPairs pairs).prefixOf? ns).isSome ↔
          ∃ name, (ofPairs pairs).namespaceOf name = .ok ns) ↔
        ((∃ name, (ofPairs pairs).namespaceOf name = .ok ns) →
          ∃ name, lastPrefix? pairs ns = some name ∧ (ofPairs pairs).namespaceOf name = .ok ns)) ∧
      ∀ iri ns l name, splitIri iri = some (ns, l) → isLocalName l = true →
        (ofPairs pairs).namespaceOf name = .ok ns →
        (((ofPairs pairs).compact? iri).isSome ↔
          ∃ last, lastPrefix? pairs ns = some last ∧
            (ofPairs pairs).namespaceOf last = .ok ns) := by
  have hbound : ∀ name ns,
      (ofPairs pairs).namespaceOf name = .ok ns ↔ lastNamespace? pairs name = some ns := by
    intro name ns
    rw [namespaceOf_eq_ok, get?_namespaces_ofPairs]
  refine ⟨hbound, ?_⟩
  simp only [hbound]
  refine ⟨fun ns name => prefixOf?_ofPairs pairs, fun ns => ?_, ?_⟩
  · rw [isSome_prefixOf?_ofPairs]
    constructor
    · exact Iff.mpr
    · intro hheld
      exact ⟨fun ⟨name, _, hname⟩ => ⟨name, hname⟩, hheld⟩
  · intro iri ns l _ hsplit hl _
    rw [isSome_compact? hsplit hl, isSome_prefixOf?_ofPairs]

/-- A prefix that was bound elsewhere and back again is still the one to be written. -/
theorem prefixOf?_ofPairs_iff_back :
    let pairs := [("a", "http://ex/"), ("b", "http://ex/"), ("b", "http://other/"),
      ("b", "http://ex/")]
    splitIri "http://ex/x" = some ("http://ex/", "x") ∧ isLocalName "x" = true ∧
      (ofPairs pairs).namespaceOf "a" = .ok "http://ex/" ∧
      (ofPairs pairs).prefixOf? "http://ex/" = some "b" ∧
      ((ofPairs pairs).compact? "http://ex/x").isSome := by
  intro pairs
  obtain ⟨-, hwritten, -, hcompact⟩ := prefixOf?_ofPairs_iff pairs
  have hsplit : splitIri "http://ex/x" = some ("http://ex/", "x") := by decide +kernel
  have hlocal : isLocalName "x" = true := by decide +kernel
  have ha : (ofPairs pairs).namespaceOf "a" = .ok "http://ex/" := by decide +kernel
  have hb : lastPrefix? pairs "http://ex/" = some "b" ∧
      (ofPairs pairs).namespaceOf "b" = .ok "http://ex/" := by decide +kernel
  exact ⟨hsplit, hlocal, ha, (hwritten _ _).mpr hb,
    (hcompact _ _ _ _ hsplit hlocal ha).mpr ⟨"b", hb⟩⟩

/-- Of two prefixes of a namespace the later one is bound elsewhere.  The earlier one is still bound
to the namespace, but no prefix is written for it. -/
theorem prefixOf?_moved :
    let t := ofPairs [("a", "http://ex/"), ("b", "http://ex/"), ("b", "http://other/")]
    t.namespaceOf "a" = .ok "http://ex/" ∧ t.prefixOf? "http://ex/" = none ∧
      splitIri "http://ex/x" = some ("http://ex/", "x") ∧ isLocalName "x" = true ∧
      t.compact? "http://ex/x" = none := by
  decide +kernel

/-! ### Compacted IRIs -/

/-- What a compacted IRI is put together from. -/
theorem Sound.exists_of_compact? (h : t.Sound) {iri c : String} (hc : t.compact? iri = some c) :
    ∃ name ns l, c = name ++ ":" ++ l ∧ t.namespaces.get? name = some ns ∧ ns ++ l = iri := by
  rw [compact?_eq] at hc
  obtain ⟨⟨name, l⟩, hnamed, rfl⟩ := Option.map_eq_some_iff.mp hc
  obtain ⟨hname, ns, hsplit⟩ := named?_eq_some.mp hnamed
  exact ⟨name, ns, l, rfl, h.get?_of_compactingPrefix? hname hsplit, append_of_splitIri hsplit⟩

/-- A prefixed name is cut behind its prefix, if the prefix has no colon. -/
theorem expand_eq_ok {name ns l : String} (hcolon : ':' ∉ name.toList)
    (hname : t.namespaces.get? name = some ns) : t.expand (name ++ ":" ++ l) = .ok (ns ++ l) := by
  have hchars : (name ++ ":" ++ l).toList = name.toList ++ ':' :: l.toList := by simp
  have hcut : cutFirst (· == ':') (name ++ ":" ++ l).toList = some (name.toList, l.toList) := by
    rw [hchars]
    refine cutFirst_of_not_mem rfl ?_ _
    intro d hd
    simpa using ne_of_mem_of_not_mem hd hcolon
  have hns : t.namespaceOf name = .ok ns := namespaceOf_eq_ok.mpr hname
  rw [expand, hcut]
  simp only [String.ofList_toList, hns]
  rfl

/-- Only a prefix that was bound has a namespace. -/
theorem exists_mem_of_lastNamespace? {name ns : String}
    (h : lastNamespace? pairs name = some ns) : ∃ e ∈ pairs, e.1 = name := by
  obtain ⟨e, he, -⟩ := Option.map_eq_some_iff.mp h
  exact ⟨e, List.mem_reverse.mp (List.mem_of_find?_eq_some he), by simpa using List.find?_some he⟩

/-- **Compaction never changes an IRI.**  If no prefix that was bound has a colon, what an IRI is
compacted to expands to it, so no two IRIs are compacted to the same text. -/
theorem expand_compact? (hcolon : ∀ e ∈ pairs, ':' ∉ e.1.toList) :
    (∀ iri c, (ofPairs pairs).compact? iri = some c → (ofPairs pairs).expand c = .ok iri) ∧
      ∀ iri iri' c, (ofPairs pairs).compact? iri = some c →
        (ofPairs pairs).compact? iri' = some c → iri = iri' := by
  have hsound : (ofPairs pairs).Sound := sound_empty.bindAll pairs
  have hexpand : ∀ iri c,
      (ofPairs pairs).compact? iri = some c → (ofPairs pairs).expand c = .ok iri := by
    intro iri c hc
    obtain ⟨name, ns, l, rfl, hname, rfl⟩ := hsound.exists_of_compact? hc
    obtain ⟨e, he, rfl⟩ :=
      exists_mem_of_lastNamespace? ((get?_namespaces_ofPairs pairs name).symm.trans hname)
    exact expand_eq_ok (hcolon e he) hname
  refine ⟨hexpand, ?_⟩
  intro iri iri' c hc hc'
  exact Except.ok.inj ((hexpand iri c hc).symm.trans (hexpand iri' c hc'))

/-- In the standard table with two more bindings, one of them of a known prefix. -/
theorem expand_compact?_standard :
    let more := [("ex", "http://example.org/"), ("dc", "http://example.org/dc#")]
    let t := standard.bindAll more
    (∀ e ∈ wellKnown ++ more, ':' ∉ e.1.toList) ∧
      t.compact? "http://xmlns.com/foaf/0.1/name" = some "foaf:name" ∧
      t.expand "foaf:name" = .ok "http://xmlns.com/foaf/0.1/name" ∧
      t.compact? "http://example.org/dc#title" = some "dc:title" ∧
      t.expand "dc:title" = .ok "http://example.org/dc#title" := by
  intro more t
  have hcolon : ∀ e ∈ wellKnown ++ more, ':' ∉ e.1.toList := by decide +kernel
  have hexpand := (expand_compact? hcolon).1
  rw [ofPairs_append] at hexpand
  have hfoaf : t.compact? "http://xmlns.com/foaf/0.1/name" = some "foaf:name" := by
    decide +kernel
  have hdc : t.compact? "http://example.org/dc#title" = some "dc:title" := by decide +kernel
  exact ⟨hcolon, hfoaf, hexpand _ _ hfoaf, hdc, hexpand _ _ hdc⟩

end PrefixTable

end SparqlCompose
