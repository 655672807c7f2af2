import Mathlib
import SparqlCompose.PrefixTable
import SparqlCompose.Proofs.OrderedMap
import SparqlCompose.Query.Text

/-!
# Laws of prefix tables

A table that comes about by binding prefixes never writes a prefix for a namespace to which the
prefix is not bound (`PrefixTable.Sound.bindAll`): binding a prefix anew takes its
old namespace out of the way first.  So the prefixes that a text declares are bound to the
namespaces of the IRIs that it writes with them (`Query.mem_usedPrefixes`).
-/

namespace SparqlCompose

/-- What is under a key after another is removed. -/
theorem OrderedMap.get?_erase {α : Type} (m : OrderedMap α) (k k' : String) :
    (m.erase k).get? k' = if k' = k then none else m.get? k' := by
  apply Option.ext
  intro v
  rw [get?_eq_some_iff, erase, List.mem_filter]
  by_cases hk : k' = k
  · simp [hk]
  · simp [hk, get?_eq_some_iff]

namespace PrefixTable

variable {t : PrefixTable}

/-- The prefix that is written for a namespace is bound to it. -/
def Sound (t : PrefixTable) : Prop :=
  ∀ ns name, t.compacting.get? ns = some name → t.namespaces.get? name = some ns

/-- A table without bindings is sound. -/
theorem sound_empty : Sound ∅ := by
  intro ns name habsurd
  cases habsurd

/-- The namespace of a prefix after a binding. -/
theorem get?_namespaces_bind (t : PrefixTable) (name iri p : String) :
    (t.bind name iri).namespaces.get? p = if p = name then some iri else t.namespaces.get? p :=
  OrderedMap.get?_insert _ _ _ _

/-- The prefix that is written for a namespace after a binding.  A namespace that the bound prefix
was written for is left without one. -/
theorem prefixOf?_bind (t : PrefixTable) (name iri ns : String) :
    (t.bind name iri).prefixOf? ns =
      if ns = iri then some name
      else if t.namespaces.get? name = some ns ∧ t.prefixOf? ns = some name then none
      else t.prefixOf? ns := by
  unfold prefixOf? PrefixTable.bind
  dsimp only
  rw [OrderedMap.get?_insert]
  refine if_congr Iff.rfl rfl ?_
  cases hold : t.namespaces.get? name with
  | none => simp
  | some old =>
      by_cases hns : ns = old
      · subst hns
        by_cases hwritten : t.compacting.get? ns = some name
        · simp [hwritten, OrderedMap.get?_erase]
        · simp [hwritten]
      · by_cases hwritten : t.compacting.get? old = some name
        · simp [hwritten, OrderedMap.get?_erase, hns, Ne.symm hns]
        · simp [hwritten, Ne.symm hns]

/-- Binding a prefix keeps the table sound.  A namespace that the prefix was written for loses it,
since the prefix is bound to another one now. -/
theorem Sound.bind (h : t.Sound) (name iri : String) : (t.bind name iri).Sound := by
  intro ns p hp
  have hstep := prefixOf?_bind t name iri ns
  rw [prefixOf?, hp] at hstep
  rw [get?_namespaces_bind]
  split at hstep
  · next hns =>
      rw [if_pos (Option.some.inj hstep), hns]
  · split at hstep
    · cases hstep
    · next hkept =>
        have hbound := h ns p hstep.symm
        have hne : p ≠ name := by
          rintro rfl
          exact hkept ⟨hbound, hstep.symm⟩
        rw [if_neg hne, hbound]

/-- Binding pairs one by one keeps a table sound. -/
theorem Sound.bindAll (h : t.Sound) (pairs : List (String × String)) : (t.bindAll pairs).Sound := by
  induction pairs generalizing t with
  | nil => exact h
  | cons e pairs ih => exact ih (h.bind e.1 e.2)

/-- A compacted IRI has its namespace under the prefix that is written. -/
theorem Sound.get?_of_compactingPrefix? (h : t.Sound) {iri p ns l : String}
    (hp : t.compactingPrefix? iri = some p) (hsplit : splitIri iri = some (ns, l)) :
    t.namespaces.get? p = some ns := by
  unfold compactingPrefix? at hp
  rw [hsplit] at hp
  split at hp
  · next heq =>
      obtain ⟨rfl, rfl⟩ := Prod.mk.inj (Option.some.inj heq)
      split at hp
      · exact h _ _ hp
      · cases hp
  · cases hp

/-! ### What a table lists -/

/-- After a binding the table lists nothing but that binding and what it listed before. -/
theorem mem_toList_bind {name iri : String} {e : String × String}
    (h : e ∈ (t.bind name iri).toList) : e ∈ t.toList ∨ e = (name, iri) := by
  have hget : (t.namespaces.insert name iri).get? e.1 = some e.2 :=
    OrderedMap.get?_eq_some_iff.mpr h
  rw [OrderedMap.get?_insert] at hget
  split at hget
  · next hname =>
      obtain rfl := Option.some.inj hget
      exact Or.inr (by rw [← hname])
  · exact Or.inl (OrderedMap.get?_eq_some_iff.mp hget)

/-- A table lists what was bound. -/
theorem mem_toList_bindAll {pairs : List (String × String)} {e : String × String}
    (h : e ∈ (t.bindAll pairs).toList) : e ∈ t.toList ∨ e ∈ pairs := by
  induction pairs generalizing t with
  | nil => exact Or.inl h
  | cons d pairs ih =>
      rcases ih (t := t.bind d.1 d.2) h with h | h
      · exact (mem_toList_bind h).imp id fun he => List.mem_cons.mpr (Or.inl he)
      · exact Or.inr (List.mem_cons_of_mem d h)

end PrefixTable

namespace Query

variable {t : PrefixTable} {e : String × String}

/-- Sorting an entry into a list adds that entry only. -/
theorem mem_insertSorted {l : List (String × String)} {d : String × String}
    (h : d ∈ insertSorted e l) : d = e ∨ d ∈ l := by
  induction l with
  | nil => exact Or.inl (List.mem_singleton.mp h)
  | cons a l ih =>
      rw [insertSorted] at h
      split at h
      · exact List.mem_cons.mp h
      · split at h
        · exact Or.inr h
        · rcases List.mem_cons.mp h with rfl | h
          · exact Or.inr List.mem_cons_self
          · exact (ih h).imp id (List.mem_cons_of_mem _)

/-- The names in the list are those it had and that of the entry. -/
theorem fst_mem_insertSorted (l : List (String × String)) (name : String) :
    (∃ d ∈ insertSorted e l, d.1 = name) ↔ e.1 = name ∨ ∃ d ∈ l, d.1 = name := by
  induction l with
  | nil => simp [insertSorted]
  | cons a l ih =>
      rw [insertSorted]
      split
      · simp
      · split
        · next heq =>
            constructor
            · exact Or.inr
            · rintro (rfl | hd)
              · exact ⟨a, List.mem_cons_self, heq.symm⟩
              · exact hd
        · simp only [List.mem_cons, exists_eq_or_imp, ih]
          tauto

/-- A declared prefix is bound to its namespace. -/
theorem mem_usedPrefixes {iris : List String} (h : e ∈ usedPrefixes t iris) :
    t.namespaces.get? e.1 = some e.2 := by
  have hall : ∀ (l acc : List (String × String)), (∀ d ∈ l, t.namespaces.get? d.1 = some d.2) →
      (∀ d ∈ acc, t.namespaces.get? d.1 = some d.2) →
      ∀ d ∈ l.foldl (fun acc e => insertSorted e acc) acc, t.namespaces.get? d.1 = some d.2 := by
    intro l
    induction l with
    | nil => intro acc _ hacc; exact hacc
    | cons a l ih =>
        intro acc hl hacc
        rw [List.forall_mem_cons] at hl
        refine ih _ hl.2 ?_
        intro d hd
        rcases mem_insertSorted hd with rfl | hd
        · exact hl.1
        · exact hacc d hd
  refine hall _ [] ?_ (by simp) e h
  intro d hd
  obtain ⟨iri, -, hiri⟩ := List.mem_filterMap.mp hd
  obtain ⟨name, -, hname⟩ := Option.bind_eq_some_iff.mp hiri
  obtain ⟨ns, hns, hpair⟩ := Option.bind_eq_some_iff.mp hname
  obtain rfl := Option.some.inj hpair
  exact hns

/-- The declared prefixes are those of the compacted IRIs. -/
theorem fst_mem_usedPrefixes {iris : List String} {name : String} :
    (∃ d ∈ usedPrefixes t iris, d.1 = name) ↔
      ∃ iri ∈ iris, ∃ ns, usedPrefix? t iri = some (name, ns) := by
  have hfold : ∀ (l acc : List (String × String)),
      (∃ d ∈ l.foldl (fun acc e => insertSorted e acc) acc, d.1 = name) ↔
        (∃ d ∈ l, d.1 = name) ∨ ∃ d ∈ acc, d.1 = name := by
    intro l
    induction l with
    | nil => simp
    | cons a l ih =>
        intro acc
        rw [List.foldl_cons, ih, fst_mem_insertSorted]
        simp only [List.mem_cons, exists_eq_or_imp]
        rw [or_left_comm, or_assoc]
  rw [usedPrefixes, hfold]
  simp only [List.mem_filterMap, Prod.exists, List.not_mem_nil, false_and, exists_false, or_false]
  constructor
  · intro hparts
    obtain ⟨_, ns, ⟨iri, hiri, hused⟩, rfl⟩ := hparts
    exact ⟨iri, hiri, ns, hused⟩
  · intro hparts
    obtain ⟨iri, hiri, ns, hused⟩ := hparts
    exact ⟨name, ns, ⟨iri, hiri, hused⟩, rfl⟩

/-- The prefix of every IRI that is compacted is declared. -/
theorem exists_mem_usedPrefixes {iris : List String} {iri name ns : String} (hiri : iri ∈ iris)
    (hname : t.compactingPrefix? iri = some name) (hns : t.namespaces.get? name = some ns) :
    ∃ d ∈ usedPrefixes t iris, d.1 = name := by
  refine fst_mem_usedPrefixes.mpr ⟨iri, hiri, ns, ?_⟩
  rw [usedPrefix?, hname, Option.bind_eq_bind, Option.bind_some, hns]
  rfl

/-- Fewer IRIs use fewer prefixes. -/
theorem usedPrefixes_subset {iris iris' : List String} (h : iris ⊆ iris') :
    usedPrefixes t iris ⊆ usedPrefixes t iris' := by
  intro e he
  obtain ⟨iri, hiri, ns, hused⟩ := fst_mem_usedPrefixes.mp ⟨e, he, rfl⟩
  obtain ⟨d, hd, hname⟩ := fst_mem_usedPrefixes.mpr ⟨iri, h hiri, ns, hused⟩
  have hvalue := mem_usedPrefixes he
  rw [← hname, mem_usedPrefixes hd] at hvalue
  rwa [← Prod.ext hname (Option.some.inj hvalue)]

/-! ### The order of the lines -/

/-- Putting a pair into a list in ascending order leaves it in ascending order. -/
theorem pairwise_insertSorted {l : List (String × String)}
    (h : l.Pairwise fun a b => a.1 < b.1) :
    (insertSorted e l).Pairwise fun a b => a.1 < b.1 := by
  induction l with
  | nil => exact List.pairwise_singleton _ _
  | cons a l ih =>
      rw [List.pairwise_cons] at h
      rw [insertSorted]
      split
      · next hlt =>
          refine List.pairwise_cons.mpr ⟨?_, List.pairwise_cons.mpr h⟩
          intro b hb
          rcases List.mem_cons.mp hb with rfl | hb
          · exact hlt
          · exact hlt.trans (h.1 b hb)
      · next hle =>
          split
          · exact List.pairwise_cons.mpr h
          · next hne =>
              refine List.pairwise_cons.mpr ⟨?_, ih h.2⟩
              intro b hb
              rcases mem_insertSorted hb with rfl | hb
              · exact lt_of_le_of_ne (not_lt.mp hle) (Ne.symm hne)
              · exact h.1 b hb

/-- The prefixes are declared in ascending order, each once. -/
theorem pairwise_usedPrefixes (t : PrefixTable) (iris : List String) :
    (usedPrefixes t iris).Pairwise fun a b => a.1 < b.1 := by
  have hfold : ∀ (l acc : List (String × String)), (acc.Pairwise fun a b => a.1 < b.1) →
      (l.foldl (fun acc e => insertSorted e acc) acc).Pairwise fun a b => a.1 < b.1 := by
    intro l
    induction l with
    | nil => exact fun _ hacc => hacc
    | cons a l ih => exact fun _ hacc => ih _ (pairwise_insertSorted hacc)
  exact hfold _ [] .nil

end Query

end SparqlCompose
