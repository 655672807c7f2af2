import Mathlib.Data.List.Nodup
import SparqlCompose.OrderedMap

/-!
# Laws of ordered maps

What each operation of `OrderedMap` does to the list of entries, and what the two ways of
looking up, by key and by place, say about that list.  A lookup by place and a lookup by key
agree because no key occurs twice.
-/

namespace SparqlCompose

namespace OrderedMap

variable {α β : Type}

/-- A map is its list of entries. -/
@[ext]
theorem ext {m n : OrderedMap α} (h : m.entries = n.entries) : m = n := by
  cases m
  cases n
  congr

@[simp]
theorem entries_empty : (∅ : OrderedMap α).entries = [] := rfl

/-- The keys stay when the values are changed. -/
@[simp]
theorem entries_map (f : α → β) (m : OrderedMap α) :
    (m.map f).entries = m.entries.map fun e => (e.1, f e.2) := rfl

/-- Only the entry at the place is changed. -/
@[simp]
theorem entries_modifyAt (m : OrderedMap α) (i : Nat) (f : α → α) :
    (m.modifyAt i f).entries = m.entries.modify i fun e => (e.1, f e.2) := rfl

/-- A new key goes to the end. -/
theorem entries_insert_of_not_mem {m : OrderedMap α} {k : String} (v : α) (h : k ∉ m.keys) :
    (m.insert k v).entries = m.entries ++ [(k, v)] := by
  have h' : k ∉ m.entries.map Prod.fst := h
  simp only [insert, h', ↓reduceDIte]

/-- There is a key for every entry. -/
@[simp]
theorem length_keys (m : OrderedMap α) : m.keys.length = m.size := by simp [keys, size]

/-- There is a value for every entry. -/
@[simp]
theorem length_values (m : OrderedMap α) : m.values.length = m.size := by simp [values, size]

/-- No key occurs twice. -/
theorem nodup_keys (m : OrderedMap α) : m.keys.Nodup := m.nodup

/-- The value at a place is the one in the list of values. -/
theorem at?_eq_getElem? (m : OrderedMap α) (i : Nat) : m.at? i = m.values[i]? := by
  simp [at?, values]

/-- A place has a value exactly when it is below the size. -/
theorem at?_isSome_iff {m : OrderedMap α} {i : Nat} : (m.at? i).isSome ↔ i < m.size := by
  rw [at?_eq_getElem?, ← length_values]
  simp

/-- A place of the map has a value. -/
theorem exists_at? {m : OrderedMap α} {i : Nat} (h : i < m.size) : ∃ v, m.at? i = some v :=
  Option.isSome_iff_exists.mp (at?_isSome_iff.mpr h)

/-- Only a place of the map has a value. -/
theorem lt_size_of_at? {m : OrderedMap α} {i : Nat} {v : α} (h : m.at? i = some v) :
    i < m.size :=
  at?_isSome_iff.mp (Option.isSome_iff_exists.mpr ⟨v, h⟩)

/-- A key is present exactly when it is listed. -/
theorem contains_iff {m : OrderedMap α} {k : String} : m.contains k = true ↔ k ∈ m.keys := by
  simp [contains, keys]

/-- The place of a key is where the key stands. -/
theorem idxOf?_eq_some_iff {m : OrderedMap α} {k : String} {i : Nat} :
    m.idxOf? k = some i ↔ m.keys[i]? = some k := by
  have hkeys : m.idxOf? k = m.keys.findIdx? (· == k) := by
    simp [idxOf?, keys, List.findIdx?_map, Function.comp_def]
  rw [hkeys, List.findIdx?_eq_some_iff_getElem, List.getElem?_eq_some_iff]
  constructor
  · intro hparts
    obtain ⟨hi, hk, -⟩ := hparts
    exact ⟨hi, by simpa using hk⟩
  · intro hparts
    obtain ⟨hi, rfl⟩ := hparts
    refine ⟨hi, by simp, ?_⟩
    intro j hj hjk
    have hji : j = i := m.nodup_keys.getElem_inj_iff.mp (by simpa using hjk)
    omega

/-- A key has no place exactly when it is not listed. -/
theorem idxOf?_eq_none_iff {m : OrderedMap α} {k : String} : m.idxOf? k = none ↔ k ∉ m.keys := by
  simp only [idxOf?, List.findIdx?_eq_none_iff, keys, List.mem_map, beq_eq_false_iff_ne]
  constructor
  · intro h hparts
    obtain ⟨e, he, hk⟩ := hparts
    exact h e he hk
  · intro h e he hk
    exact h ⟨e, he, hk⟩

/-- The place of a key depends on the keys only. -/
theorem idxOf?_congr {m : OrderedMap α} {n : OrderedMap β} (h : m.keys = n.keys) (k : String) :
    m.idxOf? k = n.idxOf? k := by
  apply Option.ext
  intro i
  rw [idxOf?_eq_some_iff, idxOf?_eq_some_iff, h]

/-- Changing the values leaves the keys and their order alone. -/
@[simp]
theorem keys_map (f : α → β) (m : OrderedMap α) : (m.map f).keys = m.keys := by
  simp [keys, Function.comp_def]

/-- So does changing the value at a place. -/
@[simp]
theorem keys_modifyAt (m : OrderedMap α) (i : Nat) (f : α → α) :
    (m.modifyAt i f).keys = m.keys := by
  apply List.ext_getElem?
  intro j
  simp only [keys, entries_modifyAt, List.getElem?_map, List.getElem?_modify]
  cases m.entries[j]? with
  | none => rfl
  | some e => by_cases hij : i = j <;> simp [hij]

@[simp]
theorem size_map (f : α → β) (m : OrderedMap α) : (m.map f).size = m.size := by simp [size]

@[simp]
theorem size_modifyAt (m : OrderedMap α) (i : Nat) (f : α → α) :
    (m.modifyAt i f).size = m.size := by simp [size]

/-- The value at a place is changed where it stands. -/
theorem at?_map (f : α → β) (m : OrderedMap α) (i : Nat) :
    (m.map f).at? i = (m.at? i).map f := by
  simp [at?, Function.comp_def]

/-- Only the value at the changed place is another one. -/
theorem at?_modifyAt (m : OrderedMap α) (i j : Nat) (f : α → α) :
    (m.modifyAt i f).at? j = (m.at? j).map fun v => if i = j then f v else v := by
  simp only [at?, entries_modifyAt, List.getElem?_modify]
  cases m.entries[j]? with
  | none => rfl
  | some e => by_cases hij : i = j <;> simp [hij]

/-- A new entry leaves the values at the places before it alone. -/
theorem at?_insert_of_not_mem {m : OrderedMap α} {k : String} {v w : α} {i : Nat}
    (h : k ∉ m.keys) (hi : m.at? i = some w) : (m.insert k v).at? i = some w := by
  obtain ⟨e, he, rfl⟩ := Option.map_eq_some_iff.mp hi
  rw [at?, entries_insert_of_not_mem v h,
    List.getElem?_append_left (List.getElem?_eq_some_iff.mp he).1, he]
  rfl

/-- A new key makes one entry more. -/
theorem size_insert_of_not_mem {m : OrderedMap α} {k : String} (v : α) (h : k ∉ m.keys) :
    (m.insert k v).size = m.size + 1 := by
  simp [size, entries_insert_of_not_mem v h]

/-- The value of a new key goes to the end. -/
theorem values_insert_of_not_mem {m : OrderedMap α} {k : String} (v : α) (h : k ∉ m.keys) :
    (m.insert k v).values = m.values ++ [v] := by
  simp [values, entries_insert_of_not_mem v h]

/-- A new entry stands at the place after all others. -/
theorem at?_insert_size {m : OrderedMap α} {k : String} (v : α) (h : k ∉ m.keys) :
    (m.insert k v).at? m.size = some v := by
  simp [at?, size, entries_insert_of_not_mem v h]

/-- The value under a key is the one that stands beside it. -/
theorem get?_eq_some_iff {m : OrderedMap α} {k : String} {v : α} :
    m.get? k = some v ↔ (k, v) ∈ m.entries := by
  simp only [get?, Option.map_eq_some_iff]
  constructor
  · intro hparts
    obtain ⟨e, he, rfl⟩ := hparts
    have hkey : e.1 = k := by simpa using List.find?_some he
    exact hkey ▸ List.mem_of_find?_eq_some he
  · intro hmem
    cases hfind : m.entries.find? fun e => e.1 == k with
    | none => simpa using List.find?_eq_none.mp hfind (k, v) hmem
    | some e =>
        have hkey : e.1 = k := by simpa using List.find?_some hfind
        have heq : e = (k, v) :=
          List.inj_on_of_nodup_map m.nodup (List.mem_of_find?_eq_some hfind) hmem hkey
        exact ⟨e, rfl, by rw [heq]⟩

/-- A known key keeps its place and gets the value. -/
theorem entries_insert_of_mem {m : OrderedMap α} {k : String} (v : α) (h : k ∈ m.keys) :
    (m.insert k v).entries = m.entries.map fun e => (e.1, if e.1 = k then v else e.2) := by
  have h' : k ∈ m.entries.map Prod.fst := h
  simp only [insert, h', ↓reduceDIte]
  rfl

/-- A new key goes to the end, a known one stays where it is. -/
theorem keys_insert (m : OrderedMap α) (k : String) (v : α) :
    (m.insert k v).keys = appendNew m.keys k := by
  unfold appendNew
  split
  · next h => exact keys_insert_of_mem v h
  · next h => exact keys_insert_of_not_mem v h

/-- Storing changes the value of its key and of no other. -/
theorem get?_insert (m : OrderedMap α) (k k' : String) (v : α) :
    (m.insert k v).get? k' = if k' = k then some v else m.get? k' := by
  apply Option.ext
  intro w
  rw [get?_eq_some_iff]
  by_cases hkey : k ∈ m.keys
  · rw [entries_insert_of_mem v hkey]
    by_cases hk : k' = k
    · obtain ⟨e, he, hek⟩ := List.mem_map.mp hkey
      rw [if_pos hk, Option.some.injEq, hk]
      constructor
      · intro hmem
        obtain ⟨e', -, heq⟩ := List.mem_map.mp hmem
        obtain ⟨hfst, hsnd⟩ := Prod.mk.inj heq
        rwa [if_pos hfst] at hsnd
      · rintro rfl
        exact List.mem_map.mpr ⟨e, he, by rw [if_pos hek, hek]⟩
    · rw [if_neg hk, get?_eq_some_iff]
      constructor
      · intro hmem
        obtain ⟨e', he', heq⟩ := List.mem_map.mp hmem
        obtain ⟨rfl, hsnd⟩ := Prod.mk.inj heq
        rw [if_neg hk] at hsnd
        exact hsnd ▸ he'
      · intro hmem
        exact List.mem_map.mpr ⟨_, hmem, by rw [if_neg hk]⟩
  · rw [entries_insert_of_not_mem v hkey, List.mem_append, List.mem_singleton]
    by_cases hk : k' = k
    · subst hk
      have hold : (k', w) ∉ m.entries := fun hmem => hkey (List.mem_map_of_mem hmem)
      simp only [hold, Prod.mk.injEq, true_and, false_or, if_true, Option.some.injEq]
      exact eq_comm
    · simp [hk, get?_eq_some_iff]

/-- Storing pairs with distinct keys one after the other lists them. -/
theorem entries_foldl_insert (l : List (String × α)) (m : OrderedMap α)
    (h : (m.keys ++ l.map Prod.fst).Nodup) :
    (l.foldl (fun m e => m.insert e.1 e.2) m).entries = m.entries ++ l := by
  induction l generalizing m with
  | nil => simp
  | cons e l ih =>
      have hnew : e.1 ∉ m.keys := by
        intro hmem
        exact (List.nodup_append.mp h).2.2 _ hmem _ (by simp) rfl
      rw [List.foldl_cons, ih]
      · simp [entries_insert_of_not_mem _ hnew]
      · rw [keys_insert_of_not_mem _ hnew]
        simpa using h

/-- A list of pairs with distinct keys is the list of entries of its map. -/
theorem entries_ofList {l : List (String × α)} (h : (l.map Prod.fst).Nodup) :
    (ofList l).entries = l := by
  simpa [ofList] using entries_foldl_insert l ∅ (by simpa [keys] using h)

/-- Storing the entries of a map one after the other builds the map. -/
theorem ofList_entries (m : OrderedMap α) : ofList m.entries = m :=
  ext (entries_ofList m.nodup)

end OrderedMap

end SparqlCompose
