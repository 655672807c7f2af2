/-!
# Maps that keep the order of insertion

Variable tables, prefix tables and catalogs are looked up by a text key and are listed in
the order in which keys first appeared.  `OrderedMap` holds the entries in that order; no key
occurs twice.  Storing under a known key replaces the value and keeps the place
(`keys_insert_of_mem`), a new key goes to the end (`keys_insert_of_not_mem`).
-/

namespace SparqlCompose

/-- Entries under distinct text keys, in order of first insertion. -/
structure OrderedMap (α : Type) where
  entries : List (String × α) := []
  /-- No key occurs twice. -/
  nodup : (entries.map Prod.fst).Nodup := by simp
deriving DecidableEq, Repr

namespace OrderedMap

variable {α β : Type}

instance : EmptyCollection (OrderedMap α) := ⟨{}⟩

instance : Inhabited (OrderedMap α) := ⟨∅⟩

/-- The keys, in order. -/
def keys (m : OrderedMap α) : List String := m.entries.map Prod.fst

/-- The values, in the order of their keys. -/
def values (m : OrderedMap α) : List α := m.entries.map Prod.snd

/-- The number of entries. -/
def size (m : OrderedMap α) : Nat := m.entries.length

/-- Whether the key is present. -/
def contains (m : OrderedMap α) (k : String) : Bool := m.entries.any fun e => e.1 == k

/-- The value under a key. -/
def get? (m : OrderedMap α) (k : String) : Option α :=
  (m.entries.find? fun e => e.1 == k).map Prod.snd

/-- The place of a key. -/
def idxOf? (m : OrderedMap α) (k : String) : Option Nat :=
  m.entries.findIdx? fun e => e.1 == k

/-- The value at a place. -/
def at? (m : OrderedMap α) (i : Nat) : Option α := m.entries[i]?.map Prod.snd

/-- Changes every value by `f`, which may look at its place and key. -/
private def mapEntries (f : String × α → β) (l : List (String × α)) : List (String × β) :=
  l.map fun e => (e.1, f e)

/-- Changing the values leaves the keys and their order alone. -/
private theorem keys_mapEntries (f : String × α → β) (l : List (String × α)) :
    (mapEntries f l).map Prod.fst = l.map Prod.fst := by
  simp [mapEntries, Function.comp_def]

/-- Changes every value by `f`. -/
def map (f : α → β) (m : OrderedMap α) : OrderedMap β where
  entries := mapEntries (fun e => f e.2) m.entries
  nodup := by rw [keys_mapEntries]; exact m.nodup

/-- Stores a value: in the place of the key if it is present, at the end if not. -/
def insert (m : OrderedMap α) (k : String) (v : α) : OrderedMap α :=
  if h : k ∈ m.entries.map Prod.fst then
    { entries := mapEntries (fun e => if e.1 = k then v else e.2) m.entries
      nodup := by rw [keys_mapEntries]; exact m.nodup }
  else
    { entries := m.entries ++ [(k, v)]
      nodup := by
        rw [List.map_append, List.nodup_append]
        refine ⟨m.nodup, by simp, fun a ha b hb e => h ?_⟩
        simp only [List.map_cons, List.map_nil, List.mem_singleton] at hb
        exact hb ▸ e ▸ ha }

/-- Removes a key; the entries after it move up. -/
def erase (m : OrderedMap α) (k : String) : OrderedMap α where
  entries := m.entries.filter fun e => e.1 != k
  nodup := m.nodup.sublist (List.filter_sublist.map _)

/-- Changes the value at a place by `f`. -/
def modifyAt (m : OrderedMap α) (i : Nat) (f : α → α) : OrderedMap α where
  entries := m.entries.modify i fun e => (e.1, f e.2)
  nodup := by
    have h : (m.entries.modify i fun e => (e.1, f e.2)).map Prod.fst =
        m.entries.map Prod.fst := by
      apply List.ext_getElem?
      intro j
      simp only [List.getElem?_map, List.getElem?_modify]
      cases m.entries[j]? with
      | none => rfl
      | some e => by_cases hij : i = j <;> simp [hij]
    rw [h]; exact m.nodup

/-- Stores the pairs one after the other. -/
def ofList (l : List (String × α)) : OrderedMap α :=
  l.foldl (fun m e => m.insert e.1 e.2) ∅

/-- Storing under a known key moves no key. -/
theorem keys_insert_of_mem {m : OrderedMap α} {k : String} (v : α) (h : k ∈ m.keys) :
    (m.insert k v).keys = m.keys := by
  have h' : k ∈ m.entries.map Prod.fst := h
  simp only [insert, h', ↓reduceDIte, keys, keys_mapEntries]

/-- A new key goes to the end. -/
theorem keys_insert_of_not_mem {m : OrderedMap α} {k : String} (v : α) (h : k ∉ m.keys) :
    (m.insert k v).keys = m.keys ++ [k] := by
  have h' : k ∉ m.entries.map Prod.fst := h
  simp only [insert, h', ↓reduceDIte, keys, List.map_append, List.map_cons, List.map_nil]

end OrderedMap

/-- Adds an element at the end of a list that does not have it yet. -/
def appendNew {α : Type} [DecidableEq α] (l : List α) (a : α) : List α :=
  if a ∈ l then l else l ++ [a]

end SparqlCompose
