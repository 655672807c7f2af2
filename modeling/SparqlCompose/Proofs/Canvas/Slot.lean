import Mathlib
import SparqlCompose.Canvas.Basic
import SparqlCompose.Proofs.Canvas.Id
import SparqlCompose.Proofs.OrderedMap

/-!
# The slots of a canvas

A canvas is seen here through its slots: `Canvas.slot?` tells for each id whether there is such a
slot, and what it holds.  The writes of a canvas change one slot each (`Canvas.slot?_setSlot`,
`Canvas.slot?_store`), and its answers are read off the slots (`Canvas.find_eq_ok`,
`Canvas.mem_ids`).
-/

namespace SparqlCompose

namespace Canvas

/-- The slot of an id, if there is one; an empty slot holds `none`. -/
def slot? (c : Canvas) (i : InstanceId) : Option (Option Query) :=
  (c.buckets.get? i.hash).bind fun bucket => bucket[i.slot]?

/-- An instance is what its slot holds. -/
theorem instance?_eq_join (c : Canvas) (i : InstanceId) : c.instance? i = (c.slot? i).join := by
  unfold instance? slot?
  cases c.buckets.get? i.hash with
  | none => rfl
  | some bucket => rfl

/-- There is an instance exactly when its slot is not empty. -/
theorem instance?_eq_some_iff {c : Canvas} {i : InstanceId} {q : Query} :
    c.instance? i = some q ↔ c.slot? i = some (some q) := by
  rw [instance?_eq_join, Option.join_eq_some_iff]

/-- What stands in a slot stands in one of the buckets. -/
theorem exists_bucket {c : Canvas} {i : InstanceId} {x : Option Query} (h : c.slot? i = some x) :
    ∃ bucket ∈ c.buckets.values, bucket[i.slot]? = some x := by
  obtain ⟨bucket, hbucket, hslot⟩ := Option.bind_eq_some_iff.mp h
  exact ⟨bucket, List.mem_map_of_mem (OrderedMap.get?_eq_some_iff.mp hbucket), hslot⟩

/-- A write to a slot changes that slot, if the canvas has it, and no other. -/
theorem slot?_setSlot (c : Canvas) (i j : InstanceId) (x : Option Query) :
    (c.setSlot i x).slot? j = if j = i then (c.slot? i).map fun _ => x else c.slot? j := by
  cases hbucket : c.buckets.get? i.hash with
  | none =>
      have hsame : c.setSlot i x = c := by rw [setSlot, hbucket]
      rw [hsame]
      split
      · next h => simp [h, slot?, hbucket]
      · rfl
  | some bucket =>
      have hset : (c.setSlot i x).slot? j =
          ((c.buckets.insert i.hash (bucket.set i.slot x)).get? j.hash).bind (·[j.slot]?) := by
        rw [setSlot, hbucket]
        rfl
      rw [hset, OrderedMap.get?_insert]
      by_cases hhash : j.hash = i.hash
      · rw [if_pos hhash, Option.bind_some, List.getElem?_set]
        by_cases hslot : i.slot = j.slot
        · have heq : j = i := by
            cases i
            cases j
            simp_all
          subst heq
          rw [if_pos rfl, if_pos rfl, slot?, hbucket, Option.bind_some]
          by_cases hlt : j.slot < bucket.length <;> simp [hlt]
        · have hne : j ≠ i := fun h => hslot (h ▸ rfl)
          rw [if_neg hslot, if_neg hne, slot?, hhash, hbucket, Option.bind_some]
      · have hne : j ≠ i := fun h => hhash (h ▸ rfl)
        rw [if_neg hhash, if_neg hne, slot?]

/-! ### New slots -/

/-- The slots of the bucket of a source. -/
def bucketOf (c : Canvas) (source : String) : List (Option Query) :=
  (c.buckets.get? (c.sourceHash source)).getD []

/-- The id of the next instance of a source. -/
def nextId (c : Canvas) (source : String) : InstanceId :=
  ⟨c.sourceHash source, (c.bucketOf source).length⟩

/-- The canvas with one more instance of a source. -/
def store (c : Canvas) (source : String) (q : Query) : Canvas :=
  let copy := q.scopeTo (c.nextId source).text
  { c with buckets := c.buckets.insert (c.sourceHash source) (c.bucketOf source ++ [some copy]) }

/-- The slot of an id is found in the bucket of a source with its hash. -/
theorem slot?_eq_getElem? {c : Canvas} {source : String} {j : InstanceId}
    (h : j.hash = c.sourceHash source) : c.slot? j = (c.bucketOf source)[j.slot]? := by
  unfold slot? bucketOf
  rw [h]
  cases c.buckets.get? (c.sourceHash source) with
  | none => simp
  | some bucket => rfl

/-- The next id of a source has no slot yet. -/
theorem slot?_nextId (c : Canvas) (source : String) : c.slot? (c.nextId source) = none := by
  rw [slot?_eq_getElem? rfl]
  exact List.getElem?_eq_none (Nat.le_refl _)

/-- The id of a slot that there is, is not the next one. -/
theorem ne_nextId {c : Canvas} {i : InstanceId} {x : Option Query} (hi : c.slot? i = some x)
    (source : String) : i ≠ c.nextId source := by
  rintro rfl
  rw [slot?_nextId] at hi
  cases hi

/-- A new instance takes a slot of its own and leaves the others alone. -/
theorem slot?_store (c : Canvas) (source : String) (q : Query) (j : InstanceId) :
    (c.store source q).slot? j =
      if j = c.nextId source then some (some (q.scopeTo (c.nextId source).text))
      else c.slot? j := by
  by_cases hhash : j.hash = c.sourceHash source
  · have hbucket : (c.store source q).bucketOf source =
        c.bucketOf source ++ [some (q.scopeTo (c.nextId source).text)] := by
      simp [store, bucketOf, OrderedMap.get?_insert]
    rw [slot?_eq_getElem? (c := c.store source q) hhash, slot?_eq_getElem? hhash, hbucket]
    by_cases hslot : j.slot = (c.bucketOf source).length
    · have heq : j = c.nextId source := by
        cases j
        simp_all [nextId]
      rw [if_pos heq, hslot, List.getElem?_concat_length]
    · have hne : j ≠ c.nextId source := fun h => hslot (congrArg InstanceId.slot h)
      rw [if_neg hne]
      rcases Nat.lt_or_gt_of_ne hslot with hlt | hgt
      · exact List.getElem?_append_left hlt
      · rw [List.getElem?_eq_none, List.getElem?_eq_none]
        · exact Nat.le_of_lt hgt
        · simpa using hgt
  · have hne : j ≠ c.nextId source := fun h => hhash (congrArg InstanceId.hash h)
    rw [if_neg hne]
    simp [slot?, store, OrderedMap.get?_insert, hhash]

/-! ### Answers -/

/-- An instance is found exactly when the text is read as its id and the slot is not empty. -/
theorem find_eq_ok {c : Canvas} {text : String} {i : InstanceId} {q : Query} :
    c.find text = .ok (i, q) ↔ InstanceId.ofText? text = some i ∧ c.slot? i = some (some q) := by
  rw [← instance?_eq_some_iff]
  unfold find parseId
  cases InstanceId.ofText? text with
  | none => simp [bind, Except.bind]
  | some j =>
      cases hq : c.instance? j with
      | none =>
          simp only [bind, Except.bind, hq, Option.some.injEq]
          constructor
          · intro h
            cases h
          · rintro ⟨rfl, h⟩
            rw [hq] at h
            cases h
      | some r =>
          simp only [bind, Except.bind, hq, Option.some.injEq, Except.ok.injEq, Prod.mk.injEq]
          constructor
          · rintro ⟨rfl, rfl⟩
            exact ⟨rfl, hq⟩
          · rintro ⟨rfl, h⟩
            exact ⟨rfl, Option.some.inj (hq.symm.trans h)⟩

/-- What a search answers depends on the slot alone. -/
theorem find_congr {c c' : Canvas} {text : String}
    (h : ∀ i, InstanceId.ofText? text = some i → c'.slot? i = c.slot? i) :
    c'.find text = c.find text := by
  unfold find parseId
  cases hid : InstanceId.ofText? text with
  | none => rfl
  | some i =>
      have hinstance : c'.instance? i = c.instance? i := by
        rw [instance?_eq_join, instance?_eq_join, h i hid]
      simp only [bind, Except.bind, hinstance]

/-- An id whose slot is empty is unknown. -/
theorem find_eq_unknown {c : Canvas} {text : String} {i : InstanceId}
    (hid : InstanceId.ofText? text = some i) (hslot : c.slot? i = some none) :
    c.find text = .error (.unknownInstance text) := by
  have hinstance : c.instance? i = none := by
    rw [instance?_eq_join, hslot]
    rfl
  simp only [find, parseId, hid, bind, Except.bind, hinstance]

/-- The ids that are listed for a bucket are those of its slots that are not empty. -/
theorem mem_liveIds {hash id : String} {bucket : List (Option Query)} :
    id ∈ liveIds hash bucket ↔
      ∃ n q, bucket[n]? = some (some q) ∧ (⟨hash, n⟩ : InstanceId).text = id := by
  simp only [liveIds, List.mem_map, List.mem_filter, Prod.exists, List.mk_mem_zipIdx_iff_getElem?]
  constructor
  · rintro ⟨x, n, ⟨hx, hsome⟩, rfl⟩
    obtain ⟨q, rfl⟩ := Option.isSome_iff_exists.mp hsome
    exact ⟨n, q, hx, rfl⟩
  · rintro ⟨n, q, hx, rfl⟩
    exact ⟨some q, n, ⟨hx, rfl⟩, rfl⟩

/-- The ids of a canvas are those of the slots that hold an instance. -/
theorem mem_ids {c : Canvas} {id : String} :
    id ∈ c.ids ↔ ∃ i q, c.slot? i = some (some q) ∧ i.text = id := by
  simp only [ids, List.mem_flatMap, mem_liveIds, slot?, Option.bind_eq_some_iff]
  constructor
  · rintro ⟨⟨hash, bucket⟩, hentry, n, q, hq, rfl⟩
    exact ⟨⟨hash, n⟩, q, ⟨bucket, OrderedMap.get?_eq_some_iff.mpr hentry, hq⟩, rfl⟩
  · rintro ⟨⟨hash, n⟩, q, ⟨bucket, hbucket, hq⟩, rfl⟩
    exact ⟨(hash, bucket), OrderedMap.get?_eq_some_iff.mp hbucket, n, q, hq, rfl⟩

/-- No id is listed twice for a bucket. -/
theorem nodup_liveIds (hash : String) (bucket : List (Option Query)) :
    (liveIds hash bucket).Nodup := by
  refine List.Nodup.map_on ?_ ?_
  · rintro ⟨x, m⟩ hx ⟨y, n⟩ hy heq
    have hmn : m = n := congrArg InstanceId.slot (InstanceId.text_injective heq)
    subst hmn
    have hx' := List.mk_mem_zipIdx_iff_getElem?.mp (List.mem_filter.mp hx).1
    have hy' := List.mk_mem_zipIdx_iff_getElem?.mp (List.mem_filter.mp hy).1
    rw [Option.some.inj (hx'.symm.trans hy')]
  · have hplaces : (bucket.zipIdx.map Prod.snd).Nodup := by
      rw [List.zipIdx_map_snd]
      exact List.nodup_range'
    exact (List.Nodup.of_map _ hplaces).filter _

/-- No id is listed twice. -/
theorem nodup_ids (c : Canvas) : c.ids.Nodup := by
  refine List.nodup_flatMap.mpr ⟨fun e _ => nodup_liveIds e.1 e.2, ?_⟩
  refine (List.pairwise_map.mp c.buckets.nodup).imp ?_
  intro e f hne id he hf
  obtain ⟨m, -, -, rfl⟩ := mem_liveIds.mp he
  obtain ⟨n, -, -, heq⟩ := mem_liveIds.mp hf
  exact hne (congrArg InstanceId.hash (InstanceId.text_injective heq)).symm

end Canvas

end SparqlCompose
