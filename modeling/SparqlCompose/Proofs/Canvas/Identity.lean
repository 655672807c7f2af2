import Mathlib
import SparqlCompose.Proofs.Canvas.Reachable

/-!
# Instance ids are stable

A run of calls starts on a canvas without instances, and each call is addressed to ids that were
issued before.  Whatever the hash of a source is, as long as it has characters, an id then means
one instance for ever (`Canvas.ids_stable`).  Sources may share a bucket: the invariant of the run
(`Canvas.Tracks`) speaks of slots alone.  It says that the slots are those whose ids were issued,
and that a slot is empty when its id was retired.  Slots are never given up, which is why no id
is issued twice.
-/

namespace SparqlCompose

namespace Canvas

/-- The ids that a run of calls issues, oldest first. -/
def issuedAll : Canvas → List Call → List String
  | _, [] => []
  | c, k :: calls => c.issued k ++ (c.after k).issuedAll calls

/-- The ids that a run of calls retires: those of the instances that were destroyed or joined. -/
def retiredAll : Canvas → List Call → List String
  | _, [] => []
  | c, k :: calls => c.retired k ++ (c.after k).retiredAll calls

/-- A run that is cut in two ends where the second part ends. -/
theorem afterAll_append (c : Canvas) (before rest : List Call) :
    c.afterAll (before ++ rest) = (c.afterAll before).afterAll rest :=
  List.foldl_append

/-- Lawful calls lead from a reachable canvas to reachable ones. -/
theorem Reachable.afterAll {c : Canvas} {calls : List Call} (h : c.Reachable)
    (hlawful : ∀ k ∈ calls, k.Lawful) :
    (c.afterAll calls).Reachable := by
  induction calls using List.reverseRecOn with
  | nil => exact h
  | append_singleton calls k ih =>
      rw [afterAll_append]
      rw [List.forall_mem_append, List.forall_mem_singleton] at hlawful
      exact .call (ih hlawful.1) hlawful.2

/-- The ids that a run issues are those of its two parts. -/
theorem issuedAll_append (c : Canvas) (before rest : List Call) :
    c.issuedAll (before ++ rest) = c.issuedAll before ++ (c.afterAll before).issuedAll rest := by
  induction before generalizing c with
  | nil => rfl
  | cons k before ih =>
      rw [List.cons_append, issuedAll, ih, issuedAll, List.append_assoc]
      rfl

/-- The ids that a run retires are those of its two parts. -/
theorem retiredAll_append (c : Canvas) (before rest : List Call) :
    c.retiredAll (before ++ rest) =
      c.retiredAll before ++ (c.afterAll before).retiredAll rest := by
  induction before generalizing c with
  | nil => rfl
  | cons k before ih =>
      rw [List.cons_append, retiredAll, ih, retiredAll, List.append_assoc]
      rfl

/-- The numbers of the slots are machine words. -/
def Roomy (c : Canvas) : Prop := ∀ i x, c.slot? i = some x → i.slot < wordSize

/-- A canvas is roomy when its buckets are short enough. -/
theorem roomy_of_buckets {c : Canvas} (h : ∀ bucket ∈ c.buckets.values, bucket.length ≤ wordSize) :
    c.Roomy := by
  intro i x hx
  obtain ⟨bucket, hbucket, hslot⟩ := exists_bucket hx
  exact Nat.lt_of_lt_of_le (List.getElem?_eq_some_iff.mp hslot).1 (h bucket hbucket)

/-- Emptying a slot changes that slot only. -/
theorem slot?_clear {c : Canvas} {i : InstanceId} {x : Option Query} (h : c.slot? i = some x)
    (j : InstanceId) : (c.setSlot i none).slot? j = if j = i then some none else c.slot? j := by
  rw [slot?_setSlot, h]
  rfl

/-- What a join leaves of the slots before it stores the composite.  The two slots that are emptied
may be one. -/
theorem slot?_emptied {c : Canvas} {i j : InstanceId} {x y : Option Query}
    (hi : c.slot? i = some x) (hj : c.slot? j = some y) (m : InstanceId) :
    ((c.setSlot i none).setSlot j none).slot? m =
      if m = j ∨ m = i then some none else c.slot? m := by
  have hleft : (c.setSlot i none).slot? j = some (if j = i then none else y) := by
    rw [slot?_clear hi]
    split
    · rfl
    · exact hj
  rw [slot?_clear hleft, slot?_clear hi]
  by_cases hmj : m = j
  · simp [hmj]
  · simp [hmj]

/-- The composite gets a slot that was not there before its operands went. -/
theorem ne_nextId_emptied {c : Canvas} {i j m : InstanceId} {x y z : Option Query}
    (hi : c.slot? i = some x) (hj : c.slot? j = some y) (hm : c.slot? m = some z)
    (source : String) : m ≠ ((c.setSlot i none).setSlot j none).nextId source := by
  have hslot : ((c.setSlot i none).setSlot j none).slot? m =
      some (if m = j ∨ m = i then none else z) := by
    rw [slot?_emptied hi hj, hm]
    split <;> rfl
  exact ne_nextId hslot source

/-! ### The invariant of a run -/

/-- The slots of the canvas are those of the issued ids, and the empty ones those of the retired
ids. -/
structure Tracks (c : Canvas) (issued retired : List String) : Prop where
  hash_ne : ∀ i x, c.slot? i = some x → i.hash ≠ ""
  issued_iff : ∀ id, id ∈ issued ↔ ∃ i x, c.slot? i = some x ∧ i.text = id
  retired_iff : ∀ id, id ∈ retired ↔ ∃ i, c.slot? i = some none ∧ i.text = id
  issued_nodup : issued.Nodup

namespace Tracks

variable {c c' : Canvas} {issued retired : List String} {i : InstanceId} {id : String}

/-- On a canvas without instances no id has been issued. -/
theorem start (h : c.buckets = ∅) : c.Tracks [] [] := by
  have hnone : ∀ i, c.slot? i = none := by
    intro i
    rw [slot?, h]
    rfl
  refine ⟨?_, ?_, ?_, List.nodup_nil⟩
  · intro i x hx
    rw [hnone] at hx
    cases hx
  · simp [hnone]
  · simp [hnone]

/-- An issued id names the slot that it was issued for. -/
theorem ofText?_eq (h : c.Tracks issued retired) (hroom : c.Roomy) (hid : id ∈ issued) :
    ∃ i x, InstanceId.ofText? id = some i ∧ c.slot? i = some x ∧ i.text = id := by
  obtain ⟨i, x, hx, rfl⟩ := (h.issued_iff id).mp hid
  exact ⟨i, x, InstanceId.ofText?_text (h.hash_ne i x hx) (hroom i x hx), hx, rfl⟩

/-- An issued id that is read has the text from which it was read. -/
theorem text_of_ofText? (h : c.Tracks issued retired) (hroom : c.Roomy) (hid : id ∈ issued)
    (hread : InstanceId.ofText? id = some i) : i.text = id := by
  obtain ⟨j, x, hj, -, htext⟩ := h.ofText?_eq hroom hid
  obtain rfl := Option.some.inj (hread.symm.trans hj)
  exact htext

/-- Slots may be written, as long as none comes, goes, is emptied or filled. -/
theorem of_slots (h : c.Tracks issued retired)
    (hslots : ∀ j, (c'.slot? j).map Option.isSome = (c.slot? j).map Option.isSome) :
    c'.Tracks issued retired := by
  have hsome : ∀ j, (∃ x, c'.slot? j = some x) ↔ ∃ x, c.slot? j = some x := by
    intro j
    have hj := hslots j
    cases hc' : c'.slot? j <;> cases hc : c.slot? j <;> simp_all
  have hnone : ∀ j, c'.slot? j = some none ↔ c.slot? j = some none := by
    intro j
    have hj := hslots j
    cases hc' : c'.slot? j with
    | none => cases hc : c.slot? j <;> simp_all
    | some x =>
        cases hc : c.slot? j with
        | none => simp_all
        | some y => cases x <;> cases y <;> simp_all
  refine ⟨?_, ?_, ?_, h.issued_nodup⟩
  · intro i x hx
    obtain ⟨y, hy⟩ := (hsome i).mp ⟨x, hx⟩
    exact h.hash_ne i y hy
  · intro id
    rw [h.issued_iff]
    refine exists_congr fun j => ?_
    rw [exists_and_right, exists_and_right, hsome]
  · intro id
    rw [h.retired_iff]
    exact exists_congr fun j => by rw [hnone]

/-- The id of an emptied slot is retired. -/
theorem clear (h : c.Tracks issued retired) {q : Query} (hi : c.slot? i = some (some q)) :
    (c.setSlot i none).Tracks issued (retired ++ [i.text]) := by
  refine ⟨?_, ?_, ?_, h.issued_nodup⟩
  · intro j x hx
    rw [slot?_clear hi] at hx
    split at hx
    · next hji => exact h.hash_ne j (some q) (hji ▸ hi)
    · exact h.hash_ne j x hx
  · intro id
    rw [h.issued_iff]
    refine exists_congr fun j => ?_
    rw [slot?_clear hi]
    by_cases hji : j = i
    · subst hji
      simp [hi]
    · simp [hji]
  · intro id
    rw [List.mem_append, h.retired_iff, List.mem_singleton]
    constructor
    · rintro (⟨j, hj, rfl⟩ | rfl)
      · have hji : j ≠ i := by
          rintro rfl
          rw [hi] at hj
          cases hj
        exact ⟨j, by rw [slot?_clear hi, if_neg hji, hj], rfl⟩
      · exact ⟨i, by rw [slot?_clear hi, if_pos rfl], rfl⟩
    · rintro ⟨j, hj, rfl⟩
      rw [slot?_clear hi] at hj
      split at hj
      · next hji => exact Or.inr (by rw [hji])
      · exact Or.inl ⟨j, hj, rfl⟩

/-- The id of a new slot is issued. -/
theorem store (h : c.Tracks issued retired) {source : String} (hsource : c.sourceHash source ≠ "")
    (q : Query) : (c.store source q).Tracks (issued ++ [(c.nextId source).text]) retired := by
  have hnext := slot?_nextId c source
  refine ⟨?_, ?_, ?_, ?_⟩
  · intro j x hx
    rw [slot?_store] at hx
    split at hx
    · next hj => exact hj ▸ hsource
    · exact h.hash_ne j x hx
  · intro id
    rw [List.mem_append, h.issued_iff, List.mem_singleton]
    constructor
    · rintro (⟨j, x, hj, rfl⟩ | rfl)
      · exact ⟨j, x, by rw [slot?_store, if_neg (ne_nextId hj source), hj], rfl⟩
      · exact ⟨_, _, by rw [slot?_store, if_pos rfl], rfl⟩
    · rintro ⟨j, x, hj, rfl⟩
      rw [slot?_store] at hj
      split at hj
      · next hji => exact Or.inr (by rw [hji])
      · exact Or.inl ⟨j, x, hj, rfl⟩
  · intro id
    rw [h.retired_iff]
    refine exists_congr fun j => ?_
    rw [slot?_store]
    by_cases hj : j = c.nextId source
    · subst hj
      simp [hnext]
    · simp [hj]
  · -- the new id is the text of a slot that was not there
    refine List.nodup_append.mpr ⟨h.issued_nodup, List.nodup_singleton _, ?_⟩
    rintro id hid id' hid' rfl
    obtain ⟨j, x, hj, htext⟩ := (h.issued_iff id).mp hid
    rw [InstanceId.text_injective (htext.trans (List.mem_singleton.mp hid')), hnext] at hj
    cases hj

/-- The operands of a join are two instances, since each id is written in one way. -/
theorem ne_of_texts (h : c.Tracks issued retired) (hroom : c.Roomy) {left right : String}
    {j : InstanceId} {l r : Query} (hne : left ≠ right) (hleft : left ∈ issued)
    (hright : right ∈ issued) (hl : c.find left = .ok (i, l)) (hr : c.find right = .ok (j, r)) :
    j ≠ i := by
  rintro rfl
  have htext := h.text_of_ofText? hroom hleft (find_eq_ok.mp hl).1
  have htext' := h.text_of_ofText? hroom hright (find_eq_ok.mp hr).1
  exact hne (htext.symm.trans htext')

end Tracks

/-! ### What one call does to the ids -/

section Step

variable {c c' : Canvas} {k : Call} {issued retired new gone : List String}

/-- Writing a slot makes no slot and takes none away. -/
theorem isSome_slot?_setSlot (c : Canvas) (i m : InstanceId) (x : Option Query) :
    ((c.setSlot i x).slot? m).isSome = (c.slot? m).isSome := by
  rw [slot?_setSlot]
  split
  · next hmi => rw [Option.isSome_map, hmi]
  · rfl

/-- Storing an instance takes no slot away. -/
theorem isSome_slot?_store (source : String) (q : Query) {m : InstanceId}
    (hm : (c.slot? m).isSome) : ((c.store source q).slot? m).isSome := by
  rw [slot?_store]
  split
  · rfl
  · exact hm

/-- No call gives up a slot. -/
theorem Change.isSome_slot? (hchange : c.Change k c' new gone) {m : InstanceId}
    (hm : (c.slot? m).isSome) : (c'.slot? m).isSome := by
  cases hchange with
  | idle hslots => rwa [hslots]
  | edited _ _ _ _ hslots =>
      rw [hslots]
      split
      · rfl
      · exact hm
  | stored _ hslots =>
      rw [hslots]
      exact isSome_slot?_store _ _ hm
  | destroyed _ _ hslots => rwa [hslots, isSome_slot?_setSlot]
  | joined _ _ _ _ _ hcleared hslots =>
      rw [hslots]
      refine isSome_slot?_store _ _ ?_
      rwa [hcleared, isSome_slot?_setSlot, isSome_slot?_setSlot]

/-- A call leaves alone the slots of the ids that it is not addressed to. -/
theorem Change.slot?_eq (hchange : c.Change k c' new gone) (h : c.Tracks issued retired)
    (hroom : c.Roomy) (htargets : ∀ id ∈ k.targets, id ∈ issued) {m : InstanceId}
    {x : Option Query} (hm : c.slot? m = some x) (hother : m.text ∉ k.targets) :
    c'.slot? m = some x := by
  cases hchange with
  | idle hslots => rw [hslots, hm]
  | @edited text i q q' hk hid hq _ hslots =>
      have hmi : m ≠ i := by
        rintro rfl
        exact hother (by simp [hk, h.text_of_ofText? hroom (htargets text (by simp [hk])) hid])
      rw [hslots, if_neg hmi, hm]
  | @stored source q _ hslots =>
      rw [hslots, slot?_store, if_neg (ne_nextId hm source), hm]
  | @destroyed text i q hk hfind hslots =>
      obtain ⟨hid, hq⟩ := find_eq_ok.mp hfind
      have htarget : text ∈ k.targets := by simp [hk, Call.targets]
      have hmi : m ≠ i := by
        rintro rfl
        exact hother (h.text_of_ofText? hroom (htargets text htarget) hid ▸ htarget)
      rw [hslots, slot?_clear hq, if_neg hmi, hm]
  | @joined left right mode used i j l r q cleared hk hne hleft hright _ hcleared hslots =>
      obtain ⟨hid, hl⟩ := find_eq_ok.mp hleft
      obtain ⟨hid', hr⟩ := find_eq_ok.mp hright
      have htarget : left.1 ∈ k.targets := by simp [hk, Call.targets]
      have htarget' : right.1 ∈ k.targets := by simp [hk, Call.targets]
      have hji := h.ne_of_texts hroom hne (htargets _ htarget) (htargets _ htarget') hleft hright
      have hmi : m ≠ i := by
        rintro rfl
        exact hother (h.text_of_ofText? hroom (htargets _ htarget) hid ▸ htarget)
      have hmj : m ≠ j := by
        rintro rfl
        exact hother (h.text_of_ofText? hroom (htargets _ htarget') hid' ▸ htarget')
      have hslot : cleared.slot? m = some x := by
        rw [hcleared, slot?_emptied hl hr, if_neg (by simp [hmi, hmj]), hm]
      rw [hslots, slot?_store, if_neg (ne_nextId hslot q.uri), hslot]

/-- **A call keeps track of the ids.**  Those that it issues are new, and those that it retires
are the ids of the slots that it empties. -/
theorem Tracks.change (h : c.Tracks issued retired) (hroom : c.Roomy)
    (hhash : ∀ s, c.sourceHash s ≠ "") (htargets : ∀ id ∈ k.targets, id ∈ issued)
    (hchange : c.Change k c' new gone) : c'.Tracks (issued ++ new) (retired ++ gone) := by
  cases hchange with
  | idle hslots =>
      rw [List.append_nil, List.append_nil]
      exact h.of_slots fun j => by rw [hslots]
  | @edited text i q q' _ _ hq _ hslots =>
      rw [List.append_nil, List.append_nil]
      refine h.of_slots fun j => ?_
      rw [hslots]
      split
      · next hji => rw [hji, hq]; rfl
      · rfl
  | @stored source q _ hslots =>
      rw [List.append_nil]
      exact (h.store (hhash source) q).of_slots fun j => by rw [hslots]
  | @destroyed text i q hk hfind hslots =>
      obtain ⟨hid, hq⟩ := find_eq_ok.mp hfind
      have htext : i.text = text :=
        h.text_of_ofText? hroom (htargets text (by simp [hk, Call.targets])) hid
      rw [List.append_nil, ← htext]
      exact (h.clear hq).of_slots fun j => by rw [hslots]
  | @joined left right mode used i j l r q cleared hk hne hleft hright _ hcleared hslots =>
      obtain ⟨hid, hl⟩ := find_eq_ok.mp hleft
      obtain ⟨hid', hr⟩ := find_eq_ok.mp hright
      have hleft' : left.1 ∈ issued := htargets _ (by simp [hk, Call.targets])
      have hright' : right.1 ∈ issued := htargets _ (by simp [hk, Call.targets])
      have hji := h.ne_of_texts hroom hne hleft' hright' hleft hright
      -- the right operand is still there when the slot of the left one has been emptied
      have hr' : (c.setSlot i none).slot? j = some (some r) := by
        rw [slot?_clear hl, if_neg hji, hr]
      have hboth : cleared.Tracks issued (retired ++ [left.1, right.1]) := by
        have htwo := (h.clear hl).clear hr'
        rw [h.text_of_ofText? hroom hleft' hid, h.text_of_ofText? hroom hright' hid',
          List.append_assoc] at htwo
        exact hcleared ▸ htwo
      have hsource : cleared.sourceHash q.uri ≠ "" := by
        rw [hcleared, sourceHash_setSlot, sourceHash_setSlot]
        exact hhash q.uri
      exact (hboth.store hsource q).of_slots fun m => by rw [hslots]

end Step

/-! ### Runs -/

/-- A run of calls on a canvas without instances, as the ids are made for. -/
structure Orderly (c : Canvas) (calls : List Call) : Prop where
  start : c.buckets = ∅
  hash_ne : ∀ source, c.sourceHash source ≠ ""
  /-- Every call is addressed to ids that calls before it issued. -/
  addressed : ∀ n (hn : n < calls.length), ∀ id ∈ calls[n].targets,
    id ∈ c.issuedAll (calls.take n)
  /-- The buckets are so small that the number of every slot is a machine word. -/
  room : ∀ bucket ∈ (c.afterAll calls).buckets.values, bucket.length ≤ wordSize

/-- What holds of the ids of a run of calls. -/
structure StableIds (c : Canvas) (calls : List Call) : Prop where
  /-- No id is issued twice. -/
  issued_nodup : (c.issuedAll calls).Nodup
  ids_nodup : (c.afterAll calls).ids.Nodup
  mem_ids : ∀ id, id ∈ (c.afterAll calls).ids ↔ id ∈ c.issuedAll calls ∧ id ∉ c.retiredAll calls
  /-- The instance of a listed id is found. -/
  found : ∀ id ∈ (c.afterAll calls).ids,
    ∃ i q, i.text = id ∧ (c.afterAll calls).find id = .ok (i, q)
  /-- An instance is as the last call left it that was addressed to it. -/
  kept : ∀ before rest, calls = before ++ rest → ∀ id ∈ c.issuedAll before,
    (∀ k ∈ rest, id ∉ k.targets) → (c.afterAll calls).find id = (c.afterAll before).find id
  /-- A retired id is unknown from then on. -/
  unknown : ∀ before rest, calls = before ++ rest → ∀ id ∈ c.retiredAll before,
    (c.afterAll calls).find id = .error (.unknownInstance id)

variable {c : Canvas} {calls before rest : List Call} {k : Call}

/-- No call changes the hash. -/
theorem sourceHash_afterAll (c : Canvas) (calls : List Call) :
    (c.afterAll calls).sourceHash = c.sourceHash := by
  induction calls generalizing c with
  | nil => rfl
  | cons k calls ih => exact (ih (c.after k)).trans (c.effect k).sourceHash

/-- Slots that are there before a run are there after it. -/
theorem isSome_slot?_afterAll {m : InstanceId} (hm : (c.slot? m).isSome) (calls : List Call) :
    ((c.afterAll calls).slot? m).isSome := by
  induction calls generalizing c with
  | nil => exact hm
  | cons k calls ih => exact ih ((c.effect k).change.isSome_slot? hm)

/-- If there is room at the end of a run, there was room at its start. -/
theorem Roomy.of_afterAll (h : (c.afterAll calls).Roomy) : c.Roomy := by
  intro i x hx
  obtain ⟨y, hy⟩ := Option.isSome_iff_exists.mp
    (isSome_slot?_afterAll (m := i) (by rw [hx]; rfl) calls)
  exact h i y hy

namespace Orderly

/-- A call of the run is addressed to ids that were issued before it. -/
theorem mem_issuedAll (h : c.Orderly (before ++ k :: rest)) :
    ∀ id ∈ k.targets, id ∈ c.issuedAll before := by
  intro id hid
  have hn : before.length < (before ++ k :: rest).length := by simp
  have hmem := h.addressed before.length hn id (by simpa using hid)
  rwa [List.take_left] at hmem

/-- The canvases of the run are roomy. -/
theorem roomy (h : c.Orderly (before ++ rest)) : (c.afterAll before).Roomy := by
  have hroom := roomy_of_buckets h.room
  rw [afterAll_append] at hroom
  exact hroom.of_afterAll

/-- The ids are tracked after each part of the run.  The induction is on the last call. -/
theorem tracks (h : c.Orderly (before ++ rest)) :
    (c.afterAll before).Tracks (c.issuedAll before) (c.retiredAll before) := by
  induction before using List.reverseRecOn generalizing rest with
  | nil => exact .start h.start
  | append_singleton before k ih =>
      rw [List.append_assoc] at h
      have hstep := (ih h).change h.roomy
        (by rw [sourceHash_afterAll]; exact h.hash_ne)
        h.mem_issuedAll ((c.afterAll before).effect k).change
      rw [issuedAll_append, retiredAll_append, afterAll_append]
      simpa [issuedAll, retiredAll, afterAll] using hstep

/-- Calls that are not addressed to an id leave what it names alone. -/
theorem find_eq (h : c.Orderly (before ++ rest)) {id : String} (hid : id ∈ c.issuedAll before)
    (hother : ∀ k ∈ rest, id ∉ k.targets) :
    (c.afterAll (before ++ rest)).find id = (c.afterAll before).find id := by
  induction rest generalizing before with
  | nil => rw [List.append_nil]
  | cons k rest ih =>
      have hnext : before ++ k :: rest = (before ++ [k]) ++ rest := by simp
      have hid' : id ∈ c.issuedAll (before ++ [k]) := by
        rw [issuedAll_append]
        exact List.mem_append_left _ hid
      have hfind := ih (hnext ▸ h) hid' fun k' hk' => hother k' (List.mem_cons_of_mem _ hk')
      rw [hnext, hfind]
      have hafter : c.afterAll (before ++ [k]) = (c.afterAll before).after k :=
        afterAll_append c before [k]
      obtain ⟨i, x, hread, hx, htext⟩ := h.tracks.ofText?_eq h.roomy hid
      refine find_congr fun j hj => ?_
      obtain rfl := Option.some.inj (hread.symm.trans hj)
      rw [hafter, hx]
      exact ((c.afterAll before).effect k).change.slot?_eq h.tracks h.roomy
        h.mem_issuedAll hx (htext ▸ hother k List.mem_cons_self)

end Orderly

/-- **Ids are stable and never issued again.**  Whatever the hash of a source is, collisions
included, an id that a run has issued goes on naming its instance until it is retired, and is
unknown from then on. -/
theorem ids_stable (h : c.Orderly calls) : c.StableIds calls := by
  have hall : c.Orderly (calls ++ []) := (List.append_nil calls).symm ▸ h
  have htracks := hall.tracks
  have hroom := hall.roomy
  refine ⟨htracks.issued_nodup, nodup_ids _, ?_, ?_, ?_, ?_⟩
  · intro id
    rw [mem_ids, htracks.issued_iff, htracks.retired_iff]
    constructor
    · rintro ⟨i, q, hq, rfl⟩
      refine ⟨⟨i, some q, hq, rfl⟩, ?_⟩
      rintro ⟨j, hj, htext⟩
      rw [InstanceId.text_injective htext, hq] at hj
      cases hj
    · rintro ⟨⟨i, x, hx, rfl⟩, hretired⟩
      cases x with
      | none => exact absurd ⟨i, hx, rfl⟩ hretired
      | some q => exact ⟨i, q, hx, rfl⟩
  · intro id hid
    obtain ⟨i, q, hq, rfl⟩ := mem_ids.mp hid
    exact ⟨i, q, rfl, find_eq_ok.mpr
      ⟨InstanceId.ofText?_text (htracks.hash_ne i _ hq) (hroom i _ hq), hq⟩⟩
  · rintro before rest rfl id hid hother
    exact h.find_eq hid hother
  · rintro before rest rfl id hid
    have hretired : id ∈ c.retiredAll (before ++ rest) := by
      rw [retiredAll_append]
      exact List.mem_append_left _ hid
    obtain ⟨i, hi, rfl⟩ := (htracks.retired_iff id).mp hretired
    exact find_eq_unknown (InstanceId.ofText?_text (htracks.hash_ne i _ hi) (hroom i _ hi)) hi

/-- A canvas on which all sources have the same hash. -/
def crowdedCanvas : Canvas := { sourceHash := fun _ => "h" }

/-- Two sources that share a bucket are joined, the composite is edited and destroyed, and a third
instance takes a slot of its own. -/
def crowdedRun : List Call :=
  [.insert "urn:people" peopleQuery, .insert "urn:cities" citiesQuery, .addVariable "h_0" "age",
    .join ("h_0", "city") ("h_1", "place") .inline, .reorder "h_2" ["x"], .destroy "h_2",
    .project "h_0" "id" false, .insert "urn:people" peopleQuery]

/-- Two sources share a bucket: ids of instances that are gone are not given to others. -/
theorem ids_stable_crowded :
    crowdedCanvas.Orderly crowdedRun ∧
      crowdedCanvas.issuedAll crowdedRun = ["h_0", "h_1", "h_2", "h_3"] ∧
      crowdedCanvas.retiredAll crowdedRun = ["h_0", "h_1", "h_2"] ∧
      crowdedCanvas.StableIds crowdedRun := by
  have horderly : crowdedCanvas.Orderly crowdedRun :=
    ⟨rfl, fun _ => (by decide : "h" ≠ ""), by decide +kernel, by decide +kernel⟩
  exact ⟨horderly, by decide +kernel, by decide +kernel, ids_stable horderly⟩

end Canvas

end SparqlCompose
