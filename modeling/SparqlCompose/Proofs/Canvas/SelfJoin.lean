import Mathlib
import SparqlCompose.Proofs.Canvas.Identity

/-!
# A join takes two instances

A join that succeeds empties the slots of its operands and fills a new one, so the number of
instances goes down by one less than the number of slots that it empties
(`Canvas.Taken.length_ids`).  These are two slots unless both operands are one instance.  The guard
against that compares the ids as texts.  The reader of ids is more lenient than the guard: a slot
may have a plus sign or zeros in front.  For ids in the form in which a canvas writes them there is
no difference (`InstanceId.IsWritten.eq_text`), and then a join of an instance with itself is
refused, and every join that succeeds takes two instances (`Canvas.join_takes_two`).
-/

namespace SparqlCompose

namespace InstanceId

/-- The text has the form in which a canvas writes the id of a slot. -/
def IsWritten (text : String) : Prop := ∃ i : InstanceId, i.text = text

/-- A written id that is read is the text of the slot that it names. -/
theorem IsWritten.eq_text {text : String} (h : IsWritten text) {i : InstanceId}
    (hread : ofText? text = some i) : text = i.text := by
  obtain ⟨j, rfl⟩ := h
  simp only [ofText?, cutLast_text, Option.bind_eq_bind, Option.bind_some, List.dropLast_concat,
    slotOf?_toString] at hread
  split at hread
  · cases hread
  · obtain ⟨slot, hslot, rfl⟩ := Option.map_eq_some_iff.mp hread
    split at hslot
    · rw [← Option.some.inj hslot, String.ofList_toList]
    · cases hslot

end InstanceId

namespace Canvas

/-- What a join that succeeds leaves of the canvas: the slots of its operands are empty, and the
composite has a new id. -/
structure Taken (c c' : Canvas) (i j : InstanceId) (id : String) : Prop where
  left : c'.slot? i = some none
  right : c'.slot? j = some none
  new : id ∉ c.ids
  mem_ids : ∀ t, t ∈ c'.ids ↔ t = id ∨ (t ∈ c.ids ∧ t ≠ i.text ∧ t ≠ j.text)

variable {c c' : Canvas} {i j : InstanceId} {id : String}

/-- **A join that succeeds** has found both operands, and takes them for the composite. -/
theorem exists_taken {left right : String × String} {mode : JoinMode}
    (hok : (CanvasM.join left right mode).result c = (.ok id, c')) :
    ∃ i j l r, left.1 ≠ right.1 ∧ c.find left.1 = .ok (i, l) ∧ c.find right.1 = .ok (j, r) ∧
      c.Taken c' i j id := by
  rcases CanvasM.result_join left right mode c with
    ⟨e, hfail⟩ | ⟨i, l, j, r, q, used, cleared, hne, hleft, hright, -, hcleared, hresult⟩
  · rw [hfail] at hok
    cases hok
  obtain ⟨hanswer, rfl⟩ := Prod.mk.inj (hok.symm.trans hresult)
  obtain rfl := Except.ok.inj hanswer
  have hl := (find_eq_ok.mp hleft).2
  have hr := (find_eq_ok.mp hright).2
  have hempty : ∀ m, cleared.slot? m = if m = j ∨ m = i then some none else c.slot? m :=
    hcleared ▸ slot?_emptied hl hr
  -- emptied slots stay slots, so the new id is not that of an operand either
  have hfresh : ∀ {m x}, c.slot? m = some x → m ≠ cleared.nextId q.uri := by
    intro m x hm
    rw [hcleared]
    exact ne_nextId_emptied hl hr hm q.uri
  have hslots : ∀ m, (((cleared.store q.uri q).noted (.instantiated (cleared.nextId q.uri).text
      q.uri)).noted (.joined left.1 (cleared.nextId q.uri).text right.1)).slot? m =
      (cleared.store q.uri q).slot? m := fun _ => rfl
  refine ⟨i, j, l, r, hne, hleft, hright, ?_, ?_, ?_, ?_⟩
  · rw [hslots, slot?_store, if_neg (hfresh hl), hempty, if_pos (Or.inr rfl)]
  · rw [hslots, slot?_store, if_neg (hfresh hr), hempty, if_pos (Or.inl rfl)]
  · intro hmem
    obtain ⟨m, p, hm, htext⟩ := mem_ids.mp hmem
    exact hfresh hm (InstanceId.text_injective htext)
  · intro t
    rw [mem_ids, mem_ids]
    constructor
    · rintro ⟨m, p, hm, rfl⟩
      rw [hslots, slot?_store] at hm
      split at hm
      · next hnew => exact Or.inl (by rw [hnew])
      · rw [hempty] at hm
        split at hm
        · cases hm
        · next hother =>
            rw [not_or] at hother
            exact Or.inr ⟨⟨m, p, hm, rfl⟩, InstanceId.text_injective.ne hother.2,
              InstanceId.text_injective.ne hother.1⟩
    · rintro (rfl | ⟨⟨m, p, hm, rfl⟩, hmi, hmj⟩)
      · exact ⟨_, _, by rw [hslots, slot?_store, if_pos rfl], rfl⟩
      · have hother : ¬ (m = j ∨ m = i) := by
          rintro (rfl | rfl)
          · exact hmj rfl
          · exact hmi rfl
        exact ⟨m, p, by rw [hslots, slot?_store, if_neg (hfresh hm), hempty, if_neg hother, hm],
          rfl⟩

/-- One instance comes for those that go. -/
theorem Taken.length_ids (h : c.Taken c' i j id) (hi : i.text ∈ c.ids) (hj : j.text ∈ c.ids) :
    c'.ids.length + ({i, j} : Finset InstanceId).card = c.ids.length + 1 := by
  let gone : Finset String := {i.text, j.text}
  have hgone : gone ⊆ c.ids.toFinset := by
    intro t ht
    rw [List.mem_toFinset]
    rcases Finset.mem_insert.mp ht with rfl | ht
    · exact hi
    · exact Finset.mem_singleton.mp ht ▸ hj
  have hcard : gone.card = ({i, j} : Finset InstanceId).card := by
    rw [← Finset.card_image_of_injective {i, j} InstanceId.text_injective]
    simp [gone, Finset.image_insert]
  have hafter : c'.ids.toFinset = insert id (c.ids.toFinset \ gone) := by
    ext t
    simp [h.mem_ids, gone]
  have hnew : id ∉ c.ids.toFinset \ gone := by
    intro hmem
    exact h.new (List.mem_toFinset.mp (Finset.mem_sdiff.mp hmem).1)
  have hcount : c'.ids.length = (c.ids.toFinset \ gone).card + 1 := by
    rw [← List.toFinset_card_of_nodup (nodup_ids c'), hafter, Finset.card_insert_of_notMem hnew]
  have hsplit := Finset.card_sdiff_add_card_eq_card hgone
  rw [List.toFinset_card_of_nodup (nodup_ids c), hcard] at hsplit
  omega

/-- **A join takes two instances.**  When both ids are in the form in which a canvas writes them, a
join of an instance with itself is refused and changes nothing, and a join that succeeds takes two
instances and leaves one instance less. -/
theorem join_takes_two (c : Canvas) (left right : String × String) (mode : JoinMode)
    (hleft : InstanceId.IsWritten left.1) (hright : InstanceId.IsWritten right.1) :
    (∀ i l r, c.find left.1 = .ok (i, l) → c.find right.1 = .ok (i, r) →
      (CanvasM.join left right mode).result c =
        (.error (.query (.join (.sameInstance left.1))), c)) ∧
    ∀ id c', (CanvasM.join left right mode).result c = (.ok id, c') →
      ∃ i j l r, i ≠ j ∧ c.find left.1 = .ok (i, l) ∧ c.find right.1 = .ok (j, r) ∧
        c.Taken c' i j id ∧ c'.ids.length + 1 = c.ids.length := by
  constructor
  · intro i l r hl hr
    have hsame : left.1 = right.1 :=
      (hleft.eq_text (find_eq_ok.mp hl).1).trans (hright.eq_text (find_eq_ok.mp hr).1).symm
    unfold CanvasM.join
    rw [if_pos hsame]
    rfl
  · intro id c' hok
    obtain ⟨i, j, l, r, hne, hl, hr, htaken⟩ := exists_taken hok
    obtain ⟨hi, hlslot⟩ := find_eq_ok.mp hl
    obtain ⟨hj, hrslot⟩ := find_eq_ok.mp hr
    have hij : i ≠ j := by
      rintro rfl
      exact hne ((hleft.eq_text hi).trans (hright.eq_text hj).symm)
    have hcount := htaken.length_ids (mem_ids.mpr ⟨i, l, hlslot, rfl⟩)
      (mem_ids.mpr ⟨j, r, hrslot, rfl⟩)
    rw [Finset.card_pair hij] at hcount
    exact ⟨i, j, l, r, hij, hl, hr, htaken, by omega⟩

/-- The two instances of the example are joined, and one is left. -/
theorem citizensCanvas_takes_two :
    ∃ c' i j, i ≠ j ∧ citizensCanvas.Taken c' i j "eda5096044d5e5b3_0" ∧
      c'.ids = ["eda5096044d5e5b3_0"] ∧ c'.ids.length + 1 = citizensCanvas.ids.length := by
  have hanswer : ((CanvasM.join ("e5a5f51b05a2dc8b_0", "id") ("699c2333db03cdca_0", "id")
      .inline).result citizensCanvas).1 = .ok "eda5096044d5e5b3_0" := by decide +kernel
  have hids : ((CanvasM.join ("e5a5f51b05a2dc8b_0", "id") ("699c2333db03cdca_0", "id")
      .inline).result citizensCanvas).2.ids = ["eda5096044d5e5b3_0"] := by decide +kernel
  have hleft : InstanceId.IsWritten "e5a5f51b05a2dc8b_0" :=
    ⟨⟨"e5a5f51b05a2dc8b", 0⟩, by decide +kernel⟩
  have hright : InstanceId.IsWritten "699c2333db03cdca_0" :=
    ⟨⟨"699c2333db03cdca", 0⟩, by decide +kernel⟩
  obtain ⟨i, j, -, -, hij, -, -, htaken, hcount⟩ :=
    (join_takes_two citizensCanvas ("e5a5f51b05a2dc8b_0", "id") ("699c2333db03cdca_0", "id") .inline
      hleft hright).2 _ _ (Prod.ext hanswer rfl)
  exact ⟨_, i, j, hij, htaken, hids, hcount⟩

/-- The slot of an id may be written with a plus sign.  So an instance of the example is joined with
itself: one instance goes and one comes. -/
theorem citizensCanvas_self_join :
    ∃ i q c', citizensCanvas.Reachable ∧ citizensCanvas.find "e5a5f51b05a2dc8b_0" = .ok (i, q) ∧
      citizensCanvas.find "e5a5f51b05a2dc8b_+0" = .ok (i, q) ∧
      (CanvasM.join ("e5a5f51b05a2dc8b_0", "id") ("e5a5f51b05a2dc8b_+0", "id") .inline).result
        citizensCanvas = (.ok "04c7d254ee406b0b_0", c') ∧
      c'.ids.length = citizensCanvas.ids.length := by
  obtain ⟨q, hq⟩ : ∃ q, citizensCanvas.instance? ⟨"e5a5f51b05a2dc8b", 0⟩ = some q :=
    Option.isSome_iff_exists.mp (by decide +kernel)
  have hslot := instance?_eq_some_iff.mp hq
  have hplain : InstanceId.ofText? "e5a5f51b05a2dc8b_0" = some ⟨"e5a5f51b05a2dc8b", 0⟩ := by
    decide +kernel
  have hsigned : InstanceId.ofText? "e5a5f51b05a2dc8b_+0" = some ⟨"e5a5f51b05a2dc8b", 0⟩ := by
    decide +kernel
  refine ⟨_, q, _, citizensCanvas_reachable, find_eq_ok.mpr ⟨hplain, hslot⟩,
    find_eq_ok.mpr ⟨hsigned, hslot⟩, Prod.ext ?_ rfl, ?_⟩
  · decide +kernel
  · decide +kernel

end Canvas

end SparqlCompose
