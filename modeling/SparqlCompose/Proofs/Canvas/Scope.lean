import Mathlib
import SparqlCompose.Proofs.Canvas.Reachable
import SparqlCompose.Proofs.Join.CaptureFree

/-!
# Instances share no variables

In a reachable canvas no variable of one instance has the URI of a variable of another
(`Canvas.Reachable.apart`).  The reason is where the instance mark can stand.  A URI ends in the
mark and the id of the instance, and an id has no semicolon, so the last semicolon of the URI
begins the mark: the id can be read off the URI, whatever stands before.  A join of two instances
therefore identifies no variables but the two that it joins, and every other one has an entry of
its own in the composite (`Query.JoinsApart`).
-/

namespace SparqlCompose

/-- The instance mark begins with a semicolon and has no other. -/
theorem exists_instanceMark_eq :
    ∃ word, Variable.instanceMark = ';' :: word ∧ ∀ c ∈ word, (c == ';') = false :=
  ⟨['i', 'n', 's', 't', 'a', 'n', 'c', 'e', '='], by decide +kernel, by simp⟩

/-- A text ends in the instance mark and an id in one way only. -/
theorem scopeEnd_inj {a b : String} {cs : List Char} (ha : ';' ∉ a.toList) (hb : ';' ∉ b.toList)
    (hacs : scopeEnd a <:+ cs) (hbcs : scopeEnd b <:+ cs) : a = b := by
  obtain ⟨word, hmark, hword⟩ := exists_instanceMark_eq
  have hcut : ∀ (id : String) (front : List Char), ';' ∉ id.toList →
      cutLast (· == ';') (front ++ scopeEnd id) = some (front ++ [';'], word ++ id.toList) := by
    intro id front hid
    rw [scopeEnd, hmark, List.cons_append]
    refine cutLast_of_not_mem (by decide) front ?_
    intro c hc
    rcases List.mem_append.mp hc with hc | hc
    · exact hword c hc
    · rw [beq_eq_false_iff_ne]
      rintro rfl
      exact hid hc
  obtain ⟨front, rfl⟩ := hacs
  obtain ⟨front', heq⟩ := hbcs
  have hboth := hcut b front' hb
  rw [heq, hcut a front ha] at hboth
  have hids := (Prod.mk.inj (Option.some.inj hboth)).2
  exact String.toList_inj.mp (List.append_cancel_left hids)

/-- The query `q` is a composite of `l` and `r` in the instance `id`.  It has an entry for every
variable of either, the left ones where they were and the right ones at the places that `place`
says, and the two variables that were joined are the only ones that have become one.  Its
patterns, result columns and order keys are those of `l` and then those of `r`, where each
variable of `r` is written as the one at its place. -/
structure Query.JoinsApart (l r q : Query) (leftId rightId : VarId) (id : String)
    (place : VarId → VarId) : Prop where
  size : q.table.size + 1 = l.table.size + r.table.size
  /-- One entry stands for both joined variables. -/
  joined : ∃ v w, l.table.at? leftId = some v ∧ r.table.at? rightId = some w ∧
    q.table.at? leftId = some ((Query.sharedVariable l r v w).scopeTo id)
  /-- Any other variable of `l` has an entry of its own. -/
  kept : ∀ a v, a ≠ leftId → l.table.at? a = some v → q.table.at? a = some (v.scopeTo id)
  /-- Any other variable of `r` has an entry of its own, under a name that no variable of `l` has
  and none of `r` that was brought in before it. -/
  added : ∀ b w, b ≠ rightId → r.table.at? b = some w → ∃ name,
    q.table.at? (place b) = some (Variable.scopeTo { w with name := name } id) ∧
      name ∉ l.table.keys ∧ ∀ b' < b, q.table.keys[place b']? ≠ some name
  place_lt : ∀ b < r.table.size, place b < q.table.size
  place_injOn : Set.InjOn place {b | b < r.table.size}
  place_eq_iff : ∀ a < l.table.size, ∀ b < r.table.size,
    place b = a ↔ a = leftId ∧ b = rightId
  covered : ∀ i, i < q.table.size ↔ i < l.table.size ∨ ∃ b < r.table.size, place b = i
  patterns : q.patterns = l.patterns ++ r.patterns.map (Pattern.mapVar place)
  projections : q.projections =
    l.projections ++ (r.projections.filter fun b => b != rightId).map place
  order : q.order = l.order ++ r.order.map fun k => { k with variableId := place k.variableId }

/-- Scoping a query moves no variable. -/
theorem Query.at?_scopeTo {q : Query} {i : VarId} {v : Variable} (h : q.table.at? i = some v)
    (id : String) : (q.scopeTo id).table.at? i = some (v.scopeTo id) := by
  rw [Query.scopeTo, OrderedMap.at?_map, h]
  rfl

/-- The two queries have no variable in common. -/
def Query.Disjoint (l r : Query) : Prop :=
  ∀ v ∈ l.table.values, ∀ w ∈ r.table.values, v.uri ≠ w.uri

namespace Pairing

variable {p : Pairing} {q : Query} {place : VarId → VarId}

/-- Without a URI in common no variables are unified. -/
theorem not_unified (h : p.left.Disjoint p.right) (a b : Nat) : ¬ p.Unified a b := by
  intro hunified
  obtain ⟨uri, ha, hb⟩ := hunified.sameUri
  obtain ⟨v, hv, hvuri⟩ := Option.map_eq_some_iff.mp ha
  obtain ⟨w, hw, hwuri⟩ := Option.map_eq_some_iff.mp hb
  rw [OrderedMap.at?_eq_getElem?] at hv hw
  exact h v (List.mem_of_getElem? hv) w (List.mem_of_getElem? hw) (hvuri.trans hwuri.symm)

/-- Without a URI in common only the two joined variables are identified. -/
theorem identified_iff (h : p.left.Disjoint p.right) (a b : Nat) :
    p.Identified a b ↔ a = p.leftId ∧ b = p.rightId :=
  or_iff_left (not_unified h a b)

namespace CaptureFree

variable (hcapture : p.CaptureFree q place) (hp : p.WellFormed) (h : p.left.Disjoint p.right)

include hcapture h

/-- A right variable stands at a left place only where the two joined ones do. -/
theorem place_eq_iff_joined {a b : Nat} (ha : a < p.left.table.size)
    (hb : b < p.right.table.size) : place b = a ↔ a = p.leftId ∧ b = p.rightId :=
  (hcapture.place_eq_iff a ha b hb).trans (identified_iff h a b)

include hp

/-- The places of the left query and those of the right one have one in common, so the composite
has one variable less than both together. -/
theorem size_add_one : q.table.size + 1 = p.left.table.size + p.right.table.size := by
  let left := Finset.range p.left.table.size
  let right := (Finset.range p.right.table.size).image place
  have hunion : left ∪ right = Finset.range q.table.size := by
    ext i
    simp only [left, right, Finset.mem_union, Finset.mem_image, Finset.mem_range,
      hcapture.covered i]
  have hinter : left ∩ right = {p.leftId} := by
    ext i
    simp only [left, right, Finset.mem_inter, Finset.mem_image, Finset.mem_range,
      Finset.mem_singleton]
    constructor
    · rintro ⟨hi, b, hb, hplace⟩
      exact ((hcapture.place_eq_iff_joined h hi hb).mp hplace).1
    · rintro rfl
      exact ⟨hp.leftId_lt, p.rightId, hp.rightId_lt,
        (hcapture.place_eq_iff_joined h hp.leftId_lt hp.rightId_lt).mpr ⟨rfl, rfl⟩⟩
  have hright : right.card = p.right.table.size := by
    rw [Finset.card_image_of_injOn]
    · exact Finset.card_range _
    · intro b hb b' hb' heq
      exact hcapture.place_injOn (Finset.mem_range.mp hb) (Finset.mem_range.mp hb') heq
  have hcount := Finset.card_union_add_card_inter left right
  rw [hunion, hinter, hright, Finset.card_range, Finset.card_range, Finset.card_singleton]
    at hcount
  exact hcount

/-- Of the result columns of the right query only the joined one is left out. -/
theorem projections_eq : q.projections = p.left.projections ++
    (p.right.projections.filter fun b => b != p.rightId).map place := by
  have hfilter : p.right.projections.filter (fun b => decide (p.left.table.size ≤ place b)) =
      p.right.projections.filter fun b => b != p.rightId := by
    refine List.filter_congr fun b hb => ?_
    have hlt := hp.right.projections_lt b hb
    by_cases hjoined : b = p.rightId
    · have hplace := (hcapture.place_eq_iff_joined h hp.leftId_lt hlt).mpr ⟨rfl, hjoined⟩
      simp [hjoined, hjoined ▸ hplace, hp.leftId_lt]
    · have hbehind : p.left.table.size ≤ place b := by
        by_contra hbefore
        exact hjoined ((hcapture.place_eq_iff_joined h (not_le.mp hbefore) hlt).mp rfl).2
      simp [hjoined, hbehind]
  rw [hcapture.projections, hfilter]

end CaptureFree

/-- When the operands have no variable in common, their composite joins them apart in any
instance.  The places are those of the composite, since scoping moves no variable. -/
theorem Merged.joinsApart {t : OrderedMap Variable} {places : List Nat}
    (hm : p.Merged t places) (hp : p.WellFormed) (h : p.left.Disjoint p.right) (mode : JoinMode)
    (id : String) :
    p.left.JoinsApart p.right ((p.composite mode t places).scopeTo id) p.leftId p.rightId id
      (Query.placeIn places) := by
  have hcapture := hm.captureFree hp mode
  have hsize : ((p.composite mode t places).scopeTo id).table.size = t.size :=
    OrderedMap.size_map _ _
  have hkeys : ((p.composite mode t places).scopeTo id).table.keys = t.keys :=
    OrderedMap.keys_map _ _
  constructor
  case size =>
    rw [hsize]
    exact hcapture.size_add_one hp h
  case joined =>
    obtain ⟨v, hv⟩ := OrderedMap.exists_at? hp.leftId_lt
    obtain ⟨w, hw⟩ := OrderedMap.exists_at? hp.rightId_lt
    have hcopy : p.leftCopy p.leftId v = Query.sharedVariable p.left p.right v w := by
      rw [leftCopy, if_pos rfl, hw]
      rfl
    exact ⟨v, w, hv, hw, Query.at?_scopeTo (hcopy ▸ hm.left p.leftId v hv) id⟩
  case kept =>
    intro a v hne hv
    have hcopy : p.leftCopy a v = v := if_neg hne
    exact Query.at?_scopeTo (hcopy ▸ hm.left a v hv) id
  case added =>
    intro b w hne hw
    have hnone : ∀ a, ¬ p.Identified a b := by
      intro a hid
      exact hne ((identified_iff h a b).mp hid).2
    obtain ⟨w', name, hw', hat, hleft, hbefore⟩ :=
      hcapture.added b (OrderedMap.lt_size_of_at? hw) hnone
    obtain rfl := Option.some.inj (hw.symm.trans hw')
    exact ⟨name, Query.at?_scopeTo hat id, hleft, hkeys ▸ hbefore⟩
  case place_lt =>
    intro b hb
    rw [hsize]
    exact hm.right_lt hb
  case place_injOn => exact hcapture.place_injOn
  case place_eq_iff => exact fun a ha b hb => hcapture.place_eq_iff_joined h ha hb
  case covered =>
    rw [hsize]
    exact hcapture.covered
  case patterns => exact hcapture.patterns
  case projections => exact hcapture.projections_eq hp h
  case order => exact hcapture.order

end Pairing

namespace Canvas

/-- The instances of the canvas have no variables in common, and a join of two of them that
succeeds makes two variables one and no others. -/
structure Apart (c : Canvas) : Prop where
  disjoint : ∀ i j q r, i ≠ j → c.instance? i = some q → c.instance? j = some r → q.Disjoint r
  joined : ∀ (left right : String × String) (mode : JoinMode) (i j : InstanceId) (l r : Query)
    (id : String) (c' : Canvas), i ≠ j → c.find left.1 = .ok (i, l) → c.find right.1 = .ok (j, r) →
      (CanvasM.join left right mode).result c = (.ok id, c') →
        ∃ k q leftId rightId place, k.text = id ∧ c'.instance? k = some q ∧
          l.resolve left.2 = .ok leftId ∧ r.resolve right.2 = .ok rightId ∧
            l.JoinsApart r q leftId rightId id place

variable {c : Canvas}

/-- The ids of slots have no semicolon. -/
theorem Sound.no_semicolon (h : c.Sound) {i : InstanceId} {x : Option Query}
    (hi : c.slot? i = some x) : ';' ∉ i.text.toList := by
  refine InstanceId.no_semicolon ?_
  obtain ⟨source, hsource⟩ := h.hashed i x hi
  rw [hsource]
  intro hmem
  exact absurd (Sha256.mem_shortHex hmem) (by decide)

/-- Two instances of a sound canvas have no variable in common: their URIs end in different ids. -/
theorem Sound.disjoint (h : c.Sound) {i j : InstanceId} {q r : Query} (hne : i ≠ j)
    (hq : c.slot? i = some (some q)) (hr : c.slot? j = some (some r)) : q.Disjoint r := by
  intro v hv w hw heq
  have hvend := (h.isScoped i q hq).uris v hv
  have hwend := (h.isScoped j r hr).uris w hw
  rw [heq] at hvend
  exact hne (InstanceId.text_injective
    (scopeEnd_inj (h.no_semicolon hq) (h.no_semicolon hr) hvend hwend))

/-- **Instances share no variables.**  Their URIs end in ids that differ, and so a join of two
instances finds nothing to unify. -/
theorem Reachable.apart (h : c.Reachable) : c.Apart := by
  have hsound := h.sound
  constructor
  · intro i j q r hne hq hr
    exact hsound.disjoint hne (instance?_eq_some_iff.mp hq) (instance?_eq_some_iff.mp hr)
  · intro left right mode i j l r id c' hne hleft hright hok
    rcases CanvasM.result_join left right mode c with
      ⟨e, hfail⟩ | ⟨i', l', j', r', q, used, cleared, -, hleft', hright', hjoin, -, hresult⟩
    · rw [hfail] at hok
      cases hok
    obtain ⟨rfl, rfl⟩ := Prod.mk.inj (Except.ok.inj (hleft.symm.trans hleft'))
    obtain ⟨rfl, rfl⟩ := Prod.mk.inj (Except.ok.inj (hright.symm.trans hright'))
    obtain ⟨hanswer, rfl⟩ := Prod.mk.inj (hok.symm.trans hresult)
    obtain rfl := Except.ok.inj hanswer
    have hl := (find_eq_ok.mp hleft).2
    have hr := (find_eq_ok.mp hright).2
    obtain ⟨p, t, places, hp, ⟨rfl, rfl, hleftId, hrightId⟩, hmerged, rfl⟩ := Query.join_inv
      (hsound.built i l hl).wellFormed (hsound.built j r hr).wellFormed hjoin
    refine ⟨_, _, p.leftId, p.rightId, Query.placeIn places, rfl, ?_, hleftId, hrightId,
      hmerged.joinsApart hp (hsound.disjoint hne hl hr) used _⟩
    rw [instance?_eq_some_iff, slot?_noted, slot?_noted, slot?_store, if_pos rfl]

/-- Both example queries come with a variable for a city, of one URI.  Their instances are joined
on other variables, and the composite has both of them. -/
theorem citizensCanvas_apart :
    citizensCanvas.Reachable ∧ citizensCanvas.Apart ∧
      ∃ c', (CanvasM.join ("e5a5f51b05a2dc8b_0", "id") ("699c2333db03cdca_0", "id") .inline).result
        citizensCanvas = (.ok "eda5096044d5e5b3_0", c') ∧
        (c'.instance? ⟨"eda5096044d5e5b3", 0⟩).map (fun q => q.table.keys) =
          some ["id", "city", "x", "place", "x1"] := by
  refine ⟨citizensCanvas_reachable, Reachable.apart citizensCanvas_reachable, _,
    Prod.ext ?_ rfl, ?_⟩
  · decide +kernel
  · decide +kernel

end Canvas

end SparqlCompose
