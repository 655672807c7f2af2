import Mathlib
import SparqlCompose.Proofs.Canvas.Listener
import SparqlCompose.Proofs.Canvas.SelfJoin
import SparqlCompose.Proofs.Settled

/-!
# When instances stay proper

A canvas is *proper* when its instances are: with the values in place, no pattern has a literal as
its subject or its predicate.  Patterns are checked when they are made, and that check does not see
values.  So a canvas does not stay proper by itself: a value that is set, a pattern that is added
and a join can each put a literal in the wrong place.  `Canvas.Call.Harmless` says of each call on
what it depends, in terms of the canvas before the call, and a call that succeeds leaves the canvas
proper exactly when it is harmless (`Canvas.Proper.after_iff`).  From there the canvases of a run
are proper exactly when its calls are harmless (`Canvas.proper_run_iff`).
-/

namespace SparqlCompose

/-! ### Slots that become terms -/

namespace PendingSlot

variable {s : PendingSlot} {q q' : Query} {x : Term}

/-- Adding the variable of a slot says nothing. -/
theorem saysAs_of_realize (hok : s.realize q = .ok (x, q')) : q.SaysAs q' := by
  rcases realize_eq_ok.mp hok with ⟨-, rfl⟩ | ⟨name, id, -, -, ⟨-, rfl⟩ | ⟨-, hadd⟩⟩
  · exact .refl _
  · exact .refl _
  · exact .addVariable rfl hadd

/-- A typed slot comes to stand for a literal when it is a variable with a literal as its value.
The instance may have grown by other variables since the slot was read. -/
theorem isLiteral_settled {q₀ : Query} {prefixes : PrefixTable} {i : SlotInput}
    (hi : i.isLiteral = false) (hinput : ofInput q₀ prefixes i = .ok s) (hkept : q₀.SaysAs q)
    (hview : q.view = q₀.view) (hok : s.realize q = .ok (x, q')) :
    (q₀.settled x).isLiteral = false ↔
      ∀ name l, i = .variable name → q₀.view.value name ≠ some (.literal l) := by
  cases i with
  | literal l => cases hi
  | resource text =>
      obtain ⟨r, -, rfl⟩ := Outcome.map_eq_ok.mp hinput
      obtain ⟨rfl, -⟩ := Prod.mk.inj (Except.ok.inj hok)
      simp [Query.settled, Term.isLiteral]
  | «variable» name =>
      have hvar : ∀ id, q₀.boundAt id = q₀.view.value name →
          ((q₀.settled (.var id)).isLiteral = false ↔
            ∀ name' l, SlotInput.variable name = .variable name' →
              q₀.view.value name' ≠ some (.literal l)) := by
        intro id hid
        rw [Query.isLiteral_settled_var, hid]
        constructor
        · rintro hvalue name' l ⟨⟩
          exact hvalue l
        · exact fun hvalue l => hvalue name l rfl
      simp only [ofInput] at hinput
      split at hinput
      · next id hid =>
          obtain rfl := Except.ok.inj hinput
          obtain ⟨rfl, -⟩ := Prod.mk.inj (Except.ok.inj hok)
          exact hvar id (by simp [Query.view, hid])
      · next hnone =>
          split at hinput
          · obtain rfl := Except.ok.inj hinput
            rcases realize_eq_ok.mp hok with ⟨habsurd, -⟩ | ⟨name', id, hname, rfl, hcases⟩
            · cases habsurd
            · obtain rfl := PendingSlot.new.inj hname
              refine hvar id ?_
              rcases hcases with ⟨hid, -⟩ | ⟨hid, hadd⟩
              · rw [← hview, ← hkept.boundAt]
                simp [Query.view, hid]
              · -- the variable is added here, so its place had no value
                obtain ⟨-, -, rfl, -⟩ := Query.addVariable_eq_ok.mp hadd
                have hlast : q.table.at? q.table.size = none := by
                  rw [OrderedMap.at?_eq_getElem?, List.getElem?_eq_none_iff]
                  simp
                rw [← hkept.boundAt]
                simp [Query.view, hnone, Query.boundAt, hlast]
          · cases hinput

end PendingSlot

namespace CanvasM

variable {α β : Type} {text : String} {c c' : Canvas}

/-- A chain that succeeds has succeeded link by link. -/
theorem result_bind_eq_ok {m : CanvasM α} {f : α → CanvasM β} {b : β}
    (h : (m >>= f).result c = (.ok b, c')) :
    ∃ a c₁, m.result c = (.ok a, c₁) ∧ (f a).result c₁ = (.ok b, c') := by
  rw [result_bind] at h
  cases hm : m.result c with
  | mk r c₁ =>
      rw [hm] at h
      cases r with
      | error e => cases (Prod.mk.inj h).1
      | ok a => exact ⟨a, c₁, rfl, h⟩

/-- If something made of the answer of a step is answered, the step succeeded. -/
theorem result_map_eq_ok {m : CanvasM α} {f : α → β} {b : β}
    (h : (f <$> m).result c = (.ok b, c')) : ∃ a, m.result c = (.ok a, c') := by
  rw [result_map] at h
  obtain ⟨hanswer, rfl⟩ := Prod.mk.inj h
  obtain ⟨a, ha, -⟩ := Outcome.map_eq_ok.mp hanswer
  exact ⟨a, Prod.ext ha rfl⟩

/-- An edit that goes on by a change of the query. -/
theorem underway_edit {f : Query → Except QueryError (α × Query)} {i : InstanceId} {q q' : Query}
    {a : α} {c₁ : Canvas} (h : c.Underway text i q c₁ q')
    (hok : (edit text f).result c₁ = (.ok a, c')) :
    ∃ q'', f q' = .ok (a, q'') ∧ c.Underway text i q c' q'' := by
  obtain ⟨j, r, q'', hfind, hf, rfl⟩ := edit_eq_ok hok
  obtain ⟨rfl, rfl⟩ := Prod.mk.inj (Except.ok.inj (h.found'.symm.trans hfind))
  exact ⟨q'', hf, h.write q''⟩

/-- A pattern that is added comes to what the instance says.  It is refused when one of its heads
was typed as a literal, but not when one is a variable with a literal as its value. -/
theorem addPattern_eq_ok {s p o : SlotInput} (hc : ∀ i q, c.find text = .ok (i, q) → q.Indexed)
    (hok : (addPattern text s p o).result c = (.ok (), c')) :
    ∃ i q q', c.find text = .ok (i, q) ∧
      (∀ j, c'.slot? j = if j = i then some (some q') else c.slot? j) ∧
      (q'.Proper ↔ q.Proper ∧ ∀ name l, s = .variable name ∨ p = .variable name →
        q.view.value name ≠ some (.literal l)) := by
  rcases checked_or_error text s p o c with ⟨e, hfail⟩ | ⟨q, s', p', o', hchecked⟩
  · rw [hfail] at hok
    cases (Prod.mk.inj hok).1
  rw [hchecked.result_addPattern] at hok
  obtain ⟨i, hfind⟩ := hchecked.found
  obtain ⟨x, c₁, hx, hok⟩ := result_bind_eq_ok hok
  obtain ⟨y, c₂, hy, hok⟩ := result_bind_eq_ok hok
  obtain ⟨z, c₃, hz, hok⟩ := result_bind_eq_ok hok
  obtain ⟨_, c₄, hpattern, hemit⟩ := result_bind_eq_ok hok
  -- three edits make terms of the slots, a fourth adds the pattern
  obtain ⟨q₁, hs, h₁⟩ := underway_edit (.start hfind) hx
  obtain ⟨q₂, hp, h₂⟩ := underway_edit h₁ hy
  obtain ⟨q₃, ho, h₃⟩ := underway_edit h₂ hz
  obtain ⟨q₄, hplace, h₄⟩ := underway_edit h₃ hpattern
  obtain ⟨pattern, hmake, hplace⟩ := Outcome.bind_eq_ok.mp hplace
  obtain ⟨r, hpush, hpure⟩ := Outcome.bind_eq_ok.mp hplace
  obtain ⟨-, rfl⟩ := Prod.mk.inj (Outcome.pure_eq_ok.mp hpure)
  obtain ⟨-, -, rfl⟩ := Pattern.make_eq_ok.mp hmake
  obtain ⟨hq₁, hview₁⟩ := PendingSlot.view_of_realize (hc i q hfind) hs
  obtain ⟨hq₂, hview₂⟩ := PendingSlot.view_of_realize hq₁ hp
  have hkept₁ := PendingSlot.saysAs_of_realize hs
  have hkept₃ := (hkept₁.trans (PendingSlot.saysAs_of_realize hp)).trans
    (PendingSlot.saysAs_of_realize ho)
  have hsubject := PendingSlot.isLiteral_settled hchecked.subject hchecked.subjectSlot (.refl q)
    rfl hs
  have hpredicate := PendingSlot.isLiteral_settled hchecked.predicate hchecked.predicateSlot hkept₁
    hview₁ hp
  have hname : ∀ name, p.asPredicate = .variable name ↔ p = .variable name := by
    intro name
    cases p <;> simp [SlotInput.asPredicate]
  refine ⟨i, q, r, hfind, ?_, ?_⟩
  · obtain rfl := (Prod.mk.inj hemit).2
    exact h₄.slots
  · rw [Query.proper_pushPattern_iff hpush, hkept₃.proper_iff, hkept₃.settled]
    refine and_congr_right fun _ => ?_
    simp only [Pattern.heads, List.mem_cons, List.not_mem_nil, or_false, forall_eq_or_imp,
      forall_eq, hsubject, hpredicate, hname]
    constructor
    · rintro ⟨hs, hp⟩ name l (hname | hname)
      · exact hs name l hname
      · exact hp name l hname
    · intro h
      exact ⟨fun name l hname => h name l (Or.inl hname),
        fun name l hname => h name l (Or.inr hname)⟩

end CanvasM

namespace Canvas

/-! ### One call -/

/-- The instances of the canvas are proper. -/
def Proper (c : Canvas) : Prop := ∀ i q, c.instance? i = some q → q.Proper

/-- The call succeeds on the canvas. -/
def Call.SucceedsOn (c : Canvas) (k : Call) : Prop := ∃ id, (k.perform.result c).1 = .ok id

/-- On the canvas, the call puts no literal in the place of a subject or a predicate.  What it
brings is proper; a literal is not set for a variable that heads a pattern, and a variable with a
literal as its value does not come to head one; and no literal comes by a join to a variable that
heads a pattern. -/
def Call.Harmless (c : Canvas) : Call → Prop
  | insert _ q => q.Proper
  | instantiate source _ => ∀ q, (CanvasM.source source).result c = (.ok q, c) → q.Proper
  | setBound text name value => ∀ i q id l, c.find text = .ok (i, q) → q.resolve name = .ok id →
      value = some (.literal l) → ¬ q.Heads id
  | addPattern text s p _ => ∀ i q name l, c.find text = .ok (i, q) →
      s = .variable name ∨ p = .variable name → q.view.value name ≠ some (.literal l)
  | join left right _ => ∀ (i j : InstanceId) (p : Pairing), c.find left.1 = .ok (i, p.left) →
      c.find right.1 = .ok (j, p.right) → p.left.resolve left.2 = .ok p.leftId →
        p.right.resolve right.2 = .ok p.rightId → p.KeepsProper
  | destroy _ | addVariable _ _ | project _ _ _ | reorder _ _ | furnish _ _ _ _ => True

section Step

variable {c c' : Canvas} {k : Call} {text : String} {i : InstanceId} {q q' : Query}

/-- A canvas is proper when the queries in its slots are. -/
theorem proper_iff : c.Proper ↔ ∀ i q, c.slot? i = some (some q) → q.Proper := by
  simp only [Proper, instance?_eq_some_iff]

/-- A canvas whose instances were there before is proper. -/
theorem Proper.of_slots (hc : c.Proper)
    (hslots : ∀ i q, c'.slot? i = some (some q) → c.slot? i = some (some q)) : c'.Proper :=
  proper_iff.mpr fun i q hq => proper_iff.mp hc i q (hslots i q hq)

/-- When one instance is edited, the canvas stays proper if that instance does. -/
theorem Proper.edited_iff (hc : c.Proper)
    (hslots : ∀ j, c'.slot? j = if j = i then some (some q') else c.slot? j) :
    c'.Proper ↔ q'.Proper := by
  rw [proper_iff]
  constructor
  · intro hproper
    exact hproper i q' (by rw [hslots, if_pos rfl])
  · intro hq' j r hr
    rw [hslots] at hr
    split at hr
    · obtain rfl := Option.some.inj (Option.some.inj hr)
      exact hq'
    · exact proper_iff.mp hc j r hr

/-- A step that leaves alone what an instance says keeps the canvas proper. -/
theorem Proper.edited {α : Type} {m : CanvasM α} {a : α} (hc : c.Proper)
    (hm : m.Edits Query.SaysAs text) (hok : m.result c = (.ok a, c')) : c'.Proper := by
  have hedited := hm c
  rw [hok] at hedited
  rcases hedited.slots with hsame | ⟨i, q, q', -, hq, hkept, hslots⟩
  · exact hc.of_slots fun i q hq => hsame i ▸ hq
  · exact (hc.edited_iff hslots).mpr (hkept.proper_iff.mpr (proper_iff.mp hc i q hq))

/-- A query that is put into a new slot. -/
theorem Proper.stored_iff (hc : c.Proper) (source : String)
    (hslots : ∀ j, c'.slot? j = (c.store source q).slot? j) : c'.Proper ↔ q.Proper := by
  have hkept := Query.SaysAs.scopeTo q (c.nextId source).text
  rw [← hkept.proper_iff]
  refine hc.edited_iff (i := c.nextId source) fun j => ?_
  rw [hslots, slot?_store]

/-- An instance is as proper as what the search for its source finds. -/
theorem Proper.instantiate_iff (hc : c.Proper) {source id : String} {endpoint : Option String}
    (hok : (CanvasM.instantiate source endpoint).result c = (.ok id, c')) :
    c'.Proper ↔ (Call.instantiate source endpoint).Harmless c := by
  rcases CanvasM.result_instantiate source endpoint c with ⟨e, hfail⟩ | ⟨q, hsource, hresult⟩
  · rw [hfail] at hok
    cases (Prod.mk.inj hok).1
  have hkept : q.SaysAs (endpoint.elim q q.activate) := by
    cases endpoint with
    | none => exact .refl q
    | some e => exact .activate q e
  obtain rfl := (Prod.mk.inj (hresult.symm.trans hok)).2
  refine (hc.stored_iff source fun _ => rfl).trans (hkept.proper_iff.trans ?_)
  constructor
  · rintro hq q' hq'
    obtain rfl := Except.ok.inj (Prod.mk.inj (hsource.symm.trans hq')).1
    exact hq
  · exact fun hharmless => hharmless q hsource

/-- Destroying an instance keeps the canvas proper. -/
theorem Proper.destroy (hc : c.Proper) (hok : (CanvasM.destroy text).result c = (.ok q, c')) :
    c'.Proper := by
  rw [CanvasM.result_destroy] at hok
  split at hok
  · next i r hfind =>
      obtain rfl := (Prod.mk.inj hok).2
      refine hc.of_slots fun j p hp => ?_
      rw [slot?_noted, slot?_clear (find_eq_ok.mp hfind).2] at hp
      split at hp
      · cases hp
      · exact hp
  · cases (Prod.mk.inj hok).1

/-- Setting a value keeps the canvas proper exactly when the call is harmless. -/
theorem Proper.setBound_iff (hc : c.Proper) (h : c.Sound) {name : String} {value : Option Constant}
    {old : Option Constant} (hvalue : ∀ x, value = some x → x.IsNormal)
    (hok : (CanvasM.setBound text name value).result c = (.ok old, c')) :
    c'.Proper ↔ (Call.setBound text name value).Harmless c := by
  obtain ⟨a, c₁, hedit, hrest⟩ := CanvasM.result_bind_eq_ok hok
  obtain ⟨i, q, q', hfind, hq', rfl⟩ := CanvasM.edit_eq_ok hedit
  obtain ⟨id, hid, hq'⟩ := Outcome.bind_eq_ok.mp hq'
  obtain ⟨⟨old', r⟩, hset, hq'⟩ := Outcome.bind_eq_ok.mp hq'
  obtain ⟨v, -, hpure⟩ := Outcome.bind_eq_ok.mp hq'
  obtain ⟨-, rfl⟩ := Prod.mk.inj (Outcome.pure_eq_ok.mp hpure)
  obtain rfl := (Prod.mk.inj hrest).2
  have hslot := (find_eq_ok.mp hfind).2
  have hslots : ∀ j, ((c.setSlot i (some r)).noted (.variableBound text v.name value)).slot? j =
      if j = i then some (some r) else c.slot? j := by
    intro j
    rw [slot?_noted, slot?_setSlot, hslot]
    rfl
  refine (hc.edited_iff hslots).trans ?_
  rw [(proper_iff.mp hc i q hslot).setBound_iff (h.built i q hslot).wellFormed hvalue hset]
  constructor
  · rintro hheads j r' id' l hfind' hid' hl
    obtain ⟨rfl, rfl⟩ := Prod.mk.inj (Except.ok.inj (hfind.symm.trans hfind'))
    obtain rfl := Except.ok.inj (hid.symm.trans hid')
    exact hheads l hl
  · intro hharmless l hl
    exact hharmless i q id l hfind hid hl

/-- So does adding a pattern. -/
theorem Proper.addPattern_iff (hc : c.Proper) (h : c.Sound) {s p o : SlotInput}
    (hok : (CanvasM.addPattern text s p o).result c = (.ok (), c')) :
    c'.Proper ↔ (Call.addPattern text s p o).Harmless c := by
  have hindexed : ∀ i q, c.find text = .ok (i, q) → q.Indexed :=
    fun i q hfind => (h.built i q (find_eq_ok.mp hfind).2).wellFormed.indexed
  obtain ⟨i, q, q', hfind, hslots, hproper⟩ := CanvasM.addPattern_eq_ok hindexed hok
  rw [hc.edited_iff hslots, hproper, and_iff_right (proper_iff.mp hc i q (find_eq_ok.mp hfind).2)]
  constructor
  · rintro hnames j r name l hfind' hname
    obtain ⟨rfl, rfl⟩ := Prod.mk.inj (Except.ok.inj (hfind.symm.trans hfind'))
    exact hnames name l hname
  · exact fun hharmless name l hname => hharmless i q name l hfind hname

/-- So does a join. -/
theorem Proper.join_iff (hc : c.Proper) (h : c.Sound) {left right : String × String}
    {mode : JoinMode} {id : String}
    (hok : (CanvasM.join left right mode).result c = (.ok id, c')) :
    c'.Proper ↔ (Call.join left right mode).Harmless c := by
  rcases CanvasM.result_join left right mode c with
    ⟨e, hfail⟩ | ⟨i, l, j, r, q, used, cleared, -, hleft, hright, hjoin, hcleared, hresult⟩
  · rw [hfail] at hok
    cases (Prod.mk.inj hok).1
  obtain rfl := (Prod.mk.inj (hresult.symm.trans hok)).2
  have hl := (find_eq_ok.mp hleft).2
  have hr := (find_eq_ok.mp hright).2
  have hempty : cleared.Proper := by
    refine hc.of_slots fun m p hm => ?_
    rw [hcleared, slot?_emptied hl hr] at hm
    split at hm
    · cases hm
    · exact hm
  obtain ⟨p, t, places, hp, ⟨rfl, rfl, hleftId, hrightId⟩, hm, rfl⟩ :=
    Query.join_inv (h.built i l hl).wellFormed (h.built j r hr).wellFormed hjoin
  refine (hempty.stored_iff (p.composite used t places).uri fun _ => rfl).trans ?_
  rw [hm.proper_composite_iff hp used (proper_iff.mp hc i _ hl) (proper_iff.mp hc j _ hr)]
  constructor
  · rintro hkeeps i' j' p' hleft' hright' hleftId' hrightId'
    have hsame : p' = p := by
      obtain ⟨-, hl'⟩ := Prod.mk.inj (Except.ok.inj (hleft.symm.trans hleft'))
      obtain ⟨-, hr'⟩ := Prod.mk.inj (Except.ok.inj (hright.symm.trans hright'))
      rw [← hl', hleftId] at hleftId'
      rw [← hr', hrightId] at hrightId'
      obtain ⟨l', r', leftId', rightId'⟩ := p'
      obtain ⟨l, r, leftId, rightId⟩ := p
      simp_all
    exact hsame ▸ hkeeps
  · exact fun hharmless => hharmless i j p hleft hright hleftId hrightId

/-- **What a call does to a proper canvas.**  A reachable canvas whose instances are proper stays so
after a lawful call exactly when the call fails or is harmless.  The case split is on the call. -/
theorem Proper.after_iff (hc : c.Proper) (h : c.Reachable) (hk : k.Lawful) :
    (c.after k).Proper ↔ (k.SucceedsOn c → k.Harmless c) := by
  have hsound := h.sound
  cases hresult : k.perform.result c with
  | mk answer c' =>
  have hafter : c.after k = c' := congrArg Prod.snd hresult
  rw [hafter]
  cases answer with
  | error e =>
      obtain rfl := h.atomic.unchanged k e c' hresult
      refine iff_of_true hc ?_
      rintro ⟨id, hid⟩
      rw [hresult] at hid
      cases hid
  | ok id =>
      have hsucceeds : k.SucceedsOn c := ⟨id, by rw [hresult]⟩
      rw [forall_prop_of_true hsucceeds]
      -- the first step of each case is the canvas after the operation itself
      cases k with
      | insert source q =>
          obtain rfl := congrArg Prod.snd hresult
          exact hc.stored_iff _ fun _ => rfl
      | instantiate source endpoint =>
          obtain ⟨a, ha⟩ := CanvasM.result_map_eq_ok hresult
          exact hc.instantiate_iff ha
      | destroy text =>
          obtain ⟨_, ha⟩ := CanvasM.result_map_eq_ok hresult
          exact iff_of_true (hc.destroy ha) trivial
      | join left right mode =>
          obtain ⟨_, ha⟩ := CanvasM.result_map_eq_ok hresult
          exact hc.join_iff hsound ha
      | addVariable text base =>
          obtain ⟨_, ha⟩ := CanvasM.result_map_eq_ok hresult
          have hedits : (CanvasM.addVariable text base).Edits Query.SaysAs text :=
            CanvasM.edits_addVariable base .trans .freshVariable
          exact iff_of_true (hc.edited hedits ha) trivial
      | project text name on =>
          obtain ⟨_, ha⟩ := CanvasM.result_map_eq_ok hresult
          have hedits : (CanvasM.project text name on).Edits Query.SaysAs text :=
            CanvasM.edits_project name on .trans .project .unproject
          exact iff_of_true (hc.edited hedits ha) trivial
      | addPattern text s p o =>
          obtain ⟨_, ha⟩ := CanvasM.result_map_eq_ok hresult
          exact hc.addPattern_iff hsound ha
      | reorder text order =>
          obtain ⟨_, ha⟩ := CanvasM.result_map_eq_ok hresult
          have hedits : (CanvasM.reorder text order).Edits Query.SaysAs text :=
            CanvasM.edits_reorder order .trans .reorder
          exact iff_of_true (hc.edited hedits ha) trivial
      | setBound text name value =>
          obtain ⟨_, ha⟩ := CanvasM.result_map_eq_ok hresult
          exact hc.setBound_iff hsound hk ha
      | furnish prefixes queries endpoints concepts =>
          obtain rfl := congrArg Prod.snd hresult
          exact iff_of_true (hc.of_slots fun _ _ hq => hq) trivial

end Step

/-! ### Runs -/

variable {c : Canvas} {calls : List Call}

/-- **When instances stay proper.**  From a reachable canvas whose instances are proper, as one
without instances is, the canvases of a run of lawful calls are all proper exactly when each call of
the run that succeeds is harmless. -/
theorem proper_run_iff (h : c.Reachable) (hc : c.Proper) (hlawful : ∀ k ∈ calls, k.Lawful) :
    (∀ before rest, calls = before ++ rest → (c.afterAll before).Proper) ↔
      ∀ before k rest, calls = before ++ k :: rest →
        k.SucceedsOn (c.afterAll before) → k.Harmless (c.afterAll before) := by
  have hstep : ∀ before k rest, calls = before ++ k :: rest → (c.afterAll before).Proper →
      ((c.afterAll (before ++ [k])).Proper ↔
        (k.SucceedsOn (c.afterAll before) → k.Harmless (c.afterAll before))) := by
    rintro before k rest rfl hbefore
    rw [List.forall_mem_append, List.forall_mem_cons] at hlawful
    rw [afterAll_append]
    exact hbefore.after_iff (h.afterAll hlawful.1) hlawful.2.1
  constructor
  · intro hproper before k rest hsplit
    refine (hstep before k rest hsplit (hproper before _ hsplit)).mp ?_
    exact hproper (before ++ [k]) rest (by rw [hsplit]; simp)
  · intro hharmless before
    induction before using List.reverseRecOn with
    | nil => exact fun _ _ => hc
    | append_singleton before k ih =>
        intro rest hsplit
        have hsplit' : calls = before ++ k :: rest := by rw [hsplit]; simp
        exact (hstep before k rest hsplit' (ih _ hsplit')).mpr (hharmless before k rest hsplit')

/-- A canvas is proper if what stands in its slots is. -/
theorem proper_of_buckets (h : ∀ bucket ∈ c.buckets.values, ∀ x ∈ bucket, ∀ q ∈ x,
    ∀ p ∈ q.patterns, ∀ x ∈ p.heads, (q.settled x).isLiteral = false) : c.Proper := by
  rw [proper_iff]
  intro i q hq
  obtain ⟨bucket, hbucket, hslot⟩ := exists_bucket hq
  exact h bucket hbucket (some q) (List.mem_of_getElem? hslot) q rfl

/-- A canvas with the concept of a city and no instances. -/
def conceptCanvas : Canvas := { concepts := .ofList [("urn:City", { uri := "urn:City" })] }

/-- The canvas with the concept is reachable. -/
theorem conceptCanvas_reachable : conceptCanvas.Reachable := by
  refine .start ?_
  intro q hq
  cases hq

/-- It is proper, since it has no instances. -/
theorem conceptCanvas_proper : conceptCanvas.Proper := by
  refine proper_of_buckets fun bucket hbucket => ?_
  cases hbucket

/-- A city is chosen, and its name. -/
def londonRun : List Call :=
  [.instantiate "urn:City" none,
    .setBound "43a3c863ae8bef06_0" "id" (some (.iri "urn:London")),
    .addPattern "43a3c863ae8bef06_0" (.variable "id") (.resource "urn:name") (.variable "name"),
    .setBound "43a3c863ae8bef06_0" "name" (some (.literal (.plain "London")))]

/-- The run binds a subject to an IRI and an object to a text, and its instance stays proper. -/
theorem proper_run_london :
    conceptCanvas.Reachable ∧ conceptCanvas.Proper ∧ (∀ k ∈ londonRun, k.Lawful) ∧
      (conceptCanvas.afterAll londonRun).ids = ["43a3c863ae8bef06_0"] ∧
      ∀ before k rest, londonRun = before ++ k :: rest →
        k.SucceedsOn (conceptCanvas.afterAll before) →
          k.Harmless (conceptCanvas.afterAll before) := by
  have hlawful : ∀ k ∈ londonRun, k.Lawful := by
    simp [londonRun, Call.Lawful, Constant.IsNormal, Constant.iri, Constant.normal, Literal.normal,
      Literal.plain]
  have hall : ∀ n < 5, ∀ bucket ∈ (conceptCanvas.afterAll (londonRun.take n)).buckets.values,
      ∀ x ∈ bucket, ∀ q ∈ x, ∀ p ∈ q.patterns, ∀ x ∈ p.heads,
        (q.settled x).isLiteral = false := by decide +kernel
  refine ⟨conceptCanvas_reachable, conceptCanvas_proper, hlawful, by decide +kernel,
    (proper_run_iff conceptCanvas_reachable conceptCanvas_proper hlawful).mp ?_⟩
  intro before rest hsplit
  have hlength : before.length < 5 := by
    have hsum := congrArg List.length hsplit
    simp only [londonRun, List.length_append, List.length_cons, List.length_nil] at hsum
    omega
  have hbuckets := hall before.length hlength
  rw [hsplit, List.take_left] at hbuckets
  exact proper_of_buckets hbuckets

/-- A text is set for the variable of the instances of a concept. -/
def textRun : List Call :=
  [.instantiate "urn:City" none,
    .setBound "43a3c863ae8bef06_0" "id" (some (.literal (.plain "x")))]

/-- The value is taken, and the text of the instance has it for the subject of a statement. -/
theorem textRun_not_proper :
    conceptCanvas.Reachable ∧ (∀ k ∈ textRun, k.Lawful) ∧
      ∃ q, (conceptCanvas.afterAll textRun).instance? ⟨"43a3c863ae8bef06", 0⟩ = some q ∧
        q.bodyText .standard = .ok "  \"x\" a <urn:City> .\n" ∧ ¬ q.Proper := by
  have hlawful : ∀ k ∈ textRun, k.Lawful := by
    simp [textRun, Call.Lawful, Constant.IsNormal, Constant.normal, Literal.normal, Literal.plain]
  have hinstance : ((conceptCanvas.afterAll textRun).instance? ⟨"43a3c863ae8bef06", 0⟩).map
      (fun q => (q.bodyText .standard, decide (∀ p ∈ q.patterns, ∀ x ∈ p.heads,
        (q.settled x).isLiteral = false))) =
        some (.ok "  \"x\" a <urn:City> .\n", false) := by decide +kernel
  obtain ⟨q, hq, hparts⟩ := Option.map_eq_some_iff.mp hinstance
  obtain ⟨htext, hliteral⟩ := Prod.mk.inj hparts
  exact ⟨conceptCanvas_reachable, hlawful, q, hq, htext, fun h => of_decide_eq_false hliteral h⟩

end Canvas

end SparqlCompose
