import Mathlib
import SparqlCompose.Canvas.Pattern
import SparqlCompose.Proofs.Canvas.Slot
import SparqlCompose.Proofs.Outcome

/-!
# What the operations on a canvas do

`CanvasM.result` is the answer of a step together with the canvas after it.  An operation comes in
one of two forms.  It makes an instance or removes some (`CanvasM.result_insert`,
`CanvasM.result_destroy`, `CanvasM.result_join`), or it edits one instance: then it writes the
slot of that instance only, and what it writes there comes from what the slot held
(`CanvasM.Edits`).  The second form is put together from `CanvasM.edit` and from steps that write
no slot.
-/

namespace SparqlCompose

namespace Canvas

/-- The canvas with one more note of what happened. -/
def noted (c : Canvas) (e : CanvasEvent) : Canvas := { c with events := c.events ++ [e] }

/-- A note changes no slot. -/
@[simp]
theorem slot?_noted (c : Canvas) (e : CanvasEvent) (i : InstanceId) :
    (c.noted e).slot? i = c.slot? i := rfl

/-- An instance that was found is found again after its slot was written. -/
theorem find_setSlot {c : Canvas} {text : String} {i : InstanceId} {q : Query} (q' : Query)
    (h : c.find text = .ok (i, q)) : (c.setSlot i (some q')).find text = .ok (i, q') := by
  obtain ⟨hid, hslot⟩ := find_eq_ok.mp h
  refine find_eq_ok.mpr ⟨hid, ?_⟩
  rw [slot?_setSlot, if_pos rfl, hslot]
  rfl

end Canvas

namespace CanvasM

variable {α β : Type} {R : Query → Query → Prop} {text : String} {c : Canvas}

/-- The answer of a step, and the canvas after it. -/
def result (m : CanvasM α) (c : Canvas) : Except CanvasError α × Canvas := m.run.run c

/-- The second of two steps starts on the canvas that the first one leaves, unless that fails. -/
theorem result_bind (m : CanvasM α) (f : α → CanvasM β) (c : Canvas) :
    (m >>= f).result c = match m.result c with
      | (.ok a, c') => (f a).result c'
      | (.error e, c') => (.error e, c') := by
  unfold result ExceptT.run StateT.run
  simp only [bind, ExceptT.bind, ExceptT.mk, StateT.bind]
  cases (show StateM Canvas (Except CanvasError α) from m) c with
  | mk r c' => cases r <;> rfl

/-- After a step that succeeds the rest goes on with its answer. -/
theorem result_bind_ok {m : CanvasM α} {f : α → CanvasM β} {a : α} {c' : Canvas}
    (h : m.result c = (.ok a, c')) : (m >>= f).result c = (f a).result c' := by
  rw [result_bind, h]

/-- A step that fails ends the whole. -/
theorem result_bind_error {m : CanvasM α} {f : α → CanvasM β} {e : CanvasError} {c' : Canvas}
    (h : m.result c = (.error e, c')) : (m >>= f).result c = (.error e, c') := by
  rw [result_bind, h]

/-- An answer alone changes nothing. -/
theorem result_pure (a : α) (c : Canvas) : (pure a : CanvasM α).result c = (.ok a, c) := rfl

/-- What is made of the answer of a step does not touch the canvas. -/
theorem result_map (f : α → β) (m : CanvasM α) (c : Canvas) :
    (f <$> m).result c = ((m.result c).1.map f, (m.result c).2) := by
  rw [map_eq_pure_bind, result_bind]
  cases m.result c with
  | mk r c' => cases r <;> rfl

/-- Finding an instance changes nothing. -/
theorem result_find (text : String) (c : Canvas) : (find text).result c = (c.find text, c) := rfl

/-- The answer of an operation on a query changes nothing. -/
theorem result_ofQuery (r : Except QueryError α) (c : Canvas) :
    (ofQuery r).result c = (r.mapError .query, c) := rfl

/-- Telling an event notes it. -/
theorem result_emit (e : CanvasEvent) (c : Canvas) :
    (emit e).result c = (.ok (), c.noted e) := rfl

/-- An edit writes the slot of the instance when the change of the query succeeds. -/
theorem result_edit (f : Query → Except QueryError (α × Query)) (c : Canvas) :
    (edit text f).result c = match c.find text with
      | .ok (i, q) => match f q with
        | .ok (a, q') => (.ok a, c.setSlot i (some q'))
        | .error e => (.error (.query e), c)
      | .error e => (.error e, c) := by
  unfold edit
  rw [result_bind, result_find]
  cases c.find text with
  | error e => rfl
  | ok found =>
      obtain ⟨i, q⟩ := found
      simp only [result_bind, result_ofQuery]
      cases f q <;> rfl

/-! ### Instances come and go -/

/-- A query is put into a slot of its own. -/
theorem result_insert (source : String) (q : Query) (c : Canvas) :
    (insert source q).result c = (.ok (c.nextId source).text,
      (c.store source q).noted (.instantiated (c.nextId source).text source)) := rfl

/-- Destroying an instance empties its slot and tells its id. -/
theorem result_destroy (text : String) (c : Canvas) :
    (destroy text).result c = match c.find text with
      | .ok (i, q) => (.ok q, (c.setSlot i none).noted (.destroyed text))
      | .error e => (.error e, c) := by
  unfold destroy
  rw [result_bind, result_find]
  cases c.find text <;> rfl

/-- A search for a source writes nothing.  It finds the template of a concept or a query of the
catalog. -/
theorem result_source (uri : String) (c : Canvas) :
    ∃ r, (source uri).result c = (r, c) ∧ ∀ q, r = .ok q →
      (∃ k : Concept, k.template = .ok q) ∨ c.queries.get? uri = some q := by
  have hget : (get : CanvasM Canvas).result c = (.ok c, c) := rfl
  unfold source
  rw [result_bind_ok hget]
  cases c.concepts.get? uri with
  | some concept =>
      refine ⟨_, rfl, ?_⟩
      intro q hq
      exact Or.inl ⟨concept, Outcome.mapError_eq_ok.mp hq⟩
  | none =>
      cases c.queries.get? uri with
      | some found =>
          refine ⟨_, rfl, ?_⟩
          intro q hq
          exact Or.inr (congrArg some (Except.ok.inj hq))
      | none =>
          refine ⟨_, rfl, ?_⟩
          intro q hq
          cases hq

/-- An instance is made of what the search for its source finds. -/
theorem result_instantiate (uri : String) (endpoint : Option String) (c : Canvas) :
    (∃ e, (instantiate uri endpoint).result c = (.error e, c)) ∨
      ∃ q, (source uri).result c = (.ok q, c) ∧ (instantiate uri endpoint).result c =
        (insert uri (endpoint.elim q q.activate)).result c := by
  obtain ⟨r, hsource, -⟩ := result_source uri c
  unfold instantiate
  cases r with
  | error e => exact Or.inl ⟨e, result_bind_error hsource⟩
  | ok q =>
      refine Or.inr ⟨q, hsource, (result_bind_ok hsource).trans ?_⟩
      cases endpoint <;> rfl

/-- A join fails before it writes, or it empties the slots of both operands and stores their
composite. -/
theorem result_join (left right : String × String) (mode : JoinMode) (c : Canvas) :
    (∃ e, (join left right mode).result c = (.error e, c)) ∨
      ∃ i l j r q used c', left.1 ≠ right.1 ∧ c.find left.1 = .ok (i, l) ∧
        c.find right.1 = .ok (j, r) ∧
        Query.join ⟨l, left.2⟩ ⟨r, right.2⟩ mode = .ok (q, used) ∧
        c' = (c.setSlot i none).setSlot j none ∧
        (join left right mode).result c = (.ok (c'.nextId q.uri).text,
          ((c'.store q.uri q).noted (.instantiated (c'.nextId q.uri).text q.uri)).noted
            (.joined left.1 (c'.nextId q.uri).text right.1)) := by
  unfold join
  by_cases hsame : left.1 = right.1
  · rw [if_pos hsame]
    exact Or.inl ⟨_, rfl⟩
  rw [if_neg hsame]
  cases hleft : c.find left.1 with
  | error e =>
      refine Or.inl ⟨e, ?_⟩
      simp only [result_bind, result_find, hleft]
  | ok found =>
      obtain ⟨i, l⟩ := found
      cases hright : c.find right.1 with
      | error e =>
          refine Or.inl ⟨e, ?_⟩
          simp only [result_bind, result_find, hleft, hright]
      | ok found =>
          obtain ⟨j, r⟩ := found
          cases hjoin : Query.join ⟨l, left.2⟩ ⟨r, right.2⟩ mode with
          | error e =>
              refine Or.inl ⟨.query e, ?_⟩
              simp only [result_bind, result_find, hleft, hright, hjoin, result_ofQuery,
                result_pure]
              rfl
          | ok composite =>
              obtain ⟨q, used⟩ := composite
              refine Or.inr ⟨i, l, j, r, q, used, _, hsame, rfl, rfl, hjoin, rfl, ?_⟩
              simp only [result_bind, result_find, hleft, hright, hjoin, result_ofQuery,
                result_pure]
              rfl

/-! ### Edits -/

end CanvasM

/-- Between two canvases nothing has changed but the notes and, at most, the instance that a text
names; what that instance is now is related to what it was. -/
structure Canvas.Edited (R : Query → Query → Prop) (text : String) (c c' : Canvas) : Prop where
  frame : c' = { c with buckets := c'.buckets, events := c'.events }
  slots : (∀ j, c'.slot? j = c.slot? j) ∨ ∃ i q q', InstanceId.ofText? text = some i ∧
    c.slot? i = some (some q) ∧ R q q' ∧
    ∀ j, c'.slot? j = if j = i then some (some q') else c.slot? j

/-- Where nothing has changed nothing else has. -/
theorem Canvas.Edited.refl (R : Query → Query → Prop) (text : String) (c : Canvas) :
    c.Edited R text c :=
  ⟨rfl, Or.inl fun _ => rfl⟩

/-- Edits of one instance make an edit of it. -/
theorem Canvas.Edited.trans {R : Query → Query → Prop} {text : String} {c c' c'' : Canvas}
    (hR : ∀ {q q' q''}, R q q' → R q' q'' → R q q'') (h : c.Edited R text c')
    (h' : c'.Edited R text c'') : c.Edited R text c'' where
  frame := by rw [h'.frame, h.frame]
  slots := by
    rcases h.slots with hsame | ⟨i, q, q', hid, hslot, hq, hother⟩
    · rcases h'.slots with hsame' | ⟨i, q, q', hid, hslot, hq, hother⟩
      · exact Or.inl fun j => (hsame' j).trans (hsame j)
      · refine Or.inr ⟨i, q, q', hid, (hsame i).symm.trans hslot, hq, ?_⟩
        intro j
        rw [hother, hsame]
    · rcases h'.slots with hsame' | ⟨i', r, r', hid', hslot', hr, hother'⟩
      · exact Or.inr ⟨i, q, q', hid, hslot, hq, fun j => (hsame' j).trans (hother j)⟩
      · obtain rfl := Option.some.inj (hid.symm.trans hid')
        -- the second edit starts from what the first has left
        have hleft := (hother i).symm.trans hslot'
        rw [if_pos rfl] at hleft
        obtain rfl := Option.some.inj (Option.some.inj hleft)
        refine Or.inr ⟨i, q, r', hid, hslot, hR hq hr, ?_⟩
        intro j
        rw [hother', hother]
        split <;> rfl

namespace CanvasM

variable {α β : Type} {R : Query → Query → Prop} {text : String}

/-- The step writes the slot of one instance at most. -/
def Edits (R : Query → Query → Prop) (text : String) (m : CanvasM α) : Prop :=
  ∀ c : Canvas, c.Edited R text (m.result c).2

/-- A step that writes nothing. -/
theorem edits_of_readOnly {m : CanvasM α} (h : ∀ c, (m.result c).2 = c) : m.Edits R text := by
  intro c
  rw [h]
  exact .refl R text c

/-- Telling an event edits nothing. -/
theorem edits_emit (e : CanvasEvent) : (emit e).Edits R text :=
  fun _ => ⟨rfl, Or.inl fun _ => rfl⟩

/-- The second step matters only for the answers that the first one gives. -/
theorem Edits.bind {m : CanvasM α} {f : α → CanvasM β}
    (hR : ∀ {q q' q''}, R q q' → R q' q'' → R q q'') (hm : m.Edits R text)
    (hf : ∀ c a c', m.result c = (.ok a, c') → (f a).Edits R text) : (m >>= f).Edits R text := by
  intro c
  have hfirst := hm c
  rw [result_bind]
  cases hresult : m.result c with
  | mk r c' =>
      rw [hresult] at hfirst
      cases r with
      | error e => exact hfirst
      | ok a => exact hfirst.trans hR (hf c a c' hresult c')

/-- An edit writes the slot of its instance, and what it writes is related to what it found. -/
theorem edits_edit {f : Query → Except QueryError (α × Query)}
    (hf : ∀ q a q', f q = .ok (a, q') → R q q') : (edit text f).Edits R text := by
  intro c
  rw [result_edit]
  cases hfind : c.find text with
  | error e => exact .refl R text c
  | ok found =>
      obtain ⟨i, q⟩ := found
      obtain ⟨hid, hslot⟩ := Canvas.find_eq_ok.mp hfind
      cases hq : f q with
      | error e =>
          simp only [hq]
          exact .refl R text c
      | ok changed =>
          obtain ⟨a, q'⟩ := changed
          simp only [hq]
          refine ⟨?_, Or.inr ⟨i, q, q', hid, hslot, hf q a q' hq, ?_⟩⟩
          · unfold Canvas.setSlot
            split <;> rfl
          · intro j
            rw [Canvas.slot?_setSlot, hslot]
            rfl

/-- What a typed slot means in a query, under the prefixes of the canvas. -/
def pending (q : Query) (i : SlotInput) : CanvasM PendingSlot := do
  .mk (pure (PendingSlot.ofInput q (← get).prefixes i))

/-- Finding out what a slot means changes nothing. -/
theorem result_pending (q : Query) (i : SlotInput) (c : Canvas) :
    (pending q i).result c = (PendingSlot.ofInput q c.prefixes i, c) := rfl

/-- The second half of `addPattern`: the variables of the slots are added, then the pattern. -/
def placePattern (text : String) (s p o : PendingSlot) : CanvasM Unit := do
  let s ← edit text s.realize
  let p ← edit text p.realize
  let o ← edit text o.realize
  edit text fun q => return ((), ← q.pushClause (.pattern (← Pattern.make s p o)))
  emit (.patternAdded text)

/-- What `addPattern` has found out before it writes: the instance and what its three slots
mean. -/
structure Checked (text : String) (s p o : SlotInput) (c : Canvas) (q : Query)
    (s' p' o' : PendingSlot) : Prop where
  subject : s.isLiteral = false
  predicate : p.asPredicate.isLiteral = false
  found : ∃ i, c.find text = .ok (i, q)
  subjectSlot : PendingSlot.ofInput q c.prefixes s = .ok s'
  predicateSlot : PendingSlot.ofInput q c.prefixes p.asPredicate = .ok p'
  objectSlot : PendingSlot.ofInput q c.prefixes o = .ok o'

/-- When no literal is in the way, a new pattern is resolved slot by slot, and then placed. -/
theorem result_addPattern_of_not_literal {s p o : SlotInput} (hs : s.isLiteral = false)
    (hp : p.asPredicate.isLiteral = false) (c : Canvas) :
    (addPattern text s p o).result c =
      (find text >>= fun found => pending found.2 s >>= fun s' =>
        pending found.2 p.asPredicate >>= fun p' => pending found.2 o >>= fun o' =>
          placePattern text s' p' o').result c := by
  simp only [addPattern, hs, hp]
  rfl

/-- A pattern whose slots were checked is placed. -/
theorem Checked.result_addPattern {s p o : SlotInput} {c : Canvas} {q : Query}
    {s' p' o' : PendingSlot} (h : Checked text s p o c q s' p' o') :
    (addPattern text s p o).result c = (placePattern text s' p' o').result c := by
  obtain ⟨i, hfind⟩ := h.found
  rw [result_addPattern_of_not_literal h.subject h.predicate, result_bind, result_find, hfind]
  simp only [result_bind, result_pending, h.subjectSlot, h.predicateSlot, h.objectSlot]

/-- The checks of a new pattern write nothing. -/
theorem checked_or_error (text : String) (s p o : SlotInput) (c : Canvas) :
    (∃ e, (addPattern text s p o).result c = (.error e, c)) ∨
      ∃ q s' p' o', Checked text s p o c q s' p' o' := by
  cases hs : s.isLiteral with
  | true =>
      refine Or.inl ⟨.query (.literalIn .subject), ?_⟩
      simp only [addPattern, hs]
      rfl
  | false =>
  cases hp : p.asPredicate.isLiteral with
  | true =>
      refine Or.inl ⟨.query (.literalIn .predicate), ?_⟩
      simp only [addPattern, hs, hp]
      rfl
  | false =>
  rw [result_addPattern_of_not_literal hs hp, result_bind, result_find]
  cases hfind : c.find text with
  | error e => exact Or.inl ⟨e, rfl⟩
  | ok found =>
  obtain ⟨i, q⟩ := found
  cases hs' : PendingSlot.ofInput q c.prefixes s with
  | error e => exact Or.inl ⟨e, by simp only [result_bind, result_pending, hs']⟩
  | ok s' =>
  cases hp' : PendingSlot.ofInput q c.prefixes p.asPredicate with
  | error e => exact Or.inl ⟨e, by simp only [result_bind, result_pending, hs', hp']⟩
  | ok p' =>
  cases ho' : PendingSlot.ofInput q c.prefixes o with
  | error e => exact Or.inl ⟨e, by simp only [result_bind, result_pending, hs', hp', ho']⟩
  | ok o' => exact Or.inr ⟨q, s', p', o', hs, hp, ⟨i, hfind⟩, hs', hp', ho'⟩

end CanvasM

end SparqlCompose
