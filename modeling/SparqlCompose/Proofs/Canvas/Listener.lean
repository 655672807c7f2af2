import Mathlib
import SparqlCompose.Proofs.Canvas.Atomic
import SparqlCompose.Proofs.Canvas.Identity
import SparqlCompose.Proofs.View

/-!
# A listener stays in sync

A listener never looks at a canvas.  It keeps a view of each instance, takes up a new one when it
hears that an instance was made, and changes it as it hears of edits (`Listener.hear`).  After any
run of calls it knows the instances of the canvas and no others, and of each the columns and the
values as they are (`Canvas.listener_in_sync`).  What a call tells is said once, together with what
it does to the slots (`Canvas.told`): an edit tells as much about its instance as can be seen of it
afterwards, and the two events of a join compose because the id of the composite is a new one.
-/

namespace SparqlCompose

/-- The event is about an edit of the instance. -/
def CanvasEvent.IsEdit (text : String) : CanvasEvent → Prop
  | .variableAdded id _ | .projectionChanged id _ | .patternAdded id | .variableBound id _ _ =>
      id = text
  | _ => False

/-- The view of an instance after an event about it. -/
def View.hear (w : View) : CanvasEvent → View
  | .projectionChanged _ columns => { w with columns := columns }
  | .variableBound _ name value => { w with value := Function.update w.value name value }
  | _ => w

/-- What a listener knows: a view of each instance that it has heard of and that is not gone. -/
abbrev Listener := String → Option View

namespace Listener

/-- What a listener knows after an event.  The view of an instance as it is made comes from
`base`. -/
def hear (base : String → View) (m : Listener) (e : CanvasEvent) : Listener :=
  match e with
  | .instantiated id _ => Function.update m id (some (base id))
  | .destroyed id => Function.update m id none
  | .joined oldId _ removedId => Function.update (Function.update m oldId none) removedId none
  | .variableAdded id _ | .projectionChanged id _ | .patternAdded id | .variableBound id _ _ =>
      Function.update m id ((m id).map (·.hear e))

/-- What a listener knows that has heard all events of a stream. -/
def replay (base : String → View) (es : List CanvasEvent) : Listener :=
  es.foldl (hear base) fun _ => none

variable {base : String → View} {m : Listener} {text : String}

/-- An event about an edit changes the view of its instance only. -/
theorem hear_of_isEdit {e : CanvasEvent} (he : e.IsEdit text) :
    hear base m e = Function.update m text ((m text).map (·.hear e)) := by
  cases e <;> first | exact he.elim | (obtain rfl := he; rfl)

/-- Events about edits of one instance change what is known of that instance. -/
theorem foldl_hear_of_isEdit {es : List CanvasEvent} (hes : ∀ e ∈ es, e.IsEdit text) :
    es.foldl (hear base) m =
      Function.update m text ((m text).map fun w => es.foldl View.hear w) := by
  induction es generalizing m with
  | nil => simp
  | cons e es ih =>
      rw [List.foldl_cons, hear_of_isEdit (hes e List.mem_cons_self),
        ih fun e' he' => hes e' (List.mem_cons_of_mem _ he'), Function.update_idem,
        Function.update_self, Option.map_map]
      rfl

end Listener

namespace Canvas

/-! ### What calls tell -/

/-- Writing a slot tells nothing. -/
theorem events_setSlot (c : Canvas) (i : InstanceId) (x : Option Query) :
    (c.setSlot i x).events = c.events := by
  unfold setSlot
  split <;> rfl

/-- Between two canvases an instance was edited, and nothing has been told of it yet. -/
structure Underway (text : String) (i : InstanceId) (q : Query) (c c' : Canvas) (q' : Query) :
    Prop where
  found : c.find text = .ok (i, q)
  found' : c'.find text = .ok (i, q')
  events : c'.events = c.events
  slots : ∀ j, c'.slot? j = if j = i then some (some q') else c.slot? j

/-- Between two canvases an instance was edited at most, and what was told of it is what can be seen
of it afterwards. -/
inductive EditTold (text : String) (c c' : Canvas) : List CanvasEvent → Prop
  | idle (events : c'.events = c.events) (slots : ∀ j, c'.slot? j = c.slot? j) :
      EditTold text c c' []
  | told {i : InstanceId} {q q' : Query} {es : List CanvasEvent}
      (found : c.find text = .ok (i, q)) (events : c'.events = c.events ++ es)
      (slots : ∀ j, c'.slot? j = if j = i then some (some q') else c.slot? j)
      (edits : ∀ e ∈ es, e.IsEdit text) (indexed : q'.Indexed)
      (view : es.foldl View.hear q.view = q'.view) : EditTold text c c' es

variable {text : String} {i : InstanceId} {q q' q'' : Query} {c c' : Canvas}

/-- Before its first edit an instance is as it was. -/
theorem Underway.start (hfind : c.find text = .ok (i, q)) : Underway text i q c c q where
  found := hfind
  found' := hfind
  events := rfl
  slots := by
    intro j
    split
    · next hji => rw [hji, (find_eq_ok.mp hfind).2]
    · rfl

/-- The edit goes on. -/
theorem Underway.write (h : Underway text i q c c' q') (q'' : Query) :
    Underway text i q c (c'.setSlot i (some q'')) q'' where
  found := h.found
  found' := find_setSlot q'' h.found'
  events := (events_setSlot c' i (some q'')).trans h.events
  slots := by
    intro j
    rw [slot?_setSlot, (find_eq_ok.mp h.found').2]
    split
    · rfl
    · next hji => rw [h.slots, if_neg hji]

/-- The edit ends without a word, since it cannot be seen. -/
theorem Underway.editTold (h : Underway text i q c c' q') (hq' : q'.Indexed)
    (hview : q'.view = q.view) : EditTold text c c' [] :=
  .told h.found (by rw [h.events, List.append_nil]) h.slots (by simp) hq' hview.symm

/-- The edit ends with an event. -/
theorem Underway.editTold_noted (h : Underway text i q c c' q') (hq' : q'.Indexed) {e : CanvasEvent}
    (he : e.IsEdit text) (hview : q'.view = q.view.hear e) : EditTold text c (c'.noted e) [e] :=
  .told h.found (by rw [noted, h.events]) h.slots (by simpa using he) hq' hview.symm

end Canvas

/-- A slot that becomes a term is not seen: if a variable is added for it, that has no value. -/
theorem PendingSlot.view_of_realize {s : PendingSlot} {q q' : Query} {t : Term} (hq : q.Indexed)
    (hok : s.realize q = .ok (t, q')) : q'.Indexed ∧ q'.view = q.view := by
  rcases realize_eq_ok.mp hok with ⟨-, rfl⟩ | ⟨name, id, -, -, ⟨-, rfl⟩ | ⟨-, hadd⟩⟩
  · exact ⟨hq, rfl⟩
  · exact ⟨hq, rfl⟩
  · exact hq.addVariable rfl hadd

namespace CanvasM

variable {α β : Type} {text : String} {i : InstanceId} {q q' : Query} {c c' : Canvas}

/-- The step edits an instance at most, and tells what can be seen of it. -/
def TellsEdit (text : String) (m : CanvasM α) (c : Canvas) : Prop :=
  ∃ es, c.EditTold text (m.result c).2 es

/-- A step that fails on the canvas as it was tells nothing. -/
theorem tellsEdit_of_error {m : CanvasM α} {e : CanvasError} (h : m.result c = (.error e, c)) :
    m.TellsEdit text c := by
  refine ⟨[], ?_⟩
  rw [h]
  exact .idle rfl fun _ => rfl

/-- An edit that is underway goes on by a change of the query.  If the change fails, what was done
so far must not be seen. -/
theorem editTold_edit_bind {f : Query → Except QueryError (α × Query)} {g : α → CanvasM β}
    (h : c.Underway text i q c' q') (hq' : q'.Indexed) (hview : q'.view = q.view)
    (hg : ∀ a q'', f q' = .ok (a, q'') →
      ∃ es, c.EditTold text ((g a).result (c'.setSlot i (some q''))).2 es) :
    ∃ es, c.EditTold text ((edit text f >>= g).result c').2 es := by
  cases hf : f q' with
  | error e =>
      have hfail : (edit text f).result c' = (.error (.query e), c') := by
        simp only [result_edit, h.found', hf]
      refine ⟨[], ?_⟩
      rw [result_bind_error hfail]
      exact h.editTold hq' hview
  | ok changed =>
      obtain ⟨a, q''⟩ := changed
      rw [result_bind_ok (result_edit_ok h.found' hf)]
      exact hg a q'' hf

/-- A step that begins by a change of the query. -/
theorem tellsEdit_edit_bind {f : Query → Except QueryError (α × Query)} {g : α → CanvasM β}
    (hc : ∀ i q, c.find text = .ok (i, q) → q.Indexed)
    (hg : ∀ i q a q', c.find text = .ok (i, q) → q.Indexed → f q = .ok (a, q') →
      ∃ es, c.EditTold text ((g a).result (c.setSlot i (some q'))).2 es) :
    (edit text f >>= g).TellsEdit text c := by
  cases hfind : c.find text with
  | error e =>
      have hfail : (edit text f).result c = (.error e, c) := by rw [result_edit, hfind]
      exact tellsEdit_of_error (result_bind_error hfail)
  | ok found =>
      obtain ⟨i, q⟩ := found
      have hq := hc i q hfind
      exact editTold_edit_bind (.start hfind) hq rfl fun a q' hf => hg i q a q' hfind hq hf

variable (hc : ∀ i q, c.find text = .ok (i, q) → q.Indexed)
include hc

/-- Adding a variable tells what can be seen of it. -/
theorem tellsEdit_addVariable (base : String) : (addVariable text base).TellsEdit text c := by
  refine tellsEdit_edit_bind hc fun i q v q' hfind hq hok => ?_
  obtain ⟨⟨id, r⟩, hfresh, hrest⟩ := Outcome.bind_eq_ok.mp hok
  obtain ⟨w, -, hpure⟩ := Outcome.bind_eq_ok.mp hrest
  obtain ⟨rfl, rfl⟩ := Prod.mk.inj (Outcome.pure_eq_ok.mp hpure)
  obtain ⟨hr, hview⟩ := hq.addVariable rfl (Query.freshVariable_eq_ok.mp hfresh).2
  exact ⟨_, ((Canvas.Underway.start hfind).write r).editTold_noted hr rfl hview⟩

/-- Setting a value tells the name and the value. -/
theorem tellsEdit_setBound (name : String) (value : Option Constant) :
    (setBound text name value).TellsEdit text c := by
  refine tellsEdit_edit_bind hc fun i q a q' hfind hq hok => ?_
  obtain ⟨id, -, hrest⟩ := Outcome.bind_eq_ok.mp hok
  obtain ⟨⟨old, r⟩, hset, hrest⟩ := Outcome.bind_eq_ok.mp hrest
  obtain ⟨v, hv, hpure⟩ := Outcome.bind_eq_ok.mp hrest
  obtain ⟨rfl, rfl⟩ := Prod.mk.inj (Outcome.pure_eq_ok.mp hpure)
  obtain ⟨hr, hview⟩ := hq.setBound hset (Query.var_eq_ok.mp hv)
  exact ⟨_, ((Canvas.Underway.start hfind).write r).editTold_noted hr rfl hview⟩

omit hc in
/-- An edit of the columns ends with the list of the columns. -/
theorem editTold_emitColumns (h : c.Underway text i q c' q') (hq' : q'.Indexed)
    (hvalue : q'.view.value = q.view.value) :
    ∃ es, c.EditTold text ((emitColumns text).result c').2 es := by
  rw [result_emitColumns h.found' hq']
  exact ⟨_, h.editTold_noted hq' rfl (View.ext rfl hvalue)⟩

/-- Changing whether a column is shown tells the columns as they are then. -/
theorem tellsEdit_project (name : String) (on : Bool) :
    (project text name on).TellsEdit text c := by
  refine tellsEdit_edit_bind hc fun i q changed q' hfind hq hok => ?_
  obtain ⟨id, -, hrest⟩ := Outcome.bind_eq_ok.mp hok
  obtain ⟨hq', hvalue, hsame⟩ : q'.Indexed ∧ q'.view.value = q.view.value ∧
      (changed = false → q'.view = q.view) := by
    cases on with
    | true => exact hq.project hrest
    | false =>
        obtain ⟨rfl, rfl⟩ := Prod.mk.inj (Outcome.pure_eq_ok.mp hrest)
        exact hq.unproject id
  have hunderway := (Canvas.Underway.start hfind).write q'
  cases changed with
  | true => exact editTold_emitColumns hunderway hq' hvalue
  | false => exact ⟨_, hunderway.editTold hq' (hsame rfl)⟩

/-- So does putting the columns into an order. -/
theorem tellsEdit_reorder (order : List String) : (reorder text order).TellsEdit text c := by
  refine tellsEdit_edit_bind hc fun i q a q' hfind hq hok => ?_
  obtain ⟨r, hr, hpure⟩ := Outcome.bind_eq_ok.mp hok
  obtain ⟨-, rfl⟩ := Prod.mk.inj (Outcome.pure_eq_ok.mp hpure)
  obtain ⟨hindexed, hvalue⟩ := hq.reorder hr
  exact editTold_emitColumns ((Canvas.Underway.start hfind).write r) hindexed hvalue

/-- A new pattern is told, though it cannot be seen, nor can the variables that are added before
it. -/
theorem tellsEdit_placePattern (s p o : PendingSlot) :
    (placePattern text s p o).TellsEdit text c := by
  refine tellsEdit_edit_bind hc fun i q s' q₁ hfind hq hs => ?_
  obtain ⟨hq₁, hview₁⟩ := PendingSlot.view_of_realize hq hs
  have h₁ := (Canvas.Underway.start hfind).write q₁
  refine editTold_edit_bind h₁ hq₁ hview₁ fun p' q₂ hp => ?_
  obtain ⟨hq₂, hview₂⟩ := PendingSlot.view_of_realize hq₁ hp
  have h₂ := h₁.write q₂
  refine editTold_edit_bind h₂ hq₂ (hview₂.trans hview₁) fun o' q₃ ho => ?_
  obtain ⟨hq₃, hview₃⟩ := PendingSlot.view_of_realize hq₂ ho
  have h₃ := h₂.write q₃
  have hview := hview₃.trans (hview₂.trans hview₁)
  refine editTold_edit_bind h₃ hq₃ hview fun a q₄ hok => ?_
  obtain ⟨pattern, -, hrest⟩ := Outcome.bind_eq_ok.mp hok
  obtain ⟨r, hpush, hpure⟩ := Outcome.bind_eq_ok.mp hrest
  obtain ⟨-, rfl⟩ := Prod.mk.inj (Outcome.pure_eq_ok.mp hpure)
  obtain ⟨hr, hview₄⟩ := hq₃.pushClause hpush
  exact ⟨_, (h₃.write r).editTold_noted hr rfl (hview₄.trans hview)⟩

/-- Adding a pattern tells of the pattern; nothing else can be seen of it. -/
theorem tellsEdit_addPattern (s p o : SlotInput) : (addPattern text s p o).TellsEdit text c := by
  rcases checked_or_error text s p o c with ⟨e, hfail⟩ | ⟨q, s', p', o', hchecked⟩
  · exact tellsEdit_of_error hfail
  · unfold TellsEdit
    rw [hchecked.result_addPattern]
    exact tellsEdit_placePattern hc s' p' o'

end CanvasM

namespace Canvas

/-- What a call does to the slots of a canvas, with the events that it tells. -/
inductive Told (c : Canvas) (k : Call) (c' : Canvas) : List CanvasEvent → Prop
  | idle (hslots : ∀ j, c'.slot? j = c.slot? j) : Told c k c' []
  | edited {text : String} {es : List CanvasEvent} (hk : k.targets = [text])
      (h : c.EditTold text c' es) : Told c k c' es
  | stored {source : String} {q : Query} (hk : k.Supplies c source q)
      (hslots : ∀ j, c'.slot? j = (c.store source q).slot? j) :
      Told c k c' [.instantiated (c.nextId source).text source]
  | destroyed {text : String} {i : InstanceId} {q : Query} (hk : k = .destroy text)
      (hfind : c.find text = .ok (i, q))
      (hslots : ∀ j, c'.slot? j = (c.setSlot i none).slot? j) : Told c k c' [.destroyed text]
  | joined {left right : String × String} {mode used : JoinMode} {i j : InstanceId} {l r q : Query}
      {cleared : Canvas} (hk : k = .join left right mode) (hne : left.1 ≠ right.1)
      (hleft : c.find left.1 = .ok (i, l)) (hright : c.find right.1 = .ok (j, r))
      (hjoin : Query.join ⟨l, left.2⟩ ⟨r, right.2⟩ mode = .ok (q, used))
      (hcleared : cleared = (c.setSlot i none).setSlot j none)
      (hslots : ∀ j, c'.slot? j = (cleared.store q.uri q).slot? j) :
      Told c k c' [.instantiated (cleared.nextId q.uri).text q.uri,
        .joined left.1 (cleared.nextId q.uri).text right.1]

section Calls

variable {k : Call} {c c' : Canvas}

/-- What was told is what has been noted. -/
theorem EditTold.events_eq {text : String} {es : List CanvasEvent} (h : c.EditTold text c' es) :
    c'.events = c.events ++ es := by
  cases h with
  | idle events _ => rw [events, List.append_nil]
  | told _ events _ _ _ _ => exact events

/-- A call that fails tells nothing and does nothing. -/
theorem told_of_error {e : CanvasError} (h : k.perform.result c = (.error e, c)) :
    ∃ es, (c.after k).events = c.events ++ es ∧ c.Told k (c.after k) es := by
  have hafter : c.after k = c := congrArg Prod.snd h
  rw [hafter]
  exact ⟨[], (List.append_nil _).symm, .idle fun _ => rfl⟩

/-- A call that makes such a step tells what can be seen of the instance afterwards. -/
theorem told_of_tellsEdit {α : Type} {m : CanvasM α} {text : String}
    (hperform : k.perform = (fun _ => none) <$> m) (hk : k.targets = [text])
    (hm : m.TellsEdit text c) :
    ∃ es, (c.after k).events = c.events ++ es ∧ c.Told k (c.after k) es := by
  have hafter : c.after k = (m.result c).2 := by
    rw [after, hperform, CanvasM.result_map]
  obtain ⟨es, htold⟩ := hm
  rw [hafter]
  exact ⟨es, htold.events_eq, .edited hk htold⟩

/-- A call that puts a query into a new slot tells the id and the source. -/
theorem told_of_insert {source : String} {q : Query} (hk : k.Supplies c source q)
    (hperform : k.perform.result c = (some <$> CanvasM.insert source q).result c) :
    ∃ es, (c.after k).events = c.events ++ es ∧ c.Told k (c.after k) es := by
  have hafter : c.after k =
      (c.store source q).noted (.instantiated (c.nextId source).text source) := by
    rw [after, hperform, CanvasM.result_map, CanvasM.result_insert]
  rw [hafter]
  exact ⟨_, rfl, .stored hk fun _ => rfl⟩

/-- Destroying an instance tells its id. -/
theorem told_destroy (c : Canvas) (text : String) :
    ∃ es, (c.after (.destroy text)).events = c.events ++ es ∧
      c.Told (.destroy text) (c.after (.destroy text)) es := by
  have hresult : (Call.destroy text).perform.result c = _ :=
    CanvasM.result_map (fun _ => none) (CanvasM.destroy text) c
  rw [CanvasM.result_destroy] at hresult
  cases hfind : c.find text with
  | error e =>
      rw [hfind] at hresult
      exact told_of_error hresult
  | ok found =>
      obtain ⟨i, q⟩ := found
      rw [hfind] at hresult
      have hafter : c.after (.destroy text) = _ := congrArg Prod.snd hresult
      rw [hafter]
      refine ⟨_, ?_, .destroyed rfl hfind fun _ => rfl⟩
      exact congrArg (· ++ [CanvasEvent.destroyed text]) (events_setSlot c i none)

/-- A join tells of the new instance, and then that it stands for both operands. -/
theorem told_join (c : Canvas) (left right : String × String) (mode : JoinMode) :
    ∃ es, (c.after (.join left right mode)).events = c.events ++ es ∧
      c.Told (.join left right mode) (c.after (.join left right mode)) es := by
  have hresult : (Call.join left right mode).perform.result c = _ :=
    CanvasM.result_map some (CanvasM.join left right mode) c
  rcases CanvasM.result_join left right mode c with
    ⟨e, hfail⟩ | ⟨i, l, j, r, q, used, cleared, hne, hleft, hright, hjoin, hcleared, hok⟩
  · rw [hfail] at hresult
    exact told_of_error hresult
  · rw [hok] at hresult
    have hafter : c.after (.join left right mode) = _ := congrArg Prod.snd hresult
    rw [hafter]
    refine ⟨_, ?_, .joined rfl hne hleft hright hjoin hcleared fun _ => rfl⟩
    change cleared.events ++ _ ++ _ = _
    rw [hcleared, events_setSlot, events_setSlot, List.append_assoc]
    rfl

/-- **What a call tells.**  The case split is on the call. -/
theorem told (hc : ∀ i q, c.slot? i = some (some q) → q.Indexed) (k : Call) :
    ∃ es, (c.after k).events = c.events ++ es ∧ c.Told k (c.after k) es := by
  have hfound : ∀ {text : String} (i q), c.find text = .ok (i, q) → q.Indexed :=
    fun i q hfind => hc i q (find_eq_ok.mp hfind).2
  cases k with
  | insert source q => exact told_of_insert ⟨rfl, rfl⟩ rfl
  | instantiate source endpoint =>
      rcases result_perform_instantiate source endpoint c with ⟨e, hfail⟩ | ⟨q, hk, hok⟩
      · exact told_of_error hfail
      · exact told_of_insert hk hok
  | destroy text => exact told_destroy c text
  | join left right mode => exact told_join c left right mode
  | addVariable text base =>
      exact told_of_tellsEdit rfl rfl (CanvasM.tellsEdit_addVariable hfound base)
  | project text name on =>
      exact told_of_tellsEdit rfl rfl (CanvasM.tellsEdit_project hfound name on)
  | addPattern text s p o =>
      exact told_of_tellsEdit rfl rfl (CanvasM.tellsEdit_addPattern hfound s p o)
  | reorder text order => exact told_of_tellsEdit rfl rfl (CanvasM.tellsEdit_reorder hfound order)
  | setBound text name value =>
      exact told_of_tellsEdit rfl rfl (CanvasM.tellsEdit_setBound hfound name value)
  | furnish prefixes queries endpoints concepts =>
      exact ⟨[], (List.append_nil _).symm, .idle fun _ => rfl⟩

/-! ### One call -/

/-- The listener knows exactly the instances of the canvas, as they can be seen. -/
structure InSync (c : Canvas) (m : Listener) : Prop where
  known : ∀ i q, c.slot? i = some (some q) → m i.text = some q.view
  live : ∀ id, (m id).isSome → ∃ i q, c.slot? i = some (some q) ∧ i.text = id

/-- All queries of a canvas are indexed. -/
structure AllIndexed (c : Canvas) : Prop where
  instances : ∀ i q, c.slot? i = some (some q) → q.Indexed
  catalog : ∀ q ∈ c.queries.values, q.Indexed

/-- What a call puts under a source is indexed, if the catalog and what it hands over are. -/
theorem indexed_of_supplies {source : String} {q : Query} (h : c.AllIndexed)
    (hk : k.Supplies c source q) (hhands : ∀ q, k.Hands q → q.Indexed) : q.Indexed := by
  cases k with
  | insert source' q' => exact hhands q hk.2
  | instantiate source' endpoint =>
      obtain ⟨-, r, rfl, horigin⟩ := hk
      have hr : r.Indexed := by
        rcases horigin with ⟨concept, htemplate⟩ | hget
        · exact (Concept.template_wellFormed htemplate).indexed
        · exact h.catalog r (List.mem_map_of_mem (OrderedMap.get?_eq_some_iff.mp hget))
      cases endpoint with
      | none => exact hr
      | some e => exact hr.activate e
  | _ => exact hk.elim

/-- A call leaves all queries indexed, if those that it hands over are. -/
theorem AllIndexed.told (h : c.AllIndexed) (hhands : ∀ q, k.Hands q → q.Indexed)
    {es : List CanvasEvent} (htold : c.Told k c' es)
    (hcatalog : ∀ q ∈ c'.queries.values, q.Indexed) : c'.AllIndexed := by
  refine ⟨?_, hcatalog⟩
  intro j r hr
  cases htold with
  | idle hslots => exact h.instances j r (hslots j ▸ hr)
  | edited _ hedit =>
      cases hedit with
      | idle _ hslots => exact h.instances j r (hslots j ▸ hr)
      | told _ _ hslots _ hindexed _ =>
          rw [hslots] at hr
          split at hr
          · obtain rfl := Option.some.inj (Option.some.inj hr)
            exact hindexed
          · exact h.instances j r hr
  | stored hk hslots =>
      rw [hslots, slot?_store] at hr
      split at hr
      · obtain rfl := Option.some.inj (Option.some.inj hr)
        exact (indexed_of_supplies h hk hhands).scopeTo _
      · exact h.instances j r hr
  | destroyed _ hfind hslots =>
      rw [hslots, slot?_clear (find_eq_ok.mp hfind).2] at hr
      split at hr
      · cases hr
      · exact h.instances j r hr
  | joined _ _ hleft hright hjoin hcleared hslots =>
      rw [hslots, slot?_store, hcleared,
        slot?_emptied (find_eq_ok.mp hleft).2 (find_eq_ok.mp hright).2] at hr
      split at hr
      · obtain rfl := Option.some.inj (Option.some.inj hr)
        exact (Query.indexed_join hjoin).scopeTo _
      · split at hr
        · cases hr
        · exact h.instances j r hr

namespace InSync

variable {base : String → View} {m : Listener} {issued retired : List String}

/-- A canvas without instances and a listener that has heard nothing. -/
theorem start (h : c.buckets = ∅) : c.InSync fun _ => none := by
  refine ⟨?_, ?_⟩
  · intro i q hq
    rw [slot?, h] at hq
    cases hq
  · intro id hid
    cases hid

/-- A listener in sync stays so while the slots stay. -/
theorem of_slots (h : c.InSync m) (hslots : ∀ j, c'.slot? j = c.slot? j) : c'.InSync m where
  known := fun i q hq => h.known i q (hslots i ▸ hq)
  live := by
    intro id hid
    obtain ⟨i, q, hq, htext⟩ := h.live id hid
    exact ⟨i, q, hslots i ▸ hq, htext⟩

/-- One slot is written, and the listener knows what is there now. -/
theorem write (h : c.InSync m) {i : InstanceId} {x : Option Query}
    (hslots : ∀ j, c'.slot? j = if j = i then some x else c.slot? j) :
    c'.InSync (Function.update m i.text (x.map Query.view)) where
  known := by
    intro j r hr
    rw [hslots] at hr
    split at hr
    · next hji => rw [hji, Function.update_self, Option.some.inj hr, Option.map_some]
    · next hji =>
        rw [Function.update_of_ne (InstanceId.text_injective.ne hji)]
        exact h.known j r hr
  live := by
    intro id hid
    by_cases hidi : id = i.text
    · rw [hidi, Function.update_self, Option.isSome_map] at hid
      obtain ⟨q, rfl⟩ := Option.isSome_iff_exists.mp hid
      exact ⟨i, q, by rw [hslots, if_pos rfl], hidi.symm⟩
    · rw [Function.update_of_ne hidi] at hid
      obtain ⟨j, r, hr, rfl⟩ := h.live id hid
      exact ⟨j, r, by rw [hslots, if_neg (fun hji => hidi (by rw [hji])), hr], rfl⟩

/-- **A call leaves a listener in sync** that hears what the call tells.  The views of new instances
come from `base`. -/
theorem told (h : c.InSync m) (htracks : c.Tracks issued retired) (hroom : c.Roomy)
    (htargets : ∀ id ∈ k.targets, id ∈ issued) {es : List CanvasEvent}
    (htold : c.Told k c' es)
    (hbase : ∀ i q, c.slot? i = none → c'.slot? i = some (some q) → base i.text = q.view) :
    c'.InSync (es.foldl (Listener.hear base) m) := by
  cases htold with
  | idle hslots => exact h.of_slots hslots
  | @edited text es hk hedit =>
      cases hedit with
      | idle _ hslots => exact h.of_slots hslots
      | @told i q q' es hfind _ hslots hedits _ hview =>
          obtain ⟨hread, hq⟩ := find_eq_ok.mp hfind
          have htext := htracks.text_of_ofText? hroom (htargets text (by simp [hk])) hread
          rw [Listener.foldl_hear_of_isEdit hedits, ← htext, h.known i q hq, Option.map_some, hview]
          exact h.write hslots
  | @stored source q hk hslots =>
      have hnew := slot?_nextId c source
      have hstored : ∀ j, c'.slot? j = if j = c.nextId source then
          some (some (q.scopeTo (c.nextId source).text)) else c.slot? j := by
        intro j
        rw [hslots, slot?_store]
      rw [List.foldl_cons, List.foldl_nil, Listener.hear,
        hbase _ _ hnew (by rw [hstored, if_pos rfl])]
      exact h.write hstored
  | @destroyed text i q hk hfind hslots =>
      obtain ⟨hread, hq⟩ := find_eq_ok.mp hfind
      have htext := htracks.text_of_ofText? hroom (htargets text (by simp [hk, Call.targets])) hread
      rw [List.foldl_cons, List.foldl_nil, Listener.hear, ← htext]
      exact h.write fun j => by rw [hslots, slot?_clear hq]
  | @joined left right mode used i j l r q cleared hk hne hleft hright hjoin hcleared hslots =>
      obtain ⟨hread, hl⟩ := find_eq_ok.mp hleft
      obtain ⟨hread', hr⟩ := find_eq_ok.mp hright
      have hlissued : left.1 ∈ issued := htargets _ (by simp [hk, Call.targets])
      have hrissued : right.1 ∈ issued := htargets _ (by simp [hk, Call.targets])
      have hltext := htracks.text_of_ofText? hroom hlissued hread
      have hrtext := htracks.text_of_ofText? hroom hrissued hread'
      have hji := htracks.ne_of_texts hroom hne hlissued hrissued hleft hright
      -- the id of the composite is neither of those that are forgotten, so it may come last
      subst hcleared
      let new := ((c.setSlot i none).setSlot j none).nextId q.uri
      have hnewi : new.text ≠ i.text :=
        InstanceId.text_injective.ne (ne_nextId_emptied hl hr hl q.uri).symm
      have hnewj : new.text ≠ j.text :=
        InstanceId.text_injective.ne (ne_nextId_emptied hl hr hr q.uri).symm
      have hnone : c.slot? new = none := by
        cases hnew : c.slot? new with
        | none => rfl
        | some x => exact absurd rfl (ne_nextId_emptied hl hr hnew q.uri)
      have hstored : ∀ n, c'.slot? n = if n = new then some (some (q.scopeTo new.text))
          else ((c.setSlot i none).setSlot j none).slot? n := by
        intro n
        rw [hslots, slot?_store]
      have hr' : (c.setSlot i none).slot? j = some (some r) := by
        rw [slot?_clear hl, if_neg hji, hr]
      have hsync := ((h.write (slot?_clear hl)).write (slot?_clear hr')).write hstored
      simp only [Option.map_none, Option.map_some] at hsync
      rw [← hbase new _ hnone (by rw [hstored, if_pos rfl]), hltext, hrtext] at hsync
      rw [hltext] at hnewi
      rw [hrtext] at hnewj
      simp only [List.foldl_cons, List.foldl_nil, Listener.hear]
      rwa [Function.update_comm hnewi, Function.update_comm hnewj]

end InSync

end Calls

/-! ### Runs -/

/-- The view of an instance, as its id finds it. -/
def viewAt (c : Canvas) (id : String) : View :=
  match c.find id with
  | .ok (_, q) => q.view
  | .error _ => ⟨[], fun _ => none⟩

/-- The views of the instances that a run makes, each as it is after the call that makes it. -/
def born : Canvas → List Call → String → View
  | c, [], id => c.viewAt id
  | c, k :: calls, id =>
      if id ∈ c.issued k then (c.after k).viewAt id else (c.after k).born calls id

variable {c : Canvas} {calls before rest : List Call} {k : Call} {id : String}

/-- The view of an instance as it is made is the one after the call that makes it. -/
theorem born_eq (hbefore : id ∉ c.issuedAll before) (hid : id ∈ (c.afterAll before).issued k) :
    c.born (before ++ k :: rest) id = (c.afterAll (before ++ [k])).viewAt id := by
  induction before generalizing c with
  | nil =>
      have hid' : id ∈ c.issued k := hid
      rw [List.nil_append, born, if_pos hid']
      rfl
  | cons k' before ih =>
      rw [issuedAll, List.mem_append, not_or] at hbefore
      rw [List.cons_append, born, if_neg hbefore.1]
      exact ih hbefore.2 hid

/-- The view of an instance that is found is that of its query. -/
theorem viewAt_eq {i : InstanceId} {q : Query} (hfind : c.find id = .ok (i, q)) :
    c.viewAt id = q.view := by
  rw [viewAt, hfind]

/-- A slot that a call fills is that of an id that it issues, and the id finds what is there. -/
theorem Orderly.find_new (h : c.Orderly (before ++ k :: rest)) {i : InstanceId} {q : Query}
    (hnone : (c.afterAll before).slot? i = none)
    (hq : (c.afterAll (before ++ [k])).slot? i = some (some q)) :
    i.text ∉ c.issuedAll before ∧ i.text ∈ (c.afterAll before).issued k ∧
      (c.afterAll (before ++ [k])).find i.text = .ok (i, q) := by
  have hnext : before ++ k :: rest = (before ++ [k]) ++ rest := by simp
  have htracks := (hnext ▸ h).tracks
  have hroom := (hnext ▸ h).roomy
  have hold : i.text ∉ c.issuedAll before := by
    intro hmem
    obtain ⟨j, x, hj, htext⟩ := (h.tracks.issued_iff _).mp hmem
    rw [InstanceId.text_injective htext, hnone] at hj
    cases hj
  have hall := (htracks.issued_iff i.text).mpr ⟨i, some q, hq, rfl⟩
  rw [issuedAll_append, List.mem_append, or_iff_right hold, issuedAll, issuedAll,
    List.append_nil] at hall
  exact ⟨hold, hall, find_eq_ok.mpr
    ⟨InstanceId.ofText?_text (htracks.hash_ne i _ hq) (hroom i _ hq), hq⟩⟩

/-- A listener is in sync after each part of the run.  The induction is on the last call. -/
theorem Orderly.inSync (h : c.Orderly calls) (hevents : c.events = [])
    (hcatalog : ∀ q ∈ c.queries.values, q.Indexed)
    (hhands : ∀ k ∈ calls, ∀ q, k.Hands q → q.Indexed) (hsplit : calls = before ++ rest) :
    (c.afterAll before).AllIndexed ∧
      (c.afterAll before).InSync (Listener.replay (c.born calls) (c.afterAll before).events) := by
  induction before using List.reverseRecOn generalizing rest with
  | nil =>
      refine ⟨⟨?_, hcatalog⟩, ?_⟩
      · intro i q hq
        change c.slot? i = _ at hq
        rw [slot?, h.start] at hq
        cases hq
      · change c.InSync (Listener.replay _ c.events)
        rw [hevents]
        exact .start h.start
  | append_singleton before k ih =>
      rw [List.append_assoc] at hsplit
      change calls = before ++ k :: rest at hsplit
      subst hsplit
      obtain ⟨hindexed, hsync⟩ := ih rfl
      have hk := hhands k (by simp)
      have hafter : c.afterAll (before ++ [k]) = (c.afterAll before).after k :=
        afterAll_append c before [k]
      obtain ⟨es, hes, htold⟩ := told hindexed.instances k
      refine ⟨?_, ?_⟩
      · rw [hafter]
        refine hindexed.told hk htold ?_
        intro q hq
        rcases ((c.afterAll before).effect k).queries with
          hsame | ⟨prefixes, endpoints, concepts, hfurnish⟩
        · exact hindexed.catalog q (hsame ▸ hq)
        · exact hk q (hfurnish ▸ hq)
      · rw [hafter, hes, Listener.replay, List.foldl_append]
        refine hsync.told h.tracks h.roomy h.mem_issuedAll htold ?_
        intro i q hnone hq
        obtain ⟨hold, hissued, hfind⟩ := h.find_new hnone (hafter ▸ hq)
        rw [born_eq hold hissued, viewAt_eq hfind]

/-- The listener knows the instances of the canvas and no others, and of each the columns and the
values as they are. -/
structure Mirrored (c : Canvas) (m : Listener) : Prop where
  ids : ∀ id, (m id).isSome ↔ id ∈ c.ids
  view : ∀ id w, m id = some w → ∃ i q, c.find id = .ok (i, q) ∧
    q.projectedNames = .ok w.columns ∧ ∀ name, w.value name = (q.idOf? name).bind q.boundAt

/-- **A listener stays in sync.**  It starts with the canvas and hears all events of a run; of an
instance that is made it is shown how it is then, and of no other.  At the end it knows all
instances as they are. -/
theorem listener_in_sync (h : c.Orderly calls) (hevents : c.events = [])
    (hcatalog : ∀ q ∈ c.queries.values, q.Indexed)
    (hhands : ∀ k ∈ calls, ∀ q, k.Hands q → q.Indexed) :
    (c.afterAll calls).Mirrored (Listener.replay (c.born calls) (c.afterAll calls).events) := by
  obtain ⟨hindexed, hsync⟩ := h.inSync hevents hcatalog hhands (List.append_nil calls).symm
  have hall : c.Orderly (calls ++ []) := (List.append_nil calls).symm ▸ h
  constructor
  · intro id
    rw [mem_ids]
    constructor
    · exact hsync.live id
    · rintro ⟨i, q, hq, rfl⟩
      rw [hsync.known i q hq]
      rfl
  · intro id w hw
    obtain ⟨i, q, hq, rfl⟩ := hsync.live id (by rw [hw]; rfl)
    obtain rfl := Option.some.inj ((hsync.known i q hq).symm.trans hw)
    exact ⟨i, q, find_eq_ok.mpr ⟨InstanceId.ofText?_text (hall.tracks.hash_ne i _ hq)
      (hall.roomy i _ hq), hq⟩, (hindexed.instances i q hq).projectedNames_eq, fun _ => rfl⟩

/-- An instance is edited, two others are joined, and one is made and destroyed. -/
def heardRun : List Call :=
  [.insert "urn:people" peopleQuery, .insert "urn:cities" citiesQuery,
    .insert "urn:cities" citiesQuery, .setBound "h_0" "city" (some (.resource (.iri "urn:rome"))),
    .project "h_0" "x" true, .addPattern "h_0" (.variable "x") (.resource "a") (.variable "kind"),
    .join ("h_1", "place") ("h_2", "place") .inline, .insert "urn:people" peopleQuery,
    .destroy "h_4", .reorder "h_0" ["x", "id"]]

/-- The run edits an instance, joins two others and makes one that is destroyed; the listener ends
with the two that are left. -/
theorem listener_in_sync_heard :
    ∃ m : Listener, (crowdedCanvas.afterAll heardRun).Mirrored m ∧
      (crowdedCanvas.afterAll heardRun).ids = ["h_0", "h_3"] ∧
      (m "h_0").map View.columns = some ["x", "id"] ∧
      (m "h_0").bind (·.value "city") = some (.resource (.iri "urn:rome")) ∧
      (m "h_4").isSome = false := by
  have horderly : crowdedCanvas.Orderly heardRun :=
    ⟨rfl, fun _ => (by decide : "h" ≠ ""), by decide +kernel, by decide +kernel⟩
  have hhands : ∀ k ∈ heardRun, ∀ q, k.Hands q → q.Indexed := by
    have hpeople := peopleQuery_built.wellFormed.indexed
    have hcities := citiesQuery_built.wellFormed.indexed
    intro k hk q hq
    simp only [heardRun, List.mem_cons, List.not_mem_nil, or_false] at hk
    rcases hk with rfl | rfl | rfl | rfl | rfl | rfl | rfl | rfl | rfl | rfl <;>
      first | exact hq ▸ hpeople | exact hq ▸ hcities | exact hq.elim
  refine ⟨_, listener_in_sync horderly rfl (fun q hq => by cases hq) hhands, ?_, ?_, ?_, ?_⟩ <;>
    decide +kernel

end Canvas

end SparqlCompose
