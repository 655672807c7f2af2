import Mathlib
import SparqlCompose.Proofs.Built
import SparqlCompose.Proofs.Canvas.Operation

/-!
# Calls on a canvas

`Canvas.Call` lists what can be called on a canvas, and `Canvas.after` is the canvas after a
call, whether it failed or not.  What a call can do is said once, in terms of slots
(`Canvas.effect`): it leaves every slot alone, edits one instance, fills a new slot, empties
one, or empties two and fills a new one.  All that is proved about runs of calls starts from there.
-/

namespace SparqlCompose

/-! ### A query that is edited -/

/-- The URIs of the variables, in the order of the table. -/
def Query.uris (q : Query) : List String := q.table.values.map Variable.uri

/-- The query `q'` is what edits on a canvas made of `q`.  It keeps its URI and its instance, and
its variables keep their URIs; the new ones follow, each with a URI of the query.  If the edits
were lawful, it is still a query that can be built. -/
structure Query.Continues (lawful : Prop) (q q' : Query) : Prop where
  built : lawful → q.Built → q'.Built
  uri : q'.uri = q.uri
  instanceId : q'.instanceId = q.instanceId
  grown : ∃ names : List String, q'.table.keys = q.table.keys ++ names ∧
    q'.uris = q.uris ++ names.map q.variableUri

namespace Query

variable {lawful : Prop} {q q' q'' : Query} {id : VarId}

/-- The URI at a place is that of the variable there. -/
theorem getElem?_uris (q : Query) (i : VarId) : q.uris[i]? = (q.table.at? i).map Variable.uri := by
  rw [uris, List.getElem?_map, OrderedMap.at?_eq_getElem?]

/-- A query continues itself. -/
theorem Continues.refl (q : Query) : Continues lawful q q where
  built := fun _ h => h
  uri := rfl
  instanceId := rfl
  grown := ⟨[], by simp, by simp⟩

/-- New variables get URIs of the same form. -/
theorem Continues.variableUri (h : Continues lawful q q') : q'.variableUri = q.variableUri := by
  funext name
  unfold Query.variableUri
  rw [h.uri, h.instanceId]

/-- Edits after edits are edits. -/
theorem Continues.trans (h : Continues lawful q q') (h' : Continues lawful q' q'') :
    Continues lawful q q'' where
  built := fun hl hq => h'.built hl (h.built hl hq)
  uri := h'.uri.trans h.uri
  instanceId := h'.instanceId.trans h.instanceId
  grown := by
    obtain ⟨names, hkeys, huris⟩ := h.grown
    obtain ⟨names', hkeys', huris'⟩ := h'.grown
    refine ⟨names ++ names', ?_, ?_⟩
    · rw [hkeys', hkeys, List.append_assoc]
    · rw [huris', huris, h.variableUri, List.map_append, List.append_assoc]

/-- A variable has the URI of one that was there before, or one of its own. -/
theorem Continues.uri_cases (h : Continues lawful q q') {w : Variable}
    (hw : w ∈ q'.table.values) :
    (∃ v ∈ q.table.values, w.uri = v.uri) ∨ ∃ name, w.uri = q.variableUri name := by
  obtain ⟨names, -, huris⟩ := h.grown
  have hmem : w.uri ∈ q'.uris := List.mem_map_of_mem hw
  rw [huris, List.mem_append] at hmem
  rcases hmem with hmem | hmem
  · obtain ⟨v, hv, hvw⟩ := List.mem_map.mp hmem
    exact Or.inl ⟨v, hv, hvw.symm⟩
  · obtain ⟨name, -, hname⟩ := List.mem_map.mp hmem
    exact Or.inr ⟨name, hname.symm⟩

/-- What a call answers can be built, if the call is lawful. -/
theorem Built.perform {c : Call} (h : q.Built) (hc : c.Lawful) (hok : c.perform q = .ok q') :
    q'.Built := by
  have hafter : q.after c = q' := by
    unfold after
    rw [hok]
  exact hafter ▸ h.call hc

/-- A lawful call that leaves the notes and the table alone. -/
theorem Continues.of_table {c : Call} (hc : lawful → c.Lawful) (hok : c.perform q = .ok q')
    (hkept : q' = { q with projections := q'.projections, clauses := q'.clauses }) :
    Continues lawful q q' where
  built := fun hl hq => hq.perform (hc hl) hok
  uri := by rw [hkept]
  instanceId := by rw [hkept]
  grown := ⟨[], by rw [hkept]; simp, by rw [hkept]; simp [uris]⟩

/-- Adding a variable with a URI of the query is an edit. -/
theorem Continues.addVariable {name : String}
    (hok : q.addVariable { uri := q.variableUri name, name := name } = .ok (id, q')) :
    Continues lawful q q' := by
  have hperform : (Call.addVariable { uri := q.variableUri name, name := name }).perform q =
      .ok q' := Outcome.map_eq_ok.mpr ⟨_, hok, rfl⟩
  have hlawful : (Call.addVariable { uri := q.variableUri name, name := name }).Lawful := by
    intro c habsurd
    cases habsurd
  obtain ⟨-, hnew, -, rfl⟩ := addVariable_eq_ok.mp hok
  refine ⟨fun _ hq => hq.perform hlawful hperform, rfl, rfl, [name], ?_, ?_⟩
  · exact OrderedMap.keys_insert_of_not_mem _ hnew
  · rw [uris, OrderedMap.values_insert_of_not_mem _ hnew, List.map_append]
    rfl

/-- So is adding a fresh variable. -/
theorem Continues.freshVariable {base : String} (hok : q.freshVariable base = .ok (id, q')) :
    Continues lawful q q' :=
  addVariable (freshVariable_eq_ok.mp hok).2

/-- So is setting a value. -/
theorem Continues.setBound {value old : Option Constant}
    (hvalue : lawful → ∀ c, value = some c → c.IsNormal)
    (hok : q.setBound id value = .ok (old, q')) : Continues lawful q q' := by
  obtain ⟨-, -, hq'⟩ := setBound_eq_ok.mp hok
  refine ⟨?_, by rw [hq'], by rw [hq'], [], ?_, ?_⟩
  · intro hl hq
    cases value with
    | none =>
        exact hq.perform (c := .unbind id) trivial (Outcome.map_eq_ok.mpr ⟨_, hok, rfl⟩)
    | some x =>
        exact hq.perform (c := .bind id x) (hvalue hl x rfl)
          (Outcome.map_eq_ok.mpr ⟨_, hok, rfl⟩)
  · rw [hq', OrderedMap.keys_modifyAt, List.append_nil]
  · rw [List.map_nil, List.append_nil]
    refine List.ext_getElem? fun i => ?_
    rw [getElem?_uris, getElem?_uris, hq', OrderedMap.at?_modifyAt, Option.map_map]
    congr 1
    funext v
    simp only [Function.comp_apply]
    split <;> rfl

/-- So is adding a result column. -/
theorem Continues.project {isNew : Bool} (hok : q.project id = .ok (isNew, q')) :
    Continues lawful q q' := by
  refine of_table (c := .project id) (fun _ => trivial) (Outcome.map_eq_ok.mpr ⟨_, hok, rfl⟩) ?_
  obtain ⟨-, -, rfl⟩ := project_eq_ok.mp hok
  rfl

/-- So is taking one away. -/
theorem Continues.unproject (q : Query) (id : VarId) :
    Continues lawful q (q.unproject id).2 :=
  of_table (c := .unproject id) (fun _ => trivial) rfl rfl

/-- So is putting the columns into another order. -/
theorem Continues.reorder {order : List String} (hok : q.reorder order = .ok q') :
    Continues lawful q q' := by
  refine of_table (c := .reorder order) (fun _ => trivial) hok ?_
  obtain ⟨names, ids, -, -, -, rfl⟩ := reorder_eq_ok.mp hok
  rfl

/-- So is adding a pattern. -/
theorem Continues.pushPattern {s p o : Term} {pattern : Pattern} (ho : lawful → o.IsNormal)
    (hmake : Pattern.make s p o = .ok pattern) (hok : q.pushClause (.pattern pattern) = .ok q') :
    Continues lawful q q' := by
  refine of_table (c := .pushClause (.pattern pattern)) (fun hl => .pattern (ho hl) hmake) hok ?_
  obtain ⟨-, rfl⟩ := pushClause_eq_ok.mp hok
  rfl

end Query

/-! ### Slots that become terms -/

namespace PendingSlot

/-- A slot that is no variable yet stands for its term.  A new variable is added, unless it has
been added since. -/
theorem realize_eq_ok {s : PendingSlot} {q q' : Query} {t : Term} :
    s.realize q = .ok (t, q') ↔ (s = .term t ∧ q' = q) ∨
      ∃ name id, s = .new name ∧ t = .var id ∧
        ((q.idOf? name = some id ∧ q' = q) ∨ (q.idOf? name = none ∧
          q.addVariable { uri := q.variableUri name, name := name } = .ok (id, q'))) := by
  cases s with
  | term u => simp [realize, eq_comm]
  | new name =>
      cases hname : q.idOf? name with
      | some id => simp [realize, hname, eq_comm]
      | none =>
          simp only [realize, hname, Outcome.bind_eq_ok, Outcome.pure_eq_ok, Prod.mk.injEq,
            reduceCtorEq, false_and, false_or, Prod.exists, PendingSlot.new.injEq]
          constructor
          · rintro ⟨id, r, hadd, rfl, rfl⟩
            exact ⟨name, id, rfl, rfl, by rw [hname]; exact Or.inr ⟨rfl, hadd⟩⟩
          · rintro ⟨name', id, rfl, rfl, hcases⟩
            rw [hname] at hcases
            simp only [reduceCtorEq, false_and, true_and, false_or] at hcases
            exact ⟨id, q', hcases, rfl, rfl⟩

/-- So is adding the variable of a slot, if it is new. -/
theorem continues_of_realize {lawful : Prop} {s : PendingSlot} {q q' : Query} {t : Term}
    (hok : s.realize q = .ok (t, q')) : Query.Continues lawful q q' := by
  rcases realize_eq_ok.mp hok with ⟨-, rfl⟩ | ⟨name, id, -, -, ⟨-, rfl⟩ | ⟨-, hadd⟩⟩
  · exact .refl _
  · exact .refl _
  · exact .addVariable hadd

end PendingSlot

/-! ### Operations that edit an instance -/

namespace CanvasM

variable {lawful : Prop} {R : Query → Query → Prop} {text : String}

/-- Telling the columns writes nothing. -/
theorem edits_emitColumns : (emitColumns text).Edits R text := by
  intro c
  unfold emitColumns
  rw [result_bind, result_find]
  cases c.find text with
  | error e => exact .refl _ text c
  | ok found =>
      simp only [result_bind, result_ofQuery]
      cases found.2.projectedNames with
      | error e => exact .refl _ text c
      | ok names => exact edits_emit _ c

/-- Adding a variable writes its instance only. -/
theorem edits_addVariable (base : String)
    (htrans : ∀ {q q' q''}, R q q' → R q' q'' → R q q'')
    (hfreshVariable : ∀ {q q' id}, q.freshVariable base = .ok (id, q') → R q q') :
    (addVariable text base).Edits R text := by
  refine Edits.bind htrans (edits_edit ?_) fun _ v _ _ =>
    Edits.bind htrans (edits_emit _) fun _ _ _ _ => edits_of_readOnly fun _ => rfl
  intro q v q' hok
  obtain ⟨⟨id, r⟩, hfresh, hrest⟩ := Outcome.bind_eq_ok.mp hok
  obtain ⟨w, -, hpure⟩ := Outcome.bind_eq_ok.mp hrest
  obtain ⟨-, rfl⟩ := Prod.mk.inj (Outcome.pure_eq_ok.mp hpure)
  exact hfreshVariable hfresh

/-- Changing whether a column is shown writes its instance only. -/
theorem edits_project (name : String) (on : Bool)
    (htrans : ∀ {q q' q''}, R q q' → R q' q'' → R q q'')
    (hproject : ∀ {q q' id isNew}, q.project id = .ok (isNew, q') → R q q')
    (hunproject : ∀ q id, R q (q.unproject id).2) : (project text name on).Edits R text := by
  refine Edits.bind htrans (edits_edit ?_) fun _ changed _ _ => ?_
  · intro q changed q' hok
    obtain ⟨id, -, hrest⟩ := Outcome.bind_eq_ok.mp hok
    cases on with
    | true => exact hproject hrest
    | false =>
        obtain rfl : (q.unproject id).2 = q' := congrArg Prod.snd (Outcome.pure_eq_ok.mp hrest)
        exact hunproject q id
  · cases changed with
    | true => exact edits_emitColumns
    | false => exact edits_of_readOnly fun _ => rfl

/-- Putting the columns into an order writes its instance only. -/
theorem edits_reorder (order : List String)
    (htrans : ∀ {q q' q''}, R q q' → R q' q'' → R q q'')
    (hreorder : ∀ {q q'}, q.reorder order = .ok q' → R q q') :
    (reorder text order).Edits R text := by
  refine Edits.bind htrans (edits_edit ?_) fun _ _ _ _ => edits_emitColumns
  intro q a q' hok
  obtain ⟨r, hr, hpure⟩ := Outcome.bind_eq_ok.mp hok
  obtain ⟨-, rfl⟩ := Prod.mk.inj (Outcome.pure_eq_ok.mp hpure)
  exact hreorder hr

/-- Setting a value writes its instance only, and continues it. -/
theorem edits_setBound (name : String) {value : Option Constant}
    (hvalue : lawful → ∀ c, value = some c → c.IsNormal) :
    (setBound text name value).Edits (Query.Continues lawful) text := by
  refine Edits.bind .trans (edits_edit ?_) fun _ a _ _ =>
    Edits.bind .trans (edits_emit _) fun _ _ _ _ => edits_of_readOnly fun _ => rfl
  intro q a q' hok
  obtain ⟨id, -, hrest⟩ := Outcome.bind_eq_ok.mp hok
  obtain ⟨⟨old, r⟩, hset, hrest⟩ := Outcome.bind_eq_ok.mp hrest
  obtain ⟨v, -, hpure⟩ := Outcome.bind_eq_ok.mp hrest
  obtain ⟨-, rfl⟩ := Prod.mk.inj (Outcome.pure_eq_ok.mp hpure)
  exact .setBound hvalue hset

/-- An edit that succeeds has found its instance and changed it. -/
theorem edit_eq_ok {α : Type} {f : Query → Except QueryError (α × Query)} {c c' : Canvas} {a : α}
    (hok : (edit text f).result c = (.ok a, c')) :
    ∃ i q q', c.find text = .ok (i, q) ∧ f q = .ok (a, q') ∧ c' = c.setSlot i (some q') := by
  rw [result_edit] at hok
  cases hfind : c.find text with
  | error e => simp [hfind] at hok
  | ok found =>
      obtain ⟨i, q⟩ := found
      cases hf : f q with
      | error e => simp [hfind, hf] at hok
      | ok changed =>
          obtain ⟨b, q'⟩ := changed
          simp only [hfind, hf, Prod.mk.injEq, Except.ok.injEq] at hok
          obtain ⟨rfl, rfl⟩ := hok
          exact ⟨i, q, q', rfl, hf, rfl⟩

/-- Adding the variable of a slot writes its instance only, and continues it. -/
theorem edits_realize (s : PendingSlot) :
    (edit text s.realize).Edits (Query.Continues lawful) text :=
  edits_edit fun _ _ _ => PendingSlot.continues_of_realize

/-- A pattern is placed by lawful edits, if the literal in its object is a normal one. -/
theorem edits_placePattern {s p o : PendingSlot}
    (ho : lawful → ∀ t, o = .term t → t.IsNormal) :
    (placePattern text s p o).Edits (Query.Continues lawful) text := by
  refine Edits.bind .trans (edits_realize s) fun _ s' _ _ => ?_
  refine Edits.bind .trans (edits_realize p) fun _ p' _ _ => ?_
  refine Edits.bind .trans (edits_realize o) fun _ o' _ hobject => ?_
  refine Edits.bind .trans (edits_edit ?_) fun _ _ _ _ => edits_emit _
  intro q a q' hok
  obtain ⟨pattern, hmake, hrest⟩ := Outcome.bind_eq_ok.mp hok
  obtain ⟨r, hpush, hpure⟩ := Outcome.bind_eq_ok.mp hrest
  obtain ⟨-, rfl⟩ := Prod.mk.inj (Outcome.pure_eq_ok.mp hpure)
  refine .pushPattern (fun hl => ?_) hmake hpush
  obtain ⟨_, _, _, -, hrealize, -⟩ := edit_eq_ok hobject
  rcases PendingSlot.realize_eq_ok.mp hrealize with ⟨hterm, -⟩ | ⟨name, id, -, rfl, -⟩
  · exact ho hl o' hterm
  · trivial

/-- A literal comes into a pattern as it was typed. -/
theorem isNormal_of_ofInput {q : Query} {prefixes : PrefixTable} {i : SlotInput} {t : Term}
    (hi : ∀ l, i = .literal l → l.IsNormal)
    (hok : PendingSlot.ofInput q prefixes i = .ok (.term t)) : t.IsNormal := by
  cases i with
  | literal l =>
      obtain rfl := PendingSlot.term.inj (Except.ok.inj hok)
      exact hi l rfl
  | resource text =>
      obtain ⟨r, -, hr⟩ := Outcome.map_eq_ok.mp hok
      obtain rfl := PendingSlot.term.inj hr
      trivial
  | «variable» name =>
      simp only [PendingSlot.ofInput] at hok
      split at hok
      · obtain rfl := PendingSlot.term.inj (Except.ok.inj hok)
        trivial
      · split at hok <;> cases hok

/-- Adding a pattern writes its instance only, and continues it. -/
theorem edits_addPattern (s p : SlotInput) {o : SlotInput}
    (ho : lawful → ∀ l, o = .literal l → l.IsNormal) :
    (addPattern text s p o).Edits (Query.Continues lawful) text := by
  intro c
  rcases checked_or_error text s p o c with ⟨e, hresult⟩ | ⟨q, s', p', o', hchecked⟩
  · rw [hresult]
    exact .refl _ text c
  · rw [hchecked.result_addPattern]
    refine edits_placePattern ?_ c
    rintro hl t rfl
    exact isNormal_of_ofInput (ho hl) hchecked.objectSlot

end CanvasM

/-! ### Calls -/

namespace Canvas

/-- What can be called on a canvas. -/
inductive Call where
  | insert (source : String) (q : Query)
  | instantiate (source : String) (endpoint : Option String)
  | destroy (id : String)
  | join (left right : String × String) (mode : JoinMode)
  | addVariable (id base : String)
  | project (id variableName : String) (on : Bool)
  | addPattern (id : String) (s p o : SlotInput)
  | reorder (id : String) (order : List String)
  | setBound (id variableName : String) (value : Option Constant)
  /-- The prefixes and the catalogs are exchanged. -/
  | furnish (prefixes : PrefixTable) (queries : QueryCatalog) (endpoints : EndpointCatalog)
      (concepts : ConceptList)

namespace Call

/-- The step that a call makes.  It answers the id of the instance that it made, if it made
one. -/
def perform : Call → CanvasM (Option String)
  | insert source q => some <$> CanvasM.insert source q
  | instantiate source endpoint => some <$> CanvasM.instantiate source endpoint
  | destroy id => (fun _ => none) <$> CanvasM.destroy id
  | join left right mode => some <$> CanvasM.join left right mode
  | addVariable id base => (fun _ => none) <$> CanvasM.addVariable id base
  | project id variableName on => (fun _ => none) <$> CanvasM.project id variableName on
  | addPattern id s p o => (fun _ => none) <$> CanvasM.addPattern id s p o
  | reorder id order => (fun _ => none) <$> CanvasM.reorder id order
  | setBound id variableName value => (fun _ => none) <$> CanvasM.setBound id variableName value
  | furnish prefixes queries endpoints concepts => do
      modify fun c => { c with prefixes, queries, endpoints, concepts }
      return none

/-- The ids that a call is addressed to. -/
def targets : Call → List String
  | destroy id | addVariable id _ | project id _ _ | addPattern id _ _ _ | reorder id _
  | setBound id _ _ => [id]
  | join left right _ => [left.1, right.1]
  | insert _ _ | instantiate _ _ | furnish _ _ _ _ => []

/-- What the call hands over can be built: queries by the operations of the library, literals by
their constructors. -/
def Lawful : Call → Prop
  | insert _ q => q.Built
  | addPattern _ _ _ o => ∀ l, o = .literal l → l.IsNormal
  | setBound _ _ value => ∀ c, value = some c → c.IsNormal
  | furnish _ queries _ _ => ∀ q ∈ queries.values, q.Built
  | _ => True

/-- The ids of the instances that the call takes away, if it succeeds. -/
def consumes : Call → List String
  | destroy id => [id]
  | join left right _ => [left.1, right.1]
  | _ => []

/-- The call hands over the query. -/
def Hands (q : Query) : Call → Prop
  | insert _ q' => q' = q
  | furnish _ queries _ _ => q ∈ queries.values
  | _ => False

/-- The call puts the query under the source. -/
def Supplies (c : Canvas) (source : String) (q : Query) : Call → Prop
  | insert source' q' => source' = source ∧ q' = q
  | instantiate source' endpoint => source' = source ∧ ∃ q', q = endpoint.elim q' q'.activate ∧
      ((∃ k : Concept, k.template = .ok q') ∨ c.queries.get? source = some q')
  | _ => False

end Call

/-- The canvas after a call, which may have failed. -/
def after (c : Canvas) (k : Call) : Canvas := (k.perform.result c).2

/-- The canvas after a run of calls. -/
def afterAll (c : Canvas) (calls : List Call) : Canvas := calls.foldl after c

/-- The id of the instance that a call makes, if it makes one. -/
def issued (c : Canvas) (k : Call) : List String :=
  match (k.perform.result c).1 with
  | .ok (some id) => [id]
  | _ => []

/-- The ids of the instances that a call takes away. -/
def retired (c : Canvas) (k : Call) : List String :=
  match (k.perform.result c).1 with
  | .ok _ => k.consumes
  | .error _ => []

/-- What a call can do to the slots of a canvas, with the ids of the instances that it makes and
takes away. -/
inductive Change (c : Canvas) (k : Call) (c' : Canvas) : List String → List String → Prop
  | idle (hslots : ∀ j, c'.slot? j = c.slot? j) : Change c k c' [] []
  | edited {text : String} {i : InstanceId} {q q' : Query} (hk : k.targets = [text])
      (hid : InstanceId.ofText? text = some i) (hq : c.slot? i = some (some q))
      (hcontinues : q.Continues k.Lawful q')
      (hslots : ∀ j, c'.slot? j = if j = i then some (some q') else c.slot? j) : Change c k c' [] []
  | stored {source : String} {q : Query} (hk : k.Supplies c source q)
      (hslots : ∀ j, c'.slot? j = (c.store source q).slot? j) :
      Change c k c' [(c.nextId source).text] []
  | destroyed {text : String} {i : InstanceId} {q : Query} (hk : k = .destroy text)
      (hfind : c.find text = .ok (i, q))
      (hslots : ∀ j, c'.slot? j = (c.setSlot i none).slot? j) : Change c k c' [] [text]
  | joined {left right : String × String} {mode used : JoinMode} {i j : InstanceId} {l r q : Query}
      {cleared : Canvas} (hk : k = .join left right mode) (hne : left.1 ≠ right.1)
      (hleft : c.find left.1 = .ok (i, l)) (hright : c.find right.1 = .ok (j, r))
      (hjoin : Query.join ⟨l, left.2⟩ ⟨r, right.2⟩ mode = .ok (q, used))
      (hcleared : cleared = (c.setSlot i none).setSlot j none)
      (hslots : ∀ j, c'.slot? j = (cleared.store q.uri q).slot? j) :
      Change c k c' [(cleared.nextId q.uri).text] [left.1, right.1]

/-- What a call can do to a canvas. -/
structure Effect (c : Canvas) (k : Call) : Prop where
  sourceHash : (c.after k).sourceHash = c.sourceHash
  queries : (c.after k).queries = c.queries ∨ ∃ prefixes endpoints concepts,
    k = .furnish prefixes (c.after k).queries endpoints concepts
  change : c.Change k (c.after k) (c.issued k) (c.retired k)

/-- Writing a slot leaves the hash alone. -/
theorem sourceHash_setSlot (c : Canvas) (i : InstanceId) (x : Option Query) :
    (c.setSlot i x).sourceHash = c.sourceHash := by
  unfold setSlot
  split <;> rfl

/-- Writing a slot leaves the catalog alone. -/
theorem queries_setSlot (c : Canvas) (i : InstanceId) (x : Option Query) :
    (c.setSlot i x).queries = c.queries := by
  unfold setSlot
  split <;> rfl

variable {c : Canvas} {k : Call}

/-- A call that fails before it has written. -/
theorem effect_of_error {e : CanvasError} (h : k.perform.result c = (.error e, c)) :
    c.Effect k := by
  have hafter : c.after k = c := congrArg Prod.snd h
  refine ⟨by rw [hafter], Or.inl (by rw [hafter]), ?_⟩
  have hissued : c.issued k = [] := by simp [issued, h]
  have hretired : c.retired k = [] := by simp [retired, h]
  rw [hissued, hretired, hafter]
  exact .idle fun _ => rfl

/-- A call that edits one instance, and answers no id. -/
theorem effect_of_edits {α : Type} {m : CanvasM α} {text : String}
    (hperform : k.perform = (fun _ => none) <$> m) (hk : k.targets = [text])
    (hconsumes : k.consumes = []) (hm : m.Edits (Query.Continues k.Lawful) text) :
    c.Effect k := by
  have hresult : k.perform.result c =
      ((m.result c).1.map fun _ => none, (m.result c).2) := by
    rw [hperform, CanvasM.result_map]
  have hedited := hm c
  have hafter : c.after k = (m.result c).2 := congrArg Prod.snd hresult
  have hissued : c.issued k = [] := by
    simp only [issued, hresult]
    cases (m.result c).1 <;> rfl
  have hretired : c.retired k = [] := by
    simp only [retired, hresult, hconsumes]
    cases (m.result c).1 <;> rfl
  refine ⟨?_, Or.inl ?_, ?_⟩
  · rw [hafter, hedited.frame]
  · rw [hafter, hedited.frame]
  · rw [hissued, hretired, hafter]
    rcases hedited.slots with hsame | ⟨i, q, q', hid, hq, hcontinues, hslots⟩
    · exact .idle hsame
    · exact .edited hk hid hq hcontinues hslots

/-- A call that puts a query into a new slot. -/
theorem effect_of_insert {source : String} {q : Query} (hk : k.Supplies c source q)
    (hperform : k.perform.result c = (some <$> CanvasM.insert source q).result c) :
    c.Effect k := by
  rw [CanvasM.result_map, CanvasM.result_insert] at hperform
  have hafter : c.after k = _ := congrArg Prod.snd hperform
  have hissued : c.issued k = [(c.nextId source).text] := by simp [issued, hperform, Except.map]
  have hretired : c.retired k = [] := by
    have hconsumes : k.consumes = [] := by
      cases k with
      | insert source' q' => rfl
      | instantiate source' endpoint => rfl
      | _ => exact hk.elim
    simp [retired, hperform, Except.map, hconsumes]
  refine ⟨by rw [hafter]; rfl, Or.inl (by rw [hafter]; rfl), ?_⟩
  rw [hissued, hretired, hafter]
  exact .stored hk fun _ => rfl

/-- A call for an instance of a source fails before it has written, or puts what the source gives
into a new slot. -/
theorem result_perform_instantiate (source : String) (endpoint : Option String) (c : Canvas) :
    (∃ e, (Call.instantiate source endpoint).perform.result c = (.error e, c)) ∨
      ∃ q, (Call.instantiate source endpoint).Supplies c source q ∧
        (Call.instantiate source endpoint).perform.result c =
          (some <$> CanvasM.insert source q).result c := by
  have hresult : (Call.instantiate source endpoint).perform.result c = _ :=
    CanvasM.result_map some (CanvasM.instantiate source endpoint) c
  rcases CanvasM.result_instantiate source endpoint c with ⟨e, hfail⟩ | ⟨q, hsource, hok⟩
  · rw [hfail] at hresult
    exact Or.inl ⟨e, hresult⟩
  · obtain ⟨r, hr, horigin⟩ := CanvasM.result_source source c
    obtain rfl := congrArg Prod.fst (hr.symm.trans hsource)
    refine Or.inr ⟨endpoint.elim q q.activate, ⟨rfl, q, rfl, horigin q rfl⟩, ?_⟩
    rw [hresult, hok, CanvasM.result_map]

/-- Destroying an instance empties its slot. -/
theorem effect_destroy (c : Canvas) (text : String) : c.Effect (.destroy text) := by
  have hresult : (Call.destroy text).perform.result c = _ :=
    CanvasM.result_map (fun _ => none) (CanvasM.destroy text) c
  rw [CanvasM.result_destroy] at hresult
  cases hfind : c.find text with
  | error e =>
      rw [hfind] at hresult
      exact effect_of_error hresult
  | ok found =>
      obtain ⟨i, q⟩ := found
      rw [hfind] at hresult
      have hafter : c.after (.destroy text) = _ := congrArg Prod.snd hresult
      have hissued : c.issued (.destroy text) = [] := by simp [issued, hresult, Except.map]
      have hretired : c.retired (.destroy text) = [text] := by
        simp [retired, hresult, Except.map, Call.consumes]
      refine ⟨?_, Or.inl ?_, ?_⟩
      · rw [hafter]
        exact sourceHash_setSlot c i none
      · rw [hafter]
        exact queries_setSlot c i none
      · rw [hissued, hretired, hafter]
        exact .destroyed rfl hfind fun _ => rfl

/-- A join empties two slots and fills a new one. -/
theorem effect_join (c : Canvas) (left right : String × String) (mode : JoinMode) :
    c.Effect (.join left right mode) := by
  have hresult : (Call.join left right mode).perform.result c = _ :=
    CanvasM.result_map some (CanvasM.join left right mode) c
  rcases CanvasM.result_join left right mode c with
    ⟨e, hfail⟩ | ⟨i, l, j, r, q, used, cleared, hne, hleft, hright, hjoin, hcleared, hok⟩
  · rw [hfail] at hresult
    exact effect_of_error hresult
  · rw [hok] at hresult
    have hafter : c.after (.join left right mode) = _ := congrArg Prod.snd hresult
    have hissued : c.issued (.join left right mode) = [(cleared.nextId q.uri).text] := by
      simp [issued, hresult, Except.map]
    have hretired : c.retired (.join left right mode) = [left.1, right.1] := by
      simp [retired, hresult, Except.map, Call.consumes]
    refine ⟨?_, Or.inl ?_, ?_⟩
    · rw [hafter]
      change cleared.sourceHash = c.sourceHash
      rw [hcleared, sourceHash_setSlot, sourceHash_setSlot]
    · rw [hafter]
      change cleared.queries = c.queries
      rw [hcleared, queries_setSlot, queries_setSlot]
    · rw [hissued, hretired, hafter]
      exact .joined rfl hne hleft hright hjoin hcleared fun _ => rfl

/-- **What a call can do.**  The case split is on the call. -/
theorem effect (c : Canvas) (k : Call) : c.Effect k := by
  cases k with
  | insert source q => exact effect_of_insert ⟨rfl, rfl⟩ rfl
  | instantiate source endpoint =>
      rcases result_perform_instantiate source endpoint c with ⟨e, hfail⟩ | ⟨q, hk, hok⟩
      · exact effect_of_error hfail
      · exact effect_of_insert hk hok
  | destroy text => exact effect_destroy c text
  | join left right mode => exact effect_join c left right mode
  | addVariable text base =>
      exact effect_of_edits rfl rfl rfl (CanvasM.edits_addVariable base .trans .freshVariable)
  | project text name on =>
      exact effect_of_edits rfl rfl rfl
        (CanvasM.edits_project name on .trans .project .unproject)
  | addPattern text s p o =>
      exact effect_of_edits rfl rfl rfl (CanvasM.edits_addPattern s p fun hl => hl)
  | reorder text order =>
      exact effect_of_edits rfl rfl rfl (CanvasM.edits_reorder order .trans .reorder)
  | setBound text name value =>
      exact effect_of_edits rfl rfl rfl (CanvasM.edits_setBound name fun hl => hl)
  | furnish prefixes queries endpoints concepts =>
      exact ⟨rfl, Or.inr ⟨prefixes, endpoints, concepts, rfl⟩, .idle fun _ => rfl⟩

end Canvas

end SparqlCompose
