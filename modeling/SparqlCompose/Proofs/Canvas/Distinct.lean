import Mathlib
import SparqlCompose.Proofs.Canvas.Scope
import SparqlCompose.Proofs.Canvas.SelfJoin
import SparqlCompose.Proofs.Join.Table

/-!
# When variables stay distinct

Putting a query into a slot cuts the URI of each variable at the instance mark and writes the new
id behind it.  What is left of a URI before the mark is its *stem*, so the variables of an instance
have distinct URIs exactly when their stems were distinct (`Query.nodup_uris_scopeTo`).  The stems
of a composite are those of the left operand and those of the right one without the joined variable
(`Query.stems_join`).  Instances of one source have the same stems: a join keeps variables apart
only when its operands have no stem in common, and the canvases of a run keep the variables of each
instance apart exactly when each join of the run does (`Canvas.distinct_run_iff`).
-/

namespace SparqlCompose

/-- The part of the URI of a variable before the instance mark. -/
def Variable.stemOf (uri : String) : List Char := beforeMark instanceMark uri.toList

namespace Query

variable {l r q q' : Query} {id leftId rightId shared leftSize : Nat} {vs : List Variable}
  {ids claimed : List VarId}

/-- The stems of the variables, in the order of the table. -/
def stems (q : Query) : List (List Char) := q.uris.map Variable.stemOf

/-- A scoped query has the stems of its variables, each with the mark and the new id behind it. -/
theorem uris_scopeTo (q : Query) (instanceId : String) :
    (q.scopeTo instanceId).uris =
      q.stems.map fun stem => String.ofList (stem ++ Variable.instanceMark) ++ instanceId := by
  refine List.ext_getElem? fun i => ?_
  rw [getElem?_uris, scopeTo, OrderedMap.at?_map, List.getElem?_map, stems, List.getElem?_map,
    getElem?_uris]
  cases q.table.at? i <;> rfl

/-- **The variables of an instance are as distinct as the stems from which they come.** -/
theorem nodup_uris_scopeTo {instanceId : String} :
    (q.scopeTo instanceId).uris.Nodup ↔ q.stems.Nodup := by
  rw [uris_scopeTo, List.nodup_map_iff]
  intro s s' h
  have hchars : s ++ (Variable.instanceMark ++ instanceId.toList) =
      s' ++ (Variable.instanceMark ++ instanceId.toList) := by
    simpa using congrArg String.toList h
  exact List.append_cancel_right hchars

/-- Adding a variable adds its URI at the end. -/
theorem uris_addVariable {v : Variable} (hok : q.addVariable v = .ok (id, q')) :
    q'.uris = q.uris ++ [v.uri] := by
  obtain ⟨-, hnew, -, rfl⟩ := addVariable_eq_ok.mp hok
  rw [uris, OrderedMap.values_insert_of_not_mem _ hnew, List.map_append]
  rfl

/-! ### The stems of a composite -/

/-- The first half of a join copies the URIs of the left query. -/
theorem uris_addLeft (hok : addLeft l r leftId rightId id vs q = .ok (ids, q')) :
    q'.uris = q.uris ++ vs.map Variable.uri := by
  induction vs generalizing id q ids with
  | nil =>
      obtain ⟨-, rfl⟩ := Prod.mk.inj (Except.ok.inj hok)
      simp
  | cons v vs ih =>
      obtain ⟨copy, i, q₁, rest, huri, hadd, hloop⟩ := addLeft_cons hok
      rw [ih hloop, uris_addVariable hadd, huri, List.append_assoc]
      rfl

/-- A variable is identified with one of the left query only if that has its URI. -/
theorem mem_uris_of_unified? {v : Variable} (h : (q.unified? leftSize claimed v).isSome) :
    v.uri ∈ q.uris.take leftSize := by
  obtain ⟨i, hi⟩ := Option.isSome_iff_exists.mp h
  obtain ⟨hfind, -⟩ := Option.filter_eq_some_iff.mp hi
  obtain ⟨hlt, huri, -⟩ := List.findIdx?_eq_some_iff_getElem.mp hfind
  rw [uris, ← List.map_take]
  exact List.mem_map.mpr ⟨_, List.getElem_mem hlt, by simpa using huri⟩

/-- With no URI in common all variables of the right query are added but the joined one.  The
induction is on the variables that are left; the joined one may be among them or not. -/
theorem uris_addRight (hsize : leftSize ≤ q.uris.length)
    (hnone : ∀ v ∈ vs, v.uri ∉ q.uris.take leftSize)
    (hok : addRight leftSize shared rightId id claimed vs q = .ok (ids, q')) :
    q'.uris = q.uris ++
      if id ≤ rightId then (vs.map Variable.uri).eraseIdx (rightId - id)
      else vs.map Variable.uri := by
  induction vs generalizing id claimed q ids with
  | nil =>
      obtain ⟨-, rfl⟩ := Prod.mk.inj (Except.ok.inj hok)
      simp
  | cons v vs ih =>
      have hrest : ∀ w ∈ vs, w.uri ∉ q.uris.take leftSize :=
        fun w hw => hnone w (List.mem_cons_of_mem _ hw)
      rcases addRight_cons hok with
        ⟨hid | hfound, claimed', rest, hloop⟩ | ⟨hid, w, i, q₁, rest, huri, hadd, hloop⟩
      · rw [ih hsize hrest hloop, if_neg (by omega), if_pos hid.le, hid, Nat.sub_self]
        rfl
      · exact absurd (mem_uris_of_unified? hfound) (hnone v List.mem_cons_self)
      · have huris := uris_addVariable hadd
        have hsize' : leftSize ≤ q₁.uris.length := by
          rw [huris, List.length_append]
          omega
        have hrest' : ∀ u ∈ vs, u.uri ∉ q₁.uris.take leftSize := by
          rw [huris, List.take_append_of_le_length hsize]
          exact hrest
        rw [ih hsize' hrest' hloop, huris, huri, List.append_assoc]
        congr 1
        by_cases hle : id ≤ rightId
        · have hlt : id < rightId := Nat.lt_of_le_of_ne hle hid
          have hplace : rightId - id = rightId - (id + 1) + 1 := by omega
          rw [if_pos (Nat.succ_le_of_lt hlt), if_pos hle, hplace]
          rfl
        · rw [if_neg hle, if_neg (by omega)]
          rfl

/-- **The variables of a composite** of queries that have none in common: those of the left query
and those of the right one but the joined variable. -/
theorem uris_join {n m : String} {requested mode : JoinMode} (hdisjoint : l.Disjoint r)
    (hright : r.resolve m = .ok rightId)
    (hok : join ⟨l, n⟩ ⟨r, m⟩ requested = .ok (q, mode)) :
    q.uris = l.uris ++ r.uris.eraseIdx rightId := by
  obtain ⟨q₂, @⟨leftId, rightId', shared, ids, ids', q₁, -, hright', haddLeft, haddRight⟩,
    hcolumns⟩ := join_table hok
  obtain rfl := Except.ok.inj (hright.symm.trans hright')
  have hleft := uris_addLeft haddLeft
  have hlength : q₁.uris.length = q₁.table.size := by simp [uris]
  have hnone : ∀ v ∈ r.table.values, v.uri ∉ q₁.uris.take q₁.table.size := by
    intro w hw hmem
    rw [← hlength, List.take_length, hleft] at hmem
    obtain ⟨v, hv, hvw⟩ := List.mem_map.mp hmem
    exact hdisjoint v hv w hw hvw
  have htable : q.uris = q₂.uris := by rw [uris, hcolumns.table, uris]
  rw [htable, uris_addRight hlength.ge hnone haddRight, hleft, if_pos (Nat.zero_le _), Nat.sub_zero]
  rfl

/-- **The stems of a composite** are those of the left query and those of the right one without that
of the joined variable, when the operands have no variable in common. -/
theorem stems_join {n m : String} {requested mode : JoinMode} (hdisjoint : l.Disjoint r)
    (hright : r.resolve m = .ok rightId)
    (hok : join ⟨l, n⟩ ⟨r, m⟩ requested = .ok (q, mode)) :
    q.stems = l.stems ++ r.stems.eraseIdx rightId := by
  rw [stems, uris_join hdisjoint hright hok, List.map_append, ← List.eraseIdx_map]
  rfl

end Query

/-- A text without the mark is all before it. -/
theorem beforeMark_of_not_hasMark {mark cs : List Char} (h : hasMark mark cs = false) :
    beforeMark mark cs = cs := by
  induction cs with
  | nil => rfl
  | cons c cs ih =>
      rw [hasMark, Bool.or_eq_false_iff, Option.isSome_eq_false_iff, Option.isNone_iff_eq_none] at h
      rw [beforeMark, h.1, ih h.2]

/-- Distinct URIs without the mark are their own stems. -/
theorem Query.nodup_stems {q : Query} (huris : q.uris.Nodup)
    (hmark : ∀ uri ∈ q.uris, hasMark Variable.instanceMark uri.toList = false) :
    q.stems.Nodup := by
  refine (List.nodup_map_iff_inj_on huris).mpr ?_
  intro uri huri uri' huri' h
  rw [Variable.stemOf, Variable.stemOf, beforeMark_of_not_hasMark (hmark uri huri),
    beforeMark_of_not_hasMark (hmark uri' huri')] at h
  exact String.toList_inj.mp h

/-- The template of a concept has one variable. -/
theorem Concept.uris_template {k : Concept} {q : Query} (hok : k.template = .ok q) :
    q.uris = [k.uri ++ ";var=id"] := by
  obtain ⟨⟨id, q₁⟩, hadd, hok⟩ := Outcome.bind_eq_ok.mp hok
  obtain ⟨⟨isNew, q₂⟩, hproject, hok⟩ := Outcome.bind_eq_ok.mp hok
  obtain ⟨pattern, -, hok⟩ := Outcome.bind_eq_ok.mp hok
  obtain ⟨q₃, hpush, hok⟩ := Outcome.bind_eq_ok.mp hok
  have huris := Query.uris_addVariable hadd
  obtain ⟨-, -, rfl⟩ := Query.project_eq_ok.mp hproject
  obtain ⟨-, rfl⟩ := Query.pushClause_eq_ok.mp hpush
  obtain rfl := Except.ok.inj hok
  cases k.endpoint <;> exact huris

namespace Canvas

/-! ### One call -/

/-- No two variables of an instance have the same URI. -/
def Distinct (c : Canvas) : Prop := ∀ i q, c.instance? i = some q → q.uris.Nodup

/-- The call makes no two variables of an instance one. -/
structure Call.KeepsApart (c : Canvas) (k : Call) : Prop where
  /-- The variables that the call adds to an instance have URIs that are new there. -/
  added : ∀ i q q', c.instance? i = some q → (c.after k).instance? i = some q' →
    ∀ uri ∈ q'.uris.drop q.uris.length, uri ∉ q.uris
  /-- The operands of a join that succeeds have no stem in common and none twice, where the joined
  variable of the right one does not count. -/
  joined : ∀ left right mode i j l r rightId, k = .join left right mode →
    c.find left.1 = .ok (i, l) → c.find right.1 = .ok (j, r) → r.resolve right.2 = .ok rightId →
      c.issued k ≠ [] → (l.stems ++ r.stems.eraseIdx rightId).Nodup

section Step

variable {c : Canvas} {k : Call}

/-- A canvas is distinct when the queries in its slots are. -/
theorem distinct_iff : c.Distinct ↔ ∀ i q, c.slot? i = some (some q) → q.uris.Nodup := by
  simp only [Distinct, instance?_eq_some_iff]

/-- What a call supplies has distinct stems, if what it hands over and the catalog have. -/
theorem nodup_stems_of_supplies {source : String} {q : Query} (hk : k.Supplies c source q)
    (hhands : ∀ q, k.Hands q → q.stems.Nodup) (hcatalog : ∀ q ∈ c.queries.values, q.stems.Nodup) :
    q.stems.Nodup := by
  cases k with
  | insert source' q' => exact hhands q hk.2
  | instantiate source' endpoint =>
      obtain ⟨-, r, rfl, horigin⟩ := hk
      have hr : r.stems.Nodup := by
        rcases horigin with ⟨concept, htemplate⟩ | hget
        · simp [Query.stems, Concept.uris_template htemplate]
        · exact hcatalog r (List.mem_map_of_mem (OrderedMap.get?_eq_some_iff.mp hget))
      cases endpoint <;> exact hr
  | _ => exact hk.elim

/-- New variables of different names get different URIs. -/
theorem variableUri_injective (q : Query) : Function.Injective q.variableUri := by
  intro name name' h
  apply String.toList_inj.mp
  cases hid : q.instanceId with
  | none =>
      have hchars : (q.uri ++ ";var=").toList ++ name.toList =
          (q.uri ++ ";var=").toList ++ name'.toList := by
        simpa [Query.variableUri, hid] using congrArg String.toList h
      exact List.append_cancel_left hchars
  | some id =>
      have hchars : (q.uri ++ ";var=").toList ++ (name.toList ++ scopeEnd id) =
          (q.uri ++ ";var=").toList ++ (name'.toList ++ scopeEnd id) := by
        simpa [Query.variableUri, hid, scopeEnd] using congrArg String.toList h
      exact List.append_cancel_right (List.append_cancel_left hchars)

/-- An edit keeps the variables of an instance apart exactly when the new ones have new URIs. -/
theorem nodup_uris_of_continues {lawful : Prop} {q q' : Query} (h : q.Continues lawful q')
    (hq : q.uris.Nodup) :
    q'.uris.Nodup ↔ ∀ uri ∈ q'.uris.drop q.uris.length, uri ∉ q.uris := by
  obtain ⟨names, hkeys, huris⟩ := h.grown
  have hnames : names.Nodup := (List.nodup_append.mp (hkeys ▸ q'.table.nodup_keys)).2.1
  rw [huris, List.drop_left, List.nodup_append]
  constructor
  · rintro ⟨-, -, hdisjoint⟩ uri hnew hold
    exact hdisjoint uri hold uri hnew rfl
  · intro hnew
    refine ⟨hq, hnames.map (variableUri_injective q), ?_⟩
    rintro uri hold uri' hmem rfl
    exact hnew uri hmem hold

/-- A call that is no join and edits no instance keeps variables apart, and makes instances whose
variables are distinct. -/
theorem Distinct.after_iff_of_kept (hd : c.Distinct)
    (hslots : ∀ i q, (c.after k).slot? i = some (some q) →
      c.slot? i = some (some q) ∨ c.slot? i = none ∧ q.uris.Nodup)
    (hjoin : ∀ left right mode, k = .join left right mode → c.issued k = []) :
    (c.after k).Distinct ↔ k.KeepsApart c := by
  rw [distinct_iff] at hd ⊢
  refine iff_of_true ?_ ⟨?_, ?_⟩
  · intro i q hq
    rcases hslots i q hq with hsame | ⟨-, hnew⟩
    · exact hd i q hsame
    · exact hnew
  · intro i q q' hq hq' uri huri
    rw [instance?_eq_some_iff] at hq hq'
    rcases hslots i q' hq' with hsame | ⟨hnone, -⟩
    · obtain rfl := Option.some.inj (Option.some.inj (hq.symm.trans hsame))
      rw [List.drop_length] at huri
      cases huri
    · rw [hnone] at hq
      cases hq
  · intro left right mode i j l r rightId hk _ _ _ hissued
    exact absurd (hjoin left right mode hk) hissued

/-- A call that edits an instance keeps its variables apart exactly when the new ones have new
URIs. -/
theorem Distinct.after_iff_of_edited (hd : c.Distinct) {text : String} {i : InstanceId}
    {q q' : Query} (hk : k.targets = [text]) (hq : c.slot? i = some (some q))
    (hcontinues : q.Continues k.Lawful q')
    (hslots : ∀ j, (c.after k).slot? j = if j = i then some (some q') else c.slot? j) :
    (c.after k).Distinct ↔ k.KeepsApart c := by
  rw [distinct_iff] at hd ⊢
  have hq' : (c.after k).slot? i = some (some q') := by rw [hslots, if_pos rfl]
  have hiff := nodup_uris_of_continues hcontinues (hd i q hq)
  constructor
  · intro hafter
    refine ⟨?_, ?_⟩
    · intro j r r' hr hr'
      rw [instance?_eq_some_iff] at hr hr'
      by_cases hji : j = i
      · subst hji
        obtain rfl := Option.some.inj (Option.some.inj (hq.symm.trans hr))
        obtain rfl := Option.some.inj (Option.some.inj (hq'.symm.trans hr'))
        exact hiff.mp (hafter j q' hq')
      · rw [hslots, if_neg hji, hr] at hr'
        obtain rfl := Option.some.inj (Option.some.inj hr')
        simp
    · rintro left right mode _ _ _ _ _ rfl
      cases hk
  · intro hkeeps j r hr
    by_cases hji : j = i
    · subst hji
      obtain rfl := Option.some.inj (Option.some.inj (hq'.symm.trans hr))
      exact hiff.mpr (hkeeps.added j q q' (instance?_eq_some_iff.mpr hq)
        (instance?_eq_some_iff.mpr hq'))
    · rw [hslots, if_neg hji] at hr
      exact hd j r hr

/-- A join keeps the variables of its operands apart exactly when they have no stem in common. -/
theorem Distinct.after_iff_of_joined (hd : c.Distinct) (h : c.Sound) {left right : String × String}
    {mode used : JoinMode} {i j : InstanceId} {l r q : Query} {cleared : Canvas}
    (hk : k = .join left right mode) (hij : i ≠ j) (hleft : c.find left.1 = .ok (i, l))
    (hright : c.find right.1 = .ok (j, r))
    (hjoin : Query.join ⟨l, left.2⟩ ⟨r, right.2⟩ mode = .ok (q, used))
    (hcleared : cleared = (c.setSlot i none).setSlot j none)
    (hslots : ∀ m, (c.after k).slot? m = (cleared.store q.uri q).slot? m)
    (hissued : c.issued k ≠ []) : (c.after k).Distinct ↔ k.KeepsApart c := by
  rw [distinct_iff] at hd ⊢
  have hl := (find_eq_ok.mp hleft).2
  have hr := (find_eq_ok.mp hright).2
  obtain ⟨-, @⟨-, rightId, -, -, -, -, -, hrightId, -, -⟩, -⟩ := Query.join_table hjoin
  have hstems := Query.stems_join (h.disjoint hij hl hr) hrightId hjoin
  let new := cleared.nextId q.uri
  have hnew : (c.after k).slot? new = some (some (q.scopeTo new.text)) := by
    rw [hslots, slot?_store, if_pos rfl]
  -- besides the composite there is nothing that was not there before
  have hother : ∀ m, m ≠ new → (c.after k).slot? m =
      if m = j ∨ m = i then some none else c.slot? m := by
    intro m hm
    rw [hslots, slot?_store, if_neg hm, hcleared, slot?_emptied hl hr]
  have hfresh : ∀ m p, c.slot? m = some p → m ≠ new := by
    intro m p hm
    simp only [new, hcleared]
    exact ne_nextId_emptied hl hr hm q.uri
  have hiff : (q.scopeTo new.text).uris.Nodup ↔ q.stems.Nodup := Query.nodup_uris_scopeTo
  constructor
  · intro hafter
    refine ⟨?_, ?_⟩
    · intro m p p' hp hp'
      rw [instance?_eq_some_iff] at hp hp'
      rw [hother m (hfresh m _ hp)] at hp'
      split at hp'
      · cases hp'
      · obtain rfl := Option.some.inj (Option.some.inj (hp.symm.trans hp'))
        simp
    · rintro left' right' mode' i' j' l' r' rightId' hk' hleft' hright' hrightId' -
      obtain ⟨rfl, rfl, rfl⟩ := Call.join.inj (hk.symm.trans hk')
      obtain ⟨rfl, rfl⟩ := Prod.mk.inj (Except.ok.inj (hleft.symm.trans hleft'))
      obtain ⟨rfl, rfl⟩ := Prod.mk.inj (Except.ok.inj (hright.symm.trans hright'))
      obtain rfl := Except.ok.inj (hrightId.symm.trans hrightId')
      exact hstems ▸ hiff.mp (hafter new _ hnew)
  · intro hkeeps m p hp
    by_cases hm : m = new
    · subst hm
      obtain rfl := Option.some.inj (Option.some.inj (hnew.symm.trans hp))
      have hapart := hkeeps.joined left right mode i j l r rightId hk hleft hright hrightId hissued
      exact hiff.mpr (hstems ▸ hapart)
    · rw [hother m hm] at hp
      split at hp
      · cases hp
      · exact hd m p hp

/-- **What a call does to distinct variables.**  On a reachable canvas whose instances and catalog
have their variables apart, a call leaves them apart exactly when it keeps them apart. -/
theorem Distinct.after_iff (hd : c.Distinct) (h : c.Reachable)
    (hcatalog : ∀ q ∈ c.queries.values, q.stems.Nodup)
    (hhands : ∀ q, k.Hands q → q.stems.Nodup)
    (hwritten : ∀ id ∈ k.targets, InstanceId.IsWritten id) :
    (c.after k).Distinct ↔ k.KeepsApart c := by
  have hchange := (c.effect k).change
  generalize hissued : c.issued k = new at hchange
  generalize c.retired k = gone at hchange
  cases hchange with
  | idle hslots =>
      refine hd.after_iff_of_kept ?_ fun _ _ _ _ => hissued
      intro i q hq
      exact Or.inl (hslots i ▸ hq)
  | edited hk hid hq hcontinues hslots => exact hd.after_iff_of_edited hk hq hcontinues hslots
  | @stored source q hk hslots =>
      refine hd.after_iff_of_kept ?_ ?_
      · intro j r hr
        rw [hslots, slot?_store] at hr
        split at hr
        · next hj =>
            obtain rfl := Option.some.inj (Option.some.inj hr)
            exact Or.inr ⟨hj ▸ slot?_nextId c source,
              Query.nodup_uris_scopeTo.mpr (nodup_stems_of_supplies hk hhands hcatalog)⟩
        · exact Or.inl hr
      · rintro left right mode rfl
        exact hk.elim
  | @destroyed text i q hk hfind hslots =>
      refine hd.after_iff_of_kept ?_ ?_
      · intro j r hr
        rw [hslots, slot?_clear (find_eq_ok.mp hfind).2] at hr
        split at hr
        · cases hr
        · exact Or.inl hr
      · rintro left right mode rfl
        cases hk
  | @joined left right mode used i j l r q cleared hk hne hleft hright hjoin hcleared hslots =>
      have hij : i ≠ j := by
        rintro rfl
        have hl := (hwritten left.1 (by simp [hk, Call.targets])).eq_text (find_eq_ok.mp hleft).1
        have hr := (hwritten right.1 (by simp [hk, Call.targets])).eq_text (find_eq_ok.mp hright).1
        exact hne (hl.trans hr.symm)
      exact hd.after_iff_of_joined h.sound hk hij hleft hright hjoin hcleared hslots
        (by rw [hissued]; exact List.cons_ne_nil _ _)

end Step

/-! ### Runs -/

/-- A run of lawful calls on a canvas without instances.  The queries of its catalogs, and those
that calls hand over, have variables with distinct stems, and instances are addressed by their ids
as a canvas writes them. -/
structure FromDistinct (c : Canvas) (calls : List Call) : Prop where
  reachable : c.Reachable
  start : c.buckets = ∅
  catalog : ∀ q ∈ c.queries.values, q.stems.Nodup
  lawful : ∀ k ∈ calls, k.Lawful
  hands : ∀ k ∈ calls, ∀ q, k.Hands q → q.stems.Nodup
  written : ∀ k ∈ calls, ∀ id ∈ k.targets, InstanceId.IsWritten id

variable {c : Canvas} {calls before rest : List Call} {k : Call}

namespace FromDistinct

/-- A canvas without instances is distinct. -/
theorem distinct (h : c.FromDistinct calls) : c.Distinct := by
  rw [distinct_iff]
  intro i q hq
  rw [slot?, h.start] at hq
  cases hq

/-- A call of the run is lawful, hands over queries with distinct stems, and is addressed to written
ids. -/
theorem mem_calls (h : c.FromDistinct (before ++ k :: rest)) :
    k.Lawful ∧ (∀ q, k.Hands q → q.stems.Nodup) ∧ ∀ id ∈ k.targets, InstanceId.IsWritten id :=
  have hk : k ∈ before ++ k :: rest := by simp
  ⟨h.lawful k hk, h.hands k hk, h.written k hk⟩

/-- The canvases of the run are reachable. -/
theorem reachable_afterAll (h : c.FromDistinct (before ++ rest)) :
    (c.afterAll before).Reachable :=
  h.reachable.afterAll fun k hk => h.lawful k (List.mem_append_left rest hk)

/-- The catalog goes on holding queries whose stems are distinct. -/
theorem catalog_afterAll (h : c.FromDistinct (before ++ rest)) :
    ∀ q ∈ (c.afterAll before).queries.values, q.stems.Nodup := by
  induction before using List.reverseRecOn generalizing rest with
  | nil => exact h.catalog
  | append_singleton before k ih =>
      rw [List.append_assoc] at h
      rw [afterAll_append]
      intro q hq
      rcases ((c.afterAll before).effect k).queries with
        hsame | ⟨prefixes, endpoints, concepts, hfurnish⟩
      · exact ih h q (hsame ▸ hq)
      · exact h.mem_calls.2.1 q (hfurnish ▸ hq)

/-- The step of the run from one canvas to the next. -/
theorem after_iff (h : c.FromDistinct (before ++ k :: rest)) (hd : (c.afterAll before).Distinct) :
    (c.afterAll (before ++ [k])).Distinct ↔ k.KeepsApart (c.afterAll before) := by
  obtain ⟨-, hhands, hwritten⟩ := h.mem_calls
  rw [afterAll_append]
  exact hd.after_iff h.reachable_afterAll h.catalog_afterAll hhands hwritten

end FromDistinct

/-- **When variables stay distinct.**  From catalogs of queries with distinct variables on, the
instances of all canvases of a run have distinct variables exactly when each call of the run keeps
them apart. -/
theorem distinct_run_iff (h : c.FromDistinct calls) :
    (∀ before rest, calls = before ++ rest → (c.afterAll before).Distinct) ↔
      ∀ before k rest, calls = before ++ k :: rest → k.KeepsApart (c.afterAll before) := by
  constructor
  · rintro hdistinct before k rest rfl
    exact (h.after_iff (hdistinct before (k :: rest) rfl)).mp
      (hdistinct (before ++ [k]) rest (by simp))
  · intro hkeeps before
    induction before using List.reverseRecOn with
    | nil => exact fun _ _ => h.distinct
    | append_singleton before k ih =>
        rintro rest rfl
        rw [List.append_assoc] at h
        have hsplit : before ++ [k] ++ rest = before ++ k :: rest := by simp
        exact (h.after_iff (ih (k :: rest) hsplit)).mpr (hkeeps before k rest hsplit)

/-- The two example queries in a catalog, without instances. -/
def directoryCanvas : Canvas :=
  { queries := .ofList [("urn:people", peopleQuery), ("urn:cities", citiesQuery)] }

/-- The variables of the example queries have distinct URIs, and no URI has the mark. -/
theorem directoryCanvas_catalog : ∀ q ∈ directoryCanvas.queries.values,
    q.uris.Nodup ∧ ∀ uri ∈ q.uris, hasMark Variable.instanceMark uri.toList = false := by
  decide +kernel

/-- The canvas with the example queries is reachable. -/
theorem directoryCanvas_reachable : directoryCanvas.Reachable := by
  refine .start ?_
  have hvalues : (OrderedMap.ofList [("urn:people", peopleQuery), ("urn:cities", citiesQuery)] :
      QueryCatalog).values = [peopleQuery, citiesQuery] := rfl
  rw [hvalues]
  simp [peopleQuery_built, citiesQuery_built]

/-- A run on the example that makes instances of catalog queries and joins them. -/
theorem fromDistinct_directoryCanvas
    (hcalls : ∀ k ∈ calls, (∃ source, k = .instantiate source none) ∨
      ∃ left right mode, k = .join left right mode ∧ InstanceId.IsWritten left.1 ∧
        InstanceId.IsWritten right.1) : directoryCanvas.FromDistinct calls where
  reachable := directoryCanvas_reachable
  start := rfl
  catalog := by
    intro q hq
    obtain ⟨huris, hmark⟩ := directoryCanvas_catalog q hq
    exact Query.nodup_stems huris hmark
  lawful := by
    intro k hk
    rcases hcalls k hk with ⟨source, rfl⟩ | ⟨left, right, mode, rfl, -, -⟩ <;> trivial
  hands := by
    intro k hk q hq
    rcases hcalls k hk with ⟨source, rfl⟩ | ⟨left, right, mode, rfl, -, -⟩ <;> exact hq.elim
  written := by
    intro k hk id hid
    rcases hcalls k hk with ⟨source, rfl⟩ | ⟨left, right, mode, rfl, hleft, hright⟩
    · cases hid
    · simp only [Call.targets, List.mem_cons, List.not_mem_nil, or_false] at hid
      rcases hid with rfl | rfl
      · exact hleft
      · exact hright

/-- A canvas is distinct when the queries in its buckets are. -/
theorem distinct_of_buckets (h : ∀ bucket ∈ c.buckets.values, ∀ x ∈ bucket, ∀ q ∈ x, q.uris.Nodup) :
    c.Distinct := by
  rw [distinct_iff]
  intro i q hq
  obtain ⟨bucket, hbucket, hslot⟩ := exists_bucket hq
  exact h bucket hbucket (some q) (List.mem_of_getElem? hslot) q rfl

/-- People and cities are joined on the city that both queries have. -/
def neighboursRun : List Call :=
  [.instantiate "urn:people" none, .instantiate "urn:cities" none,
    .join ("e5a5f51b05a2dc8b_0", "city") ("699c2333db03cdca_0", "place") .inline]

/-- The join of the two example queries keeps their variables apart. -/
theorem distinct_run_neighbours :
    directoryCanvas.FromDistinct neighboursRun ∧
      (directoryCanvas.afterAll neighboursRun).ids = ["eda5096044d5e5b3_0"] ∧
      ∀ before k rest, neighboursRun = before ++ k :: rest →
        k.KeepsApart (directoryCanvas.afterAll before) := by
  have hfrom : directoryCanvas.FromDistinct neighboursRun := by
    refine fromDistinct_directoryCanvas ?_
    simp only [neighboursRun, List.mem_cons, List.not_mem_nil, or_false]
    rintro k (rfl | rfl | rfl)
    · exact Or.inl ⟨_, rfl⟩
    · exact Or.inl ⟨_, rfl⟩
    · exact Or.inr ⟨_, _, _, rfl, ⟨⟨"e5a5f51b05a2dc8b", 0⟩, by decide +kernel⟩,
        ⟨⟨"699c2333db03cdca", 0⟩, by decide +kernel⟩⟩
  have hall : ∀ n < 4, ∀ bucket ∈
      (directoryCanvas.afterAll (neighboursRun.take n)).buckets.values,
        ∀ x ∈ bucket, ∀ q ∈ x, q.uris.Nodup := by decide +kernel
  refine ⟨hfrom, by decide +kernel, (distinct_run_iff hfrom).mp ?_⟩
  intro before rest hsplit
  have hlength : before.length < 4 := by
    have hsum := congrArg List.length hsplit
    simp only [neighboursRun, List.length_append, List.length_cons, List.length_nil] at hsum
    omega
  have hbuckets := hall before.length hlength
  rw [hsplit, List.take_left] at hbuckets
  exact distinct_of_buckets hbuckets

/-- Two instances of one query are joined. -/
def twinsRun : List Call :=
  [.instantiate "urn:people" none, .instantiate "urn:people" none,
    .join ("e5a5f51b05a2dc8b_0", "id") ("e5a5f51b05a2dc8b_1", "id") .inline]

/-- Two instances of one query have the same stems.  Their composite has two variables for the city
of one URI, though the variables of the query are distinct and no URI of them has the mark. -/
theorem twinsRun_not_distinct :
    (∀ q ∈ directoryCanvas.queries.values,
      q.uris.Nodup ∧ ∀ uri ∈ q.uris, hasMark Variable.instanceMark uri.toList = false) ∧
    directoryCanvas.Reachable ∧ (∀ k ∈ twinsRun, k.Lawful) ∧
    (directoryCanvas.afterAll twinsRun).ids = ["04c7d254ee406b0b_0"] ∧
    ∃ q, (directoryCanvas.afterAll twinsRun).instance? ⟨"04c7d254ee406b0b", 0⟩ = some q ∧
      q.table.keys = ["id", "city", "x", "city1", "x1"] ∧
      q.uris[1]? = some "urn:city;instance=04c7d254ee406b0b_0" ∧
      q.uris[3]? = some "urn:city;instance=04c7d254ee406b0b_0" ∧ ¬ q.uris.Nodup := by
  have hcomposite : ((directoryCanvas.afterAll twinsRun).instance? ⟨"04c7d254ee406b0b", 0⟩).map
      (fun q => (q.table.keys, q.uris[1]?, q.uris[3]?, decide q.uris.Nodup)) =
        some (["id", "city", "x", "city1", "x1"], some "urn:city;instance=04c7d254ee406b0b_0",
          some "urn:city;instance=04c7d254ee406b0b_0", false) := by decide +kernel
  obtain ⟨q, hq, hparts⟩ := Option.map_eq_some_iff.mp hcomposite
  simp only [Prod.mk.injEq, decide_eq_false_iff_not] at hparts
  refine ⟨directoryCanvas_catalog, directoryCanvas_reachable, ?_, by decide +kernel, q, hq, hparts⟩
  simp [twinsRun, Call.Lawful]

end Canvas

end SparqlCompose
