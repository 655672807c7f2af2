import Mathlib
import SparqlCompose.Proofs.WellFormed

/-!
# Runs of calls

A query is edited by calls, one after the other; a call that fails leaves the query as it was
(`Query.after`).  A lawful call keeps a query well formed (`Query.WellFormed.after`).  Whatever
the calls are, the variable table only grows at its end (`Query.keys_prefix_afterAll`) and a
place goes on holding the variable that it held before, up to what the calls say about its value
and its instance (`Query.kept_afterAll`).
-/

namespace SparqlCompose

namespace Query

/-- An operation that edits a query. -/
inductive Call where
  | annotate (label comment : Option String)
  | addVariable (v : Variable)
  | internVariable (v : Variable)
  | freshVariable (base : String)
  | bind (id : VarId) (value : Constant)
  | unbind (id : VarId)
  | project (id : VarId)
  | unproject (id : VarId)
  | reorder (order : List String)
  | pushClause (c : Clause)
  | pushOrder (k : OrderKey)
  | addEndpoint (uri : String)
  | activate (uri : String)
  | scopeTo (instanceId : String)

namespace Call

/-- The query that a call answers. -/
def perform (q : Query) : Call → Except QueryError Query
  | annotate label comment => .ok { q with label := label, comment := comment }
  | addVariable v => (q.addVariable v).map Prod.snd
  | internVariable v => (q.internVariable v).map Prod.snd
  | freshVariable base => (q.freshVariable base).map Prod.snd
  | bind id value => (q.setBound id (some value)).map Prod.snd
  | unbind id => (q.setBound id none).map Prod.snd
  | project id => (q.project id).map Prod.snd
  | unproject id => .ok (q.unproject id).2
  | reorder order => q.reorder order
  | pushClause c => q.pushClause c
  | pushOrder k => q.pushOrder k
  | addEndpoint uri => .ok (q.addEndpoint uri)
  | activate uri => .ok (q.activate uri)
  | scopeTo instanceId => .ok (q.scopeTo instanceId)

/-- The clauses and the constants that the call hands over come from their constructors. -/
def Lawful : Call → Prop
  | addVariable v => ∀ c, v.bound = some c → c.IsNormal
  | internVariable v => ∀ c, v.bound = some c → c.IsNormal
  | bind _ value => value.IsNormal
  | pushClause c => c.Made
  | _ => True

/-- What a run of calls leaves of the variable `v` at the place `id`: only a change of the
instance changes its URI, and only a call about the place changes its value. -/
structure Keeps (calls : List Call) (id : VarId) (v w : Variable) : Prop where
  same : w = { v with uri := w.uri, bound := w.bound }
  uri : (∀ i, scopeTo i ∉ calls) → w.uri = v.uri
  bound : (∀ c, bind id c ∉ calls) → unbind id ∉ calls → w.bound = v.bound

/-- A variable that is the same as before has been kept. -/
theorem Keeps.refl (calls : List Call) (id : VarId) (v : Variable) : Keeps calls id v v :=
  ⟨rfl, fun _ => rfl, fun _ _ => rfl⟩

/-- What one call keeps and the run after it keeps, the whole run keeps. -/
theorem Keeps.cons {c : Call} {calls : List Call} {id : VarId} {u v w : Variable}
    (h : Keeps [c] id u v) (hrest : Keeps calls id v w) : Keeps (c :: calls) id u w where
  same := by
    rw [hrest.same, h.same]
  uri := by
    intro hnone
    have hne : ∀ i, scopeTo i ∉ [c] ∧ scopeTo i ∉ calls := by
      intro i
      simpa [not_or] using hnone i
    rw [hrest.uri fun i => (hne i).2, h.uri fun i => (hne i).1]
  bound := by
    intro hbind hunbind
    have hne : ∀ x, bind id x ∉ [c] ∧ bind id x ∉ calls := by
      intro x
      simpa [not_or] using hbind x
    have hne' : unbind id ∉ [c] ∧ unbind id ∉ calls := by simpa [not_or] using hunbind
    rw [hrest.bound (fun x => (hne x).2) hne'.2, h.bound (fun x => (hne x).1) hne'.1]

end Call

/-- The query after a call.  A call that fails leaves it as it was. -/
def after (q : Query) (c : Call) : Query :=
  match c.perform q with
  | .ok q' => q'
  | .error _ => q

/-- The query after a run of calls. -/
def afterAll (q : Query) (calls : List Call) : Query := calls.foldl after q

variable {q q' : Query} {c : Call}

/-- After a call there is the query that it answers, or the one before it. -/
theorem after_cases (q : Query) (c : Call) :
    q.after c = q ∨ c.perform q = .ok (q.after c) := by
  unfold after
  split
  · next hok => exact Or.inr hok
  · exact Or.inl rfl

/-- A lawful call keeps a query well formed. -/
theorem WellFormed.perform (h : q.WellFormed) (hc : c.Lawful) (hok : c.perform q = .ok q') :
    q'.WellFormed := by
  cases c with
  | annotate label comment =>
      obtain rfl := Except.ok.inj hok
      exact h.annotated label comment
  | addVariable v =>
      obtain ⟨⟨id, r⟩, hadd, rfl⟩ := Outcome.map_eq_ok.mp hok
      exact (h.addVariable hc hadd).1
  | internVariable v =>
      obtain ⟨⟨id, r⟩, hadd, rfl⟩ := Outcome.map_eq_ok.mp hok
      exact (h.internVariable hc hadd).1
  | freshVariable base =>
      obtain ⟨⟨id, r⟩, hadd, rfl⟩ := Outcome.map_eq_ok.mp hok
      exact h.freshVariable hadd
  | bind id value =>
      obtain ⟨⟨old, r⟩, hset, rfl⟩ := Outcome.map_eq_ok.mp hok
      have hvalue : ∀ c, some value = some c → c.IsNormal := by
        intro c habsurd
        cases habsurd
        exact hc
      exact (h.setBound hvalue hset).1
  | unbind id =>
      obtain ⟨⟨old, r⟩, hset, rfl⟩ := Outcome.map_eq_ok.mp hok
      exact (h.setBound (by simp) hset).1
  | project id =>
      obtain ⟨⟨isNew, r⟩, hproject, rfl⟩ := Outcome.map_eq_ok.mp hok
      exact (h.project hproject).1
  | unproject id =>
      obtain rfl := Except.ok.inj hok
      exact h.unproject id
  | reorder order => exact (h.reorder hok).1
  | pushClause d => exact (h.pushClause hc hok).1
  | pushOrder k => exact (h.pushOrder hok).1
  | addEndpoint uri =>
      obtain rfl := Except.ok.inj hok
      exact h.addEndpoint uri
  | activate uri =>
      obtain rfl := Except.ok.inj hok
      exact h.activate uri
  | scopeTo instanceId =>
      obtain rfl := Except.ok.inj hok
      exact h.scopeTo instanceId

/-- A lawful call keeps a query well formed, whether it succeeds or fails. -/
theorem WellFormed.after (h : q.WellFormed) (hc : c.Lawful) : (q.after c).WellFormed := by
  rcases after_cases q c with hsame | hok
  · rw [hsame]
    exact h
  · exact h.perform hc hok

/-- A variable that is added has a new name, and its entry goes to the end of the table. -/
theorem table_of_addVariable {v : Variable} {id : VarId}
    (hok : q.addVariable v = .ok (id, q')) :
    ∃ v : Variable, v.name ∉ q.table.keys ∧ q'.table = q.table.insert v.name v := by
  obtain ⟨-, hnew, -, rfl⟩ := addVariable_eq_ok.mp hok
  exact ⟨v, hnew, rfl⟩

/-- What a call does to the table: it stays, gets a new entry at its end, or has its variables
changed in place. -/
theorem table_of_perform (hok : c.perform q = .ok q') :
    q'.table = q.table ∨
      (∃ v : Variable, v.name ∉ q.table.keys ∧ q'.table = q.table.insert v.name v) ∨
      (∃ id value, (c = .unbind id ∨ ∃ x, c = .bind id x) ∧
        q'.table = q.table.modifyAt id fun v => { v with bound := value }) ∨
      ∃ i, c = .scopeTo i ∧ q'.table = q.table.map (·.scopeTo i) := by
  cases c with
  | annotate label comment =>
      obtain rfl := Except.ok.inj hok
      exact Or.inl rfl
  | addVariable v =>
      obtain ⟨⟨id, r⟩, hadd, rfl⟩ := Outcome.map_eq_ok.mp hok
      exact Or.inr (Or.inl (table_of_addVariable hadd))
  | internVariable v =>
      obtain ⟨⟨id, r⟩, hintern, rfl⟩ := Outcome.map_eq_ok.mp hok
      rcases internVariable_eq_ok.mp hintern with ⟨-, rfl⟩ | hadd
      · exact Or.inl rfl
      · exact Or.inr (Or.inl (table_of_addVariable hadd))
  | freshVariable base =>
      obtain ⟨⟨id, r⟩, hfresh, rfl⟩ := Outcome.map_eq_ok.mp hok
      exact Or.inr (Or.inl (table_of_addVariable (freshVariable_eq_ok.mp hfresh).2))
  | bind id value =>
      obtain ⟨⟨old, r⟩, hset, rfl⟩ := Outcome.map_eq_ok.mp hok
      obtain ⟨-, -, rfl⟩ := setBound_eq_ok.mp hset
      exact Or.inr (Or.inr (Or.inl ⟨id, some value, Or.inr ⟨value, rfl⟩, rfl⟩))
  | unbind id =>
      obtain ⟨⟨old, r⟩, hset, rfl⟩ := Outcome.map_eq_ok.mp hok
      obtain ⟨-, -, rfl⟩ := setBound_eq_ok.mp hset
      exact Or.inr (Or.inr (Or.inl ⟨id, none, Or.inl rfl, rfl⟩))
  | project id =>
      obtain ⟨⟨isNew, r⟩, hproject, rfl⟩ := Outcome.map_eq_ok.mp hok
      obtain ⟨-, -, rfl⟩ := project_eq_ok.mp hproject
      exact Or.inl rfl
  | unproject id =>
      obtain rfl := Except.ok.inj hok
      exact Or.inl rfl
  | reorder order =>
      obtain ⟨names, ids, -, -, -, rfl⟩ := reorder_eq_ok.mp hok
      exact Or.inl rfl
  | pushClause d =>
      obtain ⟨-, rfl⟩ := pushClause_eq_ok.mp hok
      exact Or.inl rfl
  | pushOrder k =>
      obtain ⟨-, rfl⟩ := pushOrder_eq_ok.mp hok
      exact Or.inl rfl
  | addEndpoint uri =>
      obtain rfl := Except.ok.inj hok
      exact Or.inl rfl
  | activate uri =>
      obtain rfl := Except.ok.inj hok
      exact Or.inl rfl
  | scopeTo i =>
      obtain rfl := Except.ok.inj hok
      exact Or.inr (Or.inr (Or.inr ⟨i, rfl, rfl⟩))

/-- No call takes a name from the table or moves one. -/
theorem keys_prefix_after (q : Query) (c : Call) : q.table.keys <+: (q.after c).table.keys := by
  rcases after_cases q c with hsame | hok
  · rw [hsame]
  rcases table_of_perform hok with h | ⟨v, hnew, h⟩ | ⟨id, value, -, h⟩ | ⟨i, -, h⟩
  · rw [h]
  · rw [h, OrderedMap.keys_insert_of_not_mem v hnew]
    exact List.prefix_append _ _
  · rw [h, OrderedMap.keys_modifyAt]
  · rw [h, OrderedMap.keys_map]

/-- **The table only grows at its end.**  What stands in the table before a run of calls stands
there after it, at the same places. -/
theorem keys_prefix_afterAll (q : Query) (calls : List Call) :
    q.table.keys <+: (q.afterAll calls).table.keys := by
  induction calls generalizing q with
  | nil => exact List.prefix_refl _
  | cons c calls ih => exact (keys_prefix_after q c).trans (ih (q.after c))

/-- After a call there is still a variable at the place, which is the old one up to what the call
says. -/
theorem kept_after {id : VarId} {v : Variable} (hv : q.table.at? id = some v) (c : Call) :
    ∃ w, (q.after c).table.at? id = some w ∧ Call.Keeps [c] id v w := by
  rcases after_cases q c with hsame | hok
  · rw [hsame]
    exact ⟨v, hv, .refl _ _ _⟩
  rcases table_of_perform hok with h | ⟨u, hnew, h⟩ | ⟨i, value, hc, h⟩ | ⟨i, rfl, h⟩
  · exact ⟨v, h ▸ hv, .refl _ _ _⟩
  · exact ⟨v, h ▸ OrderedMap.at?_insert_of_not_mem hnew hv, .refl _ _ _⟩
  · rw [h, OrderedMap.at?_modifyAt, hv]
    by_cases hid : i = id
    · subst hid
      refine ⟨{ v with bound := value }, by simp, rfl, fun _ => rfl, ?_⟩
      intro hbind hunbind
      rcases hc with rfl | ⟨x, rfl⟩
      · exact absurd List.mem_cons_self hunbind
      · exact absurd List.mem_cons_self (hbind x)
    · exact ⟨v, by simp [hid], .refl _ _ _⟩
  · rw [h, OrderedMap.at?_map, hv]
    refine ⟨v.scopeTo i, rfl, rfl, ?_, fun _ _ => rfl⟩
    intro hnone
    exact absurd List.mem_cons_self (hnone i)

/-- **A place goes on naming the same variable.**  After a run of calls it holds the variable
that it held before, up to what the calls change. -/
theorem kept_afterAll {id : VarId} {v : Variable} (hv : q.table.at? id = some v)
    (calls : List Call) :
    ∃ w, (q.afterAll calls).table.at? id = some w ∧ Call.Keeps calls id v w := by
  induction calls generalizing q v with
  | nil => exact ⟨v, hv, .refl _ _ _⟩
  | cons c calls ih =>
      obtain ⟨u, hu, hkeep⟩ := kept_after hv c
      obtain ⟨w, hw, hrest⟩ := ih hu
      exact ⟨w, hw, hkeep.cons hrest⟩

end Query

end SparqlCompose
