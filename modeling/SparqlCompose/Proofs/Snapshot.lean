import Mathlib
import SparqlCompose.Proofs.Clause
import SparqlCompose.Proofs.Json.Decode
import SparqlCompose.Proofs.Json.Text
import SparqlCompose.Proofs.OrderedMap
import SparqlCompose.Proofs.WellFormed
import SparqlCompose.Query.Snapshot

/-!
# Snapshots are read back

A snapshot is the text of a JSON value.  The text is read as that value (`Query.Storable.exact`),
and every decoder reads what its writer wrote (`Query.decodes`), so that a snapshot restores the
query in every field, down to the order of the table and what the equality of variables ignores
(`Query.snapshot_restores`).

There is one exception.  A reader of JSON follows arrays and objects only so deep.  Each block of
a body takes three levels, so that blocks may be nested forty deep, but not forty-two deep; at
forty-one it depends on what stands in the innermost one.
-/

namespace SparqlCompose

open Json (Decodes asString asNat asList asPairs asRecord orNull levels levelsAll levelsFields
  bind_ite_some decodes_string decodes_nat decodes_bool decodes_null decodes_list decodes_pairs
  decodes_name decodes_case decodes_record asRecord_of_nodup)
open Json.Record (get_cons get?_cons get?_nil)

/-! ### Terms and patterns -/

/-- A resource is read back. -/
theorem Resource.decodes (r : Resource) : Decodes ofJson r.toJson r := by
  cases r <;> exact decodes_record (by simp) fun d => by
    simp [get_cons, levels, levelsFields, decodes_string _ d, decodes_bool _ d]

/-- The kind of a literal is read back, with its datatype or its tag. -/
theorem LiteralKind.decodes (k : LiteralKind) : Decodes ofJson k.toJson k := by
  cases k with
  | simple => exact decodes_name fun _ => rfl
  | typed datatype => exact decodes_case fun d => by simp [decodes_string _ d, levels]
  | tagged tag => exact decodes_case fun d => by simp [decodes_string _ d, levels]

/-- A literal is read back. -/
theorem Literal.decodes (l : Literal) : Decodes ofJson l.toJson l :=
  decodes_record (by simp) fun d => by
    simp [get_cons, levels, levelsFields, bind_ite_some, decodes_string _ d, l.kind.decodes d]

/-- A constant is read back. -/
theorem Constant.decodes (c : Constant) : Decodes ofJson c.toJson c := by
  cases c with
  | resource r => exact decodes_case fun d => by simp [r.decodes d]
  | literal l => exact decodes_case fun d => by simp [l.decodes d]

/-- A slot is read back. -/
theorem Term.decodes (t : Term) : Decodes ofJson t.toJson t := by
  cases t with
  | var id => exact decodes_case fun d => by simp [decodes_nat _ d, levels]
  | resource r => exact decodes_case fun d => by simp [r.decodes d]
  | literal l => exact decodes_case fun d => by simp [l.decodes d]

/-- A pattern is read back. -/
theorem Pattern.decodes (p : Pattern) : Decodes ofJson p.toJson p :=
  decodes_record (by simp) fun d => by
    simp [get_cons, levelsFields, bind_ite_some, p.subject.decodes d, p.predicate.decodes d,
      p.object.decodes d, ← ite_and]

/-! ### Variables and order keys -/

/-- The source of a joined variable is read back. -/
theorem JoinSource.decodes (s : JoinSource) : Decodes ofJson s.toJson s :=
  decodes_record (by simp) fun d => by simp [get_cons, levels, levelsFields, decodes_string _ d]

/-- The origin of a variable is read back. -/
theorem VariableOrigin.decodes (o : VariableOrigin) : Decodes ofJson o.toJson o := by
  cases o with
  | plain => exact decodes_name fun _ => rfl
  | joined l r =>
      have hsides : Decodes (fun d v => do
          let r ← asRecord ["left", "right"] d v
          return joined (← r.get "left" JoinSource.ofJson) (← r.get "right" JoinSource.ofJson))
          (.obj [("left", l.toJson), ("right", r.toJson)]) (joined l r) :=
        decodes_record (by simp) fun d => by
          simp [get_cons, levelsFields, bind_ite_some, l.decodes d, r.decodes d, ← ite_and]
      exact decodes_case hsides

/-- A text that may be missing is read back when it is there. -/
theorem decodes_some (s : String) : Decodes (orNull asString) (.str s) (some s) :=
  (decodes_string s).orNull (by simp)

/-- It is read back in either case. -/
theorem decodes_text? (o : Option String) : Decodes (orNull asString) (.ofText? o) o := by
  cases o with
  | none => exact decodes_null asString
  | some s => exact decodes_some s

/-- The value of a variable is read back, whether there is one or not. -/
theorem Variable.decodes_bound (o : Option Constant) :
    Decodes (orNull Constant.ofJson) (o.elim .null Constant.toJson) o := by
  cases o with
  | none => exact decodes_null _
  | some c =>
      refine c.decodes.orNull ?_
      cases c <;> simp [Constant.toJson]

/-- A variable is read back in every field. -/
theorem Variable.decodes (v : Variable) : Decodes ofJson v.toJson v :=
  decodes_record (by simp) fun d => by
    simp [get_cons, get?_cons, levels, levelsFields, bind_ite_some, decodes_string _ d,
      decodes_text? _ d, decodes_bound v.bound d, v.origin.decodes d, ← ite_and]

/-- A direction is read back. -/
theorem OrderKey.decodes_direction (k : Direction) :
    Decodes directionOfJson (directionToJson k) k := by
  cases k <;> exact decodes_name fun _ => rfl

/-- An order key is read back. -/
theorem OrderKey.decodes (k : OrderKey) : Decodes ofJson k.toJson k :=
  decodes_record (by simp) fun d => by
    simp [get_cons, levels, levelsFields, bind_ite_some, decodes_direction k.direction d,
      decodes_nat _ d]

/-! ### Clauses -/

namespace Clause

/-- Clauses are written one by one. -/
theorem toJsonAll_eq_map (cs : List Clause) : toJsonAll cs = cs.map toJson := by
  induction cs with
  | nil => rfl
  | cons c cs ih => rw [toJsonAll, ih, List.map_cons]

/-- A clause takes three levels at least. -/
theorem three_le_levels (c : Clause) : 3 ≤ c.toJson.levels := by
  cases c with
  | pattern p =>
      have hslot : ∀ t : Term, 1 ≤ t.toJson.levels := by
        intro t
        cases t <;> simp [Term.toJson, levels]
      have hsubject := hslot p.subject
      simp only [toJson, Pattern.toJson, levels, levelsFields]
      omega
  | service e cs vs =>
      simp only [toJson, levels, levelsFields]
      omega

/-- Without three levels no clause is read. -/
theorem ofJson_of_lt_three {d : Nat} (h : d < 3) (v : Json) : ofJson d v = none := by
  unfold ofJson
  split
  · omega
  · rfl

mutual

/-- A clause is read back if the reader may go as deep as it is nested. -/
theorem decodes : ∀ c : Clause, Decodes ofJson c.toJson c
  | .pattern p => by
      intro d
      by_cases hd : d < 3
      · have hdeep := three_le_levels (.pattern p)
        rw [ofJson_of_lt_three hd, if_neg (by omega)]
      · obtain ⟨n, rfl⟩ : ∃ n, d = n + 3 := ⟨d - 3, by omega⟩
        simp [ofJson, toJson, Json.asCase, levels, levelsFields, p.decodes (n + 2)]
  | .service e cs vs => by
      intro d
      by_cases hd : d < 3
      · have hdeep := three_le_levels (.service e cs vs)
        rw [ofJson_of_lt_three hd, if_neg (by omega)]
      · obtain ⟨n, rfl⟩ : ∃ n, d = n + 3 := ⟨d - 3, by omega⟩
        have hinner : (toJsonAll cs).mapM (ofJson n) =
            if levelsAll (toJsonAll cs) ≤ n then some cs else none := by
          rw [toJsonAll_eq_map]
          exact Json.mapM_levelsAll fun c hc => decodes_of_mem cs c hc n
        have hlisted : Decodes (asList asNat) (.arr (vs.map .num)) vs :=
          decodes_list fun id _ => decodes_nat id
        simp [ofJson, toJson, Json.asCase, asRecord_of_nodup, get_cons, levels, levelsFields,
          bind_ite_some, decodes_string e (n + 1), hinner, hlisted (n + 1), ← ite_and]

/-- So is every clause of a list. -/
theorem decodes_of_mem : ∀ cs : List Clause, ∀ c ∈ cs, Decodes ofJson c.toJson c
  | [] => by simp
  | c :: cs => List.forall_mem_cons.mpr ⟨decodes c, decodes_of_mem cs⟩

end

end Clause

/-! ### Queries -/

namespace Query

/-- A query whose endpoints are distinct is read field by field. -/
theorem decodes {q : Query} (h : q.endpoints.Nodup) : Decodes ofJson q.toJson q := by
  have htable : Decodes (asPairs Variable.ofJson)
      (.obj (q.table.entries.map fun e => (e.1, e.2.toJson))) q.table.entries :=
    decodes_pairs fun e _ => e.2.decodes
  have hprojections : Decodes (asList asNat) (.arr (q.projections.map .num)) q.projections :=
    decodes_list fun id _ => decodes_nat id
  have hclauses : Decodes (asList Clause.ofJson) (.arr (Clause.toJsonAll q.clauses)) q.clauses := by
    rw [Clause.toJsonAll_eq_map]
    exact decodes_list fun c _ => c.decodes
  have horder : Decodes (asList OrderKey.ofJson) (.arr (q.order.map OrderKey.toJson)) q.order :=
    decodes_list fun k _ => k.decodes
  have hendpoints : Decodes (asList asString) (.arr (q.endpoints.map .str)) q.endpoints :=
    decodes_list fun e _ => decodes_string e
  have hdistinct : q.endpoints.foldl appendNew [] = [] ++ q.endpoints :=
    foldl_appendNew_of_nodup h
  obtain ⟨uri, label, comment, table, projections, clauses, order, endpoints, active,
    instanceId⟩ := q
  cases instanceId <;> exact decodes_record (by simp) fun d => by
    simp [get_cons, get?_cons, get?_nil, levels, levelsFields, bind_ite_some, decodes_string _ d,
      decodes_text? _ d, htable d, hprojections d, hclauses d, horder d, hendpoints d,
      decodes_some _ d, hdistinct, OrderedMap.ofList_entries, ← ite_and]

end Query

/-! ### Places that fit into a word -/

/-- A text that may be missing is written exactly. -/
theorem Json.exact_ofText? (o : Option String) : (Json.ofText? o).Exact := by
  cases o <;> trivial

/-- A constant is written without numbers, so exactly. -/
theorem Constant.exact (c : Constant) : c.toJson.Exact := by
  cases c with
  | resource r => cases r <;> simp [toJson, Resource.toJson, Json.Exact, Json.ExactFields]
  | literal l =>
      obtain ⟨value, kind⟩ := l
      cases kind <;>
        simp [toJson, Literal.toJson, LiteralKind.toJson, Json.Exact, Json.ExactFields]

/-- A slot is written exactly if its place is a machine word. -/
theorem Term.exact {t : Term} (h : ∀ id ∈ t.var?, id < wordSize) : t.toJson.Exact := by
  cases t with
  | var id => exact ⟨h id rfl, trivial⟩
  | resource r => exact Constant.exact (.resource r)
  | literal l => exact Constant.exact (.literal l)

/-- So is a pattern if its places are. -/
theorem Pattern.exact {p : Pattern} (h : ∀ id ∈ p.varIds, id < wordSize) : p.toJson.Exact := by
  rw [varIds_eq_append] at h
  refine ⟨Term.exact fun id hid => h id ?_, Term.exact fun id hid => h id ?_,
    Term.exact fun id hid => h id ?_, trivial⟩ <;> simp_all

/-- A variable is written without numbers, so exactly. -/
theorem Variable.exact (v : Variable) : v.toJson.Exact := by
  obtain ⟨uri, name, label, comment, bound, origin⟩ := v
  refine ⟨trivial, trivial, Json.exact_ofText? label, Json.exact_ofText? comment, ?_, ?_, trivial⟩
  · cases bound with
    | none => trivial
    | some c => exact c.exact
  · cases origin <;> simp [VariableOrigin.toJson, JoinSource.toJson, Json.Exact, Json.ExactFields]

namespace Clause

mutual

/-- The places that a clause names, those that its blocks list included. -/
def places : Clause → List VarId
  | .pattern p => p.varIds
  | .service _ cs vs => placesAll cs ++ vs

/-- The places that clauses name. -/
def placesAll : List Clause → List VarId
  | [] => []
  | c :: cs => places c ++ placesAll cs

end

/-- The places of clauses are those of each clause. -/
theorem mem_placesAll {cs : List Clause} {id : VarId} :
    id ∈ placesAll cs ↔ ∃ c ∈ cs, id ∈ c.places := by
  induction cs with
  | nil => simp [placesAll]
  | cons c cs ih => simp [placesAll, ih]

mutual

/-- A clause is written exactly if all its places are machine words. -/
theorem exact : ∀ c : Clause, (∀ id ∈ c.places, id < wordSize) → c.toJson.Exact
  | .pattern p, h => ⟨Pattern.exact h, trivial⟩
  | .service e cs vs, h => by
      have hlisted : Json.ExactItems (vs.map .num) :=
        Json.exactItems_map fun id hid => h id (List.mem_append_right _ hid)
      exact ⟨⟨trivial, exactAll cs fun id hid => h id (List.mem_append_left _ hid), hlisted,
        trivial⟩, trivial⟩

/-- So are clauses. -/
theorem exactAll : ∀ cs : List Clause, (∀ id ∈ placesAll cs, id < wordSize) →
    Json.ExactItems (toJsonAll cs)
  | [], _ => trivial
  | c :: cs, h => ⟨exact c fun id hid => h id (List.mem_append_left _ hid),
      exactAll cs fun id hid => h id (List.mem_append_right _ hid)⟩

end

end Clause

/-! ### The nesting of a snapshot -/

/-- A constant nests three levels at most: that of a literal with a datatype. -/
theorem Constant.levels_le (c : Constant) : c.toJson.levels ≤ 3 := by
  cases c with
  | resource r => cases r <;> simp [toJson, Resource.toJson, levels, levelsFields]
  | literal l =>
      obtain ⟨value, kind⟩ := l
      cases kind <;> simp [toJson, Literal.toJson, LiteralKind.toJson, levels, levelsFields]

/-- A text takes no level of nesting. -/
theorem Json.levels_ofText? (o : Option String) : (Json.ofText? o).levels = 0 := by
  cases o <;> rfl

/-- A variable nests four levels at most: that of its value or of its two sources. -/
theorem Variable.levels_le (v : Variable) : v.toJson.levels ≤ 4 := by
  obtain ⟨uri, name, label, comment, bound, origin⟩ := v
  have hbound : (bound.elim .null Constant.toJson : Json).levels ≤ 3 := by
    cases bound with
    | none => simp [levels]
    | some c => exact c.levels_le
  have horigin : origin.toJson.levels ≤ 3 := by
    cases origin <;> simp [VariableOrigin.toJson, JoinSource.toJson, levels, levelsFields]
  simp only [toJson, levels, levelsFields, Json.levels_ofText?]
  omega

namespace Clause

mutual

/-- How deep the blocks of a clause are nested. -/
def blockDepth : Clause → Nat
  | .pattern _ => 0
  | .service _ cs _ => blockDepthAll cs + 1

/-- How deep the blocks of the deepest clause are nested. -/
def blockDepthAll : List Clause → Nat
  | [] => 0
  | c :: cs => max (blockDepth c) (blockDepthAll cs)

end

/-- A pattern nests four levels at most: that of a literal with a datatype in a slot. -/
theorem levels_pattern_le (p : Pattern) : p.toJson.levels ≤ 4 := by
  have hslot : ∀ t : Term, t.toJson.levels ≤ 3 := by
    intro t
    cases t with
    | var id => simp [Term.toJson, levels, levelsFields]
    | resource r => exact Constant.levels_le (.resource r)
    | literal l => exact Constant.levels_le (.literal l)
  have hsubject := hslot p.subject
  have hpredicate := hslot p.predicate
  have hobject := hslot p.object
  simp only [Pattern.toJson, levels, levelsFields]
  omega

mutual

/-- A block takes three levels, and what is innermost five at most. -/
theorem levels_bounds : ∀ c : Clause,
    3 * c.blockDepth ≤ c.toJson.levels ∧ c.toJson.levels ≤ 3 * c.blockDepth + 5
  | .pattern p => by
      have hpattern := levels_pattern_le p
      simp only [toJson, levels, levelsFields, blockDepth]
      omega
  | .service e cs vs => by
      have hinner := levelsAll_bounds cs
      have hlisted : levelsAll (vs.map .num) ≤ 0 :=
        Json.levelsAll_map_le fun _ _ => Nat.le_refl 0
      simp only [toJson, levels, levelsFields, blockDepth]
      omega

/-- Clauses take three levels for every block inside a block, and five at most for what is
innermost. -/
theorem levelsAll_bounds : ∀ cs : List Clause,
    3 * blockDepthAll cs ≤ levelsAll (toJsonAll cs) ∧
      levelsAll (toJsonAll cs) ≤ 3 * blockDepthAll cs + 5
  | [] => by simp [blockDepthAll, toJsonAll, levelsAll]
  | c :: cs => by
      have hfirst := levels_bounds c
      have hothers := levelsAll_bounds cs
      simp only [blockDepthAll, toJsonAll, levelsAll]
      omega

end

end Clause

namespace Query

/-- How deep the blocks of the body are nested. -/
def blockDepth (q : Query) : Nat := Clause.blockDepthAll q.clauses

/-- The places that a query names in its result columns, its clauses and its order keys. -/
def places (q : Query) : List VarId :=
  q.projections ++ Clause.placesAll q.clauses ++ q.order.map OrderKey.variableId

/-- A query whose places are machine words and whose endpoints are a set. -/
structure Storable (q : Query) : Prop where
  places_lt : ∀ id ∈ q.places, id < wordSize
  endpoints_nodup : q.endpoints.Nodup

/-- A query that can be stored is written exactly. -/
theorem Storable.exact {q : Query} (h : q.Storable) : q.toJson.Exact := by
  have hplaces := h.places_lt
  simp only [places, List.mem_append] at hplaces
  have htable : Json.ExactFields (q.table.entries.map fun e => (e.1, e.2.toJson)) :=
    Json.exactFields_map fun e _ => e.2.exact
  have hprojections : Json.ExactItems (q.projections.map .num) :=
    Json.exactItems_map fun id hid => hplaces id (Or.inl (Or.inl hid))
  have hclauses : Json.ExactItems (Clause.toJsonAll q.clauses) :=
    Clause.exactAll q.clauses fun id hid => hplaces id (Or.inl (Or.inr hid))
  have horder : Json.ExactItems (q.order.map OrderKey.toJson) := by
    refine Json.exactItems_map fun k hk => ⟨?_, ?_, trivial⟩
    · cases k.direction <;> exact trivial
    · exact hplaces k.variableId (Or.inr (List.mem_map_of_mem hk))
  have hendpoints : Json.ExactItems (q.endpoints.map .str) :=
    Json.exactItems_map fun _ _ => trivial
  cases hinstance : q.instanceId <;>
    simp [toJson, hinstance, Json.Exact, Json.ExactFields, Json.exact_ofText?, htable,
      hprojections, hclauses, horder, hendpoints]

/-- The body of a query takes two levels, and the rest of it six at most. -/
theorem levels_bounds (q : Query) :
    levelsAll (Clause.toJsonAll q.clauses) + 2 ≤ q.toJson.levels ∧
      q.toJson.levels ≤ max 6 (levelsAll (Clause.toJsonAll q.clauses) + 2) := by
  have htable : levelsFields (q.table.entries.map fun e => (e.1, e.2.toJson)) ≤ 4 :=
    Json.levelsFields_map_le fun e _ => e.2.levels_le
  have hprojections : levelsAll (q.projections.map .num) ≤ 0 :=
    Json.levelsAll_map_le fun _ _ => Nat.le_refl 0
  have horder : levelsAll (q.order.map OrderKey.toJson) ≤ 1 := by
    refine Json.levelsAll_map_le fun k _ => ?_
    cases hdirection : k.direction <;>
      simp [OrderKey.toJson, OrderKey.directionToJson, hdirection, levels, levelsFields]
  have hendpoints : levelsAll (q.endpoints.map .str) ≤ 0 :=
    Json.levelsAll_map_le fun _ _ => Nat.le_refl 0
  cases hinstance : q.instanceId <;>
    simp only [toJson, hinstance, levels, levelsFields, Json.levels_ofText?, List.cons_append,
      List.nil_append] <;> omega

/-- The snapshot of a query is read back as the query, unless its JSON nests too deep. -/
theorem restore?_eq_ite {q : Query} (h : q.Storable) :
    restore? q.snapshot = if q.toJson.levels ≤ Json.nesting then some q else none := by
  rw [restore?, snapshot, Json.read?_text h.exact]
  exact decodes h.endpoints_nodup Json.nesting

/-- Blocks that are nested forty-two deep are nested too deep for a reader. -/
theorem nesting_lt_levels {q : Query} (h : 42 ≤ q.blockDepth) :
    Json.nesting < q.toJson.levels := by
  have hquery := levels_bounds q
  have hbody := Clause.levelsAll_bounds q.clauses
  rw [blockDepth] at h
  rw [Json.nesting]
  omega

/-- **A snapshot restores the query**, in every field, exactly if its JSON nests no deeper than a
reader follows; a deeper one is refused.  So blocks may be nested forty deep in any query, and
in none forty-two deep. -/
theorem snapshot_restores {q : Query} (h : q.Storable) :
    restore? q.snapshot = (if q.toJson.levels ≤ Json.nesting then some q else none) ∧
      (q.blockDepth ≤ 40 → restore? q.snapshot = some q) ∧
      (42 ≤ q.blockDepth → restore? q.snapshot = none) := by
  have hread := restore?_eq_ite h
  refine ⟨hread, ?_, ?_⟩
  · intro hshallow
    have hquery := levels_bounds q
    have hbody := Clause.levelsAll_bounds q.clauses
    rw [blockDepth] at hshallow
    rw [hread, if_pos (by rw [Json.nesting]; omega)]
  · intro hdeep
    rw [hread, if_neg (Nat.not_le_of_lt (nesting_lt_levels hdeep))]

/-- A query with a block, a value, a joined variable, an instance and two endpoints. -/
def storedQuery : Query where
  uri := "urn:people"
  label := some "People"
  table := .ofList [
    ("id", { uri := "urn:people;var=id", name := "id",
             origin := .joined ⟨"urn:a", "id"⟩ ⟨"urn:b", "who"⟩ }),
    ("name", { uri := "urn:people;var=name", name := "name", comment := some "\"given\"\n",
               bound := some (.literal ⟨"Ada", .tagged "en"⟩) })]
  projections := [1, 0]
  clauses := [.service "urn:e"
    [.pattern ⟨.var 0, .resource (.iri "urn:name"), .var 1⟩, .service "urn:f" [] [3]] [0, 1]]
  order := [⟨.descending, wordSize - 1⟩]
  endpoints := ["urn:f", "urn:e"]
  activeEndpoint := some "urn:f"
  instanceId := some "7"

/-- The example has everything that a snapshot can hold, and comes back from it. -/
theorem snapshot_restores_stored :
    storedQuery.Storable ∧ storedQuery.blockDepth ≤ 40 ∧
      restore? storedQuery.snapshot = some storedQuery :=
  have hstorable : storedQuery.Storable := ⟨by decide, by decide⟩
  have hshallow : storedQuery.blockDepth ≤ 40 := by decide
  ⟨hstorable, hshallow, (snapshot_restores hstorable).2.1 hshallow⟩

/-- Empty blocks inside one another. -/
def nestedBlocks : Nat → List Clause
  | 0 => []
  | n + 1 => [.service "urn:e" (nestedBlocks n) []]

/-- Empty blocks name no places. -/
theorem placesAll_nestedBlocks (n : Nat) : Clause.placesAll (nestedBlocks n) = [] := by
  induction n with
  | zero => rfl
  | succ n ih => simp [nestedBlocks, Clause.placesAll, Clause.places, ih]

/-- The nested blocks are as deep as their number. -/
theorem blockDepthAll_nestedBlocks (n : Nat) : Clause.blockDepthAll (nestedBlocks n) = n := by
  induction n with
  | zero => rfl
  | succ n ih => simp [nestedBlocks, Clause.blockDepthAll, Clause.blockDepth, ih]

/-- A query with blocks that are nested too deep. -/
def nestedQuery : Query where
  uri := "urn:q"
  clauses := nestedBlocks 42

/-- The snapshot of a query with deep blocks is refused. -/
theorem snapshot_refused :
    nestedQuery.Storable ∧ restore? nestedQuery.snapshot = none := by
  have hstorable : nestedQuery.Storable := by
    refine ⟨?_, List.nodup_nil⟩
    simp [places, nestedQuery, placesAll_nestedBlocks]
  have hdeep : 42 ≤ nestedQuery.blockDepth := (blockDepthAll_nestedBlocks 42).ge
  refine ⟨hstorable, ?_⟩
  rw [restore?_eq_ite hstorable, if_neg (Nat.not_le_of_lt (nesting_lt_levels hdeep))]

end Query

end SparqlCompose
