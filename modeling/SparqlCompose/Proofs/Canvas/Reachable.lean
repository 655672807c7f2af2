import Mathlib
import SparqlCompose.Proofs.Canvas.Call

/-!
# Reachable canvases

A canvas is *reachable* when it comes about by lawful calls from one that holds catalogs of built
queries and no instances (`Canvas.Reachable`).  Every reachable canvas is sound
(`Canvas.Reachable.sound`): its instances can be built, and each is scoped to its id.  That an
instance is scoped says more than which id it carries: the URI of every variable ends in the
instance mark and the id, and so will those that the instance gets later.
-/

namespace SparqlCompose

/-! ### Scoped queries -/

/-- What stands at the end of the URI of a variable of an instance. -/
def scopeEnd (id : String) : List Char := Variable.instanceMark ++ id.toList

/-- The query carries the id of an instance, and so do the URIs of its variables. -/
structure Query.Scoped (id : String) (q : Query) : Prop where
  instanceId : q.instanceId = some id
  uris : ∀ v ∈ q.table.values, scopeEnd id <:+ v.uri.toList

namespace Query

variable {id : String} {q q' : Query}

/-- A query that was scoped to an instance is scoped to it. -/
theorem scoped_scopeTo (q : Query) (id : String) : (q.scopeTo id).Scoped id where
  instanceId := rfl
  uris := by
    intro w hw
    obtain ⟨i, hi⟩ := List.getElem?_of_mem hw
    rw [← OrderedMap.at?_eq_getElem?, scopeTo, OrderedMap.at?_map] at hi
    obtain ⟨v, -, rfl⟩ := Option.map_eq_some_iff.mp hi
    refine ⟨beforeMark Variable.instanceMark v.uri.toList, ?_⟩
    simp [Variable.scopeTo, scopeEnd]

/-- A new variable of an instance gets a URI of the instance. -/
theorem Scoped.variableUri (h : q.Scoped id) (name : String) :
    scopeEnd id <:+ (q.variableUri name).toList := by
  refine ⟨(q.uri ++ ";var=" ++ name).toList, ?_⟩
  simp [Query.variableUri, h.instanceId, scopeEnd]

/-- Edits keep a query scoped. -/
theorem Scoped.continues {lawful : Prop} (h : q.Scoped id) (hq : q.Continues lawful q') :
    q'.Scoped id where
  instanceId := hq.instanceId.trans h.instanceId
  uris := by
    intro w hw
    rcases hq.uri_cases hw with ⟨v, hv, hwv⟩ | ⟨name, hname⟩
    · rw [hwv]
      exact h.uris v hv
    · rw [hname]
      exact h.variableUri name

end Query

namespace Canvas

/-! ### Reachability -/

/-- The canvases that come about by lawful calls, the catalogs at the start being of built
queries. -/
inductive Reachable : Canvas → Prop
  | start {prefixes : PrefixTable} {queries : QueryCatalog} {endpoints : EndpointCatalog}
      {concepts : ConceptList} (hqueries : ∀ q ∈ queries.values, q.Built) :
      Reachable { prefixes, queries, endpoints, concepts }
  | call {c : Canvas} {k : Call} (hc : Reachable c) (hk : k.Lawful) : Reachable (c.after k)

/-- What lawful calls keep of a canvas. -/
structure Sound (c : Canvas) : Prop where
  sourceHash : c.sourceHash = Sha256.shortHex
  /-- Slots are in the buckets of sources. -/
  hashed : ∀ i x, c.slot? i = some x → ∃ source, i.hash = Sha256.shortHex source
  catalog : ∀ q ∈ c.queries.values, q.Built
  built : ∀ i q, c.slot? i = some (some q) → q.Built
  isScoped : ∀ i q, c.slot? i = some (some q) → q.Scoped i.text

namespace Sound

variable {c c' : Canvas}

/-- The canvas has the slots of the other one, some of them perhaps empty now, and the
instances among them go on. -/
theorem of_slots (h : c.Sound) (hhash : c'.sourceHash = c.sourceHash)
    (hcatalog : ∀ q ∈ c'.queries.values, q.Built)
    (hslots : ∀ i x, c'.slot? i = some x → (c.slot? i).isSome ∧
      ∀ q, x = some q → q.Built ∧ q.Scoped i.text) : c'.Sound where
  sourceHash := hhash.trans h.sourceHash
  hashed := by
    intro i x hx
    obtain ⟨y, hy⟩ := Option.isSome_iff_exists.mp (hslots i x hx).1
    exact h.hashed i y hy
  catalog := hcatalog
  built := fun i q hq => ((hslots i (some q) hq).2 q rfl).1
  isScoped := fun i q hq => ((hslots i (some q) hq).2 q rfl).2

/-- A canvas with the same slots and hash, and with a catalog of built queries, is sound too. -/
theorem of_same (h : c.Sound) (hhash : c'.sourceHash = c.sourceHash)
    (hcatalog : ∀ q ∈ c'.queries.values, q.Built) (hslots : ∀ j, c'.slot? j = c.slot? j) :
    c'.Sound := by
  refine h.of_slots hhash hcatalog ?_
  intro i x hx
  rw [hslots] at hx
  refine ⟨by rw [hx]; rfl, ?_⟩
  rintro q rfl
  exact ⟨h.built i q hx, h.isScoped i q hx⟩

/-- A slot is emptied. -/
theorem clear (h : c.Sound) (i : InstanceId) : (c.setSlot i none).Sound := by
  refine h.of_slots (sourceHash_setSlot c i none) ?_ ?_
  · rw [queries_setSlot]
    exact h.catalog
  · intro j x hx
    rw [slot?_setSlot] at hx
    split at hx
    · next hji =>
        obtain ⟨y, hy, rfl⟩ := Option.map_eq_some_iff.mp hx
        rw [hji, hy]
        exact ⟨rfl, by simp⟩
    · refine ⟨by rw [hx]; rfl, ?_⟩
      rintro q rfl
      exact ⟨h.built j q hx, h.isScoped j q hx⟩

/-- A built query is put into a new slot. -/
theorem store (h : c.Sound) (source : String) {q : Query} (hq : q.Built) :
    (c.store source q).Sound where
  sourceHash := h.sourceHash
  hashed := by
    intro i x hx
    rw [slot?_store] at hx
    split at hx
    · next hi => exact ⟨source, by rw [hi, ← h.sourceHash]; rfl⟩
    · exact h.hashed i x hx
  catalog := h.catalog
  built := by
    intro i r hr
    rw [slot?_store] at hr
    split at hr
    · obtain rfl := Option.some.inj (Option.some.inj hr)
      exact hq.perform (c := .scopeTo _) trivial rfl
    · exact h.built i r hr
  isScoped := by
    intro i r hr
    rw [slot?_store] at hr
    split at hr
    · next hi =>
        obtain rfl := Option.some.inj (Option.some.inj hr)
        rw [hi]
        exact q.scoped_scopeTo _
    · exact h.isScoped i r hr

/-- What a lawful call puts under a source can be built. -/
theorem built_of_supplies (h : c.Sound) {k : Call} (hk : k.Lawful) {source : String} {q : Query}
    (hq : k.Supplies c source q) : q.Built := by
  cases k with
  | insert source' q' => exact hq.2 ▸ hk
  | instantiate source' endpoint =>
      obtain ⟨-, r, rfl, horigin⟩ := hq
      have hr : r.Built := by
        rcases horigin with ⟨concept, htemplate⟩ | hcatalog
        · exact .template htemplate
        · exact h.catalog r (List.mem_map_of_mem (OrderedMap.get?_eq_some_iff.mp hcatalog))
      cases endpoint with
      | none => exact hr
      | some e => exact hr.perform (c := .activate e) trivial rfl
  | _ => exact hq.elim

/-- A lawful change of the slots keeps a canvas sound, if the catalog is still one of built
queries.  The cases are what a call can do. -/
theorem change (h : c.Sound) {k : Call} (hk : k.Lawful) {issued retired : List String}
    (hchange : c.Change k c' issued retired) (hhash : c'.sourceHash = c.sourceHash)
    (hcatalog : ∀ q ∈ c'.queries.values, q.Built) : c'.Sound := by
  cases hchange with
  | idle hslots => exact h.of_same hhash hcatalog hslots
  | @edited text i q q' _ _ hq hcontinues hslots =>
      refine h.of_slots hhash hcatalog ?_
      intro j x hx
      rw [hslots] at hx
      split at hx
      · next hji =>
          obtain rfl := Option.some.inj hx
          rw [hji, hq]
          refine ⟨rfl, ?_⟩
          rintro r hr
          obtain rfl := Option.some.inj hr
          exact ⟨hcontinues.built hk (h.built i q hq), (h.isScoped i q hq).continues hcontinues⟩
      · refine ⟨by rw [hx]; rfl, ?_⟩
        rintro r rfl
        exact ⟨h.built j r hx, h.isScoped j r hx⟩
  | @stored source q hsupplies hslots =>
      exact (h.store source (h.built_of_supplies hk hsupplies)).of_same hhash hcatalog hslots
  | @destroyed text i q _ _ hslots =>
      exact (h.clear i).of_same (hhash.trans (sourceHash_setSlot c i none).symm) hcatalog hslots
  | @joined left right mode used i j l r q cleared _ _ hleft hright hjoin hcleared hslots =>
      have hq : q.Built := .join (h.built i l (find_eq_ok.mp hleft).2)
        (h.built j r (find_eq_ok.mp hright).2) hjoin
      have hcleared' : cleared.Sound := hcleared ▸ (h.clear i).clear j
      have hsame : cleared.sourceHash = c.sourceHash := hcleared'.sourceHash.trans h.sourceHash.symm
      exact (hcleared'.store q.uri hq).of_same (hhash.trans hsame.symm) hcatalog hslots

/-- A lawful call keeps a canvas sound. -/
theorem after (h : c.Sound) {k : Call} (hk : k.Lawful) : (c.after k).Sound := by
  obtain ⟨hhash, hqueries, hchange⟩ := c.effect k
  refine h.change hk hchange hhash ?_
  rcases hqueries with hsame | ⟨prefixes, endpoints, concepts, hfurnish⟩
  · rw [hsame]
    exact h.catalog
  · rw [hfurnish] at hk
    exact hk

end Sound

/-- **Every reachable canvas is sound.**  The induction is on the calls that lead to it. -/
theorem Reachable.sound {c : Canvas} (h : c.Reachable) : c.Sound := by
  induction h with
  | start hqueries =>
      have hempty : ∀ (c : Canvas) (i : InstanceId), c.buckets = ∅ → c.slot? i = none := by
        intro c i hc
        rw [slot?, hc]
        rfl
      refine ⟨rfl, ?_, hqueries, ?_, ?_⟩ <;> intro i x hx <;>
        · rw [hempty _ i rfl] at hx
          cases hx
  | call hc hk ih => exact ih.after hk

end Canvas

/-- The two example queries in a catalog, with an instance of each. -/
def citizensCanvas : Canvas :=
  ({ queries := .ofList [("urn:people", peopleQuery), ("urn:cities", citiesQuery)] } :
    Canvas).afterAll [.instantiate "urn:people" none, .instantiate "urn:cities" none]

/-- The canvas with an instance of each example query is reachable. -/
theorem citizensCanvas_reachable : citizensCanvas.Reachable := by
  refine .call (.call (.start ?_) trivial) trivial
  intro q hq
  have hvalues : (OrderedMap.ofList [("urn:people", peopleQuery), ("urn:cities", citiesQuery)] :
      QueryCatalog).values = [peopleQuery, citiesQuery] := rfl
  rw [hvalues, List.mem_cons, List.mem_singleton] at hq
  rcases hq with rfl | rfl
  · exact peopleQuery_built
  · exact citiesQuery_built

end SparqlCompose
