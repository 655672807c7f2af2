import Mathlib
import SparqlCompose.Proofs.Canvas.Reachable

/-!
# Calls on a canvas are atomic

A call on a reachable canvas succeeds or changes nothing (`Canvas.Reachable.atomic`).  Most calls
check first and write once.  Three of them go on after their first write, and for these it has to
be shown that what is left cannot fail: the columns of an edited instance can be listed, and a
pattern whose slots were checked can be placed, whatever its slots have in common.
-/

namespace SparqlCompose

namespace CanvasM

variable {α β : Type} {text : String} {c : Canvas}

/-- The step succeeds on the canvas, or leaves it as it is. -/
def AtomicAt (m : CanvasM α) (c : Canvas) : Prop :=
  ∀ e c', m.result c = (.error e, c') → c' = c

/-- The step succeeds on the canvas. -/
def Succeeds (m : CanvasM α) (c : Canvas) : Prop := ∃ a c', m.result c = (.ok a, c')

/-- A step that succeeds has no failure to answer for. -/
theorem Succeeds.atomicAt {m : CanvasM α} (h : m.Succeeds c) : m.AtomicAt c := by
  intro e c' hfail
  obtain ⟨a, c'', hok⟩ := h
  rw [hok] at hfail
  cases hfail

/-- A step that fails on the canvas as it was has changed nothing. -/
theorem atomicAt_of_error {m : CanvasM α} {e : CanvasError} (h : m.result c = (.error e, c)) :
    m.AtomicAt c := by
  intro e' c' hfail
  rw [h] at hfail
  exact (congrArg Prod.snd hfail).symm

/-- Whether a step is atomic does not depend on what is made of its answer. -/
theorem AtomicAt.congr {m : CanvasM α} {m' : CanvasM β} (f : α → β) (h : m.AtomicAt c)
    (hresult : m'.result c = ((m.result c).1.map f, (m.result c).2)) : m'.AtomicAt c := by
  intro e c' hfail
  rw [hresult] at hfail
  obtain ⟨hanswer, hcanvas⟩ := Prod.mk.inj hfail
  cases hm : (m.result c).1 with
  | ok a =>
      rw [hm] at hanswer
      cases hanswer
  | error e' => exact h e' c' (Prod.ext hm hcanvas)

/-- A chain is atomic if its first link is, and the rest cannot fail after it. -/
theorem AtomicAt.bind {m : CanvasM α} {f : α → CanvasM β} (hm : m.AtomicAt c)
    (hf : ∀ a c', m.result c = (.ok a, c') → (f a).Succeeds c') : (m >>= f).AtomicAt c := by
  intro e c' hfail
  cases hresult : m.result c with
  | mk r d =>
      cases r with
      | error e' =>
          rw [result_bind_error hresult] at hfail
          exact hm e' c' (hresult.trans (by rw [(Prod.mk.inj hfail).2]))
      | ok a =>
          rw [result_bind_ok hresult] at hfail
          exact absurd ((hf a d hresult).atomicAt e c' hfail) (by
            obtain ⟨b, d', hok⟩ := hf a d hresult
            rw [hok] at hfail
            cases hfail)

/-- A chain succeeds if its links do. -/
theorem Succeeds.bind {m : CanvasM α} {f : α → CanvasM β} {a : α} {c' : Canvas}
    (hm : m.result c = (.ok a, c')) (hf : (f a).Succeeds c') : (m >>= f).Succeeds c := by
  obtain ⟨b, c'', hok⟩ := hf
  exact ⟨b, c'', (result_bind_ok hm).trans hok⟩

/-- An edit writes only when nothing can fail any more. -/
theorem edit_atomicAt (f : Query → Except QueryError (α × Query)) : (edit text f).AtomicAt c := by
  intro e c' hfail
  rw [result_edit] at hfail
  cases hfind : c.find text with
  | error e' =>
      rw [hfind] at hfail
      exact (congrArg Prod.snd hfail).symm
  | ok found =>
      obtain ⟨i, q⟩ := found
      cases hf : f q with
      | error e' =>
          simp only [hfind, hf] at hfail
          exact (congrArg Prod.snd hfail).symm
      | ok changed =>
          simp only [hfind, hf] at hfail
          cases hfail

/-- An edit that succeeds writes the instance and nothing else. -/
theorem result_edit_ok {f : Query → Except QueryError (α × Query)} {i : InstanceId} {q q' : Query}
    {a : α} (hfind : c.find text = .ok (i, q)) (hf : f q = .ok (a, q')) :
    (edit text f).result c = (.ok a, c.setSlot i (some q')) := by
  simp only [result_edit, hfind, hf]

/-- The columns of an indexed instance can be listed. -/
theorem result_emitColumns {i : InstanceId} {q : Query} (hfind : c.find text = .ok (i, q))
    (hq : q.Indexed) : (emitColumns text).result c =
      (.ok (), c.noted (.projectionChanged text (q.projections.map q.nameAt))) := by
  unfold emitColumns
  rw [result_bind, result_find, hfind]
  simp only [result_bind, result_ofQuery, hq.projectedNames_eq]
  rfl

/-- The columns of a well-formed instance can be listed and told. -/
theorem emitColumns_succeeds {i : InstanceId} {q : Query} (hfind : c.find text = .ok (i, q))
    (hq : q.WellFormed) : (emitColumns text).Succeeds c :=
  ⟨_, _, result_emitColumns hfind hq.indexed⟩

end CanvasM

/-! ### A pattern whose slots were checked -/

namespace PendingSlot

/-- The slot can be used in the query: its place is in the table, or its name is legal. -/
def Fits (q : Query) : PendingSlot → Prop
  | .term t => ∀ id, t = .var id → id < q.table.size
  | .new name => isVarName name = true

variable {q q' : Query} {s : PendingSlot}

/-- A slot that holds a variable of the query fits it. -/
theorem fits_var {id : VarId} (h : id < q.table.size) : (term (.var id)).Fits q := by
  intro id' hid'
  obtain rfl := Term.var.inj hid'
  exact h

/-- A slot goes on fitting a query that grows. -/
theorem Fits.mono (h : s.Fits q) (hsize : q.table.size ≤ q'.table.size) : s.Fits q' := by
  cases s with
  | term t => exact fun id hid => Nat.lt_of_lt_of_le (h id hid) hsize
  | new name => exact h

/-- What a typed slot means in a query fits that query. -/
theorem fits_of_ofInput {prefixes : PrefixTable} {i : SlotInput}
    (hok : ofInput q prefixes i = .ok s) : s.Fits q := by
  cases i with
  | literal l =>
      obtain rfl := Except.ok.inj hok
      intro id hid
      cases hid
  | resource text =>
      obtain ⟨r, -, rfl⟩ := Outcome.map_eq_ok.mp hok
      intro id hid
      cases hid
  | «variable» name =>
      simp only [ofInput] at hok
      split at hok
      · next id hid =>
          obtain rfl := Except.ok.inj hok
          exact fits_var (Query.idOf?_lt hid)
      · split at hok
        · next hname =>
            obtain rfl := Except.ok.inj hok
            exact hname
        · cases hok

/-- A slot that fits is realized.  Its term fits the query that comes out, and it is a literal only
if the slot was one. -/
theorem Fits.realize (h : s.Fits q) (hq : q.WellFormed) :
    ∃ t q', s.realize q = .ok (t, q') ∧ q'.WellFormed ∧ q.table.size ≤ q'.table.size ∧
      (term t).Fits q' ∧ (t.isLiteral = true → s = .term t) := by
  cases s with
  | term t => exact ⟨t, q, rfl, hq, Nat.le_refl _, h, fun _ => rfl⟩
  | new name =>
      cases hid : q.idOf? name with
      | some id =>
          refine ⟨.var id, q, by simp only [PendingSlot.realize, hid], hq, Nat.le_refl _,
            fits_var (Query.idOf?_lt hid), ?_⟩
          intro hliteral
          cases hliteral
      | none =>
          have hnew : name ∉ q.table.keys := OrderedMap.idxOf?_eq_none_iff.mp hid
          have hadd : q.addVariable { uri := q.variableUri name, name := name } = .ok _ :=
            Query.addVariable_eq_ok.mpr ⟨h, hnew, rfl, rfl⟩
          obtain ⟨hq', hlt, hsize⟩ := hq.addVariable (by simp) hadd
          refine ⟨.var q.table.size, _, ?_, hq', hsize, fits_var hlt, ?_⟩
          · simp only [PendingSlot.realize, hid, hadd]
            rfl
          · intro hliteral
            cases hliteral

/-- A slot that was typed as no literal stands for none. -/
theorem not_literal_of_ofInput {prefixes : PrefixTable} {i : SlotInput} {t : Term}
    (hi : i.isLiteral = false) (hok : ofInput q prefixes i = .ok (.term t)) :
    t.isLiteral = false := by
  cases i with
  | literal l => cases hi
  | resource text =>
      obtain ⟨r, -, hr⟩ := Outcome.map_eq_ok.mp hok
      obtain rfl := PendingSlot.term.inj hr
      rfl
  | «variable» name =>
      simp only [ofInput] at hok
      split at hok
      · obtain rfl := PendingSlot.term.inj (Except.ok.inj hok)
        rfl
      · split at hok <;> cases hok

/-- Terms that fit a query make a pattern that can be pushed, if no literal is in the way. -/
theorem Fits.pushPattern {u v w : Term} (hsubject : u.isLiteral = false)
    (hpredicate : v.isLiteral = false) (hu : (term u).Fits q) (hv : (term v).Fits q)
    (hw : (term w).Fits q) :
    ∃ q', (do return ((), ← q.pushClause (.pattern (← Pattern.make u v w))) :
      Except QueryError (Unit × Query)) = .ok ((), q') := by
  have hmake : Pattern.make u v w = .ok ⟨u, v, w⟩ :=
    Pattern.make_eq_ok.mpr ⟨hsubject, hpredicate, rfl⟩
  have hvars : ∀ id ∈ (Clause.pattern ⟨u, v, w⟩).varIds, id < q.table.size := by
    intro id hid
    obtain ⟨pattern, hpattern, hmem⟩ := Clause.mem_varIds.mp hid
    obtain rfl := List.mem_singleton.mp hpattern
    obtain ⟨t, ht, hvar⟩ := List.mem_filterMap.mp hmem
    have hterm : t = .var id := by
      cases t with
      | var j => exact congrArg Term.var (Option.some.inj hvar)
      | resource r => cases hvar
      | literal l => cases hvar
    simp only [List.mem_cons, List.not_mem_nil, or_false] at ht
    rcases ht with rfl | rfl | rfl
    · exact hu id hterm
    · exact hv id hterm
    · exact hw id hterm
  have hpush : q.pushClause (.pattern ⟨u, v, w⟩) =
      .ok { q with clauses := q.clauses ++ [.pattern ⟨u, v, w⟩] } := by
    refine Query.pushClause_eq_ok.mpr ⟨Query.checkClause_eq_ok.mpr ⟨hvars, ?_⟩, rfl⟩
    intro e cs vs habsurd
    cases habsurd
  refine ⟨{ q with clauses := q.clauses ++ [.pattern ⟨u, v, w⟩] }, ?_⟩
  rw [hmake, Outcome.ok_bind, hpush]
  rfl

end PendingSlot

namespace CanvasM

variable {text : String} {c : Canvas}

/-- A slot that was checked is realized, also when the instance has grown since, and the instance
is there afterwards. -/
theorem result_realize {input : SlotInput} {prefixes : PrefixTable} {s : PendingSlot}
    {i : InstanceId} {q₀ q : Query} (hinput : PendingSlot.ofInput q₀ prefixes input = .ok s)
    (hsize₀ : q₀.table.size ≤ q.table.size) (hfind : c.find text = .ok (i, q))
    (hq : q.WellFormed) :
    ∃ t c' q', (edit text s.realize).result c = (.ok t, c') ∧ c'.find text = .ok (i, q') ∧
      q'.WellFormed ∧ q.table.size ≤ q'.table.size ∧ (PendingSlot.term t).Fits q' ∧
      (input.isLiteral = false → t.isLiteral = false) := by
  have hs := (PendingSlot.fits_of_ofInput hinput).mono hsize₀
  obtain ⟨t, q', hrealize, hq', hsize, hfits, hliteral⟩ := hs.realize hq
  refine ⟨t, _, q', result_edit_ok hfind hrealize, Canvas.find_setSlot q' hfind, hq', hsize, hfits,
    ?_⟩
  intro hi
  by_contra ht
  obtain rfl := hliteral (by simpa using ht)
  exact ht (PendingSlot.not_literal_of_ofInput hi hinput)

/-- **A pattern whose slots were checked is placed.**  The instance may grow by a variable with
each slot, so the places of the earlier slots are still in the table when the pattern comes. -/
theorem placePattern_succeeds {s p o : SlotInput} {q : Query} {s' p' o' : PendingSlot}
    (h : Checked text s p o c q s' p' o') (hq : q.WellFormed) :
    (placePattern text s' p' o').Succeeds c := by
  obtain ⟨i, hfind⟩ := h.found
  obtain ⟨u, c₁, q₁, hu, hfind₁, hq₁, hsize₁, hufits, husubject⟩ :=
    result_realize h.subjectSlot (Nat.le_refl _) hfind hq
  obtain ⟨v, c₂, q₂, hv, hfind₂, hq₂, hsize₂, hvfits, hvpredicate⟩ :=
    result_realize h.predicateSlot hsize₁ hfind₁ hq₁
  obtain ⟨w, c₃, q₃, hw, hfind₃, hq₃, hsize₃, hwfits, -⟩ :=
    result_realize h.objectSlot (Nat.le_trans hsize₁ hsize₂) hfind₂ hq₂
  obtain ⟨q₄, hpush⟩ := PendingSlot.Fits.pushPattern (husubject h.subject)
    (hvpredicate h.predicate) (hufits.mono (Nat.le_trans hsize₂ hsize₃)) (hvfits.mono hsize₃) hwfits
  refine Succeeds.bind hu (Succeeds.bind hv (Succeeds.bind hw ?_))
  exact Succeeds.bind (result_edit_ok hfind₃ hpush) ⟨_, _, result_emit _ _⟩

/-! ### All calls -/

/-- Adding a variable is atomic: the check comes before the write. -/
theorem addVariable_atomicAt (base : String) : (addVariable text base).AtomicAt c := by
  refine AtomicAt.bind (edit_atomicAt _) fun v c' _ => ?_
  exact Succeeds.bind (result_emit _ c') ⟨_, _, result_pure _ _⟩

/-- Setting a value is atomic. -/
theorem setBound_atomicAt (name : String) (value : Option Constant) :
    (setBound text name value).AtomicAt c := by
  refine AtomicAt.bind (edit_atomicAt _) fun a c' _ => ?_
  exact Succeeds.bind (result_emit _ c') ⟨_, _, result_pure _ _⟩

/-- Changing whether a column is shown is atomic, since the columns can be listed afterwards. -/
theorem project_atomicAt (hc : ∀ i q, c.find text = .ok (i, q) → q.WellFormed) (name : String)
    (on : Bool) : (project text name on).AtomicAt c := by
  refine AtomicAt.bind (edit_atomicAt _) fun changed c' hok => ?_
  cases changed with
  | false => exact ⟨_, _, result_pure _ _⟩
  | true =>
      obtain ⟨i, q, q', hfind, hq', rfl⟩ := edit_eq_ok hok
      refine emitColumns_succeeds (Canvas.find_setSlot q' hfind) ?_
      obtain ⟨id, -, hrest⟩ := Outcome.bind_eq_ok.mp hq'
      cases on with
      | true => exact ((hc i q hfind).project hrest).1
      | false =>
          obtain rfl : (q.unproject id).2 = q' := congrArg Prod.snd (Outcome.pure_eq_ok.mp hrest)
          exact (hc i q hfind).unproject id

/-- Putting the columns into an order is atomic, for the same reason. -/
theorem reorder_atomicAt (hc : ∀ i q, c.find text = .ok (i, q) → q.WellFormed)
    (order : List String) : (reorder text order).AtomicAt c := by
  refine AtomicAt.bind (edit_atomicAt _) fun _ c' hok => ?_
  obtain ⟨i, q, q', hfind, hq', rfl⟩ := edit_eq_ok hok
  refine emitColumns_succeeds (Canvas.find_setSlot q' hfind) ?_
  obtain ⟨r, hr, hpure⟩ := Outcome.bind_eq_ok.mp hq'
  obtain ⟨-, rfl⟩ := Prod.mk.inj (Outcome.pure_eq_ok.mp hpure)
  exact ((hc i q hfind).reorder hr).1

/-- Adding a pattern is atomic: once its slots are checked, nothing fails. -/
theorem addPattern_atomicAt (hc : ∀ i q, c.find text = .ok (i, q) → q.WellFormed)
    (s p o : SlotInput) : (addPattern text s p o).AtomicAt c := by
  rcases checked_or_error text s p o c with ⟨e, hfail⟩ | ⟨q, s', p', o', hchecked⟩
  · exact atomicAt_of_error hfail
  · obtain ⟨i, hfind⟩ := hchecked.found
    obtain ⟨a, c', hok⟩ := placePattern_succeeds hchecked (hc i q hfind)
    exact Succeeds.atomicAt ⟨a, c', hchecked.result_addPattern.trans hok⟩

/-- Destroying an instance is atomic. -/
theorem destroy_atomicAt (text : String) (c : Canvas) : (destroy text).AtomicAt c := by
  have hresult := result_destroy text c
  cases hfind : c.find text with
  | error e => exact atomicAt_of_error (hresult.trans (by rw [hfind]))
  | ok found => exact Succeeds.atomicAt ⟨_, _, hresult.trans (by rw [hfind])⟩

/-- Making an instance is atomic. -/
theorem instantiate_atomicAt (uri : String) (endpoint : Option String) (c : Canvas) :
    (instantiate uri endpoint).AtomicAt c := by
  rcases result_instantiate uri endpoint c with ⟨e, hfail⟩ | ⟨q, -, hok⟩
  · exact atomicAt_of_error hfail
  · exact Succeeds.atomicAt ⟨_, _, hok.trans (result_insert uri _ c)⟩

/-- A join is atomic: both instances stay until there is a composite. -/
theorem join_atomicAt (left right : String × String) (mode : JoinMode) (c : Canvas) :
    (join left right mode).AtomicAt c := by
  rcases result_join left right mode c with
    ⟨e, hfail⟩ | ⟨i, l, j, r, q, used, cleared, -, -, -, -, -, hok⟩
  · exact atomicAt_of_error hfail
  · exact Succeeds.atomicAt ⟨_, _, hok⟩

end CanvasM

namespace Canvas

/-- A call succeeds or changes nothing, and a pattern whose slots pass the checks of `addPattern`
is added: nothing fails after the first write. -/
structure Atomic (c : Canvas) : Prop where
  unchanged : ∀ (k : Call) (e : CanvasError) (c' : Canvas),
    k.perform.result c = (.error e, c') → c' = c
  placed : ∀ (text : String) (s p o : SlotInput) (q : Query) (s' p' o' : PendingSlot),
    CanvasM.Checked text s p o c q s' p' o' →
      ∃ c', (CanvasM.addPattern text s p o).result c = (.ok (), c') ∧
        (CanvasM.placePattern text s' p' o').result c = (.ok (), c')

/-- **Calls on a reachable canvas are atomic.**  The case split is on the call; that the instances
are well formed is what the calls need that write more than once. -/
theorem Reachable.atomic {c : Canvas} (h : c.Reachable) : c.Atomic := by
  have hwellFormed : ∀ text i q, c.find text = .ok (i, q) → q.WellFormed :=
    fun text i q hfind => (h.sound.built i q (find_eq_ok.mp hfind).2).wellFormed
  constructor
  · intro k
    change k.perform.AtomicAt c
    cases k with
    | insert source q =>
        exact (CanvasM.Succeeds.atomicAt ⟨_, _, CanvasM.result_insert source q c⟩).congr some
          (CanvasM.result_map _ _ c)
    | instantiate source endpoint =>
        exact (CanvasM.instantiate_atomicAt source endpoint c).congr _ (CanvasM.result_map _ _ c)
    | destroy text => exact (CanvasM.destroy_atomicAt text c).congr _ (CanvasM.result_map _ _ c)
    | join left right mode =>
        exact (CanvasM.join_atomicAt left right mode c).congr _ (CanvasM.result_map _ _ c)
    | addVariable text base =>
        exact (CanvasM.addVariable_atomicAt base).congr _ (CanvasM.result_map _ _ c)
    | project text name on =>
        exact (CanvasM.project_atomicAt (hwellFormed text) name on).congr _
          (CanvasM.result_map _ _ c)
    | addPattern text s p o =>
        exact (CanvasM.addPattern_atomicAt (hwellFormed text) s p o).congr _
          (CanvasM.result_map _ _ c)
    | reorder text order =>
        exact (CanvasM.reorder_atomicAt (hwellFormed text) order).congr _
          (CanvasM.result_map _ _ c)
    | setBound text name value =>
        exact (CanvasM.setBound_atomicAt name value).congr _ (CanvasM.result_map _ _ c)
    | furnish prefixes queries endpoints concepts =>
        exact CanvasM.Succeeds.atomicAt ⟨_, _, rfl⟩
  · intro text s p o q s' p' o' hchecked
    obtain ⟨i, hfind⟩ := hchecked.found
    obtain ⟨a, c', hok⟩ := CanvasM.placePattern_succeeds hchecked (hwellFormed text i q hfind)
    exact ⟨c', hchecked.result_addPattern.trans hok, hok⟩

/-- A pattern with two new variables and a prefix that nobody knows leaves the canvas as it was. -/
theorem citizensCanvas_atomic :
    citizensCanvas.Reachable ∧ citizensCanvas.Atomic ∧
      ∃ e, (Call.addPattern "e5a5f51b05a2dc8b_0" (.variable "friend") (.variable "knows")
        (.resource "none:such")).perform.result citizensCanvas = (.error e, citizensCanvas) := by
  have hatomic := Reachable.atomic citizensCanvas_reachable
  refine ⟨citizensCanvas_reachable, hatomic, .name (.unknown "none"), ?_⟩
  have hanswer : ((Call.addPattern "e5a5f51b05a2dc8b_0" (.variable "friend") (.variable "knows")
      (.resource "none:such")).perform.result citizensCanvas).1 =
        .error (.name (.unknown "none")) := by decide +kernel
  exact Prod.ext hanswer (hatomic.unchanged _ _ _ (Prod.ext hanswer rfl))

end Canvas

end SparqlCompose
