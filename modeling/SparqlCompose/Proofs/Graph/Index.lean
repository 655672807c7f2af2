import Mathlib
import SparqlCompose.Proofs.Graph

/-!
# The indices of a graph

A graph is written by inserting single triples and by taking over lists of them (`Graph.Write`).
However it has been written, its indices say what its triples say, in the same order
(`Graph.Indexed`), and its triples are those that were written, each at the place where it came
first (`Graph.indexed_afterWrites`).

An insertion that succeeds writes one entry in each index and one triple (`Graph.views_of_insert`),
so it keeps the two in step; what is refused changes nothing.  For a graph that is filled from a
list this says what it holds (`Graph.toList_ofList`) and what it finds (`Graph.mem_objects_ofList`).
-/

namespace SparqlCompose.Graph

variable {g g' : Graph} {t : Triple}

/-! ### One insertion -/

/-- A triple is refused exactly when the graph contains it. -/
theorem insert_eq_error_iff {e : DuplicateTriple} :
    g.insert t = .error e ↔ g.contains t = true ∧ e = ⟨t⟩ := by
  unfold insert
  split
  · next h => simp [h, eq_comm]
  · next h => simp [h]

/-- An insertion that succeeds puts the triple after the others, and its object and its subject
after the others of their entries. -/
theorem views_of_insert (h : g.insert t = .ok g') :
    g'.toList = g.toList ++ [t] ∧
      (∀ s p, g'.objects s p =
        if t.subject = s ∧ t.predicate = p then g.objects s p ++ [t.object]
        else g.objects s p) ∧
      ∀ p o, g'.subjects p o =
        if t.predicate = p ∧ t.object = o then g.subjects p o ++ [t.subject]
        else g.subjects p o := by
  unfold insert at h
  split at h
  · cases h
  · obtain rfl := Except.ok.inj h
    refine ⟨by simp [toList], fun s p => ?_, fun p o => ?_⟩
    · rw [objects, Std.HashMap.getD_insert]
      simp only [beq_iff_eq, Prod.mk.injEq]
      split
      · next hkey =>
          obtain ⟨rfl, rfl⟩ := hkey
          rw [Array.toList_push]
          rfl
      · rfl
    · rw [subjects, Std.HashMap.getD_insert]
      simp only [beq_iff_eq, Prod.mk.injEq]
      split
      · next hkey =>
          obtain ⟨rfl, rfl⟩ := hkey
          rw [Array.toList_push]
          rfl
      · rfl

/-- An insertion that succeeds adds the triple. -/
theorem add_of_insert (h : g.insert t = .ok g') : g.add t = g' := by
  rw [add, h]

/-! ### Indices in step with the triples -/

/-- The indices of the graph list what its triples say, each triple once and in their order. -/
structure Indexed (g : Graph) : Prop where
  nodup : g.toList.Nodup
  objects : ∀ s p, g.objects s p =
    (g.toList.filter fun t => t.subject = s ∧ t.predicate = p).map Triple.object
  subjects : ∀ p o, g.subjects p o =
    (g.toList.filter fun t => t.predicate = p ∧ t.object = o).map Triple.subject

namespace Indexed

/-- The indices of an empty graph list nothing. -/
theorem empty : Indexed ∅ where
  nodup := List.nodup_nil
  objects := fun s p => objects_ofList [] s p
  subjects := fun p o => by
    change ((∅ : Std.HashMap (String × Constant) (Array Resource)).getD (p, o) #[]).toList = []
    rw [Std.HashMap.getD_empty]

/-- A graph contains the triples that it lists. -/
theorem contains_iff (h : g.Indexed) : g.contains t = true ↔ t ∈ g.toList := by
  rw [Graph.contains_iff, h.objects]
  constructor
  · intro hmem
    obtain ⟨u, hu, hobject⟩ := List.mem_map.mp hmem
    obtain ⟨hu, hkey⟩ := List.mem_filter.mp hu
    obtain ⟨hsubject, hpredicate⟩ := of_decide_eq_true hkey
    cases u
    cases t
    simp_all
  · intro hmem
    exact List.mem_map_of_mem (List.mem_filter.mpr ⟨hmem, by simp⟩)

/-- A view of the triples with one key repeats nothing when the key and the view determine the
triple. -/
theorem nodup_view (h : g.Indexed) {α : Type} {key : Triple → Prop} [DecidablePred key]
    {view : Triple → α} (hinj : ∀ t u, key t → key u → view t = view u → t = u) :
    ((g.toList.filter key).map view).Nodup := by
  refine (h.nodup.filter _).map_on ?_
  intro t ht u hu heq
  exact hinj t u (of_decide_eq_true (List.mem_filter.mp ht).2)
    (of_decide_eq_true (List.mem_filter.mp hu).2) heq

/-- No object is listed twice. -/
theorem nodup_objects (h : g.Indexed) (s : Resource) (p : String) : (g.objects s p).Nodup := by
  rw [h.objects]
  refine h.nodup_view ?_
  intro t u ht hu hobject
  cases t
  cases u
  simp_all

/-- No subject is listed twice. -/
theorem nodup_subjects (h : g.Indexed) (p : String) (o : Constant) : (g.subjects p o).Nodup := by
  rw [h.subjects]
  refine h.nodup_view ?_
  intro t u ht hu hsubject
  cases t
  cases u
  simp_all

/-- A triple that could be inserted was not there. -/
theorem notMem_of_insert (h : g.Indexed) (hok : g.insert t = .ok g') : t ∉ g.toList := by
  intro hmem
  have hrefused := insert_eq_error_iff.mpr ⟨h.contains_iff.mpr hmem, rfl⟩
  rw [hok] at hrefused
  cases hrefused

/-- **An insertion keeps the indices in step.** -/
theorem insert (h : g.Indexed) (hok : g.insert t = .ok g') : g'.Indexed := by
  obtain ⟨htriples, hobjects, hsubjects⟩ := views_of_insert hok
  refine ⟨?_, fun s p => ?_, fun p o => ?_⟩
  · rw [htriples, ← List.concat_eq_append]
    exact h.nodup.concat (h.notMem_of_insert hok)
  · rw [hobjects, htriples, List.filter_append, List.map_append, ← h.objects]
    split
    · next hkey => simp [hkey]
    · next hkey => simp [hkey]
  · rw [hsubjects, htriples, List.filter_append, List.map_append, ← h.subjects]
    split
    · next hkey => simp [hkey]
    · next hkey => simp [hkey]

/-- A triple goes after the others unless it is among them. -/
theorem add (h : g.Indexed) (t : Triple) :
    (g.add t).Indexed ∧ (g.add t).toList = appendNew g.toList t := by
  cases hok : g.insert t with
  | ok g' =>
      rw [add_of_insert hok, appendNew, if_neg (h.notMem_of_insert hok)]
      exact ⟨h.insert hok, (views_of_insert hok).1⟩
  | error e =>
      have hold := (insert_eq_error_iff.mp hok).1
      rw [add_of_contains hold, appendNew, if_pos (h.contains_iff.mp hold)]
      exact ⟨h, rfl⟩

/-- Adding triples keeps the indices right, and lists those that are new, each once. -/
theorem addAll (h : g.Indexed) (ts : List Triple) :
    (g.addAll ts).Indexed ∧ (g.addAll ts).toList = ts.foldl appendNew g.toList := by
  induction ts generalizing g with
  | nil => exact ⟨h, rfl⟩
  | cons t ts ih =>
      obtain ⟨hadd, htriples⟩ := h.add t
      have hall := ih hadd
      rw [htriples] at hall
      exact hall

end Indexed

/-! ### Graphs of a list -/

/-- The indices of a graph of triples are right. -/
theorem indexed_ofList (ts : List Triple) : (ofList ts).Indexed := (Indexed.empty.addAll ts).1

/-- **The triples of a graph are those of the list, each once.** -/
theorem toList_ofList (ts : List Triple) : (ofList ts).toList = ts.foldl appendNew [] :=
  (Indexed.empty.addAll ts).2

/-- The index of a graph lists the objects of its triples. -/
def Consistent (g : Graph) : Prop :=
  ∀ s p o, o ∈ g.objects s p ↔ ⟨s, p, o⟩ ∈ g.toList

/-- So its index lists the objects of its triples. -/
theorem consistent_ofList (ts : List Triple) : (ofList ts).Consistent := by
  intro s p o
  exact (contains_iff (t := ⟨s, p, o⟩)).symm.trans (indexed_ofList ts).contains_iff

/-- An object is listed exactly when there is a triple with it. -/
theorem mem_objects_ofList {ts : List Triple} {s : Resource} {p : String} {o : Constant} :
    o ∈ (ofList ts).objects s p ↔ ⟨s, p, o⟩ ∈ ts := by
  rw [consistent_ofList ts s p o, toList_ofList, mem_foldl_appendNew]
  simp

/-- The only value of a subject under a predicate is the one that is found. -/
theorem object?_ofList_eq_some {ts : List Triple} {s : Resource} {p : String}
    (hsingle : ∀ o o', ⟨s, p, o⟩ ∈ ts → ⟨s, p, o'⟩ ∈ ts → o = o') {o : Constant} :
    (ofList ts).object? s p = some o ↔ ⟨s, p, o⟩ ∈ ts := by
  constructor
  · intro h
    exact mem_objects_ofList.mp (List.mem_of_mem_head? h)
  · intro h
    have hmem := mem_objects_ofList.mpr h
    obtain ⟨o', rest, hobjects⟩ := List.exists_cons_of_ne_nil (List.ne_nil_of_mem hmem)
    have hmem' : o' ∈ (ofList ts).objects s p := by
      rw [hobjects]
      exact List.mem_cons_self
    rw [object?, hobjects, hsingle o o' h (mem_objects_ofList.mp hmem')]
    rfl

/-! ### Any number of writes -/

/-- A write to a graph. -/
inductive Write where
  | insert (t : Triple)
  | extend (ts : List Triple)

/-- The triples of a write. -/
def Write.triples : Write → List Triple
  | .insert t => [t]
  | .extend ts => ts

/-- The graph after a write.  Triples that it contains are passed over. -/
def write (g : Graph) : Write → Graph
  | .insert t => g.add t
  | .extend ts => g.addAll ts

/-- The graph that an empty one becomes by some writes. -/
def afterWrites (ws : List Write) : Graph := ws.foldl write ∅

/-- It does not matter how the triples are spread over writes. -/
theorem afterWrites_eq_ofList (ws : List Write) :
    afterWrites ws = ofList (ws.flatMap Write.triples) := by
  have hwrite : ∀ (g : Graph) (w : Write), g.write w = w.triples.foldl Graph.add g := by
    intro g w
    cases w <;> rfl
  rw [afterWrites, ofList, addAll, List.foldl_flatMap]
  exact congrArg (fun f => List.foldl f ∅ ws) (funext fun g => funext fun w => hwrite g w)

/-- Adding elements one by one drops all but the first of equal ones. -/
theorem foldl_appendNew_eq_eraseDups {α : Type} [DecidableEq α] (l : List α) :
    l.foldl appendNew [] = l.eraseDups := by
  induction l using List.reverseRecOn with
  | nil => rfl
  | append_singleton l a ih =>
      rw [List.foldl_append, ih, List.eraseDups_append, List.foldl_cons, List.foldl_nil, appendNew]
      by_cases h : a ∈ l <;> simp [h, List.removeAll, List.eraseDups_cons]

/-- **The indices of a graph agree with its triples.**  After any writes the triples are those that
were written, each at its first place; the graph contains these and no others; and the two indices
list what they say, in their order and without repetition.  A triple that is there is refused, and
to write it again changes nothing. -/
theorem indexed_afterWrites (ws : List Write) :
    (afterWrites ws).toList = (ws.flatMap Write.triples).eraseDups ∧
      (∀ t, (afterWrites ws).contains t = true ↔ t ∈ (afterWrites ws).toList) ∧
      (afterWrites ws).Indexed ∧
      (∀ s p, ((afterWrites ws).objects s p).Nodup) ∧
      (∀ p o, ((afterWrites ws).subjects p o).Nodup) ∧
      ∀ t ∈ (afterWrites ws).toList, (afterWrites ws).insert t = .error ⟨t⟩ ∧
        afterWrites (ws ++ [.insert t]) = afterWrites ws := by
  have hindexed : (afterWrites ws).Indexed := by
    rw [afterWrites_eq_ofList]
    exact indexed_ofList _
  refine ⟨?_, fun t => hindexed.contains_iff, hindexed, hindexed.nodup_objects,
    hindexed.nodup_subjects, fun t ht => ?_⟩
  · rw [afterWrites_eq_ofList, toList_ofList, foldl_appendNew_eq_eraseDups]
  · have hcontains := hindexed.contains_iff.mpr ht
    refine ⟨insert_eq_error_iff.mpr ⟨hcontains, rfl⟩, ?_⟩
    rw [afterWrites, List.foldl_append]
    exact add_of_contains hcontains

/-- A triple that is written three times, once by itself, is there once. -/
theorem indexed_afterWrites_repeated :
    let t : Triple := ⟨.iri "urn:s", "urn:p", .iri "urn:o"⟩
    let u : Triple := ⟨.iri "urn:s", "urn:p", .iri "urn:other"⟩
    let ws : List Write := [.insert t, .extend [u, t], .insert t]
    (afterWrites ws).toList = [t, u] ∧ t ∈ (afterWrites ws).toList ∧
      (afterWrites ws).insert t = .error ⟨t⟩ := by
  intro t u ws
  obtain ⟨htriples, -, -, -, -, hagain⟩ := indexed_afterWrites ws
  have hlist : (afterWrites ws).toList = [t, u] := by
    rw [htriples]
    decide +kernel
  have hmem : t ∈ (afterWrites ws).toList := by
    rw [hlist]
    exact List.mem_cons_self
  exact ⟨hlist, hmem, (hagain t hmem).1⟩

end SparqlCompose.Graph
