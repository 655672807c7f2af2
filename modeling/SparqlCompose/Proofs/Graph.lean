import Mathlib
import SparqlCompose.Graph.Basic
import SparqlCompose.Proofs.Clause

/-!
# Laws of graphs

A graph that is filled from a list answers every lookup from that list: the objects of a subject
under a predicate are those of the list, each once (`Graph.objects_ofList`), and the oldest of them
is the first of the list (`Graph.object?_ofList`).
-/

namespace SparqlCompose

namespace Graph

variable {g : Graph} {t : Triple}

/-! ### Filling a graph -/

/-- A triple is in the graph when its object is a value of its predicate at its subject. -/
theorem contains_iff : g.contains t = true ↔ t.object ∈ g.objects t.subject t.predicate := by
  simp [contains]

/-- Adding a triple that is there changes nothing. -/
theorem add_of_contains (h : g.contains t = true) : g.add t = g := by
  simp [add, insert, h]

/-- A triple that is added is the last value of its predicate at its subject, and touches no other
value. -/
theorem objects_add (g : Graph) (t : Triple) (s : Resource) (p : String) :
    (g.add t).objects s p =
      if t.subject = s ∧ t.predicate = p then appendNew (g.objects s p) t.object
      else g.objects s p := by
  by_cases hmem : g.contains t = true
  · rw [add_of_contains hmem]
    split
    · next hkey =>
        obtain ⟨rfl, rfl⟩ := hkey
        rw [appendNew, if_pos (contains_iff.mp hmem)]
    · rfl
  · have hnew : t.object ∉ g.objects t.subject t.predicate := mt contains_iff.mpr hmem
    have hindex : (g.add t).objectIndex = g.objectIndex.insert (t.subject, t.predicate)
        ((g.objectIndex.getD (t.subject, t.predicate) #[]).push t.object) := by
      simp [add, insert, hmem]
    have hkey : ((t.subject, t.predicate) == (s, p)) = true ↔
        t.subject = s ∧ t.predicate = p := by simp
    rw [objects, hindex, Std.HashMap.getD_insert]
    by_cases h : t.subject = s ∧ t.predicate = p
    · rw [if_pos (hkey.mpr h), if_pos h]
      obtain ⟨rfl, rfl⟩ := h
      rw [appendNew, if_neg hnew, Array.toList_push]
      rfl
    · rw [if_neg (mt hkey.mp h), if_neg h]
      rfl

/-- What a triple says about its subject. -/
def fact (t : Triple) : String × Constant := (t.predicate, t.object)

/-- What is said about a subject in a list of triples. -/
def about (s : Resource) (ts : List Triple) : List (String × Constant) :=
  (ts.filter fun t => t.subject = s).map fact

/-- The objects under a predicate in what is said about a subject. -/
def valuesOf (p : String) (facts : List (String × Constant)) : List Constant :=
  (facts.filter fun f => f.1 = p).map Prod.snd

@[simp]
theorem valuesOf_nil (p : String) : valuesOf p [] = [] := rfl

/-- The values of a predicate, fact by fact. -/
@[simp]
theorem valuesOf_cons (p : String) (f : String × Constant) (fs : List (String × Constant)) :
    valuesOf p (f :: fs) = if f.1 = p then f.2 :: valuesOf p fs else valuesOf p fs := by
  by_cases h : f.1 = p <;> simp [valuesOf, h]

/-- The values in two lists of facts follow one another. -/
@[simp]
theorem valuesOf_append (p : String) (fs gs : List (String × Constant)) :
    valuesOf p (fs ++ gs) = valuesOf p fs ++ valuesOf p gs := by
  simp [valuesOf]

/-- The facts about a resource in two lists of triples follow one another. -/
theorem about_append (s : Resource) (ts us : List Triple) :
    about s (ts ++ us) = about s ts ++ about s us := by
  simp [about]

/-- Triples of one subject are all about it. -/
theorem about_of_forall {s : Resource} {ts : List Triple} (h : ∀ t ∈ ts, t.subject = s) :
    about s ts = ts.map fact := by
  rw [about, List.filter_eq_self.mpr (by simpa using h)]

/-- Triples of other subjects say nothing about a resource. -/
theorem about_eq_nil {s : Resource} {ts : List Triple} (h : ∀ t ∈ ts, t.subject ≠ s) :
    about s ts = [] := by
  rw [about, List.filter_eq_nil_iff.mpr (by simpa using h), List.map_nil]

/-- Adding triples puts their values behind those that a predicate has, each once. -/
theorem objects_addAll (ts : List Triple) (s : Resource) (p : String) :
    (g.addAll ts).objects s p =
      (valuesOf p (about s ts)).foldl appendNew (g.objects s p) := by
  induction ts generalizing g with
  | nil => rfl
  | cons t ts ih =>
      have hstep : (g.addAll (t :: ts)).objects s p = ((g.add t).addAll ts).objects s p := rfl
      rw [hstep, ih, objects_add]
      by_cases hs : t.subject = s
      · by_cases hp : t.predicate = p
        · simp [about, fact, valuesOf, hs, hp]
        · simp [about, fact, valuesOf, hs, hp]
      · simp [about, hs]

/-- **Lookups answer from the list.** -/
theorem objects_ofList (ts : List Triple) (s : Resource) (p : String) :
    (ofList ts).objects s p = (valuesOf p (about s ts)).foldl appendNew [] := by
  have hempty : (∅ : Graph).objects s p = [] := by
    change ((∅ : Std.HashMap (Resource × String) (Array Constant)).getD (s, p) #[]).toList = []
    rw [Std.HashMap.getD_empty]
  rw [ofList, objects_addAll, hempty]

/-- In a graph of triples a lookup finds the first value in their order. -/
theorem object?_ofList (ts : List Triple) (s : Resource) (p : String) :
    (ofList ts).object? s p = (valuesOf p (about s ts)).head? := by
  have hhead : ∀ l acc : List Constant,
      (l.foldl appendNew acc).head? = acc.head?.or l.head? := by
    intro l
    induction l with
    | nil => simp
    | cons a l ih =>
        intro acc
        rw [List.foldl_cons, ih, appendNew]
        split
        · next hmem =>
            obtain ⟨b, rest, rfl⟩ := List.exists_cons_of_ne_nil (List.ne_nil_of_mem hmem)
            rfl
        · cases acc <;> simp
  rw [object?, objects_ofList, hhead]
  rfl

end Graph

end SparqlCompose
