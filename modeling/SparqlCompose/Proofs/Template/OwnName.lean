import Mathlib.Data.List.Nodup
import SparqlCompose.Proofs.FreshName
import SparqlCompose.Query.Template

/-!
# The variables of a template's own

A template chooses a name for a base when the base first comes up, and keeps it.  What is chosen
is kept in a table.  One choice leaves the names of the table pairwise different and different
from those of the query (`Chosen.freshName`), and it leaves the names in their places
(`lookup_freshName_of_lookup`); so does any run of choices (`Chosen.choose`, `lookup_choose`).
`Template.ownName` is the name that a base has in the end, and with that it had it all along.
-/

namespace SparqlCompose.Template

/-- The base of a segment that stands for a variable of the template's own. -/
def Segment.base? : Segment → Option String
  | .fresh base => some base
  | _ => none

/-- The bases of the variables of the template's own, in order. -/
def bases (m : Template) : List String := m.segments.filterMap Segment.base?

/-- The table of names when some bases have come up one after the other. -/
def choose (q : Query) (names : FreshNames) (bases : List String) : FreshNames :=
  bases.foldl (fun names base => (freshName q names base).2) names

/-- The name of the template's own variable for a base. -/
def ownName (m : Template) (q : Query) (base : String) : String :=
  (freshName q (choose q [] m.bases) base).1

variable {q : Query} {names : FreshNames} {base name : String}

/-! ### One choice -/

/-- A name that was chosen before is taken again. -/
theorem freshName_of_lookup (h : names.lookup base = some name) :
    freshName q names base = (name, names) := by
  rw [freshName, h]

/-- The chosen name is in the table from then on. -/
theorem lookup_freshName (q : Query) (names : FreshNames) (base : String) :
    (freshName q names base).2.lookup base = some (freshName q names base).1 := by
  unfold freshName
  split
  · assumption
  · exact List.lookup_cons_self

/-- A choice leaves the names of other bases alone, and those chosen before. -/
theorem lookup_freshName_of_lookup (h : names.lookup base = some name) (other : String) :
    (freshName q names other).2.lookup base = some name := by
  unfold freshName
  split
  · exact h
  · next hnone =>
      have hne : (base == other) = false := by
        rw [beq_eq_false_iff_ne]
        rintro rfl
        rw [h] at hnone
        cases hnone
      rw [List.lookup_cons, hne]
      exact h

/-- The names of the table are pairwise different, and each was made for its base to be none of
the names of the query. -/
structure Chosen (q : Query) (names : FreshNames) : Prop where
  nodup : (names.map Prod.snd).Nodup
  made : ∀ e ∈ names, ∃ taken, e.2 = uniqueName e.1 (q.table.keys ++ taken)

/-- Before the first choice there are no names. -/
theorem Chosen.nil (q : Query) : Chosen q [] := ⟨List.nodup_nil, by simp⟩

/-- What one choice preserves. -/
theorem Chosen.freshName (h : Chosen q names) (base : String) :
    Chosen q (freshName q names base).2 := by
  unfold Template.freshName
  split
  · exact h
  · have hnew := uniqueName_not_mem base (q.table.keys ++ names.map Prod.snd)
    rw [List.mem_append, not_or] at hnew
    exact ⟨List.nodup_cons.mpr ⟨hnew.2, h.nodup⟩,
      List.forall_mem_cons.mpr ⟨⟨_, rfl⟩, h.made⟩⟩

/-! ### Runs of choices -/

/-- The bases are chosen for one after the other. -/
theorem choose_cons (q : Query) (names : FreshNames) (base : String) (rest : List String) :
    choose q names (base :: rest) = choose q (freshName q names base).2 rest := rfl

/-- What a run of choices preserves. -/
theorem Chosen.choose (h : Chosen q names) (bases : List String) :
    Chosen q (choose q names bases) := by
  induction bases generalizing names with
  | nil => exact h
  | cons base bases ih => exact ih (h.freshName base)

/-- Once chosen a name stays. -/
theorem lookup_choose (h : names.lookup base = some name) (bases : List String) :
    (choose q names bases).lookup base = some name := by
  induction bases generalizing names with
  | nil => exact h
  | cons other bases ih => exact ih (lookup_freshName_of_lookup h other)

/-- A base that comes up has in the end the name that it was given. -/
theorem freshName_choose_cons (q : Query) (names : FreshNames) (base : String)
    (rest : List String) :
    (freshName q (choose q names (base :: rest)) base).1 = (freshName q names base).1 := by
  have hkept := lookup_choose (q := q) (lookup_freshName q names base) rest
  rw [choose_cons, freshName_of_lookup hkept]

/-- Each base has a name in the end. -/
theorem exists_lookup_choose {bases : List String} (h : base ∈ bases) (names : FreshNames) :
    ∃ name, (choose q names bases).lookup base = some name := by
  induction bases generalizing names with
  | nil => cases h
  | cons other bases ih =>
      rcases List.mem_cons.mp h with rfl | h
      · exact ⟨_, lookup_choose (lookup_freshName q names base) bases⟩
      · exact ih h _

/-! ### Names in the end -/

variable {m : Template}

/-- What is looked up in a table is in it. -/
theorem mem_of_lookup (h : names.lookup base = some name) : (base, name) ∈ names := by
  obtain ⟨before, after, rfl, -⟩ := List.lookup_eq_some_iff.mp h
  simp

/-- The name for a base is made from the base, to be none of the names of the query. -/
theorem ownName_eq_uniqueName (m : Template) (q : Query) (base : String) :
    ∃ taken, m.ownName q base = uniqueName base (q.table.keys ++ taken) :=
  (((Chosen.nil q).choose m.bases).freshName base).made _
    (mem_of_lookup (lookup_freshName q (choose q [] m.bases) base))

/-- The query has no variable under the name. -/
theorem ownName_not_mem (m : Template) (q : Query) (base : String) :
    m.ownName q base ∉ q.table.keys := by
  obtain ⟨taken, hname⟩ := ownName_eq_uniqueName m q base
  rw [hname]
  exact fun hmem => uniqueName_not_mem base _ (List.mem_append_left taken hmem)

/-- It is in the table that the template has in the end. -/
theorem mem_choose_ownName (q : Query) (h : base ∈ m.bases) :
    (base, m.ownName q base) ∈ choose q [] m.bases := by
  obtain ⟨name, hname⟩ := exists_lookup_choose (q := q) h []
  rw [ownName, freshName_of_lookup hname]
  exact mem_of_lookup hname

/-- Different bases of the template have different names. -/
theorem ownName_inj {base' : String} (h : base ∈ m.bases) (h' : base' ∈ m.bases) :
    m.ownName q base = m.ownName q base' ↔ base = base' := by
  constructor
  · intro heq
    have hentry := List.inj_on_of_nodup_map ((Chosen.nil q).choose m.bases).nodup
      (mem_choose_ownName q h) (mem_choose_ownName q h') heq
    exact (Prod.mk.inj hentry).1
  · rintro rfl
    rfl

end SparqlCompose.Template
