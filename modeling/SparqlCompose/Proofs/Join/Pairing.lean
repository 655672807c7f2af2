import Mathlib
import SparqlCompose.Proofs.WellFormed
import SparqlCompose.Query.Join

/-!
# Two queries to be joined

A `Pairing` holds two queries and the place of the variable to join on in each.  It says which
variables of the right query become variables of the left one: the two joined variables become
one, and so do the first variable on either side with a common URI (`Pairing.Unified`).  The
first half of a join copies the variables of the left query; each keeps its place
(`Pairing.WellFormed.addLeft_eq_ok`).
-/

namespace SparqlCompose

/-- The URI of the variable at a place. -/
def Query.uriAt? (q : Query) (id : Nat) : Option String := (q.table.at? id).map Variable.uri

/-- Two queries with the place of the variable to join on in each. -/
structure Pairing where
  left : Query
  right : Query
  leftId : Nat
  rightId : Nat

namespace Pairing

variable {p : Pairing}

/-- Both queries are well formed and have a variable at their place. -/
structure WellFormed (p : Pairing) : Prop where
  left : p.left.WellFormed
  right : p.right.WellFormed
  leftId_lt : p.leftId < p.left.table.size
  rightId_lt : p.rightId < p.right.table.size

/-- The variables at the place `a` of the left query and at the place `b` of the right one are
identified by their URI: neither is joined on, and each is the first with the URI, where the
right variable that is joined on does not count. -/
structure Unified (p : Pairing) (a b : Nat) : Prop where
  left_ne : a ≠ p.leftId
  right_ne : b ≠ p.rightId
  sameUri : ∃ uri, p.left.uriAt? a = some uri ∧ p.right.uriAt? b = some uri
  firstLeft : ∀ a' < a, p.left.uriAt? a' ≠ p.left.uriAt? a
  firstRight : ∀ b' < b, b' ≠ p.rightId → p.right.uriAt? b' ≠ p.right.uriAt? b

/-- A variable of the right query is identified with one of the left query at most. -/
theorem Unified.left_unique {a a' b : Nat} (h : p.Unified a b) (h' : p.Unified a' b) :
    a = a' := by
  obtain ⟨uri, ha, hb⟩ := h.sameUri
  obtain ⟨uri', ha', hb'⟩ := h'.sameUri
  obtain rfl := Option.some.inj (hb.symm.trans hb')
  rcases Nat.lt_trichotomy a a' with hlt | heq | hlt
  · exact absurd (ha.trans ha'.symm) (h'.firstLeft a hlt)
  · exact heq
  · exact absurd (ha'.trans ha.symm) (h.firstLeft a' hlt)

/-- A variable of the left query is identified with one of the right query at most. -/
theorem Unified.right_unique {a b b' : Nat} (h : p.Unified a b) (h' : p.Unified a b') :
    b = b' := by
  obtain ⟨uri, ha, hb⟩ := h.sameUri
  obtain ⟨uri', ha', hb'⟩ := h'.sameUri
  obtain rfl := Option.some.inj (ha.symm.trans ha')
  rcases Nat.lt_trichotomy b b' with hlt | heq | hlt
  · exact absurd (hb.trans hb'.symm) (h'.firstRight b hlt h.right_ne)
  · exact heq
  · exact absurd (hb'.trans hb.symm) (h.firstRight b' hlt h'.right_ne)

/-- A left variable that is unified with a right one is in its table. -/
theorem Unified.left_lt {a b : Nat} (h : p.Unified a b) : a < p.left.table.size := by
  obtain ⟨uri, ha, -⟩ := h.sameUri
  obtain ⟨v, hv, -⟩ := Option.map_eq_some_iff.mp ha
  exact OrderedMap.lt_size_of_at? hv

/-- So is the right one. -/
theorem Unified.right_lt {a b : Nat} (h : p.Unified a b) : b < p.right.table.size := by
  obtain ⟨uri, -, hb⟩ := h.sameUri
  obtain ⟨w, hw, -⟩ := Option.map_eq_some_iff.mp hb
  exact OrderedMap.lt_size_of_at? hw

/-- The variable of the composite at the place `a` of the left variable `v`. -/
def leftCopy (p : Pairing) (a : Nat) (v : Variable) : Variable :=
  if a = p.leftId then
    (p.right.table.at? p.rightId).elim v (Query.sharedVariable p.left p.right v)
  else v

/-- A left variable is copied with its name. -/
theorem leftCopy_name (a : Nat) (v : Variable) : (p.leftCopy a v).name = v.name := by
  unfold leftCopy
  split
  · cases p.right.table.at? p.rightId <;> rfl
  · rfl

/-- It is copied with its URI. -/
theorem leftCopy_uri (a : Nat) (v : Variable) : (p.leftCopy a v).uri = v.uri := by
  unfold leftCopy
  split
  · cases p.right.table.at? p.rightId <;> rfl
  · rfl

/-- A legal variable is copied as a legal one, also when it takes its value from the right. -/
theorem WellFormed.leftCopy_legal (h : p.WellFormed) {a : Nat} {v : Variable} (hv : v.Legal) :
    (p.leftCopy a v).Legal := by
  obtain ⟨w, hw⟩ := OrderedMap.exists_at? h.rightId_lt
  refine ⟨by rw [leftCopy_name]; exact hv.name, ?_⟩
  intro c hc
  unfold leftCopy at hc
  rw [hw] at hc
  split at hc
  · cases hbound : v.bound with
    | some d =>
        exact hv.bound c (by simpa [Query.sharedVariable, hbound] using hc)
    | none =>
        exact (h.right.table.legal_of_at? hw).bound c
          (by simpa [Query.sharedVariable, hbound] using hc)
  · exact hv.bound c hc

/-- One turn of the loop copies one variable. -/
theorem WellFormed.addLeft_cons (h : p.WellFormed) (id : Nat) (v : Variable)
    (vs : List Variable) (q : Query) :
    Query.addLeft p.left p.right p.leftId p.rightId id (v :: vs) q =
      q.addVariable (p.leftCopy id v) >>= fun r =>
        Query.addLeft p.left p.right p.leftId p.rightId (id + 1) vs r.2 >>= fun s =>
          pure (r.1 :: s.1, s.2) := by
  obtain ⟨w, hw⟩ := OrderedMap.exists_at? h.rightId_lt
  rw [Query.addLeft, Query.var_eq_ok.mpr hw, leftCopy, hw]
  split <;> rfl

/-- The variables of the left query are copied to the end of the table, one after the other. -/
theorem WellFormed.addLeft_eq_ok (h : p.WellFormed) {vs : List Variable} {q : Query}
    {t : OrderedMap Variable} (ht : SoundTable t) (hlegal : ∀ v ∈ vs, v.Legal)
    (hnew : (t.keys ++ vs.map Variable.name).Nodup) :
    ∃ u : OrderedMap Variable,
      Query.addLeft p.left p.right p.leftId p.rightId t.size vs { q with table := t } =
          .ok (List.range' t.size vs.length, { q with table := u }) ∧
        SoundTable u ∧ u.size = t.size + vs.length ∧
        (∀ i v, t.at? i = some v → u.at? i = some v) ∧
        ∀ i v, vs[i]? = some v → u.at? (t.size + i) = some (p.leftCopy (t.size + i) v) := by
  induction vs generalizing t with
  | nil => exact ⟨t, rfl, ht, rfl, fun _ _ hv => hv, by simp⟩
  | cons v vs ih =>
      have hkey : (p.leftCopy t.size v).name ∉ t.keys := by
        rw [leftCopy_name]
        intro hmem
        exact (List.nodup_append.mp hnew).2.2 _ hmem _ (by simp) rfl
      obtain ⟨t', hadded, hadd⟩ := Query.exists_addVariable (q := { q with table := t }) ht
        (h.leftCopy_legal (hlegal v List.mem_cons_self)) hkey
      have hsize : t'.size = t.size + 1 := hadded.size
      have hnew' : (t'.keys ++ vs.map Variable.name).Nodup := by
        rw [hadded.keys, leftCopy_name]
        simpa using hnew
      obtain ⟨u, hu, hsound, husize, hkeep, hrest⟩ := ih hadded.sound
        (fun x hx => hlegal x (List.mem_cons_of_mem _ hx)) hnew'
      refine ⟨u, ?_, hsound, ?_, fun i x hx => hkeep i x (hadded.kept i x hx), ?_⟩
      · rw [hsize] at hu
        rw [h.addLeft_cons, hadd, Outcome.ok_bind, hu]
        rfl
      · rw [husize, hsize, List.length_cons]
        omega
      · intro i x hx
        cases i with
        | zero =>
            obtain rfl := Option.some.inj hx
            exact hkeep _ _ hadded.last
        | succ i =>
            have hlast := hrest i x hx
            rwa [hsize, Nat.add_assoc, Nat.add_comm 1 i] at hlast

end Pairing

end SparqlCompose
