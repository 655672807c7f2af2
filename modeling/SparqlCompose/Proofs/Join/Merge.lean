import Mathlib
import SparqlCompose.Proofs.Join.Pairing

/-!
# Merging two variable tables

The second half of a join brings the variables of the right query into a table that holds those
of the left.  The loop keeps a list of the places that may not be given away again.  Its
invariant says what that list holds (`Pairing.Claims`) and where the variables so far stand
(`Pairing.Merging`): the joined variable at its partner, a unified one at the variable that it is
identified with, and any other behind all others, under a name that none of them has.
-/

namespace SparqlCompose

namespace Pairing

variable {p : Pairing}

/-- The variable at the place `b` of the right query stands at the place `i` of a composite
with the table `t`. -/
inductive Placed (p : Pairing) (t : OrderedMap Variable) (b i : Nat) : Prop
  | joined (hright : b = p.rightId) (hleft : i = p.leftId)
  | unified (h : p.Unified i b)
  | added {w : Variable} (hw : p.right.table.at? b = some w) (hright : b ≠ p.rightId)
      (hnone : ∀ a, ¬ p.Unified a b) (hbehind : p.left.table.size ≤ i)
      (hat : t.at? i = some { w with name := uniqueName w.name (t.keys.take i) })

/-- The table holds the variables of the left query and the first variables of the right one,
which stand at `places`, and no others. -/
structure Merging (p : Pairing) (t : OrderedMap Variable) (places : List Nat) : Prop where
  sound : SoundTable t
  size_le : p.left.table.size ≤ t.size
  left : ∀ a v, p.left.table.at? a = some v → t.at? a = some (p.leftCopy a v)
  placed : ∀ b i, places[b]? = some i → p.Placed t b i
  lt : ∀ i ∈ places, i < t.size
  nodup : places.Nodup
  cover : ∀ i < t.size, i < p.left.table.size ∨ i ∈ places

/-- The list holds the places of the left query that the first `done` variables of the right
query may have taken, that of the joined variable included. -/
def Claims (p : Pairing) (done : Nat) (claimed : List Nat) : Prop :=
  ∀ a, a ∈ claimed ↔ a = p.leftId ∨ ∃ b < done, p.Unified a b

/-- Two variables of the right query do not stand at the same variable of the left one. -/
theorem Placed.right_unique {t : OrderedMap Variable} {b b' i : Nat}
    (hi : i < p.left.table.size) (h : p.Placed t b i) (h' : p.Placed t b' i) : b = b' := by
  cases h with
  | joined hright hleft =>
      cases h' with
      | joined hright' hleft' => exact hright.trans hright'.symm
      | unified hunified => exact absurd hleft hunified.left_ne
      | added _ _ _ hbehind => omega
  | unified hunified =>
      cases h' with
      | joined hright' hleft' => exact absurd hleft' hunified.left_ne
      | unified hunified' => exact hunified.right_unique hunified'
      | added _ _ _ hbehind => omega
  | added _ _ _ hbehind => omega

/-- Adding an entry to the table does not move a variable. -/
theorem Placed.mono {t u : OrderedMap Variable} {v : Variable} {b i : Nat}
    (h : p.Placed t b i) (hi : i < t.size) (hadded : SoundTable.Added t v u) :
    p.Placed u b i := by
  cases h with
  | joined hright hleft => exact .joined hright hleft
  | unified hunified => exact .unified hunified
  | added hw hright hnone hbehind hat =>
      have htake : u.keys.take i = t.keys.take i := by
        rw [hadded.keys]
        exact List.take_append_of_le_length (by rw [OrderedMap.length_keys]; omega)
      refine .added hw hright hnone hbehind ?_
      rw [htake]
      exact hadded.kept _ _ hat

/-- The places of a list with one more at its end. -/
theorem getElem?_snoc_eq_some {places : List Nat} {i b j : Nat}
    (h : (places ++ [i])[b]? = some j) : places[b]? = some j ∨ b = places.length ∧ j = i := by
  rcases Nat.lt_or_ge b places.length with hb | hb
  · exact Or.inl (by rwa [List.getElem?_append_left hb] at h)
  · rw [List.getElem?_append_right hb, List.getElem?_singleton] at h
    split at h
    · next hlast => exact Or.inr ⟨by omega, (Option.some.inj h).symm⟩
    · cases h

namespace Merging

variable {t : OrderedMap Variable} {places : List Nat}

/-- Before the first variable of the right query the table holds the left ones. -/
theorem start (hsound : SoundTable t) (hsize : t.size = p.left.table.size)
    (hleft : ∀ a v, p.left.table.at? a = some v → t.at? a = some (p.leftCopy a v)) :
    p.Merging t [] where
  sound := hsound
  size_le := hsize.ge
  left := hleft
  placed := by simp
  lt := by simp
  nodup := List.nodup_nil
  cover := fun i hi => Or.inl (hsize ▸ hi)

/-- The next variable of the right query stands at a variable of the left one. -/
theorem identify (h : p.Merging t places) {i : Nat} (hi : i < p.left.table.size)
    (hplaced : p.Placed t places.length i) : p.Merging t (places ++ [i]) where
  sound := h.sound
  size_le := h.size_le
  left := h.left
  placed := by
    intro b j hj
    rcases getElem?_snoc_eq_some hj with hold | ⟨rfl, rfl⟩
    · exact h.placed b j hold
    · exact hplaced
  lt := by
    intro j hj
    rcases List.mem_append.mp hj with hj | hj
    · exact h.lt j hj
    · rw [List.mem_singleton.mp hj]
      exact lt_of_lt_of_le hi h.size_le
  nodup := by
    refine List.nodup_append.mpr ⟨h.nodup, by simp, ?_⟩
    intro j hj k hk hjk
    rw [List.mem_singleton.mp hk] at hjk
    subst hjk
    obtain ⟨b, hb⟩ := List.getElem?_of_mem hj
    have hlt := (List.getElem?_eq_some_iff.mp hb).1
    have heq := Placed.right_unique hi (h.placed b j hb) hplaced
    omega
  cover := by
    intro j hj
    rcases h.cover j hj with hleft | hmem
    · exact Or.inl hleft
    · exact Or.inr (List.mem_append_left _ hmem)

/-- The next variable of the right query is added behind all others. -/
theorem add (h : p.Merging t places) {w : Variable} {u : OrderedMap Variable}
    (hw : p.right.table.at? places.length = some w) (hright : places.length ≠ p.rightId)
    (hnone : ∀ a, ¬ p.Unified a places.length)
    (hadded : SoundTable.Added t { w with name := uniqueName w.name t.keys } u) :
    p.Merging u (places ++ [t.size]) where
  sound := hadded.sound
  size_le := hadded.size ▸ Nat.le_succ_of_le h.size_le
  left := fun a v hv => hadded.kept _ _ (h.left a v hv)
  placed := by
    intro b j hj
    rcases getElem?_snoc_eq_some hj with hold | ⟨rfl, rfl⟩
    · exact (h.placed b j hold).mono (h.lt j (List.mem_of_getElem? hold)) hadded
    · have htake : u.keys.take t.size = t.keys := by
        rw [hadded.keys, ← OrderedMap.length_keys, List.take_left]
      exact .added hw hright hnone h.size_le (htake ▸ hadded.last)
  lt := by
    intro j hj
    rw [hadded.size]
    rcases List.mem_append.mp hj with hj | hj
    · exact Nat.lt_succ_of_lt (h.lt j hj)
    · rw [List.mem_singleton.mp hj]
      exact Nat.lt_succ_self _
  nodup := by
    refine List.nodup_append.mpr ⟨h.nodup, by simp, ?_⟩
    intro j hj k hk hjk
    rw [List.mem_singleton.mp hk] at hjk
    exact absurd (h.lt j hj) (by omega)
  cover := by
    intro j hj
    rw [hadded.size] at hj
    by_cases hlast : j = t.size
    · exact Or.inr (List.mem_append_right _ (by simp [hlast]))
    · rcases h.cover j (by omega) with hleft | hmem
      · exact Or.inl hleft
      · exact Or.inr (List.mem_append_left _ hmem)

/-- The first of the left places with a URI is found in the table. -/
theorem idOfUri?_eq_some_iff (h : p.Merging t places) (q : Query) {uri : String} {a : Nat} :
    ({ q with table := t } : Query).idOfUri? uri p.left.table.size = some a ↔
      p.left.uriAt? a = some uri ∧ ∀ a' < a, p.left.uriAt? a' ≠ some uri := by
  have huris : (t.values.take p.left.table.size).map Variable.uri =
      p.left.table.values.map Variable.uri := by
    apply List.ext_getElem?
    intro i
    rw [List.getElem?_map, List.getElem?_map, ← OrderedMap.at?_eq_getElem?]
    by_cases hi : i < p.left.table.size
    · obtain ⟨v, hv⟩ := OrderedMap.exists_at? hi
      rw [List.getElem?_take_of_lt hi, ← OrderedMap.at?_eq_getElem?, h.left i v hv, hv]
      exact congrArg some (leftCopy_uri i v)
    · have hnone : p.left.table.at? i = none := by
        rw [OrderedMap.at?_eq_getElem?, List.getElem?_eq_none]
        simpa using hi
      have hshort : (t.values.take p.left.table.size).length ≤ i := by
        rw [List.length_take]
        omega
      rw [List.getElem?_eq_none hshort, hnone]
  have hfind : ({ q with table := t } : Query).idOfUri? uri p.left.table.size =
      (p.left.table.values.map Variable.uri).findIdx? (· == uri) := by
    rw [← huris, List.findIdx?_map]
    rfl
  have hat : ∀ i, p.left.uriAt? i = (p.left.table.values.map Variable.uri)[i]? := by
    intro i
    rw [Query.uriAt?, OrderedMap.at?_eq_getElem?, List.getElem?_map]
  simp only [hfind, hat, List.findIdx?_eq_some_iff_getElem, List.getElem?_eq_some_iff, ne_eq]
  constructor
  · intro hparts
    obtain ⟨ha, huri, hfirst⟩ := hparts
    refine ⟨⟨ha, by simpa using huri⟩, ?_⟩
    intro a' hlt hparts
    obtain ⟨ha', huri'⟩ := hparts
    exact hfirst a' hlt (by simpa using huri')
  · intro hparts
    obtain ⟨⟨ha, huri⟩, hfirst⟩ := hparts
    refine ⟨ha, by simpa using huri, ?_⟩
    intro a' hlt huri'
    exact hfirst a' hlt ⟨by omega, by simpa using huri'⟩

/-- The search for a variable to identify with finds what `Unified` says. -/
theorem unified?_eq_some_iff (h : p.Merging t places) {claimed : List Nat}
    (hclaimed : p.Claims places.length claimed) (q : Query) {w : Variable} {a : Nat}
    (hw : p.right.table.at? places.length = some w) (hright : places.length ≠ p.rightId) :
    ({ q with table := t } : Query).unified? p.left.table.size claimed w = some a ↔
      p.Unified a places.length := by
  have huri : p.right.uriAt? places.length = some w.uri := by simp [Query.uriAt?, hw]
  unfold Query.unified?
  rw [Option.filter_eq_some_iff, h.idOfUri?_eq_some_iff]
  have hfree : (!claimed.contains a) = true ↔ a ∉ claimed := by simp
  rw [hfree, hclaimed]
  constructor
  · intro hparts
    obtain ⟨⟨ha, hfirst⟩, hfree⟩ := hparts
    obtain ⟨hleft, hnone⟩ := not_or.mp hfree
    refine ⟨hleft, hright, ⟨w.uri, ha, huri⟩, ?_, ?_⟩
    · intro a' hlt
      rw [ha]
      exact hfirst a' hlt
    -- The least place with the URI would be identified with `a` already.
    · intro b hb hne hsame
      have hex : ∃ b, b ≠ p.rightId ∧ p.right.uriAt? b = p.right.uriAt? places.length :=
        ⟨b, hne, hsame⟩
      obtain ⟨hleast_ne, hleast_uri⟩ := Nat.find_spec hex
      have hle : Nat.find hex ≤ b := Nat.find_min' hex ⟨hne, hsame⟩
      refine hnone ⟨Nat.find hex, by omega, hleft, hleast_ne,
        ⟨w.uri, ha, hleast_uri.trans huri⟩, ?_, ?_⟩
      · intro a' hlt
        rw [ha]
        exact hfirst a' hlt
      · intro b' hlt hne' hsame'
        exact Nat.find_min hex hlt ⟨hne', hsame'.trans hleast_uri⟩
  · intro hunified
    obtain ⟨uri, ha, hb⟩ := hunified.sameUri
    obtain rfl := Option.some.inj (huri.symm.trans hb)
    refine ⟨⟨ha, fun a' hlt => ha ▸ hunified.firstLeft a' hlt⟩, ?_⟩
    intro hcases
    rcases hcases with hleft | ⟨b, hb, hother⟩
    · exact hunified.left_ne hleft
    · exact absurd (hother.right_unique hunified) (by omega)

end Merging

/-- What the right half of a join leaves of the loop's list of taken places when a variable is
passed that is not identified with any. -/
theorem Claims.pass {done : Nat} {claimed : List Nat} (h : p.Claims done claimed)
    (hnone : ∀ a, ¬ p.Unified a done) : p.Claims (done + 1) claimed := by
  intro a
  rw [h a]
  refine or_congr_right ⟨?_, ?_⟩
  · intro hparts
    obtain ⟨b, hb, hunified⟩ := hparts
    exact ⟨b, by omega, hunified⟩
  · intro hparts
    obtain ⟨b, hb, hunified⟩ := hparts
    have hne : b ≠ done := by
      intro heq
      subst heq
      exact hnone a hunified
    exact ⟨b, by omega, hunified⟩

/-- A variable that is identified with one takes its place. -/
theorem Claims.take {done i : Nat} {claimed : List Nat} (h : p.Claims done claimed)
    (hunified : p.Unified i done) : p.Claims (done + 1) (i :: claimed) := by
  intro a
  rw [List.mem_cons, h a]
  constructor
  · intro hcases
    rcases hcases with rfl | hleft | ⟨b, hb, hother⟩
    · exact Or.inr ⟨done, by omega, hunified⟩
    · exact Or.inl hleft
    · exact Or.inr ⟨b, by omega, hother⟩
  · intro hcases
    rcases hcases with hleft | ⟨b, hb, hother⟩
    · exact Or.inr (Or.inl hleft)
    · by_cases hlast : b = done
      · subst hlast
        exact Or.inl (hother.left_unique hunified)
      · exact Or.inr (Or.inr ⟨b, by omega, hother⟩)

/-- **The loop over the right query.**  It brings all variables of the right query into the
table; the induction is on the variables that are left to bring in. -/
theorem WellFormed.addRight_eq_ok (h : p.WellFormed) {vs : List Variable} {q : Query}
    {t : OrderedMap Variable} {places claimed : List Nat} (hm : p.Merging t places)
    (hclaimed : p.Claims places.length claimed)
    (hvs : vs = p.right.table.values.drop places.length) :
    ∃ (u : OrderedMap Variable) (rest : List Nat),
      Query.addRight p.left.table.size p.leftId p.rightId places.length claimed vs
          { q with table := t } = .ok (rest, { q with table := u }) ∧
        p.Merging u (places ++ rest) ∧ rest.length = vs.length := by
  induction vs generalizing t places claimed with
  | nil => exact ⟨t, [], rfl, by simpa using hm, rfl⟩
  | cons w vs ih =>
      have hw : p.right.table.at? places.length = some w := by
        rw [OrderedMap.at?_eq_getElem?, ← List.head?_drop, ← hvs]
        rfl
      have hrest : ∀ i : Nat, vs = p.right.table.values.drop (places ++ [i]).length := by
        intro i
        rw [List.length_append, List.length_singleton, ← List.tail_drop, ← hvs]
        rfl
      have hlength : ∀ i : Nat, (places ++ [i]).length = places.length + 1 := by simp
      rw [Query.addRight]
      by_cases hright : places.length = p.rightId
      · have hplaced : p.Placed t places.length p.leftId := .joined hright rfl
        have hnone : ∀ a, ¬ p.Unified a places.length := fun a ha => ha.right_ne hright
        obtain ⟨u, rest, hok, hmerge, hlen⟩ := ih (hm.identify h.leftId_lt hplaced)
          (hlength p.leftId ▸ hclaimed.pass hnone) (hrest p.leftId)
        rw [hlength] at hok
        rw [if_pos hright, hok]
        exact ⟨u, p.leftId :: rest, rfl, by simpa using hmerge, congrArg (· + 1) hlen⟩
      · rw [if_neg hright]
        -- the search answers exactly what `Unified` says, so both of its answers are known
        cases hfound : Query.unified? { q with table := t } p.left.table.size claimed w with
        | some i =>
            have hunified := (hm.unified?_eq_some_iff hclaimed q hw hright).mp hfound
            obtain ⟨u, rest, hok, hmerge, hlen⟩ :=
              ih (hm.identify hunified.left_lt (.unified hunified))
                (hlength i ▸ hclaimed.take hunified) (hrest i)
            rw [hlength] at hok
            simp only [hok, Outcome.ok_bind]
            exact ⟨u, i :: rest, rfl, by simpa using hmerge, congrArg (· + 1) hlen⟩
        | none =>
            have hnone : ∀ a, ¬ p.Unified a places.length := by
              intro a ha
              rw [(hm.unified?_eq_some_iff hclaimed q hw hright).mpr ha] at hfound
              cases hfound
            have hlegal := h.right.table.legal_of_at? hw
            obtain ⟨t', hadded, hadd⟩ := Query.exists_addVariable (q := { q with table := t })
              hm.sound (v := { w with name := uniqueName w.name t.keys })
              ⟨isVarName_uniqueName hlegal.name _, hlegal.bound⟩ (uniqueName_not_mem _ _)
            obtain ⟨u, rest, hok, hmerge, hlen⟩ := ih (hm.add hw hright hnone hadded)
              (hlength t.size ▸ hclaimed.pass hnone) (hrest t.size)
            rw [hlength] at hok
            simp only [hadd, hok, Outcome.ok_bind]
            exact ⟨u, t.size :: rest, rfl, by simpa using hmerge, congrArg (· + 1) hlen⟩

end Pairing

end SparqlCompose
