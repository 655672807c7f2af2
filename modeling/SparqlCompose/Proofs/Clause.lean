import Mathlib
import SparqlCompose.Query.Clause

/-!
# Clauses and their variables

The variables of a clause are listed by a loop that adds what is not there yet.  Such a loop
lists each element once, in order of first occurrence (`firstOccurrences_distinct`), and commutes
with every renaming that is injective on what occurs (`foldl_appendNew_map`).

A clause is *made* when its patterns and blocks come from `Pattern.make` and `Clause.block`.
A made clause has no literal as a subject or a predicate and each of its blocks lists its own
variables, at every depth; an injective renaming of the variables keeps a clause made
(`Clause.Made.mapVar`).
-/

namespace SparqlCompose

/-! ### Adding what is new -/

section AppendNew

variable {α β : Type} [DecidableEq α] [DecidableEq β]

/-- The list has one more member, unless it had it already. -/
theorem mem_appendNew {l : List α} {a b : α} : b ∈ appendNew l a ↔ b ∈ l ∨ b = a := by
  unfold appendNew
  split
  · constructor
    · exact Or.inl
    · rintro (hb | rfl) <;> assumption
  · simp

/-- What is added one by one is in the list, beside what was there before. -/
theorem mem_foldl_appendNew {l acc : List α} {b : α} :
    b ∈ l.foldl appendNew acc ↔ b ∈ acc ∨ b ∈ l := by
  induction l generalizing acc with
  | nil => simp
  | cons a l ih =>
      rw [List.foldl_cons, ih, mem_appendNew, List.mem_cons]
      tauto

/-- A list without duplicates stays one. -/
theorem nodup_appendNew {l : List α} (h : l.Nodup) (a : α) : (appendNew l a).Nodup := by
  unfold appendNew
  split
  · exact h
  · next hnew =>
      refine List.nodup_append.mpr ⟨h, by simp, ?_⟩
      intro b hb c hc hbc
      rw [hbc, List.mem_singleton.mp hc] at hb
      exact hnew hb

/-- The loop goes on at the end of what it has. -/
theorem prefix_foldl_appendNew (l acc : List α) : acc <+: l.foldl appendNew acc := by
  induction l generalizing acc with
  | nil => exact List.prefix_rfl
  | cons a l ih =>
      have hstep : acc <+: appendNew acc a := by
        unfold appendNew
        split
        · exact List.prefix_rfl
        · exact List.prefix_append acc [a]
      exact hstep.trans (ih (appendNew acc a))

/-- Elements that are all new and distinct are appended. -/
theorem foldl_appendNew_of_nodup {l acc : List α}
    (h : (acc ++ l).Nodup) : l.foldl appendNew acc = acc ++ l := by
  induction l generalizing acc with
  | nil => simp
  | cons a l ih =>
      have hnew : a ∉ acc := by
        intro hmem
        exact (List.nodup_append.mp h).2.2 a hmem a List.mem_cons_self rfl
      rw [List.foldl_cons, appendNew, if_neg hnew, ih (by simpa using h), List.append_assoc,
        List.singleton_append]

/-- A list of elements is that of another, each once, in order of first occurrence. -/
structure FirstOccurrences (distinct occurrences : List α) : Prop where
  mem_iff : ∀ a, a ∈ distinct ↔ a ∈ occurrences
  inOrder : distinct.Pairwise fun a b => occurrences.idxOf a < occurrences.idxOf b

/-- In a list of first occurrences nothing occurs twice. -/
theorem FirstOccurrences.nodup {distinct occurrences : List α}
    (h : FirstOccurrences distinct occurrences) : distinct.Nodup := by
  refine h.inOrder.imp ?_
  intro a b hlt heq
  rw [heq] at hlt
  exact Nat.lt_irrefl _ hlt

/-- The loop lists the first occurrences.  The induction is on the list from its end: a last
element that is new stands behind all others. -/
theorem firstOccurrences_distinct (l : List α) :
    FirstOccurrences (l.foldl appendNew []) l := by
  refine ⟨fun a => by simp [mem_foldl_appendNew], ?_⟩
  induction l using List.reverseRecOn with
  | nil => simp
  | append_singleton l a ih =>
      have hkeep : ∀ b ∈ l.foldl appendNew [], (l ++ [a]).idxOf b = l.idxOf b := by
        intro b hb
        exact List.idxOf_append_of_mem (by simpa [mem_foldl_appendNew] using hb)
      have hold : (l.foldl appendNew []).Pairwise
          fun b c => (l ++ [a]).idxOf b < (l ++ [a]).idxOf c := by
        refine ih.imp_of_mem ?_
        intro b c hb hc hlt
        rwa [hkeep b hb, hkeep c hc]
      rw [List.foldl_append, List.foldl_cons, List.foldl_nil, appendNew]
      split
      · exact hold
      · next hnew =>
          have ha : a ∉ l := by simpa [mem_foldl_appendNew] using hnew
          refine List.pairwise_append.mpr ⟨hold, by simp, ?_⟩
          intro b hb c hc
          rw [List.mem_singleton.mp hc, hkeep b hb, List.idxOf_append_of_notMem ha]
          have hlt := List.idxOf_lt_length_of_mem (l := l) (a := b)
            (by simpa [mem_foldl_appendNew] using hb)
          simp
          omega

/-- It does not matter whether elements are left out before the loop or after it. -/
theorem filter_foldl_appendNew (p : α → Bool) (l : List α) :
    (l.foldl appendNew []).filter p = (l.filter p).foldl appendNew [] := by
  induction l using List.reverseRecOn with
  | nil => rfl
  | append_singleton l a ih =>
      rw [List.foldl_append, List.foldl_cons, List.foldl_nil, List.filter_append,
        List.foldl_append, ← ih, appendNew]
      by_cases ha : a ∈ l.foldl appendNew []
      · by_cases hp : p a = true <;> simp [ha, hp, appendNew]
      · by_cases hp : p a = true <;> simp [ha, hp, appendNew, List.filter_append]

/-- The loop commutes with a renaming that is injective on what occurs. -/
theorem foldl_appendNew_map {f : α → β} {l acc : List α}
    (hinj : Set.InjOn f {a | a ∈ acc ∨ a ∈ l}) :
    (l.map f).foldl appendNew (acc.map f) = (l.foldl appendNew acc).map f := by
  induction l generalizing acc with
  | nil => rfl
  | cons a l ih =>
      have hmem : f a ∈ acc.map f ↔ a ∈ acc := by
        constructor
        · intro h
          obtain ⟨b, hb, hba⟩ := List.mem_map.mp h
          exact hinj (Or.inl hb) (Or.inr List.mem_cons_self) hba ▸ hb
        · exact List.mem_map_of_mem
      have hstep : appendNew (acc.map f) (f a) = (appendNew acc a).map f := by
        by_cases ha : a ∈ acc <;> simp [appendNew, hmem, ha]
      rw [List.map_cons, List.foldl_cons, List.foldl_cons, hstep]
      refine ih (hinj.mono ?_)
      intro b hb
      rcases hb with hb | hb
      · rcases mem_appendNew.mp hb with hb | rfl
        · exact Or.inl hb
        · exact Or.inr List.mem_cons_self
      · exact Or.inr (List.mem_cons_of_mem _ hb)

end AppendNew

/-! ### Renaming in slots and patterns -/

/-- Exchanging places makes no literal, and takes none away. -/
theorem Term.isLiteral_mapVar (f : VarId → VarId) (t : Term) :
    (t.mapVar f).isLiteral = t.isLiteral := by
  cases t <;> rfl

/-- Leaving every place where it is changes no slot. -/
theorem Term.mapVar_id (t : Term) : t.mapVar (fun id => id) = t := by cases t <;> rfl

namespace Pattern

/-- The variables of a pattern are exchanged one by one. -/
theorem varIds_mapVar (f : VarId → VarId) (p : Pattern) :
    (p.mapVar f).varIds = p.varIds.map f := by
  obtain ⟨s, p, o⟩ := p
  cases s <;> cases p <;> cases o <;> rfl

/-- Leaving every place where it is changes no pattern. -/
theorem mapVar_id (p : Pattern) : p.mapVar (fun id => id) = p := by
  simp [mapVar, Term.mapVar_id]

/-- The variables of a pattern, slot by slot. -/
theorem varIds_eq_append (p : Pattern) :
    p.varIds = p.subject.var?.toList ++ (p.predicate.var?.toList ++ p.object.var?.toList) := by
  obtain ⟨s, p, o⟩ := p
  cases s <;> cases p <;> cases o <;> rfl

end Pattern

/-! ### Patterns and variables of clauses -/

namespace Clause

/-- The patterns of clauses are those of each clause, in order. -/
theorem patternsAll_eq_flatMap (cs : List Clause) : patternsAll cs = cs.flatMap patterns := by
  induction cs with
  | nil => rfl
  | cons c cs ih => rw [patternsAll, ih, List.flatMap_cons]

/-- The patterns of two lists of clauses follow one another. -/
theorem patternsAll_append (cs ds : List Clause) :
    patternsAll (cs ++ ds) = patternsAll cs ++ patternsAll ds := by
  simp [patternsAll_eq_flatMap]

/-- Clauses are mapped one by one. -/
theorem mapVarAll_eq_map (f : VarId → VarId) (cs : List Clause) :
    mapVarAll f cs = cs.map (mapVar f) := by
  induction cs with
  | nil => rfl
  | cons c cs ih => rw [mapVarAll, ih, List.map_cons]

mutual

/-- The patterns of a mapped clause are its patterns, mapped. -/
theorem patterns_mapVar (f : VarId → VarId) :
    ∀ c : Clause, (c.mapVar f).patterns = c.patterns.map (Pattern.mapVar f)
  | .pattern _ => rfl
  | .service _ cs _ => patternsAll_mapVarAll f cs

/-- Renaming the variables of clauses renames those of their patterns. -/
theorem patternsAll_mapVarAll (f : VarId → VarId) :
    ∀ cs : List Clause, patternsAll (mapVarAll f cs) = (patternsAll cs).map (Pattern.mapVar f)
  | [] => rfl
  | c :: cs => by
      rw [mapVarAll, patternsAll, patternsAll, List.map_append, patterns_mapVar f c,
        patternsAll_mapVarAll f cs]

end

mutual

/-- Leaving every place where it is changes no clause. -/
theorem mapVar_id : ∀ c : Clause, c.mapVar (fun id => id) = c
  | .pattern p => congrArg Clause.pattern p.mapVar_id
  | .service e cs vs => by rw [mapVar, mapVarAll_id cs, List.map_id']

/-- Nor does it change a list of clauses. -/
theorem mapVarAll_id : ∀ cs : List Clause, mapVarAll (fun id => id) cs = cs
  | [] => rfl
  | c :: cs => by rw [mapVarAll, mapVar_id c, mapVarAll_id cs]

end

/-- The variables of clauses are those that occur in their patterns. -/
theorem mem_varIdsAll {cs : List Clause} {id : VarId} :
    id ∈ varIdsAll cs ↔ ∃ p ∈ patternsAll cs, id ∈ p.varIds := by
  simp [varIdsAll, mem_foldl_appendNew]

/-- The variables of a clause are those that occur in its patterns. -/
theorem mem_varIds {c : Clause} {id : VarId} :
    id ∈ c.varIds ↔ ∃ p ∈ c.patterns, id ∈ p.varIds := by
  simp [varIds, mem_varIdsAll, patternsAll]

/-- A mapped clause has the variables of the clause, mapped. -/
theorem mem_varIds_mapVar {f : VarId → VarId} {c : Clause} {id : VarId} :
    id ∈ (c.mapVar f).varIds ↔ ∃ i ∈ c.varIds, f i = id := by
  simp only [mem_varIds, patterns_mapVar, List.mem_map]
  constructor
  · intro hparts
    obtain ⟨_, ⟨p, hp, rfl⟩, hid⟩ := hparts
    rw [Pattern.varIds_mapVar] at hid
    obtain ⟨i, hi, rfl⟩ := List.mem_map.mp hid
    exact ⟨i, ⟨p, hp, hi⟩, rfl⟩
  · intro hparts
    obtain ⟨i, ⟨p, hp, hi⟩, rfl⟩ := hparts
    refine ⟨p.mapVar f, ⟨p, hp, rfl⟩, ?_⟩
    rw [Pattern.varIds_mapVar]
    exact List.mem_map_of_mem hi

/-- A block has the variables of the clauses in it. -/
theorem mem_varIds_block {e : String} {cs : List Clause} {id : VarId} :
    id ∈ (block e cs).varIds ↔ ∃ c ∈ cs, id ∈ c.varIds := by
  simp only [mem_varIds, block, patterns, patternsAll_eq_flatMap, List.mem_flatMap]
  constructor
  · intro hparts
    obtain ⟨p, ⟨c, hc, hp⟩, hid⟩ := hparts
    exact ⟨c, hc, p, hp, hid⟩
  · intro hparts
    obtain ⟨c, hc, p, hp, hid⟩ := hparts
    exact ⟨p, ⟨c, hc, hp⟩, hid⟩

/-- The variables that a renaming gives to clauses, if it is injective on those that they
have. -/
theorem varIdsAll_mapVarAll {f : VarId → VarId} {cs : List Clause}
    (hinj : Set.InjOn f {id | id ∈ varIdsAll cs}) :
    varIdsAll (mapVarAll f cs) = (varIdsAll cs).map f := by
  have hocc : (patternsAll (mapVarAll f cs)).flatMap Pattern.varIds =
      ((patternsAll cs).flatMap Pattern.varIds).map f := by
    rw [patternsAll_mapVarAll, List.flatMap_map, List.map_flatMap]
    exact List.flatMap_congr fun p _ => Pattern.varIds_mapVar f p
  have hinj' : Set.InjOn f {id | id ∈ [] ∨ id ∈ (patternsAll cs).flatMap Pattern.varIds} := by
    refine hinj.mono ?_
    intro id hid
    simpa [varIdsAll, mem_foldl_appendNew] using hid
  rw [varIdsAll, hocc]
  exact foldl_appendNew_map hinj'

end Clause

/-! ### Made clauses -/

/-- The literal is as its constructors make it. -/
def Literal.IsNormal (l : Literal) : Prop := l.normal = l

/-- The constant is as its constructors make it. -/
def Constant.IsNormal (c : Constant) : Prop := c.normal = c

/-- The literal in a slot, if there is one, is as its constructors make it. -/
def Term.IsNormal : Term → Prop
  | .literal l => l.IsNormal
  | _ => True

/-- A clause whose patterns and blocks come from `Pattern.make` and `Clause.block`, and its
literals from their constructors. -/
inductive Clause.Made : Clause → Prop
  | pattern {s p o : Term} {q : Pattern} (ho : o.IsNormal) (hmake : Pattern.make s p o = .ok q) :
      Made (.pattern q)
  | block {e : String} {cs : List Clause} (hcs : ∀ c ∈ cs, Made c) : Made (.block e cs)

/-- A clause stands in a list of clauses: as a member, or inside a block of it. -/
inductive Clause.Inside : Clause → List Clause → Prop
  | here {c : Clause} {cs : List Clause} (h : c ∈ cs) : Inside c cs
  | deeper {c : Clause} {e : String} {inner : List Clause} {vs : List VarId} {cs : List Clause}
      (hblock : .service e inner vs ∈ cs) (h : Inside c inner) : Inside c cs

/-- Nothing stands in an empty list of clauses. -/
@[simp]
theorem Clause.not_inside_nil {c : Clause} : ¬ c.Inside [] := by
  rintro (h | ⟨h, -⟩) <;> cases h

/-- What stands in a list is its first clause, stands in a block that is its first clause, or stands
in the rest. -/
@[simp]
theorem Clause.inside_cons {c d : Clause} {cs : List Clause} :
    c.Inside (d :: cs) ↔
      c = d ∨ (∃ e inner vs, d = .service e inner vs ∧ c.Inside inner) ∨ c.Inside cs := by
  constructor
  · rintro (h | ⟨hblock, h⟩)
    · rcases List.mem_cons.mp h with rfl | hmem
      · exact Or.inl rfl
      · exact Or.inr (Or.inr (.here hmem))
    · rcases List.mem_cons.mp hblock with rfl | hmem
      · exact Or.inr (Or.inl ⟨_, _, _, rfl, h⟩)
      · exact Or.inr (Or.inr (.deeper hmem h))
  · rintro (rfl | ⟨e, inner, vs, rfl, h⟩ | h)
    · exact .here List.mem_cons_self
    · exact .deeper List.mem_cons_self h
    · cases h with
      | here hmem => exact .here (List.mem_cons_of_mem _ hmem)
      | deeper hblock h => exact .deeper (List.mem_cons_of_mem _ hblock) h

/-- A plain text is as its constructor makes it. -/
theorem Literal.isNormal_plain (value : String) : (plain value).IsNormal := rfl

/-- So is a text with a datatype, of which `xsd:string` is dropped once and for all. -/
theorem Literal.isNormal_ofType (value datatype : String) : (ofType value datatype).IsNormal := by
  by_cases h : datatype = Vocabulary.xsdString <;> simp [IsNormal, normal, ofType, plain, h]

/-- So is a text with a language tag: small letters stay small. -/
theorem Literal.isNormal_inLanguage (value tag : String) : (inLanguage value tag).IsNormal := by
  have hlower : Char.toLower ∘ Char.toLower = Char.toLower :=
    funext Char.toLower_toLower_eq_toLower
  simp [IsNormal, normal, inLanguage, hlower]

/-- What `normal` answers is as the constructors make it. -/
theorem Literal.isNormal_normal (l : Literal) : l.normal.IsNormal := by
  obtain ⟨value, kind⟩ := l
  cases kind with
  | simple => exact isNormal_plain value
  | typed d => exact isNormal_ofType value d
  | tagged t => exact isNormal_inLanguage value t

/-- Only a literal in a slot could be otherwise than its constructors make it. -/
theorem Term.isNormal_of_isLiteral {t : Term} (h : t.isLiteral = false) : t.IsNormal := by
  cases t with
  | var id => trivial
  | resource r => trivial
  | literal l => cases h

/-- What `normal` answers for a constant is as the constructors make it. -/
theorem Constant.isNormal_normal (c : Constant) : c.normal.IsNormal := by
  cases c with
  | resource r => rfl
  | literal l => exact congrArg Constant.literal l.isNormal_normal

/-- A pattern can be made exactly when its subject and its predicate are no literals. -/
theorem Pattern.make_eq_ok {s p o : Term} {q : Pattern} :
    make s p o = .ok q ↔ s.isLiteral = false ∧ p.isLiteral = false ∧ ⟨s, p, o⟩ = q := by
  unfold make
  split
  · simp_all
  · split <;> simp_all

/-- A pattern without a literal as a subject or a predicate is one that can be made. -/
theorem Clause.made_pattern_iff {p : Pattern} :
    (Clause.pattern p).Made ↔
      p.subject.isLiteral = false ∧ p.predicate.isLiteral = false ∧ p.object.IsNormal := by
  constructor
  · intro hparts
    obtain ⟨ho, hmake⟩ := hparts
    obtain ⟨hs, hp, rfl⟩ := Pattern.make_eq_ok.mp hmake
    exact ⟨hs, hp, ho⟩
  · intro hparts
    obtain ⟨hs, hp, ho⟩ := hparts
    exact .pattern ho (Pattern.make_eq_ok.mpr ⟨hs, hp, rfl⟩)

/-- A renaming keeps a pattern made. -/
theorem Clause.Made.pattern_mapVar {p : Pattern} (h : (Clause.pattern p).Made)
    (f : VarId → VarId) : (Clause.pattern (p.mapVar f)).Made := by
  obtain ⟨hs, hp, ho⟩ := made_pattern_iff.mp h
  refine made_pattern_iff.mpr ⟨?_, ?_, ?_⟩
  · exact (Term.isLiteral_mapVar f p.subject).trans hs
  · exact (Term.isLiteral_mapVar f p.predicate).trans hp
  · obtain ⟨s, p, o⟩ := p
    cases o <;> exact ho

/-- A block that can be made lists the variables of its clauses, which can be made. -/
theorem Clause.made_service_iff {e : String} {cs : List Clause} {vs : List VarId} :
    (Clause.service e cs vs).Made ↔ (∀ c ∈ cs, c.Made) ∧ vs = varIdsAll cs := by
  constructor
  · intro h
    cases h with
    | block hcs => exact ⟨hcs, rfl⟩
  · intro hparts
    obtain ⟨hcs, rfl⟩ := hparts
    exact .block hcs

/-- The patterns of a made clause are made. -/
theorem Clause.Made.of_mem_patterns {c : Clause} (h : c.Made) {p : Pattern} (hp : p ∈ c.patterns) :
    (Clause.pattern p).Made := by
  induction h with
  | @pattern x y z made ho hmake =>
      obtain rfl := List.mem_singleton.mp hp
      exact .pattern ho hmake
  | @block e cs _ ih =>
      rw [Clause.block, patterns, patternsAll_eq_flatMap] at hp
      obtain ⟨c, hc, hpc⟩ := List.mem_flatMap.mp hp
      exact ih c hc hpc

/-- Whatever stands inside made clauses is made. -/
theorem Clause.Inside.made {c : Clause} {cs : List Clause} (h : c.Inside cs)
    (hcs : ∀ d ∈ cs, d.Made) : c.Made := by
  induction h with
  | here h => exact hcs _ h
  | deeper hblock _ ih => exact ih (Clause.made_service_iff.mp (hcs _ hblock)).1

/-- A renaming that is injective on the variables of a made clause keeps it made. -/
theorem Clause.Made.mapVar {f : VarId → VarId} {c : Clause} (h : c.Made)
    (hinj : Set.InjOn f {id | id ∈ c.varIds}) : (c.mapVar f).Made := by
  induction h with
  | pattern ho hmake => exact (Made.pattern ho hmake).pattern_mapVar f
  | @block e cs hcs ih =>
      have hall : Set.InjOn f {id | id ∈ varIdsAll cs} := by
        refine hinj.mono ?_
        intro id hid
        exact mem_varIds.mpr (mem_varIdsAll.mp hid)
      refine made_service_iff.mpr ⟨?_, (varIdsAll_mapVarAll hall).symm⟩
      intro d hd
      rw [mapVarAll_eq_map] at hd
      obtain ⟨c, hc, rfl⟩ := List.mem_map.mp hd
      refine ih c hc (hall.mono ?_)
      intro id hid
      obtain ⟨p, hp, hid⟩ := mem_varIds.mp hid
      refine mem_varIdsAll.mpr ⟨p, ?_, hid⟩
      rw [patternsAll_eq_flatMap]
      exact List.mem_flatMap.mpr ⟨c, hc, hp⟩

end SparqlCompose
