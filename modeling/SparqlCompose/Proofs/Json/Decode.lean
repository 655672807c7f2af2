import Mathlib
import SparqlCompose.Json.Decode

/-!
# Decoders that read a value back

A decoder *reads* a JSON value as a value of the domain when it answers that value wherever the
JSON value does not nest deeper than allowed, and refuses it wherever it does (`Json.Decodes`).
Decoders of arrays and records read what their parts read, so that a decoder for a type of the
domain is settled by the decoders of its fields.
-/

namespace SparqlCompose.Json

mutual

/-- How deep a value nests arrays and objects. -/
def levels : Json → Nat
  | .arr items => levelsAll items + 1
  | .obj fields => levelsFields fields + 1
  | _ => 0

/-- How deep the deepest item nests. -/
def levelsAll : List Json → Nat
  | [] => 0
  | v :: vs => max (levels v) (levelsAll vs)

/-- How deep the deepest value of a field nests. -/
def levelsFields : List (String × Json) → Nat
  | [] => 0
  | (_, v) :: fs => max (levels v) (levelsFields fs)

end

/-- Items that nest no deeper than a bound make a list that does not. -/
theorem levelsAll_map_le {α : Type} {g : α → Json} {l : List α} {n : Nat}
    (h : ∀ a ∈ l, (g a).levels ≤ n) : levelsAll (l.map g) ≤ n := by
  induction l with
  | nil => exact Nat.zero_le n
  | cons a l ih =>
      exact max_le (h a List.mem_cons_self) (ih fun b hb => h b (List.mem_cons_of_mem a hb))

/-- Nor do the fields of an object. -/
theorem levelsFields_map_le {α : Type} {g : α → Json} {l : List (String × α)} {n : Nat}
    (h : ∀ e ∈ l, (g e.2).levels ≤ n) : levelsFields (l.map fun e => (e.1, g e.2)) ≤ n := by
  induction l with
  | nil => exact Nat.zero_le n
  | cons e l ih =>
      exact max_le (h e List.mem_cons_self) (ih fun b hb => h b (List.mem_cons_of_mem e hb))

/-- The decoder reads the JSON value as a value of the domain, unless it nests too deep. -/
def Decodes {α : Type} (f : Decoder α) (v : Json) (a : α) : Prop :=
  ∀ d, f d v = if v.levels ≤ d then some a else none

section

variable {α β : Type} {f : Decoder α} {v : Json} {a : α}

/-- A text is read back. -/
theorem decodes_string (s : String) : Decodes asString (.str s) s := by
  intro d
  simp [asString, levels]

/-- A truth value is read back. -/
theorem decodes_bool (b : Bool) : Decodes asBool (.bool b) b := by
  intro d
  simp [asBool, levels]

/-- A number is read back. -/
theorem decodes_nat (n : Nat) : Decodes asNat (.num n) n := by
  intro d
  simp [asNat, levels]

/-- A missing value is read back as one. -/
theorem decodes_null (f : Decoder α) : Decodes (orNull f) .null none := by
  intro d
  simp [orNull, levels]

/-- A value that is not `null` is read where `null` would be allowed too. -/
theorem Decodes.orNull (h : Decodes f v a) (hv : v ≠ .null) : Decodes (orNull f) v (some a) := by
  intro d
  have hsome : Json.orNull f d v = (f d v).map some := by
    cases v with
    | null => exact absurd rfl hv
    | _ => rfl
  rw [hsome, h d]
  split <;> rfl

/-- A step after a value that is refused on a condition is refused on that condition. -/
theorem bind_ite_some {p : Prop} [Decidable p] (a : α) (g : α → Option β) :
    (if p then some a else none).bind g = if p then g a else none := by
  split <;> rfl

/-- Values of a list that are decoded one by one are refused together. -/
theorem mapM_levelsAll {g : α → Json} {d : Nat} {l : List α}
    (h : ∀ a ∈ l, f d (g a) = if (g a).levels ≤ d then some a else none) :
    (l.map g).mapM (f d) = if levelsAll (l.map g) ≤ d then some l else none := by
  induction l with
  | nil => simp [levelsAll]
  | cons a l ih =>
      have hrest := ih fun b hb => h b (List.mem_cons_of_mem a hb)
      rw [List.map_cons, List.mapM_cons, h a List.mem_cons_self, hrest]
      by_cases ha : (g a).levels ≤ d <;> by_cases hl : levelsAll (l.map g) ≤ d <;>
        simp [levelsAll, ha, hl]

/-- An array is read item by item. -/
theorem decodes_list {g : α → Json} {l : List α} (h : ∀ a ∈ l, Decodes f (g a) a) :
    Decodes (asList f) (.arr (l.map g)) l := by
  intro d
  cases d with
  | zero => simp [asList, levels]
  | succ d =>
      rw [asList, mapM_levelsAll fun a ha => h a ha d]
      simp [levels]

/-- An object whose field names are data is read field by field. -/
theorem decodes_pairs {g : α → Json} {l : List (String × α)}
    (h : ∀ e ∈ l, Decodes f (g e.2) e.2) :
    Decodes (asPairs f) (.obj (l.map fun e => (e.1, g e.2))) l := by
  intro d
  cases d with
  | zero => simp [asPairs, levels]
  | succ d =>
      have hall : (l.map fun e => (e.1, g e.2)).mapM (fun e => (f d e.2).map (e.1, ·)) =
          if levelsFields (l.map fun e => (e.1, g e.2)) ≤ d then some l else none := by
        induction l with
        | nil => simp [levelsFields]
        | cons e l ih =>
            have hrest := ih fun b hb => h b (List.mem_cons_of_mem e hb)
            rw [List.map_cons, List.mapM_cons, h e List.mem_cons_self d, hrest]
            by_cases he : (g e.2).levels ≤ d <;>
              by_cases hl : levelsFields (l.map fun e => (e.1, g e.2)) ≤ d <;>
              simp [levelsFields, he, hl]
      rw [asPairs]
      simp only [hall, levels, Nat.add_le_add_iff_right]

/-- The name of a case is read where the rest of the decoder accepts it. -/
theorem decodes_name {k : String × Option Json × Nat → Option α} {name : String}
    (h : ∀ d, k (name, none, d) = some a) :
    Decodes (fun d v => (asCase d v).bind k) (.str name) a := by
  intro d
  simp [asCase, levels, h]

/-- A case with a content is read as the rest of the decoder reads the content. -/
theorem decodes_case {k : String × Option Json × Nat → Option α} {name : String}
    (h : ∀ d, k (name, some v, d) = if v.levels ≤ d then some a else none) :
    Decodes (fun d v => (asCase d v).bind k) (.obj [(name, v)]) a := by
  intro d
  cases d with
  | zero => simp [asCase, levels]
  | succ d => simp [asCase, levels, levelsFields, h]

/-- An object that repeats no field name opens as a record. -/
theorem asRecord_of_nodup {fields : List (String × Json)} (h : (fields.map Prod.fst).Nodup)
    (names : List String) (d : Nat) : asRecord names (d + 1) (.obj fields) = some ⟨d, fields⟩ := by
  have honce : ∀ n, (fields.filter fun f => f.1 == n).length ≤ 1 := by
    intro n
    have hcount : (fields.filter fun f => f.1 == n).length = (fields.map Prod.fst).count n := by
      rw [List.count, List.countP_map, List.countP_eq_length_filter]
      rfl
    rw [hcount]
    exact List.nodup_iff_count_le_one.mp h n
  simp [asRecord, honce]

/-- An object is read as the rest of the decoder reads its fields. -/
theorem decodes_record {names : List String} {k : Record → Option α}
    {fields : List (String × Json)} (hnodup : (fields.map Prod.fst).Nodup)
    (h : ∀ d, k ⟨d, fields⟩ = if levelsFields fields ≤ d then some a else none) :
    Decodes (fun d v => (asRecord names d v).bind k) (.obj fields) a := by
  intro d
  cases d with
  | zero => simp [asRecord, levels]
  | succ d => simp [asRecord_of_nodup hnodup, levels, h]

/-- A field is looked for from the front. -/
theorem Record.get_cons (d : Nat) (k name : String) (v : Json) (fields : List (String × Json))
    (f : Decoder α) : Record.get ⟨d, (k, v) :: fields⟩ name f =
      if k = name then f d v else Record.get ⟨d, fields⟩ name f := by
  by_cases h : k = name <;> simp [Record.get, h]

/-- A field is found at the first key with its name. -/
theorem Record.get?_cons (d : Nat) (k name : String) (v : Json) (fields : List (String × Json))
    (f : Decoder α) : Record.get? ⟨d, (k, v) :: fields⟩ name f =
      if k = name then Json.orNull f d v else Record.get? ⟨d, fields⟩ name f := by
  by_cases h : k = name <;> simp [Record.get?, h]

/-- In an object without fields a field is missing. -/
theorem Record.get?_nil (d : Nat) (name : String) (f : Decoder α) :
    Record.get? ⟨d, []⟩ name f = some none := rfl

end

end SparqlCompose.Json
