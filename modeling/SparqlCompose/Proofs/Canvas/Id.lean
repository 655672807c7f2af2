import Mathlib.Data.List.Basic
import SparqlCompose.Canvas.Id
import SparqlCompose.Digest.Sha256
import SparqlCompose.Proofs.Cut
import SparqlCompose.Proofs.FreshName

/-!
# Instance ids as texts

An id that was written is read back (`InstanceId.ofText?_text`), so two ids have two texts
(`InstanceId.text_injective`).  The hash of a source is made of hexadecimal digits, and therefore
neither a hash nor an id has a semicolon (`InstanceId.no_semicolon`).
-/

namespace SparqlCompose

namespace InstanceId

/-- An id is written as its hash, an underscore and its number. -/
theorem toList_text (i : InstanceId) :
    i.text.toList = i.hash.toList ++ '_' :: (toString i.slot).toList := by
  simp [text]

/-- A digit is no underscore. -/
theorem digit_ne_underscore {c : Char} (h : c.isDigit = true) : (c == '_') = false := by
  rw [beq_eq_false_iff_ne]
  rintro rfl
  exact absurd h (by decide)

/-- The last underscore of an id stands between its hash and its slot. -/
theorem cutLast_text (i : InstanceId) :
    cutLast (· == '_') i.text.toList =
      some (i.hash.toList ++ ['_'], (toString i.slot).toList) := by
  rw [toList_text]
  refine cutLast_of_not_mem (by decide) i.hash.toList ?_
  intro c hc
  exact digit_ne_underscore (isDigit_of_mem_toString hc)

/-- A number that is written is read back if it is a machine word, and refused if not. -/
theorem slotOf?_toString (n : Nat) :
    slotOf? (toString n).toList = if n < wordSize then some n else none := by
  have hdigit : ∀ c ∈ (toString n).toList, c.isDigit = true :=
    fun c hc => isDigit_of_mem_toString hc
  have hplus : dropLead? ['+'] (toString n).toList = none := by
    cases hdrop : dropLead? ['+'] (toString n).toList with
    | none => rfl
    | some rest =>
        have hmem : '+' ∈ (toString n).toList :=
          dropLead?_eq_some_iff.mp hdrop ▸ List.mem_append_left rest List.mem_cons_self
        exact absurd (hdigit _ hmem) (by decide)
  have hall : (toString n).toList.all Char.isDigit = true := List.all_eq_true.mpr hdigit
  have hne : (toString n).toList.isEmpty = false :=
    List.isEmpty_eq_false_iff.mpr (toString_toList_ne_nil n)
  unfold slotOf?
  rw [hplus]
  simp only [Option.getD_none, hall, hne, decimal_toString]
  simp

/-- An id that was written is read back. -/
theorem ofText?_text {i : InstanceId} (hhash : i.hash ≠ "") (hslot : i.slot < wordSize) :
    ofText? i.text = some i := by
  have hne : i.hash.toList.isEmpty = false := by simpa using hhash
  simp only [ofText?, cutLast_text, List.dropLast_concat, Option.bind_eq_bind, Option.bind_some,
    hne, slotOf?_toString, if_pos hslot]
  simp

/-- Two ids have two texts. -/
theorem text_injective : Function.Injective text := by
  intro i j h
  have hcut := (cutLast_text i).symm.trans ((congrArg _ (congrArg String.toList h)).trans
    (cutLast_text j))
  obtain ⟨hlead, hdigits⟩ := Prod.mk.inj (Option.some.inj hcut)
  have hhash : i.hash = j.hash := String.toList_inj.mp (List.append_cancel_right hlead)
  have hslot : i.slot = j.slot := toString_injective (String.toList_inj.mp hdigits)
  cases i
  cases j
  simp_all

end InstanceId

/-! ### Hashes -/

/-- A hash is made of lower-case hexadecimal digits. -/
theorem Sha256.mem_shortHex {s : String} {c : Char} (h : c ∈ (shortHex s).toList) :
    c ∈ "0123456789abcdef".toList := by
  have hdigit : ∀ n : Fin 16, Nat.digitChar n ∈ "0123456789abcdef".toList := by decide
  have hword : ∀ w : UInt32, ∀ d ∈ hexWord w, d ∈ "0123456789abcdef".toList := by
    intro w d hd
    obtain ⟨shift, -, rfl⟩ := List.mem_map.mp hd
    exact hdigit ⟨_, Nat.mod_lt _ (by decide)⟩
  simp only [shortHex, String.toList_ofList, List.mem_append] at h
  rcases h with h | h
  · exact hword _ _ h
  · exact hword _ _ h

/-- An id whose hash has no semicolon has none. -/
theorem InstanceId.no_semicolon {i : InstanceId} (h : ';' ∉ i.hash.toList) :
    ';' ∉ i.text.toList := by
  rw [toList_text]
  intro hmem
  rcases List.mem_append.mp hmem with hmem | hmem
  · exact h hmem
  · rcases List.mem_cons.mp hmem with hmem | hmem
    · exact absurd hmem (by decide)
    · exact absurd (isDigit_of_mem_toString hmem) (by decide)

end SparqlCompose
