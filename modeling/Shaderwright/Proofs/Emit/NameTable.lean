import Mathlib.Tactic.Common
import Shaderwright.Emit.NameTable
import Shaderwright.Proofs.Lists

/-!
What a table holds: a key that it has no entry for is mapped to itself or to nothing, as the table
says.
-/

namespace Shaderwright.NameTable

lemma isSome_lookup {entries : List (String × String)} {key : String} :
    (entries.lookup key).isSome = true ↔ key ∈ entries.map Prod.fst := by
  induction entries with
  | nil => simp
  | cons e es ih =>
    rw [List.lookup_cons]
    split
    · rename_i h
      simp [eq_of_beq h]
    · rename_i h
      have hne : key ≠ e.1 := by simpa using h
      simp [ih, hne]

lemma isSome_get? (t t' : NameTable) (hmiss : t.miss = t'.miss)
    (hkeys : t.entries.map Prod.fst = t'.entries.map Prod.fst) (key : String) :
    (t.get? key).isSome = (t'.get? key).isSome := by
  have hlookup : (t.entries.lookup key).isSome = (t'.entries.lookup key).isSome := by
    rw [Bool.eq_iff_iff, isSome_lookup, isSome_lookup, hkeys]
  unfold NameTable.get?
  rcases ht : t.entries.lookup key with _ | v <;> rcases ht' : t'.entries.lookup key with _ | v'
  · simp [hmiss]
  · simp [ht, ht'] at hlookup
  · simp [ht, ht'] at hlookup
  · rfl

lemma isSome_get?_iff {t : NameTable} (hmiss : t.miss = .absent) {key : String} :
    (t.get? key).isSome = true ↔ key ∈ t.entries.map Prod.fst := by
  rw [← isSome_lookup, get?, hmiss]
  rcases t.entries.lookup key with _ | v <;> simp

lemma mem_of_lookup {entries : List (String × String)} {key value : String}
    (h : entries.lookup key = some value) : (key, value) ∈ entries := by
  induction entries with
  | nil => simp at h
  | cons e es ih =>
    rw [List.lookup_cons] at h
    split at h
    · rename_i heq
      obtain rfl := Option.some.inj h
      simp [eq_of_beq heq]
    · exact List.mem_cons_of_mem _ (ih h)

lemma get_mem (t : NameTable) (key : String) :
    (∃ e ∈ t.entries, e.2 = t.get key) ∨ t.get key = key ∨ t.get key = "" := by
  unfold get get?
  rcases h : t.entries.lookup key with _ | value
  · dsimp only
    split
    · exact .inr (.inl rfl)
    · exact .inr (.inr rfl)
  · exact .inl ⟨_, mem_of_lookup h, rfl⟩

lemma get_mem_of_absent {t : NameTable} (hmiss : t.miss = .absent) (key : String) :
    (∃ e ∈ t.entries, e.2 = t.get key) ∨ t.get key = "" := by
  unfold get get?
  rcases h : t.entries.lookup key with _ | value
  · simp [hmiss]
  · exact .inl ⟨_, mem_of_lookup h, rfl⟩

lemma get_of_not_mem {t : NameTable} {key : String} (hmiss : t.miss = .identity)
    (h : key ∉ t.entries.map Prod.fst) : t.get key = key := by
  have hnone : t.entries.lookup key = none := by
    rw [← Option.not_isSome_iff_eq_none, isSome_lookup]
    exact h
  simp [get, get?, hnone, hmiss]

lemma get_insert (t : NameTable) (key value name : String) :
    (t.insert key value).get name = if name = key then value else t.get name := by
  unfold get get? insert
  rw [List.lookup_cons]
  by_cases hname : name = key
  · simp [hname]
  · simp only [beq_eq_false_iff_ne.mpr hname, lookup_filter_ne hname, if_neg hname]

end Shaderwright.NameTable
