import Mathlib.Data.List.Induction
import Mathlib.Tactic.Common

/-!
Lists that are kept in an order: the distinct members in the order of their first occurrences, and
entries that are looked up by a key.
-/

namespace Shaderwright

section Distinct

variable {α : Type} [DecidableEq α]

lemma eraseDups_concat (xs : List α) (x : α) :
    (xs ++ [x]).eraseDups = if x ∈ xs then xs.eraseDups else xs.eraseDups ++ [x] := by
  rw [List.eraseDups_append]
  by_cases hmem : x ∈ xs
  · have hnone : [x].removeAll xs = [] := by simpa [List.removeAll] using hmem
    rw [if_pos hmem, hnone, List.eraseDups_nil, List.append_nil]
  · have hone : [x].removeAll xs = [x] := by simpa [List.removeAll] using hmem
    rw [if_neg hmem, hone]
    rfl

lemma nodup_eraseDups (xs : List α) : xs.eraseDups.Nodup := by
  induction xs using List.reverseRecOn with
  | nil => exact List.nodup_nil
  | append_singleton xs x ih =>
    rw [eraseDups_concat]
    split
    · exact ih
    · rename_i hx
      simp only [List.nodup_append, List.mem_eraseDups, List.mem_singleton]
      refine ⟨ih, by simp, ?_⟩
      rintro a ha b rfl rfl
      exact hx ha

/-- Add an entry, unless there is one under its key. -/
def addNew {β : Type} (es : List (α × β)) (e : α × β) : List (α × β) :=
  if e.1 ∈ es.map Prod.fst then es else es ++ [e]

lemma keys_addNew {β : Type} (es : List (α × β)) :
    (es.foldl addNew []).map Prod.fst = (es.map Prod.fst).eraseDups := by
  induction es using List.reverseRecOn with
  | nil => rfl
  | append_singleton es e ih =>
    rw [List.foldl_append, List.map_append, List.map_singleton, eraseDups_concat]
    simp only [List.foldl_cons, List.foldl_nil, addNew, ih, List.mem_eraseDups]
    split
    · exact ih
    · rw [List.map_append, ih, List.map_singleton]

/-- What the entries hold makes no difference to which ones are added. -/
lemma foldl_addNew_map {β γ : Type} (g : β → γ) (added es : List (α × β)) :
    (es.map (Prod.map id g)).foldl addNew (added.map (Prod.map id g)) =
      (es.foldl addNew added).map (Prod.map id g) := by
  induction es generalizing added with
  | nil => rfl
  | cons e es ih =>
    rw [List.map_cons, List.foldl_cons, List.foldl_cons, ← ih]
    congr 1
    unfold addNew
    rw [List.map_map]
    show (if e.1 ∈ added.map Prod.fst then _ else _) = _
    split
    · rfl
    · rw [List.map_append, List.map_singleton]

lemma find?_of_mem_addNew {β : Type} {es : List (α × β)} {e : α × β}
    (h : e ∈ es.foldl addNew []) : es.find? (fun x => x.1 = e.1) = some e := by
  induction es using List.reverseRecOn with
  | nil => simp at h
  | append_singleton es x ih =>
    simp only [List.foldl_append, List.foldl_cons, List.foldl_nil, addNew, keys_addNew,
      List.mem_eraseDups] at h
    rw [List.find?_append]
    split at h
    · rw [ih h, Option.some_or]
    · rename_i hnew
      rcases List.mem_append.mp h with h | h
      · rw [ih h, Option.some_or]
      · obtain rfl := List.mem_singleton.mp h
        have hnone : es.find? (fun x => x.1 = e.1) = none := by
          rw [List.find?_eq_none]
          intro y hy hkey
          exact hnew (List.mem_map.mpr ⟨y, hy, of_decide_eq_true hkey⟩)
        simp [hnone]

end Distinct

lemma lookup_filter_ne {α β : Type} [BEq α] [LawfulBEq α] {p q : α} (h : q ≠ p)
    (entries : List (α × β)) :
    (entries.filter fun x => x.1 != p).lookup q = entries.lookup q := by
  induction entries with
  | nil => rfl
  | cons x rest ih =>
    obtain ⟨r, e⟩ := x
    by_cases hr : r = p
    · have hqr : (q == r) = false := beq_eq_false_iff_ne.mpr (hr ▸ h)
      rw [List.filter_cons_of_neg (by simp [hr]), ih, List.lookup_cons, hqr]
    · rw [List.filter_cons_of_pos (by simpa using hr), List.lookup_cons, List.lookup_cons, ih]

end Shaderwright
