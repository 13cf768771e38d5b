import Mathlib
import Shaderwright.Proofs.Hlsl.HeaderDocument
import Shaderwright.Proofs.Text.Quoted

/-!
The binding table of a shader loses nothing. A name is quoted, a category has a name of its own, and
the numbers stand between commas, so a row can be taken apart again; and the rows can be told from
everything else in the table.
-/

namespace Shaderwright.Hlsl

open Shaderwright.Text Shaderwright.Document

/-! ### Fields -/

/-- Texts are cut at their first separator, wherever else it stands. -/
lemma separator_inj {c : Char} {cs ds us vs : List Char} (hcs : c ∉ cs) (hds : c ∉ ds)
    (h : cs ++ c :: us = ds ++ c :: vs) : cs = ds ∧ us = vs := by
  rcases List.append_eq_append_iff.mp h with ⟨mid, hmid, htail⟩ | ⟨mid, hmid, htail⟩
  all_goals
    cases mid with
    | nil => simp_all
    | cons a mid =>
      obtain rfl := (List.cons.inj htail).1
      simp [hmid] at hcs hds

/-- What stands in front of a comma in a row. -/
def IsField (s : String) : Prop := ',' ∉ s.toList

lemma field_inj {s t u v : String} (hs : IsField s) (ht : IsField t)
    (h : s ++ (", " ++ u) = t ++ (", " ++ v)) : s = t ∧ u = v := by
  have hchars := congrArg String.toList h
  have hcomma : ", ".toList = [',', ' '] := rfl
  simp only [String.toList_append, hcomma, List.cons_append, List.nil_append] at hchars
  obtain ⟨hst, huv⟩ := separator_inj hs ht hchars
  exact ⟨String.toList_injective hst, String.toList_injective (List.cons.inj huv).2⟩

lemma isField_int (n : Int) : IsField (toString n) := by
  intro h
  rcases mem_toString_int h with h | h
  · cases h
  · revert h
    decide

lemma toString_int64_inj {m n : Int64} (h : toString m.toInt = toString n.toInt) : m = n := by
  rw [Int.toString_eq_repr, Int.toString_eq_repr, Int.repr_inj] at h
  exact Int64.toInt_inj.mp h

/-! ### Rows -/

def Category.named : List Category := [.const32, .const64, .const96, .const128, .texture, .sampler]

lemma Category.text_inj {c d : Category} (hc : c ∈ named) (hd : d ∈ named)
    (h : c.text = d.text) : c = d := by
  have hall : ∀ c ∈ named, ∀ d ∈ named, c.text = d.text → c = d := by decide
  exact hall c hc d hd h

lemma Category.isField_text {c : Category} (hc : c ∈ named) : IsField c.text := by
  have hall : ∀ c ∈ named, ',' ∉ c.text.toList := by decide
  exact hall c hc

lemma Binding.row_eq (b : Binding) :
    b.row = "\x7b " ++ (quote b.name ++ (", ShaderResourceCategory::" ++ (b.category.text ++
      (", " ++ (toString b.slot.toInt ++ (", " ++ (toString b.count.toInt ++ " \x7d"))))))) := by
  simp only [Binding.row, String.append_assoc]

lemma Binding.row_inj {b c : Binding} (hb : b.category ∈ Category.named)
    (hc : c.category ∈ Category.named) (h : b.row = c.row) : b = c := by
  rw [b.row_eq, c.row_eq, String.append_right_inj] at h
  obtain ⟨hname, h⟩ := quote_append_inj h
  rw [String.append_right_inj] at h
  obtain ⟨hcategory, h⟩ := field_inj (Category.isField_text hb) (Category.isField_text hc) h
  obtain ⟨hslot, h⟩ := field_inj (isField_int _) (isField_int _) h
  rw [String.append_left_inj] at h
  cases b
  cases c
  simp only [Binding.mk.injEq]
  exact ⟨hname, Category.text_inj hb hc hcategory, toString_int64_inj hslot, toString_int64_inj h⟩

/-! ### Tables -/

lemma rows_inj {bs cs : List Binding} (hbs : ∀ b ∈ bs, b.category ∈ Category.named)
    (hcs : ∀ c ∈ cs, c.category ∈ Category.named)
    (h : bs.map (fun b => "    " ++ b.row ++ ",") = cs.map fun b => "    " ++ b.row ++ ",") :
    bs = cs := by
  induction bs generalizing cs with
  | nil => exact (List.map_eq_nil_iff.mp h.symm).symm
  | cons b bs ih =>
    cases cs with
    | nil => simp at h
    | cons c cs =>
      rw [List.forall_mem_cons] at hbs hcs
      simp only [List.map_cons, List.cons.injEq, String.append_left_inj,
        String.append_right_inj] at h
      rw [Binding.row_inj hbs.1 hcs.1 h.1, ih hbs.2 hcs.2 h.2]

/-- The second line tells a table without rows from all others. -/
lemma tableLines_nil_ne_cons (shader : String) (b : Binding) (bs : List Binding) :
    tableLines shader [] ≠ tableLines shader (b :: bs) := by
  rw [tableLines_cons]
  intro h
  have hlength := congrArg List.length h
  simp [tableLines] at hlength

lemma tableLines_inj {shader : String} {bs cs : List Binding}
    (hbs : ∀ b ∈ bs, b.category ∈ Category.named) (hcs : ∀ c ∈ cs, c.category ∈ Category.named)
    (h : tableLines shader bs = tableLines shader cs) : bs = cs := by
  cases bs with
  | nil =>
    cases cs with
    | nil => rfl
    | cons c cs => exact absurd h (tableLines_nil_ne_cons shader c cs)
  | cons b bs =>
    cases cs with
    | nil => exact absurd h.symm (tableLines_nil_ne_cons shader b bs)
    | cons c cs =>
      rw [tableLines_cons, tableLines_cons] at h
      exact rows_inj hbs hcs (List.append_cancel_right (List.cons.inj (List.cons.inj h).2).2)

/-- A table tells which bindings it was made from, only its first line starts an entry of the
header, and every line of it stays a line. -/
theorem tableLines_lossless (shader : String) (bs cs : List Binding)
    (hbs : ∀ b ∈ bs, b.category ∈ Category.named) (hcs : ∀ c ∈ cs, c.category ∈ Category.named) :
    (tableLines shader bs = tableLines shader cs ↔ bs = cs) ∧
      (∀ l ∈ (tableLines shader bs).tail, collections.key l = none) ∧
      (IsLine shader → ∀ l ∈ tableLines shader bs, IsLine l) := by
  refine ⟨⟨tableLines_inj hbs hcs, congrArg _⟩, ?_, isLine_tableEntry (r := (shader, bs))⟩
  obtain ⟨rest, hlines, hrest⟩ := tableLines_eq_cons shader bs
  intro l hl
  rw [hlines, List.tail_cons] at hl
  rw [collections_key]
  exact markedKey?_eq_none (by decide) (hrest l hl)

/-- A name may hold a quote, a character without a glyph and what separates the fields. -/
theorem tableLines_lossless_hatch :
    tableLines "Hatch" [⟨"a\"\u200b, -7", .texture, 7, 2⟩] ≠
        tableLines "Hatch" [⟨"a\"\u200b, 7", .texture, -7, 2⟩] ∧
      (∀ l ∈ (tableLines "Hatch" [⟨"a\"\u200b, -7", .texture, 7, 2⟩]).tail,
        collections.key l = none) ∧
      ∀ l ∈ tableLines "Hatch" [⟨"a\"\u200b, -7", .texture, 7, 2⟩], IsLine l := by
  obtain ⟨hsame, hkeys, hlines⟩ := tableLines_lossless "Hatch"
    [⟨"a\"\u200b, -7", .texture, 7, 2⟩] [⟨"a\"\u200b, 7", .texture, -7, 2⟩] (by decide) (by decide)
  exact ⟨fun h => absurd (hsame.mp h) (by decide), hkeys, hlines (by decide)⟩

end Shaderwright.Hlsl
