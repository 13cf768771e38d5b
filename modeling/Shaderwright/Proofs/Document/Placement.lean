import Mathlib.Tactic.Common
import Shaderwright.Proofs.Document.Edits

/-!
When a document can be read. It is enough that the markers of its sections stand in its lines in
their order: the first place that fits for each of them leaves all others behind it.
-/

namespace Shaderwright.Document

/-- The markers stand in the lines in their order. A section may be opened by the line that closes
the one before it. -/
def Marked : List Section → List String → Prop
  | [], _ => True
  | s :: sections, ls => ∃ opening behind closing rest,
    opening :: behind <:+ ls ∧ isMarker s.opening opening = true ∧
      closing :: rest <:+ behind ∧ isMarker s.closing closing = true ∧
      Marked sections (closing :: rest)

lemma Marked.mono {sections : List Section} {ls ls' : List String} (h : Marked sections ls)
    (hsuffix : ls <:+ ls') : Marked sections ls' := by
  cases sections with
  | nil => trivial
  | cons s sections =>
    obtain ⟨opening, behind, closing, rest, hopening, hmarkers⟩ := h
    exact ⟨opening, behind, closing, rest, hopening.trans hsuffix, hmarkers⟩

/-- A marker is found where it stands or earlier. -/
lemma splitAtMarker_of_suffix {marker line : String} {ls behind : List String}
    (hsuffix : line :: behind <:+ ls) (hline : isMarker marker line = true) :
    ∃ before found behind', splitAtMarker marker ls = some (before, found, behind') ∧
      line :: behind <:+ found :: behind' := by
  induction ls with
  | nil => simp at hsuffix
  | cons l ls ih =>
    by_cases hl : isMarker marker l = true
    · exact ⟨[], l, ls, by simp [splitAtMarker, hl], hsuffix⟩
    · rcases List.suffix_cons_iff.mp hsuffix with heq | hsuffix
      · exact absurd ((List.cons.inj heq).1 ▸ hline) hl
      · obtain ⟨before, found, behind', hsplit, hfound⟩ := ih hsuffix
        exact ⟨l :: before, found, behind', by simp [splitAtMarker, hl, hsplit], hfound⟩

lemma suffix_of_cons_suffix {a b : String} {xs ys : List String} (h : a :: xs <:+ b :: ys) :
    xs <:+ ys := by
  rcases List.suffix_cons_iff.mp h with heq | h
  · exact (List.cons.inj heq).2 ▸ List.suffix_rfl
  · exact (List.suffix_cons a xs).trans h

lemma exists_ofLines {sections : List Section} {ls : List String} (h : Marked sections ls)
    (all : List String) : ∃ doc, ofLines all sections ls = .ok doc := by
  induction sections generalizing ls with
  | nil => exact ⟨_, rfl⟩
  | cons s sections ih =>
    obtain ⟨opening, behind, closing, rest, hopening, hopen, hclosing, hclose, hrest⟩ := h
    obtain ⟨before, opening', behind', hsplit, hfound⟩ := splitAtMarker_of_suffix hopening hopen
    obtain ⟨body, closing', rest', hsplit', hfound'⟩ :=
      splitAtMarker_of_suffix (hclosing.trans (suffix_of_cons_suffix hfound)) hclose
    obtain ⟨doc, hdoc⟩ := ih (hrest.mono hfound')
    exact ⟨_, by simp only [ofLines, hsplit, hsplit', hdoc]; rfl⟩

lemma specs_of_laid {sections : List Section} {blocks : List Block} {rest : List String}
    (h : Laid sections blocks rest) : blocks.map Block.spec = sections := by
  induction sections generalizing blocks with
  | nil =>
    cases blocks with
    | nil => rfl
    | cons b blocks => exact h.elim
  | cons s sections ih =>
    cases blocks with
    | nil => exact h.elim
    | cons b blocks =>
      obtain ⟨hspec, -, -, -, -, hrest⟩ := h
      rw [List.map_cons, hspec, ih hrest]

lemma key_of_grouped {key : String → Option String} {es : List DocumentEntry}
    (h : Grouped key es) {e : DocumentEntry} (he : e ∈ es) :
    e.key = "" ∨ ∃ l ∈ es.flatMap DocumentEntry.lines, key l = some e.key := by
  have hkeyed : Keyed key e → ∃ l ∈ es.flatMap DocumentEntry.lines, key l = some e.key := by
    rintro ⟨first, rest, hlines, hkey, -⟩
    exact ⟨first, List.mem_flatMap.mpr ⟨e, he, by simp [hlines]⟩, hkey⟩
  cases es with
  | nil => simp at he
  | cons d es =>
    rcases List.mem_cons.mp he with rfl | hmem
    · rcases h.1 with hd | hd
      · exact .inr (hkeyed hd)
      · exact .inl hd.1
    · exact .inr (hkeyed (h.2 e hmem))

lemma entriesOf_of_first {key : String → Option String} {first : String} {rest : List String}
    (h : ∀ l ∈ rest, key l = none) :
    entriesOf key (first :: rest) = [⟨(key first).getD "", first :: rest⟩] := by
  have hgroup := group_append h []
  rw [List.append_nil] at hgroup
  simp [entriesOf, hgroup, entriesOf.group]

lemma upserted_of_ne {k : String} {es : List DocumentEntry} (h : ∀ e ∈ es, e.key ≠ k)
    (lines : List String) : upserted k lines es = es ++ [⟨k, lines⟩] := by
  have hnone : (es.any fun e => e.key = k) = false := by simpa using h
  simp [upserted, hnone]

/-- An entry that holds these lines already takes them up again under its own key only. -/
lemma upserted_singleton (k k' : String) (lines : List String) :
    upserted k lines [⟨k', lines⟩] =
      [⟨k', lines⟩] ++ if k' = k then [] else [⟨k, lines⟩] := by
  by_cases h : k' = k
  · rw [upserted_cons_of_eq h, if_pos h, h]
    rfl
  · rw [upserted_cons_of_ne h, if_neg h]
    rfl

end Shaderwright.Document
