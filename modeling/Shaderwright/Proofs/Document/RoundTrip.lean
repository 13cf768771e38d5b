import Mathlib.Tactic.Common
import Shaderwright.Document.Basic
import Shaderwright.Proofs.Text.Lines

/-!
Writing a document and reading it again. A document is laid out for its sections if every marker
is found where it was put and every entry starts with its key line; such a document is read back
from its own text.
-/

namespace Shaderwright.Document

open Shaderwright.Text

/-! ### Markers -/

lemma isPrefix_of_isMarker {marker line : String} (h : isMarker marker line = true) :
    marker.toList <+: line.toList.dropWhile isBlank := by
  obtain rfl : trim line = marker := by simpa [isMarker] using h
  simpa [trim] using trimChars_isPrefix line.toList

lemma splitAtMarker_append {marker line : String} {before : List String} (behind : List String)
    (hbefore : ∀ l ∈ before, isMarker marker l = false) (hline : isMarker marker line = true) :
    splitAtMarker marker (before ++ line :: behind) = some (before, line, behind) := by
  induction before with
  | nil => simp [splitAtMarker, hline]
  | cons l rest ih =>
    have hl := hbefore l List.mem_cons_self
    have hrest := ih fun l' h' => hbefore l' (List.mem_cons_of_mem _ h')
    simp [splitAtMarker, hl, hrest]

/-! ### Entries -/

/-- An entry that its section finds again: the first line carries its key, no other line does. -/
def Keyed (key : String → Option String) (e : DocumentEntry) : Prop :=
  ∃ first rest, e.lines = first :: rest ∧ key first = some e.key ∧ ∀ l ∈ rest, key l = none

variable {key : String → Option String}

lemma group_append {body : List String} (h : ∀ l ∈ body, key l = none) (rest : List String) :
    entriesOf.group key (body ++ rest) =
      (body ++ (entriesOf.group key rest).1, (entriesOf.group key rest).2) := by
  induction body with
  | nil => rfl
  | cons l body ih =>
    rw [List.cons_append, entriesOf.group, ih fun l' h' => h l' (List.mem_cons_of_mem _ h')]
    simp [h l List.mem_cons_self]

lemma group_flatMap {es : List DocumentEntry} (h : ∀ e ∈ es, Keyed key e) :
    entriesOf.group key (es.flatMap DocumentEntry.lines) = ([], es) := by
  induction es with
  | nil => rfl
  | cons e es ih =>
    obtain ⟨first, rest, hlines, hkey, hrest⟩ := h e List.mem_cons_self
    have hes := ih fun e' h' => h e' (List.mem_cons_of_mem _ h')
    rw [List.flatMap_cons, hlines, List.cons_append, entriesOf.group, group_append hrest, hes]
    obtain ⟨k, lines⟩ := e
    simp_all

lemma entriesOf_flatMap {es : List DocumentEntry} (h : ∀ e ∈ es, Keyed key e) :
    entriesOf key (es.flatMap DocumentEntry.lines) = es := by
  cases es with
  | nil => rfl
  | cons e es =>
    obtain ⟨first, rest, hlines, hkey, hrest⟩ := h e List.mem_cons_self
    have hes := group_flatMap fun e' h' => h e' (List.mem_cons_of_mem _ h')
    rw [List.flatMap_cons, hlines, List.cons_append, entriesOf, group_append hrest, hes]
    obtain ⟨k, lines⟩ := e
    simp_all

/-! ### Whole documents -/

/-- The lines of the blocks and what stands behind them, marked as the sections ask: the first
opening marker ends the text in front of a section, and the first closing marker starts the text
behind it. -/
def Laid : List Section → List Block → List String → Prop
  | [], [], _ => True
  | s :: sections, b :: blocks, rest =>
    b.spec = s ∧
    (∃ before opening, b.before = before ++ [opening] ∧
      (∀ l ∈ before, isMarker s.opening l = false) ∧ isMarker s.opening opening = true) ∧
    (∀ l ∈ b.entries.flatMap DocumentEntry.lines, isMarker s.closing l = false) ∧
    entriesOf s.key (b.entries.flatMap DocumentEntry.lines) = b.entries ∧
    (∃ closing behind, blocks.flatMap Block.lines ++ rest = closing :: behind ∧
      isMarker s.closing closing = true) ∧
    Laid sections blocks rest
  | _, _, _ => False

lemma ofLines_lines (all : List String) {sections : List Section} {blocks : List Block}
    {rest : List String} (h : Laid sections blocks rest) :
    ofLines all sections (blocks.flatMap Block.lines ++ rest) = .ok ⟨blocks, rest⟩ := by
  induction sections generalizing blocks with
  | nil =>
    cases blocks with
    | nil => rfl
    | cons b blocks => exact h.elim
  | cons s sections ih =>
    cases blocks with
    | nil => exact h.elim
    | cons b blocks =>
      obtain ⟨hspec, ⟨before, opening, hb, hbefore, hopening⟩, hbody, hentries,
        ⟨closing, behind, hbehind, hclosing⟩, hrest⟩ := h
      obtain ⟨front, spec, entries⟩ := b
      obtain rfl : spec = s := hspec
      obtain rfl : front = before ++ [opening] := hb
      have hlines : (Block.mk (before ++ [opening]) spec entries :: blocks).flatMap Block.lines ++
          rest = before ++ opening ::
            (entries.flatMap DocumentEntry.lines ++ closing :: behind) := by
        simp [Block.lines, ← hbehind]
      rw [hlines, ofLines, splitAtMarker_append _ hbefore hopening]
      simp only [splitAtMarker_append _ hbody hclosing]
      rw [← hbehind, ih hrest]
      simp [bind, Except.bind, pure, Except.pure, hentries]

/-- A document that is laid out for its sections is read back from its text. -/
lemma parse_text {sections : List Section} {doc : Document}
    (h : Laid sections doc.blocks doc.rest) (h0 : doc.lines ≠ [])
    (hlines : ∀ l ∈ doc.lines, IsLine l) : parse sections doc.text = .ok doc := by
  unfold parse text
  rw [lines_unlines h0 hlines]
  exact ofLines_lines _ h

/-- The lines around the sections: those in front of each, its opening marker among them, and
those behind the last one. -/
def outside (doc : Document) : List (List String) := doc.blocks.map Block.before ++ [doc.rest]

def inside? (doc : Document) (name : String) : Option (List String) :=
  (doc.block? name).map fun b => b.entries.flatMap DocumentEntry.lines

end Shaderwright.Document
