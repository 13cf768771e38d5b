import Mathlib.Tactic.Common
import Shaderwright.Proofs.Document.Placement

/-!
Which texts can be read. The reader gives every marker the first line that it can have behind the
marker before it. It succeeds as soon as there is any choice of lines for all markers, and otherwise
it names the first marker that is left without a line.
-/

namespace Shaderwright.Document

open Shaderwright.Text

/-! ### Lines of markers -/

/-- The line of this number is the marker, up to white space around it. -/
def MarkerAt (lines : List String) (marker : String) (i : Nat) : Prop :=
  ∃ line, lines[i]? = some line ∧ trim line = marker

/-- The first line from `start` on that is the marker. -/
def FirstAt (lines : List String) (start : Nat) (marker : String) (i : Nat) : Prop :=
  start ≤ i ∧ MarkerAt lines marker i ∧ ∀ j, start ≤ j → j < i → ¬ MarkerAt lines marker j

/-- Lines for the markers of all sections, from `start` on: every section is closed behind the line
that opens it, and opened no earlier than the section before it is closed. -/
def Placed (lines : List String) : Nat → List Section → List (Nat × Nat) → Prop
  | _, [], [] => True
  | start, s :: sections, (opening, closing) :: places =>
    start ≤ opening ∧ MarkerAt lines s.opening opening ∧
      opening < closing ∧ MarkerAt lines s.closing closing ∧ Placed lines closing sections places
  | _, _, _ => False

/-- The markers in their order, each with the number of lines that it has to stand at least behind
the one before it. -/
def marks (sections : List Section) : List (Nat × String) :=
  sections.flatMap fun s => [(0, s.opening), (1, s.closing)]

/-- Each marker has the first line that it can have behind the one before it; `last` is the line of
the last one. -/
inductive Earliest (lines : List String) : Nat → List (Nat × String) → Nat → Prop
  | nil (start : Nat) : Earliest lines start [] start
  | cons {start gap i last : Nat} {marker : String} {rest : List (Nat × String)} :
    FirstAt lines (start + gap) marker i → Earliest lines i rest last →
      Earliest lines start ((gap, marker) :: rest) last

/-- The first marker that is left without a line when each one before it has the first line that it
can have. -/
inductive FirstUnplaced (lines : List String) : Nat → List (Nat × String) → String → Prop
  | here {start gap : Nat} {marker : String} {rest : List (Nat × String)} :
    (∀ i, start + gap ≤ i → ¬ MarkerAt lines marker i) →
      FirstUnplaced lines start ((gap, marker) :: rest) marker
  | later {start gap i : Nat} {marker unplaced : String} {rest : List (Nat × String)} :
    FirstAt lines (start + gap) marker i → FirstUnplaced lines i rest unplaced →
      FirstUnplaced lines start ((gap, marker) :: rest) unplaced

variable {all lines : List String} {marker : String} {start : Nat} {sections : List Section}

lemma FirstAt.unique {i j : Nat} (hi : FirstAt lines start marker i)
    (hj : FirstAt lines start marker j) : i = j := by
  obtain ⟨hstart, hmarker, hfirst⟩ := hi
  obtain ⟨hstart', hmarker', hfirst'⟩ := hj
  rcases Nat.lt_trichotomy i j with hlt | heq | hgt
  · exact absurd hmarker (hfirst' i hstart hlt)
  · exact heq
  · exact absurd hmarker' (hfirst j hstart' hgt)

lemma Earliest.not_firstUnplaced {ms : List (Nat × String)} {last : Nat}
    (h : Earliest lines start ms last) : ¬ FirstUnplaced lines start ms marker := by
  induction h with
  | nil => exact fun hu => nomatch hu
  | cons hfirst _ ih =>
    intro hu
    cases hu with
    | here hnone => exact hnone _ hfirst.1 hfirst.2.1
    | later hfirst' hu => exact ih (hfirst.unique hfirst' ▸ hu)

lemma FirstUnplaced.unique {ms : List (Nat × String)} {marker' : String}
    (h : FirstUnplaced lines start ms marker) (h' : FirstUnplaced lines start ms marker') :
    marker = marker' := by
  induction h with
  | here hnone =>
    cases h' with
    | here => rfl
    | later hfirst => exact absurd hfirst.2.1 (hnone _ hfirst.1)
  | later hfirst _ ih =>
    cases h' with
    | here hnone => exact absurd hfirst.2.1 (hnone _ hfirst.1)
    | later hfirst' hu => exact ih (hfirst'.unique hfirst ▸ hu)

/-! ### Reading finds the first lines -/

lemma isMarker_iff {line : String} : isMarker marker line = true ↔ trim line = marker := by
  simp [isMarker]

lemma splitAtMarker_eq_none {ls : List String} (h : splitAtMarker marker ls = none) :
    ∀ l ∈ ls, isMarker marker l = false := by
  induction ls with
  | nil => simp
  | cons l ls ih =>
    rw [splitAtMarker] at h
    split at h
    · cases h
    · rename_i hl
      simpa [hl] using ih (Option.map_eq_none_iff.mp h)

/-- A marker that is found has the first line from there on. -/
lemma firstAt_of_splitAtMarker {line : String} {before behind : List String}
    (h : splitAtMarker marker (all.drop start) = some (before, line, behind)) :
    FirstAt all start marker (start + before.length) ∧
      all.drop (start + before.length) = line :: behind ∧
      behind = all.drop (start + before.length + 1) := by
  obtain ⟨hdrop, hbefore, hline⟩ := splitAtMarker_eq_some h
  have hfound : all.drop (start + before.length) = line :: behind := by
    rw [← List.drop_drop, hdrop, List.drop_left]
  have hget : ∀ i, all[start + i]? = (before ++ line :: behind)[i]? := by
    intro i
    rw [← hdrop, List.getElem?_drop]
  refine ⟨⟨by omega, ⟨line, by simp [hget], isMarker_iff.mp hline⟩, ?_⟩, hfound, ?_⟩
  · rintro j hj hlt ⟨l, hl, htrim⟩
    obtain ⟨i, rfl⟩ := Nat.exists_eq_add_of_le hj
    rw [hget, List.getElem?_append_left (by omega)] at hl
    have hnot := hbefore l (List.mem_of_getElem? hl)
    rw [isMarker_iff.mpr htrim] at hnot
    cases hnot
  · rw [← List.drop_drop, hfound, List.drop_succ_cons, List.drop_zero]

lemma not_markerAt_of_splitAtMarker (h : splitAtMarker marker (all.drop start) = none) :
    ∀ i, start ≤ i → ¬ MarkerAt all marker i := by
  rintro i hi ⟨l, hl, htrim⟩
  obtain ⟨n, rfl⟩ := Nat.exists_eq_add_of_le hi
  rw [← List.getElem?_drop] at hl
  have hnot := splitAtMarker_eq_none h l (List.mem_of_getElem? hl)
  rw [isMarker_iff.mpr htrim] at hnot
  cases hnot

lemma marks_cons (s : Section) (sections : List Section) :
    marks (s :: sections) = (0, s.opening) :: (1, s.closing) :: marks sections := rfl

/-- The reader places all markers, or it stops at the first one that has no line. -/
lemma ofLines_cases (all : List String) (sections : List Section) (start : Nat) :
    (∃ doc last, ofLines all sections (all.drop start) = .ok doc ∧
      Earliest all start (marks sections) last) ∨
    ∃ marker, ofLines all sections (all.drop start) = .error (unplaced all marker) ∧
      FirstUnplaced all start (marks sections) marker := by
  induction sections generalizing start with
  | nil => exact .inl ⟨_, start, rfl, .nil start⟩
  | cons s sections ih =>
    rw [ofLines, marks_cons]
    rcases hopening : splitAtMarker s.opening (all.drop start) with _ | ⟨before, opening, behind⟩
    · exact .inr ⟨s.opening, rfl, .here (not_markerAt_of_splitAtMarker hopening)⟩
    obtain ⟨hfirst, -, hbehind⟩ := firstAt_of_splitAtMarker hopening
    dsimp only
    rw [hbehind]
    rcases hclosing : splitAtMarker s.closing (all.drop (start + before.length + 1)) with
      _ | ⟨body, closing, rest⟩
    · exact .inr ⟨s.closing, rfl, .later hfirst (.here (not_markerAt_of_splitAtMarker hclosing))⟩
    obtain ⟨hfirst', hdrop', -⟩ := firstAt_of_splitAtMarker hclosing
    dsimp only
    rw [← hdrop']
    rcases ih (start + before.length + 1 + body.length) with
      ⟨doc, last, hdoc, hlast⟩ | ⟨marker, herror, hmarker⟩
    · rw [hdoc]
      exact .inl ⟨_, last, rfl, .cons hfirst (.cons hfirst' hlast)⟩
    · rw [herror]
      exact .inr ⟨marker, rfl, .later hfirst (.later hfirst' hmarker)⟩

/-! ### Any choice of lines will do -/

lemma exists_placed_of_earliest {last : Nat} (h : Earliest lines start (marks sections) last) :
    ∃ places, Placed lines start sections places := by
  induction sections generalizing start with
  | nil => exact ⟨[], trivial⟩
  | cons s sections ih =>
    rw [marks_cons] at h
    obtain _ | ⟨hopening, _ | ⟨hclosing, hrest⟩⟩ := h
    obtain ⟨places, hplaces⟩ := ih hrest
    exact ⟨(_, _) :: places, hopening.1, hopening.2.1, hclosing.1, hclosing.2.1, hplaces⟩

lemma MarkerAt.drop_eq {i : Nat} (h : MarkerAt lines marker i) :
    ∃ line, isMarker marker line = true ∧ lines.drop i = line :: lines.drop (i + 1) := by
  obtain ⟨line, hget, htrim⟩ := h
  obtain ⟨hi, rfl⟩ := List.getElem?_eq_some_iff.mp hget
  exact ⟨_, isMarker_iff.mpr htrim, List.drop_eq_getElem_cons hi⟩

/-- Lines that are chosen for the markers stand in their order. -/
lemma marked_of_placed {places : List (Nat × Nat)} (h : Placed lines start sections places) :
    Marked sections (lines.drop start) := by
  induction sections generalizing start places with
  | nil => trivial
  | cons s sections ih =>
    cases places with
    | nil => exact h.elim
    | cons place places =>
      obtain ⟨hstart, hopening, hlt, hclosing, hrest⟩ := h
      obtain ⟨opening, hopen, hdrop⟩ := hopening.drop_eq
      obtain ⟨closing, hclose, hdrop'⟩ := hclosing.drop_eq
      have hmarked := ih hrest
      have hopens := List.drop_suffix_drop_left lines hstart
      have hcloses := List.drop_suffix_drop_left lines hlt
      rw [hdrop'] at hmarked hcloses
      rw [hdrop] at hopens
      exact ⟨opening, _, closing, _, hopens, hopen, hcloses, hclose, hmarked⟩

/-- A marker without a line is missing, unless it stands somewhere in the lines. -/
lemma eq_unplaced_iff {e : DocumentError} :
    e = unplaced all marker ↔
      (e = .missingMarker marker ∧ ∀ line ∈ all, trim line ≠ marker) ∨
        (e = .markerOrder marker ∧ ∃ line ∈ all, trim line = marker) := by
  have hany : all.any (isMarker marker) = true ↔ ∃ line ∈ all, trim line = marker := by
    simp [isMarker]
  unfold unplaced
  split
  · rename_i hsome
    obtain ⟨line, hmem, htrim⟩ := hany.mp hsome
    refine ⟨fun he => .inr ⟨he, line, hmem, htrim⟩, ?_⟩
    rintro (⟨-, hnone⟩ | ⟨he, -⟩)
    · exact absurd htrim (hnone line hmem)
    · exact he
  · rename_i hnone
    rw [hany] at hnone
    refine ⟨fun he => .inl ⟨he, fun line hmem htrim => hnone ⟨line, hmem, htrim⟩⟩, ?_⟩
    rintro (⟨he, -⟩ | ⟨-, hsome⟩)
    · exact he
    · exact absurd hsome hnone

/-- A text can be read if and only if there are lines for all markers in their order. When it
cannot, the reader names the first marker that has no line behind the first possible lines of those
before it, and tells whether it stands anywhere in the text. -/
theorem parse_iff_placed (sections : List Section) (text : String) :
    ((∃ doc, parse sections text = .ok doc) ↔
      ∃ places, Placed (Text.lines text) 0 sections places) ∧
    ∀ e, parse sections text = .error e ↔
      ∃ marker, FirstUnplaced (Text.lines text) 0 (marks sections) marker ∧
        ((e = .missingMarker marker ∧ ∀ line ∈ Text.lines text, trim line ≠ marker) ∨
          (e = .markerOrder marker ∧ ∃ line ∈ Text.lines text, trim line = marker)) := by
  have hread : parse sections text =
      ofLines (Text.lines text) sections ((Text.lines text).drop 0) := rfl
  constructor
  · constructor
    · rintro ⟨doc, hdoc⟩
      obtain ⟨_, last, -, hlast⟩ | ⟨marker, herror, -⟩ :=
        ofLines_cases (Text.lines text) sections 0
      · exact exists_placed_of_earliest hlast
      · cases (hread.symm.trans hdoc).symm.trans herror
    · rintro ⟨places, hplaces⟩
      exact exists_ofLines (marked_of_placed hplaces) _
  · intro e
    simp only [← eq_unplaced_iff]
    obtain ⟨doc, last, hdoc, hlast⟩ | ⟨marker, herror, hmarker⟩ :=
      ofLines_cases (Text.lines text) sections 0
    · rw [hread, hdoc]
      constructor
      · intro h
        cases h
      · rintro ⟨marker, hmarker, -⟩
        exact absurd hmarker hlast.not_firstUnplaced
    · rw [hread, herror]
      constructor
      · intro h
        exact ⟨marker, hmarker, (Except.error.inj h).symm⟩
      · rintro ⟨marker', hmarker', rfl⟩
        rw [hmarker.unique hmarker']

end Shaderwright.Document
