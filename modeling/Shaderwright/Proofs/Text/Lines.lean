import Mathlib.Algebra.GroupWithZero.Nat
import Mathlib.Tactic.Common
import Shaderwright.Text.Basic
import Shaderwright.Text.Quoted

/-!
Texts and their lines. Joining pieces and splitting again gives the pieces back as long as no
piece holds the separator, and quoted texts and decimal numbers never hold a line break. The
trimmed text is a piece of the text, which is how a line is told from a marker.
-/

namespace Shaderwright.Text

/-! ### Splitting and joining -/

variable {sep : Char}

lemma splitOn_cons_self (sep : Char) (cs : List Char) :
    splitOn sep (sep :: cs) = [] :: splitOn sep cs :=
  if_pos rfl

/-- A character that is no separator goes to the first piece. -/
lemma splitOn_cons_of_ne {c : Char} (hc : c ≠ sep) {cs piece : List Char} {rest : List (List Char)}
    (h : splitOn sep cs = piece :: rest) : splitOn sep (c :: cs) = (c :: piece) :: rest := by
  show (if c = sep then _ else _) = _
  rw [if_neg hc, h]

lemma exists_splitOn_eq_cons (sep : Char) (cs : List Char) :
    ∃ piece rest, splitOn sep cs = piece :: rest := by
  induction cs with
  | nil => exact ⟨[], [], rfl⟩
  | cons c cs ih =>
    by_cases hc : c = sep
    · rw [hc]
      exact ⟨[], _, splitOn_cons_self sep cs⟩
    · obtain ⟨piece, rest, h⟩ := ih
      exact ⟨_, _, splitOn_cons_of_ne hc h⟩

lemma splitOn_ne_nil (sep : Char) (cs : List Char) : splitOn sep cs ≠ [] := by
  obtain ⟨piece, rest, h⟩ := exists_splitOn_eq_cons sep cs
  rw [h]
  exact List.cons_ne_nil _ _

lemma splitOn_of_notMem {cs : List Char} (h : sep ∉ cs) : splitOn sep cs = [cs] := by
  induction cs with
  | nil => rfl
  | cons c cs ih =>
    have hc : c ≠ sep := fun e => h (e ▸ List.mem_cons_self)
    have hcs : sep ∉ cs := fun m => h (List.mem_cons_of_mem _ m)
    exact splitOn_cons_of_ne hc (ih hcs)

lemma splitOn_append (sep : Char) (cs rest : List Char) :
    splitOn sep (cs ++ sep :: rest) = splitOn sep cs ++ splitOn sep rest := by
  induction cs with
  | nil => exact splitOn_cons_self sep rest
  | cons c cs ih =>
    by_cases hc : c = sep
    · rw [hc, List.cons_append, splitOn_cons_self, splitOn_cons_self, ih, List.cons_append]
    · obtain ⟨piece, pieces, hcs⟩ := exists_splitOn_eq_cons sep cs
      rw [hcs, List.cons_append] at ih
      rw [List.cons_append, splitOn_cons_of_ne hc ih, splitOn_cons_of_ne hc hcs, List.cons_append]

lemma notMem_of_mem_splitOn {cs piece : List Char} (h : piece ∈ splitOn sep cs) :
    sep ∉ piece := by
  induction cs generalizing piece with
  | nil =>
    obtain rfl := List.mem_singleton.mp h
    exact List.not_mem_nil
  | cons c cs ih =>
    by_cases hc : c = sep
    · rw [hc, splitOn_cons_self] at h
      rcases List.mem_cons.mp h with rfl | h
      · exact List.not_mem_nil
      · exact ih h
    · obtain ⟨first, rest, hcs⟩ := exists_splitOn_eq_cons sep cs
      rw [splitOn_cons_of_ne hc hcs] at h
      rw [hcs] at ih
      rcases List.mem_cons.mp h with rfl | h
      · rw [List.mem_cons, not_or]
        exact ⟨fun e => hc e.symm, ih List.mem_cons_self⟩
      · exact ih (List.mem_cons_of_mem _ h)

@[simp] lemma joinWith_nil (separator : String) : joinWith separator [] = "" := rfl

@[simp] lemma joinWith_singleton (separator s : String) : joinWith separator [s] = s := rfl

lemma joinWith_cons (separator s : String) {rest : List String} (h : rest ≠ []) :
    joinWith separator (s :: rest) = s ++ separator ++ joinWith separator rest := by
  cases rest with
  | nil => exact absurd rfl h
  | cons t rest => rfl

lemma joinWith_cons_eq (separator s : String) (rest : List String) :
    joinWith separator (s :: rest) = s ++ joinWith "" (rest.map (separator ++ ·)) := by
  induction rest generalizing s with
  | nil => simp
  | cons t rest ih =>
    rw [joinWith_cons _ _ (by simp), ih, List.map_cons]
    cases rest with
    | nil => simp [String.append_assoc]
    | cons u rest =>
      rw [List.map_cons, joinWith_cons "" (separator ++ t) (by simp)]
      simp [String.append_assoc]

lemma pieces_joinWith {separator : String} (hs : separator.toList = [sep]) {ps : List String}
    (h0 : ps ≠ []) (h : ∀ p ∈ ps, sep ∉ p.toList) :
    pieces sep (joinWith separator ps) = ps := by
  induction ps with
  | nil => exact absurd rfl h0
  | cons p rest ih =>
    have hp := h p List.mem_cons_self
    by_cases hr : rest = []
    · subst hr
      simp [pieces, splitOn_of_notMem hp]
    · have hrest := ih hr fun q hq => h q (List.mem_cons_of_mem _ hq)
      unfold pieces at hrest ⊢
      rw [joinWith_cons _ _ hr]
      simp only [String.toList_append, hs, List.append_assoc, List.singleton_append]
      rw [splitOn_append, splitOn_of_notMem hp, List.map_append, hrest]
      simp

lemma joinWith_pieces {separator : String} (hs : separator.toList = [sep]) (s : String) :
    joinWith separator (pieces sep s) = s := by
  have hchars : ∀ cs : List Char,
      joinWith separator ((splitOn sep cs).map String.ofList) = String.ofList cs := by
    intro cs
    induction cs with
    | nil => rfl
    | cons c cs ih =>
      obtain ⟨piece, rest, hsplit⟩ := exists_splitOn_eq_cons sep cs
      rw [hsplit] at ih
      apply String.toList_injective
      by_cases hc : c = sep
      · rw [hc, splitOn_cons_self, hsplit, List.map_cons, joinWith_cons _ _ (by simp), ih]
        simp [hs]
      · have hlist := congrArg String.toList ih
        rw [splitOn_cons_of_ne hc hsplit]
        cases rest with
        | nil => simpa using hlist
        | cons next rest =>
          rw [List.map_cons, joinWith_cons _ _ (by simp)] at hlist ⊢
          simpa using hlist
  simpa [pieces] using hchars s.toList

lemma notMem_of_mem_pieces {s p : String} (h : p ∈ pieces sep s) : sep ∉ p.toList := by
  obtain ⟨cs, hcs, rfl⟩ := List.mem_map.mp h
  simpa using notMem_of_mem_splitOn hcs

def IsLine (s : String) : Prop := '\n' ∉ s.toList

instance (s : String) : Decidable (IsLine s) := inferInstanceAs (Decidable ('\n' ∉ s.toList))

lemma isLine_append {s t : String} : IsLine (s ++ t) ↔ IsLine s ∧ IsLine t := by
  simp [IsLine]

lemma lines_unlines {ls : List String} (h0 : ls ≠ []) (h : ∀ l ∈ ls, IsLine l) :
    lines (unlines ls) = ls :=
  pieces_joinWith rfl h0 h

lemma unlines_lines (s : String) : unlines (lines s) = s := joinWith_pieces rfl s

lemma lines_append (s t : String) : lines (s ++ "\n" ++ t) = lines s ++ lines t := by
  have hsplit := splitOn_append '\n' s.toList t.toList
  simp [lines, pieces, String.toList_append, hsplit]

lemma lines_append_newline (s : String) : lines (s ++ "\n") = lines s ++ [""] := by
  have hempty : lines "" = [""] := rfl
  rw [← hempty, ← lines_append, String.append_empty]

lemma lines_of_isLine {s : String} (h : IsLine s) : lines s = [s] := by
  simp [lines, pieces, splitOn_of_notMem h]

/-- The lines of joined texts are those of each text. -/
lemma lines_unlines_flatMap {ls : List String} (h0 : ls ≠ []) :
    lines (unlines ls) = ls.flatMap lines := by
  induction ls with
  | nil => exact absurd rfl h0
  | cons l rest ih =>
    by_cases hr : rest = []
    · subst hr
      simp [unlines]
    · rw [List.flatMap_cons, ← ih hr, unlines, joinWith_cons _ _ hr, lines_append]

lemma flatMap_lines {ls : List String} (h : ∀ l ∈ ls, IsLine l) : ls.flatMap lines = ls := by
  induction ls with
  | nil => rfl
  | cons l ls ih =>
    rw [List.forall_mem_cons] at h
    rw [List.flatMap_cons, lines_of_isLine h.1, ih h.2, List.singleton_append]

/-- The room that lines take up, each with a break behind it. -/
def extent (ls : List String) : Nat := (ls.map fun l => l.length + 1).sum

lemma extent_cons (l : String) (ls : List String) : extent (l :: ls) = l.length + 1 + extent ls :=
  rfl

lemma extent_append (ls ls' : List String) : extent (ls ++ ls') = extent ls + extent ls' := by
  simp [extent]

lemma extent_pos {ls : List String} (h : ls ≠ []) : 0 < extent ls := by
  obtain ⟨l, rest, rfl⟩ := List.exists_cons_of_ne_nil h
  rw [extent_cons]
  omega

lemma length_unlines {ls : List String} (h0 : ls ≠ []) : (unlines ls).length + 1 = extent ls := by
  induction ls with
  | nil => exact absurd rfl h0
  | cons l rest ih =>
    by_cases hr : rest = []
    · subst hr
      simp [unlines, extent]
    · have hrest := ih hr
      have hbreak : "\n".length = 1 := rfl
      rw [extent_cons, ← hrest, unlines, joinWith_cons _ _ hr, String.length_append,
        String.length_append, hbreak]
      omega

lemma length_unlines_lt {ls ls' : List String} (h0 : ls ≠ []) (h : extent ls < extent ls') :
    (unlines ls).length < (unlines ls').length := by
  have h0' : ls' ≠ [] := by
    rintro rfl
    exact absurd h (Nat.not_lt_zero _)
  have hls := length_unlines h0
  have hls' := length_unlines h0'
  omega

lemma lines_ne_nil (s : String) : lines s ≠ [] := by
  simp [lines, pieces, splitOn_ne_nil]

/-! ### Texts that stay on a line -/

lemma isLine_nat (n : Nat) : IsLine (toString n) := by
  intro h
  rw [Nat.toString_eq_repr, Nat.toList_repr] at h
  simpa using Nat.isDigit_of_mem_toDigits (by decide) (by decide) h

lemma mem_toString_int {n : Int} {c : Char} (h : c ∈ (toString n).toList) :
    c = '-' ∨ c.isDigit = true := by
  have hrepr : ∀ m : Nat, c ∈ m.repr.toList → c.isDigit = true := by
    intro m hm
    rw [Nat.toList_repr] at hm
    exact Nat.isDigit_of_mem_toDigits (by decide) (by decide) hm
  rw [Int.toString_eq_repr, Int.repr_eq_if] at h
  split at h
  · exact .inr (hrepr _ h)
  · rw [String.toList_append, List.mem_append] at h
    exact h.imp (by simp) (hrepr _)

lemma isLine_int (n : Int) : IsLine (toString n) := by
  intro h
  rcases mem_toString_int h with h | h
  · cases h
  · revert h
    decide

lemma newline_notMem_hexDigits (width n : Nat) : '\n' ∉ hexDigits width n := by
  induction width generalizing n with
  | zero => simp [hexDigits]
  | succ width ih =>
    have hdigit : ∀ m < 16, hexDigit m ≠ '\n' := by decide
    simp only [hexDigits, List.mem_append, List.mem_singleton, not_or]
    exact ⟨ih _, (hdigit _ (Nat.mod_lt _ (by omega))).symm⟩

lemma newline_notMem_escape (c : Char) : '\n' ∉ escape c := by
  by_cases hc : c = '\n'
  · have hesc : escape '\n' = ['\\', 'n'] := by decide +kernel
    rw [hc, hesc]
    decide
  · have hc' : '\n' ≠ c := fun e => hc e.symm
    have hx := newline_notMem_hexDigits
    have branch : ∀ (p : Prop) [Decidable p] {a b : List Char}, '\n' ∉ a → '\n' ∉ b →
        '\n' ∉ if p then a else b := by
      intro p _ a b ha hb
      split <;> assumption
    unfold escape
    repeat' apply branch
    all_goals simp [hc', hx]

lemma isLine_quote (s : String) : IsLine (quote s) := by
  simp [IsLine, quote, quoteChars, newline_notMem_escape]

/-- A text of which no character needs an escape stands for itself between the quotes. -/
lemma quote_of_plain {s : String} (h : ∀ c ∈ s.toList, escape c = [c]) :
    quote s = "\"" ++ s ++ "\"" := by
  have hflat : ∀ cs : List Char, (∀ c ∈ cs, escape c = [c]) → cs.flatMap escape = cs := by
    intro cs
    induction cs with
    | nil => simp
    | cons c cs ih =>
      intro hcs
      rw [List.flatMap_cons, hcs c List.mem_cons_self,
        ih fun d hd => hcs d (List.mem_cons_of_mem _ hd), List.singleton_append]
  apply String.toList_injective
  simp [quote, quoteChars, hflat _ h]

lemma isLine_of_plain {s : String} (h : ∀ c ∈ s.toList, escape c = [c]) : IsLine s := by
  intro hn
  have := newline_notMem_escape '\n'
  rw [h _ hn] at this
  exact this List.mem_cons_self

/-! ### Trimming -/

lemma trimChars_isPrefix (cs : List Char) : trimChars cs <+: cs.dropWhile isBlank := by
  unfold trimChars trimEnd
  have h := List.dropWhile_suffix isBlank (l := (cs.dropWhile isBlank).reverse)
  simpa using List.reverse_prefix.mpr h

lemma trimChars_eq_self {cs : List Char} (hhead : ∀ c, cs.head? = some c → isBlank c = false)
    (hlast : ∀ c, cs.getLast? = some c → isBlank c = false) : trimChars cs = cs := by
  have keep : ∀ ds : List Char, (∀ c, ds.head? = some c → isBlank c = false) →
      ds.dropWhile isBlank = ds := by
    intro ds hd
    cases ds with
    | nil => rfl
    | cons d ds => rw [List.dropWhile_cons_of_neg (by simp [hd d rfl])]
  unfold trimChars trimEnd
  rw [keep cs hhead, keep cs.reverse (by simpa using hlast), List.reverse_reverse]

lemma isBlank_last_trimChars {cs : List Char} {c : Char} (h : (trimChars cs).getLast? = some c) :
    isBlank c = false := by
  have hnot := List.head?_dropWhile_not isBlank (cs.dropWhile isBlank).reverse
  rw [trimChars, trimEnd, List.getLast?_reverse] at h
  simpa [h] using hnot

/-! ### Prefixes -/

lemma behind?_append (part text : List Char) : behind? part (part ++ text) = some text := by
  induction part with
  | nil => rfl
  | cons a part ih => simp [behind?, ih]

lemma behind?_eq_some {part text rest : List Char} :
    behind? part text = some rest ↔ text = part ++ rest := by
  constructor
  · intro h
    induction part generalizing text with
    | nil => simpa [behind?] using h
    | cons a part ih =>
      cases text with
      | nil => simp [behind?] at h
      | cons c text =>
        by_cases hac : a = c
        · subst hac
          simp only [behind?, if_true] at h
          rw [ih h, List.cons_append]
        · simp [behind?, hac] at h
  · rintro rfl
    exact behind?_append part rest

end Shaderwright.Text
