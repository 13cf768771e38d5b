import Mathlib.Tactic.Common
import Shaderwright.Proofs.Msl.Interchange
import Shaderwright.Proofs.Msl.Pattern

/-!
The renaming of helpers as a replacement of tokens. Every text is in one way a sequence of words
with single other characters between them; the words that are helpers and do not stand behind a dot
are replaced, all at once, and nothing else is.
-/

namespace Shaderwright.Msl

/-- The words of a text, some of them empty, with the characters that keep them apart. -/
@[ext] structure Tokens where
  first : String
  /-- Every character that belongs to no word, with the word behind it. -/
  rest : List (Char × String)
  word : ∀ c ∈ first.toList, isWordChar c = true
  apart : ∀ r ∈ rest, isWordChar r.1 = false ∧ ∀ c ∈ r.2.toList, isWordChar c = true

namespace Tokens

/-- The text with other words in it. What becomes of a word may depend on the character in front of
it, which the first one does not have. -/
def replace (t : Tokens) (new : Option Char → String → String) : String :=
  t.rest.foldl (fun text r => text.push r.1 ++ new (some r.1) r.2) (new none t.first)

def text (t : Tokens) : String := t.replace fun _ word => word

lemma toList_replace (t : Tokens) (new : Option Char → String → String) :
    (t.replace new).toList =
      (new none t.first).toList ++ t.rest.flatMap fun r => r.1 :: (new (some r.1) r.2).toList := by
  unfold replace
  generalize new none t.first = start
  induction t.rest generalizing start with
  | nil => simp
  | cons r rest ih => simp [ih]

lemma runs_text (t : Tokens) :
    runs t.text.toList = (t.first.toList, t.rest.map fun r => (r.1, r.2.toList)) := by
  have hrest : ∀ r ∈ t.rest.map fun r => (r.1, r.2.toList),
      isWordChar r.1 = false ∧ ∀ c ∈ r.2, isWordChar c = true := by
    intro r hr
    obtain ⟨q, hq, rfl⟩ := List.mem_map.mp hr
    exact t.apart q hq
  rw [← runs_join t.word hrest, text, toList_replace, List.flatMap_map]

def ofText (text : String) : Tokens where
  first := String.ofList (runs text.toList).1
  rest := (runs text.toList).2.map fun r => (r.1, String.ofList r.2)
  word c hc := (mem_of_mem_runs text.toList _ List.mem_cons_self c (by simpa using hc)).2
  apart r hr := by
    obtain ⟨q, hq, rfl⟩ := List.mem_map.mp hr
    simpa using runs_rest text.toList q hq

lemma text_ofText (s : String) : (ofText s).text = s := by
  rw [← String.toList_inj, text, toList_replace]
  simpa [ofText, List.flatMap_map] using Msl.runs_text s.toList

lemma ofText_text (t : Tokens) : ofText t.text = t := by
  have hruns := t.runs_text
  ext1
  · simp [ofText, hruns]
  · simp [ofText, hruns, Function.comp_def]

/-- A helper that does not stand behind a dot gets the name of the shader in front. -/
def underShader (shader : String) (helpers : List String) (before : Option Char) (word : String) :
    String :=
  if word ∈ helpers ∧ before ≠ some '.' then prefixed shader word else word

lemma substitute_text (shader : String) (helpers : List String) (t : Tokens) :
    substitute (helpers.map String.toList) (shader.toList ++ '_' :: ·) t.text.toList =
      (t.replace (underShader shader helpers)).toList := by
  have hword : ∀ before word, before ≠ some '.' →
      renamed (helpers.map String.toList) (shader.toList ++ '_' :: ·) word.toList =
        (underShader shader helpers before word).toList := by
    intro before word hbefore
    by_cases hmem : word ∈ helpers <;>
      simp [renamed, underShader, String.toList_inj, hmem, hbefore, toList_prefixed]
  have hrest : ∀ r : Char × String,
      (r.1 :: if r.1 = '.' then r.2.toList
        else renamed (helpers.map String.toList) (shader.toList ++ '_' :: ·) r.2.toList) =
        r.1 :: (underShader shader helpers (some r.1) r.2).toList := by
    intro r
    by_cases hdot : r.1 = '.'
    · simp [hdot, underShader]
    · rw [if_neg hdot, hword (some r.1) r.2 (by simpa using hdot)]
  rw [substitute, runs_text, toList_replace, hword none t.first (by simp)]
  simp only [substituteRest, List.flatMap_map, hrest]

end Tokens

/-- Renaming replaces those helpers among the words of a text that do not stand behind a dot, and
nothing else, provided that the helpers are words and can be searched. If they cannot, no text is
renamed. Apart from this it does not matter in which order or how often the helpers are listed. -/
theorem rename_replaces_tokens (shader : String) {helpers : List String}
    (h : ∀ n ∈ helpers, IsWord n.toList) (text : String) :
    (∃! t : Tokens, t.text = text) ∧
      (∀ t : Tokens, t.text = text → rename shader helpers false text =
        if searchable helpers then
          some (t.replace fun before word =>
            if word ∈ helpers ∧ before ≠ some '.' then prefixed shader word else word)
        else none) ∧
      (∀ helpers', (∀ n, n ∈ helpers' ↔ n ∈ helpers) → searchable helpers' = searchable helpers →
        rename shader helpers' false text = rename shader helpers false text) ∧
      (helpers.length ≤ 1000 → (∀ n ∈ helpers, n.toList.length ≤ 498) →
        searchable helpers = true) := by
  have hrename : ∀ {helpers : List String}, (∀ n ∈ helpers, IsWord n.toList) →
      ∀ t : Tokens, rename shader helpers false t.text =
        if searchable helpers then some (t.replace (Tokens.underShader shader helpers))
        else none := by
    intro helpers h t
    rw [rename, renameHelpers_eq h, Tokens.substitute_text]
    cases searchable helpers <;> simp
  refine ⟨⟨Tokens.ofText text, Tokens.text_ofText text, ?_⟩, ?_, fun helpers' hsame hsearch => ?_,
    fun hcount hlength => searchable_of_length_le hcount hlength⟩
  · rintro t rfl
    exact t.ofText_text.symm
  · rintro t rfl
    exact hrename h t
  · have hnew : Tokens.underShader shader helpers' = Tokens.underShader shader helpers := by
      funext before word
      simp only [Tokens.underShader, hsame]
    rw [← Tokens.text_ofText text, hrename h, hrename fun n hn => h n ((hsame n).mp hn), hnew,
      hsearch]

/-- One helper starts with another one, and one is called like another one in the end. -/
theorem rename_replaces_tokens_wave :
    (∀ n ∈ ["a", "ab", "Wave_a"], IsWord n.toList) ∧ searchable ["a", "ab", "Wave_a"] = true ∧
      rename "Wave" ["a", "ab", "Wave_a"] false "a(ab,Wave_a).ab a" =
        some "Wave_a(Wave_ab,Wave_Wave_a).ab Wave_a" ∧
      rename "Wave" ["Wave_a", "ab", "a", "ab"] false "a(ab,Wave_a).ab a" =
        some "Wave_a(Wave_ab,Wave_Wave_a).ab Wave_a" := by
  have hwords : ∀ n ∈ ["a", "ab", "Wave_a"], IsWord n.toList := by
    intro n hn
    simp only [List.mem_cons, List.not_mem_nil, or_false] at hn
    rcases hn with rfl | rfl | rfl <;> exact isWord_of_isIdentifier (by decide)
  have hsearch' : searchable ["Wave_a", "ab", "a", "ab"] = true := by decide +kernel
  obtain ⟨-, hreplace, horder, hshort⟩ := rename_replaces_tokens "Wave" hwords "a(ab,Wave_a).ab a"
  have hsearch := hshort (by decide) (by decide)
  have hresult := hreplace (Tokens.ofText "a(ab,Wave_a).ab a") (Tokens.text_ofText _)
  rw [if_pos hsearch] at hresult
  refine ⟨hwords, hsearch, ?_, ?_⟩
  · rw [hresult]
    decide +kernel
  · rw [horder _ (fun n => by simp [or_comm, or_left_comm]) (hsearch'.trans hsearch.symm), hresult]
    decide +kernel

/-- Of 500 helpers that extend each other by one letter no text is renamed, although a word of the
text may be one of them. -/
theorem rename_fails_towerNames :
    (∀ n ∈ towerNames 500, IsWord n.toList) ∧
      (∃ t : Tokens, t.text = "f" ∧ t.replace (fun before word =>
        if word ∈ towerNames 500 ∧ before ≠ some '.' then prefixed "Wave" word else word) =
          "Wave_f") ∧
      ∀ text, rename "Wave" (towerNames 500) false text = none := by
  have hsearch : ¬ searchable (towerNames 500) = true := by
    rw [searchable_towerNames]
    decide
  have hword := (isWord_of_isIdentifier (by decide : isIdentifier "f" = true)).word
  have hmem : "f" ∈ towerNames 500 := by
    rw [towerNames, Pattern.tower, List.map_cons, List.map_cons]
    exact List.mem_cons_self
  refine ⟨fun n hn => isWord_of_mem_towerNames hn, ⟨⟨"f", [], hword, by simp⟩, rfl, ?_⟩,
    fun text => ?_⟩
  · rw [Tokens.replace, List.foldl_nil, if_pos ⟨hmem, by simp⟩]
    rfl
  · rw [rename, renameHelpers_eq fun n hn => isWord_of_mem_towerNames hn, if_neg hsearch]
    rfl

end Shaderwright.Msl
