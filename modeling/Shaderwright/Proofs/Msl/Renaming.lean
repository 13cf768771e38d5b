import Mathlib.Data.List.Forall2
import Mathlib.Tactic.Common
import Shaderwright.Emit.Writer
import Shaderwright.Msl.Uniform
import Shaderwright.Proofs.Msl.Substitution
import Shaderwright.Proofs.Text.Lines

/-!
New words for old ones, as a function on texts, and the renaming of the helpers of a shader among
these functions. Words can be replaced piece by piece where one piece ends or the other starts apart
from a word, and a text without old words stays as it is.
-/

namespace Shaderwright.Msl

/-- An identifier: a word that does not start with a digit. -/
def isIdentifier (name : String) : Bool :=
  !name.isEmpty && name.toList.all isWordChar && !name.toList.head?.any Char.isDigit

lemma isWord_of_isIdentifier {name : String} (h : isIdentifier name = true) :
    IsWord name.toList := by
  simp only [isIdentifier, Bool.and_eq_true, Bool.not_eq_true', List.all_eq_true] at h
  exact ⟨by simpa using h.1.1, h.1.2⟩

/-- Whether a name may stand right behind the text. -/
def endsApart (text : String) : Bool := text.toList.getLast?.all separates

/-- Whether a name may stand right before the text. -/
def startsApart (text : String) : Bool := !text.toList.head?.any isWordChar

lemma endsApart_append {a b : String} (hb : endsApart b = true)
    (ha : b = "" → endsApart a = true) : endsApart (a ++ b) = true := by
  by_cases h : b = ""
  · simpa [h] using ha h
  · have hne : b.toList ≠ [] := by simpa using h
    simpa [endsApart, List.getLast?_append, List.getLast?_eq_some_getLast hne] using hb

lemma endsApart_of_append {a b : String} (h : endsApart (a ++ b) = true) : endsApart b = true := by
  rw [endsApart, String.toList_append, List.getLast?_append] at h
  unfold endsApart
  cases hlast : b.toList.getLast? with
  | none => rfl
  | some c => simpa [hlast] using h

def isPunctuation (text : String) : Bool := text.toList.all separates

lemma endsApart_of_isPunctuation {t : String} (h : isPunctuation t = true) :
    endsApart t = true := by
  simp only [endsApart, Option.all_eq_true]
  exact fun c hc => List.all_eq_true.mp h c (List.mem_of_getLast? hc)

lemma startsApart_of_isPunctuation {t : String} (h : isPunctuation t = true) :
    startsApart t = true := by
  simp only [startsApart, Bool.not_eq_true', Option.any_eq_false]
  intro c hc
  simpa using not_word_of_separates (List.all_eq_true.mp h c (List.mem_of_head? hc))

lemma isPunctuation_indentation (depth : Nat) : isPunctuation (Emit.indentation depth) = true := by
  have hblank : separates ' ' = true := by decide
  simp [isPunctuation, Emit.indentation, hblank]

lemma endsApart_indentation (depth : Nat) : endsApart (Emit.indentation depth) = true :=
  endsApart_of_isPunctuation (isPunctuation_indentation depth)

lemma toList_prefixed (shader name : String) :
    (prefixed shader name).toList = shader.toList ++ '_' :: name.toList := by
  simp [prefixed]

/-- Names that are made of words are words. -/
lemma isWordChar_prefixed {shader name : String}
    (hshader : ∀ c ∈ shader.toList, isWordChar c = true)
    (hname : ∀ c ∈ name.toList, isWordChar c = true) :
    ∀ c ∈ (prefixed shader name).toList, isWordChar c = true := by
  have hunderscore : isWordChar '_' = true := by decide
  rw [toList_prefixed, List.forall_mem_append, List.forall_mem_cons]
  exact ⟨hshader, hunderscore, hname⟩

/-- Words that are replaced by other words. -/
structure Rewording where
  old : List String
  new : String → String
  identifiers : ∀ n ∈ old, isIdentifier n = true

namespace Rewording

variable (ρ : Rewording)

def newChars (word : List Char) : List Char := (ρ.new (String.ofList word)).toList

def text (t : String) : String :=
  String.ofList (substitute (ρ.old.map String.toList) ρ.newChars t.toList)

lemma nil_not_mem : [] ∉ ρ.old.map String.toList := by
  refine not_mem_nil fun n hn => ?_
  obtain ⟨name, hname, rfl⟩ := List.mem_map.mp hn
  exact isWord_of_isIdentifier (ρ.identifiers name hname)

lemma text_append_of_ends {a : String} (b : String) (h : endsApart a = true) :
    ρ.text (a ++ b) = ρ.text a ++ ρ.text b := by
  rw [text, String.toList_append, substitute_append_of_last ρ.nil_not_mem _ h, String.ofList_append]
  rfl

lemma text_append_of_starts (a : String) {b : String} (h : startsApart b = true) :
    ρ.text (a ++ b) = ρ.text a ++ ρ.text b := by
  rw [text, String.toList_append, substitute_append_of_head ρ.nil_not_mem _ (by
    simpa [startsApart] using h), String.ofList_append]
  rfl

lemma toList_mem_old {word : String} :
    word.toList ∈ ρ.old.map String.toList ↔ word ∈ ρ.old := by
  simp [String.toList_inj]

lemma text_word {word : String} (h : ∀ c ∈ word.toList, isWordChar c = true) :
    ρ.text word = if word ∈ ρ.old then ρ.new word else word := by
  rw [text, substitute_word h, renamed]
  simp only [toList_mem_old]
  split
  · rw [newChars, String.ofList_toList, String.ofList_toList]
  · exact String.ofList_toList

/-! ### Pieces of texts -/

def Renames (t t' : String) : Prop := ρ.text t = t'

def Fixes (t : String) : Prop := ρ.Renames t t

/-- Twice the same text, in which nothing is replaced. -/
def Kept (t t' : String) : Prop := t' = t ∧ ρ.Fixes t

variable {ρ}

lemma Kept.renames {t t' : String} (h : ρ.Kept t t') : ρ.Renames t t' := by
  obtain ⟨rfl, hfix⟩ := h
  exact hfix

lemma Renames.append_of_ends {a a' b b' : String} (ha : ρ.Renames a a') (hb : ρ.Renames b b')
    (h : endsApart a = true) : ρ.Renames (a ++ b) (a' ++ b') := by
  rw [Renames, ρ.text_append_of_ends b h, ha, hb]

lemma Renames.append_of_starts {a a' b b' : String} (ha : ρ.Renames a a') (hb : ρ.Renames b b')
    (h : startsApart b = true) : ρ.Renames (a ++ b) (a' ++ b') := by
  rw [Renames, ρ.text_append_of_starts a h, ha, hb]

/-! ### Texts that stay -/

lemma fixes_of_exposed {t : String}
    (h : ∀ word ∈ exposed t.toList, word ∉ ρ.old.map String.toList) : ρ.Fixes t := by
  rw [Fixes, Renames, text, substitute_of_exposed h, String.ofList_toList]

lemma fixes_word {word : String} (h : ∀ c ∈ word.toList, isWordChar c = true)
    (hmem : word ∉ ρ.old) : ρ.Fixes word := by
  rw [Fixes, Renames, ρ.text_word h, if_neg hmem]

lemma fixes_of_isPunctuation {t : String} (h : isPunctuation t = true) : ρ.Fixes t := by
  refine fixes_of_exposed fun word hword => ?_
  cases word with
  | nil => exact ρ.nil_not_mem
  | cons c word =>
    have hc := mem_of_mem_exposed hword (List.mem_cons_self : c ∈ c :: word)
    rw [not_word_of_separates (List.all_eq_true.mp h c hc.1)] at hc
    cases hc.2

lemma Renames.closed {a a' mark : String} (ha : ρ.Renames a a') (h : isPunctuation mark = true) :
    ρ.Renames (a ++ mark) (a' ++ mark) :=
  ha.append_of_starts (fixes_of_isPunctuation h) (startsApart_of_isPunctuation h)

lemma Renames.joined {a a' b b' mark : String} (ha : ρ.Renames a a') (hb : ρ.Renames b b')
    (h : isPunctuation mark = true) (hne : mark ≠ "") :
    ρ.Renames (a ++ mark ++ b) (a' ++ mark ++ b') :=
  (ha.closed h).append_of_ends hb
    (endsApart_append (endsApart_of_isPunctuation h) fun hempty => absurd hempty hne)

lemma Renames.joinWith {mark : String} (h : isPunctuation mark = true) (hne : mark ≠ "")
    {ts ts' : List String} (hts : List.Forall₂ ρ.Renames ts ts') :
    ρ.Renames (Text.joinWith mark ts) (Text.joinWith mark ts') := by
  induction hts with
  | nil => exact (fixes_of_isPunctuation (by decide) : ρ.Fixes "")
  | @cons t t' ts ts' ht hts ih =>
    cases hts with
    | nil => exact ht
    | cons => exact ht.joined ih h hne

lemma not_mem_of_digit {word : List Char} {c : Char} (hc : word.head? = some c)
    (h : c.isDigit = true) : word ∉ ρ.old.map String.toList := by
  intro hmem
  obtain ⟨name, hname, rfl⟩ := List.mem_map.mp hmem
  have hid := ρ.identifiers name hname
  simp [isIdentifier, hc, h] at hid

/-- A text whose words are numbers or among some words that stay. -/
lemma fixes_of_words {words : List String} (hwords : ∀ w ∈ words, w ∉ ρ.old) {t : String}
    (h : ((exposed t.toList).all fun word => word.isEmpty || word.head?.any Char.isDigit ||
      words.contains (String.ofList word)) = true) : ρ.Fixes t := by
  refine fixes_of_exposed fun word hword => ?_
  have hcase := List.all_eq_true.mp h word hword
  simp only [Bool.or_eq_true, List.isEmpty_iff, Option.any_eq_true, List.contains_iff_mem] at hcase
  rcases hcase with (rfl | ⟨c, hc, hdigit⟩) | hmem
  · exact ρ.nil_not_mem
  · exact not_mem_of_digit hc hdigit
  · rw [← String.toList_ofList (l := word), toList_mem_old]
    exact hwords _ hmem

lemma fixes_of_hidden {t : String} (h : (exposed t.toList).all List.isEmpty = true) :
    ρ.Fixes t := by
  refine fixes_of_exposed fun word hword => ?_
  rw [List.isEmpty_iff.mp (List.all_eq_true.mp h word hword)]
  exact ρ.nil_not_mem

lemma fixes_of_chars {t : String}
    (h : ∀ c ∈ t.toList, isWordChar c = true → c.isDigit = true) : ρ.Fixes t := by
  refine fixes_of_exposed fun word hword => ?_
  cases word with
  | nil => exact ρ.nil_not_mem
  | cons c word =>
    have hc := mem_of_mem_exposed hword (List.mem_cons_self : c ∈ c :: word)
    exact not_mem_of_digit rfl (h c hc.1 hc.2)

lemma isDigit_of_mem_toString {n : Int} {c : Char} (h : c ∈ (toString n).toList)
    (hword : isWordChar c = true) : c.isDigit = true := by
  refine (Text.mem_toString_int h).resolve_left ?_
  rintro rfl
  revert hword
  decide

end Rewording

/-- Helpers that get the name of a shader in front of their own. -/
structure Renaming extends Rewording where
  shader : String
  new_eq : new = prefixed shader

namespace Renaming

variable (ρ : Renaming)

abbrev helpers : List String := ρ.old

def of (shader : String) (helpers : List String) (h : ∀ n ∈ helpers, isIdentifier n = true) :
    Renaming where
  old := helpers
  new := prefixed shader
  identifiers := h
  shader := shader
  new_eq := rfl

/-- The helpers of a text are renamed, as long as they can be searched. -/
lemma renameHelpers_eq_text (t : String) :
    renameHelpers ρ.shader ρ.helpers t.toList =
      if searchable ρ.helpers then some (ρ.text t).toList else none := by
  have hnew : ρ.newChars = (ρ.shader.toList ++ '_' :: ·) := by
    funext word
    rw [Rewording.newChars, ρ.new_eq, toList_prefixed, String.toList_ofList]
  rw [renameHelpers_eq fun n hn => isWord_of_isIdentifier (ρ.identifiers n hn), Rewording.text,
    String.toList_ofList, hnew]

lemma searchable_of_renameHelpers {t : String} {renamed : List Char}
    (h : renameHelpers ρ.shader ρ.helpers t.toList = some renamed) :
    searchable ρ.helpers = true := by
  rw [renameHelpers_eq_text] at h
  split at h
  · assumption
  · cases h

lemma eq_text_of_renameHelpers {t : String} {renamed : List Char}
    (h : renameHelpers ρ.shader ρ.helpers t.toList = some renamed) :
    renamed = (ρ.text t).toList := by
  rw [renameHelpers_eq_text] at h
  split at h
  · exact (Option.some.inj h).symm
  · cases h

end Renaming

end Shaderwright.Msl
