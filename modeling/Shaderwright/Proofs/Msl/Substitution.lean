import Mathlib.Tactic.Common
import Shaderwright.Msl.Rename
import Shaderwright.Proofs.Text.Lines

/-!
Renaming as a substitution of words. A text is a sequence of words with other characters between
them, and renaming replaces those words that are names and do not stand behind a dot, all at once
and in whatever order the names come.
-/

namespace Shaderwright.Msl

lemma not_word_of_separates {c : Char} (h : separates c = true) : isWordChar c = false := by
  simp only [separates, Bool.and_eq_true] at h
  simpa using h.2

lemma ne_dot_of_separates {c : Char} (h : separates c = true) : c ≠ '.' := by
  rintro rfl
  simp [separates] at h

lemma not_separates {c : Char} (h : isWordChar c = false) : separates c = false ↔ c = '.' := by
  simp [separates, h]

/-- A text as the word that it starts with, which may be empty, and then every other character
with the word behind it. -/
def runs : List Char → List Char × List (Char × List Char)
  | [] => ([], [])
  | c :: text =>
    if isWordChar c then (c :: (runs text).1, (runs text).2)
    else ([], (c, (runs text).1) :: (runs text).2)

@[simp] lemma runs_nil : runs [] = ([], []) := rfl

lemma runs_cons_word {c : Char} (hc : isWordChar c = true) (text : List Char) :
    runs (c :: text) = (c :: (runs text).1, (runs text).2) :=
  if_pos hc

lemma runs_cons_other {c : Char} (hc : isWordChar c = false) (text : List Char) :
    runs (c :: text) = ([], (c, (runs text).1) :: (runs text).2) :=
  if_neg (by simp [hc])

/-- A name that renaming can find: a word that is not empty. -/
structure IsWord (name : List Char) : Prop where
  ne_nil : name ≠ []
  word : ∀ c ∈ name, isWordChar c = true

lemma runs_word_append {word : List Char} (hword : ∀ c ∈ word, isWordChar c = true)
    (text : List Char) : runs (word ++ text) = (word ++ (runs text).1, (runs text).2) := by
  induction word with
  | nil => rfl
  | cons c word ih =>
    rw [List.forall_mem_cons] at hword
    rw [List.cons_append, runs_cons_word hword.1, ih hword.2, List.cons_append]

lemma runs_word {word : List Char} (hword : ∀ c ∈ word, isWordChar c = true) :
    runs word = (word, []) := by
  simpa using runs_word_append hword []

lemma runs_of_head {text : List Char} (h : text.head?.any isWordChar = false) :
    runs text = ([], (runs text).2) := by
  cases text with
  | nil => rfl
  | cons c text =>
    have hc : isWordChar c = false := by simpa using h
    rw [runs_cons_other hc]

/-- A text is its first word and a rest that starts with no word. -/
lemma runs_split (text : List Char) :
    ∃ tail, text = (runs text).1 ++ tail ∧ (∀ c ∈ (runs text).1, isWordChar c = true) ∧
      tail.head?.any isWordChar = false ∧ runs tail = ([], (runs text).2) := by
  induction text with
  | nil => exact ⟨[], by simp⟩
  | cons c text ih =>
    cases hc : isWordChar c with
    | true =>
      obtain ⟨tail, htext, hword, hhead, hruns⟩ := ih
      rw [runs_cons_word hc]
      exact ⟨tail, congrArg (c :: ·) htext, List.forall_mem_cons.mpr ⟨hc, hword⟩, hhead, hruns⟩
    | false =>
      rw [runs_cons_other hc]
      exact ⟨c :: text, rfl, by simp, by simp [hc], runs_cons_other hc text⟩

lemma runs_drop (text : List Char) :
    runs (text.drop (runs text).1.length) = ([], (runs text).2) := by
  obtain ⟨tail, htext, -, -, hruns⟩ := runs_split text
  have htail : text.drop (runs text).1.length = tail := by
    generalize (runs text).1 = word at htext
    rw [htext, List.drop_left]
  rw [htail, hruns]

lemma runs_append {text : List Char} (before : List Char)
    (h : text.head?.any isWordChar = false) :
    runs (before ++ text) = ((runs before).1, (runs before).2 ++ (runs text).2) := by
  induction before with
  | nil => simpa using runs_of_head h
  | cons c before ih =>
    cases hc : isWordChar c with
    | true => rw [List.cons_append, runs_cons_word hc, runs_cons_word hc, ih]
    | false => rw [List.cons_append, runs_cons_other hc, runs_cons_other hc, ih, List.cons_append]

lemma mem_of_mem_runs (text : List Char) :
    ∀ word ∈ (runs text).1 :: (runs text).2.map Prod.snd,
      ∀ c ∈ word, c ∈ text ∧ isWordChar c = true := by
  induction text with
  | nil => simp
  | cons d text ih =>
    rw [List.forall_mem_cons] at ih
    have hfirst : ∀ c ∈ (runs text).1, c ∈ d :: text ∧ isWordChar c = true :=
      fun c hc => (ih.1 c hc).imp_left (List.mem_cons_of_mem d)
    have hrest : ∀ word ∈ (runs text).2.map Prod.snd, ∀ c ∈ word,
        c ∈ d :: text ∧ isWordChar c = true :=
      fun word hword c hc => (ih.2 word hword c hc).imp_left (List.mem_cons_of_mem d)
    cases hd : isWordChar d with
    | true =>
      rw [runs_cons_word hd, List.forall_mem_cons, List.forall_mem_cons]
      exact ⟨⟨⟨List.mem_cons_self, hd⟩, hfirst⟩, hrest⟩
    | false =>
      rw [runs_cons_other hd, List.map_cons, List.forall_mem_cons, List.forall_mem_cons]
      exact ⟨by simp, hfirst, hrest⟩

/-- The words of a text that do not stand behind a dot. -/
def exposed (text : List Char) : List (List Char) :=
  (runs text).1 :: (runs text).2.filterMap fun (c, word) => if c = '.' then none else some word

lemma mem_of_mem_exposed {text word : List Char} (h : word ∈ exposed text) {c : Char}
    (hc : c ∈ word) : c ∈ text ∧ isWordChar c = true := by
  refine mem_of_mem_runs text word ?_ c hc
  rcases List.mem_cons.mp h with rfl | h
  · exact List.mem_cons_self
  · obtain ⟨⟨d, w⟩, hmem, hw⟩ := List.mem_filterMap.mp h
    obtain ⟨-, rfl⟩ : d ≠ '.' ∧ w = word := by simpa using hw
    exact List.mem_cons_of_mem _ (List.mem_map_of_mem hmem)

/-! ### The substitution -/

variable (names : List (List Char)) (new : List Char → List Char)

def renamed (word : List Char) : List Char := if word ∈ names then new word else word

/-- The words behind the first one; behind a dot nothing is replaced. -/
def substituteRest (rest : List (Char × List Char)) : List Char :=
  rest.flatMap fun (c, word) => c :: if c = '.' then word else renamed names new word

def substitute (text : List Char) : List Char :=
  renamed names new (runs text).1 ++ substituteRest names new (runs text).2

variable {names new}

lemma runs_text (text : List Char) :
    (runs text).1 ++ (runs text).2.flatMap (fun (c, word) => c :: word) = text := by
  induction text with
  | nil => rfl
  | cons c text ih =>
    cases hc : isWordChar c with
    | true => simpa [runs_cons_word hc] using ih
    | false => simpa [runs_cons_other hc] using ih

/-- A text stays as it is if no name stands in it as a word of its own. -/
lemma substitute_of_exposed {text : List Char} (h : ∀ word ∈ exposed text, word ∉ names) :
    substitute names new text = text := by
  rw [exposed, List.forall_mem_cons] at h
  have hrest : substituteRest names new (runs text).2 =
      (runs text).2.flatMap fun (c, word) => c :: word := by
    refine congrArg List.flatten (List.map_congr_left fun ⟨c, word⟩ hmem => ?_)
    by_cases hc : c = '.'
    · simp [hc]
    · have hword := h.2 word (List.mem_filterMap.mpr ⟨(c, word), hmem, by simp [hc]⟩)
      simp [hc, renamed, hword]
  rw [substitute, hrest, renamed, if_neg h.1, runs_text]

lemma substitute_word {word : List Char} (hword : ∀ c ∈ word, isWordChar c = true) :
    substitute names new word = renamed names new word := by
  simp [substitute, substituteRest, runs_word hword]

/-- Behind a text that starts with no word the substitution starts anew. -/
lemma substitute_append_of_head (hnames : [] ∉ names) {text : List Char} (before : List Char)
    (h : text.head?.any isWordChar = false) :
    substitute names new (before ++ text) =
      substitute names new before ++ substitute names new text := by
  have hhead : (runs text).1 = [] := by rw [runs_of_head h]
  simp [substitute, substituteRest, runs_append before h, hhead, renamed, hnames]

/-- Behind a separating character the substitution starts anew. -/
lemma substitute_append_of_last (hnames : [] ∉ names) {before : List Char} (text : List Char)
    (h : before.getLast?.all separates = true) :
    substitute names new (before ++ text) =
      substitute names new before ++ substitute names new text := by
  rcases List.eq_nil_or_concat before with rfl | ⟨init, c, rfl⟩
  · simp [substitute, substituteRest, renamed, hnames]
  · have hc : separates c = true := by simpa using h
    have hword := not_word_of_separates hc
    have hne := ne_dot_of_separates hc
    have happ : ∀ rest : List Char, substitute names new (init ++ c :: rest) =
        substitute names new init ++ c :: substitute names new rest := by
      intro rest
      rw [substitute_append_of_head hnames init (by simp [hword])]
      simp [substitute, substituteRest, runs_cons_other hword, renamed, hnames, hne]
    rw [List.concat_eq_append, List.append_assoc, List.singleton_append, happ, happ]
    simp [substitute, substituteRest, renamed, hnames]

/-! ### What is found -/

/-- A name is found where a text starts if it is the first word there. -/
lemma found_iff {name : List Char} (hname : IsWord name) (before : Option Char)
    (text : List Char) :
    (match Text.behind? name text with
      | none => false
      | some rest => isBoundary (name.getLast? <|> before) rest.head?) = true ↔
      name = (runs text).1 := by
  have hlast : (name.getLast?.or before).any isWordChar = true := by
    rw [List.getLast?_eq_some_getLast hname.ne_nil]
    exact hname.word _ (List.getLast_mem hname.ne_nil)
  constructor
  · intro h
    split at h
    · simp at h
    · rename_i rest hrest
      have hhead : rest.head?.any isWordChar = false := by
        simpa [isBoundary, hlast] using h
      rw [Text.behind?_eq_some.mp hrest, runs_word_append hname.word, runs_of_head hhead,
        List.append_nil]
  · intro h
    obtain ⟨tail, htext, -, hhead, -⟩ := runs_split text
    rw [← h] at htext
    rw [Text.behind?_eq_some.mpr htext]
    simp [isBoundary, hlast, hhead]

lemma nameAt?_eq (hnames : ∀ n ∈ names, IsWord n) (before : Option Char) (text : List Char) :
    nameAt? names before text = if (runs text).1 ∈ names then some (runs text).1 else none := by
  unfold nameAt?
  split
  · rename_i hmem
    rcases hfind : names.find? _ with _ | n
    · have hword := (found_iff (hnames _ hmem) before text).mpr rfl
      exact absurd hword (List.find?_eq_none.mp hfind _ hmem)
    · have hn := List.mem_of_find?_eq_some hfind
      have hfound := List.find?_some hfind
      rw [(found_iff (hnames n hn) before text).mp hfound]
  · rename_i hmem
    rw [List.find?_eq_none]
    intro n hn h
    exact hmem ((found_iff (hnames n hn) before text).mp h ▸ hn)

/-- The hit where a text goes on: a name behind a separating character. -/
lemma hitAt?_cons (hnames : ∀ n ∈ names, IsWord n) (c : Char) (text : List Char) :
    hitAt? names false (c :: text) =
      if separates c = true ∧ (runs text).1 ∈ names then some ⟨some c, (runs text).1⟩
      else none := by
  unfold hitAt?
  simp only [nameAt?_eq hnames]
  by_cases hc : separates c <;> by_cases hmem : (runs text).1 ∈ names <;> simp [hc, hmem]

lemma hitAt?_start (hnames : ∀ n ∈ names, IsWord n) (text : List Char) :
    hitAt? names true text =
      if (runs text).1 ∈ names then some ⟨none, (runs text).1⟩ else hitAt? names false text := by
  unfold hitAt?
  simp only [nameAt?_eq hnames]
  by_cases hmem : (runs text).1 ∈ names <;> simp [hmem]

lemma not_mem_nil (hnames : ∀ n ∈ names, IsWord n) : [] ∉ names :=
  fun h => (hnames [] h).ne_nil rfl

/-- What was found is found again in the matched text alone. -/
lemma firstHit?_text (hnames : ∀ n ∈ names, IsWord n) {hit : Hit} (hmem : hit.name ∈ names)
    (hlead : ∀ c, hit.lead = some c → separates c = true) :
    firstHit? names true hit.text = some hit := by
  obtain ⟨lead, name⟩ := hit
  have hname : (runs name).1 = name := congrArg Prod.fst (runs_word (hnames name hmem).word)
  have hhit : hitAt? names true (Hit.text ⟨lead, name⟩) = some ⟨lead, name⟩ := by
    rw [hitAt?_start hnames]
    cases lead with
    | none =>
      rw [Hit.text, Option.toList_none, List.nil_append, hname]
      exact if_pos hmem
    | some c =>
      have hc := hlead c rfl
      have hstart : (runs (c :: name)).1 = [] := by rw [runs_cons_other (not_word_of_separates hc)]
      simp only [Hit.text, Option.toList_some, List.singleton_append, hstart,
        if_neg (not_mem_nil hnames), hitAt?_cons hnames, hname, hc, true_and]
      exact if_pos hmem
  generalize Hit.text ⟨lead, name⟩ = text at hhit ⊢
  cases text with
  | nil => exact hhit
  | cons c text =>
    rw [firstHit?, hhit]
    rfl

/-! ### Renaming -/

lemma replaceHits_skip (replacement : Hit → List Char) (skip : Nat) (text : List Char) :
    replaceHits names replacement false skip text =
      replaceHits names replacement false 0 (text.drop skip) := by
  induction skip generalizing text with
  | zero => rfl
  | succ skip ih =>
    cases text with
    | nil => rfl
    | cons c text => rw [replaceHits, List.drop_succ_cons, ih]

/-- Behind a hit the text goes on after the name. -/
lemma replaceHits_hit (hnames : ∀ n ∈ names, IsWord n) {hit : Hit} (hmem : hit.name ∈ names)
    (hlead : ∀ c, hit.lead = some c → separates c = true) (replacement : Hit → List Char)
    {atStart : Bool} {c : Char} {text : List Char}
    (h : hitAt? names atStart (c :: text) = some hit) :
    replaceHits names replacement atStart 0 (c :: text) =
      (replaceHits names replacement false 0 ((c :: text).drop hit.text.length)).map
        (replacement hit ++ ·) := by
  have hlen : 0 < hit.text.length := by
    have := List.length_pos_iff.mpr (hnames _ hmem).ne_nil
    rw [Hit.text, List.length_append]
    omega
  obtain ⟨k, hk⟩ := Nat.exists_eq_add_one.mpr hlen
  simp only [replaceHits, h, firstHit?_text hnames hmem hlead]
  rw [replaceHits_skip, hk, List.drop_succ_cons, Nat.add_sub_cancel]

/-- Away from the start of the text the first word stays, and all others are substituted. -/
lemma replaceHits_eq (hnames : ∀ n ∈ names, IsWord n) (text : List Char) :
    replaceHits names (fun hit => hit.lead.toList ++ new hit.name) false 0 text =
      some ((runs text).1 ++ substituteRest names new (runs text).2) := by
  -- Behind a hit the text goes on after the whole word, so the induction is on its length.
  induction hlen : text.length using Nat.strongRecOn generalizing text with
  | _ n ih =>
    cases text with
    | nil => rfl
    | cons c text =>
      rw [List.length_cons] at hlen
      have hhit := hitAt?_cons hnames c text
      by_cases hmem : separates c = true ∧ (runs text).1 ∈ names
      · rw [if_pos hmem] at hhit
        have hlt : (text.drop (runs text).1.length).length < n := by
          rw [List.length_drop]
          omega
        have hne := ne_dot_of_separates hmem.1
        rw [replaceHits_hit hnames hmem.2 (by simpa using hmem.1) _ hhit]
        simp only [Hit.text, Option.toList_some, List.singleton_append, List.length_cons,
          List.drop_succ_cons, ih _ hlt _ rfl, runs_drop]
        simp [runs_cons_other (not_word_of_separates hmem.1), substituteRest, hne, renamed, hmem.2]
      · rw [if_neg hmem] at hhit
        simp only [replaceHits, hhit, ih text.length (by omega) text rfl]
        cases hc : isWordChar c with
        | true => simp [runs_cons_word hc]
        | false =>
          have hkept : c = '.' ∨ (runs text).1 ∉ names := by
            rw [← not_separates hc]
            by_cases hs : separates c
            · exact .inr fun h => hmem ⟨hs, h⟩
            · exact .inl (by simpa using hs)
          rcases hkept with rfl | hmem
          · simp [runs_cons_other hc, substituteRest]
          · simp [runs_cons_other hc, substituteRest, renamed, hmem]

/-- Over a whole text renaming is the substitution. -/
lemma replaceHits_start (hnames : ∀ n ∈ names, IsWord n) (text : List Char) :
    replaceHits names (fun hit => hit.lead.toList ++ new hit.name) true 0 text =
      some (substitute names new text) := by
  cases text with
  | nil => simp [replaceHits, substitute, renamed, substituteRest, not_mem_nil hnames]
  | cons c text =>
    have hhit := hitAt?_start hnames (c :: text)
    by_cases hmem : (runs (c :: text)).1 ∈ names
    · rw [if_pos hmem] at hhit
      rw [replaceHits_hit hnames hmem (by simp) _ hhit]
      simp only [Hit.text, Option.toList_none, List.nil_append, replaceHits_eq hnames, runs_drop]
      simp [substitute, renamed, hmem]
    · rw [if_neg hmem] at hhit
      rw [substitute, renamed, if_neg hmem, ← replaceHits_eq hnames]
      simp only [replaceHits, hhit]

lemma searchable_nil : searchable [] = true := by decide +kernel

/-- Helpers that are words are renamed by substitution, as long as they can be searched. -/
lemma renameHelpers_eq {shader : String} {helpers : List String}
    (h : ∀ n ∈ helpers, IsWord n.toList) (text : List Char) :
    renameHelpers shader helpers text =
      if searchable helpers then
        some (substitute (helpers.map String.toList) (shader.toList ++ '_' :: ·) text)
      else none := by
  have hnames : ∀ n ∈ helpers.map String.toList, IsWord n := by simpa using h
  rw [renameHelpers]
  split
  · rename_i hempty
    rw [List.isEmpty_iff.mp hempty, if_pos searchable_nil, substitute_of_exposed (by simp)]
  · rw [← replaceHits_start hnames]
    simp only [List.append_assoc]

end Shaderwright.Msl
