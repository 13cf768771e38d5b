import Mathlib.Tactic.Common
import Shaderwright.Msl.Compile
import Shaderwright.Proofs.Msl.Renaming

/-!
The order in which names are replaced. Two renamings that have no name in common can be done in
either order, and so can a renaming and the detour of the texture reads.
-/

namespace Shaderwright.Msl

/-! ### The words of a text with new names -/

/-- A text that is put together from words is taken apart into them again. -/
lemma runs_join {word : List Char} (hword : ∀ c ∈ word, isWordChar c = true)
    {rest : List (Char × List Char)}
    (hrest : ∀ r ∈ rest, isWordChar r.1 = false ∧ ∀ c ∈ r.2, isWordChar c = true) :
    runs (word ++ rest.flatMap fun (c, w) => c :: w) = (word, rest) := by
  induction rest generalizing word with
  | nil => simpa using runs_word hword
  | cons r rest ih =>
    rw [List.forall_mem_cons] at hrest
    have hr := ih hrest.1.2 hrest.2
    rw [runs_word_append hword, List.flatMap_cons, List.cons_append, runs, hr, hrest.1.1]
    simp

lemma runs_rest (text : List Char) :
    ∀ r ∈ (runs text).2, isWordChar r.1 = false ∧ ∀ c ∈ r.2, isWordChar c = true := by
  induction text with
  | nil => simp [runs]
  | cons c text ih =>
    by_cases hc : isWordChar c
    · rwa [runs, if_pos hc]
    · have hword := fun d hd => (mem_of_mem_runs text _ List.mem_cons_self d hd).2
      simp only [runs, hc, Bool.false_eq_true, if_false, List.forall_mem_cons]
      exact ⟨⟨by simp, hword⟩, ih⟩

section Substitute

variable {names : List (List Char)} {new : List Char → List Char}

/-- A word with the character in front of it. -/
def renamedBehind (names : List (List Char)) (new : List Char → List Char) :
    Char × List Char → Char × List Char
  | (c, word) => (c, if c = '.' then word else renamed names new word)

lemma isWordChar_renamed (hnew : ∀ n ∈ names, ∀ c ∈ new n, isWordChar c = true)
    {word : List Char} (hword : ∀ c ∈ word, isWordChar c = true) :
    ∀ c ∈ renamed names new word, isWordChar c = true := by
  unfold renamed
  split
  · exact hnew word ‹_›
  · exact hword

/-- Names that are words are replaced word by word. -/
lemma runs_substitute (hnew : ∀ n ∈ names, ∀ c ∈ new n, isWordChar c = true)
    (text : List Char) :
    runs (substitute names new text) =
      (renamed names new (runs text).1, (runs text).2.map (renamedBehind names new)) := by
  have hjoin : substitute names new text = renamed names new (runs text).1 ++
      ((runs text).2.map (renamedBehind names new)).flatMap fun (c, w) => c :: w := by
    rw [List.flatMap_map]
    rfl
  have hfirst := fun c hc => (mem_of_mem_runs text _ List.mem_cons_self c hc).2
  rw [hjoin]
  refine runs_join (isWordChar_renamed hnew hfirst) fun r hr => ?_
  obtain ⟨⟨c, word⟩, hmem, rfl⟩ := List.mem_map.mp hr
  obtain ⟨hc, hword⟩ := runs_rest text _ hmem
  refine ⟨hc, ?_⟩
  rw [renamedBehind]
  split
  · exact hword
  · exact isWordChar_renamed hnew hword

/-- Two substitutions can be interchanged if they can on every word. -/
lemma substitute_comm {names' : List (List Char)} {new' : List Char → List Char}
    (hnew : ∀ n ∈ names, ∀ c ∈ new n, isWordChar c = true)
    (hnew' : ∀ n ∈ names', ∀ c ∈ new' n, isWordChar c = true)
    (hcomm : ∀ word, renamed names' new' (renamed names new word) =
      renamed names new (renamed names' new' word)) (text : List Char) :
    substitute names' new' (substitute names new text) =
      substitute names new (substitute names' new' text) := by
  rw [substitute, runs_substitute hnew, substitute, runs_substitute hnew', hcomm]
  simp only [substituteRest, List.flatMap_map]
  congr 2
  funext run
  obtain ⟨c, word⟩ := run
  by_cases hc : c = '.'
  · simp [renamedBehind, hc]
  · simp [renamedBehind, hc, hcomm]

end Substitute

/-! ### Texture reads -/

section Calls

variable {callee replacement : List Char}

/-- What becomes of the words behind the first one if every call of a function behind a separating
character gets another head. The word right behind the parenthesis is not looked at again. -/
def redirected (callee replacement : List Char) : List (Char × List Char) → List Char
  | [] => []
  | [(c, word)] => c :: word
  | (c, word) :: (d, next) :: rest =>
    if separates c = true ∧ word = callee ∧ d = '(' then
      c :: (replacement ++ (next ++ redirected callee replacement rest))
    else c :: (word ++ redirected callee replacement ((d, next) :: rest))

lemma replaceCalls_skip (name : List Char) (skip : Nat) (text : List Char) :
    replaceCalls name replacement false skip text =
      replaceCalls name replacement false 0 (text.drop skip) := by
  induction skip generalizing text with
  | zero => rfl
  | succ skip ih =>
    cases text with
    | nil => rfl
    | cons c text => rw [replaceCalls, List.drop_succ_cons, ih]

lemma runs_call (hcallee : ∀ c ∈ callee, isWordChar c = true) (text : List Char) :
    runs (callee ++ ['('] ++ text) = (callee, ('(', (runs text).1) :: (runs text).2) := by
  have hparen : isWordChar '(' = false := by decide
  rw [List.append_assoc, List.singleton_append, runs_word_append hcallee, runs, hparen]
  simp

lemma isSome_behind?_call {text : List Char} {next : List Char} {rest : List (Char × List Char)}
    (h : runs text = (callee, ('(', next) :: rest)) :
    (Text.behind? (callee ++ ['(']) text).isSome = true := by
  refine Option.isSome_iff_exists.mpr ⟨next ++ rest.flatMap fun (c, w) => c :: w, ?_⟩
  rw [Text.behind?_eq_some, ← runs_text text, h]
  simp

lemma redirected_cons {c : Char} {word : List Char} {rest : List (Char × List Char)}
    (h : ¬(separates c = true ∧ word = callee ∧ ∃ next behind, rest = ('(', next) :: behind)) :
    redirected callee replacement ((c, word) :: rest) =
      c :: (word ++ redirected callee replacement rest) := by
  cases rest with
  | nil => simp [redirected]
  | cons r rest =>
    refine if_neg fun hcall => h ⟨hcall.1, hcall.2.1, r.2, rest, ?_⟩
    rw [← hcall.2.2]

/-- Away from the start of the text the first word stays, and the calls behind it are redirected. -/
lemma replaceCalls_eq (hcallee : ∀ c ∈ callee, isWordChar c = true) (text : List Char) :
    replaceCalls (callee ++ ['(']) replacement false 0 text =
      (runs text).1 ++ redirected callee replacement (runs text).2 := by
  -- Behind a call the text goes on after the parenthesis, so the induction is on its length.
  induction hlen : text.length using Nat.strongRecOn generalizing text with
  | _ n ih =>
    cases text with
    | nil => rfl
    | cons c text =>
      rw [List.length_cons] at hlen
      rw [replaceCalls, Bool.false_and, if_neg Bool.false_ne_true]
      by_cases hhit : separates c = true ∧
          (Text.behind? (callee ++ ['(']) text).isSome = true
      · obtain ⟨tail, htail⟩ := Option.isSome_iff_exists.mp hhit.2
        obtain rfl := Text.behind?_eq_some.mp htail
        have hlt : tail.length < n := by
          simp only [List.length_append] at hlen
          omega
        rw [if_pos (by simpa using hhit), replaceCalls_skip, List.drop_left, ih _ hlt _ rfl, runs,
          not_word_of_separates hhit.1, runs_call hcallee]
        simp [redirected, hhit.1]
      · rw [if_neg (by simpa using hhit), ih text.length (by omega) text rfl]
        by_cases hc : isWordChar c
        · simp [runs, hc]
        · have hmiss : ¬(separates c = true ∧ (runs text).1 = callee ∧
              ∃ next behind, (runs text).2 = ('(', next) :: behind) := by
            rintro ⟨hsep, hfirst, next, behind, hrest⟩
            exact hhit ⟨hsep, isSome_behind?_call (Prod.ext hfirst hrest)⟩
          rw [runs, if_neg hc, redirected_cons hmiss, List.nil_append]

/-- At the start of a text calls are found as behind a separating character. -/
lemma cons_replaceCalls {name : List Char} (hname : name ≠ []) {c : Char}
    (hc : separates c = true) (text : List Char) :
    c :: replaceCalls name replacement true 0 text =
      replaceCalls name replacement false 0 (c :: text) := by
  obtain ⟨k, hk⟩ := Nat.exists_eq_add_one.mpr (List.length_pos_iff.mpr hname)
  cases text with
  | nil =>
    have hnone : (Text.behind? name []).isSome = false := by
      cases name with
      | nil => exact absurd rfl hname
      | cons => rfl
    simp [replaceCalls, hnone]
  | cons d text =>
    by_cases hhit : (Text.behind? name (d :: text)).isSome = true
    · simp [replaceCalls, hc, hhit, hk]
    · simp [replaceCalls, hhit]

variable {names : List (List Char)} {new : List Char → List Char}

lemma substitute_nil (hnames : [] ∉ names) : substitute names new [] = [] := by
  simp [substitute, runs, substituteRest, renamed, hnames]

lemma substitute_cons (hnames : [] ∉ names) {c : Char} (hc : separates c = true)
    (text : List Char) : substitute names new (c :: text) = c :: substitute names new text := by
  simp [substitute, substituteRest, runs, renamed, hnames, not_word_of_separates hc,
    ne_dot_of_separates hc]

/-- A word behind another character, with no word following. -/
lemma substitute_behind (hnames : [] ∉ names) {c : Char} (hc : isWordChar c = false)
    {word : List Char} (hword : ∀ d ∈ word, isWordChar d = true) {text : List Char}
    (htext : text.head?.any isWordChar = false) :
    substitute names new (c :: (word ++ text)) =
      c :: ((renamedBehind names new (c, word)).2 ++ substitute names new text) := by
  have hfirst : substitute names new (c :: word) = c :: (renamedBehind names new (c, word)).2 := by
    simp [substitute, substituteRest, runs, hc, runs_word hword, renamed, hnames, renamedBehind]
  rw [← List.cons_append, substitute_append_of_head hnames _ htext, hfirst, List.cons_append]

lemma any_head?_redirected {rest : List (Char × List Char)}
    (hrest : ∀ r ∈ rest, isWordChar r.1 = false ∧ ∀ c ∈ r.2, isWordChar c = true) :
    (redirected callee replacement rest).head?.any isWordChar = false := by
  have hhead : (redirected callee replacement rest).head? = rest.head?.map Prod.fst := by
    unfold redirected
    split
    · rfl
    · rfl
    · split <;> rfl
  rw [hhead]
  cases rest with
  | nil => rfl
  | cons r rest => simpa using (hrest r List.mem_cons_self).1

/-- Where a call is redirected does not depend on other names. -/
lemma substitute_redirected (hnames : [] ∉ names)
    (hcallee : ∀ word, renamed names new word = callee ↔ word = callee)
    (hfix : substitute names new replacement = replacement)
    (hend : replacement.getLast?.all separates = true) {rest : List (Char × List Char)}
    (hrest : ∀ r ∈ rest, isWordChar r.1 = false ∧ ∀ c ∈ r.2, isWordChar c = true) :
    substitute names new (redirected callee replacement rest) =
      redirected callee replacement (rest.map (renamedBehind names new)) := by
  fun_induction redirected callee replacement rest with
  | case1 => exact substitute_nil hnames
  | case2 c word =>
    have hr := hrest (c, word) List.mem_cons_self
    have hnil : ([] : List Char).head?.any isWordChar = false := rfl
    rw [← List.append_nil word, substitute_behind hnames hr.1 hr.2 hnil, substitute_nil hnames]
    simp [redirected, renamedBehind]
  | case3 c word d next rest hcall ih =>
    obtain ⟨hc, rfl, rfl⟩ := hcall
    have hne := ne_dot_of_separates hc
    simp only [List.forall_mem_cons] at hrest
    have hnext := hrest.2.1.2
    have hmapped : ((c, word) :: ('(', next) :: rest).map (renamedBehind names new) =
        (c, word) :: ('(', renamed names new next) :: rest.map (renamedBehind names new) := by
      simp [renamedBehind, hne, (hcallee word).mpr rfl]
    rw [hmapped, redirected, if_pos ⟨hc, rfl, rfl⟩, substitute_cons hnames hc,
      substitute_append_of_last hnames _ hend, hfix,
      substitute_append_of_head hnames _ (any_head?_redirected hrest.2.2), substitute_word hnext,
      ih hrest.2.2]
  | case4 c word d next rest hcall ih =>
    rw [List.forall_mem_cons] at hrest
    have hmiss : ¬(separates c = true ∧ (renamedBehind names new (c, word)).2 = callee ∧
        ∃ next' behind, ((d, next) :: rest).map (renamedBehind names new) =
          ('(', next') :: behind) := by
      rintro ⟨hc, hword, next', behind, hd⟩
      have hne := ne_dot_of_separates hc
      simp only [renamedBehind, hne, if_false, hcallee] at hword
      simp only [List.map_cons, renamedBehind, List.cons.injEq, Prod.mk.injEq] at hd
      exact hcall ⟨hc, hword, hd.1.1⟩
    rw [substitute_behind hnames hrest.1.1 hrest.1.2 (any_head?_redirected hrest.2), ih hrest.2,
      List.map_cons]
    exact (redirected_cons hmiss).symm

/-- New names can be given before or after the calls are redirected. -/
lemma substitute_replaceCalls (hnames : [] ∉ names)
    (hnew : ∀ n ∈ names, ∀ c ∈ new n, isWordChar c = true)
    (hword : ∀ c ∈ callee, isWordChar c = true)
    (hcallee : ∀ word, renamed names new word = callee ↔ word = callee)
    (hfix : substitute names new replacement = replacement)
    (hend : replacement.getLast?.all separates = true) (text : List Char) :
    substitute names new (replaceCalls (callee ++ ['(']) replacement true 0 text) =
      replaceCalls (callee ++ ['(']) replacement true 0 (substitute names new text) := by
  have hbreak : separates '\n' = true := by decide
  have hname : callee ++ ['('] ≠ [] := by simp
  have hfirst := fun c hc => (mem_of_mem_runs ('\n' :: text) _ List.mem_cons_self c hc).2
  have hrest := runs_rest ('\n' :: text)
  refine List.cons_injective (?_ : '\n' :: _ = '\n' :: _)
  rw [← substitute_cons hnames hbreak, cons_replaceCalls hname hbreak,
    cons_replaceCalls hname hbreak, ← substitute_cons hnames hbreak, replaceCalls_eq hword,
    replaceCalls_eq hword, runs_substitute hnew,
    substitute_append_of_head hnames _ (any_head?_redirected hrest), substitute_word hfirst,
    substitute_redirected hnames hcallee hfix hend hrest]

end Calls

/-! ### Rewordings -/

namespace Rewording

/-- What is put in place of a word is made of the characters of words. -/
def ToWords (ρ : Rewording) : Prop := ∀ n ∈ ρ.old, ∀ c ∈ (ρ.new n).toList, isWordChar c = true

/-- Two rewordings that have no word in common, neither an old nor a new one. -/
structure Independent (ρ τ : Rewording) : Prop where
  left : ∀ n ∈ ρ.old, n ∉ τ.old ∧ ρ.new n ∉ τ.old
  right : ∀ n ∈ τ.old, τ.new n ∉ ρ.old

/-- A rewording that has nothing to do with the function that reads textures in a shader. -/
structure SparesReads (ρ : Rewording) (shader : String) : Prop where
  old : sampleFunction ∉ ρ.old
  new : ∀ n ∈ ρ.old, ρ.new n ≠ sampleFunction
  detour : ρ.Fixes (shader ++ "_sample(_sampler, ")

variable {ρ τ : Rewording}

lemma newChars_toList (ρ : Rewording) (word : String) :
    ρ.newChars word.toList = (ρ.new word).toList := by
  rw [newChars, String.ofList_toList]

lemma ToWords.newChars (hρ : ρ.ToWords) :
    ∀ n ∈ ρ.old.map String.toList, ∀ c ∈ ρ.newChars n, isWordChar c = true := by
  intro n hn
  obtain ⟨name, hname, rfl⟩ := List.mem_map.mp hn
  rw [newChars_toList]
  exact hρ name hname

/-- Independent rewordings can be done in either order. -/
lemma text_comm (h : ρ.Independent τ) (hρ : ρ.ToWords) (hτ : τ.ToWords) (t : String) :
    τ.text (ρ.text t) = ρ.text (τ.text t) := by
  have hleft : ∀ n ∈ ρ.old.map String.toList, n ∉ τ.old.map String.toList ∧
      ρ.newChars n ∉ τ.old.map String.toList := by
    intro n hn
    obtain ⟨name, hname, rfl⟩ := List.mem_map.mp hn
    rw [newChars_toList, toList_mem_old, toList_mem_old]
    exact h.left name hname
  have hright : ∀ n ∈ τ.old.map String.toList, τ.newChars n ∉ ρ.old.map String.toList := by
    intro n hn
    obtain ⟨name, hname, rfl⟩ := List.mem_map.mp hn
    rw [newChars_toList, toList_mem_old]
    exact h.right name hname
  have hcomm : ∀ word, renamed (τ.old.map String.toList) τ.newChars
      (renamed (ρ.old.map String.toList) ρ.newChars word) =
      renamed (ρ.old.map String.toList) ρ.newChars
        (renamed (τ.old.map String.toList) τ.newChars word) := by
    intro word
    unfold renamed
    by_cases hmem : word ∈ ρ.old.map String.toList
    · simp only [if_pos hmem, if_neg (hleft word hmem).1, if_neg (hleft word hmem).2]
    · by_cases hmem' : word ∈ τ.old.map String.toList
      · simp only [if_neg hmem, if_pos hmem', if_neg (hright word hmem')]
      · simp only [if_neg hmem, if_neg hmem']
  simp only [text, String.toList_ofList]
  rw [substitute_comm hρ.newChars hτ.newChars hcomm]

/-- No other word becomes the function that reads textures. -/
lemma renamed_eq_sampleFunction (hold : sampleFunction ∉ ρ.old)
    (hnew : ∀ n ∈ ρ.old, ρ.new n ≠ sampleFunction) (word : List Char) :
    renamed (ρ.old.map String.toList) ρ.newChars word = sampleFunction.toList ↔
      word = sampleFunction.toList := by
  have hold : sampleFunction.toList ∉ ρ.old.map String.toList := ρ.toList_mem_old.not.mpr hold
  unfold renamed
  split
  · rename_i hmem
    obtain ⟨name, hname, rfl⟩ := List.mem_map.mp hmem
    rw [newChars_toList, String.toList_inj]
    exact iff_of_false (hnew name hname) fun heq => hold (heq ▸ hmem)
  · rfl

/-- Texture reads are found among the new words as well. -/
lemma routeSamples_text {shader : String} (h : ρ.SparesReads shader) (hρ : ρ.ToWords)
    (t : List Char) :
    routeSamples shader (ρ.text (String.ofList t)).toList =
      (ρ.text (String.ofList (routeSamples shader t))).toList := by
  have hcall : "sample(".toList = sampleFunction.toList ++ ['('] := by decide
  have hfix : substitute (ρ.old.map String.toList) ρ.newChars
      (shader ++ "_sample(_sampler, ").toList = (shader ++ "_sample(_sampler, ").toList := by
    have hdetour := congrArg String.toList h.detour
    rwa [text, String.toList_ofList] at hdetour
  have hend : (shader ++ "_sample(_sampler, ").toList.getLast?.all separates = true :=
    endsApart_append (by decide) (by simp)
  have hword := (isWord_of_isIdentifier (by decide : isIdentifier sampleFunction = true)).word
  simp only [text, String.toList_ofList, routeSamples, hcall]
  exact (substitute_replaceCalls ρ.nil_not_mem hρ.newChars hword
    (renamed_eq_sampleFunction h.old h.new) hfix hend t).symm

end Rewording

namespace Renaming

variable {τ : Renaming}

lemma toWords (h : ∀ c ∈ τ.shader.toList, isWordChar c = true) : τ.ToWords := by
  intro n hn
  rw [τ.new_eq]
  exact isWordChar_prefixed h (isWord_of_isIdentifier (τ.identifiers n hn)).word

lemma prefixed_ne_sampleFunction (shader name : String) :
    prefixed shader name ≠ sampleFunction := by
  intro heq
  have hmem : '_' ∈ (prefixed shader name).toList := by simp [toList_prefixed]
  rw [heq] at hmem
  exact absurd hmem (by decide)

/-- What the helpers of a shader are called in the end, and how it reads its textures, does not
depend on other words. -/
lemma rename_text {ρ : Rewording} (h : ρ.Independent τ.toRewording)
    (hreads : ρ.SparesReads τ.shader) (hρ : ρ.ToWords)
    (hτ : ∀ c ∈ τ.shader.toList, isWordChar c = true) {samples : Bool} {t body : String}
    (ht : rename τ.shader τ.helpers samples t = some body) :
    rename τ.shader τ.helpers samples (ρ.text t) = some (ρ.text body) := by
  obtain ⟨renamed, hrenamed, rfl⟩ := Option.map_eq_some_iff.mp ht
  have hsearch : searchable τ.helpers = true := τ.searchable_of_renameHelpers hrenamed
  obtain rfl := τ.eq_text_of_renameHelpers hrenamed
  rw [rename, renameHelpers_eq_text, if_pos hsearch, Option.map_some,
    Rewording.text_comm h hρ (toWords hτ)]
  cases samples with
  | false => simp only [Bool.false_eq_true, if_false, String.ofList_toList]
  | true =>
    simp only [if_true]
    rw [← String.ofList_toList (s := τ.text t), Rewording.routeSamples_text hreads hρ]
    simp only [String.ofList_toList]

end Renaming

end Shaderwright.Msl
