import Mathlib.Tactic.Common
import Shaderwright.Proofs.Msl.Acceptance
import Shaderwright.Proofs.Msl.Compile
import Shaderwright.Proofs.Msl.Pattern
import Shaderwright.Source.Resolve

/-!
Finding a helper twice. Renaming looks for a helper in the whole text first and then once more in
what it has matched, where nothing follows any more. The second search succeeds if the name ends in
a character of a word, and then a shader is renamed whatever its text is, provided that its helpers
can be searched at all; for a helper with any other name there is a text that cannot be renamed.
-/

namespace Shaderwright.Msl

def endsInWord (name : List Char) : Bool := name.getLast?.any isWordChar

variable {names : List (List Char)}

lemma ne_nil_of_endsInWord {name : List Char} (h : endsInWord name = true) : name ≠ [] := by
  rintro rfl
  simp [endsInWord] at h

/-! ### Hits -/

lemma mem_of_nameAt? {before : Option Char} {text name : List Char}
    (h : nameAt? names before text = some name) : name ∈ names :=
  List.mem_of_find?_eq_some h

lemma isSome_nameAt? {name : List Char} (hmem : name ∈ names) (hname : endsInWord name = true)
    (before : Option Char) : (nameAt? names before name).isSome = true := by
  have hbehind : Text.behind? name name = some [] := Text.behind?_eq_some.mpr (by simp)
  have hlast : (name.getLast? <|> before).any isWordChar = true := by
    have hne := ne_nil_of_endsInWord hname
    rw [endsInWord, List.getLast?_eq_some_getLast hne] at hname
    rw [List.getLast?_eq_some_getLast hne]
    exact hname
  rw [nameAt?, List.find?_isSome]
  refine ⟨name, hmem, ?_⟩
  rw [hbehind]
  simp only [isBoundary, hlast, List.head?_nil, Option.any_none]
  rfl

lemma hitAt?_eq_some {atStart : Bool} {text : List Char} {hit : Hit}
    (h : hitAt? names atStart text = some hit) :
    hit.name ∈ names ∧ ∀ c, hit.lead = some c → separates c = true := by
  have hbehind : ∀ text, hitAt? names false text = some hit →
      hit.name ∈ names ∧ ∀ c, hit.lead = some c → separates c = true := by
    intro text h
    cases text with
    | nil => simp [hitAt?] at h
    | cons c text =>
      by_cases hc : separates c = true
      · simp only [hitAt?, hc, if_true] at h
        obtain ⟨name, hname, rfl⟩ := Option.map_eq_some_iff.mp (by simpa using h)
        refine ⟨mem_of_nameAt? hname, fun d hd => ?_⟩
        cases hd
        exact hc
      · simp [hitAt?, hc] at h
  cases atStart with
  | false => exact hbehind text h
  | true =>
    rcases hstart : nameAt? names none text with _ | name
    · refine hbehind text ?_
      simpa [hitAt?, hstart] using h
    · obtain rfl : ⟨none, name⟩ = hit := by simpa [hitAt?, hstart] using h
      exact ⟨mem_of_nameAt? hstart, by simp⟩

/-- What was found is found again in the matched text alone, though it may be another name. -/
lemma isSome_firstHit?_text {hit : Hit} (hmem : hit.name ∈ names)
    (hlead : ∀ c, hit.lead = some c → separates c = true)
    (hname : endsInWord hit.name = true) : (firstHit? names true hit.text).isSome = true := by
  obtain ⟨lead, name⟩ := hit
  have hhit : (hitAt? names true (Hit.text ⟨lead, name⟩)).isSome = true := by
    cases lead with
    | none =>
      have halone := isSome_nameAt? hmem hname none
      simp only [hitAt?, Hit.text, Option.toList_none, List.nil_append, if_true]
      simp [halone]
    | some c =>
      have halone := isSome_nameAt? hmem hname (some c)
      simp only [hitAt?, Hit.text, Option.toList_some, List.singleton_append, hlead c rfl, if_true]
      simp [halone]
  generalize Hit.text ⟨lead, name⟩ = text at hhit ⊢
  cases text with
  | nil => exact hhit
  | cons c text => simp [firstHit?, hhit]

/-! ### Renaming -/

/-- Where every name ends in a word, no hit is lost, and so every text is renamed. -/
lemma isSome_replaceHits (hnames : ∀ n ∈ names, endsInWord n = true)
    (replacement : Hit → List Char) (atStart : Bool) (skip : Nat) (text : List Char) :
    (replaceHits names replacement atStart skip text).isSome = true := by
  induction text generalizing atStart skip with
  | nil => rfl
  | cons c text ih =>
    cases skip with
    | succ skip => exact ih false skip
    | zero =>
      rcases hhit : hitAt? names atStart (c :: text) with _ | hit
      · simpa [replaceHits, hhit] using ih false 0
      · obtain ⟨hmem, hlead⟩ := hitAt?_eq_some hhit
        obtain ⟨again, hagain⟩ :=
          Option.isSome_iff_exists.mp (isSome_firstHit?_text hmem hlead (hnames _ hmem))
        simpa [replaceHits, hhit, hagain] using ih false (hit.text.length - 1)

lemma isSome_renameHelpers {helpers : List String}
    (h : ∀ n ∈ helpers, endsInWord n.toList = true) (hsearch : searchable helpers = true)
    (shader : String) (text : List Char) : (renameHelpers shader helpers text).isSome = true := by
  rw [renameHelpers, if_pos hsearch]
  split
  · rfl
  · exact isSome_replaceHits (by simpa using h) _ true 0 text

/-- Helpers that cannot be searched are not renamed in any text. -/
lemma renameHelpers_of_not_searchable {helpers : List String} (h : searchable helpers = false)
    (shader : String) (text : List Char) : renameHelpers shader helpers text = none := by
  cases helpers with
  | nil => simp [searchable_nil] at h
  | cons n helpers => simp [renameHelpers, h]

/-! ### Names that are lost -/

lemma nameAt?_of_length {name text : List Char} (h : text.length < name.length)
    (before : Option Char) : nameAt? [name] before text = none := by
  have hbehind : Text.behind? name text = none := by
    rcases hb : Text.behind? name text with _ | rest
    · rfl
    · have htext := congrArg List.length (Text.behind?_eq_some.mp hb)
      rw [List.length_append] at htext
      omega
  simp [nameAt?, hbehind]

lemma firstHit?_of_length {name text : List Char} (h : text.length ≤ name.length) :
    firstHit? [name] false text = none := by
  induction text with
  | nil => simp [firstHit?, hitAt?]
  | cons c text ih =>
    rw [List.length_cons] at h
    have hname : nameAt? [name] (some c) text = none := nameAt?_of_length (by omega) _
    have hhit : hitAt? [name] false (c :: text) = none := by
      by_cases hc : separates c = true <;> simp [hitAt?, hc, hname]
    rw [firstHit?, hhit, ih (by omega)]
    rfl

/-- Alone, a name that does not end in a word is not found. -/
lemma firstHit?_alone {name : List Char} (h : endsInWord name = false) :
    firstHit? [name] true name = none := by
  have hbehind : Text.behind? name name = some [] := Text.behind?_eq_some.mpr (by simp)
  have hhere : nameAt? [name] none name = none := by
    have hboundary : isBoundary (name.getLast?.or none) none = false := by
      simpa [isBoundary, endsInWord] using h
    simpa [nameAt?, hbehind] using hboundary
  cases name with
  | nil => simp [firstHit?, hitAt?, hhere]
  | cons c name =>
    have hname : nameAt? [c :: name] (some c) name = none := nameAt?_of_length (by simp) _
    have hhit : hitAt? [c :: name] true (c :: name) = none := by
      by_cases hc : separates c = true <;> simp [hitAt?, hhere, hc, hname]
    rw [firstHit?, hhit, firstHit?_of_length (by simp)]
    rfl

/-- Such a name is lost where a word follows it. -/
lemma renameHelpers_of_not_endsInWord {n : String} (h : endsInWord n.toList = false)
    (shader : String) : renameHelpers shader [n] (n.toList ++ ['a']) = none := by
  have hfound : hitAt? [n.toList] true (n.toList ++ ['a']) = some ⟨none, n.toList⟩ := by
    have hbehind : Text.behind? n.toList (n.toList ++ ['a']) = some ['a'] :=
      Text.behind?_append _ _
    have hboundary : isBoundary (n.toList.getLast?.or none) (some 'a') = true := by
      have hlast : n.toList.getLast?.any isWordChar = false := h
      have hword : isWordChar 'a' = true := by decide
      simp [isBoundary, hlast, hword]
    have hhere : nameAt? [n.toList] none (n.toList ++ ['a']) = some n.toList := by
      simpa [nameAt?, hbehind] using hboundary
    simp [hitAt?, hhere]
  have hlost : firstHit? [n.toList] true (Hit.text ⟨none, n.toList⟩) = none := by
    simpa [Hit.text] using firstHit?_alone h
  obtain ⟨c, text, htext⟩ : ∃ c text, n.toList ++ ['a'] = c :: text :=
    List.exists_cons_of_ne_nil (by simp)
  rw [htext] at hfound ⊢
  simp only [renameHelpers, List.isEmpty_cons, List.map_cons, List.map_nil, replaceHits, hfound,
    hlost]
  split <;> simp_all

/-! ### Shaders -/

/-- A shader whose helpers end in a word and can be searched is translated or at fault. -/
lemma translate_ne_unrenamable {s : Shader} (h : ∀ n ∈ helperNames s, endsInWord n.toList = true)
    (hsearch : searchable (helperNames s) = true) (common : String) :
    translate common (some s) ≠ .error .unrenamable := by
  by_cases hname : s.name = ""
  · simp [translate, hname]
  · simp only [translate, if_neg hname]
    rcases hexec : ((dialect functions s.name).decls s.decls).exec { own := {} } with ⟨e | _, w⟩
    · simp
    · obtain ⟨text, htext⟩ :=
        Option.isSome_iff_exists.mp (isSome_renameHelpers h hsearch s.name w.out.toList)
      simp [rename, helpers_of_exec hexec, htext]

/-- Compiling always comes to a text or to a fault, as long as the helpers can be searched and the
name of each ends in a character of a word: what is found of these names in a text is found again in
the matched text. Both are needed: helpers that cannot be searched are renamed in no text, and for
a single helper with any other name some text could not be renamed. Up to a thousand helpers with
names of usual lengths can be searched. -/
theorem compile_total_of_endsInWord {s : Shader}
    (h : ∀ n ∈ helperNames s, endsInWord n.toList = true)
    (hsearch : searchable (helperNames s) = true) :
    (∀ o library w, (∃ out, (compile o library (some s) w).1.1 = .ok out) ∨
      ∃ f, (compile o library (some s) w).1.1 = .error (.fault f)) ∧
    (∀ atStart text hit, hitAt? ((helperNames s).map String.toList) atStart text = some hit →
      (firstHit? ((helperNames s).map String.toList) true hit.text).isSome = true) ∧
    (∀ helpers, searchable helpers = false → ∀ text, renameHelpers s.name helpers text = none) ∧
    (∀ helpers : List String, helpers.length ≤ 1000 → (∀ n ∈ helpers, n.toList.length ≤ 498) →
      searchable helpers = true) ∧
    ∀ n, (∀ text, (renameHelpers s.name [n] text).isSome = true) ↔
      endsInWord n.toList = true ∧ searchable [n] = true := by
  refine ⟨fun o library w => ?_, fun atStart text hit hhit => ?_,
    fun helpers hnot text => renameHelpers_of_not_searchable hnot s.name text,
    fun helpers hcount hlength => searchable_of_length_le hcount hlength,
    fun n => ⟨fun hn => ⟨?_, ?_⟩, fun hn text => ?_⟩⟩
  · rcases hresult : (compile o library (some s) w).1.1 with (f | _) | out
    · exact .inr ⟨f, rfl⟩
    · have ht := translate_of_compile_error hresult
      exact absurd ht (translate_ne_unrenamable h hsearch _)
    · exact .inl ⟨out, rfl⟩
  · obtain ⟨hmem, hlead⟩ := hitAt?_eq_some hhit
    obtain ⟨n, hn, hname⟩ := List.mem_map.mp hmem
    exact isSome_firstHit?_text hmem hlead (hname ▸ h n hn)
  · by_contra hword
    have hlost := hn (n.toList ++ ['a'])
    rw [renameHelpers_of_not_endsInWord (by simpa using hword)] at hlost
    cases hlost
  · by_contra hnot
    have hlost := hn []
    rw [renameHelpers_of_not_searchable (by simpa using hnot)] at hlost
    cases hlost
  · exact isSome_renameHelpers (by simpa using hn.1) hn.2 s.name text

/-- A shader with one function, which returns its parameter. -/
def echo (shader function param : String) : Source.ShaderForm where
  name := shader
  decls := [{ func := some {
    name := function
    returns := "float"
    params := [{ name := param, type := "float" }]
    body := [.kinds [.returns (.scalar (.string param))]] } }]

/-- The name of a helper may be no word as long as it ends like one. -/
theorem compile_total_echo :
    ∃ s, Source.shader (echo "Dusk" "soft-glow" "glow") = .ok s ∧
      helperNames s = ["soft-glow"] ∧
      ((∃ out, (compile {} none (some s) {}).1.1 = .ok out) ∨
        ∃ f, (compile {} none (some s) {}).1.1 = .error (.fault f)) ∧
      hitAt? ["soft-glow".toList] false " soft-glow(".toList =
        some ⟨some ' ', "soft-glow".toList⟩ ∧
      (firstHit? ["soft-glow".toList] true " soft-glow".toList).isSome = true ∧
      ∀ text, (renameHelpers s.name ["soft-glow"] text).isSome = true := by
  have hnames : (Source.shader (echo "Dusk" "soft-glow" "glow")).map helperNames =
      .ok ["soft-glow"] := by decide +kernel
  have hword : endsInWord "soft-glow".toList = true := by decide
  have hsearch : searchable ["soft-glow"] = true := by decide +kernel
  have hhit : hitAt? ["soft-glow".toList] false " soft-glow(".toList =
      some ⟨some ' ', "soft-glow".toList⟩ := by decide +kernel
  rcases hs : Source.shader (echo "Dusk" "soft-glow" "glow") with e | s
  · rw [hs] at hnames
    cases hnames
  · rw [hs] at hnames
    have hhelpers : helperNames s = ["soft-glow"] := Except.ok.inj hnames
    obtain ⟨htotal, hagain, -, -, hsingle⟩ :=
      compile_total_of_endsInWord (s := s) (by simpa [hhelpers] using hword)
        (by rw [hhelpers]; exact hsearch)
    rw [hhelpers] at hagain
    exact ⟨s, rfl, hhelpers, htotal {} none {}, hhit, hagain _ _ _ hhit,
      (hsingle _).mpr ⟨hword, hsearch⟩⟩

/-- A helper whose name ends in a letter that counts as no part of a word, so that a word may
follow: the text is accepted as a file, and there is no result. -/
theorem compile_undefined_echo :
    ∃ s, Source.shader (echo "Demo" "dé" "démo") = .ok s ∧
      (compile {} none (some s) {}).1.1 = .error .unrenamable ∧
      hitAt? ["dé".toList] false " démo".toList = some ⟨some ' ', "dé".toList⟩ ∧
      firstHit? ["dé".toList] true " dé".toList = none := by
  have hresult : (Source.shader (echo "Demo" "dé" "démo")).map
      (fun s => (compile {} none (some s) {}).1.1) = .ok (.error .unrenamable) := by
    decide +kernel
  rcases hs : Source.shader (echo "Demo" "dé" "démo") with e | s
  · rw [hs] at hresult
    cases hresult
  · rw [hs] at hresult
    exact ⟨s, rfl, Except.ok.inj hresult, by decide +kernel, by decide +kernel⟩

end Shaderwright.Msl
