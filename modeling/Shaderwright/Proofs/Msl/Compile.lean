import Mathlib.Tactic.Common
import Shaderwright.Msl.Compile
import Shaderwright.Proofs.Build.Step
import Shaderwright.Proofs.Emit.Exec

/-!
What a compile to MSL consists of: the translation decides on the result, and the world only on
what is logged and counted.
-/

namespace Shaderwright.Msl

def commonHeaderOf (library : Option Library) : String :=
  (library.map Library.commonHeader).getD defaultCommonHeader

/-- The result of a compile is that of the translation. -/
lemma compile_result (o : Options) (library : Option Library) (s : Shader) (w : World) :
    (compile o library (some s) w).1.1 =
      (translate (commonHeaderOf library) (some s)).map fun (text, own) =>
        ⟨text, own.uniforms, prefixed s.name entryPointName, own.helpers.map (prefixed s.name),
          Variant.ofPath o.outputPath o.iosMarker⟩ := by
  unfold compile
  dsimp only
  rw [← commonHeaderOf]
  rcases translate (commonHeaderOf library) (some s) with e | ⟨text, own⟩
  · rfl
  · cases library <;> rfl

/-- A compile that succeeds has a translation behind it. -/
lemma translate_of_compile {o : Options} {library : Option Library} {s : Shader} {w : World}
    {out : Output} (h : (compile o library (some s) w).1.1 = .ok out) :
    ∃ text own, translate (commonHeaderOf library) (some s) = .ok (text, own) ∧
      out = ⟨text, own.uniforms, prefixed s.name entryPointName,
        own.helpers.map (prefixed s.name), Variant.ofPath o.outputPath o.iosMarker⟩ := by
  rw [compile_result] at h
  rcases ht : translate (commonHeaderOf library) (some s) with e | ⟨text, own⟩
  · simp [ht, Except.map] at h
  · simp only [ht, Except.map, Except.ok.injEq] at h
    exact ⟨text, own, rfl, h.symm⟩

lemma translate_of_compile_error {o : Options} {library : Option Library} {s : Shader} {w : World}
    {e : Failure} (h : (compile o library (some s) w).1.1 = .error e) :
    translate (commonHeaderOf library) (some s) = .error e := by
  rw [compile_result] at h
  rcases ht : translate (commonHeaderOf library) (some s) with e' | result
  · rw [ht] at h
    cases h
    rfl
  · rw [ht] at h
    cases h

lemma compile_of_error {o : Options} {library library' : Option Library} {s : Option Shader}
    {w w' : World} {e : Failure} (h : compile o library s w = ((.error e, library'), w')) :
    library' = library ∧ w' = w := by
  unfold compile at h
  dsimp only at h
  rw [← commonHeaderOf] at h
  rcases ht : translate (commonHeaderOf library) s with f | ⟨text, own⟩
  · rw [ht] at h
    cases h
    exact ⟨rfl, rfl⟩
  · -- behind a translation no step can fail
    rw [ht] at h
    have hresult := congrArg (fun r => r.1.1) h
    cases library <;> cases hresult

lemma Library.commonHeader_record (l : Library) (shader : String) (v : Variant)
    (us : List Uniform) : (l.record shader v us).2.commonHeader = l.commonHeader := by
  have hseeded : (if l.common = "" then { l with common := commonHeaderText } else l).commonHeader =
      l.commonHeader := by split <;> rfl
  unfold Library.record
  generalize (if l.common = "" then { l with common := commonHeaderText } else l) = seeded
    at hseeded ⊢
  dsimp only
  split
  · exact hseeded
  · split
    · exact hseeded
    · dsimp only
      split <;> exact hseeded

lemma recordMetadata_library (l : Library) (shader : String) (v : Variant) (us : List Uniform)
    (w : World) : (recordMetadata l shader v us w).1 = (l.record shader v us).2 := by
  unfold recordMetadata
  rcases l.record shader v us with ⟨e | _, l'⟩ <;> rfl

/-- A compile that succeeds records its shader, and does nothing else to the library. -/
lemma compile_library {o : Options} {l : Library} {s : Shader} {w : World} {out : Output}
    (h : (compile o (some l) (some s) w).1.1 = .ok out) :
    (compile o (some l) (some s) w).1.2 = some (l.record s.name out.variant out.uniforms).2 := by
  obtain ⟨text, own, ht, rfl⟩ := translate_of_compile h
  unfold compile
  dsimp only
  rw [← commonHeaderOf, ht]
  exact congrArg some (recordMetadata_library l s.name _ own.uniforms w)

/-- Compiling a shader never changes which common header the next one includes. -/
lemma commonHeaderOf_compile (o : Options) (library : Option Library) (s : Option Shader)
    (w : World) : commonHeaderOf (compile o library s w).1.2 = commonHeaderOf library := by
  rcases hr : compile o library s w with ⟨⟨e | out, library'⟩, w'⟩
  · rw [(compile_of_error hr).1]
  · rcases s with _ | s
    · cases hr
    · rcases library with _ | l
      · have hnone : (compile o none (some s) w).1.2 = none := by
          unfold compile
          dsimp only
          rcases translate _ (some s) with e | result <;> rfl
        rw [hr] at hnone
        rw [← hnone]
      · have hout : (compile o (some l) (some s) w).1.1 = .ok out := by rw [hr]
        have hlibrary := compile_library hout
        rw [hr] at hlibrary
        rw [hlibrary]
        exact l.commonHeader_record _ _ _

lemma exists_compile (o : Options) {library : Option Library} {s : Shader} (w : World)
    (h : (translate (commonHeaderOf library) (some s)).isOk = true) :
    ∃ out, (compile o library (some s) w).1.1 = .ok out := by
  rw [compile_result]
  rcases ht : translate (commonHeaderOf library) (some s) with e | result
  · rw [ht] at h
    cases h
  · exact ⟨_, rfl⟩

/-- A shader is compiled if it is translated. -/
lemma compile_of_translate (library : Option Library) (o : Options) (s : Shader)
    (us : List Uniform) (ht : (translate (commonHeaderOf library) (some s)).map
      (fun r => r.2.uniforms) = .ok us) (w : World) :
    ∃ out, (compile o library (some s) w).1.1 = .ok out ∧ out.uniforms = us ∧
      out.variant = Variant.ofPath o.outputPath o.iosMarker := by
  rcases hr : translate (commonHeaderOf library) (some s) with e | ⟨text, own⟩
  · simp [hr, Except.map] at ht
  · refine ⟨_, by rw [compile_result, hr]; rfl, ?_, rfl⟩
    rw [hr] at ht
    exact Except.ok.inj ht

lemma compile_of_text {library : Option Library} (o : Options) {s : Shader} {text : String}
    (ht : (translate (commonHeaderOf library) (some s)).map Prod.fst = .ok text) (w : World) :
    ∃ out, (compile o library (some s) w).1.1 = .ok out ∧ out.text = text := by
  rcases hr : translate (commonHeaderOf library) (some s) with e | ⟨text', own⟩
  · simp [hr, Except.map] at ht
  · refine ⟨_, by rw [compile_result, hr]; rfl, ?_⟩
    rw [hr] at ht
    exact Except.ok.inj ht

lemma translate_eq_ok {common : String} {s : Shader} {text : String} {own : State} :
    translate common (some s) = .ok (text, own) ↔ s.name ≠ "" ∧
      ∃ w body, ((dialect functions s.name).decls s.decls).exec { own := {} } = (.ok (), w) ∧
        rename s.name w.own.helpers w.own.samples w.out = some body ∧
        text = assemble s.name common w.own body ∧ own = w.own := by
  by_cases hname : s.name = ""
  · simp [translate, hname]
  · simp only [translate, if_neg hname]
    generalize ((dialect functions s.name).decls s.decls).exec { own := {} } = r
    obtain ⟨e | _, w⟩ := r
    · simp
    · rcases hbody : rename s.name w.own.helpers w.own.samples w.out with _ | body
      · simp [hbody]
      · simp [hname, hbody, eq_comm]

lemma compile_of_translate_error {o : Options} {library : Option Library} {s : Shader}
    {e : Failure} (h : translate (commonHeaderOf library) (some s) = .error e) (w : World) :
    compile o library (some s) w = ((.error e, library), w) := by
  unfold compile
  dsimp only
  rw [← commonHeaderOf, h]
  rfl

lemma translate_of_error {common : String} {s : Shader} {e : Fault} (hname : s.name ≠ "")
    (h : (((dialect functions s.name).decls s.decls).exec { own := {} }).1 = .error e) :
    translate common (some s) = .error (.fault e.ofTarget) := by
  simp only [translate, if_neg hname]
  generalize ((dialect functions s.name).decls s.decls).exec _ = r at h ⊢
  obtain ⟨r, u⟩ := r
  cases h
  rfl

/-- Where there is nothing to rename, the text is the one of the declarations. -/
lemma text_of_no_helpers {common : String} {s : Shader} {text : String} (hname : s.name ≠ "")
    (hok : (((dialect functions s.name).decls s.decls).exec { own := {} }).1 = .ok ())
    (hown : (((dialect functions s.name).decls s.decls).exec { own := {} }).2.own.helpers = [] ∧
      (((dialect functions s.name).decls s.decls).exec { own := {} }).2.own.samples = false)
    (htext : assemble s.name common
      (((dialect functions s.name).decls s.decls).exec { own := {} }).2.own
      (((dialect functions s.name).decls s.decls).exec { own := {} }).2.out = text) :
    (translate common (some s)).map Prod.fst = .ok text := by
  simp only [translate, if_neg hname]
  generalize ((dialect functions s.name).decls s.decls).exec { own := {} } = r at hok hown htext ⊢
  obtain ⟨r, w⟩ := r
  cases hok
  dsimp only at hown htext
  have hrename : rename s.name w.own.helpers w.own.samples w.out = some w.out := by
    simp [rename, renameHelpers, hown.1, hown.2]
  simp only [hrename, Except.map, htext]

end Shaderwright.Msl
