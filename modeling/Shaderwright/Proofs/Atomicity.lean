import Mathlib.Tactic.Common
import Shaderwright.Proofs.Hlsl.Compile
import Shaderwright.Proofs.Msl.Compile

/-!
A compile is all or nothing: one that fails leaves the files, the log, the counters and the
library as they were, and one that succeeds gives the same text and the same bindings or uniforms
in every world and behind every history of compiles.
-/

namespace Shaderwright

namespace Msl

/-- The library and the world behind a history of compiles, whatever came of each. -/
def compileAll (library : Option Library) (w : World) :
    List (Options × Option Shader) → Option Library × World
  | [] => (library, w)
  | (o, s) :: history =>
    compileAll (compile o library s w).1.2 (compile o library s w).2 history

lemma commonHeaderOf_compileAll (history : List (Options × Option Shader))
    (library : Option Library) (w : World) :
    commonHeaderOf (compileAll library w history).1 = commonHeaderOf library := by
  induction history generalizing library w with
  | nil => rfl
  | cons job history ih =>
    obtain ⟨o, s⟩ := job
    rw [compileAll, ih, commonHeaderOf_compile]

/-- Of the library and the world, the result of a compile depends on the name of the common header
only. -/
lemma compile_result_congr (o : Options) (s : Option Shader) {library₁ library₂ : Option Library}
    (h : commonHeaderOf library₁ = commonHeaderOf library₂) (w₁ w₂ : World) :
    (compile o library₁ s w₁).1.1 = (compile o library₂ s w₂).1.1 := by
  rcases s with _ | s
  · rfl
  · rw [compile_result, compile_result, h]

end Msl

/-- A compile that fails, be it for the budget, changes neither the world nor the library, and
what a compile gives depends neither on the world nor on what the library holds; in HLSL the path
of the header is the only part that may. -/
theorem compile_all_or_nothing (s : Option Shader) :
    (∀ (o : Hlsl.Options) (w w' : World) (e : Hlsl.Failure),
      Hlsl.compile o s w = (.error e, w') → w' = w) ∧
    (∀ (o : Hlsl.Options) (w₁ w₂ : World),
      (Hlsl.compile o s w₁).1.map Hlsl.Output.toCode =
        (Hlsl.compile o s w₂).1.map Hlsl.Output.toCode) ∧
    (∀ (o : Msl.Options) (library library' : Option Msl.Library) (w w' : World)
      (e : Msl.Failure), Msl.compile o library s w = ((.error e, library'), w') →
        library' = library ∧ w' = w) ∧
    (∀ (o : Msl.Options) (library₁ library₂ : Option Msl.Library) (w₁ w₂ : World),
      Msl.commonHeaderOf library₁ = Msl.commonHeaderOf library₂ →
        (Msl.compile o library₁ s w₁).1.1 = (Msl.compile o library₂ s w₂).1.1) ∧
    (∀ (o : Msl.Options) (history : List (Msl.Options × Option Shader))
      (library : Option Msl.Library) (w w' : World),
      (Msl.compile o (Msl.compileAll library w history).1 s w').1.1 =
        (Msl.compile o library s w).1.1) := by
  refine ⟨?_, ?_, ?_, ?_, ?_⟩
  · intro o w w' e h
    exact Hlsl.world_of_compile_error h
  · intro o w₁ w₂
    rw [Hlsl.compile_toCode, Hlsl.compile_toCode]
  · intro o library library' w w' e h
    exact Msl.compile_of_error h
  · intro o library₁ library₂ w₁ w₂ h
    exact Msl.compile_result_congr o s h w₁ w₂
  · intro o history library w w'
    exact Msl.compile_result_congr o s (Msl.commonHeaderOf_compileAll history library w) w' w

/-- A shader with more constants than fit into the default budget. -/
def laden : Shader where
  name := "Laden"
  decls := [.var { var :=
    { name := "bones", type := .vec4, qualifier := .param, isArray := true, arraySize := 64 } }]

def returning : Shader where
  name := "Returning"
  decls := [.func { name := "main", returns := .vec4, params := [], body := [] }]

/-- A shader over the budget changes neither files nor counters, and one that is refused changes
nothing in a library that names another shader. Under a lenient budget the first one has the same
code where the header cannot be written. -/
theorem laden_returning_leave_no_trace :
    (∃ overflow, Hlsl.compile { headerDir := "." } (some laden) { counting := true } =
      (.error (.overBudget overflow), { counting := true })) ∧
    (∃ e, Msl.compile {} (some { shaders := ["Veil"] }) (some returning) { counting := true } =
      ((.error e, some { shaders := ["Veil"] }), { counting := true })) ∧
    (∃ out out' : Hlsl.Output, out.toCode = out'.toCode ∧ out'.headerPath = "" ∧
      (Hlsl.compile { headerDir := ".", budgetPolicy := .warn } (some laden) {}).1 = .ok out ∧
      (Hlsl.compile { headerDir := ".", budgetPolicy := .warn } (some laden)
        { files := { entries := [(["EffectsResources.h"], .directory)] } }).1 = .ok out') := by
  refine ⟨⟨⟨256, 64, [⟨"bones", .const128, 0, 64⟩]⟩, ?_⟩,
    ⟨.fault (.refused (.entryPoint (.returns .vec4))), ?_⟩, ?_⟩
  · have hover : (Hlsl.compile { headerDir := "." } (some laden) { counting := true }).1 =
        .error (.overBudget ⟨256, 64, [⟨"bones", .const128, 0, 64⟩]⟩) := by decide +kernel
    exact Prod.ext hover ((compile_all_or_nothing (some laden)).1 _ _ _ _ (Prod.ext hover rfl))
  · have hrefused : (Msl.compile {} (some { shaders := ["Veil"] }) (some returning)
        { counting := true }).1.1 = .error (.fault (.refused (.entryPoint (.returns .vec4)))) := by
      decide +kernel
    have hsame := (compile_all_or_nothing (some returning)).2.2.1 _ _ _ _ _ _
      (Prod.ext (Prod.ext hrefused rfl) rfl)
    exact Prod.ext (Prod.ext hrefused hsame.1) hsame.2
  · have hcode := (compile_all_or_nothing (some laden)).2.1
      { headerDir := ".", budgetPolicy := .warn } {}
      { files := { entries := [(["EffectsResources.h"], .directory)] } }
    have hpath : (Hlsl.compile { headerDir := ".", budgetPolicy := .warn } (some laden)
        { files := { entries := [(["EffectsResources.h"], .directory)] } }).1.map
        Hlsl.Output.headerPath = .ok "" := by decide +kernel
    rcases hout' : (Hlsl.compile { headerDir := ".", budgetPolicy := .warn } (some laden)
      { files := { entries := [(["EffectsResources.h"], .directory)] } }).1 with e | out'
    · rw [hout'] at hpath
      cases hpath
    · rw [hout'] at hpath hcode
      rcases hout : (Hlsl.compile { headerDir := ".", budgetPolicy := .warn } (some laden) {}).1
        with e | out
      · rw [hout] at hcode
        cases hcode
      · rw [hout] at hcode
        exact ⟨out, out', Except.ok.inj hcode, Except.ok.inj hpath, rfl, rfl⟩

end Shaderwright
