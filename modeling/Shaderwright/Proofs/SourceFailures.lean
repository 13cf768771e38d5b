import Mathlib.Tactic.Common
import Shaderwright.Proofs.Hlsl.Compile
import Shaderwright.Proofs.Hlsl.Faults
import Shaderwright.Proofs.Msl.Compile
import Shaderwright.Proofs.Msl.Faults
import Shaderwright.Proofs.Source.Completeness

/-!
How the compilation of a shader that was read from a file can fail. The resolution of names gives
complete shaders only, and a complete shader meets nothing but objections that a target language
makes by its own rules, apart from loops that start with a statement of the wrong kind.
-/

namespace Shaderwright

/-- A shader that comes from a form fails, whatever name and options it gets, for a reason that the
target language has a kind for, or because one of its loops starts with a statement that is
neither a declaration nor an expression. In HLSL it can also exceed the slot budget. In MSL the
result of the renaming may not be defined, but only if some function has a name that is not a
word. -/
theorem source_failures_typed {form : Source.ShaderForm} {s : Shader}
    (h : Source.shader form = .ok s) (name : String) :
    (∀ (o : Hlsl.Options) (w w' : World) (e : Hlsl.Failure),
      Hlsl.compile o (some { s with name := name }) w = (.error e, w') →
        (∃ overflow, e = .overBudget overflow) ∨
          ∃ f, e = .fault f ∧ f.Typed [.declaration, .entryPoint, .call] s.loopStarts) ∧
    ∀ (o : Msl.Options) (library : Option Msl.Library) (w : World) (e : Msl.Failure),
      (Msl.compile o library (some { s with name := name }) w).1.1 = .error e →
        (e = .unrenamable ∧ (Msl.searchable (Msl.helperNames s) = false ∨
            ∃ g, .func g ∈ s.decls ∧ ¬ Msl.IsWord g.name.toList)) ∨
          ∃ f, e = .fault f ∧ f.Typed [.declaration, .entryPoint] s.loopStarts := by
  have hcomplete : ∀ x ∈ s.decls, x.Complete := Source.complete_of_shader h
  refine ⟨fun o w w' e hcompile => ?_, fun o library w e hcompile => ?_⟩
  · have hverdict := Hlsl.verdict_of_compile hcompile
    obtain ⟨overflow, rfl⟩ | ⟨f, rfl, ht⟩ := Hlsl.verdict_eq_error hverdict
    · exact .inl ⟨overflow, rfl⟩
    · exact .inr ⟨f, rfl, Hlsl.typed_of_translate (s := { s with name := name }) hcomplete ht⟩
  · exact Msl.typed_of_translate (s := { s with name := name }) hcomplete
      (Msl.translate_of_compile_error hcompile)

/-- A function that reads a texture without naming it, in front of a loop that starts with a
block. -/
def ripple : Source.ShaderForm where
  name := "Ripple"
  decls := [{ func := some {
    name := "ring"
    returns := "void"
    params := [{ name := "uv", type := "vec2" }]
    body := [
      .kinds [.expr (.kinds [.call "sample" [.kinds [.call "pick" []], .scalar (.string "uv")]])],
      .kinds [.loop (some (.kinds [.block []])) none none []]] } }]

/-- HLSL stops at the texture, which is a matter of calls, and MSL at the loop. -/
theorem ripple_failures_typed :
    ∃ s, Source.shader ripple = .ok s ∧
      (Hlsl.compile {} (some s) {}).1 = .error (.fault (.refused .sampleTexture)) ∧
      (Fault.refused .sampleTexture).Typed [.declaration, .entryPoint, .call] s.loopStarts ∧
      (Msl.compile {} none (some s) {}).1.1 = .error (.fault (.loopStart .block)) ∧
      (Fault.loopStart .block).Typed [.declaration, .entryPoint] s.loopStarts := by
  have hresults : (Source.shader ripple).map (fun s =>
      ((Hlsl.compile {} (some s) {}).1, (Msl.compile {} none (some s) {}).1.1)) =
      .ok (.error (.fault (.refused .sampleTexture)), .error (.fault (.loopStart .block))) := by
    decide +kernel
  rcases hs : Source.shader ripple with e | s
  · rw [hs] at hresults
    cases hresults
  · rw [hs] at hresults
    obtain ⟨hhlsl, hmsl⟩ := Prod.mk.inj (Except.ok.inj hresults)
    obtain ⟨htypedHlsl, htypedMsl⟩ := source_failures_typed hs s.name
    refine ⟨s, rfl, hhlsl, ?_, hmsl, ?_⟩
    · obtain ⟨_, h⟩ | ⟨f, h, hf⟩ := htypedHlsl {} {} _ _ (Prod.ext hhlsl rfl)
      · cases h
      · cases h
        exact hf
    · obtain ⟨h, -⟩ | ⟨f, h, hf⟩ := htypedMsl {} none {} _ hmsl
      · cases h
      · cases h
        exact hf

end Shaderwright
