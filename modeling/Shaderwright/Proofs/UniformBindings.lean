import Mathlib.Tactic.Common
import Shaderwright.Proofs.Hlsl.Bindings
import Shaderwright.Proofs.Lists
import Shaderwright.Proofs.Msl.Uniforms

/-!
The parameters of a shader in both target languages. One binds every parameter and a sampler state
beside each texture, the other has one uniform for each name; the uniforms are the bindings that
are no sampler states, without later ones of a name.
-/

namespace Shaderwright

/-- The binding of a parameter, apart from a sampler state. -/
def mainBinding (v : Variable) : Hlsl.Binding :=
  ⟨v.name, if v.type.isSampler then .texture else Hlsl.constCategory v.type.arity, v.slot, v.count⟩

def isMain (b : Hlsl.Binding) : Bool := b.category ≠ .sampler

lemma isMain_mainBinding (v : Variable) : isMain (mainBinding v) = true := by
  unfold isMain mainBinding
  split
  · simp
  · simpa using Hlsl.constCategory_ne_sampler v.type.arity

lemma filter_paramBindings (v : Variable) :
    (Hlsl.paramBindings v).filter isMain = [mainBinding v] := by
  have hmain := isMain_mainBinding v
  unfold mainBinding at hmain ⊢
  unfold Hlsl.paramBindings
  by_cases hs : v.type.isSampler
  · simp only [if_pos hs] at hmain ⊢
    simp [isMain]
  · simp only [if_neg hs] at hmain ⊢
    simp [hmain]

/-- Apart from the sampler states there is one binding for each parameter. -/
lemma filter_declBindings (xs : List Decl) :
    (xs.flatMap Hlsl.declBindings).filter isMain = (xs.filterMap Decl.param?).map mainBinding := by
  induction xs with
  | nil => rfl
  | cons x xs ih =>
    rw [List.flatMap_cons, List.filter_append, ih]
    cases x with
    | var v =>
      by_cases hv : v.var.qualifier = .param
      · simp [Hlsl.declBindings, Decl.param?, hv, filter_paramBindings]
      · simp [Hlsl.declBindings, Decl.param?, hv]
    | _ => simp [Hlsl.declBindings, List.filterMap_cons, Decl.param?]

lemma filter_bindings {o : Hlsl.Options} {s : Shader} {w w' : World} {out : Hlsl.Output}
    (h : Hlsl.compile o (some s) w = (.ok out, w')) :
    out.bindings.filter isMain = s.params.map mainBinding := by
  obtain ⟨-, v, hv, hcode⟩ := Hlsl.translate_eq_ok.mp (Hlsl.translate_of_compile h)
  have hbindings : out.bindings = v.own := by rw [hcode]
  obtain ⟨hown, -⟩ := Hlsl.exec_decls ⟨rfl, rfl, rfl⟩ rfl hv
  rw [hbindings, hown, List.nil_append, filter_declBindings]
  rfl

/-- The uniforms of a shader have the names of its bindings, apart from those of sampler states, in
the same order and each name once; and a uniform has as many elements as the first of these
bindings that has its name. -/
theorem uniforms_eq_bindings {o : Hlsl.Options} {w w' : World} {s : Shader} {out : Hlsl.Output}
    (h : Hlsl.compile o (some s) w = (.ok out, w'))
    {o' : Msl.Options} {library : Option Msl.Library} {v : World} {out' : Msl.Output}
    (h' : (Msl.compile o' library (some s) v).1.1 = .ok out') :
    out'.uniforms.map Msl.Uniform.name =
        ((out.bindings.filter fun b => b.category ≠ .sampler).map Hlsl.Binding.name).eraseDups ∧
      ∀ u ∈ out'.uniforms, ∃ b,
        (out.bindings.filter fun b => b.category ≠ .sampler).find? (fun b => b.name = u.name) =
          some b ∧ u.count = b.count := by
  obtain ⟨text, own, ht, rfl⟩ := Msl.translate_of_compile h'
  have huniforms := Msl.uniforms_of_translate ht
  have hbindings : (out.bindings.filter fun b => b.category ≠ .sampler) =
      s.params.map mainBinding := filter_bindings h
  constructor
  · have hnames := congrArg (List.map Prod.fst) huniforms
    rw [keys_addNew] at hnames
    rw [hbindings]
    simpa [Function.comp_def, Msl.Uniform.sized, Msl.sizedParam, mainBinding] using hnames
  · intro u hu
    have hmem : u.sized ∈ (s.params.map Msl.sizedParam).foldl addNew [] :=
      huniforms ▸ List.mem_map_of_mem hu
    have hfirst := find?_of_mem_addNew hmem
    rw [List.find?_map, Option.map_eq_some_iff] at hfirst
    obtain ⟨p, hp, hsized⟩ := hfirst
    have hcount : p.count = u.count := congrArg Prod.snd hsized
    refine ⟨mainBinding p, ?_, hcount.symm⟩
    rw [hbindings, List.find?_map, Option.map_eq_some_iff]
    exact ⟨p, hp, rfl⟩

/-- A colour array, a texture, and a number that has the name of the colours again. -/
def dappled : Shader where
  name := "Dappled"
  decls := [
    .var { var := {
      name := "tint", type := .vec4, qualifier := .param, slot := 4, isArray := true,
      arraySize := 2 } },
    .var { var := { name := "image", type := .sampler2D, qualifier := .param } },
    .var { var := { name := "tint", type := .float, qualifier := .param, slot := 9 } }]

theorem uniforms_eq_bindings_dappled :
    ∃ out w' out', Hlsl.compile {} (some dappled) {} = (.ok out, w') ∧
      (Msl.compile {} none (some dappled) {}).1.1 = .ok out' ∧
      out.bindings = [⟨"tint", .const128, 4, 2⟩, ⟨"image", .texture, 0, 1⟩,
        ⟨"image_sampler", .sampler, 0, 1⟩, ⟨"tint", .const32, 9, 1⟩] ∧
      out'.uniforms.map Msl.Uniform.name = ["tint", "image"] ∧
      ∀ u ∈ out'.uniforms, ∃ b,
        (out.bindings.filter fun b => b.category ≠ .sampler).find? (fun b => b.name = u.name) =
          some b ∧ u.count = b.count := by
  obtain ⟨out, w', h, hbindings⟩ := Hlsl.compile_of_translate {} dappled
    [⟨"tint", .const128, 4, 2⟩, ⟨"image", .texture, 0, 1⟩, ⟨"image_sampler", .sampler, 0, 1⟩,
      ⟨"tint", .const32, 9, 1⟩] (by decide +kernel) (by decide +kernel) {}
  obtain ⟨out', h', -, -⟩ := Msl.compile_of_translate none {} dappled
    [⟨"tint", "float4 tint[2];", 0, 2⟩, ⟨"image", "texture2d<float> image;", 2, 1⟩]
    (by decide +kernel) {}
  obtain ⟨hnames, hcounts⟩ := uniforms_eq_bindings h h'
  refine ⟨out, w', out', h, h', hbindings, ?_, hcounts⟩
  rw [hnames, hbindings]
  decide +kernel

/-- A texture array, and a number that has the name of its sampler states. -/
def masked : Shader where
  name := "Masked"
  decls := [
    .var { var := {
      name := "mask", type := .sampler2D, qualifier := .param, isArray := true, arraySize := 3 } },
    .var { var := { name := "mask_sampler", type := .float, qualifier := .param, slot := 1 } }]

/-- The first binding of a name may be that of a sampler state, which is no uniform and has as many
elements as its texture. -/
theorem count_ne_first_binding :
    ∃ out w' out', Hlsl.compile {} (some masked) {} = (.ok out, w') ∧
      (Msl.compile {} none (some masked) {}).1.1 = .ok out' ∧
      ∃ u ∈ out'.uniforms, ∃ b, out.bindings.find? (fun b => b.name = u.name) = some b ∧
        u.count ≠ b.count := by
  obtain ⟨out, w', h, hbindings⟩ := Hlsl.compile_of_translate {} masked
    [⟨"mask", .texture, 0, 3⟩, ⟨"mask_sampler", .sampler, 0, 3⟩, ⟨"mask_sampler", .const32, 1, 1⟩]
    (by decide +kernel) (by decide +kernel) {}
  obtain ⟨out', h', huniforms, -⟩ := Msl.compile_of_translate none {} masked
    [⟨"mask", "texture2d<float> mask[3];", 0, 3⟩, ⟨"mask_sampler", "float mask_sampler;", 3, 1⟩]
    (by decide +kernel) {}
  refine ⟨out, w', out', h, h', ⟨"mask_sampler", "float mask_sampler;", 3, 1⟩, ?_,
    ⟨"mask_sampler", .sampler, 0, 3⟩, ?_, by decide⟩
  · rw [huniforms]
    simp
  · rw [hbindings]
    decide +kernel

end Shaderwright
