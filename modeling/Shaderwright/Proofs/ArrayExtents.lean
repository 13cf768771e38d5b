import Mathlib.Tactic.Common
import Shaderwright.Proofs.Emit.Shows
import Shaderwright.Proofs.Hlsl.Acceptance
import Shaderwright.Proofs.Hlsl.Extents
import Shaderwright.Proofs.Msl.Acceptance
import Shaderwright.Proofs.Msl.Extents
import Shaderwright.Proofs.Shader.Complete

/-!
The sizes of arrays survive translation. In both languages the text of an accepted shader has the
size of every array that it declares in the declarator of the array, in brackets behind its type and
name, and tells nothing else of the sizes. There is one exception: in MSL a parameter of a function
that hands a value out is declared as a reference to a single element, and the size is lost.
-/

namespace Shaderwright

/-! ### All arrays are listed -/

/-- The variables that the body of a function declares in the text. A constant is a replacement
text, but at the start of a loop it is declared like any other variable. -/
def FuncDef.locals (f : FuncDef) : List Variable :=
  (Stmt.variablesOf f.body).filter (·.qualifier ≠ .const) ++
    (Stmt.loopStartsOf f.body).flatMap Stmt.variables

/-- The variables that a declaration declares in the text, with those parameters of a function that
are of interest. The entry point has a signature of its own. -/
def Decl.declared (interest : Variable → Bool) : Decl → List Variable
  | .func f =>
    (if f.name = entryPointName then [] else (f.params.map VarDecl.var).filter interest) ++ f.locals
  | x => x.variables.filter (·.qualifier ≠ .const)

def Decl.declaredArrays (interest : Variable → Bool) (x : Decl) : List Variable :=
  (x.declared interest).filter Variable.isArray

variable {types names : NameTable} {rule : SampleRule} {v : Variable} {f : Option String}

lemma Declarator.mem_ifArray {d : Declarator} (harray : d.var.isArray = true) : d ∈ d.ifArray := by
  rw [Declarator.ifArray, if_pos harray]
  exact List.mem_singleton_self _

lemma Stmt.mem_startArrays {s : Stmt} (hs : s.startWritable rule f = true) (hv : v ∈ s.variables)
    (harray : v.isArray = true) : v.declarator types names ∈ s.startArrays types names := by
  cases s with
  | decl d =>
    obtain rfl : v = d.var := by simpa [Stmt.variables] using hv
    exact Declarator.mem_ifArray harray
  | absent => simp [Stmt.variables] at hv
  | expr x => simp [Stmt.variables] at hv
  | _ => simp [Stmt.startWritable] at hs

lemma Stmt.mem_arrays {s : Stmt} (hs : s.writable rule f = true)
    (hv : v ∈ s.variables) (harray : v.isArray = true) (hconst : v.qualifier ≠ .const) :
    v.declarator types names ∈ s.arrays types names := by
  induction s using Stmt.inductOn with
  | block ss ih =>
    rw [Stmt.variables, Stmt.variablesOf_eq_flatMap, List.mem_flatMap] at hv
    rw [Stmt.writable, Stmt.allWritable_eq_true] at hs
    obtain ⟨s, hmem, hv⟩ := hv
    rw [Stmt.arrays, Stmt.arraysOf_eq_flatMap, List.mem_flatMap]
    exact ⟨s, hmem, ih s hmem (hs s hmem) hv⟩
  | decl d =>
    obtain rfl : v = d.var := by simpa [Stmt.variables] using hv
    rw [Stmt.arrays, if_neg hconst]
    exact Declarator.mem_ifArray harray
  | ifElse cond yes no hyes hno =>
    rw [Stmt.variables, List.mem_append] at hv
    simp only [Stmt.writable, Bool.and_eq_true, Bool.or_eq_true] at hs
    rw [Stmt.arrays, List.mem_append]
    refine hv.imp (hyes hs.1.2) fun hv => ?_
    rcases hs.2 with habsent | hs
    · cases no with
      | absent => simp [Stmt.variables] at hv
      | _ => simp [Stmt.isAbsent] at habsent
    · exact hno hs hv
  | loop init cond post body hinit hbody =>
    rw [Stmt.variables, List.mem_append] at hv
    simp only [Stmt.writable, Bool.and_eq_true] at hs
    rw [Stmt.arrays, List.mem_append]
    exact hv.imp (fun hv => Stmt.mem_startArrays hs.1.1.1 hv harray) (hbody hs.2)
  | _ => simp [Stmt.variables] at hv

/-- At the start of a loop it makes no difference whether the array is a constant. -/
lemma Stmt.mem_arrays_of_loopStarts {s start : Stmt} (hs : s.writable rule f = true)
    (hstart : start ∈ s.loopStarts) (hv : v ∈ start.variables) (harray : v.isArray = true) :
    v.declarator types names ∈ s.arrays types names := by
  induction s using Stmt.inductOn with
  | block ss ih =>
    rw [Stmt.loopStarts, Stmt.loopStartsOf_eq_flatMap, List.mem_flatMap] at hstart
    rw [Stmt.writable, Stmt.allWritable_eq_true] at hs
    obtain ⟨s, hmem, hstart⟩ := hstart
    rw [Stmt.arrays, Stmt.arraysOf_eq_flatMap, List.mem_flatMap]
    exact ⟨s, hmem, ih s hmem (hs s hmem) hstart⟩
  | ifElse cond yes no hyes hno =>
    rw [Stmt.loopStarts, List.mem_append] at hstart
    simp only [Stmt.writable, Bool.and_eq_true, Bool.or_eq_true] at hs
    rw [Stmt.arrays, List.mem_append]
    refine hstart.imp (hyes hs.1.2) fun hstart => ?_
    rcases hs.2 with habsent | hs
    · cases no with
      | absent => simp [Stmt.loopStarts] at hstart
      | _ => simp [Stmt.isAbsent] at habsent
    · exact hno hs hstart
  | loop init cond post body hinit hbody =>
    simp only [Stmt.writable, Bool.and_eq_true] at hs
    -- there is no loop in the start of a loop
    have hnone : init.loopStarts = [] := by
      cases init <;> simp_all [Stmt.startWritable, Stmt.loopStarts]
    rw [Stmt.loopStarts, hnone, List.nil_append, List.mem_cons] at hstart
    rw [Stmt.arrays, List.mem_append]
    refine hstart.imp (fun hstart => ?_) (hbody hs.2)
    subst hstart
    exact Stmt.mem_startArrays hs.1.1.1 hv harray
  | _ => simp [Stmt.loopStarts] at hstart

lemma FuncDef.mem_arraysOf {f : FuncDef} (hf : f.writable rule = true) (hv : v ∈ f.locals)
    (harray : v.isArray = true) :
    v.declarator types names ∈ Stmt.arraysOf types names f.body := by
  simp only [FuncDef.writable, Bool.and_eq_true] at hf
  have hbody := Stmt.allWritable_eq_true.mp hf.2
  rw [Stmt.arraysOf_eq_flatMap, List.mem_flatMap]
  rcases List.mem_append.mp hv with hv | hv
  · obtain ⟨hv, hconst⟩ := List.mem_filter.mp hv
    rw [Stmt.variablesOf_eq_flatMap, List.mem_flatMap] at hv
    obtain ⟨s, hmem, hv⟩ := hv
    exact ⟨s, hmem, Stmt.mem_arrays (hbody s hmem) hv harray (by simpa using hconst)⟩
  · obtain ⟨start, hstart, hv⟩ := List.mem_flatMap.mp hv
    rw [Stmt.loopStartsOf_eq_flatMap, List.mem_flatMap] at hstart
    obtain ⟨s, hmem, hstart⟩ := hstart
    exact ⟨s, hmem, Stmt.mem_arrays_of_loopStarts (hbody s hmem) hstart hv harray⟩

lemma Decl.mem_declared_var {interest : Variable → Bool} {d : VarDecl} :
    v ∈ (Decl.var d).declared interest ↔ v = d.var ∧ d.var.qualifier ≠ .const := by
  simp only [Decl.declared, Decl.variables, List.mem_filter, List.mem_singleton, decide_eq_true_eq]
  exact and_congr_right fun h => by rw [h]

lemma Hlsl.mem_declArrays {x : Decl} (hx : Hlsl.declWritable x = true)
    (hv : v ∈ x.declaredArrays fun _ => true) :
    Hlsl.declarator v ∈ Hlsl.declArrays x := by
  obtain ⟨hv, harray⟩ := List.mem_filter.mp hv
  cases x with
  | absent => simp [Decl.declared, Decl.variables] at hv
  | var d =>
    obtain ⟨rfl, hconst⟩ := Decl.mem_declared_var.mp hv
    show _ ∈ Hlsl.globalArrays d
    rw [Hlsl.globalArrays, if_neg hconst]
    exact List.mem_append_right _ (Declarator.mem_ifArray harray)
  | func f =>
    show _ ∈ Hlsl.functionArrays f
    rw [Hlsl.functionArrays, List.mem_append]
    refine (List.mem_append.mp hv).imp (fun hv => ?_) fun hv => FuncDef.mem_arraysOf hx hv harray
    by_cases hname : f.name = entryPointName
    · simp [hname] at hv
    · rw [if_neg hname, List.mem_filter, List.mem_map] at hv
      rw [if_neg hname, List.mem_flatMap]
      obtain ⟨⟨p, hp, rfl⟩, -⟩ := hv
      exact ⟨p, hp, Declarator.mem_ifArray harray⟩

lemma Msl.mem_declArrays {k : Msl.Known} {x : Decl} (hx : Msl.declWritable x = true)
    (hparam : x.param? = none) (hv : v ∈ x.declaredArrays (!·.out)) :
    v.declarator Msl.types k.variableNames ∈ Msl.declArrays k x := by
  obtain ⟨hv, harray⟩ := List.mem_filter.mp hv
  cases x with
  | absent => simp [Decl.declared, Decl.variables] at hv
  | var d =>
    obtain ⟨rfl, hconst⟩ := Decl.mem_declared_var.mp hv
    have hne : d.var.qualifier ≠ .param := by simpa [Decl.param?] using hparam
    show _ ∈ (if d.var.qualifier = .const || d.var.qualifier = .param then [] else _)
    rw [if_neg (by simp [hconst, hne])]
    exact Declarator.mem_ifArray harray
  | func f =>
    show _ ∈ Msl.functionArrays k.variableNames f
    rw [Msl.functionArrays, List.mem_append]
    refine (List.mem_append.mp hv).imp (fun hv => ?_) fun hv => FuncDef.mem_arraysOf hx hv harray
    by_cases hname : f.name = entryPointName
    · simp [hname] at hv
    · rw [if_neg hname, List.mem_filter, List.mem_map] at hv
      rw [if_neg hname, List.mem_flatMap]
      obtain ⟨⟨p, hp, rfl⟩, hout⟩ := hv
      refine ⟨p, hp, ?_⟩
      rw [Msl.paramArray, if_neg (by simpa using hout)]
      exact Declarator.mem_ifArray harray

/-- Of a shader that is accepted, all declared arrays are listed. -/
lemma Hlsl.mem_arrays {o : Hlsl.Options} {s : Shader} {w w' : World} {out : Hlsl.Output}
    (h : Hlsl.compile o (some s) w = (.ok out, w')) {x : Decl} (hx : x ∈ s.decls)
    (hv : v ∈ x.declaredArrays fun _ => true) :
    Hlsl.declarator v ∈ Hlsl.arrays s := by
  have hwritable := (Hlsl.translate_isOk_iff.mp ⟨_, Hlsl.translate_of_compile h⟩).2 x hx
  exact List.mem_flatMap.mpr ⟨x, hx, Hlsl.mem_declArrays hwritable hv⟩

lemma Msl.mem_declsArrays (k : Msl.Known) (before after : List Decl) {x : Decl}
    {d : Declarator} (hd : d ∈ Msl.declArrays (before.foldl Msl.Known.behind k) x) :
    d ∈ Msl.declsArrays k (before ++ x :: after) := by
  induction before generalizing k with
  | nil => exact List.mem_append_left _ hd
  | cons y before ih => exact List.mem_append_right _ (ih (k.behind y) hd)

/-- A variable as a declaration behind others declares it. A parameter of the shader is a field of
the uniform struct, which is not renamed. -/
def Msl.declaredAs (s : Shader) (before : List Decl) (x : Decl) (v : Variable) : Declarator :=
  if x.param?.isSome then Msl.fieldDeclarator v
  else Msl.finalDeclarator s
    (v.declarator Msl.types (before.foldl Msl.Known.behind {}).variableNames)

/-- Of a shader that is accepted, all declared arrays are listed that hand no value out of a
function. -/
lemma Msl.mem_arrays {o : Msl.Options} {library : Option Msl.Library} {s : Shader} {w : World}
    {out : Msl.Output} (h : (Msl.compile o library (some s) w).1.1 = .ok out)
    {before after : List Decl} {x : Decl} (hs : s.decls = before ++ x :: after)
    (hv : v ∈ x.declaredArrays (!·.out)) (hfirst : x.param? = some v → v ∈ Msl.firstParams s) :
    Msl.declaredAs s before x v ∈ Msl.arrays s := by
  unfold Msl.declaredAs Msl.arrays
  rw [List.mem_append]
  rcases hparam : x.param? with _ | p
  · obtain ⟨text, own, ht, -⟩ := Msl.translate_of_compile h
    obtain ⟨-, u, body, hu, -⟩ := Msl.translate_eq_ok.mp ht
    have hx : x ∈ s.decls := hs ▸ List.mem_append_right _ List.mem_cons_self
    have hwritable := Msl.declWritable_of_exec hu hx hparam
    have hlisted := Msl.mem_declsArrays {} before after
      (Msl.mem_declArrays hwritable hparam hv)
    rw [← hs] at hlisted
    rw [if_neg (by simp)]
    exact .inr (List.mem_map_of_mem hlisted)
  · obtain ⟨d, rfl, -, rfl⟩ := Decl.param?_eq_some hparam
    obtain ⟨hv, harray⟩ := List.mem_filter.mp hv
    obtain ⟨rfl, -⟩ := Decl.mem_declared_var.mp hv
    exact .inl (List.mem_flatMap.mpr ⟨d.var, hfirst hparam, Declarator.mem_ifArray harray⟩)

/-! ### All sizes are shown -/

/-- The text of an accepted shader has the sizes of its arrays in their declarators, and as the
sizes change nothing else in it does. All declared arrays have their place in the text; in MSL no
parameter of a function that hands a value out, and of two parameters of the shader with one name
the first. -/
theorem array_sizes_shown (s : Shader) :
    (∀ o, ∃ text, Woven (Hlsl.arrays s) text ∧
      (∀ size w out w', Hlsl.compile o (some (s.resized size)) w = (.ok out, w') →
        out.text = text size) ∧
      ∀ w out w', Hlsl.compile o (some s) w = (.ok out, w') → out.text = text Variable.arraySize ∧
        ∀ x ∈ s.decls, ∀ v ∈ x.declaredArrays fun _ => true,
          Hlsl.declarator v ∈ Hlsl.arrays s) ∧
    ((∀ n ∈ Msl.helperNames s, Msl.isIdentifier n = true) → ∀ library, ∃ text,
      Woven (Msl.arrays s) text ∧
      (∀ size o w out, (Msl.compile o library (some (s.resized size)) w).1.1 = .ok out →
        out.text = text size) ∧
      ∀ o w out, (Msl.compile o library (some s) w).1.1 = .ok out →
        out.text = text Variable.arraySize ∧
        ∀ before x after, s.decls = before ++ x :: after → ∀ v ∈ x.declaredArrays (!·.out),
          (x.param? = some v → v ∈ Msl.firstParams s) →
            Msl.declaredAs s before x v ∈ Msl.arrays s) := by
  constructor
  · intro o
    obtain ⟨text, hwoven, htext⟩ := Hlsl.woven_compile o s
    refine ⟨text, hwoven, htext, fun w out w' h => ⟨?_, fun x hx v hv => Hlsl.mem_arrays h hx hv⟩⟩
    exact htext Variable.arraySize w out w' (by rwa [s.resized_self])
  · intro hs library
    obtain ⟨text, hwoven, htext⟩ := Msl.woven_compile library hs
    refine ⟨text, hwoven, htext, fun o w out h =>
      ⟨?_, fun before x after hx v hv hfirst => Msl.mem_arrays h hx hv hfirst⟩⟩
    exact htext Variable.arraySize o w out (by rwa [s.resized_self])

def tierLayers : Variable where
  name := "layers"
  type := .sampler2D
  qualifier := .param
  isArray := true
  arraySize := 2

def tierWeights : Variable := { name := "weights", type := .float, isArray := true, arraySize := 4 }

def tierInput : Variable := { name := "xs", type := .vec2, isArray := true, arraySize := 3 }

def tierLocal : Variable := { name := "ys", type := .vec4, isArray := true, arraySize := 5 }

def tierCounter : Variable := { name := "steps", type := .int, isArray := true, arraySize := 6 }

/-- A function with an array in each place that it has for one. -/
def tierBlend : FuncDef where
  name := "blend"
  returns := .void
  params := [{ var := tierInput }]
  body := [
    .decl { var := tierLocal },
    .loop (.decl { var := tierCounter }) .absent .absent (.block [.breakLoop])]

def tiers : Shader where
  name := "Tiers"
  decls := [
    .var { var := tierLayers },
    .var { var := tierWeights, init := .call "blurred" [] },
    .func tierBlend]

def tierArrays (textures : List Declarator) : List Declarator :=
  textures ++ [⟨"float", "weights", tierWeights⟩, ⟨"float2", "xs", tierInput⟩,
    ⟨"float4", "ys", tierLocal⟩, ⟨"int", "steps", tierCounter⟩]

/-- A shader with arrays in all places. In HLSL the textures have their sampler states in front of
them, and in MSL they are the only field of the struct. -/
theorem array_sizes_shown_tiers :
    (∃ text out w',
      Woven (tierArrays [⟨"SamplerState", "layers_sampler", tierLayers⟩,
        ⟨"Texture2D", "layers", tierLayers⟩]) text ∧
      Hlsl.compile {} (some tiers) {} = (.ok out, w') ∧ out.text = text Variable.arraySize) ∧
    ∃ text out,
      Woven (tierArrays [⟨"texture2d<float>", "layers", tierLayers⟩]) text ∧
      (Msl.compile {} none (some tiers) {}).1.1 = .ok out ∧
      out.text = text Variable.arraySize := by
  have hhlsl : Hlsl.arrays tiers = tierArrays [⟨"SamplerState", "layers_sampler", tierLayers⟩,
      ⟨"Texture2D", "layers", tierLayers⟩] := by decide +kernel
  have hmsl : Msl.arrays tiers = tierArrays [⟨"texture2d<float>", "layers", tierLayers⟩] := by
    decide +kernel
  obtain ⟨hlsl, msl⟩ := array_sizes_shown tiers
  constructor
  · obtain ⟨text, hwoven, -, htext⟩ := hlsl {}
    obtain ⟨out, w', hout, -⟩ := Hlsl.compile_of_translate {} tiers
      [⟨"layers", .texture, 0, 2⟩, ⟨"layers_sampler", .sampler, 0, 2⟩] (by decide +kernel)
      (by decide +kernel) {}
    exact ⟨text, out, w', hhlsl ▸ hwoven, hout, (htext {} out w' hout).1⟩
  · have hwords : ∀ g, .func g ∈ tiers.decls → Msl.IsWord g.name.toList := by
      intro g hg
      obtain rfl : g = tierBlend := by simpa [tiers] using hg
      exact Msl.isWord_of_isIdentifier (by decide)
    obtain ⟨text, hwoven, -, htext⟩ := msl (by decide +kernel) none
    obtain ⟨result, ht⟩ := Msl.exists_translate (s := tiers) (by decide) (by decide +kernel) hwords
      (by decide +kernel) (Msl.commonHeaderOf none)
    obtain ⟨out, hout⟩ := Msl.exists_compile {} {} (by rw [ht]; rfl)
    exact ⟨text, out, hmsl ▸ hwoven, hout, (htext {} {} out hout).1⟩

/-- A function that hands an array out. -/
def sieve : Shader where
  name := "Sieve"
  decls := [.func {
    name := "sort"
    returns := .void
    params := [{ var := {
      name := "xs", type := .float, isArray := true, arraySize := 3, out := true } }] }]

def sieveText : String :=
  "// Sieve.metal: generated by shadergen\n#include \"ShaderCommon.h\"\n\n" ++
    "struct Sieve_Uniforms \x7b\n\x7d;\n\n" ++
    "void Sieve_sort(sampler _sampler, constant Sieve_Uniforms& _uniforms, thread float& xs) " ++
    "\x7b\n\x7d\n\n"

/-- The array becomes a reference to one element, where HLSL has an array of three. -/
theorem array_size_lost_sieve :
    (∃ out w', Hlsl.compile {} (some sieve) {} = (.ok out, w') ∧
      out.text = Hlsl.headerLine "Sieve" ++ "void sort(out float xs[3]) \x7b\n\x7d\n\n") ∧
    ∃ out, (Msl.compile {} none (some sieve) {}).1.1 = .ok out ∧ out.text = sieveText ∧
      ¬ Text.Within "xs[3]" out.text := by
  constructor
  · have hcode : Hlsl.translate {} (some sieve) =
        .ok ⟨Hlsl.headerLine "Sieve" ++ "void sort(out float xs[3]) \x7b\n\x7d\n\n", []⟩ := by
      decide +kernel
    obtain ⟨out, w', hout, -⟩ := Hlsl.compile_of_translate {} sieve [] (by rw [hcode]; rfl)
      (by decide +kernel) {}
    have hsame := Except.ok.inj ((Hlsl.translate_of_compile hout).symm.trans hcode)
    exact ⟨out, w', hout, congrArg Hlsl.Code.text hsame⟩
  · have htext : (Msl.translate (Msl.commonHeaderOf none) (some sieve)).map Prod.fst =
        .ok sieveText := by decide +kernel
    obtain ⟨out, hout, hsame⟩ := Msl.compile_of_text {} htext {}
    refine ⟨out, hout, hsame, fun hwithin => ?_⟩
    have hnone : Text.contains sieveText "xs[3]" = false := by
      unfold Text.contains sieveText
      repeat rw [String.toList_append]
      decide +kernel
    rw [hsame] at hwithin
    exact Bool.eq_false_iff.mp hnone hwithin.contains

end Shaderwright
