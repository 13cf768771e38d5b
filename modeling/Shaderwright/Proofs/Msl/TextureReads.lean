import Mathlib.Tactic.Common
import Shaderwright.Proofs.Msl.Acceptance
import Shaderwright.Proofs.Msl.Compile
import Shaderwright.Proofs.Msl.Reads

/-!
Texture reads in the final text. Every read goes through the function of the shader that takes the
sampler along, unless it is where the first argument of another read starts: of a chain of reads
that start right behind each other, every second one keeps its plain name.
-/

namespace Shaderwright.Msl

/-- What a function is called where it is defined, before helpers are renamed. -/
def definedName (shader : String) (f : FuncDef) : String :=
  if f.name = entryPointName then prefixed shader entryPointName else functions.get f.name

/-- What is written for a texture read up to its first argument. -/
def detour (shader : String) : String := prefixed shader sampleFunction ++ "(_sampler, "

lemma routeSamples_eq (shader : String) (text : List Char) :
    routeSamples shader text = routed (detour shader).toList true text := by
  have hdetour : (detour shader).toList = (shader ++ "_sample(_sampler, ").toList := by
    simp [detour, toList_prefixed, sampleFunction]
  rw [routed, hdetour]
  rfl

/-- The detour is told from a plain read by its first word. -/
lemma plain_ne_detour {shader : String} (hshader : isIdentifier shader = true) (a b : String) :
    sampleFunction ++ "(" ++ a ≠ detour shader ++ b := by
  intro heq
  have hword := isWordChar_prefixed (isWord_of_isIdentifier hshader).word isWordChar_sampleFunction
  have hplain := runs_call isWordChar_sampleFunction a.toList
  have hrouted := runs_call hword ("_sampler, " ++ b).toList
  have hlists : sampleFunction.toList ++ ['('] ++ a.toList =
      (prefixed shader sampleFunction).toList ++ ['('] ++ ("_sampler, " ++ b).toList := by
    have := congrArg String.toList heq
    simpa [detour] using this
  rw [hlists, hrouted] at hplain
  exact Renaming.prefixed_ne_sampleFunction shader sampleFunction
    (String.toList_inj.mp (congrArg Prod.fst hplain))

/-- The final names, and the detours where reads are found. -/
lemma rename_fill {ρ : Renaming} (hρ : ρ.KeepsReads) {c : Template} (hc : c.Sound) {body : String}
    (h : rename ρ.shader ρ.helpers (decide (c.holes ≠ 0)) (c.fill (sampleFunction ++ "(")) =
      some body) :
    body = (c.map ρ.text).alternate (sampleFunction ++ "(") (detour ρ.shader) true := by
  obtain ⟨t, ht, rfl⟩ := Option.map_eq_some_iff.mp h
  obtain rfl := ρ.eq_text_of_renameHelpers ht
  rw [Template.text_fill hρ hc]
  cases c with
  | text t => simp [Template.holes, Template.map, Template.fill, Template.alternate]
  | hole t c =>
    rw [if_pos (by simp [Template.holes]), routeSamples_eq, Template.routed_fill (hc.map hρ),
      String.ofList_toList]

/-- No function of a shader is called like the one that its reads go through. -/
lemma text_definedName_ne {ρ : Renaming} {s : Shader} (hshader : ρ.shader = s.name)
    (hhelpers : ρ.helpers = helperNames s) (hname : isIdentifier s.name = true) {f : FuncDef}
    (hf : .func f ∈ s.decls) (hword : isIdentifier f.name = true) (hne : f.name ≠ sampleFunction) :
    ρ.text (definedName s.name f) ≠ prefixed s.name sampleFunction := by
  have hinj : ∀ n, prefixed s.name n = prefixed s.name sampleFunction → n = sampleFunction := by
    intro n heq
    rw [← String.toList_inj, toList_prefixed, toList_prefixed] at heq
    simpa [String.toList_inj] using heq
  have hdefined : (∀ c ∈ (definedName s.name f).toList, isWordChar c = true) ∧
      definedName s.name f ≠ sampleFunction := by
    unfold definedName
    split
    · exact ⟨isWordChar_prefixed (isWord_of_isIdentifier hname).word
          (isWord_of_isIdentifier (by decide)).word,
        Renaming.prefixed_ne_sampleFunction _ _⟩
    · exact functions_get_spares hword hne
  rw [ρ.text_word hdefined.1, ρ.new_eq, hshader, show ρ.old = helperNames s from hhelpers]
  split
  · exact fun heq => hdefined.2 (hinj _ heq)
  · -- The name stays, so it is that of the entry point or of a function of the language.
    rename_i hmem
    unfold definedName at hmem ⊢
    split
    · exact fun heq => absurd (hinj _ heq) (by decide)
    · rename_i hentry
      rw [if_neg hentry] at hmem
      have hcore : f.name ∈ coreFunctions := by
        by_contra hother
        have hhelper : isHelper f.name = true := by simpa [isHelper] using hother
        rw [functions_get_of_isHelper hhelper] at hmem
        exact hmem (mem_helperNames.mpr ⟨f, hf, rfl, hhelper⟩)
      have hplain : ∀ n ∈ coreFunctions, '_' ∉ (functions.get n).toList := by decide
      intro heq
      refine hplain f.name hcore ?_
      simp [heq, toList_prefixed]

/-- The texture reads of an accepted shader. What is written for its declarations is a template with
one hole for each read, in which the name of the read and its parenthesis stand. In the final text
all other names are the final ones, and a hole has the detour in it unless it directly follows one
with a detour. So all reads take the detour exactly if the first argument of no read starts with a
read. The function that they go through is defined if there is a read, and only once. -/
theorem texture_reads_routed_iff {o : Options} {library : Option Library} {s : Shader} {w : World}
    {out : Output} (h : (compile o library (some s) w).1.1 = .ok out)
    (hname : isIdentifier s.name = true)
    (hvariables : ∀ x ∈ s.decls, ∀ v ∈ x.variables, isIdentifier v.name = true)
    (hfunctions : ∀ f, .func f ∈ s.decls → isIdentifier f.name = true ∧ f.name ≠ sampleFunction)
    (hexprs : ∀ e ∈ s.decls.flatMap writtenExprs, spelledApart e = true) :
    ∃ (v : Writer State) (c : Template) (ρ : Renaming),
      ((dialect functions s.name).decls s.decls).exec { own := {} } = (.ok (), v) ∧
      v.out = c.fill (sampleFunction ++ "(") ∧
      (∀ x, declsText (functions.insert sampleFunction x) s.name {} s.decls = c.fill (x ++ "(")) ∧
      c.holes = (s.decls.flatMap writtenExprs).countP Expr.isRead ∧
      ρ.shader = s.name ∧ ρ.helpers = helperNames s ∧
      out.text = headerLines s.name (commonHeaderOf library) ++ structText s.name out.uniforms ++
        "\n" ++ (if c.holes = 0 then "" else sampleHelper s.name ++ "\n") ++
        (c.map ρ.text).alternate (sampleFunction ++ "(") (detour s.name) true ∧
      ((c.map ρ.text).alternate (sampleFunction ++ "(") (detour s.name) true =
          (c.map ρ.text).fill (detour s.name) ↔
        ∀ e ∈ s.decls.flatMap writtenExprs, e.readsApart = true) ∧
      ∀ f, .func f ∈ s.decls → ρ.text (definedName s.name f) ≠ prefixed s.name sampleFunction := by
  obtain ⟨text, own, ht, rfl⟩ := translate_of_compile h
  obtain ⟨-, v, body, hv, hbody, rfl, rfl⟩ := translate_eq_ok.mp ht
  have hregular : ∀ x ∈ s.decls, Regular x := fun x hx =>
    { writable := declWritable_of_exec hv hx
      declared := hvariables x hx
      defined := fun f hf => hfunctions f (hf ▸ hx)
      exprs := fun e he => hexprs e (List.mem_flatMap.mpr ⟨x, hx, he⟩) }
  -- The visit writes the rendering, and the rendering is a template.
  obtain ⟨hout, -, hsamples⟩ := exec_decls ⟨rfl, rfl, rfl⟩ rfl Dotted.inputs
    hvariables hv
  obtain ⟨c, hc, -⟩ := lines_decls (k := {}) (by decide) hname hregular
  have hflag : v.own.samples = decide (c.holes ≠ 0) := by
    have hany : s.decls.any declReads = (s.decls.flatMap writtenExprs).any Expr.isRead :=
      List.any_flatMap.symm
    have hcount : ∀ es : List Expr, es.any Expr.isRead = decide (es.countP Expr.isRead ≠ 0) := by
      intro es
      rw [Bool.eq_iff_iff]
      simp [List.countP_eq_zero]
    rw [hc.holes, ← hcount, ← hany]
    exact hsamples
  obtain ⟨ρ, hshader, hhelpers⟩ :
      ∃ ρ : Renaming, ρ.shader = s.name ∧ ρ.helpers = helperNames s := by
    refine ⟨.of s.name (helperNames s) fun n hn => ?_, rfl, rfl⟩
    obtain ⟨f, hf, rfl, -⟩ := mem_helperNames.mp hn
    exact (hfunctions f hf).1
  have husual : UsualApart functions := fun _ _ => rfl
  have hvisit : v.out = c.fill (sampleFunction ++ "(") :=
    hout.trans ((String.empty_append).trans (hc.fill functions husual))
  have hρ : ρ.KeepsReads :=
    { shader := hshader ▸ (isWord_of_isIdentifier hname).word
      reads := fun hmem => by
        rw [hhelpers] at hmem
        obtain ⟨-, -, -, hhelper⟩ := mem_helperNames.mp hmem
        exact absurd hhelper (by decide) }
  refine ⟨v, c, ρ, hv, hvisit, fun x => ?_, hc.holes, hshader, hhelpers, ?_, ?_, fun f hf => ?_⟩
  · have hnames : UsualApart (functions.insert sampleFunction x) := fun n hn => by
      rw [NameTable.get_insert, if_neg hn]
    rw [hc.fill _ hnames, NameTable.get_insert, if_pos rfl]
  · rw [helpers_of_exec hv, hflag, hvisit, ← hshader, ← hhelpers] at hbody
    rw [rename_fill hρ hc.sound hbody, assemble, hflag, hshader]
    simp only [ne_eq, decide_not, Bool.not_eq_true', decide_eq_false_iff_not, ite_not]
  · rw [Template.alternate_eq_fill_iff (plain_ne_detour hname), Template.spread_map, hc.spread]
    simp only [true_or, true_and, List.all_eq_true]
  · exact text_definedName_ne hshader hhelpers hname hf (hfunctions f hf).1 (hfunctions f hf).2

/-- Reads as the first argument of another call, behind a sign, and inside a read. -/
def glaze : Shader where
  name := "Glaze"
  decls := [
    .var { var := { name := "mask", type := .sampler2D, qualifier := .param } },
    .func {
      name := "blur"
      returns := .vec4
      params := [{ var := { name := "uv", type := .vec2 } }]
      body := [.returns (.unary "-" (.call "sample" [.ident "mask" .unresolved,
        .member (.call "sample" [.ident "mask" .unresolved, .ident "uv" .unresolved]) "xy"]))] },
    .func {
      name := "main"
      returns := .void
      params := [{ var := { name := "color", type := .vec4, out := true } }]
      body := [.expr (.assign "=" (.ident "color" .unresolved)
        (.call "mix" [.call "sample" [.ident "mask" .unresolved, .ident "texCoord" .unresolved],
          .call "blur" [.ident "texCoord" .unresolved], .literal "0.5" .float]))] }]

theorem texture_reads_routed_iff_glaze :
    (∀ x ∈ glaze.decls, ∀ v ∈ x.variables, isIdentifier v.name = true) ∧
      (∀ e ∈ glaze.decls.flatMap writtenExprs, spelledApart e = true) ∧
      (∀ e ∈ glaze.decls.flatMap writtenExprs, e.readsApart = true) ∧
      ∃ out v c, ∃ ρ : Renaming, (compile {} none (some glaze) {}).1.1 = .ok out ∧
        ((dialect functions glaze.name).decls glaze.decls).exec { own := {} } = (.ok (), v) ∧
        v.out = Template.fill "sample(" c ∧ c.holes = 3 ∧ ρ.shader = "Glaze" ∧
        ρ.helpers = ["blur"] ∧
        out.text = headerLines "Glaze" defaultCommonHeader ++ structText "Glaze" out.uniforms ++
          "\n" ++ (sampleHelper "Glaze" ++ "\n") ++
          (c.map ρ.text).fill "Glaze_sample(_sampler, " := by
  have hvariables : ∀ x ∈ glaze.decls, ∀ v ∈ x.variables, isIdentifier v.name = true := by decide
  have hexprs : ∀ e ∈ glaze.decls.flatMap writtenExprs, spelledApart e = true := by decide +kernel
  have hapart : ∀ e ∈ glaze.decls.flatMap writtenExprs, e.readsApart = true := by decide +kernel
  have hfunctions : ∀ f, .func f ∈ glaze.decls →
      isIdentifier f.name = true ∧ f.name ≠ sampleFunction := by
    intro f hf
    simp only [glaze, List.mem_cons, reduceCtorEq, Decl.func.injEq, List.not_mem_nil, or_false,
      false_or] at hf
    rcases hf with rfl | rfl <;> decide
  obtain ⟨result, ht⟩ := exists_translate (by decide) (by decide)
    (fun f hf => isWord_of_isIdentifier (hfunctions f hf).1) (by decide +kernel)
    (commonHeaderOf none)
  obtain ⟨out, h⟩ := exists_compile {} {} (by rw [ht]; rfl)
  obtain ⟨v, c, ρ, hv, hout, -, hholes, hshader, hhelpers, htext, hrouted, -⟩ :=
    texture_reads_routed_iff h (by decide) hvariables hfunctions hexprs
  have hthree : c.holes = 3 := hholes.trans (by decide +kernel)
  rw [hrouted.mpr hapart, if_neg (by rw [hthree]; decide)] at htext
  exact ⟨hvariables, hexprs, hapart, out, v, c, ρ, h, hv, hout, hthree, hshader, hhelpers, htext⟩

/-- A constant that is a read in the place of the texture of another one. -/
def doubled : Shader where
  name := "Doubled"
  decls := [
    .var { var := { name := "mask", type := .sampler2D, qualifier := .param } },
    .var {
      var := { name := "glow", type := .vec4, qualifier := .const }
      init := .call "sample" [
        .call "sample" [.ident "mask" .unresolved, .literal "0.5" .float], .literal "0.5" .float] }]

/-- The inner read is not found, so it does not take the detour. -/
theorem not_all_reads_routed :
    ∃ out, (compile {} none (some doubled) {}).1.1 = .ok out ∧
      out.text =
        "// Doubled.metal: generated by shadergen\n" ++
        "#include \"ShaderCommon.h\"\n\n" ++
        "struct Doubled_Uniforms \x7b\n" ++
        "    texture2d<float> mask;\n" ++
        "\x7d;\n\n" ++
        "float4 Doubled_sample(sampler s, texture2d<float> t, float2 uv) \x7b\n" ++
        "    return t.sample(s, uv);\n" ++
        "\x7d\n\n" ++
        "#define glow (Doubled_sample(_sampler, sample(_uniforms.mask, 0.5), 0.5))\n" :=
  compile_of_text {} (by decide +kernel) {}

end Shaderwright.Msl
