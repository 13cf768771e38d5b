import Mathlib.Tactic.Common
import Shaderwright.Proofs.Hlsl.Bindings
import Shaderwright.Proofs.Hlsl.Compile
import Shaderwright.Proofs.Hlsl.Rendering
import Shaderwright.Proofs.Msl.Acceptance
import Shaderwright.Proofs.Msl.Rendering

/-!
The entry point of a shader in both target languages. Whatever stands before it and behind it, its
body starts with the initialization of the accumulator and ends with its return, and a bare return
anywhere in between returns the accumulator too; in every other function a bare return stays bare.
-/

namespace Shaderwright

/-- Where a function of a shader is written: behind the declarations before it, and in front of
whatever comes later. -/
lemma Dialect.Tame.exec_split {σ : Type} {d : Dialect σ} (hd : d.Tame id) {w v : Writer σ}
    (hw : w.Calm {}) (hdepth : w.depth = 0) {before after : List Decl} {x : Decl}
    (h : (d.decls (before ++ x :: after)).exec w = (.ok (), v)) :
    ∃ u u' behind, (d.decls before).exec w = (.ok (), u) ∧ u.Calm {} ∧ u.depth = 0 ∧
      (d.decl x).exec u = (.ok (), u') ∧ v.out = u'.out ++ behind := by
  rw [Dialect.decls_append] at h
  obtain ⟨_, u, hbefore, h⟩ := Emit.exec_bind_eq_ok.mp h
  obtain ⟨_, u', hx, hafter⟩ := Emit.exec_bind_eq_ok.mp h
  have hu : u.Calm {} := by
    have hkeep := (hd.decls before).keeps w hw
    rwa [hbefore] at hkeep
  have hu' : u'.Calm {} := by
    have hkeep := (hd.decl x).keeps u hu
    rwa [hx] at hkeep
  refine ⟨u, u', ((d.decls after).exec { u' with out := "" }).2.out, hbefore, hu, ?_, hx, ?_⟩
  · exact ((hd.decls before).balanced w () u hw hbefore).trans hdepth
  · have hlift := ((hd.decls after).lifts u'.out { u' with out := "" } u'
      ⟨hu'.function, hu'.accumulator, hu'.entry⟩ hu' ⟨by simp, rfl, rfl⟩).2.out
    rwa [hafter] at hlift

/-- A function of an accepted shader in the text of either target language, before any helper is
renamed. The entry point has the name `A` of its accumulator in the first and in the last line of
its body and in every bare return; the result of any other function is none. -/
theorem entry_points_rewritten {s : Shader}
    (hnames : ∀ x ∈ s.decls, ∀ v ∈ x.variables, Msl.isIdentifier v.name = true)
    {before after : List Decl} {f : FuncDef} (hs : s.decls = before ++ .func f :: after) :
    (∀ o w out w', Hlsl.compile o (some s) w = (.ok out, w') →
      ∃ u text behind,
        ((Hlsl.dialect (o.paint s)).decls before).exec
          { out := Hlsl.headerLine s.name, own := [] } = (.ok (), u) ∧
        out.text = u.out ++ text ++ behind ∧
        (f.name = entryPointName → text = f.entryText (Hlsl.phrasing (o.paint s))
          Hlsl.entrySignature ("float4 " ++ Hlsl.resultName f ++ " = float4(0.0, 0.0, 0.0, 0.0);")
          (Hlsl.resultName f)) ∧
        (f.name ≠ entryPointName →
          text = f.text (Hlsl.phrasing (o.paint s)) (Hlsl.signature f))) ∧
    ∀ o library w out, (Msl.compile o library (some s) w).1.1 = .ok out →
      ∃ u v text behind,
        ((Msl.dialect Msl.functions s.name).decls before).exec { own := {} } = (.ok (), u) ∧
        ((Msl.dialect Msl.functions s.name).decls s.decls).exec { own := {} } = (.ok (), v) ∧
        v.out = u.out ++ text ++ behind ∧
        (f.name = entryPointName →
          text = f.entryText (Msl.phrasing Msl.functions u.own.variableNames)
            (Msl.entrySignature s.name)
            ("float4 " ++ Msl.resultName u.own.variableNames f ++ " = float4(0.0);")
            (Msl.resultName u.own.variableNames f)) ∧
        (f.name ≠ entryPointName →
          text = f.text (Msl.phrasing Msl.functions u.own.variableNames)
            (Msl.signature Msl.functions s.name u.own.variableNames f)) := by
  have hf : Msl.namesIdentifiers (.func f) := hnames (.func f) (by simp [hs])
  have hbefore : ∀ x ∈ before, Msl.namesIdentifiers x := fun x hx => hnames x (by simp [hs, hx])
  constructor
  · intro o w out w' h
    obtain ⟨-, v, hv, hcode⟩ := Hlsl.translate_eq_ok.mp (Hlsl.translate_of_compile h)
    rw [hs] at hv
    obtain ⟨u, u', behind, hu, hcalm, hdepth, hx, hout⟩ :=
      (Hlsl.tame_dialect (o.paint s) fun _ _ => rfl).exec_split ⟨rfl, rfl, rfl⟩ rfl hv
    rw [Dialect.exec_func] at hx
    obtain ⟨hr, rfl⟩ := Prod.mk.inj hx
    have hwritten := Hlsl.out_define (w := { u with function := some f.name })
      ⟨rfl, hcalm.accumulator, hcalm.entry⟩ hdepth (Msl.accumulator_ne_empty hf) (Prod.ext hr rfl)
    refine ⟨u, Hlsl.functionText (o.paint s) f, behind, hu, ?_, fun hname => if_pos hname,
      fun hname => if_neg hname⟩
    have htext : out.text = v.out := by rw [hcode]
    rw [htext, hout]
    exact congrArg (· ++ behind) hwritten
  · intro o library w out h
    obtain ⟨text, own, ht, rfl⟩ := Msl.translate_of_compile h
    obtain ⟨-, v, body, hv, -, -, rfl⟩ := Msl.translate_eq_ok.mp ht
    have hvisit := hv
    rw [hs] at hv
    have htame : (Msl.dialect Msl.functions s.name).Tame id := Msl.tame_dialect _ _
    obtain ⟨u, u', behind, hu, hcalm, hdepth, hx, hout⟩ :=
      htame.exec_split ⟨rfl, rfl, rfl⟩ rfl hv
    have htable : Msl.Dotted u.own.variableNames := by
      obtain ⟨-, hknown, -⟩ := Msl.exec_decls ⟨rfl, rfl, rfl⟩ rfl Msl.Dotted.inputs hbefore hu
      show Msl.Dotted u.own.known.variableNames
      rw [hknown]
      exact Msl.dotted_foldl_behind Msl.Dotted.inputs hbefore
    obtain ⟨hwritten, -, -⟩ := Msl.exec_decl hcalm hdepth htable hf hx
    refine ⟨u, v, Msl.functionText Msl.functions s.name u.own.variableNames f, behind, hu, hvisit,
      ?_, fun hname => if_pos hname, fun hname => if_neg hname⟩
    rw [hout]
    exact congrArg (· ++ behind) hwritten

/-- Bare returns in a loop in a branch, and in a block. -/
def gatedMain : FuncDef where
  name := "main"
  returns := .void
  params := [{ var := { name := "color", type := .vec4, out := true } }]
  body := [
    .ifElse (.binary "<" (.ident "gain" .unresolved) (.literal "0.5" .float))
      (.loop .absent .absent .absent (.block [.returns .absent])) .absent,
    .block [.expr (.call "skip" []), .returns .absent]]

def gatedMainText : String :=
  Hlsl.entrySignature ++ " \x7b\n" ++
    "    float4 color = float4(0.0, 0.0, 0.0, 0.0);\n" ++
    "    if ((gain < 0.5)) \x7b\n" ++
    "        for (; ; ) \x7b\n" ++
    "            return color;\n" ++
    "        \x7d\n" ++
    "    \x7d\n" ++
    "    \x7b\n" ++
    "        skip();\n" ++
    "        return color;\n" ++
    "    \x7d\n" ++
    "    return color;\n" ++
    "\x7d\n\n"

def gatedLeave : FuncDef where
  name := "leave"
  returns := .void
  body := [.block [.returns .absent]]

def gatedLeaveText : String :=
  "void leave(sampler _sampler, constant Gated_Uniforms& _uniforms) \x7b\n" ++
    "    \x7b\n" ++
    "        return;\n" ++
    "    \x7d\n" ++
    "\x7d\n\n"

/-- An entry point with a function before it and one behind it. -/
def gated : Shader where
  name := "Gated"
  decls := [
    .var { var := { name := "gain", type := .float, qualifier := .param } },
    .func { name := "skip", returns := .void, body := [.returns .absent] },
    .func gatedMain, .func gatedLeave]

theorem entry_points_rewritten_gated :
    (∀ x ∈ gated.decls, ∀ v ∈ x.variables, Msl.isIdentifier v.name = true) ∧
      (∃ out w' before behind, Hlsl.compile {} (some gated) {} = (.ok out, w') ∧
        out.text = before ++ gatedMainText ++ behind) ∧
      ∃ out v before behind, (Msl.compile {} none (some gated) {}).1.1 = .ok out ∧
        ((Msl.dialect Msl.functions gated.name).decls gated.decls).exec { own := {} } =
          (.ok (), v) ∧ v.out = before ++ gatedLeaveText ++ behind := by
  have hnames : ∀ x ∈ gated.decls, ∀ v ∈ x.variables, Msl.isIdentifier v.name = true := by decide
  obtain ⟨out, w', h, -⟩ := Hlsl.compile_of_translate {} gated [⟨"gain", .const32, 0, 1⟩]
    (by decide +kernel) (by decide +kernel) {}
  have hwords : ∀ g, .func g ∈ gated.decls → Msl.IsWord g.name.toList := by
    intro g hg
    simp only [gated, List.mem_cons, reduceCtorEq, Decl.func.injEq, List.not_mem_nil, or_false,
      false_or] at hg
    rcases hg with rfl | rfl | rfl <;> exact Msl.isWord_of_isIdentifier (by decide)
  obtain ⟨result, ht⟩ :=
    Msl.exists_translate (by decide) (by decide) hwords (by decide +kernel)
      (Msl.commonHeaderOf none)
  obtain ⟨out', h'⟩ := Msl.exists_compile {} {} (by rw [ht]; rfl)
  obtain ⟨hlsl, -⟩ := entry_points_rewritten hnames
    (show gated.decls = gated.decls.take 2 ++ .func gatedMain :: gated.decls.drop 3 from rfl)
  obtain ⟨-, msl⟩ := entry_points_rewritten hnames
    (show gated.decls = gated.decls.take 3 ++ .func gatedLeave :: [] from rfl)
  obtain ⟨u, text, behind, -, hout, hentry, -⟩ := hlsl _ _ _ _ h
  obtain ⟨u', v', text', behind', hbefore, hall, hout', -, hother⟩ := msl _ _ _ _ h'
  have htext : text = gatedMainText := (hentry rfl).trans (by decide +kernel)
  have htext' : text' = gatedLeaveText := by
    obtain rfl := congrArg Prod.snd hbefore
    exact (hother (by decide)).trans (by decide +kernel)
  exact ⟨hnames, ⟨out, w', u.out, behind, h, htext ▸ hout⟩, out', v', u'.out, behind', h', hall,
    htext' ▸ hout'⟩

end Shaderwright
