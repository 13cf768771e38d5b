import Mathlib.Tactic.Common
import Shaderwright.Proofs.Emit.Stops
import Shaderwright.Proofs.Emit.Storage
import Shaderwright.Proofs.Hlsl.Acceptance
import Shaderwright.Proofs.Msl.Acceptance
import Shaderwright.Proofs.Msl.Compile

/-!
Parameters of a shader exist outside of its functions only. A declaration of one inside a function
is refused in both languages, at any depth and in every position but one: the start of a loop is
written without being looked at. Where no loop starts with a parameter, a function that is accepted
is written without any storage at all.
-/

namespace Shaderwright

namespace Hlsl

variable {paint : Paint} {p : Site} {v : VarDecl}

/-! ### HLSL -/

lemma error_declare (hv : v.var.qualifier = .param) (d : ExprDialect State) {f : String}
    {w : Writer State} (hw : w.function = some f) :
    ((declare d v).exec w).1 = .error (.refused (.localParameter v.var.name f)) := by
  unfold declare
  rw [hv]
  dsimp only
  rw [Emit.exec_bind_of_ok (Emit.exec_get w), hw]
  rfl

lemma stops_define (paint : Paint) (hv : v.var.qualifier = .param)
    (hg : p.gap.opensLoop = false) :
    Emit.StopsIn (some p.function.name) (.decl v)
      (.refused (.localParameter v.var.name p.function.name))
      fun s => define (stmtDialect paint) (p.definition s) := by
  have hd := stmtAccepting paint p.function.name
  have hbody := hd.stops_funcWithSignature (p := p)
    (fun _ hw => error_declare hv (exprDialect paint) hw) hg
  by_cases hname : p.function.name = entryPointName
  · simp only [define, Site.name_definition, hname, ne_eq, not_true_eq_false, if_false,
      Site.entryFault?_definition, Site.accumulator_definition]
    rw [← hname]
    rcases p.function.entryFault? with _ | why
    · exact .after (ExprDialect.accepts_variableName _ _) fun _ =>
        .after (.change fun _ => rfl) fun _ => hbody _
    · exact .of_throw _
  · simp only [define, Site.name_definition, ne_eq, hname, not_false_eq_true, if_true,
      StmtDialect.funcDef, Site.returns_definition, Site.params_definition]
    exact .after (hd.typeName _) fun _ => .after (.mapM hd.paramText _) fun _ => hbody _

lemma paint_shader (o : Options) (p : Site) (s s' : Stmt) :
    o.paint (p.shader s) = o.paint (p.shader s') := by
  have hparams := p.params_func?_shader s s' o.paintFunction
  unfold Options.paint
  generalize (p.shader s).func? o.paintFunction = g at hparams ⊢
  generalize (p.shader s').func? o.paintFunction = g' at hparams ⊢
  cases g <;> cases g' <;> simp_all

/-- A shader that declares a parameter inside a function is refused for it, or for something that
comes before. -/
lemma compile_of_local_param (o : Options) (hv : v.var.qualifier = .param)
    (hg : p.gap.opensLoop = false) (w : World) :
    compile o (some (p.shader (.decl v))) w =
        (.error (.fault (.refused (.localParameter v.var.name p.function.name))), w) ∨
      ∃ e, ∀ s, compile o (some (p.shader s)) w = (.error (.fault e), w) := by
  by_cases hname : p.name = ""
  · refine .inr ⟨.refused .unnamedShader, fun s => compile_of_translate_error ?_ w⟩
    simp [translate, Site.shader, hname]
  · have hstops := Dialect.stops_decls (d := dialect (o.paint (p.shader (.decl v))))
      (stops_define _ hv hg) { out := headerLine p.name, own := [] }
    rcases hstops with h | ⟨e, h⟩
    · exact .inl (compile_of_translate_error (translate_of_error hname h) w)
    · refine .inr ⟨e.ofTarget, fun s => compile_of_translate_error (translate_of_error hname ?_) w⟩
      rw [paint_shader o p s (.decl v)]
      exact h s

/-- HLSL with another word for the storage of parameters, and with any other way to declare
variables outside of the functions. -/
def otherStorage (paint : Paint) (param : String) (outside : VarDecl → Emit State Unit) :
    StmtDialect State :=
  let d := (exprDialect paint).withQualifiers (qualifierTable param "out")
  StmtDialect.withOutside ⟨d, declare d, "discard;"⟩ outside

lemma alikeIn_otherStorage (paint : Paint) (param : String)
    (outside : VarDecl → Emit State Unit) (f : String) :
    (stmtDialect paint).AlikeIn (some f) (otherStorage paint param outside) := by
  refine StmtDialect.alikeIn_withOutside rfl (fun v hv => ?_) param outside f
  unfold declare ExprDialect.varDecl
  rw [ExprDialect.defineConstant_withQualifiers rfl param hv,
    ExprDialect.varDeclText_withQualifiers rfl param hv]
  cases hq : v.var.qualifier with
  | param => exact absurd hq hv
  | _ => rfl

/-- A function that declares no parameter is written in the same way whatever the words for storage
are. -/
lemma sameIn_define (paint : Paint) (param : String) (outside : VarDecl → Emit State Unit)
    {f : FuncDef} (hf : ∀ v ∈ Stmt.variablesOf f.body, v.qualifier ≠ .param) :
    Emit.SameIn (some f.name) (define (stmtDialect paint) f)
      (define (otherStorage paint param outside) f) := by
  have hd := stmtAccepting paint f.name
  have halike := alikeIn_otherStorage paint param outside f.name
  have hparams : (otherStorage paint param outside).paramText = (stmtDialect paint).paramText :=
    funext (ExprDialect.paramText_withQualifiers rfl param)
  unfold define
  split
  · unfold StmtDialect.funcDef
    rw [hparams]
    exact .next (hd.typeName _) fun _ => .next (.mapM hd.paramText _) fun _ =>
      halike.funcWithSignature hd _ hf
  · split
    · exact .refl _
    · exact .next (ExprDialect.accepts_variableName _ _) fun _ =>
        .next (.change fun _ => rfl) fun _ => halike.funcWithSignature hd _ hf

/-- In a shader that is accepted, a function none of whose loops starts with a parameter declares
no parameter. -/
lemma qualifier_ne_of_compile {o : Options} {s : Shader} {w : World} {out : Output}
    (h : (compile o (some s) w).1 = .ok out) {f : FuncDef} (hf : .func f ∈ s.decls)
    (hstarts : ∀ v, .decl v ∈ Stmt.loopStartsOf f.body → v.var.qualifier ≠ .param) :
    ∀ v ∈ Stmt.variablesOf f.body, v.qualifier ≠ .param := by
  have ht := translate_of_compile (Prod.ext h rfl : compile o (some s) w = (.ok out, _))
  have hwritable : f.writable .named = true := (translate_isOk_iff.mp ⟨_, ht⟩).2 _ hf
  exact FuncDef.qualifier_ne_of_writable hwritable hstarts

end Hlsl

/-! ### MSL -/

namespace Msl

variable {names : NameTable} {shader : String} {p : Site} {v : VarDecl}

lemma error_declare (hv : v.var.qualifier = .param) (d : ExprDialect State) {f : String}
    {w : Writer State} (hw : w.function = some f) :
    ((declare d v).exec w).1 = .error (.refused (.localParameter v.var.name f)) := by
  unfold declare
  rw [hv]
  dsimp only
  rw [Emit.exec_bind_of_ok (Emit.exec_get w), hw]
  rfl

lemma stops_define (names : NameTable) (shader : String) (hv : v.var.qualifier = .param)
    (hg : p.gap.opensLoop = false) :
    Emit.StopsIn (some p.function.name) (.decl v)
      (.refused (.localParameter v.var.name p.function.name))
      fun s => define (stmtDialect names) shader (p.definition s) := by
  have hd := stmtAccepting names p.function.name
  have hbody := hd.stops_funcWithSignature (p := p)
    (fun _ hw => error_declare hv (exprDialect names) hw) hg
  by_cases hname : p.function.name = entryPointName
  · simp only [define, defineEntry, Site.name_definition, hname, if_true,
      Site.entryFault?_definition, Site.accumulator_definition]
    rw [← hname]
    rcases p.function.entryFault? with _ | why
    · exact .after (ExprDialect.accepts_variableName _ _) fun _ =>
        .after (.change fun _ => rfl) fun _ => hbody _
    · exact .of_throw _
  · simp only [define, Site.name_definition, hname, if_false, Site.returns_definition,
      Site.params_definition]
    refine .after (hd.typeName _) fun _ => ?_
    by_cases hhelper : isHelper p.function.name = true
    · simp only [hhelper, if_true]
      exact .after (.change fun _ => rfl) fun _ =>
        .after (.mapM (accepts_paramText names) _) fun _ => hbody _
    · simp only [hhelper]
      exact .after (.mapM (accepts_paramText names) _) fun _ => hbody _

/-- A shader that declares a parameter inside a function is refused for it, or for something that
comes before. -/
lemma compile_of_local_param (o : Options) (library : Option Library)
    (hv : v.var.qualifier = .param) (hg : p.gap.opensLoop = false) (w : World) :
    compile o library (some (p.shader (.decl v))) w =
        ((.error (.fault (.refused (.localParameter v.var.name p.function.name))), library), w) ∨
      ∃ e, ∀ s, compile o library (some (p.shader s)) w = ((.error (.fault e), library), w) := by
  by_cases hname : p.name = ""
  · refine .inr ⟨.refused .unnamedShader, fun s => compile_of_translate_error ?_ w⟩
    simp [translate, Site.shader, hname]
  · have hstops := Dialect.stops_decls (d := dialect functions p.name)
      (stops_define functions p.name hv hg) { own := {} }
    have hrefused : ∀ {s : Stmt} {e : Fault},
        (((dialect functions p.name).decls (p.shader s).decls).exec { own := {} }).1 = .error e →
        compile o library (some (p.shader s)) w = ((.error (.fault e.ofTarget), library), w) := by
      intro s e h
      apply compile_of_translate_error
      apply translate_of_error hname
      exact h
    rcases hstops with h | ⟨e, h⟩
    · exact .inl (hrefused h)
    · exact .inr ⟨e.ofTarget, fun s => hrefused (h s)⟩

/-- MSL with another word for the storage of parameters, and with any other way to declare
variables outside of the functions. -/
def otherStorage (names : NameTable) (param : String) (outside : VarDecl → Emit State Unit) :
    StmtDialect State :=
  let d := (exprDialect names).withQualifiers (qualifierTable param "thread")
  StmtDialect.withOutside ⟨d, declare d, "discard_fragment();"⟩ outside

lemma alikeIn_otherStorage (names : NameTable) (param : String)
    (outside : VarDecl → Emit State Unit) (f : String) :
    (stmtDialect names).AlikeIn (some f) (otherStorage names param outside) := by
  refine StmtDialect.alikeIn_withOutside rfl (fun v hv => ?_) param outside f
  unfold declare ExprDialect.varDecl
  rw [ExprDialect.defineConstant_withQualifiers rfl param hv,
    ExprDialect.varDeclText_withQualifiers rfl param hv]
  cases hq : v.var.qualifier with
  | param => exact absurd hq hv
  | _ => rfl

lemma sameIn_define (names : NameTable) (shader param : String)
    (outside : VarDecl → Emit State Unit) {f : FuncDef}
    (hf : ∀ v ∈ Stmt.variablesOf f.body, v.qualifier ≠ .param) :
    Emit.SameIn (some f.name) (define (stmtDialect names) shader f)
      (define (otherStorage names param outside) shader f) := by
  have hd := stmtAccepting names f.name
  have halike := alikeIn_otherStorage names param outside f.name
  have hparams : paramText (otherStorage names param outside).toExprDialect =
      paramText (exprDialect names) := by
    funext p
    have hout : (otherStorage names param outside).qualifier "out" =
        (exprDialect names).qualifier "out" :=
      ExprDialect.qualifier_withQualifiers rfl param (by decide)
    unfold paramText
    rw [hout]
    rfl
  unfold define
  split
  · unfold defineEntry
    split
    · exact .refl _
    · exact .next (ExprDialect.accepts_variableName _ _) fun _ =>
        .next (.change fun _ => rfl) fun _ => halike.funcWithSignature hd _ hf
  · rw [hparams]
    refine .next (hd.typeName _) fun _ => ?_
    split
    · exact .next (.change fun _ => rfl) fun _ =>
        .next (.mapM (accepts_paramText names) _) fun _ => halike.funcWithSignature hd _ hf
    · exact .next (.mapM (accepts_paramText names) _) fun _ => halike.funcWithSignature hd _ hf

lemma qualifier_ne_of_compile {o : Options} {library : Option Library} {s : Shader} {w : World}
    {out : Output} (h : (compile o library (some s) w).1.1 = .ok out) {f : FuncDef}
    (hf : .func f ∈ s.decls)
    (hstarts : ∀ v, .decl v ∈ Stmt.loopStartsOf f.body → v.var.qualifier ≠ .param) :
    ∀ v ∈ Stmt.variablesOf f.body, v.qualifier ≠ .param := by
  obtain ⟨text, own, ht, -⟩ := translate_of_compile h
  obtain ⟨-, w', -, hw', -⟩ := translate_eq_ok.mp ht
  have hwritable : f.writable .call = true := declWritable_of_exec hw' hf rfl
  exact FuncDef.qualifier_ne_of_writable hwritable hstarts

end Msl

/-! ### Both languages -/

/-- A parameter that is declared inside a function, at any place but the start of a loop, is what
both languages refuse the shader for, unless they refuse it before, whatever stands at that place.
And a function that is accepted, none of whose loops starts with a parameter, is written in the
same way whatever the words for the storage of parameters are and however variables are declared
outside of the functions. -/
theorem local_parameters_refused (shader : Shader) :
    (∀ (p : Site) (v : VarDecl), p.shader (.decl v) = shader → v.var.qualifier = .param →
      p.gap.opensLoop = false →
      (∀ o w,
        Hlsl.compile o (some shader) w =
            (.error (.fault (.refused (.localParameter v.var.name p.function.name))), w) ∨
          ∃ e, ∀ s, Hlsl.compile o (some (p.shader s)) w = (.error (.fault e), w)) ∧
      ∀ o library w,
        Msl.compile o library (some shader) w =
            ((.error (.fault (.refused (.localParameter v.var.name p.function.name))), library),
              w) ∨
          ∃ e, ∀ s, Msl.compile o library (some (p.shader s)) w =
            ((.error (.fault e), library), w)) ∧
    ∀ f, .func f ∈ shader.decls →
      (∀ v, .decl v ∈ Stmt.loopStartsOf f.body → v.var.qualifier ≠ .param) →
      (∀ o w out, (Hlsl.compile o (some shader) w).1 = .ok out → ∀ param outside,
        Emit.SameIn (some f.name) (Hlsl.define (Hlsl.stmtDialect (o.paint shader)) f)
          (Hlsl.define (Hlsl.otherStorage (o.paint shader) param outside) f)) ∧
      ∀ o library w out, (Msl.compile o library (some shader) w).1.1 = .ok out → ∀ param outside,
        Emit.SameIn (some f.name) (Msl.define (Msl.stmtDialect Msl.functions) shader.name f)
          (Msl.define (Msl.otherStorage Msl.functions param outside) shader.name f) := by
  constructor
  · rintro p v rfl hv hg
    exact ⟨fun o w => Hlsl.compile_of_local_param o hv hg w,
      fun o library w => Msl.compile_of_local_param o library hv hg w⟩
  · intro f hf hstarts
    constructor
    · intro o w out hout param outside
      exact Hlsl.sameIn_define _ param outside (Hlsl.qualifier_ne_of_compile hout hf hstarts)
    · intro o library w out hout param outside
      exact Msl.sameIn_define _ _ param outside (Msl.qualifier_ne_of_compile hout hf hstarts)

def flickerCounter : Variable := { name := "i", type := .float }

/-- A loop over a local counter, with an open place in the branch of a condition in its body. -/
def flicker : Site where
  name := "Flicker"
  before := [
    .var {
      var := { name := "RATE", type := .float, qualifier := .const }
      init := .literal "4.0" .float }]
  function := { name := "main", returns := .void }
  front := []
  gap := .loopBody (.decl { var := flickerCounter, init := .literal "0.0" .float })
    (.binary "<" (.ident "i" (.declared flickerCounter)) (.ident "RATE" .unresolved))
    (.assign "+=" (.ident "i" (.declared flickerCounter)) (.literal "1.0" .float))
    (.block [] (.elseBranch (.literal "true" .bool) .breakLoop (.block [] .here [.discard])) [])
  back := []
  after := []

def flickerGain : VarDecl := { var := { name := "gain", type := .float, qualifier := .param } }

/-- With another statement at the place the shader is accepted, so the parameter is to blame. -/
theorem local_parameters_refused_flicker :
    Hlsl.compile {} (some (flicker.shader (.decl flickerGain))) {} =
        (.error (.fault (.refused (.localParameter "gain" "main"))), {}) ∧
      Msl.compile {} none (some (flicker.shader (.decl flickerGain))) {} =
        ((.error (.fault (.refused (.localParameter "gain" "main"))), none), {}) ∧
      Emit.SameIn (some "main")
        (Hlsl.define (Hlsl.stmtDialect ⟨"paint", [.vec4]⟩) (flicker.definition .discard))
        (Hlsl.define (Hlsl.otherStorage ⟨"paint", [.vec4]⟩ "static const" fun _ => pure ())
          (flicker.definition .discard)) ∧
      Emit.SameIn (some "main")
        (Msl.define (Msl.stmtDialect Msl.functions) "Flicker" (flicker.definition .discard))
        (Msl.define (Msl.otherStorage Msl.functions "device" fun _ => pure ()) "Flicker"
          (flicker.definition .discard)) := by
  obtain ⟨hrefused, -⟩ := local_parameters_refused (flicker.shader (.decl flickerGain))
  obtain ⟨hhlsl, hmsl⟩ := hrefused flicker flickerGain rfl rfl rfl
  obtain ⟨out, w', hout, -⟩ := Hlsl.compile_of_translate {} (flicker.shader .discard) []
    (by decide +kernel) (by decide +kernel) {}
  obtain ⟨out', hout', -⟩ := Msl.compile_of_translate none {} (flicker.shader .discard) []
    (by decide +kernel) {}
  obtain ⟨-, hstorage⟩ := local_parameters_refused (flicker.shader .discard)
  obtain ⟨hhlsl', hmsl'⟩ := hstorage (flicker.definition .discard)
    (by simp [flicker, Site.shader]) (by
      simp [flicker, flickerCounter, Site.definition, Gap.fill, Stmt.loopStartsOf,
        Stmt.loopStarts])
  refine ⟨(hhlsl {} {}).resolve_right ?_, (hmsl {} none {}).resolve_right ?_,
    hhlsl' {} {} out (by rw [hout]) _ _, hmsl' {} none {} out' hout' _ _⟩
  · rintro ⟨e, he⟩
    cases hout.symm.trans (he .discard)
  · rintro ⟨e, he⟩
    rw [he .discard] at hout'
    cases hout'

/-- A loop with nothing but a counter, whose declaration is left open. -/
def sweep : Site where
  name := "Sweep"
  before := []
  function := { name := "main", returns := .void }
  front := []
  gap := .loopInit .here
    (.binary "<" (.ident "i" .unresolved) (.literal "4.0" .float))
    (.assign "+=" (.ident "i" .unresolved) (.literal "1.0" .float)) (.block [.discard])
  back := []
  after := []

def sweepCounter : VarDecl where
  var := { name := "i", type := .float, qualifier := .param }
  init := .literal "0.0" .float

def sweepHlsl : String :=
  "// Sweep.hlsl: generated by shadergen\n\n" ++
    "float4 main(float4 _position : SV_Position, float2 _uv : TEXCOORD0, " ++
    "float4 _color : COLOR0, float2 _coord : TEXCOORD1) : SV_Target \x7b\n" ++
    "    float4 _output = float4(0.0, 0.0, 0.0, 0.0);\n" ++
    "    for (uniform float i = 0.0; (i < 4.0); i += 1.0) \x7b\n        discard;\n    \x7d\n" ++
    "    return _output;\n\x7d\n\n"

def sweepMsl : String :=
  "// Sweep.metal: generated by shadergen\n#include \"ShaderCommon.h\"\n\n" ++
    "struct Sweep_Uniforms \x7b\n\x7d;\n\n" ++
    "fragment float4 Sweep_main(FragmentIn _in [[stage_in]], " ++
    "constant Sweep_Uniforms& _uniforms [[buffer(0)]], sampler _sampler [[sampler(0)]]) \x7b\n" ++
    "    float4 _output = float4(0.0);\n" ++
    "    for (constant float i = 0.0; (i < 4.0); i += 1.0) \x7b\n" ++
    "        discard_fragment();\n    \x7d\n" ++ "    return _output;\n\x7d\n\n"

/-- A loop may start with a parameter, which then gets its storage inside the function. -/
theorem local_parameters_accepted_sweep :
    sweepCounter.var.qualifier = .param ∧ sweep.gap.opensLoop = true ∧
      (∃ out w', Hlsl.compile {} (some (sweep.shader (.decl sweepCounter))) {} = (.ok out, w') ∧
        out.text = sweepHlsl) ∧
      ∃ out, (Msl.compile {} none (some (sweep.shader (.decl sweepCounter))) {}).1.1 = .ok out ∧
        out.text = sweepMsl := by
  have hcode : Hlsl.translate {} (some (sweep.shader (.decl sweepCounter))) =
      .ok ⟨sweepHlsl, []⟩ := by decide +kernel
  obtain ⟨out, w', hout, -⟩ := Hlsl.compile_of_translate {} (sweep.shader (.decl sweepCounter)) []
    (by rw [hcode]; rfl) (by decide +kernel) {}
  have hsame := Except.ok.inj ((Hlsl.translate_of_compile hout).symm.trans hcode)
  refine ⟨rfl, rfl, ⟨out, w', hout, congrArg Hlsl.Code.text hsame⟩, ?_⟩
  refine Msl.compile_of_text {} (Msl.text_of_no_helpers (by decide) ?_ ?_ ?_) {} <;> decide +kernel

end Shaderwright
