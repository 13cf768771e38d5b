import Mathlib.Tactic.Common
import Shaderwright.Proofs.Emit.Shows
import Shaderwright.Proofs.Hlsl.Bindings

/-!
Texture reads and the sampler states they name. A read is a method of the texture that takes the
sampler state of the same name, and such a state is declared with every texture that is a parameter
of the shader. Nothing declares one for any other variable.
-/

namespace Shaderwright.Hlsl

open Shaderwright.Text (Within)

/-! ### What is written -/

/-- The expressions that are written. The value of a parameter, of the shader or of a function, is
not among them. -/
def writtenExprs : Decl → List Expr
  | .absent => []
  | .var v => if v.var.qualifier = .param then [] else v.init.parts
  | .func g => Stmt.exprsOf g.body

/-- The texture that is read with these arguments, and what stands behind its name: nothing, or
the index of an element. -/
inductive ReadsFrom : List Expr → String → String → Prop
  | whole (name : String) (ref : Ref) (uv : Expr) : ReadsFrom [.ident name ref, uv] name ""
  | element (name : String) (ref : Ref) (i uv : Expr) (index : String) :
    ReadsFrom [.index (.ident name ref) i, uv] name ("[" ++ index ++ "]")

/-- The name of the texture, if this is a read of one. -/
def texture? : Expr → Option String
  | .call callee [.ident name _, _] => if callee = sampleFunction then some name else none
  | .call callee [.index (.ident name _) _, _] =>
    if callee = sampleFunction then some name else none
  | _ => none

def readHead (name subscript : String) : String :=
  variableNames.get name ++ subscript ++ ".Sample(" ++
    (variableNames.get name ++ samplerSuffix ++ subscript) ++ ", "

def samplerLine (v : Variable) : String :=
  "SamplerState " ++ variableNames.get v.name ++ samplerSuffix ++ v.extent ++ " : " ++
    RegisterClass.sampler.register v.slot ++ ";"

/-- A texture read shows by its head. -/
def ShowsRead (e : Expr) (part : String) : Prop :=
  ∀ args, e = .call sampleFunction args →
    ∃ name subscript, ReadsFrom args name subscript ∧ part = readHead name subscript

variable {f : Option String} {paint : Paint}

lemma shows_paintArgs {d : ExprDialect State} {P : Expr → String → Prop} {args : List Expr}
    (h : ∀ arg ∈ args, (d.operand arg).Shows P f) (params : List ShaderType) :
    List.Forall₂ (fun arg step => Emit.Shows P f arg.parts step) args
      (paintArgs (args.map d.operand) params) := by
  induction args generalizing params with
  | nil => exact .nil
  | cons arg rest ih =>
    obtain ⟨harg, hrest⟩ := List.forall_mem_cons.mp h
    cases params with
    | nil => exact .cons harg.write (ih hrest [])
    | cons param params =>
      refine .cons ?_ (ih hrest params)
      unfold narrowed
      dsimp only
      split
      · exact .after (.mark _) fun _ => harg.write.before fun _ => .after (.mark _) fun _ =>
          .mark _
      · exact harg.write.before fun _ => .mark _

lemma showsRead_other {e : Expr} (h : ∀ callee args, e ≠ .call callee args) (part : String) :
    ShowsRead e part :=
  fun args he => absurd he (h _ args)

lemma shown_readHead {es : List Expr} {subscript : String} (h : Shown ShowsRead es subscript)
    (name : String) : Shown ShowsRead es (readHead name subscript) :=
  (((h.append_left _).append_right _).append_right _).append_right _

lemma shown_read {args es : List Expr} {name subscript : String}
    (h : ReadsFrom args name subscript) (hes : Shown ShowsRead es (readHead name subscript)) :
    Shown ShowsRead (.call sampleFunction args :: es) (readHead name subscript) := by
  refine List.forall_mem_cons.mpr ⟨⟨_, fun args' hargs => ?_, .refl _⟩, hes⟩
  obtain ⟨-, rfl⟩ := Expr.call.inj hargs
  exact ⟨name, subscript, h, rfl⟩

section CallSample

variable {d : ExprDialect State}

lemma callSample_whole (name : String) (ref : Ref) (uv : Expr) :
    callSample [d.operand (.ident name ref), d.operand uv] = (do
      Emit.write (readHead name "")
      d.expr uv
      Emit.write ")") := by
  simp [callSample, ExprDialect.operand, readHead]

lemma callSample_element (name : String) (ref : Ref) (i uv : Expr) :
    callSample [d.operand (.index (.ident name ref) i), d.operand uv] = (do
      let index ← Emit.captured (d.expr i)
      Emit.write (readHead name ("[" ++ index ++ "]"))
      d.expr uv
      Emit.write ")") := by
  have hhead : ∀ index : String,
      variableNames.get name ++ "[" ++ index ++ "]" ++ ".Sample(" ++
          (variableNames.get name ++ samplerSuffix ++ "[" ++ index ++ "]") ++ ", " =
        readHead name ("[" ++ index ++ "]") := by
    intro index
    simp only [readHead, String.append_assoc]
  simp only [callSample, ExprDialect.operand, pure_bind, hhead]

/-- A read shows, and so do the coordinates and the index of an element. -/
lemma shows_callSample {args : List Expr} (h : ∀ arg ∈ args, (d.operand arg).Shows ShowsRead f) :
    Emit.Shows ShowsRead f (Expr.call sampleFunction args).parts
      (callSample (args.map d.operand)) := by
  match args with
  | [] => exact .throw _
  | [_] => exact .throw _
  | _ :: _ :: _ :: _ => exact .throw _
  | [texture, uv] =>
    have huv : Emit.Shows ShowsRead f uv.parts (d.expr uv) := (h uv (by simp)).write
    -- anything but a variable and an element of one is refused
    have hother : ∀ e, Emit.Shows ShowsRead f (Expr.call sampleFunction [e, uv]).parts
        (throw (.refused .sampleTexture) : Emit State Unit) := fun _ => .throw _
    cases texture with
    | ident name ref =>
      have htexture : Shown ShowsRead (Expr.ident name ref).parts (readHead name "") :=
        (Shown.nil _).cons (showsRead_other (by simp) _)
      have hhead := shown_read (.whole name ref uv) htexture
      rw [List.map_cons, List.map_cons, List.map_nil, callSample_whole]
      refine Emit.Shows.mono ((Emit.Shows.write hhead).bind fun _ => huv.before fun _ =>
        .mark _) ?_
      simp [Expr.parts, Expr.partsOf]
    | index x i =>
      cases x with
      | ident name ref =>
        obtain ⟨ref', i', heq, hi⟩ := (h _ List.mem_cons_self).element name _ rfl
        obtain ⟨-, rfl⟩ := Expr.index.inj heq
        rw [List.map_cons, List.map_cons, List.map_nil, callSample_element]
        refine hi.captured.bind fun index hindex => ?_
        have hsubscript := (hindex.append_left "[").append_right "]"
        have htexture : Shown ShowsRead (Expr.index (.ident name ref) i).parts
            (readHead name ("[" ++ index ++ "]")) :=
          ((shown_readHead hsubscript name).cons (showsRead_other (by simp) _)).cons
            (showsRead_other (by simp) _)
        have hhead := shown_read (.element name ref i uv index) htexture
        refine Emit.Shows.mono ((Emit.Shows.write hhead).bind fun _ => huv.before fun _ =>
          .mark _) ?_
        simp [Expr.parts, Expr.partsOf]
      | _ => exact hother _
    | _ => exact hother _

end CallSample

/-! ### The dialect -/

lemma shows_exprDialect (paint : Paint) : (exprDialect paint).Shows ShowsRead f where
  other _ he := showsRead_other he ""
  call callee args h := by
    show Emit.Shows ShowsRead f _ (call paint callee (args.map (exprDialect paint).operand))
    unfold call
    split
    · rename_i hcallee
      subst hcallee
      exact shows_callSample h
    · rename_i hcallee
      have hcall : ShowsRead (.call callee args) "" :=
        fun _ he => absurd (Expr.call.inj he).1 hcallee
      split
      · have hargs := Emit.Shows.separated ", " (shows_paintArgs h paint.params)
        exact .cons (.after (.mark _) fun _ => hargs.before fun _ => .mark _) hcall
      · exact .cons (ExprDialect.shows_callMapped functions callee h) hcall

lemma shows_declare (paint : Paint) {v : VarDecl} (hv : v.var.qualifier ≠ .param) :
    Emit.Shows ShowsRead f v.init.parts (declare (exprDialect paint) v) := by
  have hd : (exprDialect paint).Shows ShowsRead f := shows_exprDialect paint
  unfold declare
  split
  · exact hd.defineConstant v
  · exact absurd (by assumption) hv
  · refine .get fun w _ => ?_
    split
    · exact (hd.varDeclText v).bind fun _ htext =>
        .writeLine ((htext.append_left _).append_right _)
    · exact hd.varDecl v

lemma shows_stmtDialect (paint : Paint) (g : String) :
    (stmtDialect paint).Shows ShowsRead (some g) where
  toShows := shows_exprDialect paint
  declare v := by
    show Emit.Shows ShowsRead (some g) _ (declare (exprDialect paint) v)
    by_cases hv : v.var.qualifier = .param
    · unfold declare
      rw [hv]
      refine .get fun w hw => ?_
      rw [hw]
      exact .throw _
    · exact shows_declare paint hv

lemma shows_define (paint : Paint) (g : FuncDef) :
    Emit.Shows ShowsRead (some g.name) (Stmt.exprsOf g.body) (define (stmtDialect paint) g) := by
  have hd := shows_stmtDialect paint g.name
  unfold define
  split
  · exact hd.funcDef g
  · split
    · exact .throw _
    · dsimp only
      exact (ExprDialect.tells_variableName _ _).bind fun _ _ =>
        .after (.change (fun _ => rfl) fun _ => rfl) fun _ => hd.funcWithSignature _ g

lemma shows_param (paint : Paint) {v : VarDecl} (hv : v.var.qualifier = .param) :
    Emit.Shows ShowsRead f [] (declare (exprDialect paint) v) := by
  unfold declare
  rw [hv]
  refine .get fun w _ => ?_
  split
  · exact .throw _
  · split
    · exact (ExprDialect.tells_mapped _ _).bind fun _ _ =>
        (ExprDialect.tells_variableName _ _).bind fun _ _ => .after (.writeLine (.nil _)) fun _ =>
          .after (.writeLine (.nil _)) fun _ => .change (fun _ => rfl) fun _ => rfl
    · unfold declareUniform
      split
      · exact .throw _
      · exact (ExprDialect.tells_mapped _ _).bind fun _ _ =>
          (ExprDialect.tells_mapped _ _).bind fun _ _ =>
            (ExprDialect.tells_variableName _ _).bind fun _ _ =>
              .after (.writeLine (.nil _)) fun _ => .change (fun _ => rfl) fun _ => rfl

lemma shows_decl (paint : Paint) (x : Decl) :
    Emit.Shows ShowsRead none (writtenExprs x) ((dialect paint).decl x) := by
  cases x with
  | absent => exact .throw _
  | func g => exact Dialect.shows_func (shows_define paint g)
  | var v =>
    show Emit.Shows ShowsRead none _ (declare (exprDialect paint) v)
    rw [writtenExprs]
    split
    · exact shows_param paint (by assumption)
    · exact shows_declare paint (by assumption)

/-! ### Shaders -/

lemma exec_of_declCode {x : Decl} {code : Code} (h : declCode paint x = .ok code) :
    ∃ w, ((dialect paint).decl x).exec { own := [] } = (.ok (), w) ∧ w.out = code.text := by
  unfold declCode at h
  split at h
  · rename_i w hw
    exact ⟨w, hw, by rw [← Except.ok.inj h]⟩
  · cases h

lemma shown_of_declCode {x : Decl} {code : Code} (h : declCode paint x = .ok code) :
    Shown ShowsRead (writtenExprs x) code.text := by
  obtain ⟨w, hw, hout⟩ := exec_of_declCode h
  obtain ⟨-, text, htext, hshown⟩ := shows_decl paint x _ () w rfl hw
  rwa [← hout, htext, String.empty_append]

lemma within_declareTexture {v : Variable} {w w' : Writer State}
    (h : (declareTexture (exprDialect paint) v).exec w = (.ok (), w')) :
    Within (samplerLine v) w'.out := by
  obtain ⟨type, u, htype, h⟩ := Emit.exec_bind_eq_ok.mp h
  obtain ⟨-, rfl⟩ := ExprDialect.exec_mapped_eq_ok.mp htype
  simp only [Emit.exec_bind, ExprDialect.exec_variableName, Emit.exec_writeLine, exec_bind,
    Prod.mk.injEq, true_and] at h
  subst h
  exact ((((Within.refl (samplerLine v)).append_right "\n").append_left _).append_right
    _).append_right _

lemma samplerLine_of_declCode {x : Decl} {v : Variable} {code : Code} (hx : x.param? = some v)
    (hsampler : v.type.isSampler = true) (h : declCode paint x = .ok code) :
    Within (samplerLine v) code.text := by
  obtain ⟨d, rfl, hparam, rfl⟩ := Decl.param?_eq_some hx
  obtain ⟨w, hw, hout⟩ := exec_of_declCode h
  replace hw : (declare (exprDialect paint) d).exec { own := [] } = (.ok (), w) := hw
  unfold declare at hw
  rw [hparam] at hw
  simp only [Emit.exec_bind, Emit.exec_get, hsampler, if_true] at hw
  rw [← hout]
  exact within_declareTexture hw

lemma exists_of_forall₂ {R : Decl → String → Prop} {xs : List Decl} {texts : List String}
    (h : List.Forall₂ R xs texts) {x : Decl} (hx : x ∈ xs) :
    ∃ text, R x text ∧ Within text (String.join texts) := by
  induction h with
  | nil => cases hx
  | @cons y text ys texts hy _ ih =>
    rw [String.join_cons]
    rcases List.mem_cons.mp hx with rfl | hx
    · exact ⟨text, hy, (Within.refl text).append_right _⟩
    · obtain ⟨text', hR, hwithin⟩ := ih hx
      exact ⟨text', hR, hwithin.append_left text⟩

/-- What stands in the text of a declaration alone stands in that of the shader. -/
lemma exists_declCode {o : Options} {s : Shader} {w w' : World} {out : Output} {x : Decl}
    (h : compile o (some s) w = (.ok out, w')) (hx : x ∈ s.decls) :
    ∃ code, declCode (o.paint s) x = .ok code ∧ Within code.text out.text := by
  obtain ⟨-, v, hv, hcode⟩ := translate_eq_ok.mp (translate_of_compile h)
  obtain ⟨-, texts, hout, hbinds⟩ := exec_decls ⟨rfl, rfl, rfl⟩ rfl hv
  obtain ⟨text, hx, hwithin⟩ := exists_of_forall₂ hbinds hx
  refine ⟨_, hx.alone, ?_⟩
  rw [hcode, hout]
  exact hwithin.append_left _

def textures (s : Shader) : List String := (s.decls.flatMap writtenExprs).filterMap texture?

variable {o : Options} {s : Shader} {w w' : World} {out : Output}

lemma mem_textures {args : List Expr} {name subscript : String}
    (hcall : .call sampleFunction args ∈ s.decls.flatMap writtenExprs)
    (h : ReadsFrom args name subscript) : name ∈ textures s := by
  refine List.mem_filterMap.mpr ⟨_, hcall, ?_⟩
  cases h <;> simp [texture?]

/-- Every texture read that is written shows in the text. -/
lemma exists_read (h : compile o (some s) w = (.ok out, w')) {args : List Expr}
    (hcall : .call sampleFunction args ∈ s.decls.flatMap writtenExprs) :
    ∃ name subscript, ReadsFrom args name subscript ∧
      Within (readHead name subscript) out.text := by
  obtain ⟨x, hx, hcall⟩ := List.mem_flatMap.mp hcall
  obtain ⟨code, hcode, hwithin⟩ := exists_declCode h hx
  obtain ⟨part, hpart, hshown⟩ := shown_of_declCode hcode _ hcall
  obtain ⟨name, subscript, hreads, rfl⟩ := hpart args rfl
  exact ⟨name, subscript, hreads, hshown.trans hwithin⟩

lemma within_samplerLine (h : compile o (some s) w = (.ok out, w')) {v : Variable}
    (hv : v ∈ s.params) (hsampler : v.type.isSampler = true) :
    Within (samplerLine v) out.text := by
  obtain ⟨x, hx, hparam⟩ := List.mem_filterMap.mp hv
  obtain ⟨code, hcode, hwithin⟩ := exists_declCode h hx
  exact (samplerLine_of_declCode hparam hsampler hcode).trans hwithin

/-- If nothing but parameters of the shader are read as textures, then every read that is written,
in the entry point or in any other function, names a sampler state that is declared. -/
theorem samplerState_declared (h : compile o (some s) w = (.ok out, w'))
    (hparams : ∀ name ∈ textures s, ∃ v ∈ s.params, v.name = name ∧ v.type.isSampler = true) :
    ∀ args, .call sampleFunction args ∈ s.decls.flatMap writtenExprs →
      ∃ name subscript, ReadsFrom args name subscript ∧
        Within (readHead name subscript) out.text ∧
        ∃ v ∈ s.params, v.name = name ∧ Within (samplerLine v) out.text := by
  intro args hcall
  obtain ⟨name, subscript, hreads, hwithin⟩ := exists_read h hcall
  obtain ⟨v, hv, hname, hsampler⟩ := hparams name (mem_textures hcall hreads)
  exact ⟨name, subscript, hreads, hwithin, v, hv, hname, within_samplerLine h hv hsampler⟩

/-- A function reads an element of a texture array, and the entry point reads a texture that is
declared behind the function. -/
def layered : Shader where
  name := "Layered"
  decls := [
    .var { var := {
      name := "layers", type := .sampler2D, qualifier := .param, slot := 1, isArray := true,
      arraySize := 3 } },
    .func {
      name := "upper", returns := .vec4
      params := [{ var := { name := "uv", type := .vec2 } }]
      body := [.returns (.call "sample" [
        .index (.ident "layers" .unresolved) (.literal "2" .int), .ident "uv" .unresolved])] },
    .var { var := { name := "mask", type := .sampler2D, qualifier := .param, slot := 4 } },
    .func {
      name := "main", returns := .void
      params := [{ var := { name := "color", type := .vec4, out := true } }]
      body := [.expr (.assign "=" (.ident "color" .unresolved)
        (.binary "*" (.call "upper" [.ident "texCoord" (.input .texCoord)])
          (.call "sample" [
            .ident "mask" .unresolved, .ident "texCoord" (.input .texCoord)])))] }]

theorem samplerState_declared_layered :
    ∃ out w', compile {} (some layered) {} = (.ok out, w') ∧
      textures layered = ["layers", "mask"] ∧
      ∀ args, .call sampleFunction args ∈ layered.decls.flatMap writtenExprs →
        ∃ name subscript, ReadsFrom args name subscript ∧
          Within (readHead name subscript) out.text ∧
          ∃ v ∈ layered.params, v.name = name ∧ Within (samplerLine v) out.text := by
  obtain ⟨out, w', h, -⟩ := compile_of_translate {} layered (layered.decls.flatMap declBindings)
    (by decide +kernel) (by decide +kernel) {}
  exact ⟨out, w', h, by decide +kernel, samplerState_declared h (by decide +kernel)⟩

def softenTexture : Variable := { name := "t", type := .sampler2D }

def softenRead : List Expr :=
  [.ident "t" (.declared softenTexture), .ident "uv" (.declared { name := "uv", type := .vec2 })]

/-- A function reads whatever texture it is called with. -/
def softened : Shader where
  name := "Softened"
  decls := [
    .var { var := { name := "mask", type := .sampler2D, qualifier := .param } },
    .func {
      name := "soften", returns := .vec4
      params := [{ var := softenTexture }, { var := { name := "uv", type := .vec2 } }]
      body := [.returns (.call sampleFunction softenRead)] },
    .func {
      name := "main", returns := .void
      params := [{ var := { name := "color", type := .vec4, out := true } }]
      body := [.expr (.assign "=" (.ident "color" .unresolved) (.call "soften" [
        .ident "mask" .unresolved, .ident "texCoord" (.input .texCoord)]))] }]

def softenedCode : Code where
  text := "// Softened.hlsl: generated by shadergen\n\n" ++
    "SamplerState mask_sampler : register(s0);\n" ++ "Texture2D mask : register(t0);\n" ++
    "float4 soften(Texture2D t, float2 uv) \x7b\n" ++
    "    return t.Sample(t_sampler, uv);\n\x7d\n\n" ++
    "float4 main(float4 _position : SV_Position, " ++ "float2 _uv : TEXCOORD0, " ++
    "float4 _color : COLOR0, " ++ "float2 _coord : TEXCOORD1) : SV_Target \x7b\n" ++
    "    float4 color = float4(0.0, 0.0, 0.0, 0.0);\n" ++
    "    color = soften(mask, _uv);\n" ++ "    return color;\n\x7d\n\n"
  bindings := [⟨"mask", .texture, 0, 1⟩, ⟨"mask_sampler", .sampler, 0, 1⟩]

/-- No sampler state belongs to a texture that is a parameter of a function. -/
theorem samplerState_missing_softened :
    ∃ out w', compile {} (some softened) {} = (.ok out, w') ∧
      .call sampleFunction softenRead ∈ softened.decls.flatMap writtenExprs ∧
      softenTexture.type.isSampler = true ∧
      Within "t.Sample(t_sampler, " out.text ∧ ¬ Within "SamplerState t_sampler" out.text := by
  have hcall : .call sampleFunction softenRead ∈ softened.decls.flatMap writtenExprs := by
    simp [softened, writtenExprs, Stmt.exprsOf, Stmt.exprs, Expr.parts]
  have hcode : translate {} (some softened) = .ok softenedCode := by decide +kernel
  obtain ⟨out, w', h, -⟩ := compile_of_translate {} softened softenedCode.bindings
    (by rw [hcode]; rfl) (by decide +kernel) {}
  refine ⟨out, w', h, hcall, rfl, ?_, fun hwithin => ?_⟩
  · obtain ⟨name, subscript, hreads, hwithin⟩ := exists_read h hcall
    obtain ⟨rfl, rfl⟩ : name = "t" ∧ subscript = "" := by cases hreads; exact ⟨rfl, rfl⟩
    have hhead : readHead "t" "" = "t.Sample(t_sampler, " := by decide +kernel
    rwa [hhead] at hwithin
  · have hnone : Text.contains softenedCode.text "SamplerState t_sampler" = false := by
      unfold Text.contains softenedCode
      repeat rw [String.toList_append]
      decide +kernel
    have hsame := Except.ok.inj ((translate_of_compile h).symm.trans hcode)
    rw [show out.text = softenedCode.text from congrArg Code.text hsame] at hwithin
    exact Bool.eq_false_iff.mp hnone hwithin.contains

end Shaderwright.Hlsl
