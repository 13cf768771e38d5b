import Mathlib.Tactic.Common
import Shaderwright.Proofs.Emit.Woven
import Shaderwright.Proofs.Hlsl.Bindings
import Shaderwright.Proofs.Hlsl.Rendering

/-!
The sizes of arrays in HLSL. Every declaration reads as a text of its own that the sizes of its
arrays are woven into, wherever it stands and whatever it declares.
-/

namespace Shaderwright.Hlsl

/-! ### How declarations read -/

/-- A texture is declared behind its sampler state, at a register of the same number. -/
def textureText (v : Variable) : String :=
  lineAt 0 ("SamplerState " ++ variableNames.get v.name ++ samplerSuffix ++ v.extent ++ " : " ++
    RegisterClass.sampler.register v.slot ++ ";") ++
  lineAt 0 (types.get v.type.name ++ " " ++ variableNames.get v.name ++ v.extent ++ " : " ++
    RegisterClass.texture.register v.slot ++ ";")

def uniformText (v : Variable) : String :=
  lineAt 0 (qualifiers.get v.qualifier.text ++ " " ++ types.get v.type.name ++ " " ++
    variableNames.get v.name ++ v.extent ++ " : " ++
    (constCategory v.type.arity).registerClass.register v.slot ++ ";")

/-- A declaration outside the functions. -/
def globalText (paint : Paint) (v : VarDecl) : String :=
  if v.var.qualifier = .const then lineAt 0 (v.constantText (phrasing paint))
  else if v.var.qualifier = .param then
    if v.var.type.isSampler then textureText v.var else uniformText v.var
  else lineAt 0 ("static " ++ v.text (phrasing paint) ++ ";")

def declText (paint : Paint) : Decl → String
  | .absent => ""
  | .var v => globalText paint v
  | .func f => definedText paint f

variable {paint : Paint} {w w' : Writer State}

lemma out_declareTexture {v : Variable} (hdepth : w.depth = 0)
    (h : (declareTexture (exprDialect paint) v).exec w = (.ok (), w')) :
    w'.out = w.out ++ textureText v := by
  obtain ⟨type, u, htype, h⟩ := Emit.exec_bind_eq_ok.mp h
  obtain ⟨hsome, rfl⟩ := ExprDialect.exec_mapped_eq_ok.mp htype
  have hget : types.get v.type.name = type := congrArg (Option.getD · "") hsome
  simp only [Emit.exec_bind, ExprDialect.exec_variableName, Emit.exec_writeLine, exec_bind,
    Prod.mk.injEq, true_and, hdepth] at h
  subst h
  rw [textureText, hget]
  simp [lineAt, exprDialect, String.append_assoc]

lemma out_declareUniform {v : Variable} (hdepth : w.depth = 0)
    (h : (declareUniform (exprDialect paint) v).exec w = (.ok (), w')) :
    w'.out = w.out ++ uniformText v := by
  unfold declareUniform at h
  split at h
  · simp at h
  · rename_i category hcategory
    obtain ⟨-, rfl⟩ := ofComponents?_eq_some.mp hcategory
    obtain ⟨type, u, htype, h⟩ := Emit.exec_bind_eq_ok.mp h
    obtain ⟨hsome, rfl⟩ := ExprDialect.exec_mapped_eq_ok.mp htype
    obtain ⟨uniform, u, huniform, h⟩ := Emit.exec_bind_eq_ok.mp h
    obtain ⟨hsome', rfl⟩ := ExprDialect.exec_mapped_eq_ok.mp huniform
    have hget : types.get v.type.name = type := congrArg (Option.getD · "") hsome
    have hget' : qualifiers.get v.qualifier.text = uniform := congrArg (Option.getD · "") hsome'
    simp only [Emit.exec_bind, ExprDialect.exec_variableName, Emit.exec_writeLine, exec_bind,
      Prod.mk.injEq, true_and, hdepth] at h
    subst h
    rw [uniformText, hget, hget']
    simp [lineAt, exprDialect, String.append_assoc]

lemma out_declare {v : VarDecl} (hw : w.Calm {}) (hdepth : w.depth = 0)
    (h : (declare (exprDialect paint) v).exec w = (.ok (), w')) :
    w'.out = w.out ++ globalText paint v := by
  have hd : (exprDialect paint).Follows (setting {}) (phrasing paint) := follows_exprDialect paint
  have hholds : (setting {}).Holds w := ⟨hw, rfl⟩
  unfold declare at h
  unfold globalText
  cases hq : v.var.qualifier with
  | const =>
    simp only [hq] at h
    obtain ⟨-, rfl⟩ := hd.defineConstant v w () w' hholds h
    simp [Setting.behind, hdepth]
  | param =>
    simp only [hq, Emit.exec_bind, Emit.exec_get, hw.function] at h
    split at h
    · rename_i hsampler
      simpa [hsampler] using out_declareTexture hdepth h
    · rename_i hsampler
      simpa [hsampler] using out_declareUniform hdepth h
  | _ =>
    simp only [hq, Emit.exec_bind_of_ok (Emit.exec_get _), hw.function] at h
    have hstatic : Emit.Prints (setting {})
        (do Emit.writeLine ("static " ++ (← (exprDialect paint).varDeclText v) ++ ";")) ()
        (fun n => lineAt n ("static " ++ v.text (phrasing paint) ++ ";")) v.init.reads :=
      .of_eq (.bind (hd.varDeclText v) (.writeLine _)) (fun _ => by simp) (by simp)
    obtain ⟨-, rfl⟩ := hstatic w () w' hholds h
    simp [Setting.behind, hdepth]

lemma out_decl {x : Decl} (hw : w.Calm {}) (hdepth : w.depth = 0)
    (h : ((dialect paint).decl x).exec w = (.ok (), w')) : w'.out = w.out ++ declText paint x := by
  cases x with
  | absent => simp [Dialect.decl] at h
  | var v => exact out_declare hw hdepth h
  | func f =>
    rw [Dialect.exec_func] at h
    obtain ⟨hr, rfl⟩ := Prod.mk.inj h
    have hout := out_define_framed (w := { w with function := some f.name })
      ⟨rfl, hw.accumulator, hw.entry⟩ hdepth (Prod.ext hr rfl)
    exact hout

lemma out_decls {xs : List Decl} (hw : w.Calm {}) (hdepth : w.depth = 0)
    (h : ((dialect paint).decls xs).exec w = (.ok (), w')) :
    w'.out = w.out ++ String.join (xs.map (declText paint)) := by
  induction xs generalizing w with
  | nil =>
    obtain ⟨-, rfl⟩ := Prod.mk.inj h
    simp
  | cons x xs ih =>
    obtain ⟨_, u, hx, hxs⟩ := Emit.exec_bind_eq_ok.mp h
    obtain ⟨hu, hudepth, -⟩ := exec_decl hw hdepth hx
    rw [ih hu hudepth hxs, out_decl hw hdepth hx, List.map_cons, String.join_cons,
      String.append_assoc]

/-! ### Where the sizes stand -/

open Msl (endsApart endsApart_append)

def declarator (v : Variable) : Declarator := v.declarator types variableNames

def stateDeclarator (v : Variable) : Declarator :=
  ⟨"SamplerState", variableNames.get v.name ++ samplerSuffix, v⟩

/-- The arrays that a variable outside the functions is declared as. A texture brings its sampler
states along, and a constant is a replacement text. -/
def globalArrays (v : VarDecl) : List Declarator :=
  if v.var.qualifier = .const then []
  else
    (if v.var.qualifier = .param && v.var.type.isSampler then (stateDeclarator v.var).ifArray
      else []) ++ (declarator v.var).ifArray

/-- The arrays of a function. The parameters of the entry point are not declared. -/
def functionArrays (f : FuncDef) : List Declarator :=
  (if f.name = entryPointName then [] else f.params.flatMap fun p => (declarator p.var).ifArray) ++
    Stmt.arraysOf types variableNames f.body

def declArrays : Decl → List Declarator
  | .absent => []
  | .var v => globalArrays v
  | .func f => functionArrays f

def arrays (s : Shader) : List Declarator := s.decls.flatMap declArrays

lemma woven_paramText (v : VarDecl) :
    Woven (declarator v.var).ifArray fun size => paramText (v.resized size) := by
  have hends : endsApart (if v.var.out then qualifiers.get "out" ++ " " else "") = true := by
    split <;> decide
  refine ((Woven.declared (declarator v.var)).behind _ hends).of_eq fun size => ?_
  simp only [paramText, String.append_assoc]
  rfl

lemma woven_signature (f : FuncDef) :
    Woven (f.params.flatMap fun p => (declarator p.var).ifArray) fun size =>
      signature (f.resized size) := by
  have hparams : List.Forall₂ Woven (f.params.map fun p => (declarator p.var).ifArray)
      (f.params.map fun p size => paramText (p.resized size)) :=
    Woven.forall₂_map fun p _ => woven_paramText p
  refine (((Woven.joinWith hparams).behind (types.get f.returns.name ++ " " ++
    functions.get f.name ++ "(") (endsApart_append (by decide) (by simp))).before ")").of_eq
    fun size => ?_
  simp only [signature, FuncDef.resized, List.map_map, Function.comp_def]

lemma woven_definedText (paint : Paint) (f : FuncDef) :
    Woven (functionArrays f) fun size => definedText paint (f.resized size) := by
  unfold functionArrays
  by_cases hname : f.name = entryPointName
  · rw [if_pos hname, List.nil_append]
    refine (f.woven_framedText (phrasing paint) entrySignature
      ("float4 " ++ resultName f ++ " = float4(0.0, 0.0, 0.0, 0.0);")
      (if f.accumulator = "" then none else some (resultName f))
      ("return " ++ resultName f ++ ";")).of_eq fun size => ?_
    have hmain : (f.resized size).name = entryPointName := hname
    rw [definedText, if_pos hmain, resultName, FuncDef.accumulator_resized]
    rfl
  · rw [if_neg hname]
    exact (FuncDef.woven_text (phrasing paint) (woven_signature f) f).of_eq fun size =>
      if_neg hname

lemma woven_declared {front : String} (hends : endsApart front = true) (d : Declarator)
    (register : String) : Woven d.ifArray fun size => lineAt 0 (front ++ d.type ++ " " ++ d.name ++
      (d.var.resized size).extent ++ " : " ++ register ++ ";") := by
  refine ((((Woven.declared d).behind front hends).before (" : " ++ register ++ ";")).lineAt
    0).of_eq fun size => ?_
  simp only [String.append_assoc]

lemma woven_textureText (v : Variable) :
    Woven ((stateDeclarator v).ifArray ++ (declarator v).ifArray) fun size =>
      textureText (v.resized size) := by
  have hstate := woven_declared (by decide : endsApart "" = true) (stateDeclarator v)
    (RegisterClass.sampler.register v.slot)
  have htexture := woven_declared (by decide : endsApart "" = true) (declarator v)
    (RegisterClass.texture.register v.slot)
  refine (hstate.append htexture fun _ size => endsApart_lineAt _ _).of_eq fun size => ?_
  have hstart : "SamplerState " = "SamplerState" ++ " " := rfl
  simp only [textureText, stateDeclarator, hstart, String.empty_append, String.append_assoc]
  rfl

lemma woven_uniformText (v : Variable) :
    Woven (declarator v).ifArray fun size => uniformText (v.resized size) :=
  woven_declared (endsApart_append (by decide) (by simp) :
    endsApart (qualifiers.get v.qualifier.text ++ " ") = true) (declarator v)
    ((constCategory v.type.arity).registerClass.register v.slot)

lemma woven_globalText (paint : Paint) (v : VarDecl) :
    Woven (globalArrays v) fun size => globalText paint (v.resized size) := by
  unfold globalArrays
  by_cases hconst : v.var.qualifier = .const
  · rw [if_pos hconst]
    exact (Woven.plain (lineAt 0 (v.constantText (phrasing paint)))).of_eq fun size =>
      if_pos hconst
  rw [if_neg hconst]
  by_cases hparam : v.var.qualifier = .param
  · have hglobal : ∀ size, globalText paint (v.resized size) =
        if v.var.type.isSampler then textureText (v.var.resized size)
        else uniformText (v.var.resized size) := fun size =>
      (if_neg hconst).trans (if_pos hparam)
    by_cases hsampler : v.var.type.isSampler
    · rw [if_pos (by simp [hparam, hsampler])]
      exact (woven_textureText v.var).of_eq fun size => (hglobal size).trans (if_pos hsampler)
    · rw [if_neg (by simp [hsampler]), List.nil_append]
      exact (woven_uniformText v.var).of_eq fun size => (hglobal size).trans (if_neg hsampler)
  · rw [if_neg (by simp [hparam]), List.nil_append]
    have hstatic := (((v.woven_text (p := phrasing paint)).behind "static " (by decide)).before
      ";").lineAt 0
    exact hstatic.of_eq fun size => (if_neg hconst).trans (if_neg hparam)

lemma woven_declText (paint : Paint) (x : Decl) :
    Woven (declArrays x) fun size => declText paint (x.resized size) := by
  cases x with
  | absent => exact .plain ""
  | var v => exact woven_globalText paint v
  | func f => exact woven_definedText paint f

lemma endsApart_definedText (paint : Paint) (f : FuncDef) :
    endsApart (definedText paint f) = true := by
  unfold definedText
  split <;> exact endsApart_append (by decide) (by simp)

lemma endsApart_declText (paint : Paint) (x : Decl) : endsApart (declText paint x) = true := by
  cases x with
  | absent => exact (by decide : endsApart "" = true)
  | func f => exact endsApart_definedText paint f
  | var v =>
    show endsApart (globalText paint v) = true
    unfold globalText
    split_ifs
    · exact endsApart_lineAt _ _
    · exact endsApart_append (endsApart_lineAt _ _) fun _ => endsApart_lineAt _ _
    · exact endsApart_lineAt _ _
    · exact endsApart_lineAt _ _

/-! ### All sizes of a shader -/

lemma paint_resized (o : Options) (s : Shader) (size : Sizes) :
    o.paint (s.resized size) = o.paint s := by
  unfold Options.paint
  rw [Shader.func?_resized]
  cases s.func? o.paintFunction with
  | none => rfl
  | some f => simp [FuncDef.resized, VarDecl.resized, Variable.resized, Function.comp_def]

/-- The sizes are woven into the text of a shader, whatever they are. -/
lemma woven_compile (o : Options) (s : Shader) : ∃ text, Woven (arrays s) text ∧
    ∀ size w out w', compile o (some (s.resized size)) w = (.ok out, w') →
      out.text = text size := by
  have hdecls := Woven.join (fun x (_ : x ∈ s.decls) => woven_declText (o.paint s) x)
    fun size x => endsApart_declText _ _
  refine ⟨_, hdecls.behind (headerLine s.name) (endsApart_append (by decide) (by simp)),
    fun size w out w' h => ?_⟩
  obtain ⟨-, v, hv, hcode⟩ := translate_eq_ok.mp (translate_of_compile h)
  have hout := out_decls ⟨rfl, rfl, rfl⟩ rfl hv
  have htext : out.text = v.out := by rw [hcode]
  rw [htext, hout, paint_resized]
  simp [Shader.resized, Function.comp_def]

end Shaderwright.Hlsl
