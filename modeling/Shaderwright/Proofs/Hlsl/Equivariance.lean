import Mathlib.Tactic.Common
import Shaderwright.Proofs.Emit.Equivariance
import Shaderwright.Proofs.Emit.Verbatim
import Shaderwright.Proofs.Hlsl.Composition
import Shaderwright.Proofs.Hlsl.SamplerStates

/-!
Renaming a variable of an HLSL shader. If the name of the variable is no word that HLSL brings
along, no register and no sampler state, then it is replaced in the text of the declarations, and
nowhere else, when the variable gets another name.
-/

namespace Shaderwright.Hlsl

open Msl (Rewording isIdentifier plainText endsApart_append)
open Emit (Mirrors)
open Emit.Mirrors

/-- The texts that are written around the names of a shader. -/
def ownTexts : List String :=
  ["static ", "SamplerState ", "register(", entrySignature, "float4 ",
    " = float4(0.0, 0.0, 0.0, 0.0);", "atan2", defaultAccumulator, "discard;"] ++ statementTexts ++
  (types.entries ++ qualifiers.entries ++ functions.entries ++ variableNames.entries).map Prod.snd

/-- The texts that are made for a parameter of the shader: where it is bound, and the name of its
sampler state. -/
def paramTexts (u : Variable) : List String :=
  [RegisterClass.constant.register u.slot, RegisterClass.texture.register u.slot,
    RegisterClass.sampler.register u.slot, variableNames.get u.name ++ samplerSuffix]

/-- What is asked of an expression, so that `v` can be renamed in it: it does not read `v` as a
texture or need a sampler state of its name. -/
def ExprClear (ρ : Rewording) (v : Variable) (e : Expr) : Prop :=
  e.ClearOf v ∧ ∀ name, texture? e = some name →
    name ≠ v.name ∧ ρ.Fixes (variableNames.get name ++ samplerSuffix)

def VarClear (ρ : Rewording) (v u : Variable) : Prop :=
  v.ClearOf u ∧ (u.qualifier = .param → u ≠ v ∧ ∀ t ∈ paramTexts u, ρ.Fixes t)

/-- A renaming of one variable that leaves alone what belongs to HLSL. -/
structure Clear (ρ : Rewording) (v : Variable) : Prop where
  only : ρ.old = [v.name]
  own : ∀ t ∈ ownTexts, ρ.Fixes t
  old : v.name ∉ inputNames
  new : (ρ.newName v).name ∉ inputNames

variable {ρ : Rewording} {v : Variable} {paint : Paint} {before after : Bool}

abbrev mirrorOf (ρ : Rewording) : Mirror State := ρ.mirror fun _ => True

lemma Clear.fixes_entry (hρ : Clear ρ v) {e : String × String} (h : e ∈ types.entries ++
    qualifiers.entries ++ functions.entries ++ variableNames.entries) : ρ.Fixes e.2 :=
  hρ.own _ (List.mem_append_right _ (List.mem_map_of_mem h))

lemma Clear.fixes_get (hρ : Clear ρ v) {name : String} (h : ρ.Fixes name) :
    ρ.Fixes (variableNames.get name) :=
  Rewording.fixes_get (fun _ he => hρ.fixes_entry (by simp [he])) h

/-! ### Calls -/

/-- The head of a read with the index of an element under the old and the new name. -/
lemma renames_readHead (hρ : Clear ρ v) {name : String} (hname : ρ.Fixes name)
    (hstate : ρ.Fixes (variableNames.get name ++ samplerSuffix)) {subscript subscript' : String}
    (h : ρ.Renames subscript subscript') (hstart : Msl.startsApart subscript = true) :
    ρ.Renames (readHead name subscript) (readHead name subscript') := by
  have htexture : ρ.Renames (variableNames.get name ++ subscript)
      (variableNames.get name ++ subscript') :=
    .append_of_starts (hρ.fixes_get hname) h hstart
  have hmethod : ρ.Fixes ".Sample(" := Rewording.fixes_of_hidden (by decide +kernel)
  have hcall := htexture.append_of_starts hmethod (by decide)
  exact (hcall.append_of_ends (.append_of_starts hstate h hstart)
    (endsApart_append (by decide) (by simp))).closed (by decide)

section CallSample

variable {args : List Expr}

/-- A texture that is read keeps its name. -/
lemma spell_of_ne {name : String} {ref : Ref} (h : (Expr.ident name ref).ClearOf v)
    (hne : name ≠ v.name) : (ρ.newName v).spell name ref = name :=
  if_neg fun href => hne (h.2.mpr href)

lemma mirrors_callSample (hρ : Clear ρ v) (hcall : ExprClear ρ v (.call sampleFunction args))
    (hclear : ∀ e ∈ Expr.partsOf args, e.ClearOf v)
    (hargs : ∀ e ∈ Expr.partsOf args, Mirrors (mirrorOf ρ) true false Eq
      ((exprDialect paint).expr e) ((exprDialect paint).expr (e.rename (ρ.newName v)))) :
    Mirrors (mirrorOf ρ) true false Eq (callSample (args.map (exprDialect paint).operand))
      (callSample ((args.map (Expr.rename (ρ.newName v))).map (exprDialect paint).operand)) := by
  match args with
  | [] => exact .throw _ _
  | [_] => exact .throw _ _
  | _ :: _ :: _ :: _ => exact .throw _ _
  | [texture, uv] =>
    have huv := hargs uv (by simp [Expr.partsOf, uv.self_mem_parts])
    simp only [List.map_cons, List.map_nil]
    -- anything but a variable and an element of one is refused
    have hother : ∀ m', Mirrors (mirrorOf ρ) true false Eq
      (throw (.refused .sampleTexture) : Emit State Unit) m' := fun _ => .throw _ _
    cases texture with
    | ident name ref =>
      obtain ⟨hne, hstate⟩ := hcall.2 name (by simp [texture?])
      have hident := hclear (.ident name ref) (by simp [Expr.partsOf, Expr.parts])
      rw [Expr.rename, spell_of_ne hident hne, callSample_whole, callSample_whole]
      have hhead := renames_readHead hρ (Rewording.fixes_other hρ.only hident.1 hne) hstate
        (Rewording.fixes_of_isPunctuation (by decide)) (by decide : Msl.startsApart "" = true)
      exact .seq (opening hhead (endsApart_append (by decide) (by simp)))
        (huv.seq (mark (by decide) (by simp)))
    | index x i =>
      cases x with
      | ident name ref =>
        obtain ⟨hne, hstate⟩ := hcall.2 name (by simp [texture?])
        have hident := hclear (.ident name ref) (by simp [Expr.partsOf, Expr.parts])
        have hi := hargs i (by simp [Expr.partsOf, Expr.parts, i.self_mem_parts])
        rw [Expr.rename, Expr.rename, spell_of_ne hident hne, callSample_element,
          callSample_element]
        refine hi.captured.bind fun index index' hindex => ?_
        have hsubscript : ρ.Renames ("[" ++ index ++ "]") ("[" ++ index' ++ "]") :=
          .closed (.append_of_ends (Rewording.fixes_of_isPunctuation (by decide)) hindex
            (by decide)) (by decide)
        have hstart : Msl.startsApart ("[" ++ index ++ "]") = true := by
          simp only [Msl.startsApart, String.toList_append]
          rfl
        have hhead := renames_readHead hρ (Rewording.fixes_other hρ.only hident.1 hne) hstate
          hsubscript hstart
        exact .seq (opening hhead (endsApart_append (by decide) (by simp)))
          (huv.seq (mark (by decide) (by simp)))
      | _ => exact hother _
    | _ => exact hother _

end CallSample

lemma truncation_rename (r : NewName) (e : Expr) (param : ShaderType) :
    truncation (e.rename r) param = truncation e param := by
  unfold truncation
  rw [Expr.type?_rename]

lemma needsParentheses_rename (r : NewName) (e : Expr) :
    needsParentheses (e.rename r) = needsParentheses e := by
  cases e <;> rfl

lemma truncation_mem (e : Expr) (param : ShaderType) :
    truncation e param ∈ ["", ".x", ".xy", ".xyz"] := by
  unfold truncation
  repeat' split
  all_goals simp

lemma mirrors_truncation (e : Expr) (param : ShaderType) :
    Mirrors (mirrorOf ρ) false false Eq (Emit.write (truncation e param))
      (Emit.write (truncation e param)) := by
  have hall : (["", ".x", ".xy", ".xyz"].all fun t =>
      (Msl.exposed t.toList).all List.isEmpty && Msl.startsApart t) = true := by decide +kernel
  have hswizzle := List.all_eq_true.mp hall _ (truncation_mem e param)
  rw [Bool.and_eq_true] at hswizzle
  exact write (Rewording.fixes_of_hidden hswizzle.1) (.inr hswizzle.2) (by simp)

lemma mirrors_narrowed {d : ExprDialect State} {r : NewName} {e : Expr} (param : ShaderType)
    (he : Mirrors (mirrorOf ρ) true false Eq (d.expr e) (d.expr (e.rename r))) :
    Mirrors (mirrorOf ρ) true false Eq (narrowed (d.operand e) param)
      (narrowed (d.operand (e.rename r)) param) := by
  have hexpr : ∀ e, (d.operand e).expr = e := fun _ => rfl
  unfold narrowed
  simp only [hexpr, truncation_rename, needsParentheses_rename]
  split
  · exact .seq (mark (by decide) (by simp)) (.seq he (.seq (mark (by decide) (by simp))
      (mirrors_truncation e param)))
  · exact .seq he (mirrors_truncation e param)

lemma forall₂_paintArgs {d : ExprDialect State} {r : NewName} {args : List Expr}
    (h : ∀ e ∈ args, Mirrors (mirrorOf ρ) true false Eq (d.expr e) (d.expr (e.rename r)))
    (params : List ShaderType) :
    List.Forall₂ (Mirrors (mirrorOf ρ) true false Eq) (paintArgs (args.map d.operand) params)
      (paintArgs ((args.map (Expr.rename r)).map d.operand) params) := by
  induction args generalizing params with
  | nil => exact .nil
  | cons e args ih =>
    rw [List.forall_mem_cons] at h
    cases params with
    | nil => exact .cons h.1 (ih h.2 [])
    | cons param params => exact .cons (mirrors_narrowed param h.1) (ih h.2 params)

lemma mirrors_call (hρ : Clear ρ v) {callee : String} {args : List Expr}
    (hcall : ExprClear ρ v (.call callee args))
    (hclear : ∀ e ∈ Expr.partsOf args, ExprClear ρ v e)
    (hargs : ∀ e ∈ Expr.partsOf args, Mirrors (mirrorOf ρ) true false Eq
      ((exprDialect paint).expr e) ((exprDialect paint).expr (e.rename (ρ.newName v)))) :
    Mirrors (mirrorOf ρ) true false Eq
      (call paint callee (args.map (exprDialect paint).operand))
      (call paint callee
        ((args.map (Expr.rename (ρ.newName v))).map (exprDialect paint).operand)) := by
  have hcallee : ρ.Fixes (functions.get callee) :=
    Rewording.fixes_get (fun _ he => hρ.fixes_entry (by simp [he]))
      (Rewording.fixes_other hρ.only hcall.1.1 hcall.1.2)
  have hatan : ρ.Fixes "atan2" := hρ.own _ (by simp [ownTexts])
  have hoperands := ExprDialect.forall₂_operands hargs
  unfold call
  split
  · rename_i hsample
    subst hsample
    exact mirrors_callSample hρ hcall (fun e he => (hclear e he).1) hargs
  · split
    · have hmem : ∀ e ∈ args, e ∈ Expr.partsOf args := by
        intro e he
        rw [Expr.partsOf_eq_flatMap]
        exact List.mem_flatMap.mpr ⟨e, he, e.self_mem_parts⟩
      have hpaint := forall₂_paintArgs (fun e he => hargs e (hmem e he)) paint.params
      exact .seq (opening (hcallee.closed (by decide)) (endsApart_append (by decide) (by simp)))
        (.seq (separated hpaint) (mark (by decide) (by simp)))
    · unfold ExprDialect.callMapped
      simp only [List.length_map]
      split
      · exact ExprDialect.mirrors_callNamed hatan hoperands
      · exact ExprDialect.mirrors_callNamed hcallee hoperands

lemma equivariant_exprDialect (hρ : Clear ρ v) (paint : Paint) :
    (exprDialect paint).Equivariant ρ (fun _ => True) v (ExprClear ρ v) where
  only := hρ.only
  clear _ h := h.1
  types := ⟨rfl, fun _ (he : _ ∈ types.entries) => hρ.fixes_entry (by simp [he])⟩
  qualifiers := ⟨rfl, fun _ (he : _ ∈ qualifiers.entries) => hρ.fixes_entry (by simp [he])⟩
  values _ _ _ he := hρ.fixes_entry (List.mem_append_right _ he)
  old _ _ := get_inputTable_of_not_mem inputName hρ.old
  new _ _ := get_inputTable_of_not_mem inputName hρ.new
  call _ _ := mirrors_call hρ

/-! ### Declarations -/

variable {x : VarDecl}

lemma mirrors_bind (bs : List Binding) :
    Mirrors (mirrorOf ρ) before before Eq (bind bs) (bind bs) :=
  .change (fun _ hw => ⟨trivial, hw.accumulator, hw.markName, hw.markInit⟩) (fun _ => rfl)
    fun _ => rfl

lemma mirrors_variableName (name : String) :
    Mirrors (mirrorOf ρ) before before (fun a a' => a' = a ∧ a = variableNames.get name)
      ((exprDialect paint).variableName name) ((exprDialect paint).variableName name) :=
  .get fun _ _ => .pure ⟨rfl, rfl⟩

lemma fixes_bindingLine {head register : String} (u : Variable) (hhead : ρ.Fixes head)
    (hregister : ρ.Fixes register) :
    ρ.Fixes (head ++ u.extent ++ " : " ++ register ++ ";") :=
  .closed (.joined (.append_of_starts hhead (Rewording.fixes_extent u)
    (Rewording.startsApart_extent u)) hregister (by decide) (by simp)) (by decide)

lemma mirrors_declareTexture (hρ : Clear ρ v) {u : Variable} (hname : ρ.Fixes u.name)
    (hu : ∀ t ∈ paramTexts u, ρ.Fixes t) :
    Mirrors (mirrorOf ρ) true true Eq (declareTexture (exprDialect paint) u)
      (declareTexture (exprDialect paint) u) := by
  have hstate : ρ.Fixes (variableNames.get u.name ++ samplerSuffix) := hu _ (by simp [paramTexts])
  have hsampler : ρ.Fixes "SamplerState " := hρ.own _ (by simp [ownTexts])
  refine ((equivariant_exprDialect hρ paint).typeName _).bind fun type type' htype =>
    (mirrors_variableName u.name).bind fun name name' hnames => ?_
  obtain ⟨rfl, htype⟩ := htype
  obtain ⟨rfl, rfl⟩ := hnames
  have hline : ρ.Fixes ("SamplerState " ++ variableNames.get u.name ++ samplerSuffix) := by
    rw [String.append_assoc]
    exact hsampler.append_of_ends hstate (by decide)
  have htexture : ρ.Fixes (type' ++ " " ++ variableNames.get u.name) :=
    htype.joined (hρ.fixes_get hname) (by decide) (by simp)
  exact .seq (writeLine (fixes_bindingLine u hline (hu _ (by simp [paramTexts]))))
    (.seq (writeLine (fixes_bindingLine u htexture (hu _ (by simp [paramTexts]))))
      (mirrors_bind _))

lemma mirrors_declareUniform (hρ : Clear ρ v) {u : Variable} (hname : ρ.Fixes u.name)
    (hu : ∀ t ∈ paramTexts u, ρ.Fixes t) :
    Mirrors (mirrorOf ρ) true true Eq (declareUniform (exprDialect paint) u)
      (declareUniform (exprDialect paint) u) := by
  have hd := equivariant_exprDialect hρ paint
  have hregister : ∀ category : Category, ρ.Fixes (category.registerClass.register u.slot) := by
    intro category
    rcases category.registerClass <;> exact hu _ (by simp [paramTexts])
  unfold declareUniform
  split
  · exact .throw _ _
  · refine (hd.typeName _).bind fun type type' htype => (hd.qualifier _).bind fun q q' hq =>
      (mirrors_variableName u.name).bind fun name name' hnames => ?_
    obtain ⟨rfl, htype⟩ := htype
    obtain ⟨rfl, hq⟩ := hq
    obtain ⟨rfl, rfl⟩ := hnames
    have hline : ρ.Fixes (q' ++ " " ++ type' ++ " " ++ variableNames.get u.name) :=
      (hq.joined htype (by decide) (by simp)).joined (hρ.fixes_get hname) (by decide) (by simp)
    exact .seq (writeLine (fixes_bindingLine u hline (hregister _))) (mirrors_bind _)

lemma mirrors_declare (hρ : Clear ρ v) (hx : VarClear ρ v x.var)
    (hinit : ∀ p ∈ x.init.parts, ExprClear ρ v p) :
    Mirrors (mirrorOf ρ) true true Eq (declare (exprDialect paint) x)
      (declare (exprDialect paint) (x.rename (ρ.newName v))) := by
  have hd := equivariant_exprDialect hρ paint
  have hstatic : ρ.Fixes "static " := hρ.own _ (by simp [ownTexts])
  have hqualifier : (x.rename (ρ.newName v)).var.qualifier = x.var.qualifier :=
    Variable.qualifier_rename _
  unfold declare
  rw [hqualifier]
  split
  · exact hd.defineConstant hx.1 hinit
  · rename_i hparam
    obtain ⟨hne, htexts⟩ := hx.2 hparam
    have hname := Rewording.fixes_other hρ.only hx.1.1 fun h => hne (hx.1.2 h)
    have hvar : (x.rename (ρ.newName v)).var = x.var := Variable.rename_of_ne hne
    rw [hvar]
    refine .get fun w _ => ?_
    rw [Mirror.image_function]
    split
    · exact .throw _ _
    · split
      · exact mirrors_declareTexture hρ hname htexts
      · exact mirrors_declareUniform hρ hname htexts
  · refine .get fun w _ => ?_
    rw [Mirror.image_function]
    split
    · exact (hd.varDeclText hx.1 hinit).bind fun t t' ht =>
        writeLine ((hstatic.append_of_ends ht (by decide)).closed (by decide))
    · exact hd.varDecl hx.1 hinit

lemma equivariant_stmtDialect (hρ : Clear ρ v) (paint : Paint) :
    (stmtDialect paint).Equivariant ρ (fun _ => True) v (ExprClear ρ v) (VarClear ρ v) where
  toEquivariant := equivariant_exprDialect hρ paint
  clearVar _ h := h.1
  texts t ht := by
    refine hρ.own t ?_
    rcases List.mem_cons.mp ht with rfl | ht
    · simp [ownTexts, stmtDialect]
    · simp [ownTexts, ht]
  declare _ hx hinit := mirrors_declare hρ hx hinit

/-! ### Functions -/

lemma mirrors_paramText (hρ : Clear ρ v) {p : VarDecl} (hp : v.ClearOf p.var) :
    Mirrors (mirrorOf ρ) before before ρ.Renames ((exprDialect paint).paramText p)
      ((exprDialect paint).paramText (p.rename (ρ.newName v))) := by
  have hd := equivariant_exprDialect hρ paint
  unfold ExprDialect.paramText VarDecl.rename
  simp only [Variable.type_rename, Variable.extent_rename, Variable.out_rename]
  refine (hd.typeName _).bind fun type type' htype =>
    (hd.declaredName hp).bind fun name name' hname => ?_
  obtain ⟨rfl, htype⟩ := htype
  have htext : ρ.Renames (type' ++ " " ++ name ++ p.var.extent)
      (type' ++ " " ++ name' ++ p.var.extent) :=
    .append_of_starts (.joined htype hname (by decide) (by simp)) (Rewording.fixes_extent _)
      (Rewording.startsApart_extent _)
  split
  · refine (hd.qualifier _).bind fun q q' hq => .pure ?_
    exact hq.renames.joined htext (by decide) (by simp)
  · exact .pure htext

lemma mirrors_define (hρ : Clear ρ v) (paint : Paint) {g : FuncDef}
    (hg : Decl.ClearOf v (ExprClear ρ v) (VarClear ρ v) (.func g)) :
    Mirrors (mirrorOf ρ) true true Eq (define (stmtDialect paint) g)
      (define (stmtDialect paint) (g.rename (ρ.newName v))) := by
  have hd := equivariant_stmtDialect hρ paint
  obtain ⟨hname, hne⟩ := hg.name g rfl
  have hfunction : ρ.Fixes (functions.get g.name) :=
    Rewording.fixes_get (fun _ he => hρ.fixes_entry (by simp [he]))
      (Rewording.fixes_other hρ.only hname hne)
  have hparams : ∀ p ∈ g.params, v.ClearOf p.var := fun p hp => (hg.param_vars p hp).1
  unfold define
  rw [FuncDef.entryFault?_rename (hg.params g rfl), FuncDef.accumulator_rename (hg.params g rfl)]
  show Mirrors _ _ _ _ (if g.name ≠ entryPointName then _ else _)
    (if g.name ≠ entryPointName then _ else _)
  split
  · unfold StmtDialect.funcDef
    rw [show (g.rename (ρ.newName v)).params = g.params.map (VarDecl.rename (ρ.newName v)) from rfl,
      List.mapM_map]
    refine (hd.typeName _).bind fun type type' htype =>
      (Emit.Mirrors.mapM fun p hp => mirrors_paramText hρ (hparams p hp)).bind fun ts ts' hts => ?_
    refine hd.funcWithSignature ?_ hg.body_exprs hg.body_vars
    exact (((htype.renames.joined hfunction (by decide) (by simp)).joined
      (Rewording.Renames.joinWith (by decide) (by simp) hts) (by decide) (by simp)).closed
      (by decide))
  · split
    · exact .throw _ _
    · have hfloat : ρ.Fixes "float4 " := hρ.own _ (by simp [ownTexts])
      have hzero : ρ.Fixes " = float4(0.0, 0.0, 0.0, 0.0);" := hρ.own _ (by simp [ownTexts])
      have hentry : ρ.Fixes entrySignature := hρ.own _ (by simp [ownTexts])
      have hacc := hg.fixes_accumulator hρ.only (fun _ hu => hu.1) (hρ.own _ (by simp [ownTexts]))
      refine (hd.variableName hacc).bind fun acc acc' hkept => ?_
      obtain ⟨rfl, hkept⟩ := hkept
      have hinit := (hfloat.append_of_ends hkept (by decide)).append_of_starts hzero (by decide)
      exact .seq (.change (fun u hu => ⟨trivial, hu.accumulator, hacc, hinit⟩) (fun _ => rfl)
        fun _ => rfl) (hd.funcWithSignature hentry hg.body_exprs hg.body_vars)

/-! ### Shaders -/

lemma equivariant_dialect (hρ : Clear ρ v) (paint : Paint) :
    (dialect paint).Equivariant ρ (fun _ => True) v (ExprClear ρ v) (VarClear ρ v) where
  statements := equivariant_stmtDialect hρ paint
  define _ := mirrors_define hρ paint

/-- Declarations in which the variable is renamed give the text in which its name is replaced. -/
lemma declsCode_rename (hρ : Clear ρ v) {xs : List Decl}
    (hxs : ∀ x ∈ xs, x.ClearOf v (ExprClear ρ v) (VarClear ρ v)) {code : Code}
    (h : declsCode paint xs = .ok code) :
    declsCode paint (xs.map (Decl.rename (ρ.newName v))) =
      .ok { code with text := ρ.text code.text } := by
  unfold declsCode at h
  split at h
  · rename_i w hw
    obtain rfl := Except.ok.inj h
    rw [declsCode, (equivariant_dialect hρ paint).exec_decls hxs trivial hw]
  · cases h

lemma paint_rename (o : Options) (r : NewName) (s : Shader) : o.paint (s.rename r) = o.paint s := by
  unfold Options.paint
  rw [Shader.func?_rename]
  rcases s.func? o.paintFunction with _ | g
  · rfl
  · simp [FuncDef.rename, VarDecl.rename]

/-- The text of a shader is that of its declarations behind the header. -/
lemma translate_eq_declsCode {o : Options} {s : Shader} {code : Code} :
    translate o (some s) = .ok code ↔ s.name ≠ "" ∧
      ∃ body, declsCode (o.paint s) s.decls = .ok body ∧
        code = { body with text := headerLine s.name ++ body.text } := by
  rw [translate_eq_ok]
  refine and_congr_right fun _ => ?_
  have hbehind := exec_decls_behind (o.paint s) (w := { out := headerLine s.name, own := [] })
    ⟨rfl, rfl, rfl⟩ rfl s.decls
  rcases hcode : declsCode (o.paint s) s.decls with e | body
  · rw [hcode] at hbehind
    obtain ⟨u, hu⟩ := hbehind
    simp [hu]
  · rw [hcode] at hbehind
    obtain ⟨u, hu, -, -, hout, hown⟩ := hbehind
    simp [hu, hout, hown]

/-- Another text changes nothing in a compile but the text. -/
lemma compile_withText {o : Options} {s s' : Shader} {code : Code} {t : String} {w w' : World}
    {out : Output} (hname : s'.name = s.name) (ht : translate o (some s) = .ok code)
    (ht' : translate o (some s') = .ok { code with text := t })
    (h : compile o (some s) w = (.ok out, w')) :
    compile o (some s') w = (.ok { out with text := t }, w') := by
  unfold compile at h ⊢
  simp only [ht, ht', Option.map_some, Option.getD_some, hname] at h ⊢
  rcases ho : overflow? code.bindings o.slotBudget with _ | overflow
  · simp only [ho, Build.bind_apply, Build.pure_apply] at h ⊢
    cases h
    rfl
  · by_cases hpolicy : o.budgetPolicy = .fatal
    · simp only [ho, hpolicy, if_true, Build.pure_apply] at h
      cases h
    · simp only [ho, hpolicy, if_false, Build.bind_apply, Build.pure_apply] at h ⊢
      cases h
      rfl

/-- The name of the variable is replaced in the text behind the header, and that is all. -/
lemma compile_rename {o : Options} {s : Shader} {w w' : World} {out : Output} (hρ : Clear ρ v)
    (hs : ∀ x ∈ s.decls, x.ClearOf v (ExprClear ρ v) (VarClear ρ v))
    (h : compile o (some s) w = (.ok out, w')) :
    ∃ body, out.text = headerLine s.name ++ body ∧
      compile o (some (s.rename (ρ.newName v))) w =
        (.ok { out with text := headerLine s.name ++ ρ.text body }, w') := by
  have ht := translate_of_compile h
  obtain ⟨hname, body, hbody, hcode⟩ := translate_eq_declsCode.mp ht
  refine ⟨body.text, congrArg Code.text hcode, compile_withText (s := s) rfl ht ?_ h⟩
  refine translate_eq_declsCode.mpr ⟨hname, { body with text := ρ.text body.text }, ?_, ?_⟩
  · rw [paint_rename]
    exact declsCode_rename hρ hs hbody
  · rw [hcode]
    rfl

end Shaderwright.Hlsl
